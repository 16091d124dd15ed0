import LambdaNotation.Proofs.Inward
import LambdaNotation.Proofs.Requests

/-!
# Levels

A captured body stands in parentheses in the text around it: it is shorter, and fewer parentheses
are open in it. So the machine that builds terms holds no more bodies open than half the length of a
text (`Machine.bodies_eq_of_length`), and levels and parentheses are counted without an overflow
(`Machine.exists_reported_of_bodies`). What is left is one equation for reading a text and one for
reading a body.
-/

namespace LambdaNotation

open Text

namespace Text

variable {s t b : Text}

/-- A body stands in a text, in parentheses. -/
def Encloses (t b : Text) : Prop := '(' :: (b ++ [')']) <:+: t

theorem Encloses.length_le (h : Encloses t b) : b.length + 2 ≤ t.length := by
  have hl := List.IsInfix.length_le h
  simp only [List.length_cons, List.length_append, List.length_nil] at hl
  omega

/-- In a body one parenthesis less is open than around it. -/
theorem Encloses.exists_shallow {n : Nat} (h : Encloses t b) (ho : Opened t) (hs : Shallow t n) :
    ∃ m, n = m + 1 ∧ Shallow b m := by
  obtain ⟨u, v, rfl⟩ := h
  have hu : 0 ≤ excess u := ho u ⟨_, (List.append_assoc ..).symm⟩
  have hq : ∀ q, q <+: b → excess q + 1 ≤ n := by
    rintro q ⟨r, rfl⟩
    have hle := hs (u ++ '(' :: q) ⟨r ++ [')'] ++ v, by simp⟩
    rw [excess_append, excess_cons, excess_opening] at hle
    omega
  have h0 := hq [] List.nil_prefix
  rw [excess_nil] at h0
  refine ⟨n - 1, by omega, fun q hp => ?_⟩
  have hle := hq q hp
  omega

theorem Encloses.raised_eq (h : Encloses t b) (ht : raised t = t) : raised b = b :=
  raised_of_part ht (List.IsInfix.trans ⟨['('], [')'], rfl⟩ h)

end Text

namespace Pending

variable {s b : Text} {p : Piece}

/-- The bodies that are captured from a text stand in its pieces. -/
theorem encloses_textAll_of_mem {ps : List Piece} (hp : p ∈ ps) (hb : p.body? = some b) :
    Encloses (Piece.textAll ps) b := by
  obtain ⟨before, after, rfl⟩ := List.append_of_mem hp
  have hin : p.text <:+: Piece.textAll (before ++ p :: after) :=
    ⟨Piece.textAll before, Piece.textAll after, by simp⟩
  exact (Piece.infix_text hb).trans hin

theorem textAll_cut_isPrefix (s : Text) : Piece.textAll (start.cut s).pieces <+: s := by
  obtain ⟨rest, hr, -⟩ := cut_text start s
  exact ⟨rest, hr.symm⟩

/-- So they stand in the text. -/
theorem encloses_of_mem_cut (hp : p ∈ (start.cut s).pieces) (hb : p.body? = some b) :
    Encloses s b :=
  List.IsInfix.trans (encloses_textAll_of_mem hp hb) (textAll_cut_isPrefix s).isInfix

/-- Fewer parentheses are open in them. -/
theorem exists_shallow_of_mem_cut {n : Nat} (hp : p ∈ (start.cut s).pieces)
    (hb : p.body? = some b) (hs : Shallow s n) : ∃ m, n = m + 1 ∧ Shallow b m :=
  (encloses_textAll_of_mem hp hb).exists_shallow (cut_row (d := start) (s := s) trivial).balanced.1
    fun q hq => hs q (hq.trans (textAll_cut_isPrefix s))

theorem balanced_of_mem_cut (hp : p ∈ (start.cut s).pieces) (hb : p.body? = some b) :
    Balanced b :=
  (cut_row (d := start) (s := s) trivial).body_balanced hp hb

end Pending

theorem mapError_eq_ok_iff {f : Failure ParseError → Failure ParseError} {x : Outcome}
    {ts : List Term} : x.mapError f = .ok ts ↔ x = .ok ts := by
  cases x with
  | error y => exact ⟨fun h => (nomatch h), fun h => (nomatch h)⟩
  | ok us => exact Iff.rfl

theorem mapError_eq_error_iff {f : Failure ParseError → Failure ParseError} {x : Outcome}
    {y : Failure ParseError} : x.mapError f = .error y ↔ ∃ z, x = .error z ∧ y = f z := by
  cases x with
  | error z =>
    constructor
    · intro h
      exact ⟨z, rfl, (Except.error.inj h).symm⟩
    · rintro ⟨_, hz, rfl⟩
      cases hz
      rfl
  | ok us => exact ⟨fun h => (nomatch h), fun ⟨_, h, _⟩ => (nomatch h)⟩

/-- What is read one level further in has a level. -/
theorem BodyReader.inner_eq_ok_iff {read : BodyReader} {b : Text} {level : UInt64}
    {ts : List Term} : (read.inner b level).value = .ok ts ↔
      level.toNat + 1 < 2 ^ 64 ∧ (read b (level + 1)).value = .ok ts := by
  by_cases hl : level.toNat + 1 < 2 ^ 64
  · rw [inner_of_lt hl, and_iff_right hl]
  · rw [inner_of_not_lt hl]
    exact ⟨fun h => (nomatch h), fun h => absurd h.1 hl⟩

namespace Machine

/-- There is room to count the parentheses of a text and the levels in it. -/
structure Room (level : UInt64) (s : Text) : Prop where
  depth : s.length < 2 ^ 31
  level : level.toNat + s.length < 2 ^ 64

variable {limit level : UInt64} {s b : Text} {n j : Nat}

theorem room_zero (h : s.length < 2 ^ 31) : Room 0 s := by
  refine ⟨h, ?_⟩
  have h0 : (0 : UInt64).toNat = 0 := rfl
  omega

theorem toNat_add_one (h : level.toNat + 1 < 2 ^ 64) : (level + 1).toNat = level.toNat + 1 := by
  have h1 : (1 : UInt64).toNat = 1 := rfl
  rw [UInt64.toNat_add, h1, Nat.mod_eq_of_lt h]

/-- Levels up to the limit are counted in 64 bits. -/
theorem toNat_succ_of_lt (h : level.toNat < limit.toNat) :
    (level + 1).toNat = level.toNat + 1 := by
  have hl := UInt64.toNat_lt limit
  exact toNat_add_one (by omega)

theorem Room.toNat_succ (h : Room level s) (hb : Encloses s b) :
    (level + 1).toNat = level.toNat + 1 := by
  have hl := h.level
  have hlen := hb.length_le
  exact toNat_add_one (by omega)

/-- There is as much room in a body, one level further in. -/
theorem Room.body (h : Room level s) (hb : Encloses s b) : Room (level + 1) b := by
  have hd := h.depth
  have hl := h.level
  have hlen := hb.length_le
  refine ⟨by omega, ?_⟩
  rw [h.toNat_succ hb]
  omega

theorem Room.inner (h : Room level s) (hb : Encloses s b) (read : BodyReader) :
    read.inner b level = read b (level + 1) := by
  have hl := h.level
  have hlen := hb.length_le
  exact BodyReader.inner_of_lt (show level.toNat + 1 < 2 ^ 64 by omega) read b

theorem Room.raised (h : Room level s) : Room level s.raised := by
  refine ⟨?_, ?_⟩ <;> rw [length_raised]
  exacts [h.depth, h.level]

/-! ## How many bodies are open -/

/-- What holds of a text and its terms whenever it holds of the bodies that are read for it holds of
every body that is read. -/
theorem bodies_keep {m : Machine} {P : Text → List Term → Prop}
    (hrun : ∀ read : BodyReader, (∀ b level ts, (read b level).value = .ok ts → P b ts) →
      ∀ b level ts, (m.run read b level).value = .ok ts → P b ts) (n : Nat) :
    ∀ b level ts, (m.bodies n b level).value = .ok ts → P b ts := by
  induction n with
  | zero => exact fun _ _ _ h => nomatch h
  | succ n ih =>
    intro b level ts h
    by_cases hl : m.limit < level
    · rw [bodies_of_tooDeep hl] at h
      cases h
    · rw [bodies_succ hl] at h
      exact hrun _ ih b level ts (mapError_eq_ok_iff.1 h)

theorem bodies_succ_value_of_fits (hl : ¬ limit < level) (hb : Pending.start.Fits b.raised)
    (n : Nat) : ((standard limit).bodies (n + 1) b level).value =
      ((Pending.start.cut b.raised).outcome ((standard limit).bodies n) level).mapError
        (·.within b) := by
  rw [bodies_succ hl, run_value_of_fits limit ((standard limit).bodies n) hb]

theorem bodies_succ_value (hl : ¬ limit < level) (hb : b.length < 2 ^ 31) (n : Nat) :
    ((standard limit).bodies (n + 1) b level).value =
      ((Pending.start.cut b.raised).outcome ((standard limit).bodies n) level).mapError
        (·.within b) :=
  bodies_succ_value_of_fits hl (Pending.fits_of_depth_eq_zero rfl (by rwa [length_raised])) n

/-- Readers that agree on what stands in a text in parentheses make the same run over it. -/
theorem run_eq_of_encloses {read read' : BodyReader} (hs : s.length < 2 ^ 31)
    (h : ∀ b, Encloses s.raised b → read.inner b level = read'.inner b level) :
    (standard limit).run read s level = (standard limit).run read' s level := by
  refine run_congr limit (Pending.fits_of_depth_eq_zero rfl (by rwa [length_raised])) fun b hb => ?_
  obtain ⟨p, hp, hpb⟩ := Piece.exists_of_mem_asked hb
  exact h b (Pending.encloses_of_mem_cut hp hpb)

/-- How many bodies may be open does not show in a body too short for more of them to lie in one
another. -/
theorem bodies_eq_of_length (hb : b.length < 2 ^ 31) (hn : b.length + 2 ≤ 2 * n)
    (hj : b.length + 2 ≤ 2 * j) :
    (standard limit).bodies n b level = (standard limit).bodies j b level := by
  induction n generalizing j b level with
  | zero => omega
  | succ n ih =>
    obtain ⟨j, rfl⟩ : ∃ k, j = k + 1 := ⟨j - 1, by omega⟩
    by_cases hl : limit < level
    · rw [bodies_of_tooDeep hl, bodies_of_tooDeep hl]
    · have hrun : (standard limit).run ((standard limit).bodies n) b level =
          (standard limit).run ((standard limit).bodies j) b level := by
        refine run_eq_of_encloses hb fun c hc => ?_
        have hlen := hc.length_le
        rw [length_raised] at hlen
        unfold BodyReader.inner
        rw [ih (b := c) (j := j) (by omega) (by omega) (by omega)]
      rw [bodies_succ hl, bodies_succ hl, hrun]

/-- How many bodies may be open does not show in a run either, if the text is too short for more. -/
theorem run_bodies_eq (hs : s.length < 2 ^ 31) (hn : s.length ≤ 2 * n) :
    (standard limit).run ((standard limit).bodies n) s level =
      (standard limit).run (standard limit).parseBody s level := by
  refine run_eq_of_encloses hs fun b hb => ?_
  have hlen := hb.length_le
  rw [length_raised] at hlen
  -- With more open than levels are within the limit, the length of the text decides nothing.
  have hlimit : (standard limit).limit.toNat = limit.toNat := rfl
  have hmore : (standard limit).bodies (n + (limit.toNat + 1)) b (level + 1) =
      (standard limit).parseBody b (level + 1) :=
    (inward_standard limit).bodies_eq b (by omega) (by omega)
  unfold BodyReader.inner
  rw [bodies_eq_of_length (j := n + (limit.toNat + 1)) (by omega) (by omega) (by omega), hmore]

/-! ## Errors of bodies -/

/-- The error of a body names the body. -/
theorem exists_within_of_bodies {m : Machine} {x : Failure ParseError}
    (h : (m.bodies n b level).value = .error x) : ∃ y : Failure ParseError, x = y.within b := by
  cases n with
  | zero => exact ⟨_, (Except.error.inj h).symm⟩
  | succ n =>
    by_cases hl : m.limit < level
    · rw [bodies_of_tooDeep hl, refuse_value] at h
      exact ⟨_, (Except.error.inj h).symm⟩
    · rw [bodies_succ hl] at h
      obtain ⟨y, -, hy⟩ := mapError_eq_error_iff.1 h
      exact ⟨y, hy⟩

/-- So does the error of a body further in. -/
theorem exists_within_of_inner {m : Machine} {x : Failure ParseError}
    (h : ((m.bodies n).inner b level).value = .error x) :
    ∃ y : Failure ParseError, x = y.within b := by
  unfold BodyReader.inner at h
  split at h
  · exact exists_within_of_bodies h
  · exact ⟨.overflow, (Except.error.inj h).symm⟩

/-- Only an error of the automaton names no body, and it comes after pieces that are read. -/
theorem exists_of_outcome_eq_unwrapped {m : Machine} {x : Cut} {e : ParseError}
    (h : x.outcome (m.bodies n) level = .error (.reported e)) (he : e.captured = []) : ∃ g ts,
      x.error = some g ∧ e = .ofFault (.grammar g) ∧
      x.pieces.mapM (Piece.read (m.bodies n) level) = .ok ts := by
  unfold Cut.outcome at h
  rcases hp : x.pieces.mapM (Piece.read (m.bodies n) level) with z | ts
  · rw [hp] at h
    cases h
    obtain ⟨p, -, hread⟩ := Piece.exists_of_mapM_read_eq_error hp
    obtain ⟨b, -, hb⟩ := Piece.exists_of_read_eq_error hread
    obtain ⟨y, hy⟩ := exists_within_of_inner hb
    obtain ⟨e', -, rfl⟩ := Failure.within_eq_reported_iff.1 hy.symm
    cases he
  · rw [hp] at h
    rcases hg : x.error with _ | g
    · rw [hg] at h
      cases h
    · rw [hg] at h
      cases h
      exact ⟨g, ts, rfl, rfl, rfl⟩

/-- A run that fails reports an error if all bodies do. -/
theorem exists_reported_of_outcome {read : BodyReader} {x : Cut} {y : Failure ParseError}
    (hread : ∀ p ∈ x.pieces, ∀ b, p.body? = some b → ∀ y,
      (read.inner b level).value = .error y → ∃ e, y = .reported e)
    (h : x.outcome read level = .error y) : ∃ e, y = .reported e := by
  rcases Cut.outcome_eq_error h with ⟨p, hp, hy⟩ | ⟨g, -, rfl⟩
  · obtain ⟨b, hb, hy⟩ := Piece.exists_of_read_eq_error hy
    exact hread p hp b hb y hy
  · exact ⟨_, rfl⟩

/-- Nothing is counted beyond its bits in a body, if few enough parentheses are open in it: the
levels reach the limit or the number of these parentheses at most. -/
theorem exists_reported_of_bodies {d : Nat} {x : Failure ParseError} (hs : Shallow b.raised d)
    (hd : d < 2 ^ 31) (hlevel : level.toNat + d < 2 ^ 64 ∨ limit.toNat + 1 < 2 ^ 64)
    (h : ((standard limit).bodies n b level).value = .error x) : ∃ e, x = .reported e := by
  induction n generalizing b level d x with
  | zero => exact ⟨_, (Except.error.inj h).symm⟩
  | succ n ih =>
    by_cases hl : limit < level
    · rw [bodies_of_tooDeep hl, refuse_value] at h
      exact ⟨_, (Except.error.inj h).symm⟩
    · rw [bodies_succ_value_of_fits hl (Pending.fits_of_shallow rfl hs hd)] at h
      obtain ⟨y, hy, rfl⟩ := mapError_eq_error_iff.1 h
      have hrun : ∃ e, y = .reported e := by
        refine exists_reported_of_outcome (fun p hp c hc z hz => ?_) hy
        obtain ⟨d, rfl, hs'⟩ := Pending.exists_shallow_of_mem_cut hp hc hs
        have hle := UInt64.le_iff_toNat_le.1 (UInt64.not_lt.1 hl)
        have hroom : level.toNat + 1 < 2 ^ 64 := by
          have hlimit := UInt64.toNat_lt limit
          omega
        have hsucc := toNat_add_one hroom
        rw [BodyReader.inner_of_lt hroom] at hz
        rw [← (Pending.encloses_of_mem_cut hp hc).raised_eq (raised_raised b)] at hs'
        exact ih hs' (by omega) (by omega) hz
      obtain ⟨e, rfl⟩ := hrun
      exact ⟨_, rfl⟩

/-! ## Reading bodies and texts -/

theorem parse_eq_outcome (m : Machine) (s : Text) : (m.parse s).value =
    Context.outcome (EStateM.bind (s.raised.forM (m.feed m.parseBody))
      (fun _ => m.finish m.parseBody) {}) :=
  run_eq_outcome_scan m.parseBody m s 0

theorem parseBody_of_tooDeep (h : limit < level) (b : Text) :
    ((standard limit).parseBody b level).value =
      .error ((Failure.ofFault (.tooDeep limit)).within b) := by
  rw [parseBody, bodies_of_tooDeep h, refuse_value]
  rfl

/-- A body within the limit is read like a text, and its error names it. -/
theorem parseBody_of_le (hl : level ≤ limit) (b : Text) :
    (standard limit).parseBody b level =
      ⟨((standard limit).run (standard limit).parseBody b level).value.mapError (·.within b),
        Log.note ∅ (.reading b level) ++
          ((standard limit).run (standard limit).parseBody b level).log⟩ :=
  ((inward_standard limit).parseBody_eq b level).trans (if_neg (UInt64.not_lt.2 hl))

theorem parseBody_value (h : b.length < 2 ^ 31) (hl : level ≤ limit) :
    ((standard limit).parseBody b level).value =
      ((Pending.start.cut b.raised).outcome (standard limit).parseBody level).mapError
        (·.within b) := by
  rw [parseBody_of_le hl, run_value limit _ h]

theorem parseBody_eq_ok_iff {ts : List Term} (h : b.length < 2 ^ 31) :
    ((standard limit).parseBody b level).value = .ok ts ↔ level ≤ limit ∧
      (Pending.start.cut b.raised).outcome (standard limit).parseBody level = .ok ts := by
  by_cases hl : limit < level
  · rw [parseBody_of_tooDeep hl]
    exact ⟨fun h => (nomatch h), fun h => absurd hl (UInt64.not_lt.2 h.1)⟩
  · have hl := UInt64.not_lt.1 hl
    rw [parseBody_value h hl, mapError_eq_ok_iff, and_iff_right hl]

/-- A body fails if it lies too deep, or within the limit if reading it fails. -/
theorem parseBody_eq_error_iff {x : Failure ParseError} (h : b.length < 2 ^ 31) :
    ((standard limit).parseBody b level).value = .error x ↔
      (limit < level ∧ x = (Failure.ofFault (.tooDeep limit)).within b) ∨
      (level ≤ limit ∧ ∃ y, (Pending.start.cut b.raised).outcome (standard limit).parseBody level =
        .error y ∧ x = y.within b) := by
  by_cases hl : limit < level
  · have hl' : ¬ level ≤ limit := UInt64.not_le.2 hl
    rw [parseBody_of_tooDeep hl, Except.error.injEq, and_iff_right hl, eq_comm]
    simp only [hl', false_and, or_false]
  · have hl' := UInt64.not_lt.1 hl
    rw [parseBody_value h hl', mapError_eq_error_iff, and_iff_right hl']
    simp only [hl, false_and, false_or]

theorem parse_value (h : s.length < 2 ^ 31) :
    ((standard limit).parse s).value =
      (Pending.start.cut s.raised).outcome (standard limit).parseBody 0 :=
  run_value limit (standard limit).parseBody h 0

end Machine

end LambdaNotation
