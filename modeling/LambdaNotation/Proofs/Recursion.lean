import LambdaNotation.Proofs.Level

/-!
# Runs within runs

The bodies that a run asks for stand in its text one after the other, each in parentheses of its own
(`Machine.enclosesAll_requests`), so each is at least two characters shorter than the text. So the
runs of a parse (`Machine.Runs`) are nested at most half as deep as the text is long, and reading
ends even where the limit would allow more (`Machine.nesting_of_runs`).
-/

namespace LambdaNotation

open Text

namespace Text

variable {s : Text} {b : Text} {bs cs : List Text}

/-- The texts `bs` stand in a text one after the other, each in parentheses of its own. -/
inductive EnclosesAll : Text → List Text → Prop
  | nil (s : Text) : EnclosesAll s []
  | cons (before b : Text) {s : Text} {bs : List Text} (h : EnclosesAll s bs) :
      EnclosesAll (before ++ '(' :: (b ++ ')' :: s)) (b :: bs)

theorem EnclosesAll.append_left (t : Text) (h : EnclosesAll s bs) : EnclosesAll (t ++ s) bs := by
  cases h with
  | nil => exact .nil _
  | cons before b h =>
    rw [← List.append_assoc]
    exact .cons (t ++ before) b h

theorem EnclosesAll.left (h : EnclosesAll s (bs ++ cs)) : EnclosesAll s bs := by
  induction bs generalizing s with
  | nil => exact .nil s
  | cons b bs ih =>
    cases h with
    | cons before b h => exact .cons before b (ih h)

theorem EnclosesAll.encloses (h : EnclosesAll s bs) (hb : b ∈ bs) : Encloses s b := by
  induction h with
  | nil => cases hb
  | @cons before b' s bs _ ih =>
    rcases List.mem_cons.1 hb with rfl | hb
    · exact ⟨before, s, by simp⟩
    · obtain ⟨u, v, huv⟩ := ih hb
      exact ⟨before ++ '(' :: (b' ++ ')' :: u), v, by simp [← huv]⟩

end Text

/-- The bodies of pieces stand so in the text of the pieces. -/
theorem Piece.enclosesAll_textAll (ps : List Piece) (rest : Text) :
    EnclosesAll (textAll ps ++ rest) (ps.filterMap body?) := by
  induction ps with
  | nil => exact .nil _
  | cons p ps ih =>
    rw [textAll_cons, List.append_assoc]
    cases p with
    | name symbol => exact ih.append_left symbol
    | group body =>
      have h := EnclosesAll.cons [] body ih
      simpa [text, body?] using h
    | lambda binder body =>
      have h := EnclosesAll.cons ('L' :: (binder ++ ['.'])) body ih
      simpa [text, body?] using h

namespace Machine

variable {limit level level' : UInt64} {read : BodyReader} {s t b : Text} {n : Nat}

/-- The bodies that a run asks for stand in its text one after the other. -/
theorem enclosesAll_requests (hs : s.length < 2 ^ 31) (hl : level.toNat + 1 < 2 ^ 64) :
    EnclosesAll s.raised (((standard limit).requests read s level).map Prod.fst) := by
  have hfst : Prod.fst ∘ (fun b : Text => (b, level + 1)) = id := rfl
  rw [requests_eq limit (Pending.fits_of_depth_eq_zero rfl (by rwa [length_raised])) hl,
    List.map_map, hfst, List.map_id]
  obtain ⟨rest, hrest, -⟩ := Pending.cut_text .start s.raised
  obtain ⟨later, hlater⟩ :=
    Piece.asked_prefix_bodies read level (Pending.start.cut s.raised).pieces
  have hall := Piece.enclosesAll_textAll (Pending.start.cut s.raised).pieces rest
  rw [← hrest, ← hlater] at hall
  exact hall.left

theorem encloses_of_mem_requests (hs : s.length < 2 ^ 31) (hl : level.toNat + 1 < 2 ^ 64)
    (h : (b, level') ∈ (standard limit).requests read s level) :
    Encloses s.raised b ∧ level' = level + 1 := by
  refine ⟨(enclosesAll_requests hs hl).encloses (List.mem_map_of_mem h), ?_⟩
  rw [requests_eq limit (Pending.fits_of_depth_eq_zero rfl (by rwa [length_raised])) hl] at h
  obtain ⟨_, -, h⟩ := List.mem_map.1 h
  exact (Prod.mk.inj h).2.symm

theorem readings_parseBody (hl : level ≤ limit) (b : Text) :
    ((standard limit).parseBody b level).log.readings =
      (b, level) :: ((standard limit).run (standard limit).parseBody b level).log.readings := by
  rw [parseBody_of_le hl, Log.readings_append, Log.readings_note, Log.readings_empty]
  rfl

/-- The runs of a parse, each with the number of runs around it and the level it is given: the run
over the text, and a run over every body within the limit that a run asks for. -/
inductive Runs (m : Machine) (s : Text) : Nat → UInt64 → Text → Prop
  | text : Runs m s 0 0 s
  | body {n : Nat} {level level' : UInt64} {t b : Text} (h : Runs m s n level t)
      (hb : (b, level') ∈ m.requests m.parseBody t level) (hl : level' ≤ m.limit) :
      Runs m s (n + 1) level' b

namespace Runs

/-- The level counts the runs around, and each of them takes two characters of the text. -/
theorem level_and_length (hs : s.length < 2 ^ 31) (h : (standard limit).Runs s n level t) :
    level.toNat = n ∧ 2 * n + t.length ≤ s.length := by
  induction h with
  | text => exact ⟨rfl, by omega⟩
  | body _ hb _ ih =>
    obtain ⟨hlevel, hlen⟩ := ih
    obtain ⟨henc, rfl⟩ := encloses_of_mem_requests (by omega) (by omega) hb
    have hbody := henc.length_le
    rw [length_raised] at hbody
    refine ⟨?_, by omega⟩
    rw [toNat_add_one (by omega), hlevel]

theorem length_lt (hs : s.length < 2 ^ 31) (h : (standard limit).Runs s n level t) :
    t.length < 2 ^ 31 ∧ level.toNat + 1 < 2 ^ 64 := by
  obtain ⟨hlevel, hlen⟩ := h.level_and_length hs
  exact ⟨by omega, by omega⟩

theorem fits (hs : s.length < 2 ^ 31) (h : (standard limit).Runs s n level t) :
    Pending.start.Fits t.raised :=
  Pending.fits_of_depth_eq_zero rfl (by rw [length_raised]; exact (h.length_lt hs).1)

/-- What is read in a run of a parse is in the log of the parse, and so is the run, if it is over a
body. -/
theorem readings_mem (hs : s.length < 2 ^ 31) (h : (standard limit).Runs s n level t) :
    (∀ r ∈ ((standard limit).run (standard limit).parseBody t level).log.readings,
        r ∈ ((standard limit).parse s).log.readings) ∧
      (n ≠ 0 → (t, level) ∈ ((standard limit).parse s).log.readings) := by
  induction h with
  | text => exact ⟨fun _ hr => hr, fun h => absurd rfl h⟩
  | @body n level level' t b h hb hl ih =>
    have hin : ∀ r ∈ ((standard limit).parseBody b level').log.readings,
        r ∈ ((standard limit).parse s).log.readings := fun r hr => by
      refine ih.1 r ?_
      rw [readings_run limit (h.fits hs)]
      exact List.mem_flatMap.2 ⟨(b, level'), hb, hr⟩
    have hl' : level' ≤ limit := hl
    rw [readings_parseBody hl'] at hin
    obtain ⟨hrun, hin⟩ := List.forall_mem_cons.1 hin
    exact ⟨hin, fun _ => hrun⟩

/-- What is read in a run of a parse is a run of the parse. -/
theorem exists_of_mem_readings (hs : s.length < 2 ^ 31) (h : (standard limit).Runs s n level t)
    (hr : (b, level') ∈ ((standard limit).run (standard limit).parseBody t level).log.readings) :
    ∃ n', (standard limit).Runs s (n' + 1) level' b := by
  -- On the length of the text, since a body is shorter than the text around it.
  induction hlen : t.length using Nat.strong_induction_on generalizing n level t with
  | _ m ih =>
    rw [readings_run limit (h.fits hs)] at hr
    obtain ⟨⟨c, l⟩, hc, hr⟩ := List.mem_flatMap.1 hr
    obtain ⟨henc, rfl⟩ := encloses_of_mem_requests (h.length_lt hs).1 (h.length_lt hs).2 hc
    by_cases hl : limit < level + 1
    · rw [parseBody, bodies_of_tooDeep hl] at hr
      cases hr
    · have hrun := Runs.body h hc (UInt64.not_lt.1 hl)
      rw [readings_parseBody (UInt64.not_lt.1 hl)] at hr
      rcases List.mem_cons.1 hr with heq | hr
      · obtain ⟨rfl, rfl⟩ := Prod.mk.inj heq
        exact ⟨n, hrun⟩
      · have hshort := henc.length_le
        rw [length_raised] at hshort
        exact ih c.length (by omega) hrun hr rfl

end Runs

/-- **Runs within runs end by themselves.** In every run of a parse the bodies that are asked for
stand in the text one after the other, so each is at least two characters shorter, and no run has
more runs around it than half the length of the text that is parsed. The runs over bodies are those
in the log. To allow half as many open bodies as the text is long changes nothing, whatever the
limit. -/
theorem nesting_of_runs (hs : s.length < 2 ^ 31) :
    (∀ n level t, (standard limit).Runs s n level t →
        let bodies := ((standard limit).requests (standard limit).parseBody t level).map Prod.fst
        EnclosesAll t.raised bodies ∧ (∀ b ∈ bodies, b.length + 2 ≤ t.length) ∧
          2 * n + t.length ≤ s.length) ∧
      (∀ b level, .reading b level ∈ ((standard limit).parse s).log.toList ↔
        ∃ n, (standard limit).Runs s (n + 1) level b) ∧
      ∀ n, s.length ≤ 2 * n →
        (standard limit).run ((standard limit).bodies n) s 0 = (standard limit).parse s := by
  refine ⟨fun n level t h => ?_, fun b level => ?_, fun n hn => ?_⟩
  · have hall : EnclosesAll t.raised
        (((standard limit).requests (standard limit).parseBody t level).map Prod.fst) :=
      enclosesAll_requests (h.length_lt hs).1 (h.length_lt hs).2
    refine ⟨hall, fun b hb => ?_, (h.level_and_length hs).2⟩
    have hlen := (hall.encloses hb).length_le
    rwa [length_raised] at hlen
  · rw [← Log.mem_readings_iff]
    constructor
    · exact Runs.text.exists_of_mem_readings hs
    · rintro ⟨n, h⟩
      exact (h.readings_mem hs).2 (Nat.succ_ne_zero n)
  · exact run_bodies_eq hs hn

/-- Under the greatest limit: a lambda over a group in a group, after a group. -/
theorem nesting_of_runs_in_lambda :
    let limit : UInt64 := 18446744073709551615
    let s := "(x1)ly1.((z))".toList
    s.length < 2 ^ 31 ∧
      (standard limit).requests (standard limit).parseBody s 0 =
        [("X1".toList, 1), ("(Z)".toList, 1)] ∧
      EnclosesAll (raised s) ["X1".toList, "(Z)".toList] ∧
      (standard limit).Runs s 2 2 "Z".toList ∧ 2 * 2 + "Z".toList.length ≤ s.length ∧
      .reading "Z".toList 2 ∈ ((standard limit).parse s).log.toList ∧
      (standard limit).run ((standard limit).bodies 7) s 0 = (standard limit).parse s := by
  have hs : "(x1)ly1.((z))".toList.length < 2 ^ 31 := by decide
  have hall : (standard 18446744073709551615).requests (standard 18446744073709551615).parseBody
      "(x1)ly1.((z))".toList 0 = [("X1".toList, 1), ("(Z)".toList, 1)] := by cbv
  have hinner : (standard 18446744073709551615).requests (standard 18446744073709551615).parseBody
      "(Z)".toList 1 = [("Z".toList, 2)] := by cbv
  intro limit s
  have hgroup : (standard limit).Runs s 1 1 "(Z)".toList :=
    .body .text (by rw [hall]; simp) (by decide)
  have hrun : (standard limit).Runs s 2 2 "Z".toList :=
    .body hgroup (by rw [hinner]; simp) (by decide)
  obtain ⟨hruns, hlog, hopen⟩ := @nesting_of_runs limit s hs
  have htext := (hruns 0 0 s .text).1
  rw [hall] at htext
  exact ⟨hs, hall, htext, hrun, (hruns 2 2 _ hrun).2.2, (hlog _ _).2 ⟨1, hrun⟩,
    hopen 7 (by decide)⟩

end Machine

end LambdaNotation
