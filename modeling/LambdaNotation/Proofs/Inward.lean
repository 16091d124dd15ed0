import LambdaNotation.Machine
import LambdaNotation.Proofs.Sequence

/-!
# Bodies further in

The callbacks that build terms ask their reader for bodies further in than the text they run on. For
machines with such callbacks (`Machine.Inward`) how many bodies may be open does not show, as long
as there are more than levels within the limit (`Machine.Inward.bodies_eq`): a body is refused for
its level, or read like a text, with an error that names it (`Machine.Inward.parseBody_eq`).
-/

namespace LambdaNotation

/-- The readers answer alike further in than a level. -/
def BodyReader.AgreesBeyond (level : UInt64) (read read' : BodyReader) : Prop :=
  ∀ body l, level < l → read body l = read' body l

theorem BodyReader.AgreesBeyond.inner {level : UInt64} {read read' : BodyReader}
    (h : AgreesBeyond level read read') (body : Text) :
    read.inner body level = read'.inner body level := by
  by_cases hl : level.toNat + 1 < UInt64.size
  · have hsucc : (level + 1).toNat = level.toNat + 1 :=
      (UInt64.toNat_add level 1).trans (Nat.mod_eq_of_lt hl)
    rw [inner_of_lt hl, inner_of_lt hl]
    exact h body (level + 1) (UInt64.lt_iff_toNat_lt.2 (by omega))
  · rw [inner_of_not_lt hl, inner_of_not_lt hl]

/-- An action asks for bodies further in only, and stays at its level. -/
structure AsksInward (act : BodyReader → Action Unit) : Prop where
  congr : ∀ {read read' : BodyReader} {k : Context},
    BodyReader.AgreesBeyond k.level read read' → act read k = act read' k
  level : ∀ {read : BodyReader} {k k' : Context}, act read k = .ok () k' → k'.level = k.level

namespace AsksInward

variable {α : Type} {act act' : BodyReader → Action Unit}

theorem bind (h : AsksInward act) (h' : AsksInward act') :
    AsksInward fun read => EStateM.bind (act read) fun _ => act' read := by
  refine ⟨fun {read read' k} hr => ?_, fun {read k k'} hb => ?_⟩
  · have ha := h.congr hr
    rcases hk : act read k with ⟨_, k₁⟩ | ⟨x, k₁⟩
    · rw [bind_of_ok hk, bind_of_ok (ha ▸ hk)]
      exact h'.congr (by rwa [h.level hk])
    · rw [bind_of_error hk, bind_of_error (ha ▸ hk)]
  · obtain ⟨_, k₁, h₁, h₂⟩ := exists_of_bind_eq_ok hb
    exact (h'.level h₂).trans (h.level h₁)

theorem forM {f : α → BodyReader → Action Unit} {l : List α} (h : ∀ a ∈ l, AsksInward (f a)) :
    AsksInward fun read => l.forM fun a => f a read := by
  induction l with
  | nil =>
    refine ⟨fun _ => rfl, fun hk => ?_⟩
    cases hk
    rfl
  | cons a l ih =>
    obtain ⟨ha, hl⟩ := List.forall_mem_cons.1 h
    exact ha.bind (ih hl)

end AsksInward

namespace Callback

variable {c : Option Char}

theorem asksInward_extendName : AsksInward fun read => extendName read c := by
  refine ⟨fun _ => rfl, fun h => ?_⟩
  cases h
  rfl

theorem asksInward_extendBody : AsksInward fun read => extendBody read c := by
  refine ⟨fun _ => rfl, fun h => ?_⟩
  cases h
  rfl

theorem asksInward_captureVariable : AsksInward fun read => captureVariable read c := by
  refine ⟨fun _ => rfl, fun h => ?_⟩
  cases h
  rfl

theorem readBody_congr {read read' : BodyReader} {k : Context}
    (h : BodyReader.AgreesBeyond k.level read read') (body : Text) :
    readBody read body k = readBody read' body k := by
  simp only [readBody, h.inner body]

/-- Reading a body and then going on at the same level. -/
theorem asksInward_readBody (body : Text) {f : List Term → Context → Context}
    (hf : ∀ parts k, (f parts k).level = k.level) :
    AsksInward fun read => EStateM.bind (readBody read body) fun parts => modify (f parts) := by
  refine ⟨fun h => ?_, fun {read k k'} h => ?_⟩
  · unfold EStateM.bind
    rw [readBody_congr h]
  · obtain ⟨parts, k₁, h₁, h₂⟩ := exists_of_bind_eq_ok h
    cases h₂
    rw [hf]
    rcases hr : (read.inner body k.level).value with x | terms
    · rw [readBody_of_error hr] at h₁
      cases h₁
    · rw [readBody_of_ok hr] at h₁
      cases h₁
      rfl

theorem asksInward_captureGroup : AsksInward fun read => captureGroup read c := by
  have h (k : Context) := asksInward_readBody k.body.toList
    (f := fun parts => (·.push (.group parts) (.foundGroup (.group parts)))) fun _ _ => rfl
  exact ⟨fun {read read' k} hr => (h k).congr (k := k.clearBody) hr,
    fun {read k k'} hk => (h k).level (k := k.clearBody) hk⟩

theorem asksInward_captureLambda : AsksInward fun read => captureLambda read c := by
  have h (k : Context) := asksInward_readBody k.body.toList
    (f := fun parts => (·.push (.lambda k.name.toList (.group parts))
      (.foundLambda (.lambda k.name.toList (.group parts))))) fun _ _ => rfl
  have happly (read : BodyReader) (k : Context) : captureLambda read c k =
    (if Text.isName k.name.toList then _ else throw _ : Action Unit) k.clearName.clearBody := rfl
  refine ⟨fun {read read' k} hr => ?_, fun {read k k'} hk => ?_⟩
  · rw [happly, happly]
    split
    · exact (h k).congr (k := k.clearName.clearBody) hr
    · rfl
  · rw [happly] at hk
    split at hk
    · exact (h k).level (k := k.clearName.clearBody) hk
    · cases hk

end Callback

namespace Machine

/-- All callbacks of a machine ask for bodies further in only. -/
def Inward (m : Machine) : Prop := ∀ x ∈ m.callbacks, ∀ c, AsksInward fun read => x.2 read c

theorem inward_standard (limit : UInt64) : (standard limit).Inward := by
  have h : ∀ x ∈ termCallbacks, ∀ c, AsksInward fun read => x.2 read c := by
    simp only [termCallbacks, List.forall_mem_cons, Callback.asksInward_captureVariable,
      Callback.asksInward_extendName, Callback.asksInward_extendBody,
      Callback.asksInward_captureGroup, Callback.asksInward_captureLambda, List.not_mem_nil,
      false_imp_iff, implies_true, and_self]
  exact h

namespace Inward

variable {m : Machine} {level : UInt64} {n j : Nat}

theorem applyWith (hm : m.Inward) (move : Move) (c : Option Char) :
    AsksInward fun read => m.applyWith read move c := by
  refine AsksInward.forM (f := fun (callback : Callback) read => callback read c)
    fun callback h => ?_
  obtain ⟨x, hx, rfl⟩ := List.mem_map.1 h
  exact hm x (List.mem_filter.1 hx).1 c

theorem follow (hm : m.Inward) (c : Option Char) (step : Except GrammarError Move) :
    AsksInward fun read => m.follow read c step := by
  cases step with
  | error e =>
    refine ⟨fun _ => rfl, fun h => ?_⟩
    rw [follow_error] at h
    cases h
  | ok move =>
    refine ⟨fun hr => ?_, fun h => ?_⟩
    · rw [follow_ok, follow_ok]
      exact (hm.applyWith move c).congr hr
    · rw [follow_ok] at h
      have hlevel := (hm.applyWith move c).level h
      exact hlevel

theorem feed (hm : m.Inward) (c : Char) : AsksInward fun read => m.feed read c := by
  refine ⟨fun {read read' k} hr => ?_, fun {read k k'} h => ?_⟩
  · rcases hc : k.nesting.count? c with _ | n
    · rw [m.feed_of_overflow read hc, m.feed_of_overflow read' hc]
    · rw [m.feed_of_count read hc, m.feed_of_count read' hc]
      exact (hm.follow (some c) _).congr hr
  · obtain ⟨n, -, h⟩ := m.exists_count_of_feed_eq_ok h
    have hlevel := (hm.follow (some c) _).level h
    exact hlevel

theorem finish (hm : m.Inward) : AsksInward fun read => m.finish read := by
  refine ⟨fun {read read' k} hr => ?_, fun {read k k'} h => ?_⟩
  · rw [finish_apply, finish_apply]
    exact (hm.follow none _).congr hr
  · rw [finish_apply] at h
    exact (hm.follow none _).level h

theorem scan (hm : m.Inward) (s : Text) : AsksInward fun read => m.scan read s :=
  (AsksInward.forM (f := fun c read => m.feed read c) fun c _ => hm.feed c).bind hm.finish

theorem run_congr (hm : m.Inward) {read read' : BodyReader} (s : Text)
    (h : BodyReader.AgreesBeyond level read read') : m.run read s level = m.run read' s level := by
  have hscan := (hm.scan s).congr (k := { level := level }) h
  unfold run
  rw [hscan]

/-- How many bodies may be open does not show, if there are more than levels within the limit. -/
theorem bodies_eq (hm : m.Inward) (b : Text) (hn : m.limit.toNat < level.toNat + n)
    (hj : m.limit.toNat < level.toNat + j) : m.bodies n b level = m.bodies j b level := by
  induction n generalizing j b level with
  | zero =>
    have hl : m.limit < level := UInt64.lt_iff_toNat_lt.2 hn
    rw [bodies_of_tooDeep hl, bodies_of_tooDeep hl]
  | succ n ih =>
    by_cases hl : m.limit < level
    · rw [bodies_of_tooDeep hl, bodies_of_tooDeep hl]
    · have hle : level.toNat ≤ m.limit.toNat := UInt64.le_iff_toNat_le.1 (UInt64.not_lt.1 hl)
      -- Within the limit neither number is used up.
      obtain ⟨j, rfl⟩ : ∃ k, j = k + 1 := ⟨j - 1, by omega⟩
      have hrun : m.run (m.bodies n) b level = m.run (m.bodies j) b level :=
        hm.run_congr b fun body l hlt => by
          have hlt := UInt64.lt_iff_toNat_lt.1 hlt
          exact ih body (by omega) (by omega)
      rw [bodies_succ hl, bodies_succ hl, hrun]

/-- **A body is refused for its level or read like a text**, and its error names it. How many bodies
may be open has no part in this. -/
theorem parseBody_eq (hm : m.Inward) (b : Text) (level : UInt64) : m.parseBody b level =
    if m.limit < level then m.refuse b level
    else ⟨(m.run m.parseBody b level).value.mapError (·.within b),
      Log.note ∅ (.reading b level) ++ (m.run m.parseBody b level).log⟩ := by
  split
  · next hl => exact bodies_of_tooDeep hl b _
  · next hl =>
    have hrun : m.run (m.bodies m.limit.toNat) b level = m.run m.parseBody b level :=
      hm.run_congr b fun body l hlt => by
        have hle := UInt64.le_iff_toNat_le.1 (UInt64.not_lt.1 hl)
        have hlt := UInt64.lt_iff_toNat_lt.1 hlt
        exact hm.bodies_eq body (by omega) (by omega)
    rw [← hrun]
    exact bodies_succ hl b m.limit.toNat

end Inward

end Machine

end LambdaNotation
