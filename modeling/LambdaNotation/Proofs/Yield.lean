import LambdaNotation.Proofs.Invariant
import LambdaNotation.Proofs.Joined

/-!
# What reading builds

Every term that a machine reads is built by groups and lambdas from variables with the names of the
notation, whatever the text, its length and the count of its parentheses: this rests on the moves of
the automaton alone (`Machine.sound_of_feed`), and not on where it ends a body. So what equality
forgets about terms that were read is what it forgets about built terms whose names may lack digits.
-/

namespace LambdaNotation

open Text

/-- The terms of a context are built from words, and its name is one for its state. -/
structure Context.Sound (k : Context) : Prop where
  name : k.state.Spells k.name.toList
  terms : ∀ t ∈ k.terms.toList, t.Built IsWord

/-- Bodies come to terms built from words. -/
def BodyReader.Builds (read : BodyReader) : Prop :=
  ∀ b level parts, (read b level).value = .ok parts → ∀ t ∈ parts, t.Built IsWord

theorem State.opening_eq_some {c : Char} {t : State} (h : State.opening c = some t) :
    t = .lambda ∨ t = .groupBody ∨ (t = .nameLetters ∧ c.isUpper ∧ c ≠ 'L') := by
  unfold State.opening at h
  split_ifs at h with hl ho hu
  · exact .inl (Option.some.inj h).symm
  · exact .inr (.inl (Option.some.inj h).symm)
  · exact .inr (.inr ⟨(Option.some.inj h).symm, hu, hl⟩)

namespace Callback

variable {read : BodyReader} {c : Option Char} {k k' : Context}

theorem built_of_mem_push {ts : Array Term} {t : Term} (hts : ∀ u ∈ ts.toList, u.Built IsWord)
    (ht : t.Built IsWord) : ∀ u ∈ (ts.push t).toList, u.Built IsWord := by
  intro u hu
  rw [Array.toList_push] at hu
  rcases List.mem_append.1 hu with hu | hu
  · exact hts u hu
  · rwa [List.mem_singleton.1 hu]

theorem sound_captureGroup (hread : read.Builds) (hk : k.Sound)
    (h : captureGroup read c k = .ok () k') : k'.Sound := by
  obtain ⟨parts, hr, rfl⟩ := exists_of_captureGroup_eq_ok h
  have hr := (BodyReader.inner_eq_ok_iff.1 hr).2
  exact ⟨hk.name, built_of_mem_push hk.terms (.group (hread _ _ _ hr))⟩

theorem sound_captureLambda (hread : read.Builds) (hk : ∀ t ∈ k.terms.toList, t.Built IsWord)
    (hs : k.state = .lambdaEnd) (h : captureLambda read c k = .ok () k') : k'.Sound := by
  obtain ⟨hn, parts, hr, rfl⟩ := exists_of_captureLambda_eq_ok h
  have hr := (BodyReader.inner_eq_ok_iff.1 hr).2
  refine ⟨?_, built_of_mem_push hk (.lambda hn (.group (hread _ _ _ hr)))⟩
  show k.state.Spells []
  rw [hs]
  rfl

end Callback

namespace Machine

variable {limit : UInt64} {read : BodyReader} {k k' : Context} {s t : State} {c : Char}
  {n : Nesting}

theorem sound_of_state (ht : k.state = t) (hname : t.Spells k.name.toList)
    (hk : ∀ u ∈ k.terms.toList, u.Built IsWord) : k.Sound := ⟨by rwa [ht], hk⟩

theorem sound_of_extendName (ht : k.state = t) (hname : t.Spells (k.name.toList ++ [c]))
    (hk : ∀ u ∈ k.terms.toList, u.Built IsWord) :
    ({ k with name := k.name ++ (some c).toList } : Context).Sound := by
  refine sound_of_state ht ?_ hk
  show t.Spells (k.name ++ #[c]).toList
  rwa [Array.toList_append]

/-- A move on a character keeps a context sound. -/
theorem sound_of_applyWith (hread : read.Builds) (hs : s.next? c n = some t) (ht : k.state = t)
    (hname : s.Spells k.name.toList) (hk : ∀ u ∈ k.terms.toList, u.Built IsWord)
    (h : (standard limit).applyWith read ⟨s, t⟩ (some c) k = .ok () k') : k'.Sound := by
  cases s with
  | start | lambdaEnd | groupEnd =>
    rcases State.opening_eq_some hs with rfl | rfl | ⟨rfl, hu, hl⟩ <;> cases h
    · exact sound_of_state ht hname hk
    · exact sound_of_state ht hname hk
    · refine sound_of_extendName ht ?_ hk
      rw [show k.name.toList = [] from hname]
      exact isStem_singleton hu hl
  | nameLetters =>
    rw [State.next?] at hs
    split_ifs at hs with hu hd <;> cases hs <;> cases h
    · exact sound_of_extendName ht (IsStem.concat hname hu) hk
    · exact sound_of_extendName ht (IsStem.isVariable hname hd) hk
  | nameDigits =>
    rw [State.next?] at hs
    split_ifs at hs with hd
    · cases hs
      cases h
      exact sound_of_extendName ht (IsVariable.concat hname hd) hk
    · -- The variable goes to the terms before the next piece begins.
      have hvar := Callback.built_of_mem_push hk (.var (.inl hname))
      rcases State.opening_eq_some hs with rfl | rfl | ⟨rfl, hu, hl⟩ <;> cases h
      · exact sound_of_state ht rfl hvar
      · exact sound_of_state ht rfl hvar
      · exact sound_of_state ht (isStem_singleton hu hl) hvar
  | groupBody =>
    obtain rfl := Option.some.inj hs
    unfold State.closing at ht h
    split_ifs at ht h with hc
    · rw [applyWith_groupEnd] at h
      exact Callback.sound_captureGroup hread (sound_of_state ht hname hk) h
    · cases h
      exact sound_of_state ht hname hk
  | lambdaBody =>
    obtain rfl := Option.some.inj hs
    unfold State.closing at ht h
    split_ifs at ht h with hc
    · rw [applyWith_lambdaEnd] at h
      exact Callback.sound_captureLambda hread hk ht h
    · cases h
      exact sound_of_state ht hname hk
  | lambda =>
    rw [State.next?] at hs
    split_ifs at hs with hu
    cases hs
    cases h
    refine sound_of_extendName ht ?_ hk
    rw [show k.name.toList = [] from hname]
    exact ⟨List.cons_ne_nil _ _, by simpa using hu⟩
  | binderLetters =>
    rw [State.next?] at hs
    split_ifs at hs with hu hd <;> cases hs <;> cases h
    · exact sound_of_extendName ht ⟨by simp, forall_isUpper_concat hname.2 hu⟩ hk
    · exact sound_of_extendName ht (isName_of_letters hname.1 hname.2 hd) hk
  | binderDigits =>
    rw [State.next?] at hs
    split_ifs at hs with hd hdot <;> cases hs <;> cases h
    · exact sound_of_extendName ht (isName_concat hname hd) hk
    · exact sound_of_state ht hname hk
  | binderDot =>
    rw [State.next?] at hs
    split_ifs at hs
    cases hs
    cases h
    exact sound_of_state ht hname hk
  | done => cases hs

/-- So does a character that is fed. -/
theorem sound_of_feed (hread : read.Builds) (hk : k.Sound)
    (h : (standard limit).feed read c k = .ok () k') : k'.Sound := by
  obtain ⟨n, -, h⟩ := exists_count_of_feed_eq_ok _ h
  rcases hs : k.state.step c n with e | ⟨s, t⟩
  · rw [hs, follow_error] at h
    cases h
  · obtain ⟨rfl, hnext⟩ := State.step_eq_ok_iff.1 hs
    rw [hs, follow_ok] at h
    refine sound_of_applyWith hread hnext ?_ ?_ ?_ h
    exacts [rfl, hk.name, hk.terms]

/-- And the end of the text, where a name goes to the terms, with or without digits. -/
theorem sound_of_finish (hk : k.Sound) (h : (standard limit).finish read k = .ok () k') :
    k'.Sound := by
  obtain ⟨hname, hk⟩ := hk
  rw [finish_apply] at h
  rcases hs : k.state.finish with e | move
  · rw [hs, follow_error] at h
    cases h
  · obtain ⟨ha, rfl⟩ := State.finish_eq_ok_iff.1 hs
    rw [hs, follow_ok] at h
    generalize k.state = s at ha hname h
    cases s with
    | start | lambdaEnd | groupEnd =>
      cases h
      exact ⟨hname, hk⟩
    | nameLetters =>
      cases h
      exact ⟨rfl, Callback.built_of_mem_push hk (.var (.inr hname))⟩
    | nameDigits =>
      cases h
      exact ⟨rfl, Callback.built_of_mem_push hk (.var (.inl hname))⟩
    | _ => cases ha

theorem sound_of_forM (hread : read.Builds) {s : Text} (hk : k.Sound)
    (h : s.forM ((standard limit).feed read) k = .ok () k') : k'.Sound :=
  forM_keeps (fun _ _ _ _ hk hc => sound_of_feed hread hk hc) hk h

theorem sound_start (level : UInt64) : ({ level := level } : Context).Sound :=
  ⟨rfl, fun _ h => nomatch h⟩

/-- The terms of a run are built from words. -/
theorem built_of_run (hread : read.Builds) {s : Text} {level : UInt64} {ts : List Term}
    (h : ((standard limit).run read s level).value = .ok ts) : ∀ t ∈ ts, t.Built IsWord := by
  unfold run at h
  rcases hr : (standard limit).scan read s { level := level } with ⟨_, k⟩ | ⟨e, k⟩
  · rw [hr] at h
    obtain rfl := Except.ok.inj h
    obtain ⟨_, k₁, hfeed, hfinish⟩ := exists_of_bind_eq_ok hr
    exact (sound_of_finish (sound_of_forM hread (sound_start level) hfeed) hfinish).terms
  · rw [hr] at h
    cases h

theorem builds_bodies (limit : UInt64) (n : Nat) : ((standard limit).bodies n).Builds :=
  bodies_keep (fun _ hread _ _ _ h => built_of_run hread h) n

/-- **What is read is built from words** by groups and lambdas. -/
theorem built_of_parse {s : Text} {ts : List Term} (h : ((standard limit).parse s).value = .ok ts) :
    ∀ t ∈ ts, t.Built IsWord :=
  built_of_run (builds_bodies limit _) h

/-! ## Equality of what was read -/

/-- Terms that were read are equal exactly if their trees are, once names without digits are joined
with the names that come right after them. -/
theorem equals_iff_joined_of_parse {limit' : UInt64} {s s' : Text} {ts us : List Term} {a b : Term}
    (hs : ((standard limit).parse s).value = .ok ts)
    (hs' : ((standard limit').parse s').value = .ok us) (ha : a ∈ ts) (hb : b ∈ us) :
    a.equals b ↔ a.collapse.joined = b.collapse.joined :=
  (built_of_parse hs a ha).equals_iff_joined (built_of_parse hs' b hb)

/-- The body of a lambda ends with a name without digits, and a variable comes after it: both terms
print as `(λX1.AB2C3)`. -/
theorem equals_iff_joined_after_lambda :
    let a := Term.group [.lambda "X1".toList (.group [.var "A".toList]), .var "B2".toList,
      .var "C3".toList]
    let b := Term.group [.lambda "X1".toList (.group [.var "AB2".toList]), .var "C3".toList]
    ((standard 256).parse "(lx1.(a)b2c3)".toList).value = .ok [a] ∧
      ((standard 256).parse "(lx1.(ab2)c3)".toList).value = .ok [b] ∧
      (a.equals b ↔ a.collapse.joined = b.collapse.joined) := by
  intro a b
  have ha : ((standard 256).parse "(lx1.(a)b2c3)".toList).value = .ok [a] := by cbv
  have hb : ((standard 256).parse "(lx1.(ab2)c3)".toList).value = .ok [b] := by cbv
  exact ⟨ha, hb, equals_iff_joined_of_parse ha hb (List.mem_singleton_self a)
    (List.mem_singleton_self b)⟩

/-- So where all names have digits, equality forgets redundant parentheses and nothing else. -/
theorem equals_iff_collapse_of_parse {limit' : UInt64} {s s' : Text} {ts us : List Term}
    {a b : Term} (hs : ((standard limit).parse s).value = .ok ts)
    (hs' : ((standard limit').parse s').value = .ok us) (ha : a ∈ ts) (hb : b ∈ us)
    (hna : a.collapse.Over (isName ·)) (hnb : b.collapse.Over (isName ·)) :
    a.equals b ↔ a.collapse = b.collapse := by
  rw [(built_of_parse hs a ha).equals_iff_joined (built_of_parse hs' b hb), hna.joined_eq,
    hnb.joined_eq]

/-- Equality forgets more than redundant parentheses: these terms are equal, and their trees are
not, since `X` and `Y1` stand for themselves in the one and for `XY1` in the other. -/
theorem equals_of_names_run_together :
    let a := Term.group [.group [.var "X".toList], .var "Y1".toList, .var "Z1".toList]
    let b := Term.group [.var "XY1".toList, .var "Z1".toList]
    ((standard 256).parse "((X)Y1Z1)".toList).value = .ok [a] ∧
      ((standard 256).parse "(XY1Z1)".toList).value = .ok [b] ∧
      a.equals b ∧ a.collapse ≠ b.collapse := by
  intro a b
  have ha : ((standard 256).parse "((X)Y1Z1)".toList).value = .ok [a] := by cbv
  have hb : ((standard 256).parse "(XY1Z1)".toList).value = .ok [b] := by cbv
  refine ⟨ha, hb, by decide, fun h => ?_⟩
  have hparts := (Tree.node.inj h).2
  exact absurd (congrArg List.length hparts) (by decide)

end Machine

end LambdaNotation
