import LambdaNotation.Proofs.Grammar

/-!
# How deep terms lie

The level of a body counts the bodies around it, and the nesting of its terms those in it. Together
they are within the limit, whatever level a body is read or captured at
(`Machine.nesting_within_limit`). A level is a number of 64 bits and the greatest has none further
in: a capture there asks for a level that does not exist, which is an overflow and no error of depth
(`Machine.overflow_at_the_top`).
-/

namespace LambdaNotation

open Text

namespace Term

mutual

/-- How deep groups and bodies of lambdas stand inside one another in a term. The body of a lambda
over a group is the group. -/
def nesting : Term → Nat
  | .var _ => 0
  | .node none parts _ => nestingAll parts + 1
  | .node (some _) [.node none parts _] _ => nestingAll parts + 1
  | .node (some _) parts _ => nestingAll parts + 1

def nestingAll : List Term → Nat
  | [] => 0
  | t :: ts => max t.nesting (nestingAll ts)

end

theorem nesting_group (parts : List Term) : (group parts).nesting = nestingAll parts + 1 := by
  rw [group, nesting]

theorem nesting_lambda_group (binder : Text) (parts : List Term) :
    (lambda binder (group parts)).nesting = nestingAll parts + 1 := by
  rw [lambda, group, nesting]

end Term

open Term

/-- The terms of a derivation are as deep as it is. -/
theorem Derivation.nestingAll_terms (d : Derivation) : nestingAll d.terms = d.depth := by
  induction d with
  | nil => rfl
  | stem ls h => rfl
  | name ls ds hl hd rest ih =>
    rw [terms, nestingAll, nesting, ih, depth, Nat.zero_max]
  | group body rest ihb ih => rw [terms, nestingAll, nesting_group, ihb, ih, depth]
  | lambda ls ds hne hl hd body rest ihb ih =>
    rw [terms, nestingAll, nesting_lambda_group, ihb, ih, depth]

namespace Machine

variable {limit level : UInt64} {s b : Text} {ts parts : List Term} {k : Context}

/-- What is read at a level lies within the limit. -/
theorem nesting_of_parseBody (hs : s.length < 2 ^ 31)
    (h : ((standard limit).parseBody s level).value = .ok ts) :
    level.toNat + nestingAll ts ≤ limit.toNat := by
  obtain ⟨hl, hts⟩ := (parseBody_eq_ok_iff hs).1 h
  obtain ⟨d, -, hdepth, rfl⟩ :=
    exists_derivation_of_outcome (by rwa [length_raised]) hl (raised_raised s) hts
  rw [d.nestingAll_terms]
  exact hdepth

/-- What is captured lies within the limit, one level further in than the context. -/
theorem nesting_of_captured (hb : k.body.size < 2 ^ 31)
    (h : ((standard limit).parseBody.inner k.body.toList k.level).value = .ok parts) :
    k.level.toNat + 1 + nestingAll parts ≤ limit.toNat := by
  obtain ⟨hl, h⟩ := BodyReader.inner_eq_ok_iff.1 h
  rw [← toNat_add_one hl]
  exact nesting_of_parseBody (by rwa [Array.length_toList]) h

/-- Nothing is captured in a context at the limit: the body is too deep. -/
theorem inner_of_limit_le (hl : limit ≤ level) (hroom : level.toNat + 1 < 2 ^ 64) (b : Text) :
    ((standard limit).parseBody.inner b level).value =
      .error (.reported ⟨[b], .tooDeep limit⟩) := by
  have hsucc := toNat_add_one hroom
  have hle := UInt64.le_iff_toNat_le.1 hl
  rw [BodyReader.inner_of_lt hroom]
  exact parseBody_of_tooDeep (UInt64.lt_iff_toNat_lt.2 (by omega)) b

/-- No body is read further in than the greatest level. -/
theorem inner_of_greatest (hl : level.toNat + 1 = 2 ^ 64) (read : BodyReader) (b : Text) :
    (read.inner b level).value = .error .overflow := by
  rw [BodyReader.inner_of_not_lt (show ¬ level.toNat + 1 < 2 ^ 64 by omega)]

/-- **Nothing gets beyond the limit**, at whatever level a body is read and in whatever context it
is captured: the bodies around it and those in it are no more than the limit together. In a context
at the limit or further in a capture fails, as too deep; only at the greatest level, which has none
further in, it stops with an overflow instead. -/
theorem nesting_within_limit (limit : UInt64) :
    (∀ (s : Text) (level : UInt64) (ts : List Term), s.length < 2 ^ 31 →
      ((standard limit).parseBody s level).value = .ok ts →
        level.toNat + nestingAll ts ≤ limit.toNat) ∧
    ∀ (k : Context) (c : Option Char),
      (k.body.size < 2 ^ 31 →
        (∀ k', Callback.captureGroup (standard limit).parseBody c k = .ok () k' →
          ∃ parts, k'.terms = k.terms.push (.group parts) ∧
            k.level.toNat + 1 + nestingAll parts ≤ limit.toNat) ∧
        ∀ k', Callback.captureLambda (standard limit).parseBody c k = .ok () k' →
          ∃ parts, k'.terms = k.terms.push (.lambda k.name.toList (.group parts)) ∧
            k.level.toNat + 1 + nestingAll parts ≤ limit.toNat) ∧
      (limit ≤ k.level → k.level.toNat + 1 < 2 ^ 64 →
        (∃ k', Callback.captureGroup (standard limit).parseBody c k =
          .error (.reported ⟨[k.body.toList], .tooDeep limit⟩) k') ∧
        (isName k.name.toList → ∃ k', Callback.captureLambda (standard limit).parseBody c k =
          .error (.reported ⟨[k.body.toList], .tooDeep limit⟩) k')) ∧
      (k.level.toNat + 1 = 2 ^ 64 →
        (∃ k', Callback.captureGroup (standard limit).parseBody c k = .error .overflow k') ∧
        (isName k.name.toList →
          ∃ k', Callback.captureLambda (standard limit).parseBody c k = .error .overflow k')) := by
  refine ⟨fun s level ts hs h => nesting_of_parseBody hs h,
    fun k c => ⟨fun hb => ⟨?_, ?_⟩, fun hl hroom => ?_, fun htop => ?_⟩⟩
  · intro k' h
    obtain ⟨parts, hread, rfl⟩ := Callback.exists_of_captureGroup_eq_ok h
    exact ⟨parts, rfl, nesting_of_captured hb hread⟩
  · intro k' h
    obtain ⟨-, parts, hread, rfl⟩ := Callback.exists_of_captureLambda_eq_ok h
    exact ⟨parts, rfl, nesting_of_captured hb hread⟩
  · have hread := inner_of_limit_le hl hroom k.body.toList
    exact ⟨⟨_, Callback.captureGroup_of_error hread⟩,
      fun hn => ⟨_, Callback.captureLambda_of_error hn hread⟩⟩
  · have hread := inner_of_greatest htop (standard limit).parseBody k.body.toList
    exact ⟨⟨_, Callback.captureGroup_of_error hread⟩,
      fun hn => ⟨_, Callback.captureLambda_of_error hn hread⟩⟩

/-- Just below the top of the levels, a body is read under the greatest limit and captured under the
one before it; in a context at that limit nothing is, and one further in there is no level left. -/
theorem nesting_within_limit_near_the_top :
    let greatest : UInt64 := 18446744073709551615
    let limit : UInt64 := 18446744073709551614
    let k : Context := {
      name := "X1".toList.toArray
      body := "(a1)".toList.toArray
      level := 18446744073709551612 }
    let parts := [group [.var "A1".toList]]
    ((standard greatest).parseBody "(a1)".toList 18446744073709551614).value = .ok parts ∧
      (18446744073709551614 : UInt64).toNat + nestingAll parts ≤ greatest.toNat ∧
      (∃ k', Callback.captureGroup (standard limit).parseBody (some ')') k = .ok () k' ∧
        ∃ parts, k'.terms = k.terms.push (.group parts) ∧
          k.level.toNat + 1 + nestingAll parts ≤ limit.toNat) ∧
      (∃ k', Callback.captureLambda (standard limit).parseBody (some ')') k = .ok () k' ∧
        ∃ parts, k'.terms = k.terms.push (.lambda "X1".toList (.group parts)) ∧
          k.level.toNat + 1 + nestingAll parts ≤ limit.toNat) ∧
      (∃ k', Callback.captureLambda (standard limit).parseBody none { k with level := limit } =
        .error (.reported ⟨["(a1)".toList], .tooDeep limit⟩) k') ∧
      ∃ k', Callback.captureGroup (standard limit).parseBody none { k with level := greatest } =
        .error .overflow k' := by
  have hread : ((standard 18446744073709551615).parseBody "(a1)".toList
      18446744073709551614).value = .ok [group [.var "A1".toList]] := by cbv
  have hinner : ((standard 18446744073709551614).parseBody "(a1)".toList
      18446744073709551613).value = .ok [group [.var "A1".toList]] := by cbv
  have hcaptured : ((standard 18446744073709551614).parseBody.inner "(a1)".toList
      18446744073709551612).value = .ok [group [.var "A1".toList]] :=
    BodyReader.inner_eq_ok_iff.2 ⟨by decide, hinner⟩
  have hname : isName "X1".toList := by decide
  intro greatest limit k parts
  have hgroup := Callback.captureGroup_of_ok (c := some ')') (k := k) hcaptured
  have hlambda := Callback.captureLambda_of_ok (c := some ')') (k := k) hname hcaptured
  obtain ⟨hkept, -⟩ := nesting_within_limit greatest
  obtain ⟨-, hcapture⟩ := nesting_within_limit limit
  obtain ⟨hkgroup, hklambda⟩ := (hcapture k (some ')')).1 (by decide)
  have hrefused := (hcapture { k with level := limit } none).2.1 (UInt64.le_refl limit) (by decide)
  have hstopped := (hcapture { k with level := greatest } none).2.2 (by decide)
  exact ⟨hread, hkept _ _ _ (by decide) hread, ⟨_, hgroup, hkgroup _ hgroup⟩,
    ⟨_, hlambda, hklambda _ hlambda⟩, hrefused.2 hname, hstopped.1⟩

/-- At the greatest level a capture stops with an overflow, and does not fail as too deep. -/
theorem overflow_at_the_top :
    let k : Context := {
      name := "X1".toList.toArray
      body := "A1".toList.toArray
      level := 18446744073709551615 }
    (2 : UInt64) ≤ k.level ∧ isName k.name.toList ∧
      (∃ k', Callback.captureGroup (standard 2).parseBody (some ')') k = .error .overflow k') ∧
      (∃ k', Callback.captureLambda (standard 2).parseBody (some ')') k = .error .overflow k') ∧
      ¬ (∃ e k', Callback.captureGroup (standard 2).parseBody (some ')') k =
        .error (.reported e) k' ∧ e.fault = .tooDeep 2) ∧
      ¬ ∃ e k', Callback.captureLambda (standard 2).parseBody (some ')') k =
        .error (.reported e) k' ∧ e.fault = .tooDeep 2 := by
  have hname : isName "X1".toList := by decide
  intro k
  have htop : k.level.toNat + 1 = 2 ^ 64 := by decide
  have hread := inner_of_greatest htop (standard 2).parseBody k.body.toList
  have hgroup := Callback.captureGroup_of_error (c := some ')') hread
  have hlambda := Callback.captureLambda_of_error (c := some ')') (k := k) hname hread
  refine ⟨by decide, hname, ⟨_, hgroup⟩, ⟨_, hlambda⟩, ?_, ?_⟩
  · rintro ⟨e, k', h, -⟩
    cases hgroup.symm.trans h
  · rintro ⟨e, k', h, -⟩
    cases hlambda.symm.trans h

end Machine

end LambdaNotation
