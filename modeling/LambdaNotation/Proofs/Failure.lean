import LambdaNotation.Proofs.Level

/-!
# How a parse fails

An error leads from a text through captured bodies to its fault. Each body stands in parentheses in
the one before it and is balanced, and read by itself at its level it has the rest of the error. The
bodies are as many as the limit allows and one more exactly if the fault is the limit; any other
fault is one of the automaton (`ParseError.ArisesIn`).
-/

namespace LambdaNotation

open Text

/-- The body stands in the text in parentheses, and all of its own are matched. -/
def Text.Captures (t b : Text) : Prop := Encloses t b ∧ Balanced b

/-- How the error of a run over a text, at a level, leads to its fault. -/
structure ParseError.ArisesIn (e : ParseError) (limit level : UInt64) (s : Text) : Prop where
  /-- Each body is captured from the one before it, the first from the text. -/
  chain : List.IsChain Captures (s :: e.captured)
  /-- A body read by itself has the error from there on. -/
  replay : ∀ i b, e.captured[i]? = some b →
    ((Machine.standard limit).parseBody b (level + UInt64.ofNat (i + 1))).value =
      .error (.reported ⟨e.captured.drop i, e.fault⟩)
  /-- There is at most one body beyond the limit. -/
  length_le : level.toNat + e.captured.length ≤ limit.toNat + 1
  /-- The limit is the fault if there is one. -/
  tooDeep_iff : e.fault = .tooDeep limit ↔ level.toNat + e.captured.length = limit.toNat + 1
  /-- Any other fault is one of the automaton. -/
  grammar : e.fault ≠ .tooDeep limit → ∃ g, e.fault = .grammar g
  /-- A captured body has no unmatched parenthesis, nor has a text that is balanced. -/
  matched : ∀ g, e.fault = .grammar g → Balanced s ∨ e.captured ≠ [] → ¬ g.Unmatched

namespace ParseError.ArisesIn

variable {limit level : UInt64} {s b : Text} {e : ParseError} {g : GrammarError}

/-- An error of the automaton in the text itself. -/
theorem ofGrammar (hl : level ≤ limit) (hg : (Pending.start.cut s).error = some g) :
    (ofFault (.grammar g)).ArisesIn limit level s := by
  have hle : level.toNat ≤ limit.toNat := UInt64.le_iff_toNat_le.1 hl
  refine ⟨List.isChain_singleton s, fun i b hb => ?_, ?_, ?_, fun _ => ⟨g, rfl⟩, ?_⟩
  · cases hb
  · exact Nat.le_succ_of_le hle
  · refine ⟨fun h => (nomatch h), fun h => ?_⟩
    have h' : level.toNat + 0 = limit.toNat + 1 := h
    omega
  · intro g' hg' hb
    cases hg'
    rcases hb with hb | hb
    · exact Pending.not_unmatched_of_balanced hb hg
    · exact absurd rfl hb

/-- The refusal of a body just beyond the limit. -/
theorem ofTooDeep (hc : Captures s b) (hl : level ≤ limit) (hlim : limit < level + 1)
    (hs : (level + 1).toNat = level.toNat + 1) :
    ((ofFault (.tooDeep limit)).within b).ArisesIn limit level s := by
  have hle : level.toNat ≤ limit.toNat := UInt64.le_iff_toNat_le.1 hl
  have hlt : limit.toNat < (level + 1).toNat := UInt64.lt_iff_toNat_lt.1 hlim
  have hn : level.toNat + 1 = limit.toNat + 1 := by omega
  refine ⟨List.isChain_pair.2 hc, fun i c hi => ?_, hn.le, ?_, fun h => absurd rfl h, ?_⟩
  · cases i with
    | zero =>
      cases hi
      exact Machine.parseBody_of_tooDeep hlim b
    | succ i => cases hi
  · exact ⟨fun _ => hn, fun _ => rfl⟩
  · intro g hg
    cases hg

/-- An error of a captured body is one of the text. -/
theorem within (hc : Captures s b) (hs : (level + 1).toNat = level.toNat + 1)
    (hread : ((Machine.standard limit).parseBody b (level + 1)).value =
      .error (.reported (e.within b)))
    (h : e.ArisesIn limit (level + 1) b) : (e.within b).ArisesIn limit level s := by
  have hlen : level.toNat + (e.within b).captured.length =
      (level + 1).toNat + e.captured.length := by
    rw [hs, ParseError.within, List.length_cons]
    omega
  refine ⟨List.isChain_cons_cons.2 ⟨hc, h.chain⟩, fun i c hi => ?_, ?_, ?_, h.grammar, ?_⟩
  · cases i with
    | zero =>
      cases hi
      exact hread
    | succ i =>
      have hl : level + UInt64.ofNat (i + 1 + 1) = level + 1 + UInt64.ofNat (i + 1) := by
        rw [UInt64.ofNat_add (i + 1) 1, UInt64.add_comm (UInt64.ofNat (i + 1)), ← UInt64.add_assoc]
        rfl
      rw [hl]
      exact h.replay i c hi
  · rw [hlen]
    exact h.length_le
  · rw [hlen]
    exact h.tooDeep_iff
  · intro g hg _
    exact h.matched g hg (.inl hc.2)

end ParseError.ArisesIn

namespace Machine

variable {limit level : UInt64} {s : Text} {x : Failure ParseError}

/-- The errors of a run arise so, and nothing overflows. -/
theorem arisesIn_of_outcome (h : Room level s) (hl : level ≤ limit) (hs : s.raised = s)
    (hx : (Pending.start.cut s).outcome (standard limit).parseBody level = .error x) :
    ∃ e, x = .reported e ∧ e.ArisesIn limit level s := by
  induction hn : s.length using Nat.strong_induction_on generalizing s level x with
  | _ n ih =>
    rcases Cut.outcome_eq_error hx with ⟨p, hp, hread⟩ | ⟨g, hg, rfl⟩
    · -- The error comes out of a captured body, refused or read one level further in.
      obtain ⟨b, hb, hread⟩ := Piece.exists_of_read_eq_error hread
      have hcap : Captures s b :=
        ⟨Pending.encloses_of_mem_cut hp hb, Pending.balanced_of_mem_cut hp hb⟩
      have hsucc := h.toNat_succ hcap.1
      have hroom := h.body hcap.1
      have hraised := hcap.1.raised_eq hs
      have hlen := hcap.1.length_le
      rw [h.inner hcap.1] at hread
      rcases (parseBody_eq_error_iff hroom.depth).1 hread with ⟨hlim, rfl⟩ | ⟨hlim, y, hy, rfl⟩
      · exact ⟨_, rfl, .ofTooDeep hcap hl hlim hsucc⟩
      · rw [hraised] at hy
        obtain ⟨e, rfl, he⟩ := ih b.length (by omega) hroom hlim hraised hy rfl
        exact ⟨_, rfl, .within hcap hsucc hread he⟩
    · exact ⟨_, rfl, .ofGrammar hl hg⟩

/-- **How a parse fails**: the captured bodies lead from the raised text to the fault, each read by
itself at its level has the rest of the error, and the fault is the limit exactly if the bodies are
one more than it allows. Any other fault is one of the automaton, and in a captured body never an
unmatched parenthesis. -/
theorem parse_eq_error (limit : UInt64) {s : Text} (hs : s.length < 2 ^ 31)
    {x : Failure ParseError} (h : ((standard limit).parse s).value = .error x) : ∃ e,
    x = .reported e ∧
    List.IsChain Captures (s.raised :: e.captured) ∧
    (∀ i b, e.captured[i]? = some b →
      ((standard limit).parseBody b (UInt64.ofNat (i + 1))).value =
        .error (.reported ⟨e.captured.drop i, e.fault⟩)) ∧
    e.captured.length ≤ limit.toNat + 1 ∧
    (e.fault = .tooDeep limit ↔ e.captured.length = limit.toNat + 1) ∧
    (e.fault ≠ .tooDeep limit →
      ∃ g, e.fault = .grammar g ∧ (e.captured ≠ [] → ¬ g.Unmatched)) := by
  have h0 : (0 : UInt64) ≤ limit := UInt64.le_iff_toNat_le.2 (Nat.zero_le _)
  rw [parse_value hs] at h
  obtain ⟨e, rfl, ha⟩ := arisesIn_of_outcome (room_zero hs).raised h0 (raised_raised s) h
  have hzero : (0 : UInt64).toNat + e.captured.length = e.captured.length := Nat.zero_add _
  refine ⟨e, rfl, ha.chain, fun i b hb => ?_, ?_, ?_, fun hf => ?_⟩
  · have hr := ha.replay i b hb
    rwa [UInt64.zero_add] at hr
  · have hl := ha.length_le
    rwa [hzero] at hl
  · have hd := ha.tooDeep_iff
    rwa [hzero] at hd
  · obtain ⟨g, hg⟩ := ha.grammar hf
    exact ⟨g, hg, fun hne => ha.matched g hg (.inr hne)⟩

/-- A binder ends two bodies deep, within the limit. -/
theorem captures_of_unfinished_binder :
    "a1(ly2.(b1lx))".toList.length < 2 ^ 31 ∧
      ((standard 2).parse "a1(ly2.(b1lx))".toList).value =
        .error (.reported ⟨["LY2.(B1LX)".toList, "B1LX".toList],
          .grammar (.unexpectedEnd .binderLetters)⟩) ∧
      List.IsChain Captures
        [raised "a1(ly2.(b1lx))".toList, "LY2.(B1LX)".toList, "B1LX".toList] ∧
      ((standard 2).parseBody "B1LX".toList (UInt64.ofNat 2)).value =
        .error (.reported ⟨["B1LX".toList], .grammar (.unexpectedEnd .binderLetters)⟩) := by
  have hlen : "a1(ly2.(b1lx))".toList.length < 2 ^ 31 := by decide
  have hread : ((standard 2).parse "a1(ly2.(b1lx))".toList).value =
      .error (.reported ⟨["LY2.(B1LX)".toList, "B1LX".toList],
        .grammar (.unexpectedEnd .binderLetters)⟩) := by cbv
  obtain ⟨e, he, hchain, hreplay, -⟩ := parse_eq_error 2 hlen hread
  cases he
  exact ⟨hlen, hread, hchain, hreplay 1 _ rfl⟩

end Machine

end LambdaNotation
