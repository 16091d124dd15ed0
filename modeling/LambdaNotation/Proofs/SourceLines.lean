import Mathlib.Data.List.Forall2
import LambdaNotation.Proofs.Readable
import LambdaNotation.Text.Line

/-!
# The expressions of a source file

What the lines of a text are (`Text.Lines`), what a text without the blanks around it is
(`Text.Trims`), and which lines hold an expression. Reading a file by these rules gives the
expressions that a run reads, and no others (`Text.expressions_eq_iff`).
-/

namespace LambdaNotation.Text

variable {c : Char} {l s t : Text} {ls es : List Text}

/-! ## Lines -/

/-- The lines of a text. Each ends at a line feed, or at a carriage return and a line feed, and
neither belongs to it; what is left behind the last of these is a line if there is any. -/
inductive Lines : Text → List Text → Prop
  | nil : Lines [] []
  | last {l : Text} (hne : l ≠ []) (hl : '\n' ∉ l) : Lines l [l]
  | feed {l s : Text} {ls : List Text} (hl : '\n' ∉ l) (hr : l.getLast? ≠ some '\r')
      (h : Lines s ls) : Lines (l ++ '\n' :: s) (l :: ls)
  | returnFeed {l s : Text} {ls : List Text} (hl : '\n' ∉ l) (h : Lines s ls) :
      Lines (l ++ '\r' :: '\n' :: s) (l :: ls)

theorem notMem_cons {d : Char} : d ∉ c :: s ↔ d ≠ c ∧ d ∉ s := by
  rw [List.mem_cons, not_or]

/-- The text with a character put before its first line. -/
theorem lines_cons (hc : c ≠ '\n') (hr : c = '\r' → s.head? ≠ some '\n') :
    lines (c :: s) = match lines s with
      | [] => [[c]]
      | l :: ls => (c :: l) :: ls := by
  have hr' : ∀ s', c = '\r' → s = '\n' :: s' → False := fun s' hc' hs =>
    hr hc' (congrArg List.head? hs)
  exact lines.eq_4 c s hr' hc

theorem lines_cons_of_lines_eq (hc : c ≠ '\n') (hr : c = '\r' → s.head? ≠ some '\n')
    (h : lines s = l :: ls) : lines (c :: s) = (c :: l) :: ls := by
  rw [lines_cons hc hr, h]

theorem lines_of_notMem (hne : l ≠ []) (hl : '\n' ∉ l) : lines l = [l] := by
  induction l with
  | nil => exact absurd rfl hne
  | cons c l ih =>
    obtain ⟨hc, hl⟩ := notMem_cons.1 hl
    have hhead : l.head? ≠ some '\n' := fun h => hl (List.mem_of_mem_head? h)
    cases l with
    | nil => rw [lines_cons hc.symm fun _ => hhead, lines]
    | cons d l => exact lines_cons_of_lines_eq hc.symm (fun _ => hhead) (ih (by simp) hl)

theorem lines_append_feed (hl : '\n' ∉ l) (hr : l.getLast? ≠ some '\r') (s : Text) :
    lines (l ++ '\n' :: s) = l :: lines s := by
  induction l with
  | nil => rw [List.nil_append, lines]
  | cons c l ih =>
    obtain ⟨hc, hl⟩ := notMem_cons.1 hl
    cases l with
    | nil => exact lines_cons_of_lines_eq hc.symm (by simpa using hr) (ih hl (by simp))
    | cons d l =>
      refine lines_cons_of_lines_eq hc.symm (fun _ h => hl ?_) (ih hl (by simpa using hr))
      exact List.mem_cons.2 (.inl (by simpa using h.symm))

theorem lines_append_returnFeed (hl : '\n' ∉ l) (s : Text) :
    lines (l ++ '\r' :: '\n' :: s) = l :: lines s := by
  induction l with
  | nil => rw [List.nil_append, lines]
  | cons c l ih =>
    obtain ⟨hc, hl⟩ := notMem_cons.1 hl
    refine lines_cons_of_lines_eq hc.symm (fun _ h => ?_) (ih hl)
    cases l with
    | nil => simp at h
    | cons d l => exact hl (List.mem_cons.2 (.inl (by simpa using h.symm)))

theorem Lines.lines_eq (h : Lines s ls) : lines s = ls := by
  induction h with
  | nil => rfl
  | last hne hl => exact lines_of_notMem hne hl
  | feed hl hr _ ih => rw [lines_append_feed hl hr, ih]
  | returnFeed hl _ ih => rw [lines_append_returnFeed hl, ih]

/-- Only the empty text has no lines. -/
theorem Lines.eq_nil (h : Lines s []) : s = [] := by
  cases h
  rfl

/-- A character put before a text with lines goes to the first. -/
theorem Lines.cons (h : Lines s (l :: ls)) (hc : c ≠ '\n') (hr : c = '\r' → s.head? ≠ some '\n') :
    Lines (c :: s) ((c :: l) :: ls) := by
  cases h with
  | last hne hl => exact .last (by simp) (notMem_cons.2 ⟨hc.symm, hl⟩)
  | @feed l s ls hl hr' h =>
    refine .feed (notMem_cons.2 ⟨hc.symm, hl⟩) ?_ h
    cases l with
    | nil => exact fun he => hr (by simpa using he) rfl
    | cons d l => simpa using hr'
  | returnFeed hl h => exact .returnFeed (notMem_cons.2 ⟨hc.symm, hl⟩) h

theorem lines_spec (s : Text) : Lines s (lines s) := by
  induction s using lines.induct with
  | case1 => exact .nil
  | case2 s ih =>
    rw [lines]
    exact .returnFeed (l := []) (by simp) ih
  | case3 s ih =>
    rw [lines]
    exact .feed (l := []) (by simp) (by simp) ih
  | case4 c s hr hc hnil ih =>
    rw [hnil] at ih
    obtain rfl := ih.eq_nil
    rw [lines_of_notMem (by simp) (by simpa using Ne.symm hc)]
    exact .last (by simp) (by simpa using Ne.symm hc)
  | case5 c s hr hc l ls hcons ih =>
    rw [hcons] at ih
    have hr : c = '\r' → s.head? ≠ some '\n' := fun hret hhead =>
      let ⟨s', hs⟩ := List.head?_eq_some_iff.1 hhead
      hr s' hret hs
    rw [lines_cons_of_lines_eq hc hr hcons]
    exact ih.cons hc hr

theorem lines_eq_iff : lines s = ls ↔ Lines s ls :=
  ⟨fun h => h ▸ lines_spec s, Lines.lines_eq⟩

/-! ## Blanks around a text -/

/-- `t` is `s` without the blanks at its ends. -/
structure Trims (s t : Text) : Prop where
  exists_blanks : ∃ before after, s = before ++ (t ++ after) ∧
    (∀ c ∈ before, isBlank c) ∧ ∀ c ∈ after, isBlank c
  start : ∀ c ∈ t.head?, isBlank c = false
  stop : ∀ c ∈ t.getLast?, isBlank c = false

theorem halts_dropWhile (p : Char → Bool) (s : Text) : Halts p (s.dropWhile p) := by
  intro c hc
  have h := List.head?_dropWhile_not p s
  rwa [Option.mem_def.1 hc] at h

theorem trims_trim (s : Text) : Trims s (trim s) := by
  set u := s.dropWhile isBlank with hu
  have hs : s = s.takeWhile isBlank ++ u := (List.takeWhile_append_dropWhile ..).symm
  have hsplit : u = trim s ++ (u.reverse.takeWhile isBlank).reverse := by
    rw [trim, ← hu, ← List.reverse_append, List.takeWhile_append_dropWhile, List.reverse_reverse]
  refine ⟨⟨_, _, hsplit ▸ hs, fun c hc => List.mem_takeWhile_imp hc, fun c hc => ?_⟩,
    fun c hc => ?_, fun c hc => ?_⟩
  · exact List.mem_takeWhile_imp (List.mem_reverse.1 hc)
  · refine halts_dropWhile isBlank s c ?_
    rw [← hu, hsplit, List.head?_append, Option.mem_def.1 hc]
    rfl
  · rw [trim, List.getLast?_reverse] at hc
    exact halts_dropWhile isBlank _ c hc

theorem Trims.trim_eq (h : Trims s t) : trim s = t := by
  obtain ⟨⟨before, after, rfl, hbefore, hafter⟩, hstart, hstop⟩ := h
  by_cases hne : t = []
  · subst hne
    have hall : ∀ c ∈ before ++ after, isBlank c := fun c hc =>
      (List.mem_append.1 hc).elim (hbefore c) (hafter c)
    rw [trim, List.nil_append, List.dropWhile_eq_nil_iff.2 hall]
    rfl
  · have hhead : Halts isBlank (t ++ after) := by
      unfold Halts
      rwa [List.head?_append_of_ne_nil _ hne]
    have hlast : Halts isBlank t.reverse := by
      unfold Halts
      rwa [List.head?_reverse]
    have hrev : ∀ c ∈ after.reverse, isBlank c := fun c hc => hafter c (List.mem_reverse.1 hc)
    rw [trim, dropWhile_append_of_halts hbefore hhead, List.reverse_append,
      dropWhile_append_of_halts hrev hlast, List.reverse_reverse]

theorem trim_eq_iff : trim s = t ↔ Trims s t := ⟨fun h => h ▸ trims_trim s, Trims.trim_eq⟩

/-! ## Expressions -/

/-- The expressions of a source file: of its lines without the blanks around them those that are
neither empty nor begin with two slashes. -/
def IsExpressions (contents : Text) (es : List Text) : Prop :=
  ∃ ls ts, Lines contents ls ∧ List.Forall₂ Trims ls ts ∧
    es = ts.filter fun t => t ≠ [] ∧ ¬ "//".toList <+: t

theorem forall₂_trims_iff {ts : List Text} : List.Forall₂ Trims ls ts ↔ ls.map trim = ts := by
  have h : (Trims : Text → Text → Prop) = fun s t => trim s = t :=
    funext₂ fun _ _ => propext trim_eq_iff.symm
  rw [h, ← List.forall₂_map_left_iff (R := Eq), List.forall₂_eq_eq_eq]

theorem expressions_eq_iff : s.expressions = es ↔ IsExpressions s es := by
  have hkept : (fun t : Text => !t.isEmpty && !isComment t) =
      fun t => decide (t ≠ [] ∧ ¬ "//".toList <+: t) := by
    funext t
    have hcomment : isComment t = decide ("//".toList <+: t) := by
      rw [Bool.eq_iff_iff, isComment, List.isPrefixOf_iff_prefix, decide_eq_true_eq]
      exact Iff.rfl
    rw [hcomment]
    cases t <;> simp
  unfold IsExpressions expressions
  simp only [hkept, ← lines_eq_iff, forall₂_trims_iff, exists_and_left, exists_eq_left']
  exact eq_comm

end LambdaNotation.Text
