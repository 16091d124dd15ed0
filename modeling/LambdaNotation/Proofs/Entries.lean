import LambdaNotation.Proofs.Report

/-!
# What a line tells

The line of a text is not quoted: the text stands in it as it was given, and the prints one after
the other with separators between them. It tells the text and the prints all the same
(`Machine.entry_determines`), since no text that is read and no print has a character with which a
separator begins, and no print is empty.
-/

namespace LambdaNotation

open Text

namespace Text

variable {x : Char} {s s' r r' : Text} {ts us : List Text}

/-! ## Parts and separators -/

theorem takeWhile_append_of_notMem (hs : x ∉ s) (hr : Halts (· ≠ x) r) :
    (s ++ r).takeWhile (· ≠ x) = s :=
  takeWhile_append_of_halts (fun _ hc => decide_eq_true fun h => hs (h ▸ hc)) hr

/-- A part ends at one place only: where the first `x` stands, or at the end. -/
theorem append_inj_of_notMem (hs : x ∉ s) (hs' : x ∉ s') (hr : Halts (· ≠ x) r)
    (hr' : Halts (· ≠ x) r') (h : s ++ r = s' ++ r') : s = s' ∧ r = r' := by
  obtain rfl : s = s' := by
    rw [← takeWhile_append_of_notMem hs hr, h, takeWhile_append_of_notMem hs' hr']
  exact ⟨rfl, List.append_cancel_left h⟩

theorem halts_ne_cons (x : Char) (r : Text) : Halts (· ≠ x) (x :: r) :=
  halts_cons (decide_eq_false (not_not_intro rfl))

/-- The parts, each after a separator. -/
def preceded (sep : Text) (ts : List Text) : Text := ts.flatMap (sep ++ ·)

theorem preceded_cons (sep t : Text) (ts : List Text) :
    preceded sep (t :: ts) = sep ++ (t ++ preceded sep ts) := by
  rw [preceded, List.flatMap_cons, List.append_assoc]
  rfl

theorem intercalate_cons (sep t : Text) (ts : List Text) :
    List.intercalate sep (t :: ts) = t ++ preceded sep ts := by
  induction ts generalizing t with
  | nil => rw [List.intercalate_singleton, preceded, List.flatMap_nil, List.append_nil]
  | cons u us ih => rw [List.intercalate_cons_cons, ih, preceded_cons, List.append_assoc]

theorem halts_preceded (x : Char) (sep : Text) (ts : List Text) :
    Halts (· ≠ x) (preceded (x :: sep) ts) := by
  cases ts with
  | nil => exact halts_nil
  | cons t ts =>
    rw [preceded_cons]
    exact halts_ne_cons x _

theorem preceded_inj (sep : Text) (hts : ∀ t ∈ ts, x ∉ t) (hus : ∀ u ∈ us, x ∉ u)
    (h : preceded (x :: sep) ts = preceded (x :: sep) us) : ts = us := by
  induction ts generalizing us with
  | nil =>
    cases us with
    | nil => rfl
    | cons u us =>
      rw [preceded_cons] at h
      cases h
  | cons t ts ih =>
    cases us with
    | nil =>
      rw [preceded_cons] at h
      cases h
    | cons u us =>
      obtain ⟨ht, hts'⟩ := List.forall_mem_cons.1 hts
      obtain ⟨hu, hus'⟩ := List.forall_mem_cons.1 hus
      rw [preceded_cons, preceded_cons] at h
      obtain ⟨rfl, hrest⟩ := append_inj_of_notMem ht hu (halts_preceded x sep ts)
        (halts_preceded x sep us) (List.append_cancel_left h)
      rw [ih hts' hus' hrest]

/-- Parts put together are told apart, if none is empty and none has the character with which the
separator begins. -/
theorem intercalate_inj (sep : Text) (hts : ∀ t ∈ ts, t ≠ [] ∧ x ∉ t)
    (hus : ∀ u ∈ us, u ≠ [] ∧ x ∉ u)
    (h : List.intercalate (x :: sep) ts = List.intercalate (x :: sep) us) : ts = us := by
  have hne : ∀ {t ts}, t ≠ [] → List.intercalate (x :: sep) (t :: ts) ≠ [] := fun ht h => by
    rw [intercalate_cons] at h
    exact ht (List.append_eq_nil_iff.1 h).1
  cases ts with
  | nil =>
    cases us with
    | nil => rfl
    | cons u us => exact absurd h.symm (hne (hus u List.mem_cons_self).1)
  | cons t ts =>
    cases us with
    | nil => exact absurd h (hne (hts t List.mem_cons_self).1)
    | cons u us =>
      refine preceded_inj sep (fun t ht => (hts t ht).2) (fun u hu => (hus u hu).2) ?_
      rw [preceded_cons, preceded_cons, ← intercalate_cons, ← intercalate_cons, h]

/-- Nothing in the text separates the parts of a line: the text from the prints, or a print from
the next. -/
def IsUnseparated (s : Text) : Prop := ¬ " => [".toList <:+: s ∧ ¬ ", ".toList <:+: s

theorem isUnseparated_of_notMem (h : ' ' ∉ s) : IsUnseparated s := by
  constructor <;> exact fun hsep => h (hsep.subset (by decide))

theorem notMem_of_signs (h : ∀ c ∈ s, isSign c ∨ c = lambdaLetter) (hx : ¬ isSign x)
    (hl : x ≠ lambdaLetter) : x ∉ s := fun hmem => (h x hmem).elim hx hl

theorem IsWord.ne_nil (h : IsWord s) : s ≠ [] := by
  rcases h with ⟨stem, digits, rfl, hs, -⟩ | h
  · exact List.append_ne_nil_of_left_ne_nil hs.1 digits
  · exact h.1

end Text

/-! ## Lines -/

/-- A line tells its text and its prints, if neither has a character that begins a separator. -/
theorem entry_inj {input input' : Text} {ts us : List Term} (hi : ' ' ∉ input) (hi' : ' ' ∉ input')
    (hts : ∀ t ∈ ts, t.print ≠ [] ∧ ',' ∉ t.print) (hus : ∀ u ∈ us, u.print ≠ [] ∧ ',' ∉ u.print)
    (h : entry input ts = entry input' us) :
    input = input' ∧ ts.map Term.print = us.map Term.print := by
  have harrow : ∀ r : Text, Halts (· ≠ ' ') (" => [".toList ++ r) := fun r => halts_ne_cons ' ' _
  unfold entry at h
  have hline := List.append_cancel_right h
  rw [List.append_assoc, List.append_assoc] at hline
  obtain ⟨hinput, hprints⟩ := append_inj_of_notMem hi hi' (harrow _) (harrow _) hline
  exact ⟨hinput, intercalate_inj [' '] (List.forall_mem_map.2 hts) (List.forall_mem_map.2 hus)
    (List.append_cancel_left hprints)⟩

/-- Nothing that is built prints nothing. -/
theorem Term.Built.print_ne_nil {t : Term} (h : t.Built IsWord) : t.print ≠ [] := by
  induction h with
  | var hw => exact hw.ne_nil
  | @group parts _ ih =>
    by_cases hone : parts.length = 1
    · obtain ⟨t, rfl⟩ := List.length_eq_one_iff.1 hone
      exact ih t (List.mem_singleton_self t)
    · rw [print_group hone]
      exact List.cons_ne_nil _ _
  | lambda _ _ _ => exact List.cons_ne_nil _ _

namespace Machine

variable {limit limit' : UInt64} {s s' : Text} {ts us : List Term}

theorem notMem_of_parse {x : Char} (hx : ¬ isSign x)
    (h : ((standard limit).parse s).value = .ok ts) : x ∉ s := fun hmem =>
  hx (isSign_of_parse h x hmem)

theorem print_of_parse {x : Char} (hx : ¬ isSign x) (hl : x ≠ lambdaLetter)
    (h : ((standard limit).parse s).value = .ok ts) : ∀ t ∈ ts, t.print ≠ [] ∧ x ∉ t.print :=
  fun t ht =>
    have hbuilt := built_of_parse h t ht
    ⟨hbuilt.print_ne_nil, notMem_of_signs hbuilt.isSign_print hx hl⟩

theorem format_of_ok (h : ((standard limit).parse s).value = .ok ts) :
    ((standard limit).format s).value = .ok (entry s ts) := Job.outcome_text_of_ok h

/-- **A line determines its text and its prints.** If two texts that are read, each under a limit of
its own, give the same line, they are the same text, and their terms print the same one by one.
No text that is read and no print has a separator in it, and no print is empty. -/
theorem entry_determines (hs : ((standard limit).parse s).value = .ok ts)
    (hs' : ((standard limit').parse s').value = .ok us) :
    (∀ line, ((standard limit).format s).value = .ok line →
        ((standard limit').format s').value = .ok line →
        s = s' ∧ ts.map Term.print = us.map Term.print) ∧
      IsUnseparated s ∧ ∀ t ∈ ts, t.print ≠ [] ∧ IsUnseparated t.print := by
  refine ⟨fun line hline hline' => ?_, ?_, fun t ht => ?_⟩
  · rw [format_of_ok hs] at hline
    rw [format_of_ok hs'] at hline'
    have hentry := Except.ok.inj (hline.trans hline'.symm)
    exact entry_inj (notMem_of_parse (by decide) hs) (notMem_of_parse (by decide) hs')
      (print_of_parse (by decide) (by decide) hs) (print_of_parse (by decide) (by decide) hs')
      hentry
  · exact isUnseparated_of_notMem (notMem_of_parse (by decide) hs)
  · have hprint := print_of_parse (x := ' ') (by decide) (by decide) hs t ht
    exact ⟨hprint.1, isUnseparated_of_notMem hprint.2⟩

/-- Two texts print the same and still give different lines; each gives its line under every limit
that allows it. -/
theorem entry_determines_with_same_prints :
    let ts := [Term.var "A1".toList, .group [.var "B".toList]]
    let us := [Term.group [.var "A1".toList], .var "B".toList]
    let line := "a1(b) => [A1, B]".toList
    ((standard 256).parse "a1(b)".toList).value = .ok ts ∧
      ((standard 1).parse "a1(b)".toList).value = .ok ts ∧
      ((standard 1).parse "(a1)b".toList).value = .ok us ∧
      ((standard 256).format "a1(b)".toList).value = .ok line ∧
      ((standard 1).format "a1(b)".toList).value = .ok line ∧
      ts.map Term.print = us.map Term.print ∧
      ((standard 1).format "(a1)b".toList).value ≠ .ok line ∧
      IsUnseparated "a1(b)".toList ∧ ∀ t ∈ ts, t.print ≠ [] ∧ IsUnseparated t.print := by
  have ha : ((standard 256).parse "a1(b)".toList).value =
      .ok [.var "A1".toList, .group [.var "B".toList]] := by cbv
  have ha' : ((standard 1).parse "a1(b)".toList).value =
      .ok [.var "A1".toList, .group [.var "B".toList]] := by cbv
  have hb : ((standard 1).parse "(a1)b".toList).value =
      .ok [.group [.var "A1".toList], .var "B".toList] := by cbv
  have hline : ((standard 256).format "a1(b)".toList).value = .ok "a1(b) => [A1, B]".toList := by
    cbv
  have hline' : ((standard 1).format "a1(b)".toList).value = .ok "a1(b) => [A1, B]".toList := by
    cbv
  intro ts us line
  obtain ⟨hsame, hmarks⟩ := entry_determines ha hb
  refine ⟨ha, ha', hb, hline, hline', rfl, fun h => ?_, hmarks⟩
  exact absurd (hsame line hline h).1 (by decide)

end Machine

end LambdaNotation
