import LambdaNotation.Proofs.Equality

/-!
# Names that run into one another

At the end of a text or of a body a name may lack digits. In print such a name runs into a name
that comes right after it, since the parentheses that kept them apart can be redundant: both
`((X)Y1Z1)` and `(XY1Z1)` print as `(XY1Z1)`. `Tree.joined` joins the names of a tree that run into
one another. Terms over such names are equal exactly if their trees are when joined
(`Term.Built.equals_iff_joined`): equality forgets redundant parentheses, and where a name without
digits ends, and nothing else.
-/

namespace LambdaNotation

namespace Text

variable {s t r : Text}

/-- A variable, or the letters of one without digits. -/
def IsWord (s : Text) : Prop := IsVariable s ∨ IsStem s

theorem IsWord.isStem (h : IsWord s) (ho : isName s = false) : IsStem s := by
  refine h.resolve_left fun hv => ?_
  rw [hv.isName] at ho
  exact Bool.noConfusion ho

theorem IsStem.append (hs : IsStem s) (ht : ∀ c ∈ t, c.isUpper) : IsStem (s ++ t) := by
  obtain ⟨hne, hl, hs⟩ := hs
  refine ⟨by simp [hne], by rwa [List.head?_append_of_ne_nil _ hne], fun c hc => ?_⟩
  exact (List.mem_append.1 hc).elim (hs c) (ht c)

/-- What runs into a name without digits makes one word with it. -/
theorem IsStem.append_isWord (hs : IsStem s) (ht : IsWord t) : IsWord (s ++ t) := by
  rcases ht with ⟨stem, digits, rfl, ht, hd⟩ | ht
  · exact .inl ⟨s ++ stem, digits, (List.append_assoc ..).symm, hs.append ht.2.2, hd⟩
  · exact .inr (hs.append ht.2.2)

theorem IsStem.nameBefore_append (hs : IsStem s) (ht : NameBefore t r) :
    NameBefore (s ++ t) r := by
  refine ⟨exists_cons_of_letters hs.1 hs.2.2 t, ?_⟩
  have hname := ht.2
  rw [leadingName] at hname ⊢
  rw [List.append_assoc, List.takeWhile_append_of_pos hs.2.2, List.dropWhile_append_of_pos hs.2.2,
    List.append_assoc, hname]

end Text

open Text

namespace Tree

/-- Whether the writing of a tree ends with a name that lacks digits. -/
def isOpen : Tree → Bool
  | .var symbol => !isName symbol
  | .node (some _) [t] => t.isOpen
  | .node _ _ => false

/-- The tree with a text added to the name with which its writing ends. -/
def extend (s : Text) : Tree → Tree
  | .var symbol => .var (symbol ++ s)
  | .node (some binder) [t] => .node (some binder) [t.extend s]
  | t => t

/-- The tree in front of others; a name that comes right after a name without digits joins it. -/
def attach (t : Tree) : List Tree → List Tree
  | .var symbol :: us => if t.isOpen then t.extend symbol :: us else t :: .var symbol :: us
  | us => t :: us

mutual

/-- The tree whose names are those that its writing shows. -/
def joined : Tree → Tree
  | .var symbol => .var symbol
  | .node binder parts => .node binder (joinedAll parts)

def joinedAll : List Tree → List Tree
  | [] => []
  | t :: ts => t.joined.attach (joinedAll ts)

end

variable {t u : Tree} {ts us : List Tree} {s r : Text}

/-! ## Joining keeps the text -/

/-- The writing of a node ends with a name only if that of the one part of a bound node does. -/
theorem exists_of_isOpen_node {binder : Option Text} (h : (node binder ts).isOpen) :
    ∃ b t, binder = some b ∧ ts = [t] ∧ t.isOpen := by
  unfold isOpen at h
  split at h
  · next he => cases he
  · next b t he =>
    cases he
    exact ⟨b, t, rfl, rfl, h⟩
  · cases h

theorem text_extend (h : t.isOpen) (s : Text) : (t.extend s).text = t.text ++ s := by
  induction t using Tree.ind with
  | var symbol => rw [extend, text, text]
  | node binder ts ih =>
    obtain ⟨b, t, rfl, rfl, ht⟩ := exists_of_isOpen_node h
    rw [extend, text, text, textAll_singleton, textAll_singleton, ih t (by simp) ht]
    simp

theorem textAll_attach (t : Tree) (us : List Tree) :
    textAll (t.attach us) = t.text ++ textAll us := by
  unfold attach
  split
  · split
    · next ho => rw [textAll_cons, text_extend ho, textAll_cons, text, List.append_assoc]
    · rw [textAll_cons]
  · rw [textAll_cons]

theorem textAll_joinedAll (h : ∀ t ∈ ts, t.joined.text = t.text) :
    textAll (joinedAll ts) = textAll ts := by
  induction ts with
  | nil => rfl
  | cons t ts ih =>
    obtain ⟨ht, hts⟩ := List.forall_mem_cons.1 h
    rw [joinedAll, textAll_attach, ih hts, ht, textAll_cons]

@[simp] theorem text_joined (t : Tree) : t.joined.text = t.text := by
  induction t using Tree.ind with
  | var symbol => rw [joined]
  | node binder ts ih =>
    cases binder with
    | none => rw [joined, text, text, textAll_joinedAll ih]
    | some b => rw [joined, text, text, textAll_joinedAll ih]

/-! ## Complete names are not joined -/

theorem Over.isOpen_eq_false (h : t.Over (isName ·)) : t.isOpen = false := by
  induction h with
  | @var symbol hs => rw [isOpen, show isName symbol from hs, Bool.not_true]
  | group _ _ => rw [isOpen]; exact fun _ _ hb => nomatch hb
  | lambda _ _ ih => rw [isOpen, ih]

theorem attach_of_isOpen_eq_false (h : t.isOpen = false) (us : List Tree) :
    t.attach us = t :: us := by
  unfold attach
  split
  · rw [h, if_neg Bool.false_ne_true]
  · rfl

theorem joinedAll_eq (hts : ∀ t ∈ ts, t.Over (isName ·)) (h : ∀ t ∈ ts, t.joined = t) :
    joinedAll ts = ts := by
  induction ts with
  | nil => rfl
  | cons t ts ih =>
    obtain ⟨ht, hts⟩ := List.forall_mem_cons.1 hts
    obtain ⟨hj, h⟩ := List.forall_mem_cons.1 h
    rw [joinedAll, hj, ih hts h, attach_of_isOpen_eq_false ht.isOpen_eq_false]

/-- Where every name has digits, joining changes nothing. -/
theorem Over.joined_eq (h : t.Over (isName ·)) : t.joined = t := by
  induction h with
  | var _ => rfl
  | group h ih => rw [Tree.joined, joinedAll_eq h ih]
  | lambda _ h ih =>
    rw [Tree.joined, joinedAll_eq (List.forall_mem_singleton.2 h) (List.forall_mem_singleton.2 ih)]

/-! ## Joined trees are readable -/

theorem isStem_of_isOpen (hs : IsWord s) (ho : (var s).isOpen) : IsStem s :=
  hs.isStem (by simpa [isOpen] using ho)

theorem Over.extend (ht : t.Over IsWord) (ho : t.isOpen) (hs : IsWord s) :
    (t.extend s).Over IsWord := by
  induction ht with
  | var hw =>
    rw [Tree.extend]
    exact .var ((isStem_of_isOpen hw ho).append_isWord hs)
  | group _ _ => exact absurd ho (by simp [isOpen])
  | lambda hb _ ih =>
    rw [isOpen] at ho
    rw [Tree.extend]
    exact .lambda hb (ih ho)

theorem Over.readable_extend (ht : t.Over IsWord) (ho : t.isOpen) (hs : NameBefore s r) :
    (t.extend s).Readable r := by
  induction ht with
  | var hw =>
    rw [Tree.extend, Readable]
    exact (isStem_of_isOpen hw ho).nameBefore_append hs
  | group _ _ => exact absurd ho (by simp [isOpen])
  | lambda hb _ ih =>
    rw [isOpen] at ho
    rw [Tree.extend, Readable]
    exact ⟨hb, ih ho⟩

theorem Over.attach (ht : t.Over IsWord) (hus : ∀ u ∈ us, u.Over IsWord) :
    ∀ u ∈ t.attach us, u.Over IsWord := by
  unfold Tree.attach
  split
  · next symbol us =>
    obtain ⟨hu, hus'⟩ := List.forall_mem_cons.1 hus
    cases hu with
    | var hs =>
      split
      · next ho => exact List.forall_mem_cons.2 ⟨ht.extend ho hs, hus'⟩
      · exact List.forall_mem_cons.2 ⟨ht, hus⟩
  · exact List.forall_mem_cons.2 ⟨ht, hus⟩

theorem Over.joinedAll (h : ∀ t ∈ ts, t.joined.Over IsWord) :
    ∀ t ∈ joinedAll ts, t.Over IsWord := by
  induction ts with
  | nil => exact fun _ h => nomatch h
  | cons t ts ih =>
    obtain ⟨ht, hts⟩ := List.forall_mem_cons.1 h
    exact ht.attach (ih hts)

theorem Over.joined (h : t.Over IsWord) : t.joined.Over IsWord := by
  induction h with
  | var h => exact .var h
  | group _ ih => exact .group (joinedAll ih)
  | lambda hb _ ih => exact .lambda hb ih

theorem halts_isUpper_text_node (binder : Option Text) (ts : List Tree) (r : Text) :
    Halts Char.isUpper ((node binder ts).text ++ r) := by
  cases binder <;> rw [text, List.cons_append] <;> exact halts_cons (by decide)

/-- In front of trees that are readable themselves, all that could make the last name of a tree
longer is a name, and that is joined. -/
theorem Over.readableAll_attach (ht : t.Over IsWord)
    (hread : ∀ {r : Text}, Halts Char.isDigit r → (t.isOpen → Halts Char.isUpper r) → t.Readable r)
    (hus : ReadableAll us r) (hd : Halts Char.isDigit r) (hu : Halts Char.isUpper r) :
    ReadableAll (t.attach us) r := by
  match us with
  | [] => exact ⟨hread hd fun _ => hu, trivial⟩
  | .var s :: us =>
    rw [Tree.attach]
    split_ifs with ho
    · exact ⟨ht.readable_extend ho hus.1, hus.2⟩
    · refine ⟨hread ?_ fun h => absurd h ho, hus⟩
      rw [textAll_cons, List.append_assoc]
      exact hus.1.halts_isDigit
  | .node binder ts :: us =>
    refine ⟨hread ?_ fun _ => ?_, hus⟩ <;> rw [textAll_cons, List.append_assoc]
    · exact hus.1.halts_isDigit
    · exact halts_isUpper_text_node binder ts _

theorem Over.readableAll_joinedAll (h : ∀ t ∈ ts, t.Over IsWord)
    (ih : ∀ t ∈ ts, ∀ {r : Text}, Halts Char.isDigit r → (t.joined.isOpen → Halts Char.isUpper r) →
      t.joined.Readable r)
    (hd : Halts Char.isDigit r) (hu : Halts Char.isUpper r) :
    ReadableAll (Tree.joinedAll ts) r := by
  induction ts with
  | nil => trivial
  | cons t ts ihs =>
    obtain ⟨ht, hts⟩ := List.forall_mem_cons.1 h
    obtain ⟨iht, ih⟩ := List.forall_mem_cons.1 ih
    exact ht.joined.readableAll_attach iht (ihs hts ih) hd hu

/-- When joined, a tree is readable in front of everything but a digit, and but a letter if it ends
with a name without digits. -/
theorem Over.readable_joined (h : t.Over IsWord) (hd : Halts Char.isDigit r)
    (hu : t.joined.isOpen → Halts Char.isUpper r) : t.joined.Readable r := by
  induction h generalizing r with
  | @var s hs =>
    rw [Tree.joined, Readable]
    by_cases ho : isName s
    · exact nameBefore_of_isName ho hd
    · have ho := Bool.eq_false_iff.2 ho
      exact nameBefore_of_isStem (hs.isStem ho) (hu (by simp [Tree.joined, isOpen, ho])) hd
  | group h ih =>
    rw [Tree.joined, Readable]
    exact readableAll_joinedAll h ih (halts_cons (by decide)) (halts_cons (by decide))
  | lambda hb _ ih =>
    exact ⟨hb, ih hd hu⟩

end Tree

namespace Term

variable {a b : Term}

/-- Terms over names that may lack digits are equal exactly if their trees are when joined. -/
theorem Built.equals_iff_joined (ha : a.Built IsWord) (hb : b.Built IsWord) :
    a.equals b ↔ a.collapse.joined = b.collapse.joined := by
  rw [equals_iff, ha.print_eq, hb.print_eq, ← a.collapse.text_joined, ← b.collapse.text_joined]
  constructor
  · intro h
    have hra := ha.over_collapse.readable_joined halts_nil fun _ => halts_nil
    have hrb := hb.over_collapse.readable_joined halts_nil fun _ => halts_nil
    exact hra.eq_of_text_eq hrb h
  · exact congrArg Tree.text

end Term

end LambdaNotation
