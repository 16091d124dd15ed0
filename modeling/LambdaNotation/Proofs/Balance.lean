import LambdaNotation.Nesting
import Mathlib

/-!
# Balanced parentheses

`Text.excess` counts, without bounds, how many more parentheses a text opens than it closes. A text
is `Opened` if no prefix closes more than it opens, and `Balanced` if moreover all are closed at
its end; it is `Shallow` if no prefix leaves more than a given number of them open.
`Nesting.exists_count` ties the excess to the count in 32 bits.
-/

namespace LambdaNotation

namespace Text

/-- How many more parentheses a text opens than it closes. -/
def excess (s : Text) : Int := s.count '(' - s.count ')'

/-- No prefix closes more parentheses than it opens. -/
def Opened (s : Text) : Prop := ∀ p, p <+: s → 0 ≤ excess p

/-- Nowhere in the text are more than `n` parentheses open. -/
def Shallow (s : Text) (n : Nat) : Prop := ∀ p, p <+: s → excess p ≤ n

/-- Every parenthesis has its partner. -/
def Balanced (s : Text) : Prop := Opened s ∧ excess s = 0

@[simp] theorem excess_nil : excess [] = 0 := rfl

@[simp] theorem excess_append (s t : Text) : excess (s ++ t) = excess s + excess t := by
  unfold excess
  rw [List.count_append, List.count_append]
  omega

theorem excess_cons (c : Char) (s : Text) : excess (c :: s) = excess [c] + excess s :=
  excess_append [c] s

@[simp] theorem excess_opening : excess ['('] = 1 := by decide

@[simp] theorem excess_closing : excess [')'] = -1 := by decide

theorem excess_singleton {c : Char} (ho : c ≠ '(') (hc : c ≠ ')') : excess [c] = 0 := by
  unfold excess
  rw [List.count_singleton, List.count_singleton]
  simp [ho, hc]

theorem neg_length_le_excess (s : Text) : -s.length ≤ excess s := by
  have h := List.count_le_length (a := ')') (l := s)
  unfold excess
  omega

theorem excess_le_length (s : Text) : excess s ≤ s.length := by
  have h := List.count_le_length (a := '(') (l := s)
  unfold excess
  omega

theorem excess_eq_zero {s : Text} (h : ∀ c ∈ s, c ≠ '(' ∧ c ≠ ')') : excess s = 0 := by
  unfold excess
  rw [List.count_eq_zero_of_not_mem fun hm => (h _ hm).1 rfl,
    List.count_eq_zero_of_not_mem fun hm => (h _ hm).2 rfl]
  rfl

theorem Opened.excess_nonneg {s : Text} (h : Opened s) : 0 ≤ excess s := h s s.prefix_refl

theorem Opened.mono {s t : Text} (h : Opened t) (hp : s <+: t) : Opened s :=
  fun p hs => h p (hs.trans hp)

theorem opened_nil : Opened [] := by
  intro p hp
  rw [List.prefix_nil.1 hp]
  exact Int.le_refl 0

theorem balanced_nil : Balanced [] := ⟨opened_nil, excess_nil⟩

/-- One more character keeps a text opened unless it closes what was never opened. -/
theorem Opened.concat {s : Text} {c : Char} (h : Opened s) (hc : 0 ≤ excess (s ++ [c])) :
    Opened (s ++ [c]) := by
  intro p hp
  rcases List.prefix_concat_iff.1 hp with rfl | hp
  · exact hc
  · exact h p hp

theorem Opened.append {s t : Text} (hs : Opened s) (ht : Opened t) : Opened (s ++ t) := by
  rintro p ⟨r, hr⟩
  rcases List.append_eq_append_iff.1 hr with ⟨q, hq, -⟩ | ⟨q, rfl, hq⟩
  · exact hs p ⟨q, hq.symm⟩
  · have h₁ := hs.excess_nonneg
    have h₂ := ht q ⟨r, hq.symm⟩
    rw [excess_append]
    omega

theorem Balanced.append {s t : Text} (hs : Balanced s) (ht : Balanced t) : Balanced (s ++ t) :=
  ⟨hs.1.append ht.1, by rw [excess_append, hs.2, ht.2]; rfl⟩

theorem balanced_of_forall {s : Text} (h : ∀ c ∈ s, c ≠ '(' ∧ c ≠ ')') : Balanced s :=
  ⟨fun _ hp => Int.le_of_eq (excess_eq_zero fun c hc => h c (hp.subset hc)).symm,
    excess_eq_zero h⟩

theorem shallow_of_forall {s : Text} (h : ∀ c ∈ s, c ≠ '(' ∧ c ≠ ')') (n : Nat) : Shallow s n := by
  intro p hp
  rw [excess_eq_zero fun c hc => h c (hp.subset hc)]
  exact Int.natCast_nonneg n

theorem shallow_length (s : Text) : Shallow s s.length := by
  intro p hp
  have hlen := hp.length_le
  have hle := excess_le_length p
  omega

theorem Shallow.mono {s : Text} {m n : Nat} (h : Shallow s m) (hmn : m ≤ n) : Shallow s n := by
  intro p hp
  have hm := h p hp
  omega

theorem Shallow.append {s t : Text} {n : Nat} (hs : Shallow s n) (h0 : excess s = 0)
    (ht : Shallow t n) : Shallow (s ++ t) n := by
  rintro p ⟨r, hr⟩
  rcases List.append_eq_append_iff.1 hr with ⟨q, hq, -⟩ | ⟨q, rfl, hq⟩
  · exact hs p ⟨q, hq.symm⟩
  · rw [excess_append, h0, Int.zero_add]
    exact ht q ⟨r, hq.symm⟩

theorem Shallow.parenthesize {s : Text} {n : Nat} (h : Shallow s n) (h0 : excess s = 0) :
    Shallow ('(' :: (s ++ [')'])) (n + 1) := by
  intro p hp
  cases p with
  | nil =>
    rw [excess_nil]
    omega
  | cons c p =>
    obtain ⟨rfl, hs⟩ := List.cons_prefix_cons.1 hp
    have hclose : Shallow [')'] n := by
      intro q hq
      rcases List.prefix_concat_iff.1 (show q <+: [] ++ [')'] from hq) with rfl | hq
      · simp
      · rw [List.prefix_nil.1 hq]
        exact Int.natCast_nonneg n
    have hin := h.append h0 hclose p hs
    rw [excess_cons, excess_opening]
    omega

theorem Balanced.parenthesize {s : Text} (h : Balanced s) : Balanced ('(' :: (s ++ [')'])) := by
  refine ⟨?_, by rw [excess_cons, excess_append, h.2]; simp⟩
  have ho : Opened ('(' :: s) := by
    intro p hp
    cases p with
    | nil => simp
    | cons c p =>
      obtain ⟨rfl, hs⟩ := List.cons_prefix_cons.1 hp
      have hp := h.1 p hs
      rw [excess_cons, excess_opening]
      omega
  apply ho.concat
  rw [excess_append, excess_cons, h.2]
  decide

end Text

namespace Nesting

variable {n n' : Nesting} {c : Char}

theorem toInt_add_one {d : Int32} (h : d ≠ Int32.maxValue) : (d + 1).toInt = d.toInt + 1 := by
  have hmax : Int32.maxValue.toInt = 2147483647 := by decide
  have hne : d.toInt ≠ Int32.maxValue.toInt := fun he => h (Int32.toInt_inj.1 he)
  have hle := d.toInt_le
  have hge := d.le_toInt
  have hmin : Int32.minValue.toInt = -2147483648 := by decide
  rw [Int32.toInt_add]
  exact Int.bmod_eq_of_le (by simp; omega) (by simp; omega)

theorem toInt_sub_one {d : Int32} (h : d ≠ Int32.minValue) : (d - 1).toInt = d.toInt - 1 := by
  have hmin : Int32.minValue.toInt = -2147483648 := by decide
  have hne : d.toInt ≠ Int32.minValue.toInt := fun he => h (Int32.toInt_inj.1 he)
  have hle := d.toInt_le
  have hge := d.le_toInt
  have hmax : Int32.maxValue.toInt = 2147483647 := by decide
  rw [Int32.toInt_sub]
  exact Int.bmod_eq_of_le (by simp; omega) (by simp; omega)

/-- Counting a character in 32 bits adds its excess. -/
theorem toInt_of_count (h : n.count? c = some n') :
    n'.depth.toInt = n.depth.toInt + Text.excess [c] := by
  unfold count? at h
  split_ifs at h with ho hmax hc hmin <;> cases h
  · rw [ho, Text.excess_opening]
    exact toInt_add_one hmax
  · rw [hc, Text.excess_closing]
    exact toInt_sub_one hmin
  · rw [Text.excess_singleton ho hc, Int.add_zero]

/-- A character is not counted only where the sum does not fit. -/
theorem le_or_lt_of_count_eq_none (h : n.count? c = none) :
    2147483648 ≤ n.depth.toInt + Text.excess [c] ∨
      n.depth.toInt + Text.excess [c] < -2147483648 := by
  unfold count? at h
  split_ifs at h with ho hmax hc hmin
  · rw [hmax, ho, Text.excess_opening]
    decide
  · rw [hmin, hc, Text.excess_closing]
    decide

theorem exists_count (hlo : -2147483648 ≤ n.depth.toInt + Text.excess [c])
    (hhi : n.depth.toInt + Text.excess [c] < 2147483648) : ∃ n', n.count? c = some n' ∧
      n'.depth.toInt = n.depth.toInt + Text.excess [c] := by
  rcases h : n.count? c with _ | n'
  · have hbeyond := le_or_lt_of_count_eq_none h
    omega
  · exact ⟨n', rfl, toInt_of_count h⟩

theorem toInt_lt (n : Nesting) : n.depth.toInt < 2147483648 := by
  have hle := n.depth.toInt_le
  have hmax : Int32.maxValue.toInt = 2147483647 := by decide
  omega

end Nesting

end LambdaNotation
