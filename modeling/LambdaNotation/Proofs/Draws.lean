import LambdaNotation.Random.Source
import Mathlib

/-!
# What draws give

Three things are said about a draw: all values it gives have a property, from any source and in any
state (`Draw.Yields`); it always ends on a list of words, which goes on with zeros (`Draw.Ends`);
and some words make it give a value and are used up by it (`Draw.Reaches`). Each is kept when draws
follow one another. A number below a size is reached by the first word of its share of the scale:
that word has a place below the size, and no such place is refused.
-/

namespace LambdaNotation.Draw

/-- All values that the draw gives have the property. -/
def Yields {σ α : Type} (draw : Draw σ α) (p : α → Prop) : Prop :=
  ∀ s a s', draw s = some (a, s') → p a

/-- On every list of words the draw gives a value. -/
def Ends {α : Type} (draw : Draw WordList α) : Prop := ∀ s, ∃ a s', draw s = some (a, s')

/-- Some words make the draw give the value, and no other words are taken. -/
def Reaches {α : Type} (draw : Draw WordList α) (a : α) : Prop :=
  ∃ words, ∀ rest, draw ⟨words ++ rest⟩ = some (a, ⟨rest⟩)

/-! ## One draw after another -/

section

variable {σ α β : Type}

theorem bind_of_some {draw : Draw σ α} {f : α → Draw σ β} {s s' : σ} {a : α}
    (h : draw s = some (a, s')) : (draw >>= f) s = f a s' := by
  show (draw s).bind _ = _
  rw [h]
  rfl

theorem exists_of_bind_eq_some {draw : Draw σ α} {f : α → Draw σ β} {s s'' : σ} {b : β}
    (h : (draw >>= f) s = some (b, s'')) :
    ∃ a s', draw s = some (a, s') ∧ f a s' = some (b, s'') := by
  obtain ⟨⟨a, s'⟩, ha, hb⟩ := Option.bind_eq_some_iff.1 h
  exact ⟨a, s', ha, hb⟩

theorem Yields.pure {p : α → Prop} {a : α} (h : p a) : Yields (pure a : Draw σ α) p := by
  intro s b s' hb
  cases hb
  exact h

theorem Yields.bind {draw : Draw σ α} {f : α → Draw σ β} {p : α → Prop} {q : β → Prop}
    (h : draw.Yields p) (hf : ∀ a, p a → (f a).Yields q) : Yields (draw >>= f) q := by
  intro s b s'' hb
  obtain ⟨a, s', ha, hb⟩ := exists_of_bind_eq_some hb
  exact hf a (h s a s' ha) s' b s'' hb

theorem Yields.mono {draw : Draw σ α} {p q : α → Prop} (h : draw.Yields p) (hpq : ∀ a, p a → q a) :
    draw.Yields q := fun s a s' ha => hpq a (h s a s' ha)

theorem Ends.pure (a : α) : Ends (pure a) := fun s => ⟨a, s, rfl⟩

theorem Ends.bind {draw : Draw WordList α} {f : α → Draw WordList β} (h : draw.Ends)
    (hf : ∀ a, (f a).Ends) : Ends (draw >>= f) := by
  intro s
  obtain ⟨a, s', ha⟩ := h s
  obtain ⟨b, s'', hb⟩ := hf a s'
  exact ⟨b, s'', (bind_of_some ha).trans hb⟩

theorem Reaches.pure (a : α) : Reaches (pure a) a := ⟨[], fun _ => rfl⟩

theorem Reaches.bind {draw : Draw WordList α} {f : α → Draw WordList β} {a : α} {b : β}
    (h : draw.Reaches a) (hf : (f a).Reaches b) : Reaches (draw >>= f) b := by
  obtain ⟨u, hu⟩ := h
  obtain ⟨v, hv⟩ := hf
  refine ⟨u ++ v, fun rest => ?_⟩
  rw [List.append_assoc, bind_of_some (hu (v ++ rest)), hv]

end

/-! ## Words -/

theorem word_lt {σ : Type} [WordSource σ] (width : Width) (s : σ) :
    (word width s).1 < width.scale := by
  cases width with
  | short => exact UInt32.toNat_lt_size _
  | long => exact UInt64.toNat_lt_size _

theorem word_nil (width : Width) : word width (⟨[]⟩ : WordList) = (0, ⟨[]⟩) := by
  cases width <;> rfl

theorem word_words (width : Width) (w : UInt64) (ws : List UInt64) :
    (word width (⟨w :: ws⟩ : WordList)).2 = ⟨ws⟩ := by
  cases width <;> rfl

/-- Each value of a word is that of a word in a list. -/
theorem exists_word {width : Width} {n : Nat} (h : n < width.scale) :
    ∃ w : UInt64, ∀ ws, word width (⟨w :: ws⟩ : WordList) = (n, ⟨ws⟩) := by
  refine ⟨UInt64.ofNat n, fun ws => ?_⟩
  have hn : (word width (⟨UInt64.ofNat n :: ws⟩ : WordList)).1 = n := by
    cases width with
    | short =>
      show (UInt64.ofNat n).toUInt32.toNat = n
      have hs : n < 2 ^ 32 := h
      rw [UInt64.toNat_toUInt32, UInt64.toNat_ofNat']
      omega
    | long => exact UInt64.toNat_ofNat_of_lt' h
  exact Prod.ext hn (word_words ..)

/-! ## Numbers below a size -/

section

variable {σ : Type} [WordSource σ] {width : Width} {size zone n k : Nat}

theorem accepted_succ (width : Width) (size zone n : Nat) (s : σ) :
    accepted width size zone (n + 1) s =
      if (word width s).1 * size % width.scale ≤ zone then
        some ((word width s).1 * size / width.scale, (word width s).2)
      else accepted width size zone n (word width s).2 := rfl

theorem yields_accepted (hs : 0 < size) :
    (accepted width size zone n : Draw σ Nat).Yields (· < size) := by
  induction n with
  | zero => exact fun s a s' h => nomatch h
  | succ n ih =>
    intro s a s' h
    rw [accepted_succ] at h
    split_ifs at h with hz
    · obtain ⟨rfl, -⟩ := Prod.mk.inj (Option.some.inj h)
      have hw := Nat.mul_lt_mul_of_pos_right (word_lt width s) hs
      exact Nat.div_lt_of_lt_mul hw
    · exact ih _ a s' h

/-- A refused word is one of the list, since zeros are accepted. -/
theorem exists_accepted (width : Width) (size zone : Nat) {ws : List UInt64} (h : ws.length < n) :
    ∃ k s', accepted width size zone n (⟨ws⟩ : WordList) = some (k, s') := by
  induction n generalizing ws with
  | zero => exact absurd h (Nat.not_lt_zero _)
  | succ n ih =>
    rw [accepted_succ]
    split_ifs with hz
    · exact ⟨_, _, rfl⟩
    · cases ws with
      | nil => simp [word_nil] at hz
      | cons w ws =>
        rw [word_words]
        exact ih (Nat.lt_of_succ_lt_succ h)

/-- The first word of the share of `k` lies less than `size` places behind its start. -/
theorem exists_mul_eq {scale : Nat} (hk : k < size) (hs : size ≤ scale) :
    ∃ w < scale, ∃ r < size, w * size = k * scale + r := by
  have hdiv := Nat.div_add_mod' (k * scale + (size - 1)) size
  have hmod := Nat.mod_lt (k * scale + (size - 1)) (Nat.zero_lt_of_lt hk)
  have hshare : k * scale + scale ≤ size * scale := by
    rw [← Nat.succ_mul]
    exact Nat.mul_le_mul_right scale hk
  have hlt : k * scale + (size - 1) < size * scale := by omega
  exact ⟨_, Nat.div_lt_of_lt_mul hlt, size - 1 - (k * scale + (size - 1)) % size, by omega,
    by omega⟩

theorem reaches_within (hk : k < size) (hs : size ≤ width.scale) (hz : size ≤ zone + 1) :
    Reaches (within width size zone) k := by
  obtain ⟨n, hn, r, hr, hmul⟩ := exists_mul_eq hk hs
  obtain ⟨w, hw⟩ := exists_word hn
  have hrs : r < width.scale := hr.trans_le hs
  have hmod : n * size % width.scale = r := by
    rw [hmul, Nat.mul_comm, Nat.mul_add_mod, Nat.mod_eq_of_lt hrs]
  have hdiv : n * size / width.scale = k := by
    rw [hmul, Nat.mul_comm, Nat.mul_add_div (Nat.zero_lt_of_lt hrs), Nat.div_eq_of_lt hrs]
    rfl
  refine ⟨[w], fun rest => ?_⟩
  show accepted width size zone ((w :: rest).length + 1) _ = _
  rw [accepted_succ, List.singleton_append, hw, hmod, hdiv, if_pos (by omega)]

theorem yields_within (hs : 0 < size) :
    (within width size zone : Draw σ Nat).Yields (· < size) :=
  fun s => yields_accepted hs s

theorem ends_within : Ends (within width size zone) :=
  fun _ => exists_accepted width size zone (Nat.lt_succ_self _)

theorem le_doubledZone (width : Width) (size : Nat) : size ≤ doubledZone width size + 1 := by
  unfold doubledZone
  have h := Nat.le_mul_of_pos_right size (Nat.two_pow_pos (width.scale.log2 - 1 - size.log2))
  rw [Nat.shiftLeft_eq]
  omega

theorem yields_below (hs : 0 < size) : (below width size : Draw σ Nat).Yields (· < size) :=
  yields_within hs

theorem ends_below : Ends (below width size) := ends_within

theorem reaches_below (hk : k < size) (hs : size ≤ width.scale) : Reaches (below width size) k :=
  reaches_within hk hs (le_doubledZone width size)

theorem yields_digit : (digit : Draw σ Nat).Yields (· < 10) := yields_within (by decide)

theorem ends_digit : Ends digit := ends_within

theorem reaches_digit (hk : k < 10) : Reaches digit k := by
  have hs : 10 ≤ Width.short.scale := by decide
  have hz : 10 ≤ widestZone .short 10 + 1 := by decide
  exact reaches_within hk hs hz

end

/-! ## Coins -/

theorem ends_coin : Ends coin := fun _ => ⟨_, _, rfl⟩

theorem reaches_coin (b : Bool) : Reaches coin b := by
  cases b with
  | true => exact ⟨[0], fun _ => rfl⟩
  | false => exact ⟨[0x8000000000000000], fun _ => rfl⟩

end LambdaNotation.Draw
