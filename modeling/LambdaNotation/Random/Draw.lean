/-!
# Draws from random words

Random choices made from a source of random words. A word is scaled to the range asked for; a word
that would make some choices likelier than others is refused and the next one is taken. A source
says after how many refused words in a row no later word can be accepted either: then the draw
never ends, and its value is `none`.
-/

namespace LambdaNotation

/-- A source of random words. -/
class WordSource (σ : Type) where
  next64 : σ → UInt64 × σ
  next32 : σ → UInt32 × σ
  /-- So many refused words in a row mean that the others are refused too. -/
  patience : σ → Nat

/-- A random value drawn from a source; `none` if the draw never ends. -/
abbrev Draw (σ : Type) := StateT σ Option

inductive Width where
  | short
  | long
  deriving DecidableEq, Repr

def Width.scale : Width → Nat
  | .short => UInt32.size
  | .long => UInt64.size

namespace Draw

variable {σ : Type} [WordSource σ]

def word : Width → σ → Nat × σ
  | .short, s =>
    let (w, s) := WordSource.next32 s
    (w.toNat, s)
  | .long, s =>
    let (w, s) := WordSource.next64 s
    (w.toNat, s)

/-- A number below `size`: the first word, among the next ones, whose place within its share of the
scale is at most `zone`. -/
def accepted (width : Width) (size zone : Nat) : Nat → Draw σ Nat
  | 0 => fun _ => none
  | n + 1 => fun s =>
    let (w, s) := word width s
    let scaled := w * size
    if scaled % width.scale ≤ zone then some (scaled / width.scale, s)
    else accepted width size zone n s

/-- A number below `size`, with the places up to `zone` accepted. -/
def within (width : Width) (size zone : Nat) : Draw σ Nat := fun s =>
  accepted width size zone (WordSource.patience s) s

/-- The last place accepted if `size` is doubled as often as it stays within the scale. -/
def doubledZone (width : Width) (size : Nat) : Nat :=
  (size <<< (width.scale.log2 - 1 - size.log2)) - 1

/-- The last place accepted if no more words are refused than must be. -/
def widestZone (width : Width) (size : Nat) : Nat :=
  width.scale - 1 - (width.scale - size) % size

/-- A number below `size`, from words of the given width. -/
def below (width : Width) (size : Nat) : Draw σ Nat :=
  within width size (doubledZone width size)

def digit : Draw σ Nat := within .short 10 (widestZone .short 10)

/-- One of two choices: whether a word lies in the lower half of the scale. -/
def coin : Draw σ Bool := fun s =>
  let (w, s) := WordSource.next64 s
  some (w < 0x8000000000000000, s)

end Draw

end LambdaNotation
