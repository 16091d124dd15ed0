import LambdaNotation.Random.Draw

/-!
# Sources of random words

A list of words, and the generator that makes words from a seed: ChaCha with twelve rounds.
-/

namespace LambdaNotation

/-! ## A list of words -/

/-- The words of a list, then zeros. -/
structure WordList where
  words : List UInt64
  deriving DecidableEq, Repr

namespace WordList

def next : WordList → UInt64 × WordList
  | ⟨[]⟩ => (0, ⟨[]⟩)
  | ⟨w :: ws⟩ => (w, ⟨ws⟩)

/-- A short word is the low half of a word. Zeros are always accepted. -/
instance : WordSource WordList where
  next64 := next
  next32 s := (s.next.1.toUInt32, s.next.2)
  patience s := s.words.length + 1

end WordList

/-! ## ChaCha -/

/-- The key stream of ChaCha: the blocks of a key, numbered from zero, as words. -/
structure ChaCha where
  key : Vector UInt32 8
  counter : UInt64 := 0
  left : List UInt32 := []

namespace ChaCha

/-- A word with its bits moved left by `n`, around the end. -/
def rotate (x : UInt32) (n : UInt32) : UInt32 := (x <<< n) ||| (x >>> (32 - n))

def quarterRound (s : Vector UInt32 16) (a b c d : Fin 16) : Vector UInt32 16 :=
  let s := s.set a (s[a] + s[b])
  let s := s.set d (rotate (s[d] ^^^ s[a]) 16)
  let s := s.set c (s[c] + s[d])
  let s := s.set b (rotate (s[b] ^^^ s[c]) 12)
  let s := s.set a (s[a] + s[b])
  let s := s.set d (rotate (s[d] ^^^ s[a]) 8)
  let s := s.set c (s[c] + s[d])
  s.set b (rotate (s[b] ^^^ s[c]) 7)

/-- A round on the columns and a round on the diagonals. -/
def doubleRound (s : Vector UInt32 16) : Vector UInt32 16 :=
  let s := quarterRound s 0 4 8 12
  let s := quarterRound s 1 5 9 13
  let s := quarterRound s 2 6 10 14
  let s := quarterRound s 3 7 11 15
  let s := quarterRound s 0 5 10 15
  let s := quarterRound s 1 6 11 12
  let s := quarterRound s 2 7 8 13
  quarterRound s 3 4 9 14

/-- The words before the rounds: four constants, the key, the number of the block, zeros. -/
def initial (key : Vector UInt32 8) (counter : UInt64) : Vector UInt32 16 :=
  #v[0x61707865, 0x3320646e, 0x79622d32, 0x6b206574,
    key[0], key[1], key[2], key[3], key[4], key[5], key[6], key[7],
    counter.toUInt32, (counter >>> 32).toUInt32, 0, 0]

/-- A block: twelve rounds, added to the words before them. -/
def block (key : Vector UInt32 8) (counter : UInt64) : Vector UInt32 16 :=
  let s := initial key counter
  s.zipWith (· + ·) (Nat.repeat doubleRound 6 s)

def next32 (s : ChaCha) : UInt32 × ChaCha :=
  match s.left with
  | w :: left => (w, { s with left })
  | [] =>
    let words := block s.key s.counter
    (words[0], { s with counter := s.counter + 1, left := words.toList.tail })

/-- The next long word: two short ones, the low half first. -/
def next64 (s : ChaCha) : UInt64 × ChaCha :=
  let (low, s) := s.next32
  let (high, s) := s.next32
  (low.toUInt64 ||| (high.toUInt64 <<< 32), s)

/-- The blocks come back when their numbers do, and each has sixteen short words. -/
instance : WordSource ChaCha where
  next64 := next64
  next32 := next32
  patience _ := 16 * UInt64.size

/-- One step of the generator that spreads a seed over a key. -/
def spread (state : UInt64) : UInt64 :=
  state * 6364136223846793005 + 11634580027462260723

/-- The word of the key that a state of that generator gives. -/
def keyWord (state : UInt64) : UInt32 :=
  let x := (((state >>> 18) ^^^ state) >>> 27).toUInt32
  let n := (state >>> 59).toUInt32
  (x >>> n) ||| (x <<< ((32 - n) % 32))

def ofSeed (seed : UInt64) : ChaCha where
  key := Vector.ofFn fun i => keyWord (Nat.repeat spread (i + 1) seed)

end ChaCha

end LambdaNotation
