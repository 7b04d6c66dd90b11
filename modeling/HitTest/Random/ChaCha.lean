import HitTest.Random.Counter

/-!
# The ChaCha stream with twelve rounds (`StdRng`)

A block of the stream is sixteen words of 32 bits, scrambled from a key of eight words and the
number of the block. Read in pairs, the low half first, it yields eight words of 64 bits. The key
is spread from a seed of 64 bits by a linear congruence with a permuted output.
-/

namespace HitTest

namespace ChaCha

/-- Sixteen words of 32 bits. -/
abbrev Block := Vector UInt32 16

/-- The word turned left by a number of bits below 32. -/
def rotateLeft (x n : UInt32) : UInt32 := (x <<< n) ||| (x >>> (32 - n))

/-- Scrambles the four words at the given places. -/
def quarterRound (s : Block) (a b c d : Fin 16) : Block :=
  let x := s[a] + s[b]
  let w := rotateLeft (s[d] ^^^ x) 16
  let z := s[c] + w
  let y := rotateLeft (s[b] ^^^ z) 12
  let x := x + y
  let w := rotateLeft (w ^^^ x) 8
  let z := z + w
  let y := rotateLeft (y ^^^ z) 7
  (((s.set a x).set b y).set c z).set d w

/-- Scrambles the four columns and then the four diagonals of the four by four square of words. -/
def doubleRound (s : Block) : Block :=
  let s := quarterRound s 0 4 8 12
  let s := quarterRound s 1 5 9 13
  let s := quarterRound s 2 6 10 14
  let s := quarterRound s 3 7 11 15
  let s := quarterRound s 0 5 10 15
  let s := quarterRound s 1 6 11 12
  let s := quarterRound s 2 7 8 13
  quarterRound s 3 4 9 14

/-- The block before scrambling: four constants, the key, the number of the block, and zeros. -/
def initial (key : Vector UInt32 8) (number : UInt64) : Block :=
  #v[0x61707865, 0x3320646e, 0x79622d32, 0x6b206574,
    key[0], key[1], key[2], key[3], key[4], key[5], key[6], key[7],
    number.toUInt32, (number >>> 32).toUInt32, 0, 0]

/-- The block of a number: the initial block scrambled by six double rounds, and added to itself. -/
def block (key : Vector UInt32 8) (number : UInt64) : Block :=
  let s := initial key number
  Vector.zipWith (· + ·) (Nat.repeat doubleRound 6 s) s

/-- A word of 64 bits from its halves. -/
def join (low high : UInt32) : UInt64 := low.toUInt64 ||| (high.toUInt64 <<< 32)

/-- The eight words of 64 bits of a block. -/
def words (b : Block) : List UInt64 :=
  [join b[0] b[1], join b[2] b[3], join b[4] b[5], join b[6] b[7],
    join b[8] b[9], join b[10] b[11], join b[12] b[13], join b[14] b[15]]

/-- One step of the spreading of a seed. -/
def spread (state : UInt64) : UInt64 := state * 6364136223846793005 + 11634580027462260723

/-- The key word read off a state of the spreading: some middle bits, turned right by the leading
five. -/
def keyWord (state : UInt64) : UInt32 :=
  let x := (((state >>> 18) ^^^ state) >>> 27).toUInt32
  let turn := (state >>> 59).toUInt32
  (x >>> turn) ||| (x <<< ((32 - turn) % 32))

/-- The key of a seed (the state that `seed_from_u64` fills). -/
def spreadKey (seed : UInt64) : Vector UInt32 8 :=
  Vector.ofFn fun i => keyWord (Nat.repeat spread (i.val + 1) seed)

end ChaCha

/-- A place in a ChaCha stream: the words of the current block that are left, and the number of the
block after it (`StdRng`). -/
structure ChaCha where
  key : Vector UInt32 8
  number : UInt64
  left : List UInt64

namespace ChaCha

/-- The beginning of the stream of a seed (`seed_from_u64`). -/
def ofSeed (seed : UInt64) : ChaCha := ⟨spreadKey seed, 0, []⟩

/-- The next word of the stream (`next_u64`). -/
def next (g : ChaCha) : UInt64 × ChaCha :=
  match g.left with
  | word :: left => (word, { g with left })
  | [] =>
    let b := block g.key g.number
    (join b[0] b[1], { g with number := g.number + 1, left := (words b).tail })

instance : WordSource ChaCha := ⟨next⟩

end ChaCha

end HitTest
