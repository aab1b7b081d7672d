/-!
The random generator: the ChaCha stream cipher with twelve rounds, keyed from a 64-bit seed. A
generator is its seed and how many 64-bit numbers have been drawn; each number is two words of
the key stream, the lower half first, so the numbers drawn depend on nothing else.
-/
namespace Netlist

namespace ChaCha

abbrev Block := Vector UInt32 16

/-- A word with its bits rotated to the left. -/
def rotate (x : UInt32) (n : UInt32) : UInt32 := (x <<< n) ||| (x >>> (32 - n))

def quarterRound (a b c d : Fin 16) (v : Block) : Block :=
  let v := v.set a (v[a] + v[b])
  let v := v.set d (rotate (v[d] ^^^ v[a]) 16)
  let v := v.set c (v[c] + v[d])
  let v := v.set b (rotate (v[b] ^^^ v[c]) 12)
  let v := v.set a (v[a] + v[b])
  let v := v.set d (rotate (v[d] ^^^ v[a]) 8)
  let v := v.set c (v[c] + v[d])
  v.set b (rotate (v[b] ^^^ v[c]) 7)

/-- A round on the columns and one on the diagonals. -/
def doubleRound (v : Block) : Block :=
  let v := quarterRound 0 4 8 12 v
  let v := quarterRound 1 5 9 13 v
  let v := quarterRound 2 6 10 14 v
  let v := quarterRound 3 7 11 15 v
  let v := quarterRound 0 5 10 15 v
  let v := quarterRound 1 6 11 12 v
  let v := quarterRound 2 7 8 13 v
  quarterRound 3 4 9 14 v

def doubleRounds : Nat → Block → Block
  | 0, v => v
  | n + 1, v => doubleRounds n (doubleRound v)

/-- The block of the key stream with a given number. -/
def block (key : Vector UInt32 8) (number : UInt64) : Block :=
  let initial : Block := #v[0x61707865, 0x3320646e, 0x79622d32, 0x6b206574,
    key[0], key[1], key[2], key[3], key[4], key[5], key[6], key[7],
    number.toUInt32, (number >>> 32).toUInt32, 0, 0]
  Vector.zipWith (· + ·) initial (doubleRounds 6 initial)

/-- One word of a key, and the seed behind it: a linear congruential step whose state is
permuted into the word. -/
def keyWord (seed : UInt64) : UInt32 × UInt64 :=
  let seed := seed * 6364136223846793005 + 11634580027462260723
  let mixed := (((seed >>> 18) ^^^ seed) >>> 27).toUInt32
  let turn := (seed >>> 59).toUInt32
  ((mixed >>> turn) ||| (mixed <<< ((32 - turn) % 32)), seed)

def keyWords : Nat → UInt64 → List UInt32
  | 0, _ => []
  | n + 1, seed =>
    let (word, seed) := keyWord seed
    word :: keyWords n seed

def key (seed : UInt64) : Vector UInt32 8 := Vector.ofFn fun i => (keyWords 8 seed).getD i 0

end ChaCha

/-- A generator of random numbers. -/
structure Generator where
  seed : UInt64 := 0
  drawn : Nat := 0
  deriving DecidableEq, Repr

namespace Generator

def peek (g : Generator) : UInt64 :=
  let words := ChaCha.block (ChaCha.key g.seed) (g.drawn / 8).toUInt64
  let low : Fin 16 := Fin.ofNat 16 (2 * (g.drawn % 8))
  words[low].toUInt64 ||| (words[low + 1].toUInt64 <<< 32)

def next (g : Generator) : UInt64 × Generator := (g.peek, { g with drawn := g.drawn + 1 })

end Generator

/-- A number in `[0, 1)` from the upper 53 bits of a draw. -/
def unitInterval (draw : UInt64) : Float := (draw >>> 11).toFloat.scaleB (-53)

/-- A number in `[-1, 1)` from the upper 52 bits of a draw, taken as the digits of a number in
`[1, 2)`. -/
def symmetricInterval (draw : UInt64) : Float :=
  (Float.ofBits ((draw >>> 12) ||| 0x3ff0000000000000) - 1) * 2 + -1

end Netlist
