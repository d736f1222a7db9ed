/-
Reproducible random scalars.  A 64-bit seed is stretched to the key of a stream
cipher of twelve rounds, and each word of its output becomes one scalar of the
unit interval.
-/
import LineGrammar.Painter.Basic

namespace LineGrammar

namespace Random

/-- The next state of the generator that stretches a seed. -/
def nextState (state : UInt64) : UInt64 :=
  state * 6364136223846793005 + 11634580027462260723

/-- The word of a state: its high bits folded and rotated. -/
def stateWord (state : UInt64) : UInt32 :=
  let folded := (((state >>> 18) ^^^ state) >>> 27).toUInt32
  let turn := (state >>> 59).toUInt32
  (folded >>> turn) ||| (folded <<< ((32 - turn) % 32))

/-- The words of the next states. -/
def stretch : Nat → UInt64 → List UInt32
  | 0, _ => []
  | count + 1, state => stateWord (nextState state) :: stretch count (nextState state)

/-- Turn a word left. -/
def rotate (word turn : UInt32) : UInt32 :=
  (word <<< turn) ||| (word >>> (32 - turn))

/-- Sixteen words, in rows of four. -/
abbrev Words := Array UInt32

def word (words : Words) (index : Nat) : UInt32 :=
  words[index]?.getD 0

/-- Add one word to a second and mix the sum into a third. -/
def mix (target source mixed : Nat) (turn : UInt32) (words : Words) : Words :=
  let words := words.setIfInBounds target (word words target + word words source)
  words.setIfInBounds mixed (rotate (word words mixed ^^^ word words target) turn)

/-- Mix four words with one another. -/
def quarterRound (a b c d : Nat) (words : Words) : Words :=
  mix c d b 7 (mix a b d 8 (mix c d b 12 (mix a b d 16 words)))

/-- Mix the columns, then the diagonals. -/
def doubleRound (words : Words) : Words :=
  let columns := quarterRound 3 7 11 15 (quarterRound 2 6 10 14
    (quarterRound 1 5 9 13 (quarterRound 0 4 8 12 words)))
  quarterRound 3 4 9 14 (quarterRound 2 7 8 13
    (quarterRound 1 6 11 12 (quarterRound 0 5 10 15 columns)))

def opening : List UInt32 :=
  [0x61707865, 0x3320646e, 0x79622d32, 0x6b206574]

/-- The words of one block before mixing: the opening, the key, the number of the
block and an empty nonce. -/
def blockStart (key : List UInt32) (block : UInt64) : Words :=
  (opening ++ key ++ [block.toUInt32, (block >>> 32).toUInt32, 0, 0]).toArray

/-- The output words of one block. -/
def blockWords (key : List UInt32) (block : UInt64) : Words :=
  let start := blockStart key block
  Array.zipWith (· + ·) (Nat.repeat doubleRound 6 start) start

def scalar (word : UInt32) : Float32 :=
  (word >>> 8).toFloat32 * Float32.ofBits 0x33800000

/-- The scalars of a seed. -/
def draws (seed : UInt64) : Draws :=
  let key := stretch 8 seed
  fun index => scalar (word (blockWords key (UInt64.ofNat (index / 16))) (index % 16))

example : (draws 7 0).toBits = (0.41664094 : Float32).toBits := by decide +kernel
example : (draws 7 3).toBits = (0.30708623 : Float32).toBits := by decide +kernel

end Random

/-- Tools that take the scalars of a seed from the cipher and search gradients by halves. -/
def Painter.Tools.standard : Painter.Tools :=
  ⟨Random.draws, .halving⟩

end LineGrammar
