/-
Positions of keys.  A position is kept as its bit pattern, because keys are put in the order
of the patterns: what is not a number has many of them, some before all numbers and the
others behind.
-/
import LineGrammar.Number.Single

namespace LineGrammar

/-- The bit pattern of a single-precision number, or of what is none. -/
structure Position where
  bits : UInt32
deriving Repr

namespace Position

/-- The number at a position, if there is one. -/
def value (position : Position) : Float32 :=
  .ofBits position.bits

def ofValue (x : Float32) : Position :=
  ⟨x.toBits⟩

instance {n : Nat} : OfNat Position n :=
  ⟨ofValue (OfNat.ofNat n)⟩

instance : OfScientific Position :=
  ⟨fun mantissa small exponent => ofValue (OfScientific.ofScientific mantissa small exponent)⟩

/-- The sign bit is turned over, whatever the pattern stands for. -/
instance : Neg Position :=
  ⟨fun position => ⟨position.bits ^^^ 0x80000000⟩⟩

/-- Positions are compared as numbers: the zeros are equal, and what is not a number is not
even equal to itself. -/
instance : BEq Position :=
  ⟨fun position other => position.value == other.value⟩

/-- The place of a position in the total order of the bit patterns: those with a sign bit
reversed, then the others.  Either part has patterns of what is not a number at its outer
end. -/
def rank (position : Position) : Int :=
  let bits := position.bits.toNat
  if bits < 0x80000000 then (bits : Int) else 0x7fffffff - (bits : Int)

/-- The nearest position of the unit interval.  What is not a number keeps its pattern, and
so does a negative zero. -/
def clampUnit (position : Position) : Position :=
  if position.value < 0 then 0 else if 1 < position.value then 1 else position

/-- The usual pattern of what is not a number.  It is behind all numbers, and with a sign bit
before them. -/
def stray : Position :=
  ⟨0x7fc00000⟩

example : rank (-0) < rank 0 ∧ rank 1 < rank stray ∧ rank (-stray) < rank (-1) := by
  decide +kernel

end Position

end LineGrammar
