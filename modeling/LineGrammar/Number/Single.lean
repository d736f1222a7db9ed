/-
Arithmetic on single-precision numbers beyond the four operations: clamping,
extremes, rounding to integers and fractional parts.  Each rule says what becomes of
values that are not numbers.
-/
import LineGrammar.Number.Precision

namespace LineGrammar

namespace Single

/-- A count as the nearest single. -/
def ofCount (count : Nat) : Float32 :=
  (UInt64.ofNat count).toFloat32

/-- The nearest value of the unit interval.  A value that is not a number stays,
and so does a negative zero. -/
def clampUnit (x : Float32) : Float32 :=
  if x < 0 then 0 else if 1 < x then 1 else x

/-- The smaller of two values; one that is not a number is passed over. -/
def lesser (x y : Float32) : Float32 :=
  if x.isNaN then y else if y < x then y else x

/-- The larger of two values; one that is not a number is passed over. -/
def greater (x y : Float32) : Float32 :=
  if x.isNaN then y else if x < y then y else x

/-- The nearest byte, a half going away from zero.  Values outside the bytes
become the nearest byte, and what is not a number becomes zero. -/
def toByte (x : Float32) : UInt8 :=
  let whole := x.toUInt8
  if whole < 255 ∧ 0.5 ≤ x - whole.toFloat32 then whole + 1 else whole

/-- The nearest integer, a half going away from zero, kept within 64-bit words.
What is not a number becomes zero. -/
def toNearest (x : Float32) : Int :=
  let size := x.abs
  let whole := size.toUInt64
  let rounded := if 0.5 ≤ size - whole.toFloat32 then whole.toNat + 1 else whole.toNat
  if x < 0 then max (-(rounded : Int)) (-0x8000000000000000)
  else min (rounded : Int) 0x7fffffffffffffff

/-- The least count that is not below `x`. -/
def ceiling (x : Float32) : Nat :=
  let whole := x.toUInt64
  if whole.toFloat32 < x then whole.toNat + 1 else whole.toNat

/-- The part of `x` beyond the next lower integer.  A negative value just below
an integer may round up to one, and an integer with a sign bit leaves a negative zero. -/
def fraction (x : Float32) : Float32 :=
  let size := x.abs
  if size.isNaN || size.isInf then 0 / 0
  else
    let rest := if size < 16777216 then size - size.toUInt64.toFloat32 else 0
    if x.toBits < 0x80000000 then rest else if 0 < rest then 1 - rest else -0.0

/-- The length of a vector, computed in double precision.  It is infinite if
either coordinate is. -/
def length (x y : Float32) : Float32 :=
  if x.isInf || y.isInf then Float32.ofBits 0x7f800000
  else
    let wideX := Precision.widen x
    let wideY := Precision.widen y
    Precision.narrow (wideX * wideX + wideY * wideY).sqrt

section NotANumber

open Float.Model (Format UnpackedFloat)

theorem unpack_of_isNaN {x : Float32} (h : x.isNaN) : x.toModel.unpack = .notANumber := by
  have hnan : x.toModel.unpack.isNaN = true := h
  cases hunpack : x.toModel.unpack with
  | notANumber => rfl
  | infinity sign =>
      rw [hunpack] at hnan
      cases hnan
  | zero sign =>
      rw [hunpack] at hnan
      cases hnan
  | finite sign mantissa exponent hpos =>
      rw [hunpack] at hnan
      cases hnan

theorem compare_of_isNaN {x : Float32} (h : x.isNaN) (y : Float32) :
    x.toModel.unpack.compare y.toModel.unpack = none ∧
      y.toModel.unpack.compare x.toModel.unpack = none := by
  rw [unpack_of_isNaN h]
  constructor
  · rfl
  · cases y.toModel.unpack <;> rfl

theorem lt_iff_compare (x y : Float32) :
    x < y ↔ x.toModel.unpack.compare y.toModel.unpack = some .lt := by
  have hlt : x < y ↔ x.toModel.unpack.lt y.toModel.unpack = true := decide_eq_true_iff
  rw [hlt, UnpackedFloat.lt, beq_iff_eq]

theorem not_lt_of_isNaN {x : Float32} (h : x.isNaN) (y : Float32) : ¬ x < y ∧ ¬ y < x := by
  obtain ⟨hleft, hright⟩ := compare_of_isNaN h y
  simp [lt_iff_compare, hleft, hright]

theorem clampUnit_of_isNaN {x : Float32} (h : x.isNaN) : clampUnit x = x := by
  simp [clampUnit, not_lt_of_isNaN h]

theorem isNaN_mul_of_isNaN {x : Float32} (h : x.isNaN) (y : Float32) : (x * y).isNaN := by
  have hmul : (x * y).toModel = Float32.Model.pack .notANumber := by
    change Float32.Model.pack (UnpackedFloat.mul Format.binary32 x.toModel.unpack _) = _
    rw [unpack_of_isNaN h]
    rfl
  change (x * y).toModel.isNaN = true
  rw [hmul]
  decide +kernel

theorem toUInt64_of_isNaN {x : Float32} (h : x.isNaN) : x.toUInt64 = 0 := by
  change x.toModel.unpack.toUInt64 = 0
  rw [unpack_of_isNaN h]
  decide +kernel

end NotANumber

example : toByte 127.5 = 128 ∧ toByte 254.6 = 255 ∧ toByte 300 = 255 := by decide +kernel
example : toByte (-3) = 0 ∧ toByte (0 / 0) = 0 := by decide +kernel
example : toNearest (-2.5) = -3 ∧ toNearest 0.49999997 = 0 := by decide +kernel
example : ceiling 2.25 = 3 ∧ ceiling 2 = 2 ∧ ceiling (0 / 0) = 0 := by decide +kernel
example : (fraction 2.75).toBits = (0.75 : Float32).toBits := by decide +kernel
example : (fraction (-3)).toBits = (-0.0 : Float32).toBits := by decide +kernel

end Single

end LineGrammar
