/-
Passage between the two binary floating-point widths.  Widening keeps the value;
narrowing rounds to the nearest single, a tie going to the even neighbour.  Both
work on the bit patterns, so their laws are statements about natural numbers.
-/

namespace LineGrammar

namespace Precision

/-- The quotient by the power of two with some places, rounded to the nearest
natural number, a tie going to the even one. -/
def halfEven (value places : Nat) : Nat :=
  let unit := 1 <<< places
  let quotient := value / unit
  let rest := value % unit
  if unit < 2 * rest ∨ (unit = 2 * rest ∧ quotient % 2 = 1) then quotient + 1 else quotient

/-- The pattern of the double that has the value of a single's pattern, both
without their sign bits. -/
def widenPattern (pattern : Nat) : Nat :=
  let exponent := pattern / 0x800000
  let fraction := pattern % 0x800000
  if exponent = 255 then 0x7ff0000000000000 + fraction * 0x20000000
  else if exponent ≠ 0 then (exponent + 896) * 0x10000000000000 + fraction * 0x20000000
  else if fraction = 0 then 0
  else
    let top := fraction.log2
    (top + 874) * 0x10000000000000 + (fraction - 1 <<< top) * 1 <<< (52 - top)

/-- The pattern of the single nearest to a double's pattern, both without their
sign bits.  What lies beyond the largest single becomes infinite. -/
def narrowPattern (pattern : Nat) : Nat :=
  let exponent := pattern / 0x10000000000000
  let fraction := pattern % 0x10000000000000
  if exponent = 2047 then 0x7f800000 + (if fraction = 0 then 0 else 0x400000)
  else if 897 ≤ exponent then
    min 0x7f800000 ((exponent - 897) * 0x800000 + halfEven (0x10000000000000 + fraction) 29)
  else if exponent ≤ 872 then 0
  else halfEven (0x10000000000000 + fraction) (926 - exponent)

/-- The double with the value of a single. -/
def widen (x : Float32) : Float :=
  let bits := x.toBits
  Float.ofBits (((bits >>> 31).toUInt64 <<< 63)
    ||| UInt64.ofNat (widenPattern (bits &&& 0x7fffffff).toNat))

/-- The single nearest to a double. -/
def narrow (x : Float) : Float32 :=
  let bits := x.toBits
  Float32.ofBits (((bits >>> 63).toUInt32 <<< 31)
    ||| UInt32.ofNat (narrowPattern (bits &&& 0x7fffffffffffffff).toNat))

theorem halfEven_of_dvd (quotient places : Nat) :
    halfEven (quotient * 1 <<< places) places = quotient := by
  have hpos : 0 < 1 <<< places := by
    rw [Nat.one_shiftLeft]
    exact Nat.two_pow_pos places
  simp only [halfEven, Nat.mul_div_cancel _ hpos, Nat.mul_mod_left]
  rw [if_neg (by omega)]

/-- Narrowing the widened pattern of a normal single gives it back. -/
theorem narrowPattern_widenPattern_of_normal (exponent fraction : Nat)
    (hpos : 0 < exponent) (hexponent : exponent < 255) (hfraction : fraction < 0x800000) :
    narrowPattern (widenPattern (exponent * 0x800000 + fraction)) =
      exponent * 0x800000 + fraction := by
  have hdiv : (exponent * 0x800000 + fraction) / 0x800000 = exponent := by omega
  have hmod : (exponent * 0x800000 + fraction) % 0x800000 = fraction := by omega
  have hwide : widenPattern (exponent * 0x800000 + fraction) =
      (exponent + 896) * 0x10000000000000 + fraction * 0x20000000 := by
    simp only [widenPattern, hdiv, hmod]
    rw [if_neg (by omega), if_pos (by omega)]
  have hlow : fraction * 0x20000000 < 0x10000000000000 := by omega
  have hdiv' : ((exponent + 896) * 0x10000000000000 + fraction * 0x20000000)
      / 0x10000000000000 = exponent + 896 := by
    rw [Nat.mul_comm (exponent + 896), Nat.mul_add_div (by decide),
      Nat.div_eq_of_lt hlow, Nat.add_zero]
  have hmod' : ((exponent + 896) * 0x10000000000000 + fraction * 0x20000000)
      % 0x10000000000000 = fraction * 0x20000000 := by
    rw [Nat.mul_comm (exponent + 896), Nat.mul_add_mod, Nat.mod_eq_of_lt hlow]
  have hround : halfEven (0x10000000000000 + fraction * 0x20000000) 29 =
      0x800000 + fraction := by
    have hsum : 0x10000000000000 + fraction * 0x20000000 =
        (0x800000 + fraction) * 1 <<< 29 := by omega
    rw [hsum]
    exact halfEven_of_dvd _ _
  rw [hwide]
  simp only [narrowPattern, hdiv', hmod', hround]
  rw [if_neg (by omega), if_pos (by omega)]
  omega

example : (widen 0.5).toBits = (0.5 : Float).toBits := by decide +kernel
example : (narrow 0.1).toBits = (0.1 : Float32).toBits := by decide +kernel
example : (narrow 1e300).toBits = 0x7f800000 := by decide +kernel
example : (narrow 1e-45).toBits = 1 := by decide +kernel
example : (widen (Float32.ofBits 1)).toBits = 0x36a0000000000000 := by decide +kernel

end Precision

end LineGrammar
