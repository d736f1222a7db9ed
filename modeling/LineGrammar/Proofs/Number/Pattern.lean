/-
Bit patterns of floating-point numbers.  A pattern consists of a sign, an exponent and a
fraction.  Its parts say what number it stands for, and its size whether it is one that a
number may have: a single pattern stands for what is not a number.
-/
import Mathlib

namespace LineGrammar

namespace Pattern

open Float.Model UnpackedFloat

variable (format : Format)

theorem toNat_unpackMantissa (bits : BitVec format.numBits) :
    (unpackMantissa bits).toNat = bits.toNat % 2 ^ format.mantissaBitsWithoutImplicit := by
  have hsize : format.mantissaBitsWithoutImplicit - 1 + 1 =
      format.mantissaBitsWithoutImplicit := Nat.sub_add_cancel format.hm
  simp [unpackMantissa, BitVec.extractLsb_toNat, hsize]

theorem toNat_unpackExponent (bits : BitVec format.numBits) :
    (unpackExponent bits).toNat =
      bits.toNat / 2 ^ format.mantissaBitsWithoutImplicit % 2 ^ format.exponentBits := by
  have hpos := format.he
  simp [unpackExponent, BitVec.extractLsb_toNat, Nat.shiftRight_eq_div_pow]
  congr 2
  omega

theorem toNat_unpackSign (bits : BitVec format.numBits) :
    (unpackSign bits).toNat =
      bits.toNat / 2 ^ (format.mantissaBitsWithoutImplicit + format.exponentBits) % 2 := by
  simp [unpackSign, BitVec.extractLsb_toNat, Nat.shiftRight_eq_div_pow]

theorem toNat_append_implicit {width : Nat} (mantissa : BitVec width) :
    (1#1 ++ mantissa).toNat = 2 ^ width + mantissa.toNat := by
  rw [BitVec.toNat_append, ← Nat.shiftLeft_add_eq_or_of_lt mantissa.isLt]
  simp [Nat.shiftLeft_eq]

theorem toNat_mod_eq (bits : BitVec format.numBits) :
    bits.toNat % 2 ^ (format.mantissaBitsWithoutImplicit + format.exponentBits) =
      (unpackMantissa bits).toNat +
        2 ^ format.mantissaBitsWithoutImplicit * (unpackExponent bits).toNat := by
  rw [toNat_unpackMantissa, toNat_unpackExponent, Nat.pow_add, Nat.mod_mul]

theorem unpackExponent_eq_iff (bits : BitVec format.numBits) :
    unpackExponent bits = -1#_ ↔ (unpackExponent bits).toNat = 2 ^ format.exponentBits - 1 := by
  rw [← BitVec.toNat_inj, BitVec.neg_one_eq_allOnes, BitVec.toNat_allOnes]

/-- Up to that of infinity all patterns are admitted, and of those beyond a single one. -/
theorem valid_iff (bits : BitVec format.numBits) :
    format.Valid bits ↔
      bits.toNat % 2 ^ (format.mantissaBitsWithoutImplicit + format.exponentBits) ≤
          2 ^ format.mantissaBitsWithoutImplicit * (2 ^ format.exponentBits - 1) ∨
        bits = packedNaN format := by
  have hmantissaLt := (unpackMantissa bits).isLt
  have hexponentLt := (unpackExponent bits).isLt
  rw [toNat_mod_eq]
  constructor
  · intro h
    by_cases hexponent : unpackExponent bits = -1#_
    · by_cases hmantissa : unpackMantissa bits = 0#_
      · rw [hmantissa, (unpackExponent_eq_iff format bits).mp hexponent, BitVec.toNat_zero]
        exact .inl (by omega)
      · exact .inr (h.eq_packedNaN hexponent hmantissa)
    · have hlt := mt (unpackExponent_eq_iff format bits).mpr hexponent
      have hnext : 2 ^ format.mantissaBitsWithoutImplicit * ((unpackExponent bits).toNat + 1) ≤
          2 ^ format.mantissaBitsWithoutImplicit * (2 ^ format.exponentBits - 1) :=
        Nat.mul_le_mul_left _ (by omega)
      rw [Nat.mul_add, Nat.mul_one] at hnext
      exact .inl (by omega)
  · rintro (hle | rfl)
    · refine ⟨fun hexponent hmantissa => ?_⟩
      rw [(unpackExponent_eq_iff format bits).mp hexponent] at hle
      exact absurd (BitVec.eq_of_toNat_eq (show _ = (0#_).toNat by rw [BitVec.toNat_zero]; omega))
        hmantissa
    · exact @valid_pack format .notANumber

/-- What the parts of a pattern stand for. -/
inductive Decodes (sign : Sign) (exponent : BitVec format.exponentBits)
    (mantissa : BitVec format.mantissaBitsWithoutImplicit) : UnpackedFloat → Prop
  | infinity (hexponent : exponent = -1#_) (hmantissa : mantissa = 0#_) :
      Decodes sign exponent mantissa (.infinity sign)
  | notANumber (hexponent : exponent = -1#_) (hmantissa : mantissa ≠ 0#_) :
      Decodes sign exponent mantissa .notANumber
  | zero (hexponent : exponent = 0#_) (hmantissa : mantissa = 0#_) :
      Decodes sign exponent mantissa (.zero sign)
  | subnormal (hexponent : exponent = 0#_) (hpos : 0 < mantissa.toNat) :
      Decodes sign exponent mantissa (.finite sign mantissa.toNat
        (1 - (format.exponentBias + format.mantissaBitsWithoutImplicit)) hpos)
  | normal (hexponent : 0 < exponent.toNat) (hfinite : exponent.toNat + 1 < 2 ^ format.exponentBits)
      (hpos : 0 < 2 ^ format.mantissaBitsWithoutImplicit + mantissa.toNat) :
      Decodes sign exponent mantissa
        (.finite sign (2 ^ format.mantissaBitsWithoutImplicit + mantissa.toNat)
          (exponent.toNat - (format.exponentBias + format.mantissaBitsWithoutImplicit)) hpos)

/-- A pattern is read as what its parts stand for. -/
theorem decodes_unpack (bits : BitVec format.numBits) :
    Decodes format (Sign.ofBitVec (unpackSign bits)) (unpackExponent bits) (unpackMantissa bits)
      (UnpackedFloat.unpack format bits) := by
  unfold UnpackedFloat.unpack
  simp only
  split
  · next hexponent =>
      split
      · next hmantissa => exact .infinity hexponent hmantissa
      · next hmantissa => exact .notANumber hexponent hmantissa
  · next hexponent =>
      split
      · next hzero =>
          split
          · next hmantissa => exact .zero hzero hmantissa
          · next hmantissa =>
              have hpos : 0 < (unpackMantissa bits).toNat :=
                Nat.pos_of_ne_zero fun hnat => hmantissa (BitVec.eq_of_toNat_eq hnat)
              have hscale : ((unpackExponent bits).toNat : Int) -
                  (format.exponentBias + format.mantissaBitsWithoutImplicit) + 1 =
                    1 - (format.exponentBias + format.mantissaBitsWithoutImplicit) := by
                rw [hzero, BitVec.toNat_zero]
                omega
              simp only [hscale]
              exact .subnormal hzero hpos
      · next hzero =>
          have hexponentLt := (unpackExponent bits).isLt
          have hpos : (unpackExponent bits).toNat ≠ 0 :=
            fun hnat => hzero (BitVec.eq_of_toNat_eq hnat)
          have hfinite : (unpackExponent bits).toNat + 1 ≠ 2 ^ format.exponentBits := by
            intro htop
            exact hexponent ((unpackExponent_eq_iff format bits).mpr (by omega))
          simp only [toNat_append_implicit]
          exact .normal (by omega) (by omega) _

end Pattern

/-- Doubles that are numbers are equal to themselves. -/
theorem Double.beq_self {x : Float} (h : ¬ x.isNaN) : (x == x) = true := by
  simpa using h

end LineGrammar
