/-
Rounding of single-precision results.  Rounding never makes a number of what is none or the
other way round; it leaves the finite numbers only where a value is too large, and it reaches
zero only from below the least one.  From this follows which operations on finite numbers give
finite numbers again.
-/
import LineGrammar.Proofs.Number.Order

namespace LineGrammar

namespace Rounding

open Float.Model UnpackedFloat

theorem mantissa_shiftRight (extended : ExtendedMantissa) (places : Nat) :
    (extended >>> places).mantissa = extended.mantissa / 2 ^ places := by
  change (places.repeat ExtendedMantissa.shiftRightOne extended).mantissa = _
  induction places with
  | zero => exact (Nat.div_one _).symm
  | succ places ih =>
      rw [Nat.repeat, ExtendedMantissa.shiftRightOne, ih, Nat.div_div_eq_div_mul, Nat.pow_succ]

theorem mantissa_ofMantissaAndAccuracy (mantissa : Nat) (accuracy : Accuracy) :
    (ExtendedMantissa.ofMantissaAndAccuracy mantissa accuracy).mantissa = mantissa := by
  cases accuracy with
  | exact => rfl
  | inexact order => cases order <;> rfl

/-- A mantissa is rounded to itself or to the next one. -/
theorem roundedMantissa_bounds (extended : ExtendedMantissa) :
    extended.mantissa ≤ extended.roundedMantissa ∧
      extended.roundedMantissa ≤ extended.mantissa + 1 := by
  obtain ⟨mantissa, roundBit, stickyBit⟩ := extended
  cases roundBit <;> cases stickyBit <;>
    simp only [ExtendedMantissa.roundedMantissa, ExtendedMantissa.accuracy,
      Accuracy.roundToNearestEven] <;> omega

/-- Bits are dropped until 24 are left and the exponent is not below the least one. -/
theorem shiftToTargetExponent_eq (mantissa : Nat) (exponent : Int) (accuracy : Accuracy) :
    ∃ places : Nat, (places : Int) = max 0 (max ((mantissa.log2 : Int) - 23) (-149 - exponent)) ∧
      (shiftToTargetExponent Format.binary32 mantissa exponent accuracy).1.mantissa =
        mantissa / 2 ^ places ∧
      (shiftToTargetExponent Format.binary32 mantissa exponent accuracy).2 =
        exponent + places := by
  have htarget : Format.binary32.targetExponent (totalExponent mantissa exponent) =
      max (mantissa.log2 + 1 + exponent - 24) (-149) := rfl
  refine ⟨(Format.binary32.targetExponent (totalExponent mantissa exponent) - exponent).toNat,
    ?_, ?_, rfl⟩
  · rw [htarget]
    omega
  · rw [shiftToTargetExponent, shiftToExponent, mantissa_shiftRight,
      mantissa_ofMantissaAndAccuracy]

theorem div_lt_of_places {mantissa places : Nat} (h : (mantissa.log2 : Int) - 23 ≤ places) :
    mantissa / 2 ^ places < 0x1000000 := by
  rw [Nat.div_lt_iff_lt_mul (Nat.two_pow_pos places)]
  calc
    mantissa < 2 ^ (mantissa.log2 + 1) := Nat.lt_log2_self
    _ ≤ 2 ^ (24 + places) := Nat.pow_le_pow_right (by decide) (by omega)
    _ = 0x1000000 * 2 ^ places := Nat.pow_add 2 24 places

theorem div_pos_of_places {mantissa : Nat} (places : Nat) (hpos : 0 < mantissa)
    (h : places ≤ mantissa.log2) : 0 < mantissa / 2 ^ places := by
  refine Nat.div_pos ?_ (Nat.two_pow_pos places)
  exact Nat.le_trans (Nat.pow_le_pow_right (by decide) h) (Nat.log2_self_le hpos.ne')

/-- A result is zero, which only happens below the least number, or it is finite with a
mantissa of 24 bits and an exponent that is hardly greater than it has to be. -/
theorem roundWithAccuracy_cases (sign : Sign) (mantissa : Nat) (exponent : Int)
    (accuracy : Accuracy) :
    (roundWithAccuracy Format.binary32 sign mantissa exponent accuracy = .zero sign ∧
        (0 < mantissa → exponent < -149)) ∨
      ∃ mantissa' exponent' hpos,
        roundWithAccuracy Format.binary32 sign mantissa exponent accuracy =
          .finite sign mantissa' exponent' hpos ∧
        mantissa' < 0x1000000 ∧ -149 ≤ exponent' ∧
        exponent' ≤ max exponent (max (mantissa.log2 + exponent - 23) (-149)) + 1 := by
  obtain ⟨places, hplaces, hfirst, hnext⟩ := shiftToTargetExponent_eq mantissa exponent accuracy
  obtain ⟨first, hfirstEq⟩ :
      ∃ first, first = shiftToTargetExponent Format.binary32 mantissa exponent accuracy := ⟨_, rfl⟩
  rw [← hfirstEq] at hfirst hnext
  -- A mantissa that was rounded up may have one bit more, which is dropped in turn.
  obtain ⟨carry, hcarry, hlast, hexponent⟩ :=
    shiftToTargetExponent_eq first.1.roundedMantissa first.2 .exact
  have hbounds := roundedMantissa_bounds first.1
  rw [hfirst] at hbounds
  have hround : roundWithAccuracy Format.binary32 sign mantissa exponent accuracy =
      if h : (shiftToTargetExponent Format.binary32 first.1.roundedMantissa first.2
          .exact).1.mantissa = 0 then .zero sign
      else .finite sign _ (shiftToTargetExponent Format.binary32 first.1.roundedMantissa first.2
          .exact).2 (Nat.pos_of_ne_zero h) := by
    rw [hfirstEq]
    rfl
  by_cases hzero : (shiftToTargetExponent Format.binary32 first.1.roundedMantissa first.2
      .exact).1.mantissa = 0
  · refine .inl ⟨hround.trans (dif_pos hzero), fun hpos => ?_⟩
    rw [hlast] at hzero
    -- Otherwise the highest bit is never dropped.
    by_contra hlarge
    have hkept := div_pos_of_places places hpos (by omega)
    have hfinal := div_pos_of_places carry (Nat.lt_of_lt_of_le hkept hbounds.1)
      (by omega)
    omega
  · refine .inr ⟨_, _, Nat.pos_of_ne_zero hzero, hround.trans (dif_neg hzero), ?_, ?_⟩
    · rw [hlast]
      exact div_lt_of_places (by omega)
    have hsmall := div_lt_of_places (by omega : (mantissa.log2 : Int) - 23 ≤ places)
    have hlog : first.1.roundedMantissa.log2 < 25 := by
      by_cases hnone : first.1.roundedMantissa = 0
      · rw [hnone]
        decide
      · exact (Nat.log2_lt hnone).mpr (by omega)
    rw [hexponent]
    omega

theorem isNaN_roundWithAccuracy (sign : Sign) (mantissa : Nat) (exponent : Int)
    (accuracy : Accuracy) :
    (roundWithAccuracy Format.binary32 sign mantissa exponent accuracy).isNaN = false := by
  rcases roundWithAccuracy_cases sign mantissa exponent accuracy with
    ⟨hzero, -⟩ | ⟨mantissa', exponent', hpos, hfinite, -⟩
  · rw [hzero]
    rfl
  · rw [hfinite]
    rfl

theorem log2_shiftLeft {mantissa : Nat} (hpos : 0 < mantissa) (places : Nat) :
    (mantissa <<< places).log2 = mantissa.log2 + places := by
  have hscaled : 0 < mantissa <<< places := by
    rw [Nat.shiftLeft_eq]
    exact Nat.mul_pos hpos (Nat.two_pow_pos places)
  rw [Nat.log2_eq_iff hscaled.ne', Nat.shiftLeft_eq, Nat.add_right_comm, Nat.pow_add, Nat.pow_add]
  exact ⟨Nat.mul_le_mul_right _ (Nat.log2_self_le hpos.ne'),
    Nat.mul_lt_mul_of_pos_right Nat.lt_log2_self (Nat.two_pow_pos places)⟩

theorem round_cases (sign : Sign) {mantissa : Nat} (hpos : 0 < mantissa) (exponent : Int) :
    (UnpackedFloat.round Format.binary32 sign mantissa exponent = .zero sign ∧
        exponent < -149) ∨
      ∃ mantissa' exponent' hpos',
        UnpackedFloat.round Format.binary32 sign mantissa exponent =
          .finite sign mantissa' exponent' hpos' ∧
        mantissa' < 0x1000000 ∧ -149 ≤ exponent' ∧
        exponent' ≤ max (mantissa.log2 + exponent - 23) (-149) + 1 := by
  obtain ⟨places, hplaces⟩ : ∃ places, places =
      (exponent - max (mantissa.log2 + 1 + exponent - 24) (-149)).toNat := ⟨_, rfl⟩
  have hround : UnpackedFloat.round Format.binary32 sign mantissa exponent =
      roundWithAccuracy Format.binary32 sign (mantissa <<< places) (exponent - places) .exact := by
    rw [hplaces]
    rfl
  have hscaled : 0 < mantissa <<< places := by
    rw [Nat.shiftLeft_eq]
    exact Nat.mul_pos hpos (Nat.two_pow_pos places)
  have hcases := roundWithAccuracy_cases sign (mantissa <<< places) (exponent - places) .exact
  rw [← hround, log2_shiftLeft hpos] at hcases
  rcases hcases with
    ⟨hzero, hsmall⟩ | ⟨mantissa', exponent', hpos', hfinite, hmantissa', hge, hle⟩
  · have hlt := hsmall hscaled
    exact .inl ⟨hzero, by omega⟩
  · exact .inr ⟨mantissa', exponent', hpos', hfinite, hmantissa', hge, by omega⟩

/-- What can be packed without becoming infinite. -/
inductive Fits : UnpackedFloat → Prop
  | zero (sign : Sign) : Fits (.zero sign)
  | finite (sign : Sign) (mantissa : Nat) (exponent : Int) (hpos : 0 < mantissa)
      (hexponent : exponent ≤ 104) : Fits (.finite sign mantissa exponent hpos)

theorem fits_round (sign : Sign) {mantissa : Nat} {exponent : Int} (hpos : 0 < mantissa)
    (h : mantissa.log2 + exponent ≤ 126) :
    Fits (UnpackedFloat.round Format.binary32 sign mantissa exponent) := by
  rcases round_cases sign hpos exponent with
    ⟨hzero, -⟩ | ⟨mantissa', exponent', hpos', hfinite, -, -, hle⟩
  · rw [hzero]
    exact .zero sign
  · rw [hfinite]
    exact .finite sign mantissa' exponent' hpos' (by omega)

/-- Numbers below two to the 127 stay finite when they are rounded. -/
theorem fits_normalize {value exponent : Int} (places : Nat) (zeroSign : Sign)
    (hvalue : value.natAbs < 2 ^ places) (h : places + exponent ≤ 127) :
    Fits (UnpackedFloat.normalize Format.binary32 value exponent zeroSign) := by
  have hlog : ∀ mantissa : Nat, mantissa = value.natAbs → 0 < mantissa →
      mantissa.log2 + exponent ≤ 126 := by
    intro mantissa hmantissa hpos
    have hlt := (Nat.log2_lt (k := places) hpos.ne').mpr (by omega)
    omega
  rcases Int.lt_trichotomy value 0 with hlt | rfl | hgt
  · rw [UnpackedFloat.normalize, Int.compare_eq_lt.mpr hlt]
    exact fits_round .negative (by omega) (hlog _ (by omega) (by omega))
  · exact .zero zeroSign
  · rw [UnpackedFloat.normalize, Int.compare_eq_gt.mpr hgt]
    exact fits_round .positive (by omega) (hlog _ (by omega) (by omega))

/-- Only the largest exponent stands for what is infinite or not a number. -/
theorem isFinite_unpack {bits : BitVec Format.binary32.numBits}
    (h : unpackExponent bits ≠ -1#_) : (unpack Format.binary32 bits).isFinite := by
  have hdecodes := Pattern.decodes_unpack Format.binary32 bits
  generalize unpack Format.binary32 bits = unpacked at hdecodes ⊢
  cases hdecodes with
  | infinity hexponent => exact absurd hexponent h
  | notANumber hexponent => exact absurd hexponent h
  | zero => rfl
  | subnormal => rfl
  | normal => rfl

theorem pack_congr {unpacked unpacked' : UnpackedFloat}
    (h : UnpackedFloat.pack Format.binary32 unpacked =
      UnpackedFloat.pack Format.binary32 unpacked') :
    Float32.Model.pack unpacked = Float32.Model.pack unpacked' := by
  simp only [Float32.Model.pack, h]

/-- What is too large becomes infinite when it is packed.  All else does not get the largest
exponent, and it is no zero if it has at most 24 bits. -/
theorem pack_finite_cases (sign : Sign) (mantissa : Nat) (exponent : Int) (hpos : 0 < mantissa) :
    (104 < exponent ∧ Float32.Model.pack (.finite sign mantissa exponent hpos) =
        Float32.Model.pack (.infinity sign)) ∨
      ∃ exponentBits mantissaBits,
        UnpackedFloat.pack Format.binary32 (.finite sign mantissa exponent hpos) =
          packComponents Format.binary32 sign exponentBits mantissaBits ∧
        exponentBits ≠ -1#_ ∧
        (mantissa < 0x1000000 → -149 ≤ exponent → ¬ (exponentBits = 0#_ ∧ mantissaBits = 0#_)) := by
  obtain ⟨biased, hbiased⟩ : ∃ biased, biased = (exponent + 127 + 23).toNat := ⟨_, rfl⟩
  have hpack : UnpackedFloat.pack Format.binary32 (.finite sign mantissa exponent hpos) =
      if 256 ≤ biased + 1 then packedInfinity Format.binary32 sign
      else if mantissa.log2 + 1 = 24 then
        packComponents Format.binary32 sign (BitVec.ofNat _ biased) (BitVec.ofNat _ mantissa)
      else packComponents Format.binary32 sign 0#_ (BitVec.ofNat _ mantissa) := by
    rw [hbiased]
    rfl
  by_cases hlarge : 256 ≤ biased + 1
  · refine .inl ⟨by omega, pack_congr ?_⟩
    rw [hpack, if_pos hlarge]
    rfl
  rw [if_neg hlarge] at hpack
  by_cases hnormal : mantissa.log2 + 1 = 24
  · refine .inr ⟨_, _, hpack.trans (if_pos hnormal), ?_, ?_⟩
    · intro h
      have hnat : biased % 256 = 255 := congrArg BitVec.toNat h
      omega
    · intro hmantissa hexponent h
      have hnat : biased % 256 = 0 := congrArg BitVec.toNat h.1
      omega
  · refine .inr ⟨_, _, hpack.trans (if_neg hnormal), by decide, ?_⟩
    intro hmantissa hexponent h
    have hnat : mantissa % 0x800000 = 0 := congrArg BitVec.toNat h.2
    have hlog := (Nat.log2_lt (k := 24) hpos.ne').mpr hmantissa
    have hlt := (Nat.log2_lt (k := 23) hpos.ne').mp (by omega)
    omega

theorem isFinite_pack_finite (sign : Sign) (mantissa : Nat) (exponent : Int)
    (hpos : 0 < mantissa) :
    (Float32.Model.pack (.finite sign mantissa exponent hpos)).isFinite = true ∨
      (104 < exponent ∧ Float32.Model.pack (.finite sign mantissa exponent hpos) =
        Float32.Model.pack (.infinity sign)) := by
  rcases pack_finite_cases sign mantissa exponent hpos with
    hlarge | ⟨exponentBits, mantissaBits, hpack, hexponent, -⟩
  · exact .inr hlarge
  · left
    apply isFinite_unpack
    change unpackExponent (UnpackedFloat.pack Format.binary32 _) ≠ _
    rwa [hpack, unpackExponent_packComponents]

/-- Only zero is packed as zero. -/
theorem unpack_pack_ne_zero (sign sign' : Sign) {mantissa : Nat} {exponent : Int}
    (hpos : 0 < mantissa) (hmantissa : mantissa < 0x1000000) (hexponent : -149 ≤ exponent) :
    (Float32.Model.pack (.finite sign mantissa exponent hpos)).unpack ≠ .zero sign' := by
  intro hzero
  rcases pack_finite_cases sign mantissa exponent hpos with
    ⟨-, hinfinite⟩ | ⟨exponentBits, mantissaBits, hpack, -, hbits⟩
  · have hinfinity : (Float32.Model.pack (.infinity sign)).unpack.isFinite = false := by
      cases sign <;> decide +kernel
    rw [← hinfinite, hzero] at hinfinity
    cases hinfinity
  · have hdecodes := Pattern.decodes_unpack Format.binary32
      (UnpackedFloat.pack Format.binary32 (.finite sign mantissa exponent hpos))
    have hunpack : UnpackedFloat.unpack Format.binary32
        (UnpackedFloat.pack Format.binary32 (.finite sign mantissa exponent hpos)) =
          .zero sign' := hzero
    rw [hunpack, hpack, unpackExponent_packComponents, unpackMantissa_packComponents] at hdecodes
    cases hdecodes with
    | zero hnone hempty => exact hbits hmantissa hexponent ⟨hnone, hempty⟩

theorem Fits.isFinite_pack {unpacked : UnpackedFloat} (h : Fits unpacked) :
    (Float32.Model.pack unpacked).isFinite = true := by
  cases h with
  | zero sign => cases sign <;> decide +kernel
  | finite sign mantissa exponent hpos hexponent =>
      exact (isFinite_pack_finite sign mantissa exponent hpos).resolve_right (by omega)

theorem zero_or_finite {unpacked : UnpackedFloat} (h : unpacked.isFinite) :
    (∃ sign, unpacked = .zero sign) ∨
      ∃ sign mantissa exponent hpos, unpacked = .finite sign mantissa exponent hpos := by
  cases unpacked with
  | notANumber => cases h
  | infinity sign => cases h
  | zero sign => exact .inl ⟨sign, rfl⟩
  | finite sign mantissa exponent hpos => exact .inr ⟨sign, mantissa, exponent, hpos, rfl⟩

theorem not_isNaN_of_isFinite {unpacked : UnpackedFloat} (h : unpacked.isFinite) :
    unpacked.isNaN = false := by
  rcases zero_or_finite h with ⟨sign, rfl⟩ | ⟨sign, mantissa, exponent, hpos, rfl⟩
  · rfl
  · rfl

/-- Only what is not a number becomes so when it is packed. -/
theorem isNaN_pack (unpacked : UnpackedFloat) :
    (Float32.Model.pack unpacked).isNaN = unpacked.isNaN := by
  cases unpacked with
  | notANumber => decide +kernel
  | zero sign => cases sign <;> decide +kernel
  | infinity sign => cases sign <;> decide +kernel
  | finite sign mantissa exponent hpos =>
      rcases isFinite_pack_finite sign mantissa exponent hpos with hfinite | ⟨-, hinfinite⟩
      · exact not_isNaN_of_isFinite hfinite
      · have hinfinity : (Float32.Model.pack (.infinity sign)).isNaN = false := by
          cases sign <;> decide +kernel
        rw [hinfinite, hinfinity]
        rfl

end Rounding

end LineGrammar
