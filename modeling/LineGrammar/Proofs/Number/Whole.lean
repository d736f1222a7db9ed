/-
Whole numbers in single precision.  Integers of at most 24 bits have a single of their own,
and sums and differences of such integers that have at most 24 bits again are exact.
-/
import LineGrammar.Proofs.Number.Rounding

namespace LineGrammar

namespace Rounding

open Float.Model UnpackedFloat

/-- Bits that were shifted in are shifted out again without a trace. -/
theorem shiftRight_shiftLeft (mantissa places : Nat) :
    ExtendedMantissa.ofMantissaAndAccuracy (mantissa <<< places) .exact >>> places =
      ExtendedMantissa.ofMantissaAndAccuracy mantissa .exact := by
  change places.repeat ExtendedMantissa.shiftRightOne _ = _
  induction places generalizing mantissa with
  | zero => rfl
  | succ places ih =>
      have hinner : mantissa <<< (places + 1) = (2 * mantissa) <<< places := by
        rw [Nat.shiftLeft_eq, Nat.shiftLeft_eq, Nat.pow_succ']
        ac_rfl
      rw [Nat.repeat, hinner, ih]
      simp [ExtendedMantissa.shiftRightOne, ExtendedMantissa.ofMantissaAndAccuracy]

theorem shiftToTargetExponent_exact {mantissa : Nat} {exponent : Int} (hlog : mantissa.log2 = 23)
    (hexponent : -149 ≤ exponent) (places : Nat) :
    shiftToTargetExponent Format.binary32 (mantissa <<< places) (exponent - places) .exact =
      (ExtendedMantissa.ofMantissaAndAccuracy mantissa .exact, exponent) := by
  have hpos : 0 < mantissa := by
    by_contra hzero
    rw [Nat.eq_zero_of_not_pos hzero] at hlog
    cases hlog
  have htarget : Format.binary32.targetExponent
      (totalExponent (mantissa <<< places) (exponent - places)) = exponent := by
    change max ((mantissa <<< places).log2 + 1 + (exponent - places) - 24 : Int) (-149) = _
    rw [log2_shiftLeft hpos, hlog]
    omega
  have hplaces : (exponent - (exponent - places)).toNat = places := by omega
  rw [shiftToTargetExponent, htarget, shiftToExponent, hplaces, shiftRight_shiftLeft]
  simp

/-- What fits into 24 bits is not changed by rounding. -/
theorem roundWithAccuracy_exact (sign : Sign) {mantissa : Nat} {exponent : Int}
    (hlog : mantissa.log2 = 23) (hpos : 0 < mantissa) (hexponent : -149 ≤ exponent)
    (places : Nat) :
    roundWithAccuracy Format.binary32 sign (mantissa <<< places) (exponent - places) .exact =
      .finite sign mantissa exponent hpos := by
  have hsame := shiftToTargetExponent_exact hlog hexponent 0
  rw [Nat.shiftLeft_zero, Int.natCast_zero, Int.sub_zero] at hsame
  have hrounded : (ExtendedMantissa.ofMantissaAndAccuracy mantissa .exact).roundedMantissa =
      mantissa := rfl
  rw [roundWithAccuracy, shiftToTargetExponent_exact hlog hexponent]
  simp only [hrounded, hsame]
  exact dif_neg hpos.ne'

/-- The free places above a mantissa of less than 24 bits. -/
def room (mantissa : Nat) : Nat :=
  23 - mantissa.log2

section Whole

variable {mantissa : Nat} (hpos : 0 < mantissa) (hlt : mantissa < 0x1000000)
include hpos hlt

theorem log2_shiftLeft_room : (mantissa <<< room mantissa).log2 = 23 := by
  have hlog := (Nat.log2_lt (k := 24) hpos.ne').mpr hlt
  rw [log2_shiftLeft hpos, room]
  omega

/-- However many places a whole number is written with, rounding brings it to 24 bits. -/
theorem round_whole (sign : Sign) (places : Nat) :
    UnpackedFloat.round Format.binary32 sign (mantissa <<< places) (-places) =
      .finite sign (mantissa <<< room mantissa) (-room mantissa)
        (Nat.shiftLeft_pos_iff.mpr hpos) := by
  have hlog := (Nat.log2_lt (k := 24) hpos.ne').mpr hlt
  have htarget : Format.binary32.targetExponent
      (totalExponent (mantissa <<< places) (-places)) = -room mantissa := by
    change max ((mantissa <<< places).log2 + 1 + -(places : Int) - 24 : Int) (-149) = _
    rw [log2_shiftLeft hpos, room]
    omega
  have hroom : -149 ≤ -(room mantissa : Int) := by rw [room]; omega
  have hexact := roundWithAccuracy_exact sign (log2_shiftLeft_room hpos hlt)
    (Nat.shiftLeft_pos_iff.mpr hpos) hroom
  rw [UnpackedFloat.round, htarget, decreaseExponent]
  simp only
  rcases Nat.le_total places (room mantissa) with hfew | hmany
  · have hmissing : (-(places : Int) - -(room mantissa : Int)).toNat = room mantissa - places := by
      omega
    have hshift : mantissa <<< places <<< (room mantissa - places) =
        mantissa <<< room mantissa := by
      rw [← Nat.shiftLeft_add, Nat.add_sub_cancel' hfew]
    rw [hmissing, hshift, show -(places : Int) - (room mantissa - places : Nat) =
      -room mantissa - (0 : Nat) by omega]
    exact hexact 0
  · have hnone : (-(places : Int) - -(room mantissa : Int)).toNat = 0 := by omega
    have hshift : mantissa <<< places =
        mantissa <<< room mantissa <<< (places - room mantissa) := by
      rw [← Nat.shiftLeft_add, Nat.add_sub_cancel' hmany]
    rw [hnone, Nat.shiftLeft_zero, hshift, show -(places : Int) - (0 : Nat) =
      -room mantissa - (places - room mantissa : Nat) by omega]
    exact hexact _

end Whole

/-- A finite number with its first bit set is read as it was packed. -/
theorem unpack_pack_exact (sign : Sign) {mantissa : Nat} {exponent : Int}
    (hlog : mantissa.log2 = 23) (hpos : 0 < mantissa) (hleast : -149 ≤ exponent)
    (hmost : exponent ≤ 104) :
    (Float32.Model.pack (.finite sign mantissa exponent hpos)).unpack =
      .finite sign mantissa exponent hpos := by
  have hbounds := (Nat.log2_eq_iff hpos.ne').mp hlog
  obtain ⟨biased, hbiased⟩ : ∃ biased, biased = (exponent + 127 + 23).toNat := ⟨_, rfl⟩
  have hpack : UnpackedFloat.pack Format.binary32 (.finite sign mantissa exponent hpos) =
      packComponents Format.binary32 sign (BitVec.ofNat _ biased) (BitVec.ofNat _ mantissa) := by
    have hsmall : ¬ 256 ≤ biased + 1 := by omega
    have hfull : mantissa.log2 + 1 = 24 := by omega
    rw [hbiased] at hsmall ⊢
    exact (if_neg hsmall).trans (if_pos hfull)
  have hdecodes := Pattern.decodes_unpack Format.binary32
    (packComponents Format.binary32 sign (BitVec.ofNat _ biased) (BitVec.ofNat _ mantissa))
  rw [unpackSign_packComponents, unpackExponent_packComponents, unpackMantissa_packComponents,
    Sign.ofBitVec_toBitVec] at hdecodes
  have hexponent : (BitVec.ofNat Format.binary32.exponentBits biased).toNat = biased :=
    Nat.mod_eq_of_lt (by change biased < 256; omega)
  have hmantissa : (BitVec.ofNat Format.binary32.mantissaBitsWithoutImplicit mantissa).toNat =
      mantissa - 0x800000 := by
    change mantissa % 0x800000 = _
    omega
  change UnpackedFloat.unpack Format.binary32
    (UnpackedFloat.pack Format.binary32 (.finite sign mantissa exponent hpos)) = _
  rw [hpack]
  generalize UnpackedFloat.unpack Format.binary32 (packComponents Format.binary32 sign
    (BitVec.ofNat _ biased) (BitVec.ofNat _ mantissa)) = unpacked at hdecodes ⊢
  cases hdecodes with
  | infinity htop =>
      have htop : biased % 256 = 255 := congrArg BitVec.toNat htop
      omega
  | notANumber htop =>
      have htop : biased % 256 = 255 := congrArg BitVec.toNat htop
      omega
  | zero hnone =>
      have hnone : biased % 256 = 0 := congrArg BitVec.toNat hnone
      omega
  | subnormal hnone =>
      have hnone : biased % 256 = 0 := congrArg BitVec.toNat hnone
      omega
  | normal =>
      congr 1
      · rw [hmantissa]
        change 0x800000 + (mantissa - 0x800000) = mantissa
        omega
      · rw [hexponent]
        change (biased : Int) - (127 + 23) = exponent
        omega

/-- A whole number comes out the same at every scale. -/
theorem normalize_whole {n : Int} (hn : n.natAbs < 0x1000000) (places : Nat) :
    UnpackedFloat.normalize Format.binary32 (n * 2 ^ places) (-places) .positive =
      UnpackedFloat.normalize Format.binary32 n 0 .positive := by
  have hscale : (0 : Int) < 2 ^ places := Int.pow_pos (by decide)
  have hsame : ∀ (sign : Sign) {mantissa : Nat}, 0 < mantissa → mantissa < 0x1000000 →
      UnpackedFloat.round Format.binary32 sign (mantissa * 2 ^ places) (-places) =
        UnpackedFloat.round Format.binary32 sign mantissa 0 := by
    intro sign mantissa hpos hlt
    rw [← Nat.shiftLeft_eq, round_whole hpos hlt]
    exact (round_whole hpos hlt sign 0).symm
  rcases Int.lt_trichotomy n 0 with hneg | rfl | hpos
  · have hproduct : n * 2 ^ places < 0 := Int.mul_neg_of_neg_of_pos hneg hscale
    have hnat : (-(n * 2 ^ places)).toNat = (-n).toNat * 2 ^ places := by
      rw [← Int.neg_mul, Int.toNat_mul (by omega) (by omega)]
      rfl
    rw [UnpackedFloat.normalize, UnpackedFloat.normalize, Int.compare_eq_lt.mpr hproduct,
      Int.compare_eq_lt.mpr hneg, hnat]
    exact hsame .negative (by omega) (by omega)
  · rw [Int.zero_mul]
    rfl
  · have hproduct : 0 < n * 2 ^ places := Int.mul_pos hpos hscale
    have hnat : (n * 2 ^ places).toNat = n.toNat * 2 ^ places := by
      rw [Int.toNat_mul (by omega) (by omega)]
      rfl
    rw [UnpackedFloat.normalize, UnpackedFloat.normalize, Int.compare_eq_gt.mpr hproduct,
      Int.compare_eq_gt.mpr hpos, hnat]
    exact hsame .positive (by omega) (by omega)

/-- What a whole number of at most 24 bits is read as: zero, or a mantissa that fills all bits. -/
inductive Whole : Int → UnpackedFloat → Prop
  | zero : Whole 0 (.zero .positive)
  | finite (sign : Sign) (mantissa : Nat) (hpos : 0 < mantissa) (hlt : mantissa < 0x1000000) :
      Whole (sign.apply mantissa) (.finite sign (mantissa <<< room mantissa) (-room mantissa)
        (Nat.shiftLeft_pos_iff.mpr hpos))

theorem exists_whole {n : Int} (hn : n.natAbs < 0x1000000) : ∃ unpacked, Whole n unpacked := by
  rcases Int.lt_trichotomy n 0 with hneg | rfl | hpos
  · obtain ⟨mantissa, rfl⟩ : ∃ mantissa : Nat, n = -mantissa := ⟨n.natAbs, by omega⟩
    exact ⟨_, .finite .negative mantissa (by omega) (by omega)⟩
  · exact ⟨_, .zero⟩
  · obtain ⟨mantissa, rfl⟩ : ∃ mantissa : Nat, n = mantissa := ⟨n.natAbs, by omega⟩
    exact ⟨_, .finite .positive mantissa (by omega) (by omega)⟩

theorem Whole.eq_normalize {n : Int} {unpacked : UnpackedFloat} (h : Whole n unpacked) :
    UnpackedFloat.normalize Format.binary32 n 0 .positive = unpacked := by
  cases h with
  | zero => rfl
  | finite sign mantissa hpos hlt =>
      have hround := round_whole hpos hlt sign 0
      rw [UnpackedFloat.normalize]
      cases sign with
      | positive =>
          simp only [Sign.apply, Int.compare_eq_gt.mpr (Int.natCast_pos.mpr hpos)]
          exact hround
      | negative =>
          have hneg : -(mantissa : Int) < 0 := by omega
          simp only [Sign.apply, Int.compare_eq_lt.mpr hneg, Int.neg_neg, Int.toNat_natCast]
          exact hround

theorem whole_normalize {n : Int} (hn : n.natAbs < 0x1000000) :
    Whole n (UnpackedFloat.normalize Format.binary32 n 0 .positive) := by
  obtain ⟨unpacked, hwhole⟩ := exists_whole hn
  rwa [hwhole.eq_normalize]

theorem Whole.unpack_pack {n : Int} {unpacked : UnpackedFloat} (h : Whole n unpacked) :
    (Float32.Model.pack unpacked).unpack = unpacked := by
  cases h with
  | zero => rfl
  | finite sign mantissa hpos hlt =>
      exact unpack_pack_exact sign (log2_shiftLeft_room hpos hlt) _ (by rw [room]; omega) (by omega)

/-- A mantissa is brought to a scale on which there is room for it. -/
theorem decreaseExponent_room {mantissa places : Nat} (h : room mantissa ≤ places) :
    decreaseExponent (mantissa <<< room mantissa) (-room mantissa) (-places : Int) =
      (mantissa * 2 ^ places, (-places : Int)) := by
  have hgap : (-(room mantissa : Int) - -(places : Int)).toNat = places - room mantissa := by omega
  rw [decreaseExponent, hgap, ← Nat.shiftLeft_add, Nat.add_sub_cancel' h, Nat.shiftLeft_eq]
  congr 1
  omega

theorem apply_natCast_mul (sign : Sign) (mantissa places : Nat) :
    sign.apply ((mantissa * 2 ^ places : Nat) : Int) = sign.apply mantissa * 2 ^ places := by
  cases sign with
  | positive => exact Int.natCast_mul _ _
  | negative => simp [Sign.apply]

theorem min_room (mantissa mantissa' : Nat) :
    min (-(room mantissa : Int)) (-(room mantissa' : Int)) =
      -((max (room mantissa) (room mantissa') : Nat) : Int) := by
  omega

section Arithmetic

variable {m n : Int} {left right : UnpackedFloat}

theorem Whole.neg (h : Whole n left) (hn : n ≠ 0) : Whole (-n) left.neg := by
  cases h with
  | zero => exact absurd rfl hn
  | finite sign mantissa hpos hlt =>
      have happly : -sign.apply (mantissa : Int) = (-sign).apply mantissa := by
        cases sign with
        | positive => rfl
        | negative => exact Int.neg_neg _
      rw [happly]
      exact .finite (-sign) mantissa hpos hlt

/-- Sums of whole numbers are exact as long as they have at most 24 bits. -/
theorem Whole.add (hleft : Whole m left) (hright : Whole n right)
    (h : (m + n).natAbs < 0x1000000) :
    UnpackedFloat.add Format.binary32 left right =
      UnpackedFloat.normalize Format.binary32 (m + n) 0 .positive := by
  cases hleft with
  | zero =>
      rw [Int.zero_add, hright.eq_normalize]
      cases hright with
      | zero => rfl
      | finite sign' mantissa' hpos' hlt' => rfl
  | finite sign mantissa hpos hlt =>
      cases hright with
      | zero =>
          rw [Int.add_zero]
          exact (Whole.finite sign mantissa hpos hlt).eq_normalize.symm
      | finite sign' mantissa' hpos' hlt' =>
          rw [UnpackedFloat.add]
          simp only [min_room, decreaseExponent_room (Nat.le_max_left _ _),
            decreaseExponent_room (Nat.le_max_right _ _)]
          rw [apply_natCast_mul, apply_natCast_mul, ← Int.add_mul, normalize_whole h]

/-- Differences of whole numbers are exact as long as they have at most 24 bits. -/
theorem Whole.sub (hleft : Whole m left) (hright : Whole n right)
    (h : (m - n).natAbs < 0x1000000) :
    UnpackedFloat.sub Format.binary32 left right =
      UnpackedFloat.normalize Format.binary32 (m - n) 0 .positive := by
  cases hleft with
  | zero =>
      cases hright with
      | zero => rfl
      | finite sign' mantissa' hpos' hlt' =>
          have hnonzero : sign'.apply (mantissa' : Int) ≠ 0 := by
            cases sign' <;> simp only [Sign.apply] <;> omega
          rw [Int.zero_sub]
          exact ((Whole.finite sign' mantissa' hpos' hlt').neg hnonzero).eq_normalize.symm
  | finite sign mantissa hpos hlt =>
      cases hright with
      | zero =>
          rw [Int.sub_zero]
          exact (Whole.finite sign mantissa hpos hlt).eq_normalize.symm
      | finite sign' mantissa' hpos' hlt' =>
          rw [UnpackedFloat.sub]
          simp only [min_room, decreaseExponent_room (Nat.le_max_left _ _),
            decreaseExponent_room (Nat.le_max_right _ _)]
          rw [apply_natCast_mul, apply_natCast_mul, ← Int.sub_mul, normalize_whole h]

/-- One is the neutral element of the product. -/
theorem Whole.mul_one (h : Whole n left) :
    UnpackedFloat.mul Format.binary32 left (Float32.toModel 1).unpack = left := by
  have hone : (Float32.toModel 1).unpack = .finite .positive (2 ^ 23) (-23) (by decide) := by
    rfl
  rw [hone]
  cases h with
  | zero => rfl
  | finite sign mantissa hpos hlt =>
      have hroom : -149 ≤ -(room mantissa : Int) := by rw [room]; omega
      have hexact := roundWithAccuracy_exact sign (log2_shiftLeft_room hpos hlt)
        (Nat.shiftLeft_pos_iff.mpr hpos) hroom 23
      rw [Nat.shiftLeft_eq (_ <<< _) 23] at hexact
      cases sign <;> exact hexact

end Arithmetic

end Rounding

namespace Single

open Float.Model (Format UnpackedFloat)

def whole (n : Int) : Float32 :=
  .ofModel (Float32.Model.pack (UnpackedFloat.normalize Format.binary32 n 0 .positive))

theorem toFloat32_eq_whole (byte : UInt8) : byte.toFloat32 = whole byte.toNat :=
  rfl

section Whole

variable {m n : Int} (hm : m.natAbs < 0x1000000) (hn : n.natAbs < 0x1000000)

include hn in
theorem whole_unpack_whole : Rounding.Whole n (whole n).toModel.unpack := by
  have hwhole := Rounding.whole_normalize hn
  change Rounding.Whole n (Float32.Model.pack _).unpack
  rwa [hwhole.unpack_pack]

include hm hn in
theorem whole_add_whole (h : (m + n).natAbs < 0x1000000) : whole m + whole n = whole (m + n) := by
  have hsum := (whole_unpack_whole hm).add (whole_unpack_whole hn) h
  exact congrArg (fun unpacked => Float32.ofModel (Float32.Model.pack unpacked)) hsum

include hm hn in
theorem whole_sub_whole (h : (m - n).natAbs < 0x1000000) : whole m - whole n = whole (m - n) := by
  have hdifference := (whole_unpack_whole hm).sub (whole_unpack_whole hn) h
  exact congrArg (fun unpacked => Float32.ofModel (Float32.Model.pack unpacked)) hdifference

include hn in
theorem whole_mul_one : whole n * 1 = whole n := by
  have hread := whole_unpack_whole hn
  have hproduct := hread.mul_one.trans hread.eq_normalize.symm
  exact congrArg (fun unpacked => Float32.ofModel (Float32.Model.pack unpacked)) hproduct

end Whole

end Single

end LineGrammar
