/-
When arithmetic gives numbers.  Differences of numbers that are not too large are finite, and
above zero if the smaller number is taken away; a finite number divided by one that is not zero
is a number, by itself it is one, and a product with zero is zero.  Zeros are told by their
level, since their signs do not matter here.
-/
import LineGrammar.Proofs.Number.Rounding

namespace LineGrammar

namespace Single

open Float.Model (Format UnpackedFloat)
open Float.Model.UnpackedFloat (Sign)

theorem not_isNaN_of_isFinite {x : Float32} (h : x.isFinite) : ¬ x.isNaN := by
  have hnumber : x.toModel.unpack.isNaN = false := Rounding.not_isNaN_of_isFinite h
  exact Bool.eq_false_iff.mp hnumber

theorem not_isNaN_of_lt {x y : Float32} (h : x < y) : ¬ x.isNaN ∧ ¬ y.isNaN :=
  ⟨fun hx => (not_lt_of_isNaN hx y).1 h, fun hy => (not_lt_of_isNaN hy x).2 h⟩

theorem lt_of_le_of_lt {x y z : Float32} (hxy : x ≤ y) (hyz : y < z) : x < z := by
  obtain ⟨hy, hz⟩ := not_isNaN_of_lt hyz
  have hx : ¬ x.isNaN := fun hnan => (not_le_of_isNaN hnan y).1 hxy
  rw [lt_iff_level hx hz]
  exact Int.lt_of_le_of_lt ((le_iff_level hx hy).mp hxy) ((lt_iff_level hy hz).mp hyz)

/-- Low levels belong to zero and to numbers below two to the 126. -/
theorem cases_of_reads {level : Int} {unpacked : UnpackedFloat} (h : Reads level unpacked)
    (hlevel : level.natAbs < 0x7e000000) :
    (∃ sign, unpacked = .zero sign) ∨
      ∃ sign mantissa exponent hpos, unpacked = .finite sign mantissa exponent hpos ∧
        mantissa < 2 ^ 24 ∧ exponent ≤ 102 := by
  cases h with
  | zero sign => exact .inl ⟨sign, rfl⟩
  | infinity sign =>
      cases sign with
      | positive => exact absurd hlevel (by decide)
      | negative => exact absurd hlevel (by decide)
  | finite sign mantissa exponent hpos hmantissa hexponent hnormal =>
      refine .inr ⟨sign, mantissa, exponent - 149, hpos, rfl, hmantissa, ?_⟩
      cases sign with
      | positive =>
          simp only [Sign.apply] at hlevel
          omega
      | negative =>
          simp only [Sign.apply] at hlevel
          omega

theorem natAbs_apply (sign : Sign) (magnitude : Nat) :
    (sign.apply (magnitude : Int)).natAbs = magnitude := by
  cases sign with
  | positive => rfl
  | negative => exact Int.natAbs_neg _

theorem shiftLeft_lt {mantissa places most : Nat} (hmantissa : mantissa < 2 ^ 24)
    (hplaces : places ≤ most) : mantissa <<< places < 2 ^ (24 + most) := by
  rw [Nat.shiftLeft_eq]
  calc
    mantissa * 2 ^ places ≤ mantissa * 2 ^ most :=
      Nat.mul_le_mul_left _ (Nat.pow_le_pow_right (by decide) hplaces)
    _ < 2 ^ 24 * 2 ^ most := Nat.mul_lt_mul_of_pos_right hmantissa (Nat.two_pow_pos most)
    _ = 2 ^ (24 + most) := (Nat.pow_add 2 24 most).symm

/-- Differences of such numbers are not too large to be packed. -/
theorem fits_sub {m n : Int} {unpacked unpacked' : UnpackedFloat} (h : Reads m unpacked)
    (h' : Reads n unpacked') (hm : m.natAbs < 0x7e000000) (hn : n.natAbs < 0x7e000000) :
    Rounding.Fits (UnpackedFloat.sub Format.binary32 unpacked unpacked') := by
  rcases cases_of_reads h hm with
    ⟨sign, rfl⟩ | ⟨sign, mantissa, exponent, hpos, rfl, hmantissa, hexponent⟩
  · rcases cases_of_reads h' hn with
      ⟨sign', rfl⟩ | ⟨sign', mantissa', exponent', hpos', rfl, -, hexponent'⟩
    · rw [UnpackedFloat.sub]
      split
      · exact .zero sign
      · exact .zero .positive
    · exact .finite (-sign') mantissa' exponent' hpos' (by omega)
  · rcases cases_of_reads h' hn with
      ⟨sign', rfl⟩ | ⟨sign', mantissa', exponent', hpos', rfl, hmantissa', hexponent'⟩
    · exact .finite sign mantissa exponent hpos (by omega)
    · -- Both mantissas are brought to the smaller exponent, where one of them keeps its size.
      obtain ⟨gap, hgap⟩ : ∃ gap, gap = (max exponent exponent' - min exponent exponent').toNat :=
        ⟨_, rfl⟩
      have hleft : mantissa <<< (exponent - min exponent exponent').toNat < 2 ^ (24 + gap) :=
        shiftLeft_lt hmantissa (by omega)
      have hright : mantissa' <<< (exponent' - min exponent exponent').toNat < 2 ^ (24 + gap) :=
        shiftLeft_lt hmantissa' (by omega)
      have hdouble : 2 ^ (25 + gap) = 2 ^ (24 + gap) + 2 ^ (24 + gap) := by
        rw [← Nat.two_mul, ← Nat.pow_succ']
        congr 1
        omega
      apply Rounding.fits_normalize (25 + gap)
      · have hsum := Int.natAbs_sub_le
          (sign.apply (mantissa <<< (exponent - min exponent exponent').toNat : Nat))
          (sign'.apply (mantissa' <<< (exponent' - min exponent exponent').toNat : Nat))
        rw [natAbs_apply, natAbs_apply] at hsum
        exact Nat.lt_of_le_of_lt hsum (by omega)
      · omega

theorem isFinite_sub {x y : Float32} (hx : ¬ x.isNaN) (hy : ¬ y.isNaN)
    (hxLevel : (level x).natAbs < 0x7e000000) (hyLevel : (level y).natAbs < 0x7e000000) :
    (x - y).isFinite :=
  (fits_sub (reads_level hx) (reads_level hy) hxLevel hyLevel).isFinite_pack

/-- Only zeros are on the level of zero. -/
theorem Reads.eq_zero_iff {level : Int} {unpacked : UnpackedFloat} (h : Reads level unpacked) :
    level = 0 ↔ ∃ sign, unpacked = .zero sign := by
  cases h with
  | zero sign => exact ⟨fun _ => ⟨sign, rfl⟩, fun _ => rfl⟩
  | infinity sign =>
      constructor
      · intro hlevel
        cases sign <;> cases hlevel
      · rintro ⟨sign', habsurd⟩
        cases habsurd
  | finite sign mantissa exponent hpos =>
      constructor
      · intro hlevel
        cases sign with
        | positive =>
            simp only [Sign.apply] at hlevel
            omega
        | negative =>
            simp only [Sign.apply] at hlevel
            omega
      · rintro ⟨sign', habsurd⟩
        cases habsurd

theorem level_eq_zero_iff {x : Float32} (hx : ¬ x.isNaN) :
    level x = 0 ↔ ∃ sign, x.toModel.unpack = .zero sign :=
  (reads_level hx).eq_zero_iff

theorem level_eq_zero_of_toModel {x : Float32} {unpacked : UnpackedFloat}
    (hx : x.toModel = Float32.Model.pack unpacked) (h : ∃ sign, unpacked = .zero sign) :
    level x = 0 := by
  obtain ⟨sign, rfl⟩ := h
  have hzero : level (Float32.ofModel (Float32.Model.pack (.zero sign))) = 0 := by
    cases sign <;> decide +kernel
  rwa [← hx] at hzero

/-- What a number that is not on the level of zero is read as. -/
theorem unpack_of_level_ne_zero {x : Float32} (hx : ¬ x.isNaN) (h : level x ≠ 0) :
    (∃ sign, x.toModel.unpack = .infinity sign) ∨
      ∃ sign mantissa exponent hpos, x.toModel.unpack = .finite sign mantissa exponent hpos := by
  have hnumber : ¬ x.toModel.unpack.isNaN = true := hx
  rw [Ne, level_eq_zero_iff hx] at h
  generalize x.toModel.unpack = unpacked at hnumber h ⊢
  cases unpacked with
  | notANumber => exact absurd rfl hnumber
  | zero sign => exact absurd ⟨sign, rfl⟩ h
  | infinity sign => exact .inl ⟨sign, rfl⟩
  | finite sign mantissa exponent hpos => exact .inr ⟨sign, mantissa, exponent, hpos, rfl⟩

theorem isFinite_of_level {x : Float32} (hx : ¬ x.isNaN) (h : (level x).natAbs < 0x7e000000) :
    x.isFinite := by
  change x.toModel.unpack.isFinite = true
  rcases cases_of_reads (reads_level hx) h with
    ⟨sign, hzero⟩ | ⟨sign, mantissa, exponent, hpos, hfinite, -⟩
  · rw [hzero]
    rfl
  · rw [hfinite]
    rfl

theorem clampUnit_mem {x : Float32} (hx : ¬ x.isNaN) :
    0 ≤ level (clampUnit x) ∧ level (clampUnit x) ≤ 0x3f800000 := by
  rw [level_clampUnit hx]
  omega

/-- A positive number is clamped at one end only. -/
theorem clampUnit_eq_lesser {f : Float32} (h : 0 < f) : clampUnit f = lesser f 1 := by
  obtain ⟨hzero, hnumber⟩ := not_isNaN_of_lt h
  have hnonneg : ¬ f < 0 := by
    rw [lt_iff_level hnumber hzero]
    rw [lt_iff_level hzero hnumber] at h
    omega
  rw [clampUnit, if_neg hnonneg, lesser, if_neg hnumber]

theorem isFinite_clampUnit {x : Float32} (hx : ¬ x.isNaN) : (clampUnit x).isFinite := by
  have hmem := clampUnit_mem hx
  refine isFinite_of_level ?_ (by omega)
  rwa [isNaN_clampUnit]

/-- A finite number less itself is zero. -/
theorem level_sub_self {x : Float32} (hx : x.isFinite) : level (x - x) = 0 := by
  have hzero : ∃ sign, UnpackedFloat.sub Format.binary32 x.toModel.unpack x.toModel.unpack =
      .zero sign := by
    rcases Rounding.zero_or_finite hx with
      ⟨sign, hzero⟩ | ⟨sign, mantissa, exponent, hpos, hfinite⟩
    · rw [hzero, UnpackedFloat.sub]
      split
      · exact ⟨sign, rfl⟩
      · exact ⟨.positive, rfl⟩
    · refine ⟨.positive, ?_⟩
      rw [hfinite]
      simp only [UnpackedFloat.sub, Int.sub_self]
      rfl
  exact level_eq_zero_of_toModel rfl hzero

/-- A positive result that is neither too small nor too large stays above zero. -/
theorem level_pack_pos {mantissa : Nat} {exponent : Int} (hpos : 0 < mantissa)
    (hmantissa : mantissa < 0x1000000) (hleast : -149 ≤ exponent) (hmost : exponent ≤ 104) :
    0 < level (.ofModel (Float32.Model.pack (.finite .positive mantissa exponent hpos))) := by
  obtain ⟨x, hx⟩ : ∃ x : Float32,
      x = .ofModel (Float32.Model.pack (.finite .positive mantissa exponent hpos)) := ⟨_, rfl⟩
  have hfits : Rounding.Fits (.finite .positive mantissa exponent hpos) := .finite _ _ _ _ hmost
  have hnumber : ¬ x.isNaN := by
    rw [hx]
    exact not_isNaN_of_isFinite hfits.isFinite_pack
  have hnonzero : level x ≠ 0 := by
    rw [Ne, level_eq_zero_iff hnumber, hx]
    rintro ⟨sign, hzero⟩
    exact Rounding.unpack_pack_ne_zero .positive sign hpos hmantissa hleast hzero
  have hnonneg : 0 ≤ level x := by
    rcases Rounding.pack_finite_cases .positive mantissa exponent hpos with
      ⟨hlarge, -⟩ | ⟨exponentBits, mantissaBits, hpack, -⟩
    · omega
    · have hsign : @UnpackedFloat.unpackSign Format.binary32 x.toBits.toBitVec = 0#1 := by
        rw [hx]
        change UnpackedFloat.unpackSign (UnpackedFloat.pack Format.binary32 _) = _
        rw [hpack, UnpackedFloat.unpackSign_packComponents]
        rfl
      rw [level_eq_apply, hsign]
      exact Int.add_nonneg (Int.mul_nonneg (Int.natCast_nonneg _) (by decide))
        (Int.natCast_nonneg _)
  rw [← hx]
  omega

/-- Rounding keeps a positive number that is neither too small nor too large. -/
theorem exists_normalize {value : Nat} {exponent : Int} (hpos : 0 < value)
    (hleast : -149 ≤ exponent) (hmost : value.log2 + exponent ≤ 126) :
    ∃ mantissa' exponent' hpos', UnpackedFloat.normalize Format.binary32 value exponent .positive =
        .finite .positive mantissa' exponent' hpos' ∧
      mantissa' < 0x1000000 ∧ -149 ≤ exponent' ∧ exponent' ≤ 104 := by
  rw [UnpackedFloat.normalize, Int.compare_eq_gt.mpr (Int.natCast_pos.mpr hpos)]
  rcases Rounding.round_cases .positive hpos exponent with
    ⟨-, hsmall⟩ | ⟨mantissa', exponent', hpos', hround, hmantissa', hleast', hmost'⟩
  · omega
  · exact ⟨mantissa', exponent', hpos', hround, hmantissa', hleast', by omega⟩

/-- On a common scale a number on a lower level has a smaller mantissa. -/
theorem shiftLeft_lt_shiftLeft {mantissa mantissa' exponent exponent' : Nat}
    (h : exponent * 0x800000 + mantissa < exponent' * 0x800000 + mantissa')
    (hmantissa : mantissa < 0x1000000) (hmantissa' : mantissa' < 0x1000000)
    (hnormal : 0 < exponent → 0x800000 ≤ mantissa)
    (hnormal' : 0 < exponent' → 0x800000 ≤ mantissa') :
    mantissa <<< (exponent - exponent') < mantissa' <<< (exponent' - exponent) := by
  rcases Nat.lt_trichotomy exponent exponent' with hlt | rfl | hgt
  · have hfirst : exponent - exponent' = 0 := by omega
    have hscale : 2 ≤ 2 ^ (exponent' - exponent) :=
      Nat.le_self_pow (by omega) 2
    have hlarge := hnormal' (by omega)
    rw [hfirst, Nat.shiftLeft_zero, Nat.shiftLeft_eq]
    calc
      mantissa < 0x800000 * 2 := hmantissa
      _ ≤ mantissa' * 2 ^ (exponent' - exponent) := Nat.mul_le_mul hlarge hscale
  · rw [Nat.sub_self, Nat.shiftLeft_zero, Nat.shiftLeft_zero]
    omega
  · have hlarge := hnormal (by omega)
    omega

/-- However close two positive numbers are, something is left of the larger one. -/
theorem sub_finite {mantissa mantissa' exponent exponent' : Nat} (hpos : 0 < mantissa)
    (hpos' : 0 < mantissa') (h : exponent * 0x800000 + mantissa < exponent' * 0x800000 + mantissa')
    (hmantissa : mantissa < 0x1000000) (hmantissa' : mantissa' < 0x1000000)
    (hnormal : 0 < exponent → 0x800000 ≤ mantissa)
    (hnormal' : 0 < exponent' → 0x800000 ≤ mantissa') (hmost : exponent' < 252) :
    ∃ mantissa'' exponent'' hpos'', UnpackedFloat.sub Format.binary32
        (.finite .positive mantissa' (exponent' - 149) hpos')
        (.finite .positive mantissa (exponent - 149) hpos) =
          .finite .positive mantissa'' exponent'' hpos'' ∧
      mantissa'' < 0x1000000 ∧ -149 ≤ exponent'' ∧ exponent'' ≤ 104 := by
  have hscaled := shiftLeft_lt_shiftLeft h hmantissa hmantissa' hnormal hnormal'
  have hbound := shiftLeft_lt hmantissa' (Nat.le_refl (exponent' - exponent))
  have hlog := (Nat.log2_lt (k := 24 + (exponent' - exponent))
    (Nat.sub_ne_zero_of_lt hscaled)).mpr (Nat.lt_of_le_of_lt (Nat.sub_le _ _) hbound)
  have hnear : ((exponent' : Int) - 149 - min ((exponent' : Int) - 149)
      (exponent - 149)).toNat = exponent' - exponent := by omega
  have hfar : ((exponent : Int) - 149 - min ((exponent' : Int) - 149)
      (exponent - 149)).toNat = exponent - exponent' := by omega
  rw [UnpackedFloat.sub]
  simp only [UnpackedFloat.decreaseExponent, hnear, hfar, Sign.apply]
  rw [← Int.ofNat_sub hscaled.le]
  exact exists_normalize (Nat.sub_pos_of_lt hscaled) (by omega) (by omega)

/-- The difference of a number and a smaller one that is not negative is above zero. -/
theorem sub_of_reads {m n : Int} {unpacked unpacked' : UnpackedFloat} (h : Reads m unpacked)
    (h' : Reads n unpacked') (hm : 0 ≤ m) (hlt : m < n) (hn : n < 0x7e000000) :
    ∃ mantissa exponent hpos, UnpackedFloat.sub Format.binary32 unpacked' unpacked =
        .finite .positive mantissa exponent hpos ∧
      mantissa < 0x1000000 ∧ -149 ≤ exponent ∧ exponent ≤ 104 := by
  cases h' with
  | zero sign' => omega
  | infinity sign' => cases sign' <;> simp only [Sign.apply] at hlt hn <;> omega
  | finite sign' mantissa' exponent' hpos' hmantissa' hexponent' hnormal' =>
      cases sign' with
      | negative =>
          simp only [Sign.apply] at hlt
          omega
      | positive =>
          simp only [Sign.apply] at hlt hn
          cases h with
          | zero sign =>
              exact ⟨mantissa', exponent' - 149, hpos', rfl, hmantissa', by omega, by omega⟩
          | infinity sign => cases sign <;> simp only [Sign.apply] at hm hlt <;> omega
          | finite sign mantissa exponent hpos hmantissa hexponent hnormal =>
              cases sign with
              | negative =>
                  simp only [Sign.apply] at hm
                  omega
              | positive =>
                  simp only [Sign.apply] at hlt
                  exact sub_finite hpos hpos' (by omega) hmantissa hmantissa' hnormal hnormal'
                    (by omega)

/-- The difference of a number and a smaller one is above zero, however small it is. -/
theorem sub_pos {x y : Float32} (hx : 0 ≤ level x) (hlt : level x < level y)
    (hy : level y < 0x7e000000) : 0 < y - x := by
  have hxNumber : ¬ x.isNaN := by rw [isNaN_iff_level]; omega
  have hyNumber : ¬ y.isNaN := by rw [isNaN_iff_level]; omega
  obtain ⟨mantissa, exponent, hpos, hsub, hmantissa, hleast, hmost⟩ :=
    sub_of_reads (reads_level hxNumber) (reads_level hyNumber) hx hlt hy
  have hlevel : 0 < level (y - x) := by
    change 0 < level (.ofModel (Float32.Model.pack (UnpackedFloat.sub Format.binary32 _ _)))
    rw [hsub]
    exact level_pack_pos hpos hmantissa hleast hmost
  have hnumber := not_isNaN_of_isFinite (isFinite_sub hyNumber hxNumber (by omega) (by omega))
  rwa [lt_iff_level not_isNaN_zero hnumber, level_zero]

theorem divCore_self {mantissa : Nat} (hpos : 0 < mantissa) (exponent : Int) :
    UnpackedFloat.divCore Format.binary32 mantissa exponent mantissa exponent =
      (2 ^ 24, -24, .exact) := by
  have htarget : min (exponent - exponent) (Format.binary32.targetExponent
      (Float.Model.totalExponent mantissa exponent -
        Float.Model.totalExponent mantissa exponent)) = -24 := by
    rw [Int.sub_self, Int.sub_self]
    decide
  have hplaces : (exponent - exponent - -24).toNat = 24 := by omega
  rw [UnpackedFloat.divCore]
  simp only [htarget, hplaces, Nat.shiftLeft_eq, Nat.mul_div_cancel_left _ hpos,
    Nat.mul_mod_right, UnpackedFloat.accuracyOfFraction, ↓reduceIte]

/-- A finite number that is not zero goes into itself exactly once. -/
theorem div_self {x : Float32} (hx : x.isFinite) (hlevel : level x ≠ 0) : x / x = 1 := by
  have hnumber := not_isNaN_of_isFinite hx
  have hone : UnpackedFloat.roundWithAccuracy Format.binary32 .positive (2 ^ 24) (-24) .exact =
      .finite .positive (2 ^ 23) (-23) (by decide) := by
    rfl
  have hquotient : UnpackedFloat.div Format.binary32 x.toModel.unpack x.toModel.unpack =
      .finite .positive (2 ^ 23) (-23) (by decide) := by
    rcases Rounding.zero_or_finite hx with hzero | ⟨sign, mantissa, exponent, hpos, hfinite⟩
    · exact absurd ((level_eq_zero_iff hnumber).mpr hzero) hlevel
    · rw [hfinite, UnpackedFloat.div, divCore_self hpos]
      have hsign : sign / sign = .positive := by cases sign <;> rfl
      rw [hsign]
      exact hone
  have hpacked := congrArg (fun unpacked => Float32.ofModel (Float32.Model.pack unpacked)) hquotient
  exact hpacked.trans (by decide +kernel)

/-- The quotient of a finite number and one that is not zero is a number. -/
theorem not_isNaN_div {x y : Float32} (hx : x.isFinite) (hy : ¬ y.isNaN) (hlevel : level y ≠ 0) :
    ¬ (x / y).isNaN := by
  have hnumber : (UnpackedFloat.div Format.binary32 x.toModel.unpack y.toModel.unpack).isNaN =
      false := by
    rcases Rounding.zero_or_finite hx with ⟨sign, hleft⟩ | ⟨sign, mantissa, exponent, hpos, hleft⟩
    · rcases unpack_of_level_ne_zero hy hlevel with ⟨sign', hright⟩ | ⟨sign', _, _, _, hright⟩
      · rw [hleft, hright]
        rfl
      · rw [hleft, hright]
        rfl
    · rcases unpack_of_level_ne_zero hy hlevel with ⟨sign', hright⟩ | ⟨sign', _, _, _, hright⟩
      · rw [hleft, hright]
        rfl
      · rw [hleft, hright]
        exact Rounding.isNaN_roundWithAccuracy _ _ _ _
  have hpacked := (Rounding.isNaN_pack _).trans hnumber
  exact Bool.eq_false_iff.mp hpacked

/-- Zero divided by a number that is not zero is zero. -/
theorem level_zero_div {x y : Float32} (hx : ¬ x.isNaN) (hzero : level x = 0) (hy : ¬ y.isNaN)
    (hlevel : level y ≠ 0) : level (x / y) = 0 := by
  obtain ⟨sign, hleft⟩ := (level_eq_zero_iff hx).mp hzero
  have hquotient : ∃ sign, UnpackedFloat.div Format.binary32 x.toModel.unpack y.toModel.unpack =
      .zero sign := by
    rcases unpack_of_level_ne_zero hy hlevel with ⟨sign', hright⟩ | ⟨sign', _, _, _, hright⟩
    · exact ⟨_, by rw [hleft, hright, UnpackedFloat.div]⟩
    · exact ⟨_, by rw [hleft, hright, UnpackedFloat.div]⟩
  exact level_eq_zero_of_toModel rfl hquotient

/-- A product of finite numbers one of which is zero is zero. -/
theorem level_mul_eq_zero {x y : Float32} (hx : x.isFinite) (hy : y.isFinite)
    (h : level x = 0 ∨ level y = 0) : level (x * y) = 0 := by
  have hproduct : ∃ sign, UnpackedFloat.mul Format.binary32 x.toModel.unpack y.toModel.unpack =
      .zero sign := by
    rw [level_eq_zero_iff (not_isNaN_of_isFinite hx), level_eq_zero_iff (not_isNaN_of_isFinite hy)]
      at h
    rcases h with ⟨sign, hzero⟩ | ⟨sign, hzero⟩
    · rcases Rounding.zero_or_finite hy with ⟨sign', hother⟩ | ⟨sign', _, _, _, hother⟩
      · exact ⟨_, by rw [hzero, hother, UnpackedFloat.mul]⟩
      · exact ⟨_, by rw [hzero, hother, UnpackedFloat.mul]⟩
    · rcases Rounding.zero_or_finite hx with ⟨sign', hother⟩ | ⟨sign', _, _, _, hother⟩
      · exact ⟨_, by rw [hzero, hother, UnpackedFloat.mul]⟩
      · exact ⟨_, by rw [hzero, hother, UnpackedFloat.mul]⟩
  exact level_eq_zero_of_toModel rfl hproduct

/-- The nearest single to a count is finite. -/
theorem isFinite_ofCount (count : Nat) : (ofCount count).isFinite := by
  have hlt : (UInt64.ofNat count).toNat < 2 ^ 64 := (UInt64.ofNat count).toNat_lt
  have hfits : Rounding.Fits
      (UnpackedFloat.normalize Format.binary32 ((UInt64.ofNat count).toNat : Int) 0 .positive) :=
    Rounding.fits_normalize 64 .positive hlt (by decide)
  exact hfits.isFinite_pack

theorem level_ofCount_ne_zero {count : Nat} (hpos : 0 < count) (hlt : count < 2 ^ 64) :
    level (ofCount count) ≠ 0 := by
  have hcount : (ofCount count).toModel =
      Float32.Model.pack (UnpackedFloat.round Format.binary32 .positive count 0) := by
    have hunpacked : UnpackedFloat.normalize Format.binary32
        ((UInt64.ofNat count).toNat : Int) 0 .positive =
          UnpackedFloat.round Format.binary32 .positive count 0 := by
      rw [UInt64.toNat_ofNat_of_lt' hlt, UnpackedFloat.normalize,
        Int.compare_eq_gt.mpr (by omega)]
      rfl
    exact congrArg Float32.Model.pack hunpacked
  rw [Ne, level_eq_zero_iff (not_isNaN_of_isFinite (isFinite_ofCount count)), hcount]
  rintro ⟨sign, hzero⟩
  rcases Rounding.round_cases .positive hpos 0 with
    ⟨-, habsurd⟩ | ⟨mantissa, exponent, hpos', hfinite, hmantissa, hexponent, -⟩
  · exact absurd habsurd (by decide)
  · rw [hfinite] at hzero
    exact Rounding.unpack_pack_ne_zero .positive sign hpos' hmantissa hexponent hzero

section Shares

variable {count : Nat} (hpos : 0 < count) (hlt : count < 2 ^ 64)
include hpos hlt

/-- A part of a count that is not zero is a number. -/
theorem not_isNaN_div_ofCount (part : Nat) : ¬ (ofCount part / ofCount count).isNaN :=
  not_isNaN_div (isFinite_ofCount part) (not_isNaN_of_isFinite (isFinite_ofCount count))
    (level_ofCount_ne_zero hpos hlt)

theorem level_zero_div_ofCount : level (ofCount 0 / ofCount count) = 0 :=
  level_zero_div (not_isNaN_of_isFinite (isFinite_ofCount 0)) (by decide +kernel)
    (not_isNaN_of_isFinite (isFinite_ofCount count)) (level_ofCount_ne_zero hpos hlt)

end Shares

end Single

end LineGrammar
