/-
The order of single-precision numbers.  Every number has a level, which its bit pattern
gives, and numbers compare as their levels do.  Both zeros are on one level.
-/
import LineGrammar.Number.Single
import LineGrammar.Proofs.Number.Pattern

namespace LineGrammar

namespace Single

open Float.Model (Format UnpackedFloat)
open Float.Model.UnpackedFloat (Sign unpackExponent unpackMantissa unpackSign)

/-- The place of a number among the others: its pattern without the sign bit, negated where
that bit is set. -/
def level (x : Float32) : Int :=
  let bits := x.toBits.toNat
  if bits < 0x80000000 then (bits : Int) else 0x80000000 - (bits : Int)

/-- What a number on a level unpacks to.  Exponents count from the least one, and below any
other mantissas have their first bit set. -/
inductive Reads : Int → UnpackedFloat → Prop
  | zero (sign : Sign) : Reads 0 (.zero sign)
  | infinity (sign : Sign) : Reads (sign.apply 0x7f800000) (.infinity sign)
  | finite (sign : Sign) (mantissa exponent : Nat) (hpos : 0 < mantissa)
      (hmantissa : mantissa < 0x1000000) (hexponent : exponent < 254)
      (hnormal : 0 < exponent → 0x800000 ≤ mantissa) :
      Reads (sign.apply (exponent * 0x800000 + mantissa))
        (.finite sign mantissa (exponent - 149) hpos)

theorem apply_ofBitVec (sign : BitVec 1) (magnitude : Int) :
    (Sign.ofBitVec sign).apply magnitude = if sign.toNat = 0 then magnitude else -magnitude := by
  unfold Sign.ofBitVec
  by_cases h : sign = 0#1
  · simp [h, Sign.apply]
  · have hne : sign.toNat ≠ 0 := fun hnat => h (BitVec.eq_of_toNat_eq hnat)
    rw [if_neg h, if_neg hne]
    rfl

theorem level_eq_apply (x : Float32) :
    level x = (Sign.ofBitVec (@unpackSign Format.binary32 x.toBits.toBitVec)).apply
      ((@unpackExponent Format.binary32 x.toBits.toBitVec).toNat * 0x800000 +
        (@unpackMantissa Format.binary32 x.toBits.toBitVec).toNat) := by
  have hlt := x.toBits.toNat_lt
  rw [apply_ofBitVec, Pattern.toNat_unpackSign, Pattern.toNat_unpackExponent,
    Pattern.toNat_unpackMantissa]
  simp only [level, UInt32.toNat_toBitVec]
  split <;> split <;> omega

/-- Every number is read off its level. -/
theorem reads_level {x : Float32} (h : ¬ x.isNaN) : Reads (level x) x.toModel.unpack := by
  have hnumber : ¬ (UnpackedFloat.unpack Format.binary32 x.toBits.toBitVec).isNaN := h
  have hdecodes := Pattern.decodes_unpack Format.binary32 x.toBits.toBitVec
  change Reads (level x) (UnpackedFloat.unpack Format.binary32 x.toBits.toBitVec)
  rw [level_eq_apply]
  -- The level and the reading depend on the parts of the pattern only.
  generalize Sign.ofBitVec (@unpackSign Format.binary32 x.toBits.toBitVec) = sign
    at hdecodes ⊢
  generalize @unpackExponent Format.binary32 x.toBits.toBitVec = exponent
    at hdecodes ⊢
  generalize @unpackMantissa Format.binary32 x.toBits.toBitVec = mantissa
    at hdecodes ⊢
  generalize UnpackedFloat.unpack Format.binary32 x.toBits.toBitVec = unpacked
    at hnumber hdecodes ⊢
  have hmantissaLt : mantissa.toNat < 0x800000 := mantissa.isLt
  cases hdecodes with
  | infinity hexponent hmantissa =>
      subst hexponent hmantissa
      exact .infinity sign
  | notANumber hexponent hmantissa => exact absurd rfl hnumber
  | zero hexponent hmantissa =>
      subst hexponent hmantissa
      have hlevel : sign.apply 0 = 0 := by cases sign <;> rfl
      simp only [BitVec.toNat_zero, Int.natCast_zero, Int.zero_mul, Int.zero_add, hlevel]
      exact .zero sign
  | subnormal hexponent hpos =>
      subst hexponent
      rw [BitVec.toNat_zero]
      exact .finite sign mantissa.toNat 0 hpos (by omega) (by omega)
        fun habsurd => absurd habsurd (by omega)
  | normal hexponent hfinite hpos =>
      have hfinite : exponent.toNat + 1 < 256 := hfinite
      have hlevel : (exponent.toNat : Int) * 0x800000 + mantissa.toNat =
          (exponent.toNat - 1 : Nat) * 0x800000 + (0x800000 + mantissa.toNat : Nat) := by
        omega
      have hscale : (exponent.toNat : Int) -
          (Format.binary32.exponentBias + Format.binary32.mantissaBitsWithoutImplicit) =
            (exponent.toNat - 1 : Nat) - 149 := by
        change (exponent.toNat : Int) - (127 + 23) = _
        omega
      rw [hlevel]
      simp only [hscale]
      exact .finite sign (0x800000 + mantissa.toNat) (exponent.toNat - 1)
        hpos (by omega) (by omega) (by omega)

/-- Finite numbers compare by exponent first, as their levels do: a number with a greater
exponent has its first bit set. -/
theorem compare_magnitude {exponent exponent' mantissa mantissa' : Nat}
    (hmantissa : mantissa < 0x1000000) (hmantissa' : mantissa' < 0x1000000)
    (hnormal : 0 < exponent → 0x800000 ≤ mantissa)
    (hnormal' : 0 < exponent' → 0x800000 ≤ mantissa') :
    (compare (exponent - 149 : Int) (exponent' - 149)).then (compare mantissa mantissa') =
      compare (exponent * 0x800000 + mantissa : Int) (exponent' * 0x800000 + mantissa') := by
  rcases Nat.lt_trichotomy exponent exponent' with hlt | heq | hgt
  · rw [Int.compare_eq_lt.mpr (by omega), Int.compare_eq_lt.mpr (by omega)]
    rfl
  · subst heq
    rw [Int.compare_eq_eq.mpr rfl, Ordering.then]
    rcases Nat.lt_trichotomy mantissa mantissa' with hlt | heq | hgt
    · rw [Nat.compare_eq_lt.mpr hlt, Int.compare_eq_lt.mpr (by omega)]
    · rw [Nat.compare_eq_eq.mpr heq, Int.compare_eq_eq.mpr (by omega)]
    · rw [Nat.compare_eq_gt.mpr hgt, Int.compare_eq_gt.mpr (by omega)]
  · rw [Int.compare_eq_gt.mpr (by omega), Int.compare_eq_gt.mpr (by omega)]
    rfl

theorem compare_neg (m n : Int) : compare (-m) (-n) = (compare m n).swap := by
  rcases Int.lt_trichotomy m n with hlt | heq | hgt
  · rw [Int.compare_eq_lt.mpr hlt, Int.compare_eq_gt.mpr (by omega), Ordering.swap]
  · rw [Int.compare_eq_eq.mpr heq, Int.compare_eq_eq.mpr (by omega), Ordering.swap]
  · rw [Int.compare_eq_gt.mpr hgt, Int.compare_eq_lt.mpr (by omega), Ordering.swap]

/-- Numbers compare as their levels do. -/
theorem compare_of_reads {m n : Int} {unpacked unpacked' : UnpackedFloat}
    (h : Reads m unpacked) (h' : Reads n unpacked') :
    unpacked.compare unpacked' = some (compare m n) := by
  cases h with
  | zero sign =>
      cases h' with
      | zero sign' => rfl
      | infinity sign' => cases sign' <;> rfl
      | finite sign' mantissa' exponent' hpos' hmantissa' hexponent' hnormal' =>
          cases sign' <;> simp only [UnpackedFloat.compare, Sign.apply]
          · rw [Int.compare_eq_gt.mpr (by omega)]
          · rw [Int.compare_eq_lt.mpr (by omega)]
  | infinity sign =>
      cases h' with
      | zero sign' => cases sign <;> rfl
      | infinity sign' => cases sign <;> cases sign' <;> rfl
      | finite sign' mantissa' exponent' hpos' hmantissa' hexponent' hnormal' =>
          cases sign <;> cases sign' <;> simp only [UnpackedFloat.compare, Sign.apply]
          · rw [Int.compare_eq_lt.mpr (by omega)]
          · rw [Int.compare_eq_lt.mpr (by omega)]
          · rw [Int.compare_eq_gt.mpr (by omega)]
          · rw [Int.compare_eq_gt.mpr (by omega)]
  | finite sign mantissa exponent hpos hmantissa hexponent hnormal =>
      cases h' with
      | zero sign' =>
          cases sign <;> simp only [UnpackedFloat.compare, Sign.apply]
          · rw [Int.compare_eq_lt.mpr (by omega)]
          · rw [Int.compare_eq_gt.mpr (by omega)]
      | infinity sign' =>
          cases sign <;> cases sign' <;> simp only [UnpackedFloat.compare, Sign.apply]
          · rw [Int.compare_eq_gt.mpr (by omega)]
          · rw [Int.compare_eq_lt.mpr (by omega)]
          · rw [Int.compare_eq_gt.mpr (by omega)]
          · rw [Int.compare_eq_lt.mpr (by omega)]
      | finite sign' mantissa' exponent' hpos' hmantissa' hexponent' hnormal' =>
          cases sign <;> cases sign' <;> simp only [UnpackedFloat.compare, Sign.apply]
          · rw [compare_neg, compare_magnitude hmantissa hmantissa' hnormal hnormal']
          · rw [Int.compare_eq_lt.mpr (by omega)]
          · rw [Int.compare_eq_gt.mpr (by omega)]
          · rw [compare_magnitude hmantissa hmantissa' hnormal hnormal']

theorem compare_eq_level {x y : Float32} (hx : ¬ x.isNaN) (hy : ¬ y.isNaN) :
    x.toModel.unpack.compare y.toModel.unpack = some (compare (level x) (level y)) :=
  compare_of_reads (reads_level hx) (reads_level hy)

theorem lt_iff_level {x y : Float32} (hx : ¬ x.isNaN) (hy : ¬ y.isNaN) :
    x < y ↔ level x < level y := by
  rw [lt_iff_compare, compare_eq_level hx hy, Option.some_inj, Int.compare_eq_lt]

theorem le_iff_compare (x y : Float32) :
    x ≤ y ↔ (x.toModel.unpack.compare y.toModel.unpack).any (·.isLE) = true :=
  decide_eq_true_iff

theorem not_le_of_isNaN {x : Float32} (h : x.isNaN) (y : Float32) : ¬ x ≤ y ∧ ¬ y ≤ x := by
  obtain ⟨hleft, hright⟩ := compare_of_isNaN h y
  simp [le_iff_compare, hleft, hright]

theorem le_iff_level {x y : Float32} (hx : ¬ x.isNaN) (hy : ¬ y.isNaN) :
    x ≤ y ↔ level x ≤ level y := by
  rw [le_iff_compare, compare_eq_level hx hy, Option.any_some, Int.isLE_compare]

theorem beq_iff_level {x y : Float32} (hx : ¬ x.isNaN) (hy : ¬ y.isNaN) :
    (x == y) = true ↔ level x = level y := by
  have hbeq : (x == y) = (x.toModel.unpack.compare y.toModel.unpack == some .eq) := rfl
  rw [hbeq, compare_eq_level hx hy, beq_iff_eq, Option.some_inj, Int.compare_eq_eq]

theorem beq_self {x : Float32} (h : ¬ x.isNaN) : (x == x) = true :=
  (beq_iff_level h h).mpr rfl

/-- Numbers are on the levels up to those of the infinities, and nothing else is. -/
theorem isNaN_iff_level (x : Float32) : x.isNaN ↔ 0x7f800000 < (level x).natAbs := by
  constructor
  · intro h
    have hdecodes := Pattern.decodes_unpack Format.binary32 x.toBits.toBitVec
    have hunpack : UnpackedFloat.unpack Format.binary32 x.toBits.toBitVec = .notANumber :=
      unpack_of_isNaN h
    rw [hunpack] at hdecodes
    cases hdecodes with
    | notANumber hexponent hmantissa =>
        have hpos : (@unpackMantissa Format.binary32 x.toBits.toBitVec).toNat ≠ 0 :=
          fun hzero => hmantissa (BitVec.eq_of_toNat_eq hzero)
        have htop : (@unpackExponent Format.binary32 x.toBits.toBitVec).toNat = 255 :=
          congrArg BitVec.toNat hexponent
        rw [level_eq_apply, htop]
        cases Sign.ofBitVec (@unpackSign Format.binary32 x.toBits.toBitVec) <;>
          simp only [Sign.apply] <;> omega
  · intro hlevel
    by_contra hnumber
    have hreads := reads_level hnumber
    generalize level x = place at hlevel hreads
    generalize x.toModel.unpack = unpacked at hreads
    cases hreads with
    | zero sign => cases hlevel
    | infinity sign => cases sign <;> exact absurd hlevel (by decide)
    | finite sign mantissa exponent hpos hmantissa hexponent hnormal =>
        cases sign <;> simp only [Sign.apply] at hlevel <;> omega

/-- The pattern of a number is kept. -/
theorem toBits_ofBits {bits : UInt32} (h : bits.toNat % 0x80000000 ≤ 0x7f800000) :
    (Float32.ofBits bits).toBits = bits := by
  have hvalid : Format.binary32.Valid bits.toBitVec :=
    (Pattern.valid_iff Format.binary32 bits.toBitVec).mpr (.inl h)
  exact congrArg Float32.toBits (Float32.ofBits_toBits ⟨⟨bits, hvalid⟩⟩)

/-- The patterns beyond those of the infinities stand for what is not a number. -/
theorem isNaN_ofBits_iff (bits : UInt32) :
    (Float32.ofBits bits).isNaN ↔ 0x7f800000 < bits.toNat % 0x80000000 := by
  constructor
  · intro hnan
    by_contra hsmall
    have hsmall := Nat.le_of_not_lt hsmall
    have hlt := bits.toNat_lt
    rw [isNaN_iff_level, level, toBits_ofBits hsmall] at hnan
    split at hnan <;> omega
  · intro hlarge
    have hunpack : UnpackedFloat.unpack Format.binary32 bits.toBitVec = .notANumber := by
      have hdecodes := Pattern.decodes_unpack Format.binary32 bits.toBitVec
      have hparts : bits.toNat % 0x80000000 =
          (@unpackMantissa Format.binary32 bits.toBitVec).toNat +
            0x800000 * (@unpackExponent Format.binary32 bits.toBitVec).toNat :=
        Pattern.toNat_mod_eq Format.binary32 bits.toBitVec
      have hmantissaLt : (@unpackMantissa Format.binary32 bits.toBitVec).toNat < 0x800000 :=
        (@unpackMantissa Format.binary32 bits.toBitVec).isLt
      rw [hparts] at hlarge
      generalize Sign.ofBitVec (@unpackSign Format.binary32 bits.toBitVec) = sign at hdecodes
      generalize @unpackExponent Format.binary32 bits.toBitVec = exponent at hdecodes hlarge
      generalize @unpackMantissa Format.binary32 bits.toBitVec = mantissa
        at hdecodes hlarge hmantissaLt
      generalize UnpackedFloat.unpack Format.binary32 bits.toBitVec = unpacked at hdecodes ⊢
      cases hdecodes with
      | notANumber hexponent hmantissa => rfl
      | infinity hexponent hmantissa =>
          subst hexponent hmantissa
          exact absurd hlarge (by decide)
      | zero hexponent hmantissa =>
          subst hexponent hmantissa
          exact absurd hlarge (by decide)
      | subnormal hexponent hpos =>
          subst hexponent
          rw [BitVec.toNat_zero] at hlarge
          omega
      | normal hexponent hfinite hpos =>
          have hfinite : exponent.toNat + 1 < 256 := hfinite
          omega
    change (Float32.Model.pack (UnpackedFloat.unpack Format.binary32 bits.toBitVec)).isNaN
    rw [hunpack]
    decide +kernel

/-- Only the two zeros are on the level of zero. -/
theorem eq_zero_of_level {x : Float32} (h : level x = 0) : x = 0 ∨ x = -0.0 := by
  have hbits : x.toBits.toNat = 0 ∨ x.toBits.toNat = 0x80000000 := by
    simp only [level] at h
    split at h <;> omega
  rcases hbits with hbits | hbits
  · exact .inl (Float32.toBits_inj.mp (UInt32.toNat_inj.mp hbits))
  · exact .inr (Float32.toBits_inj.mp (UInt32.toNat_inj.mp hbits))

/-- Off zero there is one number on each level. -/
theorem eq_of_level {x y : Float32} (h : level x = level y) (hne : level y ≠ 0) : x = y := by
  have hbits : x.toBits.toNat = y.toBits.toNat := by
    simp only [level] at h hne
    split at h <;> split at h <;> omega
  exact Float32.toBits_inj.mp (UInt32.toNat_inj.mp hbits)

section UnitInterval

theorem not_isNaN_zero : ¬ (0 : Float32).isNaN := by decide +kernel

theorem not_isNaN_one : ¬ (1 : Float32).isNaN := by decide +kernel

@[simp] theorem level_zero : level 0 = 0 := by decide +kernel

@[simp] theorem level_one : level 1 = 0x3f800000 := by decide +kernel

theorem isNaN_clampUnit (x : Float32) : (clampUnit x).isNaN = x.isNaN := by
  by_cases h : x.isNaN
  · rw [clampUnit_of_isNaN h]
  · rw [Bool.not_eq_true] at h
    rw [h, clampUnit]
    split
    · exact Bool.eq_false_iff.mpr not_isNaN_zero
    · split
      · exact Bool.eq_false_iff.mpr not_isNaN_one
      · exact h

theorem level_clampUnit {x : Float32} (h : ¬ x.isNaN) :
    level (clampUnit x) = max 0 (min 0x3f800000 (level x)) := by
  have hzero : x < 0 ↔ level x < 0 := by
    rw [lt_iff_level h not_isNaN_zero, level_zero]
  have hone : 1 < x ↔ 0x3f800000 < level x := by
    rw [lt_iff_level not_isNaN_one h, level_one]
  unfold clampUnit
  split
  · next hlt =>
      have := hzero.mp hlt
      rw [level_zero]
      omega
  · next hlt =>
      have := mt hzero.mpr hlt
      split
      · next hgt =>
          have := hone.mp hgt
          rw [level_one]
          omega
      · next hgt =>
          have := mt hone.mpr hgt
          omega

/-- A number of the unit interval stays as it is. -/
theorem clampUnit_of_level {x : Float32} (h : ¬ x.isNaN) (hzero : 0 ≤ level x)
    (hone : level x ≤ 0x3f800000) : clampUnit x = x := by
  have hlow : ¬ x < 0 := by
    rw [lt_iff_level h not_isNaN_zero, level_zero]
    omega
  have hhigh : ¬ 1 < x := by
    rw [lt_iff_level not_isNaN_one h, level_one]
    omega
  rw [clampUnit, if_neg hlow, if_neg hhigh]

theorem mem_unit_iff_level {x : Float32} (h : ¬ x.isNaN) :
    (0 ≤ x ∧ x ≤ 1) ↔ 0 ≤ level x ∧ level x ≤ 0x3f800000 := by
  rw [le_iff_level not_isNaN_zero h, le_iff_level h not_isNaN_one, level_zero, level_one]

end UnitInterval

end Single

end LineGrammar
