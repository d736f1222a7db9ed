/-
Widening loses nothing: a single is the nearest one to the double that it is widened to.
-/
import LineGrammar.Proofs.Number.Order

namespace LineGrammar

namespace Precision

open Float.Model (Format UnpackedFloat)

/-- Below the normal singles the first bit that is set becomes the implicit one. -/
theorem widenPattern_of_subnormal {fraction : Nat} (hpos : fraction ≠ 0)
    (h : fraction < 0x800000) :
    ∃ rest, rest < 0x10000000000000 ∧
      0x10000000000000 + rest = fraction * 1 <<< (52 - fraction.log2) ∧
      widenPattern fraction = (fraction.log2 + 874) * 0x10000000000000 + rest := by
  have hdiv : fraction / 0x800000 = 0 := Nat.div_eq_of_lt h
  have hmod : fraction % 0x800000 = fraction := Nat.mod_eq_of_lt h
  have hlow : 2 ^ fraction.log2 ≤ fraction := Nat.log2_self_le hpos
  have hhigh : fraction < 2 ^ (fraction.log2 + 1) := Nat.lt_log2_self
  have htop : fraction.log2 < 23 := (Nat.log2_lt hpos).mpr h
  have hscale : 2 ^ fraction.log2 * 2 ^ (52 - fraction.log2) = 0x10000000000000 := by
    rw [← Nat.pow_add, Nat.add_sub_cancel' (by omega)]
  refine ⟨(fraction - 2 ^ fraction.log2) * 2 ^ (52 - fraction.log2), ?_, ?_, ?_⟩
  · rw [← hscale]
    exact Nat.mul_lt_mul_of_pos_right (by omega) (Nat.two_pow_pos _)
  · rw [← hscale, ← Nat.add_mul, Nat.add_sub_cancel' hlow, Nat.one_shiftLeft]
  · simp only [widenPattern, hdiv, hmod, Nat.one_shiftLeft]
    rw [if_neg (by decide), if_neg (by decide), if_neg hpos]

theorem narrowPattern_widenPattern_of_subnormal {fraction : Nat} (hpos : fraction ≠ 0)
    (h : fraction < 0x800000) : narrowPattern (widenPattern fraction) = fraction := by
  obtain ⟨rest, hrest, hsum, hwide⟩ := widenPattern_of_subnormal hpos h
  have htop : fraction.log2 < 23 := (Nat.log2_lt hpos).mpr h
  have hdiv : widenPattern fraction / 0x10000000000000 = fraction.log2 + 874 := by omega
  have hmod : widenPattern fraction % 0x10000000000000 = rest := by omega
  have hplaces : 926 - (fraction.log2 + 874) = 52 - fraction.log2 := by omega
  simp only [narrowPattern, hdiv, hmod, hsum, hplaces, halfEven_of_dvd]
  rw [if_neg (by omega), if_neg (by omega), if_neg (by omega)]

/-- Narrowing the widened pattern of a single gives it back, also that of infinity and that
of what is not a number. -/
theorem narrowPattern_widenPattern {pattern : Nat}
    (h : pattern ≤ 0x7f800000 ∨ pattern = 0x7fc00000) :
    narrowPattern (widenPattern pattern) = pattern := by
  rcases h with h | rfl
  · rcases Nat.lt_or_eq_of_le h with hlt | rfl
    · by_cases hexponent : pattern / 0x800000 = 0
      · by_cases hpos : pattern = 0
        · subst hpos
          decide
        · exact narrowPattern_widenPattern_of_subnormal hpos (by omega)
      · have hparts := Nat.div_add_mod' pattern 0x800000
        rw [← hparts]
        exact narrowPattern_widenPattern_of_normal _ _ (by omega) (by omega)
          (Nat.mod_lt _ (by decide))
    · decide
  · decide

/-- What a single is widened to does not lie beyond infinity either. -/
theorem widenPattern_le {pattern : Nat} (h : pattern ≤ 0x7f800000) :
    widenPattern pattern ≤ 0x7ff0000000000000 := by
  by_cases hexponent : pattern / 0x800000 = 0
  · by_cases hpos : pattern = 0
    · subst hpos
      decide
    · obtain ⟨rest, hrest, -, hwide⟩ := widenPattern_of_subnormal hpos (by omega)
      have htop : pattern.log2 < 23 := (Nat.log2_lt hpos).mpr (by omega)
      omega
  · simp only [widenPattern]
    split
    · omega
    · omega

/-- A single has the pattern of a number or the one for what is not a number. -/
theorem toNat_toBits_cases (x : Float32) :
    x.toBits.toNat % 0x80000000 ≤ 0x7f800000 ∨ x.toBits.toNat = 0x7fc00000 := by
  have hvalid := (Pattern.valid_iff Format.binary32 x.toBits.toBitVec).mp x.toModel.valid
  rcases hvalid with hle | hnan
  · exact .inl hle
  · exact .inr (congrArg BitVec.toNat hnan)

theorem toBits_ofBits (bits : UInt64) (h : Format.binary64.Valid bits.toBitVec) :
    (Float.ofBits bits).toBits = bits := by
  exact congrArg UInt64.ofBitVec (UnpackedFloat.pack_unpack_of_valid h)

/-- A sign bit moved into a wider word, next to a pattern. -/
theorem toNat_signed_wide (bits : UInt32) {pattern : Nat} (h : pattern < 0x8000000000000000) :
    (((bits >>> 31).toUInt64 <<< 63) ||| UInt64.ofNat pattern).toNat =
      bits.toNat / 0x80000000 * 0x8000000000000000 + pattern := by
  have hlt := bits.toNat_lt
  have hsign : (((bits >>> 31).toUInt64 <<< 63) : UInt64).toNat =
      (bits.toNat / 0x80000000) <<< 63 := by
    rw [UInt64.toNat_shiftLeft, UInt32.toNat_toUInt64, UInt32.toNat_shiftRight]
    change (bits.toNat >>> 31) <<< 63 % 2 ^ 64 = _
    rw [Nat.shiftRight_eq_div_pow, Nat.shiftLeft_eq]
    omega
  have hpattern : (UInt64.ofNat pattern).toNat = pattern := by
    rw [UInt64.toNat_ofNat']
    omega
  rw [UInt64.toNat_or, hsign, hpattern, ← Nat.shiftLeft_add_eq_or_of_lt h, Nat.shiftLeft_eq]

/-- A sign bit moved into a narrower word, next to a pattern. -/
theorem toNat_signed_narrow (bits : UInt64) {pattern : Nat} (h : pattern < 0x80000000) :
    (((bits >>> 63).toUInt32 <<< 31) ||| UInt32.ofNat pattern).toNat =
      bits.toNat / 0x8000000000000000 * 0x80000000 + pattern := by
  have hlt := bits.toNat_lt
  have hsign : (((bits >>> 63).toUInt32 <<< 31) : UInt32).toNat =
      (bits.toNat / 0x8000000000000000) <<< 31 := by
    rw [UInt32.toNat_shiftLeft, UInt64.toNat_toUInt32, UInt64.toNat_shiftRight]
    change (bits.toNat >>> 63 % 2 ^ 32) <<< 31 % 2 ^ 32 = _
    rw [Nat.shiftRight_eq_div_pow, Nat.shiftLeft_eq, Nat.shiftLeft_eq]
    omega
  have hpattern : (UInt32.ofNat pattern).toNat = pattern := by
    rw [UInt32.toNat_ofNat']
    omega
  rw [UInt32.toNat_or, hsign, hpattern, ← Nat.shiftLeft_add_eq_or_of_lt h, Nat.shiftLeft_eq]

/-- A single is widened by moving its sign bit and widening the rest of its pattern. -/
theorem toNat_toBits_widen (x : Float32) :
    (widen x).toBits.toNat = x.toBits.toNat / 0x80000000 * 0x8000000000000000 +
      widenPattern (x.toBits.toNat % 0x80000000) := by
  have hlt := x.toBits.toNat_lt
  have hmask : (x.toBits &&& 0x7fffffff).toNat = x.toBits.toNat % 0x80000000 := by
    rw [UInt32.toNat_and]
    exact Nat.and_two_pow_sub_one_eq_mod x.toBits.toNat 31
  have hwide : widenPattern (x.toBits.toNat % 0x80000000) ≤ 0x7ff0000000000000 ∨
      x.toBits.toNat / 0x80000000 = 0 ∧
        widenPattern (x.toBits.toNat % 0x80000000) = 0x7ff8000000000000 := by
    rcases toNat_toBits_cases x with hle | hnan
    · exact .inl (widenPattern_le hle)
    · rw [hnan]
      exact .inr (by decide)
  rw [widen, hmask]
  -- From here on only the size of the widened pattern counts.
  generalize widenPattern (x.toBits.toNat % 0x80000000) = wide at hwide ⊢
  have hword := @toNat_signed_wide x.toBits wide (by omega)
  have hvalid : Format.binary64.Valid
      (((x.toBits >>> 31).toUInt64 <<< 63) ||| UInt64.ofNat wide).toBitVec := by
    refine (Pattern.valid_iff _ _).mpr ?_
    rcases hwide with hle | ⟨hsign, hnan⟩
    · refine .inl ?_
      change UInt64.toNat _ % 0x8000000000000000 ≤ 0x7ff0000000000000
      rw [hword]
      omega
    · refine .inr (BitVec.eq_of_toNat_eq ?_)
      change UInt64.toNat _ = 0x7ff8000000000000
      rw [hword, hsign, hnan]
  rw [toBits_ofBits _ hvalid, hword]

/-- Every single comes back from the double that it is widened to, what is not a number
included. -/
theorem narrow_widen (x : Float32) : narrow (widen x) = x := by
  have hlt := x.toBits.toNat_lt
  have hpattern : x.toBits.toNat % 0x80000000 ≤ 0x7f800000 ∨
      x.toBits.toNat % 0x80000000 = 0x7fc00000 := by
    have hcases := toNat_toBits_cases x
    omega
  have hwide := toNat_toBits_widen x
  have hbound : widenPattern (x.toBits.toNat % 0x80000000) < 0x8000000000000000 := by
    rcases hpattern with hle | hnan
    · have := widenPattern_le hle
      omega
    · rw [hnan]
      decide
  have hmask : ((widen x).toBits &&& 0x7fffffffffffffff).toNat =
      widenPattern (x.toBits.toNat % 0x80000000) := by
    rw [UInt64.toNat_and, hwide]
    refine (Nat.and_two_pow_sub_one_eq_mod _ 63).trans ?_
    omega
  have hword := @toNat_signed_narrow (widen x).toBits (x.toBits.toNat % 0x80000000) (by omega)
  rw [narrow, hmask, narrowPattern_widenPattern hpattern]
  refine (congrArg Float32.ofBits (UInt32.toNat_inj.mp ?_)).trans (Float32.ofBits_toBits x)
  rw [hword, hwide]
  omega

end Precision

end LineGrammar
