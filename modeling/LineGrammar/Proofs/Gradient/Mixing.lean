/-
Mixing colors.  At a parameter of zero a mixture is its first color and at one its last, and at
any parameter that is a number a channel on which both colors agree stays as it is.
-/
import LineGrammar.Color
import LineGrammar.Proofs.Number.Arithmetic
import LineGrammar.Proofs.Number.Whole

namespace LineGrammar

namespace Single

theorem forall_byte {p : UInt8 → Prop} (h : ∀ n : Fin 256, p (UInt8.ofNat n)) (byte : UInt8) :
    p byte := by
  have hbyte := h ⟨byte.toNat, byte.toNat_lt⟩
  rwa [UInt8.ofNat_toNat] at hbyte

theorem toByte_toFloat32 : ∀ byte : UInt8, toByte byte.toFloat32 = byte :=
  forall_byte (by decide +kernel)

/-- A byte and a zero of either sign come out as that byte. -/
theorem toByte_add {x : Float32} (h : level x = 0) (byte : UInt8) :
    toByte (byte.toFloat32 + x) = byte := by
  have hpositive : ∀ byte : UInt8, byte.toFloat32 + 0 = byte.toFloat32 :=
    forall_byte (by decide +kernel)
  have hnegative : ∀ byte : UInt8, byte.toFloat32 + -0.0 = byte.toFloat32 :=
    forall_byte (by decide +kernel)
  rcases eq_zero_of_level h with rfl | rfl
  · rw [hpositive, toByte_toFloat32]
  · rw [hnegative, toByte_toFloat32]

theorem natAbs_level_toFloat32 : ∀ byte : UInt8, (level byte.toFloat32).natAbs < 0x7e000000 :=
  forall_byte (by decide +kernel)

theorem isFinite_toFloat32 (byte : UInt8) : byte.toFloat32.isFinite := by
  have hfits : Rounding.Fits (Float.Model.UnpackedFloat.normalize Float.Model.Format.binary32
      (byte.toNat : Int) 0 .positive) :=
    Rounding.fits_normalize 8 .positive byte.toNat_lt (by decide)
  exact hfits.isFinite_pack

end Single

namespace Color

theorem isFinite_sub_channel (first last : UInt8) :
    (last.toFloat32 - first.toFloat32).isFinite :=
  Single.isFinite_sub (Single.not_isNaN_of_isFinite (Single.isFinite_toFloat32 last))
    (Single.not_isNaN_of_isFinite (Single.isFinite_toFloat32 first))
    (Single.natAbs_level_toFloat32 last) (Single.natAbs_level_toFloat32 first)

theorem mixChannel_self {t : Float32} (ht : t.isFinite) (channel : UInt8) :
    mixChannel t channel channel = channel :=
  Single.toByte_add (Single.level_mul_eq_zero (isFinite_sub_channel channel channel) ht
    (.inl (Single.level_sub_self (Single.isFinite_toFloat32 channel)))) channel

theorem mixChannel_zero {t : Float32} (ht : t.isFinite) (hzero : Single.level t = 0)
    (first last : UInt8) : mixChannel t first last = first :=
  Single.toByte_add
    (Single.level_mul_eq_zero (isFinite_sub_channel first last) ht (.inr hzero)) first

theorem mixChannel_one (first last : UInt8) : mixChannel 1 first last = last := by
  have hfirst := first.toNat_lt
  have hlast := last.toNat_lt
  have hmixed : first.toFloat32 + (last.toFloat32 - first.toFloat32) * 1 = last.toFloat32 := by
    simp only [Single.toFloat32_eq_whole]
    rw [Single.whole_sub_whole (by omega) (by omega) (by omega), Single.whole_mul_one (by omega),
      Single.whole_add_whole (by omega) (by omega) (by omega)]
    congr 1
    omega
  rw [mixChannel, hmixed, Single.toByte_toFloat32]

/-- The mixture of opaque colors at a parameter that is a number is opaque. -/
theorem alpha_lerp {first last : Color} {t : Float32} (ht : ¬ t.isNaN)
    (hfirst : first.alpha = 255) (hlast : last.alpha = 255) : (first.lerp last t).alpha = 255 := by
  rw [lerp, hfirst, hlast]
  exact mixChannel_self (Single.isFinite_clampUnit ht) 255

/-- A mixture starts with its first color. -/
theorem lerp_zero {t : Float32} (ht : ¬ t.isNaN) (hzero : Single.level t = 0)
    (first last : Color) : first.lerp last t = first := by
  have hclamped : Single.level (Single.clampUnit t) = 0 := by
    rw [Single.level_clampUnit ht, hzero]
    decide
  have hfinite := Single.isFinite_clampUnit ht
  simp only [lerp, mixChannel_zero hfinite hclamped]

/-- A mixture ends with its last color. -/
theorem lerp_one (first last : Color) : first.lerp last 1 = last := by
  have hone : Single.clampUnit 1 = 1 := by decide +kernel
  simp only [lerp, hone, mixChannel_one]

end Color

end LineGrammar
