/-
The order of positions.  Numbers come in their own order, a negative zero right before the
other one.  What is not a number comes before all of them or behind, as its sign bit says.
-/
import LineGrammar.Gradient.Position
import LineGrammar.Proofs.Number.Order

namespace LineGrammar

namespace Position

open Single (level)

@[simp] theorem value_ofValue (x : Float32) : (ofValue x).value = x :=
  Float32.ofBits_toBits x

@[simp] theorem value_zero : (0 : Position).value = 0 :=
  value_ofValue 0

@[simp] theorem value_one : (1 : Position).value = 1 :=
  value_ofValue 1

@[simp] theorem value_clampUnit (position : Position) :
    position.clampUnit.value = Single.clampUnit position.value := by
  unfold clampUnit Single.clampUnit
  split
  · exact value_zero
  · split
    · exact value_one
    · rfl

theorem clampUnit_zero : clampUnit 0 = 0 := by
  rw [clampUnit, if_neg (by decide +kernel), if_neg (by decide +kernel)]

theorem clampUnit_one : clampUnit 1 = 1 := by
  rw [clampUnit, if_neg (by decide +kernel), if_neg (by decide +kernel)]

theorem isNaN_value_iff (position : Position) :
    position.value.isNaN ↔ 0x7f800000 < position.bits.toNat % 0x80000000 :=
  Single.isNaN_ofBits_iff position.bits

section Numbers

variable {position other : Position}

theorem toBits_value (h : ¬ position.value.isNaN) : position.value.toBits = position.bits := by
  rw [isNaN_value_iff] at h
  exact Single.toBits_ofBits (Nat.le_of_not_lt h)

/-- Nothing is lost of a number. -/
theorem ofValue_value (h : ¬ position.value.isNaN) : ofValue position.value = position :=
  congrArg mk (toBits_value h)

theorem eq_of_value_eq (h : ¬ position.value.isNaN) (heq : position.value = other.value) :
    position = other := by
  rw [← ofValue_value h, heq, ofValue_value (heq ▸ h)]

/-- A number lies at its level, or right below it if its sign bit is set. -/
theorem rank_eq_level (h : ¬ position.value.isNaN) :
    (position.rank = level position.value ∧ 0 ≤ level position.value) ∨
      (position.rank = level position.value - 1 ∧ level position.value ≤ 0) := by
  simp only [rank, level, toBits_value h]
  split
  · exact .inl ⟨rfl, by omega⟩
  · exact .inr ⟨by omega, by omega⟩

theorem level_le_of_rank_le (h : ¬ position.value.isNaN) (hother : ¬ other.value.isNaN)
    (hle : position.rank ≤ other.rank) : level position.value ≤ level other.value := by
  have hposition := rank_eq_level h
  have hother := rank_eq_level hother
  omega

theorem rank_of_level_pos (h : ¬ position.value.isNaN) (hpos : 0 < level position.value) :
    position.rank = level position.value := by
  have hposition := rank_eq_level h
  omega

end Numbers

/-- What is not a number is outside the places of the numbers. -/
theorem isNaN_iff_rank (position : Position) :
    position.value.isNaN ↔ position.rank < -0x7f800001 ∨ 0x7f800000 < position.rank := by
  have hlt := position.bits.toNat_lt
  rw [isNaN_value_iff]
  simp only [rank]
  split <;> omega

/-- What is not a number and has a sign bit comes before all numbers. -/
def before (position : Position) : Bool :=
  position.value.isNaN && position.rank < 0

/-- What is not a number and has no sign bit comes behind all numbers. -/
def behind (position : Position) : Bool :=
  position.value.isNaN && 0 ≤ position.rank

theorem isNaN_eq_before_or_behind (position : Position) :
    position.value.isNaN = (position.before || position.behind) := by
  rw [before, behind, ← Bool.and_or_distrib_left, ← Bool.decide_or,
    decide_eq_true (lt_or_ge position.rank 0), Bool.and_true]

theorem before_iff_rank (position : Position) :
    position.before = true ↔ position.rank < -0x7f800001 := by
  rw [before, Bool.and_eq_true, isNaN_iff_rank, decide_eq_true_eq]
  omega

theorem behind_iff_rank (position : Position) :
    position.behind = true ↔ 0x7f800000 < position.rank := by
  rw [behind, Bool.and_eq_true, isNaN_iff_rank, decide_eq_true_eq]
  omega

section Order

variable {position other : Position}

theorem before_of_rank_le (h : other.before = true) (hle : position.rank ≤ other.rank) :
    position.before = true := by
  rw [before_iff_rank] at h ⊢
  omega

theorem behind_of_rank_le (h : position.behind = true) (hle : position.rank ≤ other.rank) :
    other.behind = true := by
  rw [behind_iff_rank] at h ⊢
  omega

end Order

end Position

end LineGrammar
