/-
When a power of counts is flagged.  Squaring multiplies out the squares of the matrix up
to the exponent and what the lower bits of the exponent make of them.  The flag is raised
exactly if one of these powers has an entry that does not fit into a word, whether or not
the power that is wanted has one.
-/
import LineGrammar.Proofs.Growth.Power

namespace LineGrammar

namespace Matrix

variable {size : Nat}

/-- Some power that squaring still multiplies out does not fit: the base, which stands
for a power `m`, is squared while more of the exponent is left, and the result, which
stands for a power `n`, takes in what the lower bits of the exponent make. -/
def Outgrows (exact : CountMatrix size size) (m n exponent : Nat) : Prop :=
  (∃ bit, 2 ^ (bit + 1) ≤ exponent ∧ CountMatrix.Large (exact ^ (m * 2 ^ (bit + 1)))) ∨
    ∃ bit, CountMatrix.Large (exact ^ (n + m * (exponent % 2 ^ bit)))

theorem mod_two_pow_succ (exponent bit : Nat) :
    exponent % 2 ^ (bit + 1) = exponent % 2 + 2 * (exponent / 2 % 2 ^ bit) := by
  rw [Nat.pow_succ, Nat.mul_comm, Nat.mod_mul]

/-- Nothing is left to be multiplied out after the last bit. -/
theorem outgrows_zero_iff (exact : CountMatrix size size) (m n : Nat) :
    Outgrows exact m n 0 ↔ CountMatrix.Large (exact ^ n) := by
  simp [Outgrows, Nat.not_le.mpr (Nat.two_pow_pos _)]

theorem outgrows_one_iff (exact : CountMatrix size size) (m n : Nat) :
    Outgrows exact m n 1 ↔
      CountMatrix.Large (exact ^ n) ∨ CountMatrix.Large (exact ^ (n + m)) := by
  have hhigh : ∀ bit, ¬ 2 ^ (bit + 1) ≤ 1 := by
    intro bit
    have hpos := Nat.two_pow_pos bit
    rw [Nat.pow_succ]
    omega
  have hlow : ∀ bit, 1 % 2 ^ (bit + 1) = 1 := fun bit =>
    Nat.mod_eq_of_lt (Nat.one_lt_two_pow (Nat.succ_ne_zero bit))
  constructor
  · rintro (⟨bit, hbit, -⟩ | ⟨_ | bit, hlarge⟩)
    · exact absurd hbit (hhigh bit)
    · exact Or.inl (by simpa [Nat.mod_one] using hlarge)
    · exact Or.inr (by simpa [hlow] using hlarge)
  · rintro (hlarge | hlarge)
    · exact Or.inr ⟨0, by simpa [Nat.mod_one] using hlarge⟩
    · exact Or.inr ⟨1, by simpa [hlow] using hlarge⟩

theorem outgrows_of_large {exact : CountMatrix size size} {n : Nat} (m exponent : Nat)
    (h : CountMatrix.Large (exact ^ n)) : Outgrows exact m n exponent :=
  Or.inr ⟨0, by simpa [Nat.mod_one] using h⟩

/-- One bit less of the exponent: the base is squared, the result takes the bit in. -/
theorem outgrows_iff_half (exact : CountMatrix size size) (m n : Nat) {exponent : Nat}
    (h : exponent / 2 ≠ 0) :
    Outgrows exact m n exponent ↔
      CountMatrix.Large (exact ^ n) ∨ CountMatrix.Large (exact ^ (m + m)) ∨
        Outgrows exact (m + m) (n + m * (exponent % 2)) (exponent / 2) := by
  have hlow : ∀ bit, n + m * (exponent % 2) + (m + m) * (exponent / 2 % 2 ^ bit) =
      n + m * (exponent % 2 ^ (bit + 1)) := by
    intro bit
    rw [mod_two_pow_succ]
    ring
  have hhigh : ∀ bit, (m + m) * 2 ^ (bit + 1) = m * 2 ^ (bit + 1 + 1) := by
    intro bit
    ring
  have hle : ∀ bit, 2 ^ (bit + 1) ≤ exponent / 2 ↔ 2 ^ (bit + 1 + 1) ≤ exponent := by
    intro bit
    rw [Nat.le_div_iff_mul_le (by decide), ← Nat.pow_succ]
  have htwo : 2 ^ (0 + 1) ≤ exponent := by omega
  simp only [Outgrows, hlow, hhigh, hle]
  constructor
  · rintro (⟨_ | bit, hbit, hlarge⟩ | ⟨_ | bit, hlarge⟩)
    · exact Or.inr (Or.inl (by simpa [Nat.mul_two] using hlarge))
    · exact Or.inr (Or.inr (Or.inl ⟨bit, hbit, hlarge⟩))
    · exact Or.inl (by simpa [Nat.mod_one] using hlarge)
    · exact Or.inr (Or.inr (Or.inr ⟨bit, hlarge⟩))
  · rintro (hlarge | hlarge | ⟨bit, hbit, hlarge⟩ | ⟨bit, hlarge⟩)
    · exact Or.inr ⟨0, by simpa [Nat.mod_one] using hlarge⟩
    · exact Or.inl ⟨0, htwo, by simpa [Nat.mul_two] using hlarge⟩
    · exact Or.inl ⟨bit + 1, hbit, hlarge⟩
    · exact Or.inr ⟨bit + 1, hlarge⟩

/-- The result takes in the base where the exponent is odd. -/
theorem Exact.next {base result : Matrix} {exact : CountMatrix size size} {m n : Nat}
    (hbase : base.Exact (exact ^ m)) (hresult : result.Exact (exact ^ n)) (exponent : Nat) :
    ∃ next, (if exponent % 2 = 1 then result.mul base else .ok result) = .ok next ∧
      next.Exact (exact ^ (n + m * (exponent % 2))) ∧
      (next.overflow = true ↔ result.overflow = true ∨ exponent % 2 = 1 ∧
        (base.overflow = true ∨ CountMatrix.Large (exact ^ (n + m)))) := by
  rcases Nat.mod_two_eq_zero_or_one exponent with heven | hodd
  · exact ⟨result, by simp [heven], by simpa [heven] using hresult, by simp [heven]⟩
  · obtain ⟨next, hmul, hexact, hflag⟩ := hresult.mul hbase
    rw [← pow_add] at hexact hflag
    exact ⟨next, by simp [hodd, hmul], by simpa [hodd] using hexact, by simpa [hodd] using hflag⟩

/-- A power by squaring is flagged exactly if the result or the base was, or if one of the
powers that are multiplied out does not fit. -/
theorem overflow_powLoop_iff {exact : CountMatrix size size} (exponent : Nat)
    {base result power : Matrix} {m n : Nat} (hbase : base.Exact (exact ^ m))
    (hresult : result.Exact (exact ^ n)) (hpower : powLoop base result exponent = .ok power) :
    power.overflow = true ↔ result.overflow = true ∨
      (exponent ≠ 0 ∧ base.overflow = true) ∨ Outgrows exact m n exponent := by
  induction exponent using Nat.strong_induction_on generalizing base result m n with
  | h exponent ih =>
      have hclear : CountMatrix.Large (exact ^ n) → result.overflow = true := fun hlarge => by
        by_contra hflag
        exact hresult.not_large (Bool.eq_false_iff.mpr hflag) hlarge
      by_cases hzero : exponent = 0
      · subst hzero
        rw [powLoop_zero] at hpower
        obtain rfl := Except.ok.inj hpower
        rw [outgrows_zero_iff]
        simpa using hclear
      obtain ⟨next, hnext, hnextExact, hnextFlag⟩ := hbase.next hresult exponent
      by_cases hlast : exponent / 2 = 0
      · have hone : exponent = 1 := by omega
        rw [powLoop_of_ne_zero hzero hnext (if_pos hlast), hlast, powLoop_zero, ite_self]
          at hpower
        obtain rfl := Except.ok.inj hpower
        rw [hnextFlag, hone, outgrows_one_iff]
        by_cases hflag : result.overflow = true
        · simp [hflag]
        · have hfits : ¬ CountMatrix.Large (exact ^ n) := fun hlarge => hflag (hclear hlarge)
          simp [hflag, hfits]
      · obtain ⟨square, hmul, hsquareExact, hsquareFlag⟩ := hbase.mul hbase
        rw [← pow_add] at hsquareExact hsquareFlag
        rw [powLoop_of_ne_zero hzero hnext (by rw [if_neg hlast, hmul])] at hpower
        rw [outgrows_iff_half exact m n hlast]
        by_cases hflag : next.overflow = true
        · rw [if_pos hflag] at hpower
          obtain rfl := Except.ok.inj hpower
          refine iff_of_true hflag ?_
          rcases hnextFlag.mp hflag with hresult | ⟨hodd, hbase | hlarge⟩
          · exact Or.inl hresult
          · exact Or.inr (Or.inl ⟨hzero, hbase⟩)
          · refine Or.inr (Or.inr (Or.inr (Or.inr (outgrows_of_large _ _ ?_))))
            rwa [hodd, Nat.mul_one]
        · rw [if_neg hflag] at hpower
          have hresultClear : ¬ result.overflow = true := fun h =>
            hflag (hnextFlag.mpr (Or.inl h))
          have hrest := ih (exponent / 2) (by omega) hsquareExact hnextExact hpower
          rw [hrest, hsquareFlag, or_iff_right hflag, or_iff_right hresultClear,
            and_iff_right hlast, and_iff_right hzero,
            or_iff_right (fun h => hresultClear (hclear h)), or_assoc, or_assoc,
            or_self_left]

/-- The powers that squaring comes by on the way to an exponent: the matrix itself, its
squares up to the exponent, and what the lower bits of the exponent make of them. -/
def Visits (exponent power : Nat) : Prop :=
  power = 1 ∨ (∃ bit, power = 2 ^ bit ∧ power ≤ exponent) ∨ ∃ bit, power = exponent % 2 ^ bit

/-- A power of a matrix that is flagged only if it does not fit itself. -/
theorem Exact.overflow_pow_iff {matrix power : Matrix} {exact : CountMatrix size size}
    (h : matrix.Exact exact) (hflag : matrix.overflow = true ↔ exact.Large) {exponent : Nat}
    (hpower : matrix.pow exponent = .ok power) :
    power.overflow = true ↔
      ∃ visited, Visits exponent visited ∧ CountMatrix.Large (exact ^ visited) := by
  have hsquare : matrix.rows = matrix.cols := h.rows_eq.trans h.cols_eq.symm
  rw [Matrix.pow, if_pos hsquare, h.rows_eq] at hpower
  have hbase : matrix.Exact (exact ^ 1) := by rwa [pow_one]
  have hloop := overflow_powLoop_iff exponent hbase (power_zero matrix exact).exact_pow hpower
  rw [← pow_one exact] at hflag
  rw [hloop]
  simp only [hflag, Nat.zero_add, Nat.one_mul, Outgrows]
  constructor
  · rintro (hlarge | ⟨-, hlarge⟩ | ⟨bit, hbit, hlarge⟩ | ⟨bit, hlarge⟩)
    · exact ⟨1, Or.inl rfl, hlarge⟩
    · exact ⟨1, Or.inl rfl, hlarge⟩
    · exact ⟨_, Or.inr (Or.inl ⟨bit + 1, rfl, hbit⟩), hlarge⟩
    · exact ⟨_, Or.inr (Or.inr ⟨bit, rfl⟩), hlarge⟩
  · rintro ⟨_, rfl | ⟨_ | bit, rfl, hbit⟩ | ⟨bit, rfl⟩, hlarge⟩
    · exact Or.inl hlarge
    · exact Or.inl hlarge
    · exact Or.inr (Or.inr (Or.inl ⟨bit, hbit, hlarge⟩))
    · exact Or.inr (Or.inr (Or.inr ⟨bit, hlarge⟩))

end Matrix

end LineGrammar
