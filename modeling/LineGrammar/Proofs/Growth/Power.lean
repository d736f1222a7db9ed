/-
Powers by squaring.  The loop keeps a product of two powers the one that is wanted.  As each
of the two is exact or rightly flagged, so is what comes out: a flag means that some power on
the way does not fit, though perhaps not the last one.
-/
import LineGrammar.Proofs.Growth.Exact

namespace LineGrammar

namespace Matrix

variable {size : Nat}

/-- A power of a matrix of exact counts.  If it is flagged, then the matrix itself is,
or some power up to this one does not fit. -/
structure Power (power matrix : Matrix) (exact : CountMatrix size size) (exponent : Nat) :
    Prop where
  exact_pow : power.Exact (exact ^ exponent)
  reason : power.overflow = true → matrix.overflow = true ∨
    ∃ smaller, 0 < smaller ∧ smaller ≤ exponent ∧ CountMatrix.Large (exact ^ smaller)

theorem not_large_pow_zero (exact : CountMatrix size size) :
    ¬ CountMatrix.Large (exact ^ 0) := by
  rintro ⟨row, col, hlarge⟩
  rw [pow_zero, Matrix.one_apply] at hlarge
  have hsize : 1 < UInt64.size := by decide
  split at hlarge <;> omega

theorem power_zero (matrix : Matrix) (exact : CountMatrix size size) :
    Power { identity size with overflow := matrix.overflow } matrix exact 0 := by
  have hcounts : ∀ row col : Fin size,
      (Tally.ofCount (if (row : Nat) = col then 1 else 0)).Counts ((exact ^ 0) row col) := by
    intro row col
    rw [pow_zero, Matrix.one_apply]
    simpa only [Fin.ext_iff] using Tally.counts_ofCount _
  obtain ⟨hexact, hiff⟩ := exact_ofTallies (exact ^ 0)
    (fun row col => .ofCount (if row = col then 1 else 0)) hcounts
  have hclear : (identity size).overflow = false := by
    rw [← Bool.not_eq_true]
    exact fun hflag => not_large_pow_zero exact (hiff.mp hflag)
  refine ⟨⟨rfl, rfl, fun _ => hexact.entry_eq hclear⟩, Or.inl⟩

theorem Exact.power_one {matrix : Matrix} {exact : CountMatrix size size}
    (h : matrix.Exact exact) : matrix.Power matrix exact 1 :=
  ⟨by rwa [pow_one], Or.inl⟩

/-- A flag stays right for every higher power. -/
theorem Power.of_overflow {power matrix : Matrix} {exact : CountMatrix size size}
    {exponent higher : Nat} (h : power.Power matrix exact exponent)
    (hflag : power.overflow = true) (hle : exponent ≤ higher) :
    power.Power matrix exact higher := by
  refine ⟨⟨h.exact_pow.rows_eq, h.exact_pow.cols_eq, ?_⟩, ?_⟩
  · intro hclear
    rw [hflag] at hclear
    cases hclear
  · intro _
    rcases h.reason hflag with hmatrix | ⟨smaller, hpos, hsmaller, hlarge⟩
    · exact Or.inl hmatrix
    · exact Or.inr ⟨smaller, hpos, Nat.le_trans hsmaller hle, hlarge⟩

theorem Power.mul {left right matrix : Matrix} {exact : CountMatrix size size} {m n : Nat}
    (hleft : left.Power matrix exact m) (hright : right.Power matrix exact n) :
    ∃ product, left.mul right = .ok product ∧ product.Power matrix exact (m + n) := by
  obtain ⟨product, hmul, hexact, hiff⟩ := hleft.exact_pow.mul hright.exact_pow
  rw [← pow_add] at hexact hiff
  refine ⟨product, hmul, hexact, ?_⟩
  intro hflag
  rcases hiff.mp hflag with hflag | hflag | hlarge
  · exact (hleft.of_overflow hflag (Nat.le_add_right m n)).reason hflag
  · exact (hright.of_overflow hflag (Nat.le_add_left n m)).reason hflag
  · refine Or.inr ⟨m + n, ?_, Nat.le_refl _, hlarge⟩
    apply Nat.pos_of_ne_zero
    intro hzero
    rw [hzero] at hlarge
    exact not_large_pow_zero exact hlarge

theorem powLoop_zero (base result : Matrix) : powLoop base result 0 = .ok result := by
  rw [powLoop, dif_pos rfl]
  rfl

theorem powLoop_of_ne_zero {base result next square : Matrix} {exponent : Nat}
    (h : exponent ≠ 0)
    (hnext : (if exponent % 2 = 1 then result.mul base else .ok result) = .ok next)
    (hsquare : (if exponent / 2 = 0 then .ok base else base.mul base) = .ok square) :
    powLoop base result exponent =
      if next.overflow then .ok next else powLoop square next (exponent / 2) := by
  rw [powLoop, dif_neg h]
  split at hnext <;> split at hsquare <;> simp_all [bind, Except.bind, pure, Except.pure]

/-- The result takes in the base where the exponent is odd, and never loses a flag. -/
theorem Power.next {base result matrix : Matrix} {exact : CountMatrix size size}
    {m n : Nat} (hbase : base.Power matrix exact m) (hresult : result.Power matrix exact n)
    (exponent : Nat) :
    ∃ next, (if exponent % 2 = 1 then result.mul base else .ok result) = .ok next ∧
      next.Power matrix exact (n + m * (exponent % 2)) ∧
      (result.overflow = true → next.overflow = true) := by
  rcases Nat.mod_two_eq_zero_or_one exponent with heven | hodd
  · exact ⟨result, by simp [heven], by simpa [heven] using hresult, id⟩
  · obtain ⟨next, hmul, hpower⟩ := hresult.mul hbase
    obtain ⟨product, hproduct, -, hiff⟩ := hresult.exact_pow.mul hbase.exact_pow
    have hsame : product = next := by
      rw [hmul] at hproduct
      exact (Except.ok.inj hproduct).symm
    refine ⟨next, by simp [hodd, hmul], by simpa [hodd] using hpower, ?_⟩
    intro hflag
    exact hsame ▸ hiff.mpr (Or.inl hflag)

/-- The base is squared as long as more of the exponent is left. -/
theorem Power.square {base matrix : Matrix} {exact : CountMatrix size size} {m : Nat}
    (hbase : base.Power matrix exact m) (exponent : Nat) :
    ∃ square, (if exponent / 2 = 0 then .ok base else base.mul base) = .ok square ∧
      square.Power matrix exact (if exponent / 2 = 0 then m else m + m) := by
  by_cases hlast : exponent / 2 = 0
  · exact ⟨base, if_pos hlast, by rwa [if_pos hlast]⟩
  · obtain ⟨square, hmul, hpower⟩ := hbase.mul hbase
    exact ⟨square, by rw [if_neg hlast, hmul], by rwa [if_neg hlast]⟩

theorem exponent_split (m n exponent : Nat) :
    n + m * (exponent % 2) + (if exponent / 2 = 0 then m else m + m) * (exponent / 2) =
      n + m * exponent := by
  have hdouble : (if exponent / 2 = 0 then m else m + m) * (exponent / 2) =
      m * (2 * (exponent / 2)) := by
    split
    · next hlast => simp [hlast]
    · ring
  rw [hdouble, Nat.add_assoc, ← Nat.mul_add, Nat.mod_add_div]

/-- Squaring keeps `result * base ^ exponent` the power that is wanted. -/
theorem powLoop_power {matrix : Matrix} {exact : CountMatrix size size} (exponent : Nat)
    {base result : Matrix} {m n : Nat} (hbase : base.Power matrix exact m)
    (hresult : result.Power matrix exact n) :
    ∃ power, powLoop base result exponent = .ok power ∧
      power.Power matrix exact (n + m * exponent) ∧
      (result.overflow = true → power.overflow = true) := by
  induction exponent using Nat.strong_induction_on generalizing base result m n with
  | h exponent ih =>
      by_cases hzero : exponent = 0
      · subst hzero
        exact ⟨result, powLoop_zero base result, hresult, id⟩
      · have hhalf : exponent / 2 < exponent := by omega
        obtain ⟨next, hnext, hnextPower, hkeep⟩ := hbase.next hresult exponent
        obtain ⟨square, hsquare, hsquarePower⟩ := hbase.square exponent
        rw [powLoop_of_ne_zero hzero hnext hsquare, ← exponent_split m n exponent]
        split
        · next hflag =>
            exact ⟨next, rfl, hnextPower.of_overflow hflag (Nat.le_add_right _ _),
              fun _ => hflag⟩
        · next hclear =>
            obtain ⟨power, hloop, hpower, -⟩ :=
              ih (exponent / 2) hhalf hsquarePower hnextPower
            exact ⟨power, hloop, hpower, fun hflag => absurd (hkeep hflag) hclear⟩

/-- A power of a matrix of exact counts always comes out, and keeps its flag. -/
theorem Exact.pow {matrix : Matrix} {exact : CountMatrix size size} (h : matrix.Exact exact)
    (exponent : Nat) :
    ∃ power, matrix.pow exponent = .ok power ∧ power.Power matrix exact exponent ∧
      (matrix.overflow = true → power.overflow = true) := by
  have hsquare : matrix.rows = matrix.cols := h.rows_eq.trans h.cols_eq.symm
  obtain ⟨power, hloop, hpower, hkeep⟩ := powLoop_power exponent h.power_one
    (power_zero matrix exact)
  refine ⟨power, ?_, ?_, hkeep⟩
  · rw [Matrix.pow, if_pos hsquare, h.rows_eq]
    exact hloop
  · rwa [Nat.zero_add, Nat.one_mul] at hpower

/-- A power of a clear square matrix always comes out.  It is the exact power unless it is
flagged; it is flagged only if some power up to this one does not fit, and certainly if it
does not fit itself. -/
theorem counts_pow {matrix : Matrix} (hrows : matrix.rows = size) (hcols : matrix.cols = size)
    (hclear : matrix.overflow = false) (exponent : Nat) :
    let exact := matrix.counts size size
    ∃ power, matrix.pow exponent = .ok power ∧ power.rows = size ∧ power.cols = size ∧
      (power.overflow = false → power.counts size size = exact ^ exponent) ∧
      (power.overflow = true → ∃ smaller, 1 ≤ smaller ∧ smaller ≤ exponent ∧
        CountMatrix.Large (exact ^ smaller)) ∧
      (CountMatrix.Large (exact ^ exponent) → power.overflow = true) := by
  intro exact
  obtain ⟨power, hpow, hpower, -⟩ := (exact_counts hrows hcols).pow exponent
  have hexact : power.Exact (exact ^ exponent) := hpower.exact_pow
  refine ⟨power, hpow, hexact.rows_eq, hexact.cols_eq, hexact.counts_eq, ?_, ?_⟩
  · intro hflag
    rcases hpower.reason hflag with hmatrix | hsmaller
    · simp [hclear] at hmatrix
    · exact hsmaller
  · intro hlarge
    by_contra hflag
    exact hexact.not_large (Bool.eq_false_iff.mpr hflag) hlarge

/-- Large steps up a ladder of three rungs. -/
def ladder : Matrix :=
  ⟨3, 3, #[0, 1099511627776, 0, 0, 0, 1099511627776, 0, 0, 0], false, rfl⟩

/-- No third step is left on it, but the third power is flagged, as two steps at once do not
fit. -/
theorem counts_pow_ladder :
    ladder.rows = 3 ∧ ladder.cols = 3 ∧ ladder.overflow = false ∧
      ladder.counts 3 3 ^ 3 = 0 ∧
      ∃ power, ladder.pow 3 = .ok power ∧ power.overflow = true ∧
        ∃ smaller, 1 ≤ smaller ∧ smaller ≤ 3 ∧
          CountMatrix.Large (ladder.counts 3 3 ^ smaller) := by
  obtain ⟨power, hpow, -, -, -, hreason, -⟩ := @counts_pow 3 ladder rfl rfl rfl 3
  have hoverflow : (ladder.pow 3).toOption.map (·.overflow) = some true := by decide +kernel
  rw [hpow] at hoverflow
  have hflag : power.overflow = true := Option.some.inj hoverflow
  have hentries : ∀ place : Fin 3 × Fin 3, (ladder.counts 3 3 ^ 3) place.1 place.2 = 0 := by
    decide +kernel
  refine ⟨rfl, rfl, rfl, ?_, power, hpow, hflag, hreason hflag⟩
  ext row col
  exact hentries (row, col)

end Matrix

end LineGrammar
