/-
Whole computations with matrices of counts.  A tree of products, sums and powers can be
evaluated exactly if the operands of each node go together.  What comes out is the exact
value over the natural numbers or a flagged matrix, and the flag of a single leaf shows in
the end, whatever it is multiplied by.
-/
import LineGrammar.Proofs.Growth.Power

namespace LineGrammar

namespace Matrix

inductive Expression where
  | leaf (matrix : Matrix)
  | mul (left right : Expression)
  | add (left right : Expression)
  | pow (base : Expression) (exponent : Nat)

namespace Expression

def leaves : Expression → List Matrix
  | leaf matrix => [matrix]
  | mul left right => left.leaves ++ right.leaves
  | add left right => left.leaves ++ right.leaves
  | pow base _ => base.leaves

def evaluate : Expression → Except Fault Matrix
  | leaf matrix => .ok matrix
  | mul left right => do
      let left ← left.evaluate
      let right ← right.evaluate
      left.mul right
  | add left right => do
      let left ← left.evaluate
      let right ← right.evaluate
      left.add right
  | pow base exponent => do
      let base ← base.evaluate
      base.pow exponent

def rows : Expression → Nat
  | leaf matrix => matrix.rows
  | mul left _ => left.rows
  | add left _ => left.rows
  | pow base _ => base.rows

def cols : Expression → Nat
  | leaf matrix => matrix.cols
  | mul _ right => right.cols
  | add left _ => left.cols
  | pow base _ => base.cols

/-- The operands of each node go together. -/
def Fits : Expression → Prop
  | leaf _ => True
  | mul left right => left.Fits ∧ right.Fits ∧ left.cols = right.rows
  | add left right =>
      left.Fits ∧ right.Fits ∧ left.rows = right.rows ∧ left.cols = right.cols
  | pow base _ => base.Fits ∧ base.rows = base.cols

/-- The value over the natural numbers, as a matrix of so many rows and columns.  A power
has as many columns as rows. -/
def exact : Expression → (rows cols : Nat) → CountMatrix rows cols
  | leaf matrix, rows, cols => matrix.counts rows cols
  | mul left right, rows, cols => left.exact rows left.cols * right.exact left.cols cols
  | add left right, rows, cols => left.exact rows cols + right.exact rows cols
  | pow base exponent, rows, _ => fun row col =>
      if h : col < rows then (base.exact rows rows ^ exponent) row ⟨col, h⟩ else 0

theorem exact_pow (base : Expression) (exponent size : Nat) :
    (pow base exponent).exact size size = base.exact size size ^ exponent := by
  ext row col
  simp [exact]

/-- A matrix that an expression may evaluate to: it has the exact value unless it is
flagged, and it is flagged if a leaf is. -/
structure Yields (expression : Expression) (result : Matrix) : Prop where
  isExact : result.Exact (expression.exact expression.rows expression.cols)
  sticky : (∃ leaf ∈ expression.leaves, leaf.overflow = true) → result.overflow = true

section Nodes

variable {left right base : Expression} {leftResult rightResult baseResult : Matrix}

theorem yields_leaf (matrix : Matrix) : (leaf matrix).Yields matrix where
  isExact := exact_counts rfl rfl
  sticky := by simp [leaves]

theorem exists_flagged_leaf_append {leaves others : List Matrix} :
    (∃ leaf ∈ leaves ++ others, leaf.overflow = true) ↔
      (∃ leaf ∈ leaves, leaf.overflow = true) ∨ ∃ leaf ∈ others, leaf.overflow = true := by
  simp [or_and_right, exists_or]

theorem Yields.mul (hleft : left.Yields leftResult) (hright : right.Yields rightResult)
    (hfit : left.cols = right.rows) :
    ∃ product, leftResult.mul rightResult = .ok product ∧
      (Expression.mul left right).Yields product := by
  have hright' : rightResult.Exact (right.exact left.cols right.cols) :=
    hfit ▸ hright.isExact
  obtain ⟨product, hmul, hsettled⟩ := hleft.isExact.settled_mul hright'
  refine ⟨product, hmul, hsettled.isExact, ?_⟩
  intro hleaf
  apply hsettled.overflow_iff.mpr
  exact Or.inl ((exists_flagged_leaf_append.mp hleaf).imp hleft.sticky hright.sticky)

theorem Yields.add (hleft : left.Yields leftResult) (hright : right.Yields rightResult)
    (hrows : left.rows = right.rows) (hcols : left.cols = right.cols) :
    ∃ sum, leftResult.add rightResult = .ok sum ∧
      (Expression.add left right).Yields sum := by
  have hright' : rightResult.Exact (right.exact left.rows left.cols) :=
    hrows ▸ hcols ▸ hright.isExact
  obtain ⟨sum, hadd, hsettled⟩ := hleft.isExact.settled_add hright'
  refine ⟨sum, hadd, hsettled.isExact, ?_⟩
  intro hleaf
  apply hsettled.overflow_iff.mpr
  exact Or.inl ((exists_flagged_leaf_append.mp hleaf).imp hleft.sticky hright.sticky)

theorem Yields.pow (hbase : base.Yields baseResult) (hsquare : base.rows = base.cols)
    (exponent : Nat) :
    ∃ power, baseResult.pow exponent = .ok power ∧
      (Expression.pow base exponent).Yields power := by
  have hexact := hbase.isExact
  rw [← hsquare] at hexact
  obtain ⟨power, hpow, hpower, hkeep⟩ := hexact.pow exponent
  refine ⟨power, hpow, ?_, fun hleaf => hkeep (hbase.sticky hleaf)⟩
  have hcols : (Expression.pow base exponent).cols = base.rows := hsquare.symm
  rw [hcols]
  exact exact_pow base exponent base.rows ▸ hpower.exact_pow

end Nodes

/-- Where all operands go together, evaluation comes to an end. -/
theorem evaluate_of_fits {expression : Expression} (h : expression.Fits) :
    ∃ result, expression.evaluate = .ok result ∧ expression.Yields result := by
  induction expression with
  | leaf matrix => exact ⟨matrix, rfl, yields_leaf matrix⟩
  | mul left right ihLeft ihRight =>
      obtain ⟨hleft, hright, hfit⟩ := h
      obtain ⟨leftResult, hleftResult, hleftYields⟩ := ihLeft hleft
      obtain ⟨rightResult, hrightResult, hrightYields⟩ := ihRight hright
      obtain ⟨product, hmul, hyields⟩ := hleftYields.mul hrightYields hfit
      refine ⟨product, ?_, hyields⟩
      rw [evaluate, hleftResult, hrightResult]
      exact hmul
  | add left right ihLeft ihRight =>
      obtain ⟨hleft, hright, hrows, hcols⟩ := h
      obtain ⟨leftResult, hleftResult, hleftYields⟩ := ihLeft hleft
      obtain ⟨rightResult, hrightResult, hrightYields⟩ := ihRight hright
      obtain ⟨sum, hadd, hyields⟩ := hleftYields.add hrightYields hrows hcols
      refine ⟨sum, ?_, hyields⟩
      rw [evaluate, hleftResult, hrightResult]
      exact hadd
  | pow base exponent ih =>
      obtain ⟨hbase, hsquare⟩ := h
      obtain ⟨baseResult, hbaseResult, hbaseYields⟩ := ih hbase
      obtain ⟨power, hpow, hyields⟩ := hbaseYields.pow hsquare exponent
      refine ⟨power, ?_, hyields⟩
      rw [evaluate, hbaseResult]
      exact hpow

/-- The outcome of a step that refuses its operands because of their dimensions. -/
def Mismatched (outcome : Except Fault Matrix) : Prop :=
  ∃ leftRows leftCols rightRows rightCols,
    outcome = .error (.dimensionMismatch leftRows leftCols rightRows rightCols)

theorem mismatched_mul {left right : Matrix} (h : left.cols ≠ right.rows) :
    Mismatched (left.mul right) :=
  ⟨left.rows, left.cols, right.rows, right.cols, if_neg h⟩

theorem mismatched_add {left right : Matrix}
    (h : ¬ (left.rows = right.rows ∧ left.cols = right.cols)) : Mismatched (left.add right) :=
  ⟨left.rows, left.cols, right.rows, right.cols, if_neg h⟩

theorem mismatched_pow {base : Matrix} (h : base.rows ≠ base.cols) (exponent : Nat) :
    Mismatched (base.pow exponent) :=
  ⟨base.rows, base.cols, base.rows, base.cols, if_neg h⟩

theorem Mismatched.bind {outcome : Except Fault Matrix} (h : Mismatched outcome)
    (rest : Matrix → Except Fault Matrix) : Mismatched (outcome >>= rest) := by
  obtain ⟨leftRows, leftCols, rightRows, rightCols, rfl⟩ := h
  exact ⟨leftRows, leftCols, rightRows, rightCols, rfl⟩

/-- A node of two operands stops at the first operand that does, and at the node itself if
neither does. -/
theorem mismatched_node {left right : Expression}
    {combine : Matrix → Matrix → Except Fault Matrix}
    (hleft : ¬ left.Fits → Mismatched left.evaluate)
    (hright : ¬ right.Fits → Mismatched right.evaluate)
    (hnode : ∀ leftResult rightResult, left.Fits → right.Fits →
      left.Yields leftResult → right.Yields rightResult →
        Mismatched (combine leftResult rightResult)) :
    Mismatched (do
      let leftResult ← left.evaluate
      let rightResult ← right.evaluate
      combine leftResult rightResult) := by
  by_cases hleftFits : left.Fits
  · obtain ⟨leftResult, hleftResult, hleftYields⟩ := evaluate_of_fits hleftFits
    rw [hleftResult]
    by_cases hrightFits : right.Fits
    · obtain ⟨rightResult, hrightResult, hrightYields⟩ := evaluate_of_fits hrightFits
      rw [hrightResult]
      exact hnode leftResult rightResult hleftFits hrightFits hleftYields hrightYields
    · exact (hright hrightFits).bind _
  · exact (hleft hleftFits).bind _

/-- Where the operands of some node do not go together, evaluation stops at such a node. -/
theorem mismatched_evaluate {expression : Expression} (h : ¬ expression.Fits) :
    Mismatched expression.evaluate := by
  induction expression with
  | leaf matrix => exact absurd trivial h
  | mul left right ihLeft ihRight =>
      apply mismatched_node ihLeft ihRight
      intro leftResult rightResult hleft hright hleftYields hrightYields
      apply mismatched_mul
      rw [hleftYields.isExact.cols_eq, hrightYields.isExact.rows_eq]
      exact fun hfit => h ⟨hleft, hright, hfit⟩
  | add left right ihLeft ihRight =>
      apply mismatched_node ihLeft ihRight
      intro leftResult rightResult hleft hright hleftYields hrightYields
      apply mismatched_add
      rw [hleftYields.isExact.rows_eq, hleftYields.isExact.cols_eq,
        hrightYields.isExact.rows_eq, hrightYields.isExact.cols_eq]
      exact fun hfit => h ⟨hleft, hright, hfit⟩
  | pow base exponent ih =>
      by_cases hbase : base.Fits
      · obtain ⟨baseResult, hbaseResult, hbaseYields⟩ := evaluate_of_fits hbase
        rw [evaluate, hbaseResult]
        apply mismatched_pow
        rw [hbaseYields.isExact.rows_eq, hbaseYields.isExact.cols_eq]
        exact fun hsquare => h ⟨hbase, hsquare⟩
      · exact (ih hbase).bind _

/-- Evaluation stops at a mismatch of dimensions exactly if the operands of some node do not
go together.  Otherwise a flag of any leaf shows in the result and in its sum, and a clear
result is the exact value.  Each product and sum on the way is flagged exactly if an operand
is or an exact entry does not fit, and stores the largest word everywhere then; the entries
of a clear matrix are summed up exactly as long as that fits. -/
theorem evaluate_checked (expression : Expression) :
    (Mismatched expression.evaluate ↔ ¬ expression.Fits) ∧
      (expression.Fits → ∃ result, expression.evaluate = .ok result ∧
        result.rows = expression.rows ∧ result.cols = expression.cols ∧
        ((∃ leaf ∈ expression.leaves, leaf.overflow = true) →
          result.overflow = true ∧ result.grandSum = ⟨Tally.largest, true⟩) ∧
        (result.overflow = false → result.counts expression.rows expression.cols =
          expression.exact expression.rows expression.cols)) ∧
      (∀ left right : Matrix, left.cols = right.rows →
        ∃ product, left.mul right = .ok product ∧
          product.Settled (left.overflow = true ∨ right.overflow = true)
            (left.counts left.rows left.cols * right.counts left.cols right.cols)) ∧
      (∀ left right : Matrix, left.rows = right.rows ∧ left.cols = right.cols →
        ∃ sum, left.add right = .ok sum ∧
          sum.Settled (left.overflow = true ∨ right.overflow = true)
            (left.counts left.rows left.cols + right.counts left.rows left.cols)) ∧
      ∀ matrix : Matrix, matrix.overflow = false →
        matrix.grandSum =
          .ofCount (∑ row, ∑ col, matrix.counts matrix.rows matrix.cols row col) := by
  refine ⟨⟨?_, mismatched_evaluate⟩, ?_, ?_, ?_, ?_⟩
  · rintro ⟨_, _, _, _, hfault⟩ hfits
    obtain ⟨result, hresult, -⟩ := evaluate_of_fits hfits
    rw [hresult] at hfault
    cases hfault
  · intro hfits
    obtain ⟨result, hresult, hyields⟩ := evaluate_of_fits hfits
    have hexact := hyields.isExact
    refine ⟨result, hresult, hexact.rows_eq, hexact.cols_eq, ?_, hexact.counts_eq⟩
    intro hleaf
    exact ⟨hyields.sticky hleaf, if_pos (hyields.sticky hleaf)⟩
  · intro left right hfit
    exact (exact_counts rfl rfl).settled_mul (exact_counts hfit.symm rfl)
  · intro left right hfit
    exact (exact_counts rfl rfl).settled_add (exact_counts hfit.1.symm hfit.2.symm)
  · intro matrix hclear
    exact (exact_counts rfl rfl).grandSum_eq hclear

-- A flag is not lost in a product with zero.
example :
    let flagged : Matrix := ⟨1, 1, #[Tally.largest], true, rfl⟩
    let zero : Matrix := ⟨1, 1, #[0], false, rfl⟩
    ((mul (pow (leaf flagged) 2) (leaf zero)).evaluate.map (·.grandSum)).toOption =
      some ⟨Tally.largest, true⟩ := by
  decide +kernel

end Expression

end Matrix

end LineGrammar
