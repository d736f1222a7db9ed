/-
What checked counting means.  A tally, and a matrix of them, either stands for an
exact natural number or is flagged because that number does not fit into a word.
Products and sums keep this meaning.
-/
import LineGrammar.Growth.Matrix
import Mathlib.Algebra.BigOperators.Fin
import Mathlib.Data.Matrix.Mul

abbrev CountMatrix (rows cols : Nat) := Matrix (Fin rows) (Fin cols) Nat

/-- Some entry does not fit into a word. -/
def CountMatrix.Large {rows cols : Nat} (exact : CountMatrix rows cols) : Prop :=
  ∃ row col, UInt64.size ≤ exact row col

namespace LineGrammar

namespace Tally

/-- A tally of a number holds it, or is flagged because it does not fit. -/
def Counts (tally : Tally) (number : Nat) : Prop :=
  if tally.overflow then UInt64.size ≤ number else tally.value.toNat = number

theorem Counts.value_eq {tally : Tally} {number : Nat} (h : tally.Counts number)
    (hclear : tally.overflow = false) : tally.value.toNat = number := by
  simpa [Counts, hclear] using h

theorem Counts.cases {tally : Tally} {number : Nat} (h : tally.Counts number) :
    (tally.overflow = true ∧ UInt64.size ≤ number) ∨
      (tally.overflow = false ∧ tally.value.toNat = number) := by
  cases hflag : tally.overflow with
  | true => exact Or.inl ⟨rfl, by simpa [Counts, hflag] using h⟩
  | false => exact Or.inr ⟨rfl, h.value_eq hflag⟩

theorem Counts.overflow_iff {tally : Tally} {number : Nat} (h : tally.Counts number) :
    tally.overflow = true ↔ UInt64.size ≤ number := by
  rcases h.cases with ⟨hflag, hlarge⟩ | ⟨hclear, hvalue⟩
  · exact iff_of_true hflag hlarge
  · have hlt := tally.value.toNat_lt_size
    exact iff_of_false (by simp [hclear]) (by omega)

theorem counts_zero : zero.Counts 0 := by
  simp [Counts, zero]

theorem counts_mk (word : UInt64) : Counts ⟨word, false⟩ word.toNat := by
  simp [Counts]

theorem counts_largest {number : Nat} (h : UInt64.size ≤ number) :
    Counts ⟨largest, true⟩ number := by
  simpa [Counts] using h

theorem counts_ofCount (count : Nat) : (ofCount count).Counts count := by
  by_cases hfit : count < UInt64.size
  · simp [Counts, ofCount, hfit, Nat.mod_eq_of_lt hfit]
  · rw [ofCount, if_neg hfit]
    exact counts_largest (by omega)

theorem Counts.add {tally : Tally} {number : Nat} (h : tally.Counts number)
    (more : UInt64) : (tally.add more).Counts (number + more.toNat) := by
  by_cases hfit : tally.value.toNat + more.toNat < UInt64.size
  · have hvalue := toNat_add hfit
    have hflag : (tally.add more).overflow = tally.overflow := by simp [Tally.add, hfit]
    rw [Counts, hflag, hvalue]
    rcases h.cases with ⟨hover, hlarge⟩ | ⟨hclear, hnumber⟩
    · rw [if_pos hover]
      omega
    · simp [hclear, hnumber]
  · have hadd : tally.add more = ⟨largest, true⟩ := by simp [Tally.add, hfit]
    rw [hadd]
    apply counts_largest
    rcases h.cases with ⟨-, hlarge⟩ | ⟨-, hnumber⟩
    · omega
    · omega

theorem overflow_of_add {tally : Tally} {more : UInt64}
    (h : (tally.add more).overflow = false) : tally.overflow = false := by
  by_cases hfit : tally.value.toNat + more.toNat < UInt64.size
  · simpa [Tally.add, hfit] using h
  · simp [Tally.add, hfit] at h

theorem Counts.addProduct {tally : Tally} {number : Nat} (h : tally.Counts number)
    (left right : UInt64) :
    (tally.addProduct left right).Counts (number + left.toNat * right.toNat) := by
  by_cases hfit : left.toNat * right.toNat < UInt64.size
  · have hproduct : (left * right).toNat = left.toNat * right.toNat := by
      rw [UInt64.toNat_mul, Nat.mod_eq_of_lt hfit]
    rw [Tally.addProduct, if_pos hfit, ← hproduct]
    exact h.add _
  · rw [Tally.addProduct, if_neg hfit]
    exact counts_largest (by omega)

theorem counts_foldl_add (numbers : List UInt64) {tally : Tally} {number : Nat}
    (h : tally.Counts number) :
    (numbers.foldl add tally).Counts (number + (numbers.map UInt64.toNat).sum) := by
  induction numbers generalizing tally number with
  | nil => simpa using h
  | cons head tail ih =>
      have hstep := ih (h.add head)
      rwa [Nat.add_assoc] at hstep

theorem counts_foldl_addProduct (left right : Nat → UInt64) (count : Nat) :
    ((List.range count).foldl (fun tally k => tally.addProduct (left k) (right k))
      zero).Counts (∑ k ∈ Finset.range count, (left k).toNat * (right k).toNat) := by
  induction count with
  | zero => simpa using counts_zero
  | succ count ih =>
      rw [List.range_succ, List.foldl_append, Finset.sum_range_succ]
      exact ih.addProduct (left count) (right count)

/-- A tally that is flagged stands at the largest word. -/
def Saturated (tally : Tally) : Prop :=
  tally.overflow = true → tally.value = largest

theorem saturated_zero : zero.Saturated := by
  intro hflag
  cases hflag

theorem Saturated.eq_largest {tally : Tally} (h : tally.Saturated)
    (hflag : tally.overflow = true) : tally = ⟨largest, true⟩ := by
  rw [← h hflag, ← hflag]

theorem largest_add (more : UInt64) : Tally.add ⟨largest, true⟩ more = ⟨largest, true⟩ := by
  unfold Tally.add
  split
  · next hfit =>
      -- Only zero can be added to the largest word without going beyond it.
      have hlast : largest.toNat + 1 = UInt64.size := by decide
      have hzero : more = 0 := by
        apply UInt64.toNat_inj.mp
        change more.toNat = 0
        change largest.toNat + more.toNat < UInt64.size at hfit
        omega
      rw [hzero]
      rfl
  · rfl

theorem Saturated.add {tally : Tally} (h : tally.Saturated) (more : UInt64) :
    (tally.add more).Saturated := by
  intro hflag
  by_cases hbefore : tally.overflow = true
  · rw [h.eq_largest hbefore, largest_add]
  · have hlarge : ¬ tally.value.toNat + more.toNat < UInt64.size := fun hfit =>
      hbefore (by simpa [Tally.add, hfit] using hflag)
    rw [Tally.add, if_neg hlarge]

theorem Saturated.addProduct {tally : Tally} (h : tally.Saturated) (left right : UInt64) :
    (tally.addProduct left right).Saturated := by
  unfold Tally.addProduct
  split
  · exact h.add _
  · exact fun _ => rfl

theorem saturated_foldl_add (numbers : List UInt64) {tally : Tally} (h : tally.Saturated) :
    (numbers.foldl add tally).Saturated := by
  induction numbers generalizing tally with
  | nil => exact h
  | cons head tail ih => exact ih (h.add head)

theorem saturated_foldl_addProduct (left right : Nat → UInt64) (count : Nat) :
    ((List.range count).foldl (fun tally k => tally.addProduct (left k) (right k))
      zero).Saturated := by
  induction count with
  | zero => exact saturated_zero
  | succ count ih =>
      rw [List.range_succ, List.foldl_append]
      exact ih.addProduct (left count) (right count)

/-- A saturated tally of a number is that number, if it fits. -/
theorem Counts.eq_ofCount {tally : Tally} {number : Nat} (h : tally.Counts number)
    (hsaturated : tally.Saturated) : tally = ofCount number := by
  obtain ⟨value, flag⟩ := tally
  rcases h.cases with ⟨hflag, hlarge⟩ | ⟨hclear, hvalue⟩
  · have hlargest : value = largest := hsaturated hflag
    have hflag : flag = true := hflag
    rw [ofCount, if_neg (Nat.not_lt.mpr hlarge), hlargest, hflag]
  · have hvalue : value.toNat = number := hvalue
    have hclear : flag = false := hclear
    have hfit : number < UInt64.size := hvalue ▸ value.toNat_lt_size
    rw [ofCount, if_pos hfit, hclear, ← hvalue, UInt64.ofNat_toNat]

end Tally

namespace Matrix

theorem place_lt {rows cols row col : Nat} (hrow : row < rows) (hcol : col < cols) :
    row * cols + col < rows * cols := by
  calc
    row * cols + col < row * cols + cols := Nat.add_lt_add_left hcol _
    _ = (row + 1) * cols := by rw [Nat.add_mul, Nat.one_mul]
    _ ≤ rows * cols := Nat.mul_le_mul_right cols hrow

theorem place_div {cols col : Nat} (row : Nat) (hcol : col < cols) :
    (row * cols + col) / cols = row := by
  rw [Nat.mul_comm, Nat.mul_add_div (by omega), Nat.div_eq_of_lt hcol, Nat.add_zero]

theorem place_mod {cols col : Nat} (row : Nat) (hcol : col < cols) :
    (row * cols + col) % cols = col := by
  rw [Nat.mul_comm, Nat.mul_add_mod, Nat.mod_eq_of_lt hcol]

theorem entry_ofTallies {rows cols row col : Nat} (tally : Nat → Nat → Tally)
    (hrow : row < rows) (hcol : col < cols) :
    (ofTallies rows cols tally).entry row col = (tally row col).value := by
  simp [entry, get?, place, ofTallies, place_lt hrow hcol, place_div row hcol,
    place_mod row hcol]

theorem overflow_ofTallies {rows cols : Nat} (tally : Nat → Nat → Tally) :
    (ofTallies rows cols tally).overflow = true ↔
      ∃ row < rows, ∃ col < cols, (tally row col).overflow = true := by
  have hany : (ofTallies rows cols tally).overflow =
      (Array.ofFn fun index : Fin (rows * cols) =>
        tally (index / cols) (index % cols)).any (·.overflow) := rfl
  rw [hany, Array.any_eq_true]
  constructor
  · rintro ⟨index, hindex, hflag⟩
    rw [Array.size_ofFn] at hindex
    have hcols : 0 < cols := Nat.pos_of_mul_pos_left (Nat.zero_lt_of_lt hindex)
    rw [Array.getElem_ofFn] at hflag
    exact ⟨index / cols, (Nat.div_lt_iff_lt_mul hcols).mpr hindex, index % cols,
      Nat.mod_lt index hcols, hflag⟩
  · rintro ⟨row, hrow, col, hcol, hflag⟩
    refine ⟨row * cols + col, by simpa using place_lt hrow hcol, ?_⟩
    rw [Array.getElem_ofFn]
    simpa only [place_div row hcol, place_mod row hcol] using hflag

@[simp] theorem overflow_settle (matrix : Matrix) (flagged : Bool) :
    (matrix.settle flagged).overflow = (flagged || matrix.overflow) := by
  unfold settle
  split <;> simp_all

theorem settle_of_clear {matrix : Matrix} {flagged : Bool}
    (h : (matrix.settle flagged).overflow = false) : matrix.settle flagged = matrix := by
  rw [overflow_settle] at h
  rw [settle, if_neg (by simp [h])]

/-- A matrix of some exact counts, which are its entries unless it is flagged. -/
structure Exact {rows cols : Nat} (matrix : Matrix) (exact : CountMatrix rows cols) :
    Prop where
  rows_eq : matrix.rows = rows
  cols_eq : matrix.cols = cols
  entry_eq : matrix.overflow = false →
    ∀ (row : Fin rows) (col : Fin cols), (matrix.entry row col).toNat = exact row col

variable {rows inner cols size : Nat}

def counts (matrix : Matrix) (rows cols : Nat) : CountMatrix rows cols :=
  fun row col => (matrix.entry row col).toNat

theorem exact_counts {matrix : Matrix} (hrows : matrix.rows = rows)
    (hcols : matrix.cols = cols) : matrix.Exact (matrix.counts rows cols) :=
  ⟨hrows, hcols, fun _ _ _ => rfl⟩

theorem Exact.counts_eq {matrix : Matrix} {exact : CountMatrix rows cols}
    (h : matrix.Exact exact) (hclear : matrix.overflow = false) :
    matrix.counts rows cols = exact := by
  ext row col
  exact h.entry_eq hclear row col

/-- A flagged matrix with exact counts behind it is flagged for a reason of its own. -/
theorem Exact.not_large {matrix : Matrix} {exact : CountMatrix rows cols}
    (h : matrix.Exact exact) (hclear : matrix.overflow = false) : ¬ exact.Large := by
  rintro ⟨row, col, hlarge⟩
  have hlt := (matrix.entry row col).toNat_lt_size
  have heq := h.entry_eq hclear row col
  omega

/-- A matrix of tallies is flagged exactly if one of the counts does not fit. -/
theorem exact_ofTallies (exact : CountMatrix rows cols) (tally : Nat → Nat → Tally)
    (h : ∀ (row : Fin rows) (col : Fin cols), (tally row col).Counts (exact row col)) :
    (ofTallies rows cols tally).Exact exact ∧
      ((ofTallies rows cols tally).overflow = true ↔ exact.Large) := by
  have hflag : (ofTallies rows cols tally).overflow = true ↔ exact.Large := by
    rw [overflow_ofTallies]
    constructor
    · rintro ⟨row, hrow, col, hcol, hflag⟩
      exact ⟨⟨row, hrow⟩, ⟨col, hcol⟩, (h ⟨row, hrow⟩ ⟨col, hcol⟩).overflow_iff.mp hflag⟩
    · rintro ⟨row, col, hlarge⟩
      exact ⟨row, row.isLt, col, col.isLt, (h row col).overflow_iff.mpr hlarge⟩
  refine ⟨⟨rfl, rfl, ?_⟩, hflag⟩
  intro hclear row col
  rw [entry_ofTallies tally row.isLt col.isLt]
  apply (h row col).value_eq
  rw [← Bool.not_eq_true, overflow_ofTallies] at hclear
  rw [← Bool.not_eq_true]
  intro hlarge
  exact hclear ⟨row, row.isLt, col, col.isLt, hlarge⟩

/-- The result of a checked operation.  It is flagged exactly if it has to be or an exact
number does not fit, and then stores the largest word everywhere. -/
structure Settled (result : Matrix) (forced : Prop) (exact : CountMatrix rows cols) :
    Prop where
  isExact : result.Exact exact
  overflow_iff : result.overflow = true ↔ forced ∨ exact.Large
  entries_eq : result.overflow = true →
    result.entries = Array.replicate (rows * cols) Tally.largest

theorem entries_settle {matrix : Matrix} {flagged : Bool}
    (h : (matrix.settle flagged).overflow = true) :
    (matrix.settle flagged).entries =
      Array.replicate (matrix.rows * matrix.cols) Tally.largest := by
  rw [overflow_settle] at h
  rw [settle, if_pos h]

/-- Tallies settle for the exact numbers, which they need not count if they are flagged
anyway. -/
theorem settled_ofTallies (exact : CountMatrix rows cols) (tally : Nat → Nat → Tally)
    (flagged : Bool) (h : flagged = false →
      ∀ (row : Fin rows) (col : Fin cols), (tally row col).Counts (exact row col)) :
    ((ofTallies rows cols tally).settle flagged).Settled (flagged = true) exact := by
  have hentries : ((ofTallies rows cols tally).settle flagged).overflow = true →
      ((ofTallies rows cols tally).settle flagged).entries =
        Array.replicate (rows * cols) Tally.largest := entries_settle
  cases flagged with
  | true =>
      refine ⟨⟨by simp [ofTallies], by simp [ofTallies], ?_⟩, by simp, hentries⟩
      intro hclear
      simp at hclear
  | false =>
      obtain ⟨hexact, hiff⟩ := exact_ofTallies exact tally (h rfl)
      have hflag : ((ofTallies rows cols tally).settle false).overflow =
          (ofTallies rows cols tally).overflow := by simp
      refine ⟨⟨by simp [ofTallies], by simp [ofTallies], ?_⟩, by simp [hiff], hentries⟩
      intro hclear
      rw [settle_of_clear hclear]
      exact hexact.entry_eq (hflag ▸ hclear)

theorem counts_dot {left right : Matrix} {exact : CountMatrix rows inner}
    {exact' : CountMatrix inner cols} (hleft : left.Exact exact)
    (hright : right.Exact exact') (hclear : left.overflow = false)
    (hclear' : right.overflow = false) (row : Fin rows) (col : Fin cols) :
    (dot left right row col).Counts ((exact * exact') row col) := by
  have hcounts := Tally.counts_foldl_addProduct (fun k => left.entry row k)
    (fun k => right.entry k col) left.cols
  have hsum : ∑ k ∈ Finset.range left.cols,
      (left.entry row k).toNat * (right.entry k col).toNat = (exact * exact') row col := by
    rw [hleft.cols_eq, Finset.sum_range, Matrix.mul_apply]
    apply Finset.sum_congr rfl
    intro k _
    rw [hleft.entry_eq hclear row k, hright.entry_eq hclear' k col]
  rwa [hsum] at hcounts

/-- A product settles for the exact one, unless an operand is flagged. -/
theorem Exact.settled_mul {left right : Matrix} {exact : CountMatrix rows inner}
    {exact' : CountMatrix inner cols} (hleft : left.Exact exact)
    (hright : right.Exact exact') :
    ∃ product, left.mul right = .ok product ∧
      product.Settled (left.overflow = true ∨ right.overflow = true) (exact * exact') := by
  have hfit : left.cols = right.rows := hleft.cols_eq.trans hright.rows_eq.symm
  have hmul : left.mul right = .ok ((ofTallies rows cols (dot left right)).settle
      (left.overflow || right.overflow)) := by
    rw [Matrix.mul, if_pos hfit, hleft.rows_eq, hright.cols_eq]
  have hsettled := settled_ofTallies (exact * exact') (dot left right)
    (left.overflow || right.overflow) fun hflagged => by
      obtain ⟨hclear, hclear'⟩ := Bool.or_eq_false_iff.mp hflagged
      exact counts_dot hleft hright hclear hclear'
  exact ⟨_, hmul, by simpa using hsettled⟩

/-- A sum settles for the exact one, unless an operand is flagged. -/
theorem Exact.settled_add {left right : Matrix} {exact exact' : CountMatrix rows cols}
    (hleft : left.Exact exact) (hright : right.Exact exact') :
    ∃ sum, left.add right = .ok sum ∧
      sum.Settled (left.overflow = true ∨ right.overflow = true) (exact + exact') := by
  have hfit : left.rows = right.rows ∧ left.cols = right.cols :=
    ⟨hleft.rows_eq.trans hright.rows_eq.symm, hleft.cols_eq.trans hright.cols_eq.symm⟩
  have hadd : left.add right = .ok ((ofTallies rows cols fun row col =>
      (Tally.mk (left.entry row col) false).add (right.entry row col)).settle
        (left.overflow || right.overflow)) := by
    rw [Matrix.add, if_pos hfit, hleft.rows_eq, hleft.cols_eq]
  have hsettled := settled_ofTallies (exact + exact')
    (fun row col => (Tally.mk (left.entry row col) false).add (right.entry row col))
    (left.overflow || right.overflow) fun hflagged row col => by
      obtain ⟨hclear, hclear'⟩ := Bool.or_eq_false_iff.mp hflagged
      rw [Matrix.add_apply, ← hleft.entry_eq hclear row col, ← hright.entry_eq hclear' row col]
      exact (Tally.counts_mk _).add _
  exact ⟨_, hadd, by simpa using hsettled⟩

/-- A product is flagged exactly if an operand is or an exact entry of it does not
fit. -/
theorem Exact.mul {left right : Matrix} {exact : CountMatrix rows inner}
    {exact' : CountMatrix inner cols} (hleft : left.Exact exact)
    (hright : right.Exact exact') :
    ∃ product, left.mul right = .ok product ∧ product.Exact (exact * exact') ∧
      (product.overflow = true ↔
        left.overflow = true ∨ right.overflow = true ∨
          CountMatrix.Large (exact * exact')) := by
  obtain ⟨product, hmul, hsettled⟩ := hleft.settled_mul hright
  exact ⟨product, hmul, hsettled.isExact, hsettled.overflow_iff.trans or_assoc⟩

theorem sum_range_mul (f : Nat → Nat) (rows cols : Nat) :
    ∑ index ∈ Finset.range (rows * cols), f index =
      ∑ row ∈ Finset.range rows, ∑ col ∈ Finset.range cols, f (row * cols + col) := by
  induction rows with
  | zero => simp
  | succ rows ih =>
      rw [Nat.succ_mul, Finset.sum_range_add, ih, Finset.sum_range_succ]

theorem sum_entries (entries : Array UInt64) :
    (entries.toList.map UInt64.toNat).sum =
      ∑ index ∈ Finset.range entries.size, (entries[index]?.getD 0).toNat := by
  rw [← Fin.sum_univ_eq_sum_range (fun index => (entries[index]?.getD 0).toNat),
    ← List.sum_ofFn]
  congr 1
  apply List.ext_getElem
  · simp
  · intro index hleft hright
    simp

theorem overflow_of_grandSum {matrix : Matrix} (h : matrix.grandSum.overflow = false) :
    matrix.overflow = false := by
  by_cases hflag : matrix.overflow = true
  · simp [Matrix.grandSum, hflag] at h
  · exact Bool.eq_false_iff.mpr hflag

/-- The sum of a clear matrix is the exact one, or flagged because that does not
fit. -/
theorem Exact.grandSum {matrix : Matrix} {exact : CountMatrix rows cols}
    (h : matrix.Exact exact) (hclear : matrix.overflow = false) :
    matrix.grandSum.Counts (∑ row, ∑ col, exact row col) := by
  obtain ⟨rfl, rfl, hentry⟩ := h
  have hsum : (matrix.entries.toList.map UInt64.toNat).sum =
      ∑ row, ∑ col, exact row col := by
    rw [sum_entries, matrix.size_entries, sum_range_mul, Finset.sum_range]
    apply Finset.sum_congr rfl
    intro row _
    rw [Finset.sum_range]
    apply Finset.sum_congr rfl
    intro col _
    exact hentry hclear row col
  have hfold := Tally.counts_foldl_add matrix.entries.toList Tally.counts_zero
  rw [Nat.zero_add, hsum, Array.foldl_toList] at hfold
  simpa [Matrix.grandSum, hclear] using hfold

/-- The sum of a clear matrix is the exact one, or the largest word where that does not
fit. -/
theorem Exact.grandSum_eq {matrix : Matrix} {exact : CountMatrix rows cols}
    (h : matrix.Exact exact) (hclear : matrix.overflow = false) :
    matrix.grandSum = .ofCount (∑ row, ∑ col, exact row col) := by
  apply (h.grandSum hclear).eq_ofCount
  have hfold := Tally.saturated_foldl_add matrix.entries.toList Tally.saturated_zero
  rw [Array.foldl_toList] at hfold
  simpa [Matrix.grandSum, hclear] using hfold

/-- A sum is flagged exactly if the matrix is or the exact sum does not fit. -/
theorem Exact.overflow_grandSum_iff {matrix : Matrix} {exact : CountMatrix rows cols}
    (h : matrix.Exact exact) :
    matrix.grandSum.overflow = true ↔
      matrix.overflow = true ∨ UInt64.size ≤ ∑ row, ∑ col, exact row col := by
  by_cases hflag : matrix.overflow = true
  · simp [Matrix.grandSum, hflag]
  · rw [(h.grandSum (Bool.eq_false_iff.mpr hflag)).overflow_iff, or_iff_right hflag]

theorem Exact.overflow_grandSum_add_iff {matrix : Matrix} {exact : CountMatrix rows cols}
    (h : matrix.Exact exact) (more : UInt64) :
    (matrix.grandSum.add more).overflow = true ↔
      matrix.overflow = true ∨ UInt64.size ≤ ∑ row, ∑ col, exact row col + more.toNat := by
  by_cases hflag : matrix.overflow = true
  · refine iff_of_true ?_ (Or.inl hflag)
    by_contra hclear
    have hsum := Tally.overflow_of_add (Bool.eq_false_iff.mpr hclear)
    rw [overflow_of_grandSum hsum] at hflag
    cases hflag
  · have hcounts := (h.grandSum (Bool.eq_false_iff.mpr hflag)).add more
    rw [hcounts.overflow_iff, or_iff_right hflag]

end Matrix

end LineGrammar
