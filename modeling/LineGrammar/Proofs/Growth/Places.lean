/-
Matrices place by place.  Here numbers are read, stored and counted up at one row and column
after the other, and a computation ends without a result if the matrix has no such place.
That never happens, and what comes out are the products and powers that are defined all at
once.
-/
import LineGrammar.Proofs.Growth.Exact

namespace LineGrammar

/-- A computation that reads and writes places.  It has no result if one of them is not
there, and may fail with a fault otherwise. -/
abbrev Placed := ExceptT Fault Option

/-- A loop over some items goes through states that are known beforehand. -/
theorem foldlM_eq_of_states {A B : Type} {step : A → B → Option A} (states : Nat → A)
    (items : List B)
    (h : ∀ i (hi : i < items.length), step (states i) items[i] = some (states (i + 1))) :
    items.foldlM step (states 0) = some (states items.length) := by
  induction items generalizing states with
  | nil => rfl
  | cons item items ih =>
      have hrest := ih (fun i => states (i + 1)) fun i hi => h (i + 1) (Nat.succ_lt_succ hi)
      have hfirst : step (states 0) item = some (states 1) := h 0 (Nat.zero_lt_succ _)
      rw [List.foldlM_cons, hfirst]
      exact hrest

theorem foldlM_range_eq {A : Type} {step : A → Nat → Option A} (states : Nat → A) (count : Nat)
    (h : ∀ k < count, step (states k) k = some (states (k + 1))) :
    (List.range count).foldlM step (states 0) = some (states count) := by
  have hstep : ∀ k (hk : k < (List.range count).length),
      step (states k) (List.range count)[k] = some (states (k + 1)) := by
    intro k hk
    rw [List.getElem_range]
    exact h k (by simpa using hk)
  have hitems := foldlM_eq_of_states states (List.range count) hstep
  rwa [List.length_range] at hitems

namespace Tally

def replace (tallies : Nat → Nat → Tally) (row col : Nat) (tally : Tally) : Nat → Nat → Tally :=
  fun row' col' => if row' = row ∧ col' = col then tally else tallies row' col'

/-- Nothing changes a tally that is flagged. -/
theorem Saturated.addProduct_eq {tally : Tally} (h : tally.Saturated)
    (hflag : tally.overflow = true) (left right : UInt64) :
    tally.addProduct left right = tally := by
  rw [h.eq_largest hflag, Tally.addProduct, largest_add, ite_self]

theorem ofCount_succ {count : Nat} (h : count + 1 < UInt64.size) :
    ofCount (count + 1) = ⟨(ofCount count).value + 1, false⟩ := by
  rw [ofCount, ofCount, if_pos h, if_pos (Nat.lt_of_succ_lt h), UInt64.ofNat_add]
  rfl

theorem value_ofCount_eq_largest_iff (count : Nat) :
    (ofCount count).value = largest ↔ UInt64.size ≤ count + 1 := by
  have hlast : largest.toNat + 1 = UInt64.size := by decide
  unfold ofCount
  split
  · next hfit =>
      rw [← UInt64.toNat_inj, UInt64.toNat_ofNat_of_lt' hfit]
      omega
  · next hlarge => exact iff_of_true rfl (by omega)

/-- The tallies that are there when all places before one are filled, row after row. -/
def filled (tallies : Nat → Nat → Tally) (row col : Nat) : Nat → Nat → Tally :=
  fun row' col' => if row' < row ∨ row' = row ∧ col' < col then tallies row' col' else zero

theorem replace_filled (tallies : Nat → Nat → Tally) (row col : Nat) :
    replace (filled tallies row col) row col (tallies row col) =
      filled tallies row (col + 1) := by
  funext row' col'
  unfold replace filled
  by_cases hsame : row' = row ∧ col' = col
  · obtain ⟨rfl, rfl⟩ := hsame
    simp
  · rw [if_neg hsame]
    congr 1
    rw [eq_iff_iff]
    omega

end Tally

namespace Matrix

variable {rows cols : Nat}

theorem eq_of_fields {a b : Matrix} (hrows : a.rows = b.rows) (hcols : a.cols = b.cols)
    (hentries : a.entries = b.entries) (hoverflow : a.overflow = b.overflow) : a = b := by
  cases a
  cases b
  simp_all

def Has (matrix : Matrix) (row col : Nat) : Prop :=
  row < matrix.rows ∧ col < matrix.cols

instance (matrix : Matrix) (row col : Nat) : Decidable (matrix.Has row col) :=
  inferInstanceAs (Decidable (_ ∧ _))

/-- Read a place, which must be one of the matrix. -/
def read? (matrix : Matrix) (row col : Nat) : Option UInt64 :=
  if matrix.Has row col then matrix.get? row col else none

def write? (matrix : Matrix) (row col : Nat) (value : UInt64) : Option Matrix :=
  if matrix.Has row col then matrix.set? row col value else none

def countUp? (matrix : Matrix) (row col : Nat) : Option Matrix :=
  if matrix.Has row col then matrix.increment? row col else none

theorem Has.place_lt {matrix : Matrix} {row col : Nat} (h : matrix.Has row col) :
    matrix.place row col < matrix.entries.size := by
  rw [matrix.size_entries]
  exact Matrix.place_lt h.1 h.2

theorem get?_eq_some_entry {matrix : Matrix} {row col : Nat} (h : matrix.Has row col) :
    matrix.get? row col = some (matrix.entry row col) := by
  rw [entry, get?, Array.getElem?_eq_getElem h.place_lt, Option.getD_some]

theorem read?_eq_some_entry {matrix : Matrix} {row col : Nat} (h : matrix.Has row col) :
    matrix.read? row col = some (matrix.entry row col) := by
  rw [read?, if_pos h, get?_eq_some_entry h]

theorem ofTallies_congr {tallies tallies' : Nat → Nat → Tally}
    (h : ∀ row < rows, ∀ col < cols, tallies row col = tallies' row col) :
    ofTallies rows cols tallies = ofTallies rows cols tallies' := by
  have hsame : (fun index : Fin (rows * cols) => tallies (index / cols) (index % cols)) =
      fun index : Fin (rows * cols) => tallies' (index / cols) (index % cols) := by
    funext index
    have hcols : 0 < cols := Nat.pos_of_mul_pos_left (Nat.zero_lt_of_lt index.isLt)
    exact h _ ((Nat.div_lt_iff_lt_mul hcols).mpr index.isLt) _ (Nat.mod_lt _ hcols)
  simp only [ofTallies, hsame]

theorem entries_congr {tallies tallies' : Nat → Nat → Tally}
    (h : ∀ row col, (tallies row col).value = (tallies' row col).value) :
    (ofTallies rows cols tallies).entries = (ofTallies rows cols tallies').entries := by
  apply Array.ext
  · simp [ofTallies]
  · intro index hleft hright
    simpa [ofTallies] using h _ _

/-- Storing a number changes the tally of its place only. -/
theorem entries_replace (tallies : Nat → Nat → Tally) {row col : Nat} (tally : Tally)
    (hrow : row < rows) (hcol : col < cols) :
    (ofTallies rows cols tallies).entries.setIfInBounds (row * cols + col) tally.value =
      (ofTallies rows cols (Tally.replace tallies row col tally)).entries := by
  apply Array.ext
  · simp [ofTallies]
  · intro index hleft hright
    by_cases hindex : row * cols + col = index
    · subst hindex
      simp [ofTallies, Tally.replace, place_div row hcol, place_mod row hcol]
    · have hother : ¬ (index / cols = row ∧ index % cols = col) := by
        rintro ⟨rfl, rfl⟩
        exact hindex (Nat.div_add_mod' index cols)
      have hindex' : index < (ofTallies rows cols tallies).entries.size := by simpa using hleft
      rw [Array.getElem_setIfInBounds_ne hindex' hindex]
      simp [ofTallies, Tally.replace, hother]

/-- Put a tally at a place: its number is stored, and its flag is one of the matrix. -/
def put? (matrix : Matrix) (row col : Nat) (tally : Tally) : Option Matrix :=
  (matrix.write? row col tally.value).map fun matrix =>
    { matrix with overflow := matrix.overflow || tally.overflow }

/-- A tally is put in the place of another one, whose flag it must not take away. -/
theorem put?_ofTallies {tallies : Nat → Nat → Tally} {row col : Nat} {tally : Tally}
    (hrow : row < rows) (hcol : col < cols)
    (hkeep : (tallies row col).overflow = true → tally.overflow = true) :
    (ofTallies rows cols tallies).put? row col tally =
      some (ofTallies rows cols (Tally.replace tallies row col tally)) := by
  have hhas : (ofTallies rows cols tallies).Has row col := ⟨hrow, hcol⟩
  rw [put?, write?, if_pos hhas, set?, if_pos hhas.place_lt, Option.map_some, Option.some_inj]
  refine eq_of_fields rfl rfl (entries_replace tallies tally hrow hcol) ?_
  rw [Bool.eq_iff_iff, overflow_ofTallies]
  change ((ofTallies rows cols tallies).overflow || tally.overflow) = true ↔ _
  rw [Bool.or_eq_true, overflow_ofTallies]
  constructor
  · rintro (⟨row', hrow', col', hcol', hflag⟩ | hflag)
    · refine ⟨row', hrow', col', hcol', ?_⟩
      unfold Tally.replace
      split
      · next hsame => exact hkeep (hsame.1 ▸ hsame.2 ▸ hflag)
      · exact hflag
    · exact ⟨row, hrow, col, hcol, by rwa [Tally.replace, if_pos ⟨rfl, rfl⟩]⟩
  · rintro ⟨row', hrow', col', hcol', hflag⟩
    unfold Tally.replace at hflag
    split at hflag
    · exact Or.inr hflag
    · exact Or.inl ⟨row', hrow', col', hcol', hflag⟩

def fillRow? (cols : Nat) (tally? : Nat → Nat → Option Tally) (matrix : Matrix) (row : Nat) :
    Option Matrix :=
  (List.range cols).foldlM
    (fun matrix col => (tally? row col).bind (matrix.put? row col)) matrix

def fill? (rows cols : Nat) (tally? : Nat → Nat → Option Tally) : Option Matrix :=
  (List.range rows).foldlM (fillRow? cols tally?) (zeros rows cols)

theorem zeros_eq_filled (tallies : Nat → Nat → Tally) :
    zeros rows cols = ofTallies rows cols (Tally.filled tallies 0 0) :=
  ofTallies_congr fun _ _ _ _ => by simp [Tally.filled]

/-- Behind the last column of a row the next one starts. -/
theorem ofTallies_filled_row (tallies : Nat → Nat → Tally) (row : Nat) :
    ofTallies rows cols (Tally.filled tallies row cols) =
      ofTallies rows cols (Tally.filled tallies (row + 1) 0) := by
  apply ofTallies_congr
  intro row' _ col' hcol'
  unfold Tally.filled
  congr 1
  rw [eq_iff_iff]
  omega

theorem ofTallies_filled (tallies : Nat → Nat → Tally) :
    ofTallies rows cols (Tally.filled tallies rows 0) = ofTallies rows cols tallies :=
  ofTallies_congr fun row hrow _ _ => by simp [Tally.filled, hrow]

/-- The first place that is not filled yet can take any tally. -/
theorem put?_filled (tallies : Nat → Nat → Tally) {row col : Nat} (hrow : row < rows)
    (hcol : col < cols) :
    (ofTallies rows cols (Tally.filled tallies row col)).put? row col (tallies row col) =
      some (ofTallies rows cols (Tally.filled tallies row (col + 1))) := by
  rw [← Tally.replace_filled]
  apply put?_ofTallies hrow hcol
  intro hflag
  simp [Tally.filled, Tally.zero] at hflag

theorem fillRow?_eq {tally? : Nat → Nat → Option Tally} {tallies : Nat → Nat → Tally}
    {row : Nat} (hrow : row < rows)
    (h : ∀ col < cols, tally? row col = some (tallies row col)) :
    fillRow? cols tally? (ofTallies rows cols (Tally.filled tallies row 0)) row =
      some (ofTallies rows cols (Tally.filled tallies (row + 1) 0)) := by
  have hput : ∀ col < cols,
      (tally? row col).bind
          ((ofTallies rows cols (Tally.filled tallies row col)).put? row col) =
        some (ofTallies rows cols (Tally.filled tallies row (col + 1))) := by
    intro col hcol
    rw [h col hcol, Option.bind_some, put?_filled tallies hrow hcol]
  rw [← ofTallies_filled_row]
  exact foldlM_range_eq (fun col => ofTallies rows cols (Tally.filled tallies row col)) cols hput

theorem fill?_eq {tally? : Nat → Nat → Option Tally} {tallies : Nat → Nat → Tally}
    (h : ∀ row < rows, ∀ col < cols, tally? row col = some (tallies row col)) :
    fill? rows cols tally? = some (ofTallies rows cols tallies) := by
  rw [fill?, zeros_eq_filled tallies, ← ofTallies_filled tallies]
  exact foldlM_range_eq (fun row => ofTallies rows cols (Tally.filled tallies row 0)) rows
    fun row hrow => fillRow?_eq hrow (h row hrow)

/-- A loop that fills the row of each item fills the matrix. -/
theorem foldlM_zipIdx_eq {B : Type} {items : List B} {step : Matrix → B × Nat → Option Matrix}
    (tallies : Nat → Nat → Tally)
    (h : ∀ row item, items[row]? = some item →
      step (ofTallies items.length cols (Tally.filled tallies row 0)) (item, row) =
        some (ofTallies items.length cols (Tally.filled tallies (row + 1) 0))) :
    items.zipIdx.foldlM step (zeros items.length cols) =
      some (ofTallies items.length cols tallies) := by
  have hstep : ∀ row (hrow : row < items.zipIdx.length),
      step (ofTallies items.length cols (Tally.filled tallies row 0)) items.zipIdx[row] =
        some (ofTallies items.length cols (Tally.filled tallies (row + 1) 0)) := by
    intro row hrow
    rw [List.length_zipIdx] at hrow
    rw [List.getElem_zipIdx, Nat.zero_add]
    exact h row items[row] (List.getElem?_eq_getElem hrow)
  rw [zeros_eq_filled tallies, ← ofTallies_filled tallies]
  have hrows := foldlM_eq_of_states
    (fun row => ofTallies items.length cols (Tally.filled tallies row 0)) items.zipIdx hstep
  rwa [List.length_zipIdx] at hrows

/-- One entry of a product, which ends with the first number that does not fit. -/
def dot? (left right : Matrix) (row col : Nat) : Option Tally :=
  (List.range left.cols).foldlM
    (fun tally k =>
      if tally.overflow then some tally
      else do return tally.addProduct (← left.read? row k) (← right.read? k col))
    .zero

theorem dot?_eq {left right : Matrix} {row col : Nat} (h : left.cols = right.rows)
    (hrow : row < left.rows) (hcol : col < right.cols) :
    dot? left right row col = some (dot left right row col) := by
  refine foldlM_range_eq (fun count => (List.range count).foldl
    (fun (tally : Tally) k => tally.addProduct (left.entry row k) (right.entry k col))
    Tally.zero) left.cols ?_
  intro k hk
  have hsaturated := Tally.saturated_foldl_addProduct (fun k => left.entry row k)
    (fun k => right.entry k col) k
  rw [List.range_succ, List.foldl_append]
  split
  · next hflag => exact congrArg some (hsaturated.addProduct_eq hflag _ _).symm
  · rw [read?_eq_some_entry ⟨hrow, hk⟩, read?_eq_some_entry ⟨h ▸ hk, hcol⟩]
    rfl

/-- The product, with its entries stored one after the other. -/
def mul? (left right : Matrix) : Placed Matrix :=
  if left.cols = right.rows then do
    let product ← fill? left.rows right.cols (dot? left right)
    return product.settle (left.overflow || right.overflow)
  else throw (mismatch left right)

theorem mul?_eq (left right : Matrix) : left.mul? right = liftM (left.mul right) := by
  unfold mul? mul
  split
  · next h =>
      rw [fill?_eq fun row hrow col hcol => dot?_eq h hrow hcol]
      rfl
  · rfl

theorem write?_eq_put? (matrix : Matrix) (row col : Nat) (value : UInt64) :
    matrix.write? row col value = matrix.put? row col ⟨value, false⟩ := by
  unfold put?
  cases matrix.write? row col value with
  | none => rfl
  | some changed => simp

/-- Counting a place up is putting the next count there. -/
theorem countUp?_ofTallies {tallies : Nat → Nat → Tally} {row col count : Nat}
    (hrow : row < rows) (hcol : col < cols) (h : tallies row col = .ofCount count) :
    (ofTallies rows cols tallies).countUp? row col =
      some (ofTallies rows cols (Tally.replace tallies row col (.ofCount (count + 1)))) := by
  have hhas : (ofTallies rows cols tallies).Has row col := ⟨hrow, hcol⟩
  have hentry : (ofTallies rows cols tallies).entry row col = (Tally.ofCount count).value := by
    rw [entry_ofTallies tallies hrow hcol, h]
  rw [countUp?, if_pos hhas, increment?, get?_eq_some_entry hhas, hentry]
  change (if _ then _ else _) = _
  by_cases hfit : count + 1 < UInt64.size
  · have hother : (Tally.ofCount count).value ≠ Tally.largest :=
      mt (Tally.value_ofCount_eq_largest_iff count).mp (Nat.not_le_of_lt hfit)
    have hclear : (Tally.ofCount count).overflow = false := by
      rw [Tally.ofCount, if_pos (Nat.lt_of_succ_lt hfit)]
    have hset : ∀ value, (ofTallies rows cols tallies).set? row col value =
        (ofTallies rows cols tallies).put? row col ⟨value, false⟩ := by
      intro value
      rw [← write?_eq_put?, write?, if_pos hhas]
    rw [if_neg hother, hset, Tally.ofCount_succ hfit]
    exact put?_ofTallies hrow hcol (by simp [h, hclear])
  · -- The place already stands at the largest word, and only the flag is new.
    have hnext : Tally.ofCount (count + 1) = ⟨Tally.largest, true⟩ := if_neg hfit
    have hvalue : (Tally.ofCount count).value = Tally.largest :=
      (Tally.value_ofCount_eq_largest_iff count).mpr (Nat.le_of_not_lt hfit)
    rw [hvalue, if_pos rfl, hnext, Option.some_inj]
    refine eq_of_fields rfl rfl ?_ ?_
    · apply entries_congr
      intro row' col'
      unfold Tally.replace
      split
      · next hsame => rw [hsame.1, hsame.2, h, hvalue]
      · rfl
    · exact (overflow_ofTallies _).mpr ⟨row, hrow, col, hcol, by simp [Tally.replace]⟩ |>.symm

/-- The identity, with its ones stored one after the other. -/
def identity? (size : Nat) : Option Matrix :=
  (List.range size).foldlM (fun matrix row => matrix.write? row row 1) (zeros size size)

theorem identity?_eq (size : Nat) : identity? size = some (identity size) := by
  have hzeros : zeros size size = ofTallies size size fun row col =>
      .ofCount (if row = col ∧ row < 0 then 1 else 0) :=
    ofTallies_congr fun _ _ _ _ => by simp [Tally.zero, Tally.ofCount]
  rw [identity?, hzeros, foldlM_range_eq (fun count => ofTallies size size fun row col =>
    .ofCount (if row = col ∧ row < count then 1 else 0)) size, Option.some_inj]
  · exact ofTallies_congr fun row hrow _ _ => by simp [hrow]
  · intro count hcount
    rw [write?_eq_put?, put?_ofTallies hcount hcount (by simp [Tally.ofCount]), Option.some_inj]
    congr 1
    funext row col
    unfold Tally.replace
    by_cases hsame : row = count ∧ col = count
    · obtain ⟨rfl, rfl⟩ := hsame
      simp [Tally.ofCount]
    · have hbefore : row = col ∧ row < count ↔ row = col ∧ row < count + 1 := by omega
      rw [if_neg hsame]
      simp only [hbefore]

/-- The loop of `powLoop`, with products made place by place. -/
def powLoop? (base result : Matrix) (exponent : Nat) : Placed Matrix := do
  if h : exponent = 0 then return result
  else
    let result ← if exponent % 2 = 1 then result.mul? base else pure result
    let base ← if exponent / 2 = 0 then pure base else base.mul? base
    if result.overflow then return result
    else powLoop? base result (exponent / 2)
termination_by exponent
decreasing_by omega

theorem powLoop?_eq (base result : Matrix) (exponent : Nat) :
    powLoop? base result exponent = liftM (powLoop base result exponent) := by
  induction exponent using Nat.strong_induction_on generalizing base result with
  | h exponent ih =>
      rw [powLoop?, powLoop]
      by_cases hzero : exponent = 0
      · rw [dif_pos hzero, dif_pos hzero]
        rfl
      · have hhalf : exponent / 2 < exponent := by omega
        have hrest : ∀ base result : Matrix,
            (if result.overflow then pure result else powLoop? base result (exponent / 2)) =
              (liftM (if result.overflow then .ok result
                else powLoop base result (exponent / 2)) : Placed Matrix) := by
          intro base result
          split
          · rfl
          · exact ih _ hhalf base result
        rw [dif_neg hzero, dif_neg hzero]
        simp only [hrest, mul?_eq]
        -- A fault of either product ends both computations.
        split <;> split <;> cases result.mul base <;> cases base.mul base <;> rfl

def pow? (matrix : Matrix) (exponent : Nat) : Placed Matrix :=
  if matrix.rows = matrix.cols then do
    let one ← identity? matrix.rows
    powLoop? matrix { one with overflow := matrix.overflow } exponent
  else throw (mismatch matrix matrix)

theorem pow?_eq (matrix : Matrix) (exponent : Nat) :
    matrix.pow? exponent = liftM (matrix.pow exponent) := by
  unfold pow? pow
  split
  · rw [identity?_eq]
    exact powLoop?_eq _ _ _
  · rfl

end Matrix

end LineGrammar
