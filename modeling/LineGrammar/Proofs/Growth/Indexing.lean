/-
Symbols as rows and columns.  A symbol is looked up in a list by halving, and what is
counted for it goes to the row or column of its place.  If the list ascends, then all that
is built this way is what the counts say, and no row or column is missing.
-/
import LineGrammar.Proofs.Growth.Counting
import LineGrammar.Proofs.Growth.Places
import LineGrammar.Proofs.LSystem.History

namespace LineGrammar

namespace Tally

def withRow (tallies : Nat → Nat → Tally) (row : Nat) (counts : Nat → Nat) :
    Nat → Nat → Tally :=
  fun row' col' => if row' = row then .ofCount (counts col') else tallies row' col'

theorem withRow_filled_zero (tallies : Nat → Nat → Tally) (row : Nat) :
    withRow (filled tallies row 0) row (fun _ => 0) = filled tallies row 0 := by
  funext row' col'
  unfold withRow
  split
  · next hsame => simp [hsame, filled, zero, ofCount]
  · rfl

/-- The next row is filled with the counts that belong into it. -/
theorem withRow_filled {tallies : Nat → Nat → Tally} {row : Nat} {counts : Nat → Nat}
    (h : ∀ col, tallies row col = .ofCount (counts col)) :
    withRow (filled tallies row 0) row counts = filled tallies (row + 1) 0 := by
  funext row' col'
  unfold withRow
  split
  · next hsame => simp [hsame, filled, h]
  · next hother =>
      have hbefore : row' < row + 1 ↔ row' < row := by omega
      simp [filled, hbefore]

end Tally

namespace Estimate

/-- The place of a symbol from a place on and before another one. -/
def placeBetween? (symbols : Array Char) (symbol : Char) (low high : Nat) : Option Nat :=
  if low < high then
    let middle := (low + high) / 2
    match symbols[middle]? with
    | none => none
    | some met =>
        if met = symbol then some middle
        else if met < symbol then placeBetween? symbols symbol (middle + 1) high
        else placeBetween? symbols symbol low middle
  else none
termination_by high - low
decreasing_by all_goals omega

def placeOf? (symbols : Array Char) (symbol : Char) : Option Nat :=
  placeBetween? symbols symbol 0 symbols.size

/-- In an ascending list the order of the places is that of the symbols. -/
theorem place_lt_iff {symbols : List Char} (hascending : symbols.Pairwise (· < ·))
    {i j : Nat} {a b : Char} (ha : symbols[i]? = some a) (hb : symbols[j]? = some b) :
    i < j ↔ a < b := by
  obtain ⟨hi, rfl⟩ := List.getElem?_eq_some_iff.mp ha
  obtain ⟨hj, rfl⟩ := List.getElem?_eq_some_iff.mp hb
  have hmono := List.pairwise_iff_getElem.mp hascending
  constructor
  · exact hmono i j hi hj
  · intro hlt
    rcases Nat.lt_trichotomy i j with hij | rfl | hji
    · exact hij
    · exact absurd hlt (Char.lt_irrefl _)
    · exact absurd hlt (Char.lt_asymm (hmono j i hj hi hji))

/-- Halving finds what lies between its bounds. -/
theorem placeBetween?_eq_some_iff {symbols : List Char}
    (hascending : symbols.Pairwise (· < ·)) (symbol : Char) (low high place : Nat)
    (hhigh : high ≤ symbols.length) :
    placeBetween? symbols.toArray symbol low high = some place ↔
      low ≤ place ∧ place < high ∧ symbols[place]? = some symbol := by
  fun_induction placeBetween? symbols.toArray symbol low high with
  | case1 low high hlt middle hmet =>
      rw [List.getElem?_toArray, List.getElem?_eq_none_iff] at hmet
      omega
  | case2 low high hlt middle hmet =>
      rw [List.getElem?_toArray] at hmet
      rw [Option.some_inj]
      constructor
      · rintro rfl
        exact ⟨by omega, by omega, hmet⟩
      · rintro ⟨-, -, hplace⟩
        have hnot := mt (place_lt_iff hascending hmet hplace).mp (Char.lt_irrefl _)
        have hnot' := mt (place_lt_iff hascending hplace hmet).mp (Char.lt_irrefl _)
        omega
  | case3 low high hlt middle met hmet hne hless ih =>
      rw [List.getElem?_toArray] at hmet
      rw [ih hhigh]
      constructor
      · rintro ⟨hlow, hplace⟩
        exact ⟨by omega, hplace⟩
      · rintro ⟨-, hplace, hsymbol⟩
        have hbeyond := (place_lt_iff hascending hmet hsymbol).mpr hless
        exact ⟨hbeyond, hplace, hsymbol⟩
  | case4 low high hlt middle met hmet hne hless ih =>
      rw [List.getElem?_toArray] at hmet
      rw [ih (by omega)]
      constructor
      · rintro ⟨hlow, hplace, hsymbol⟩
        exact ⟨hlow, by omega, hsymbol⟩
      · rintro ⟨hlow, -, hsymbol⟩
        have hmore : symbol < met :=
          Std.lt_of_le_of_ne (Char.not_lt.mp hless) (Ne.symm hne)
        exact ⟨hlow, (place_lt_iff hascending hsymbol hmet).mpr hmore, hsymbol⟩
  | case5 low high hlt => simp; omega

/-- In an ascending list every symbol is found at its place. -/
theorem placeOf?_eq_some_iff {symbols : List Char} (hascending : symbols.Pairwise (· < ·))
    (symbol : Char) (place : Nat) :
    placeOf? symbols.toArray symbol = some place ↔ symbols[place]? = some symbol := by
  rw [placeOf?, List.size_toArray,
    placeBetween?_eq_some_iff hascending symbol _ _ _ (Nat.le_refl _)]
  constructor
  · exact fun h => h.2.2
  · intro h
    exact ⟨Nat.zero_le _, (List.getElem?_eq_some_iff.mp h).1, h⟩

/-- Count a symbol in a row; one that is not listed is left out. -/
def countSymbol? (symbols : Array Char) (row : Nat) (matrix : Matrix) (symbol : Char) :
    Option Matrix :=
  match placeOf? symbols symbol with
  | some col => matrix.countUp? row col
  | none => some matrix

def countWord? (symbols : Array Char) (row : Nat) (matrix : Matrix) (word : Word) :
    Option Matrix :=
  word.foldlM (countSymbol? symbols row) matrix

/-- Put the successor of a symbol into its row; one without a rule stays as it is. -/
def transitionRow? (grammar : Grammar) (symbols : Array Char) (matrix : Matrix)
    (entry : Char × Nat) : Option Matrix :=
  match grammar.rules.get? entry.1 with
  | some successor => countWord? symbols entry.2 matrix successor
  | none => matrix.write? entry.2 entry.2 1

def yieldRow? (table : Interpretation) (matrix : Matrix) (entry : Char × Nat) :
    Option Matrix :=
  match table.get? entry.1 with
  | some order => matrix.write? entry.2 0 (UInt64.ofNat order.vertexYield)
  | none => some matrix

def startVector? (grammar : Grammar) (symbols : List Char) : Placed Matrix := do
  checkAscending symbols
  countWord? symbols.toArray 0 (.zeros 1 symbols.length) grammar.start

def transitionMatrix? (grammar : Grammar) (symbols : List Char) : Placed Matrix := do
  checkAscending symbols
  (symbols.zipIdx.foldlM (transitionRow? grammar symbols.toArray)
    (.zeros symbols.length symbols.length) : Option Matrix)

def yieldVector? (table : Interpretation) (symbols : List Char) : Placed Matrix := do
  checkAscending symbols
  (symbols.zipIdx.foldlM (yieldRow? table) (.zeros symbols.length 1) : Option Matrix)

/-- The prediction of `ofAlphabet`, computed place by place. -/
def ofAlphabet? (grammar : Grammar) (table : Interpretation) (symbols : List Char)
    (depth : Nat) : Placed Estimate := do
  let start ← startVector? grammar symbols
  let transitions ← transitionMatrix? grammar symbols
  let yields ← yieldVector? table symbols
  let counts ← start.mul? (← transitions.pow? depth)
  let total := counts.grandSum
  let drawn := (← counts.mul? yields).grandSum
  let vertices := drawn.add 1
  if total.overflow || vertices.overflow then return tooLarge
  else return ⟨total.value.toNat, vertices.value.toNat, false⟩

section Ascending

variable {symbols : List Char} (hascending : symbols.Pairwise (· < ·))
include hascending

theorem occurrences_cons (symbol : Char) (word : Word) (col : Nat) :
    occurrences symbols.toArray (symbol :: word) col =
      occurrences symbols.toArray word col +
        if placeOf? symbols.toArray symbol = some col then 1 else 0 := by
  rw [occurrences, occurrences, List.getElem?_toArray]
  cases hmet : symbols[col]? with
  | none => rw [if_neg (by simp [placeOf?_eq_some_iff hascending, hmet])]
  | some met =>
      have hplace : placeOf? symbols.toArray symbol = some col ↔ symbol = met := by
        rw [placeOf?_eq_some_iff hascending, hmet, Option.some_inj]
        exact eq_comm
      simp only [hplace, List.count_cons, beq_iff_eq]

/-- Counting a symbol changes the counts of its row by one where it stands. -/
theorem countSymbol?_eq {rows row : Nat} (hrow : row < rows) (tallies : Nat → Nat → Tally)
    (counts : Nat → Nat) (symbol : Char) :
    countSymbol? symbols.toArray row
        (.ofTallies rows symbols.length (Tally.withRow tallies row counts)) symbol =
      some (.ofTallies rows symbols.length (Tally.withRow tallies row fun col =>
        counts col + if placeOf? symbols.toArray symbol = some col then 1 else 0)) := by
  unfold countSymbol?
  cases hplace : placeOf? symbols.toArray symbol with
  | none => simp
  | some col =>
      have hsymbol := (placeOf?_eq_some_iff hascending symbol col).mp hplace
      have hcol := (List.getElem?_eq_some_iff.mp hsymbol).1
      dsimp only
      rw [Matrix.countUp?_ofTallies hrow hcol (if_pos rfl), Option.some_inj]
      congr 1
      funext row' col'
      unfold Tally.replace Tally.withRow
      by_cases hrow' : row' = row
      · by_cases hcol' : col' = col
        · simp [hrow', hcol']
        · simp [hrow', hcol', Ne.symm hcol']
      · simp [hrow']

theorem countWord?_eq {rows row : Nat} (hrow : row < rows) (tallies : Nat → Nat → Tally)
    (counts : Nat → Nat) (word : Word) :
    countWord? symbols.toArray row
        (.ofTallies rows symbols.length (Tally.withRow tallies row counts)) word =
      some (.ofTallies rows symbols.length (Tally.withRow tallies row fun col =>
        counts col + occurrences symbols.toArray word col)) := by
  induction word generalizing counts with
  | nil =>
      have hnone : ∀ col, occurrences symbols.toArray [] col = 0 := by
        intro col
        unfold occurrences
        split <;> rfl
      simp only [hnone, Nat.add_zero]
      rfl
  | cons symbol word ih =>
      have hrest : ∀ matrix, countWord? symbols.toArray row matrix (symbol :: word) =
          (countSymbol? symbols.toArray row matrix symbol).bind
            (countWord? symbols.toArray row · word) := fun _ => rfl
      rw [hrest, countSymbol?_eq hascending hrow, Option.bind_some, ih]
      simp only [occurrences_cons hascending, Nat.add_assoc, Nat.add_comm (occurrences _ _ _)]

/-- A row that holds nothing yet is filled by counting. -/
theorem countWord?_filled {rows row : Nat} {tallies : Nat → Nat → Tally} {word : Word}
    (hrow : row < rows)
    (h : ∀ col, tallies row col = .ofCount (occurrences symbols.toArray word col)) :
    countWord? symbols.toArray row
        (.ofTallies rows symbols.length (Tally.filled tallies row 0)) word =
      some (.ofTallies rows symbols.length (Tally.filled tallies (row + 1) 0)) := by
  have hcounted := countWord?_eq hascending hrow (Tally.filled tallies row 0) (fun _ => 0) word
  simp only [Nat.zero_add] at hcounted
  rwa [Tally.withRow_filled_zero, Tally.withRow_filled h] at hcounted

def startTallies (grammar : Grammar) (symbols : List Char) : Nat → Nat → Tally :=
  fun _ col => .ofCount (occurrences symbols.toArray grammar.start col)

theorem startVector?_eq (grammar : Grammar) :
    startVector? grammar symbols = liftM (startVector grammar symbols) := by
  let tallies := startTallies grammar symbols
  have htallies : ∀ col, tallies 0 col =
      .ofCount (occurrences symbols.toArray grammar.start col) := fun _ => rfl
  have hcounted := countWord?_filled hascending Nat.zero_lt_one htallies
  rw [← Matrix.zeros_eq_filled, Matrix.ofTallies_filled] at hcounted
  rw [startVector?, startVector, checkAscending_of_pairwise hascending, hcounted]
  rfl

/-- The counts of the successors, row after row. -/
def transitionTallies (grammar : Grammar) (symbols : List Char) : Nat → Nat → Tally :=
  fun row col => .ofCount
    (occurrences symbols.toArray
      ((symbols.toArray.map grammar.successor)[row]?.getD []) col)

theorem transitionRow?_eq (grammar : Grammar) {row : Nat} {symbol : Char}
    (hsymbol : symbols[row]? = some symbol) :
    let tallies := transitionTallies grammar symbols
    transitionRow? grammar symbols.toArray
        (.ofTallies symbols.length symbols.length (Tally.filled tallies row 0)) (symbol, row) =
      some (.ofTallies symbols.length symbols.length (Tally.filled tallies (row + 1) 0)) := by
  intro tallies
  have hrow : row < symbols.length := (List.getElem?_eq_some_iff.mp hsymbol).1
  have hplace := (placeOf?_eq_some_iff hascending symbol row).mpr hsymbol
  have htallies : ∀ col, tallies row col =
      .ofCount (occurrences symbols.toArray (grammar.successor symbol) col) := by
    intro col
    simp [tallies, transitionTallies, hsymbol]
  rw [← countWord?_filled hascending hrow htallies]
  unfold transitionRow? Grammar.successor
  cases hrule : grammar.rules.get? symbol with
  | some successor => rfl
  | none =>
      -- Storing a one is counting the symbol itself.
      have hself : ∀ matrix : Matrix, countWord? symbols.toArray row matrix [symbol] =
          matrix.countUp? row row := by
        intro matrix
        have hsingle : countWord? symbols.toArray row matrix [symbol] =
            (countSymbol? symbols.toArray row matrix symbol).bind some := rfl
        rw [hsingle, Option.bind_fun_some, countSymbol?, hplace]
      have hzero : Tally.filled tallies row 0 row row = .ofCount 0 := by
        simp [Tally.filled, Tally.zero, Tally.ofCount]
      have hone : Tally.ofCount (0 + 1) = ⟨1, false⟩ := by decide
      dsimp only
      rw [Option.getD_none, hself, Matrix.countUp?_ofTallies hrow hrow hzero, hone,
        Matrix.write?_eq_put?, Matrix.put?_ofTallies hrow hrow (by simp [hzero, Tally.ofCount])]

theorem transitionMatrix?_eq (grammar : Grammar) :
    transitionMatrix? grammar symbols = liftM (transitionMatrix grammar symbols) := by
  have hrows := Matrix.foldlM_zipIdx_eq (transitionTallies grammar symbols)
    fun row symbol hsymbol => transitionRow?_eq hascending grammar hsymbol
  rw [transitionMatrix?, transitionMatrix, checkAscending_of_pairwise hascending, hrows]
  rfl

end Ascending

def yieldTallies (table : Interpretation) (symbols : List Char) : Nat → Nat → Tally :=
  fun row _ => .ofCount (match symbols.toArray[row]?.bind table.get? with
    | some order => order.vertexYield
    | none => 0)

theorem yieldRow?_eq (table : Interpretation) {symbols : List Char} {row : Nat} {symbol : Char}
    (hsymbol : symbols[row]? = some symbol) :
    let tallies := yieldTallies table symbols
    yieldRow? table (.ofTallies symbols.length 1 (Tally.filled tallies row 0)) (symbol, row) =
      some (.ofTallies symbols.length 1 (Tally.filled tallies (row + 1) 0)) := by
  intro tallies
  have hrow : row < symbols.length := (List.getElem?_eq_some_iff.mp hsymbol).1
  have hput := Matrix.put?_filled tallies hrow Nat.zero_lt_one
  rw [Matrix.ofTallies_filled_row] at hput
  unfold yieldRow?
  cases horder : table.get? symbol with
  | some order =>
      have hyield : tallies row 0 = ⟨UInt64.ofNat order.vertexYield, false⟩ := by
        have hfit : order.vertexYield < UInt64.size := by cases order <;> decide
        simp only [tallies, yieldTallies, List.getElem?_toArray, hsymbol, Option.bind_some, horder]
        exact if_pos hfit
      dsimp only
      rw [Matrix.write?_eq_put?, ← hyield, hput]
  | none =>
      have hzero : ∀ col, tallies row col = .ofCount 0 := by
        intro col
        simp [tallies, yieldTallies, hsymbol, horder]
      have hkept : Tally.filled tallies row 0 = Tally.filled tallies (row + 1) 0 :=
        (Tally.withRow_filled_zero tallies row).symm.trans (Tally.withRow_filled hzero)
      dsimp only
      rw [hkept]

theorem yieldVector?_eq (table : Interpretation) {symbols : List Char}
    (hascending : symbols.Pairwise (· < ·)) :
    yieldVector? table symbols = liftM (yieldVector table symbols) := by
  have hrows := Matrix.foldlM_zipIdx_eq (yieldTallies table symbols)
    fun row symbol hsymbol => yieldRow?_eq table hsymbol
  rw [yieldVector?, yieldVector, checkAscending_of_pairwise hascending, hrows]
  rfl

theorem ofAlphabet?_eq (grammar : Grammar) (table : Interpretation) {symbols : List Char}
    (hascending : symbols.Pairwise (· < ·)) (depth : Nat) :
    ofAlphabet? grammar table symbols depth =
      liftM (ofAlphabet grammar table symbols depth) := by
  have hchoice : ∀ (flagged : Bool) (estimate estimate' : Estimate),
      (liftM (if flagged then pure estimate else pure estimate' : Except Fault Estimate) :
        Placed Estimate) = if flagged then pure estimate else pure estimate' := by
    intro flagged estimate estimate'
    cases flagged <;> rfl
  simp only [ofAlphabet?, ofAlphabet, startVector?_eq hascending,
    transitionMatrix?_eq hascending, yieldVector?_eq table hascending, Matrix.mul?_eq,
    Matrix.pow?_eq, liftM_bind, hchoice]

/-- A computation that needs an ascending list of symbols.  Carried out place by place it
finds all of them, and it fails exactly if the list does not ascend, with the fault that says
so. -/
structure NeedsAscending {A : Type} (symbols : List Char) (result : Except Fault A)
    (placed : Placed A) : Prop where
  run_eq : placed.run = some result
  error_iff : ∀ fault, result = .error fault ↔
    ¬ symbols.Pairwise (· < ·) ∧ fault = .unsortedSymbols

theorem needsAscending {A : Type} {symbols : List Char} {result : Except Fault A}
    {placed : Placed A}
    (hascending : symbols.Pairwise (· < ·) →
      placed = liftM result ∧ ∃ value, result = .ok value)
    (hother : checkAscending symbols = .error .unsortedSymbols →
      placed = throw .unsortedSymbols ∧ result = .error .unsortedSymbols) :
    NeedsAscending symbols result placed := by
  by_cases h : symbols.Pairwise (· < ·)
  · obtain ⟨rfl, value, rfl⟩ := hascending h
    exact ⟨rfl, fun fault => by simp [h]⟩
  · obtain ⟨rfl, rfl⟩ := hother (checkAscending_of_not_pairwise h)
    exact ⟨rfl, fun fault => by simp [h, eq_comm]⟩

theorem needsAscending_startVector (grammar : Grammar) (symbols : List Char) :
    NeedsAscending symbols (startVector grammar symbols) (startVector? grammar symbols) := by
  apply needsAscending
  · intro h
    obtain ⟨start, hstart, -⟩ := exact_startVector grammar (checkAscending_of_pairwise h)
    exact ⟨startVector?_eq h grammar, start, hstart⟩
  · intro hcheck
    rw [startVector?, startVector, hcheck]
    exact ⟨rfl, rfl⟩

theorem needsAscending_transitionMatrix (grammar : Grammar) (symbols : List Char) :
    NeedsAscending symbols (transitionMatrix grammar symbols)
      (transitionMatrix? grammar symbols) := by
  apply needsAscending
  · intro h
    obtain ⟨transitions, htransitions, -⟩ :=
      exact_transitionMatrix grammar (checkAscending_of_pairwise h)
    exact ⟨transitionMatrix?_eq h grammar, transitions, htransitions⟩
  · intro hcheck
    rw [transitionMatrix?, transitionMatrix, hcheck]
    exact ⟨rfl, rfl⟩

theorem needsAscending_yieldVector (table : Interpretation) (symbols : List Char) :
    NeedsAscending symbols (yieldVector table symbols) (yieldVector? table symbols) := by
  apply needsAscending
  · intro h
    obtain ⟨yields, hyields, -⟩ := exact_yieldVector table (checkAscending_of_pairwise h)
    exact ⟨yieldVector?_eq table h, yields, hyields⟩
  · intro hcheck
    rw [yieldVector?, yieldVector, hcheck]
    exact ⟨rfl, rfl⟩

theorem needsAscending_ofAlphabet (grammar : Grammar) (table : Interpretation)
    (symbols : List Char) (depth : Nat) :
    NeedsAscending symbols (ofAlphabet grammar table symbols depth)
      (ofAlphabet? grammar table symbols depth) := by
  apply needsAscending
  · intro h
    obtain ⟨estimate, hestimate, -⟩ := ofAlphabet_exact grammar table h depth
    exact ⟨ofAlphabet?_eq grammar table h depth, estimate, hestimate⟩
  · intro hcheck
    rw [ofAlphabet?, ofAlphabet, startVector?, startVector, hcheck]
    exact ⟨rfl, rfl⟩

end Estimate

namespace LSystem

/-- Each table and each prediction needs an ascending list of symbols and nothing else.  The
alphabet of a system ascends, holds every symbol of every derived word, and is therefore
never refused. -/
theorem needsAscending_estimates {system : LSystem} (hsystem : system.Reachable)
    (table : Interpretation) (symbols : List Char) (depth : Nat) :
    Estimate.NeedsAscending symbols (Estimate.startVector system.grammar symbols)
        (Estimate.startVector? system.grammar symbols) ∧
      Estimate.NeedsAscending symbols (Estimate.transitionMatrix system.grammar symbols)
        (Estimate.transitionMatrix? system.grammar symbols) ∧
      Estimate.NeedsAscending symbols (Estimate.yieldVector table symbols)
        (Estimate.yieldVector? table symbols) ∧
      Estimate.NeedsAscending symbols (Estimate.ofAlphabet system.grammar table symbols depth)
        (Estimate.ofAlphabet? system.grammar table symbols depth) ∧
      (system.grammar.alphabet table).members.Pairwise (· < ·) ∧
      (∀ d, ∀ symbol ∈ system.derivedAt d,
        symbol ∈ (system.grammar.alphabet table).members) ∧
      ∃ estimate, system.grammar.estimate table depth = .ok estimate := by
  refine ⟨Estimate.needsAscending_startVector _ _, Estimate.needsAscending_transitionMatrix _ _,
    Estimate.needsAscending_yieldVector _ _, Estimate.needsAscending_ofAlphabet _ _ _ _,
    (system.grammar.alphabet table).ascending, ?_, ?_⟩
  · rw [hsystem.derivedAt_eq]
    exact (system.grammar.covers_alphabet table).mem_wordAt
  · obtain ⟨estimate, hestimate, -⟩ := system.grammar.estimate_exact table depth
    exact ⟨estimate, hestimate⟩

/-- Symbols in the wrong order and a symbol listed twice are refused; the alphabet is not. -/
theorem needsAscending_estimates_refused :
    let system := (ofRules ['F'] [('F', ['F', '+', 'G'])] ['F']).run [.produce 2]
    let table : Interpretation := .ofList [('F', .goForward)]
    system.Reachable ∧
      Estimate.startVector system.grammar ['G', 'F'] = .error .unsortedSymbols ∧
      Estimate.transitionMatrix system.grammar ['F', 'F'] = .error .unsortedSymbols ∧
      Estimate.yieldVector table ['G', 'F'] = .error .unsortedSymbols ∧
      (Estimate.ofAlphabet? system.grammar table ['G', 'F'] 3).run =
        some (.error .unsortedSymbols) ∧
      (∀ d, ∀ symbol ∈ system.derivedAt d,
        symbol ∈ (system.grammar.alphabet table).members) ∧
      ∃ estimate, system.grammar.estimate table 3 = .ok estimate := by
  intro system table
  have hreachable : system.Reachable := ⟨_, _, _, _, rfl⟩
  have hfalling : ¬ ['G', 'F'].Pairwise (· < ·) := by decide
  have htwice : ¬ ['F', 'F'].Pairwise (· < ·) := by decide
  obtain ⟨hstart, -, hyields, hprediction, -, halphabet, hestimate⟩ :=
    needsAscending_estimates hreachable table ['G', 'F'] 3
  obtain ⟨-, htransitions, -⟩ := needsAscending_estimates hreachable table ['F', 'F'] 3
  refine ⟨hreachable, (hstart.error_iff _).mpr ⟨hfalling, rfl⟩,
    (htransitions.error_iff _).mpr ⟨htwice, rfl⟩, (hyields.error_iff _).mpr ⟨hfalling, rfl⟩,
    ?_, halphabet, hestimate⟩
  rw [hprediction.run_eq, (hprediction.error_iff _).mpr ⟨hfalling, rfl⟩]

end LSystem

end LineGrammar
