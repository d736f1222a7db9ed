/-
How large a drawing will be, predicted without deriving it.  One derivation step
acts linearly on the counts of the symbols, so the counts at a depth are the
counts of the start word times a power of the transition matrix.  Each order to
go back to a saved pose is charged a whole bridge.
-/
import LineGrammar.Grammar
import LineGrammar.Growth.Matrix
import LineGrammar.Order

namespace LineGrammar

/-- Predicted numbers of symbols and vertices.  After an overflow both are the
largest word and mean only that the true numbers were not found. -/
structure Estimate where
  symbols : Nat
  vertices : Nat
  overflow : Bool
deriving DecidableEq, Repr

/-- The prediction when a count does not fit. -/
def Estimate.tooLarge : Estimate :=
  ⟨Tally.largest.toNat, Tally.largest.toNat, true⟩

namespace Grammar

/-- All symbols that a derivation or the turtle can meet. -/
def alphabet (grammar : Grammar) (table : Interpretation) : SymbolSet :=
  let ofRules := grammar.rules.entries.flatMap fun (symbol, successor) => symbol :: successor
  ((SymbolSet.ofList grammar.start).insertAll ofRules).insertAll table.symbols

end Grammar

/-- Whether symbols are listed in ascending order without repetition. -/
def isAscending : List Char → Bool
  | first :: second :: rest => first < second && isAscending (second :: rest)
  | _ => true

namespace Estimate

def checkAscending (symbols : List Char) : Except Fault Unit :=
  if isAscending symbols then .ok () else .error .unsortedSymbols

/-- How often a symbol, given by its place, occurs in a word. -/
def occurrences (symbols : Array Char) (word : Word) (index : Nat) : Nat :=
  match symbols[index]? with
  | some symbol => word.count symbol
  | none => 0

/-- The counts of the symbols in the start word, as one row. -/
def startVector (grammar : Grammar) (symbols : List Char) : Except Fault Matrix := do
  checkAscending symbols
  let places := symbols.toArray
  return .ofTallies 1 symbols.length fun _ col =>
    .ofCount (occurrences places grammar.start col)

/-- One row for each symbol, with the counts of the symbols in its successor. -/
def transitionMatrix (grammar : Grammar) (symbols : List Char) : Except Fault Matrix := do
  checkAscending symbols
  let places := symbols.toArray
  let successors := places.map grammar.successor
  return .ofTallies symbols.length symbols.length fun row col =>
    .ofCount (occurrences places (successors[row]?.getD []) col)

/-- One column with the vertices that each symbol adds. -/
def yieldVector (table : Interpretation) (symbols : List Char) : Except Fault Matrix := do
  checkAscending symbols
  let places := symbols.toArray
  return .ofTallies symbols.length 1 fun row _ =>
    .ofCount (match places[row]?.bind table.get? with
      | some order => order.vertexYield
      | none => 0)

/-- The prediction for a depth that counts only the given symbols. -/
def ofAlphabet (grammar : Grammar) (table : Interpretation) (symbols : List Char) (depth : Nat) :
    Except Fault Estimate := do
  let start ← startVector grammar symbols
  let transitions ← transitionMatrix grammar symbols
  let yields ← yieldVector table symbols
  let counts ← start.mul (← transitions.pow depth)
  let total := counts.grandSum
  let drawn := (← counts.mul yields).grandSum
  let vertices := drawn.add 1
  if total.overflow || vertices.overflow then return tooLarge
  else return ⟨total.value.toNat, vertices.value.toNat, false⟩

end Estimate

/-- The prediction for a depth. -/
def Grammar.estimate (grammar : Grammar) (table : Interpretation) (depth : Nat) :
    Except Fault Estimate :=
  Estimate.ofAlphabet grammar table (grammar.alphabet table).members depth

theorem isAscending_eq_true_of_pairwise {symbols : List Char}
    (h : symbols.Pairwise (· < ·)) : isAscending symbols = true := by
  induction symbols with
  | nil => rfl
  | cons first rest ih =>
      cases rest with
      | nil => rfl
      | cons second rest =>
          have hrest := List.pairwise_cons.mp h
          simp only [isAscending, Bool.and_eq_true, decide_eq_true_eq]
          exact ⟨hrest.1 second List.mem_cons_self, ih hrest.2⟩

theorem pairwise_of_isAscending {symbols : List Char} (h : isAscending symbols = true) :
    symbols.Pairwise (· < ·) := by
  induction symbols with
  | nil => exact .nil
  | cons first rest ih =>
      cases rest with
      | nil => exact List.pairwise_singleton _ _
      | cons second rest =>
          rw [isAscending, Bool.and_eq_true, decide_eq_true_eq] at h
          have hrest := ih h.2
          refine List.pairwise_cons.mpr ⟨fun symbol hsymbol => ?_, hrest⟩
          rcases List.mem_cons.mp hsymbol with rfl | hsymbol
          · exact h.1
          · exact Char.lt_trans h.1 ((List.pairwise_cons.mp hrest).1 symbol hsymbol)

namespace Estimate

theorem checkAscending_of_pairwise {symbols : List Char} (h : symbols.Pairwise (· < ·)) :
    checkAscending symbols = .ok () := by
  rw [checkAscending, if_pos (isAscending_eq_true_of_pairwise h)]

theorem checkAscending_of_not_pairwise {symbols : List Char}
    (h : ¬ symbols.Pairwise (· < ·)) : checkAscending symbols = .error .unsortedSymbols := by
  rw [checkAscending, if_neg (mt pairwise_of_isAscending h)]

end Estimate

end LineGrammar
