/-
The ways in which an operation on grammars, matrices, gradients or drawings can
be refused, and the text that reports each of them.
-/

namespace LineGrammar

/-- The largest index a key of a stepped gradient may have. -/
def largestPaletteIndex : Nat := 4095

/-- Lists whose length is prescribed by something else. -/
inductive Counted where
  | recursion
  | iterationDepths
  | transparency
  | matrixData
deriving DecidableEq, Repr

/-- The name of a list in messages. -/
def Counted.describe : Counted → String
  | recursion => "recursion array"
  | iterationDepths => "iteration depth array"
  | transparency => "transparency array"
  | matrixData => "matrix data"

/-- Why an operation was refused. -/
inductive Fault where
  | missingRule (symbol : Char)
  | lengthMismatch (what : Counted) (expected actual : Nat)
  | unsortedSymbols
  | dimensionMismatch (leftRows leftCols rightRows rightCols : Nat)
  | gradientTooShort
  | gradientTooLarge (index : Nat)
  | noSuchKey (slot : Nat)
deriving DecidableEq, Repr

namespace Fault

def message : Fault → String
  | missingRule symbol => s!"no rule for predecessor '{symbol}'"
  | lengthMismatch what expected actual =>
      s!"length mismatch: {what.describe} has {actual} entries, expected {expected}"
  | unsortedSymbols => "predecessor set must be sorted and free of duplicates"
  | dimensionMismatch leftRows leftCols rightRows rightCols =>
      s!"matrix dimension mismatch: {leftRows}x{leftCols} * {rightRows}x{rightCols}"
  | gradientTooShort => "a gradient needs at least two keys"
  | gradientTooLarge index =>
      s!"discrete gradient key index {index} exceeds the largest palette index "
        ++ s!"{largestPaletteIndex}"
  | noSuchKey slot => s!"no gradient key at slot {slot}"

end Fault

/-- Refuse a list whose length is not the prescribed one. -/
def checkLength (what : Counted) (expected actual : Nat) : Except Fault Unit :=
  if expected = actual then .ok () else .error (.lengthMismatch what expected actual)

/-- Two steps succeed exactly if the first does and the second does on its result. -/
theorem bind_eq_ok_iff {E A B : Type} (first : Except E A) (second : A → Except E B)
    (result : B) :
    (do second (← first)) = .ok result ↔
      ∃ value, first = .ok value ∧ second value = .ok result := by
  cases first with
  | error fault => simp [bind, Except.bind]
  | ok value => simp [bind, Except.bind]

theorem mapError_eq_ok_iff {E F A : Type} (rename : E → F) (step : Except E A) (result : A) :
    step.mapError rename = .ok result ↔ step = .ok result := by
  cases step with
  | error fault =>
      constructor
      · intro h
        cases h
      · intro h
        cases h
  | ok value => exact ⟨fun h => congrArg Except.ok (Except.ok.inj h),
      fun h => congrArg Except.ok (Except.ok.inj h)⟩

theorem checkLength_eq_ok_iff (what : Counted) (expected actual : Nat) :
    checkLength what expected actual = .ok () ↔ expected = actual := by
  unfold checkLength
  split <;> simp_all

end LineGrammar
