/-
Matrices of 64-bit counts.  Arithmetic never wraps: where an entry of a result
does not fit, the result is flagged, and whatever is computed from a flagged
matrix is flagged too.
-/
import LineGrammar.Fault

namespace LineGrammar

/-- A sum that stops at the largest word and remembers that it did. -/
structure Tally where
  value : UInt64
  overflow : Bool
deriving DecidableEq, Repr

namespace Tally

def largest : UInt64 := 0xffffffffffffffff

def zero : Tally := ⟨0, false⟩

/-- A count, if it fits. -/
def ofCount (count : Nat) : Tally :=
  if count < UInt64.size then ⟨UInt64.ofNat count, false⟩ else ⟨largest, true⟩

/-- The sum with one more number. -/
def add (tally : Tally) (number : UInt64) : Tally :=
  if tally.value.toNat + number.toNat < UInt64.size then
    { tally with value := tally.value + number }
  else ⟨largest, true⟩

/-- The sum with the product of two numbers. -/
def addProduct (tally : Tally) (left right : UInt64) : Tally :=
  if left.toNat * right.toNat < UInt64.size then tally.add (left * right)
  else ⟨largest, true⟩

theorem toNat_add {tally : Tally} {number : UInt64}
    (h : tally.value.toNat + number.toNat < UInt64.size) :
    (tally.add number).value.toNat = tally.value.toNat + number.toNat := by
  rw [add, if_pos h]
  simp only [UInt64.toNat_add]
  exact Nat.mod_eq_of_lt h

end Tally

/-- A matrix of counts, row after row. -/
structure Matrix where
  rows : Nat
  cols : Nat
  entries : Array UInt64
  overflow : Bool
  size_entries : entries.size = rows * cols

namespace Matrix

instance : DecidableEq Matrix := fun a b =>
  if h : a.rows = b.rows ∧ a.cols = b.cols ∧ a.entries = b.entries ∧ a.overflow = b.overflow then
    .isTrue (by cases a; cases b; simp_all)
  else
    .isFalse (fun hab => h (hab ▸ ⟨rfl, rfl, rfl, rfl⟩))

/-- The matrix of some tallies, flagged if one of them is. -/
def ofTallies (rows cols : Nat) (tally : Nat → Nat → Tally) : Matrix :=
  let tallies := Array.ofFn fun index : Fin (rows * cols) =>
    tally (index / cols) (index % cols)
  ⟨rows, cols, tallies.map (·.value), tallies.any (·.overflow), by simp [tallies]⟩

def zeros (rows cols : Nat) : Matrix :=
  ofTallies rows cols fun _ _ => .zero

def identity (size : Nat) : Matrix :=
  ofTallies size size fun row col => .ofCount (if row = col then 1 else 0)

/-- The matrix of a list of entries, which must fill it exactly. -/
def ofRows (rows cols : Nat) (data : List UInt64) : Except Fault Matrix :=
  if h : rows * cols = data.length then
    .ok ⟨rows, cols, data.toArray, false, by simp [h]⟩
  else .error (.lengthMismatch .matrixData (rows * cols) data.length)

/-- The place of an entry in storage.  A column beyond the last belongs to a
later row. -/
def place (matrix : Matrix) (row col : Nat) : Nat :=
  row * matrix.cols + col

/-- The stored number at a place of the storage, if there is one. -/
def get? (matrix : Matrix) (row col : Nat) : Option UInt64 :=
  matrix.entries[matrix.place row col]?

def entry (matrix : Matrix) (row col : Nat) : UInt64 :=
  (matrix.get? row col).getD 0

/-- Store a number, if the place exists. -/
def set? (matrix : Matrix) (row col : Nat) (value : UInt64) : Option Matrix :=
  if matrix.place row col < matrix.entries.size then
    some { matrix with
      entries := matrix.entries.setIfInBounds (matrix.place row col) value
      size_entries := by simp [matrix.size_entries] }
  else none

/-- Count an entry up by one, if the place exists.  The largest word stays as it
is and flags the matrix. -/
def increment? (matrix : Matrix) (row col : Nat) : Option Matrix :=
  match matrix.get? row col with
  | none => none
  | some value =>
      if value = Tally.largest then some { matrix with overflow := true }
      else matrix.set? row col (value + 1)

/-- A flagged result stores the largest word everywhere. -/
def settle (matrix : Matrix) (flagged : Bool) : Matrix :=
  if flagged || matrix.overflow then
    { matrix with
      entries := Array.replicate (matrix.rows * matrix.cols) Tally.largest
      overflow := true
      size_entries := by simp }
  else matrix

/-- One entry of a product. -/
def dot (left right : Matrix) (row col : Nat) : Tally :=
  (List.range left.cols).foldl
    (fun tally k => tally.addProduct (left.entry row k) (right.entry k col)) .zero

def mismatch (left right : Matrix) : Fault :=
  .dimensionMismatch left.rows left.cols right.rows right.cols

def mul (left right : Matrix) : Except Fault Matrix :=
  if left.cols = right.rows then
    .ok ((ofTallies left.rows right.cols (dot left right)).settle
      (left.overflow || right.overflow))
  else .error (mismatch left right)

/-- The sum entry by entry. -/
def add (left right : Matrix) : Except Fault Matrix :=
  if left.rows = right.rows ∧ left.cols = right.cols then
    .ok ((ofTallies left.rows left.cols fun row col =>
      (Tally.mk (left.entry row col) false).add (right.entry row col)).settle
        (left.overflow || right.overflow))
  else .error (mismatch left right)

/-- `result * base ^ exponent`, squaring the base for each bit of the exponent.
A flagged result is final. -/
def powLoop (base result : Matrix) (exponent : Nat) : Except Fault Matrix := do
  if h : exponent = 0 then return result
  else
    let result ← if exponent % 2 = 1 then result.mul base else .ok result
    let base ← if exponent / 2 = 0 then .ok base else base.mul base
    if result.overflow then return result
    else powLoop base result (exponent / 2)
termination_by exponent
decreasing_by omega

def pow (matrix : Matrix) (exponent : Nat) : Except Fault Matrix :=
  if matrix.rows = matrix.cols then
    powLoop matrix { identity matrix.rows with overflow := matrix.overflow } exponent
  else .error (mismatch matrix matrix)

/-- The sum of all entries; a flagged matrix has no smaller sum than the largest
word. -/
def grandSum (matrix : Matrix) : Tally :=
  if matrix.overflow then ⟨Tally.largest, true⟩
  else matrix.entries.foldl Tally.add .zero

@[simp] theorem rows_settle (matrix : Matrix) (flagged : Bool) :
    (matrix.settle flagged).rows = matrix.rows := by
  unfold settle
  split <;> rfl

@[simp] theorem cols_settle (matrix : Matrix) (flagged : Bool) :
    (matrix.settle flagged).cols = matrix.cols := by
  unfold settle
  split <;> rfl

example : ((ofRows 2 2 [1, 1, 1, 0]).bind (pow · 10)).toOption.map (·.entries) =
    some #[89, 55, 55, 34] := by
  decide +kernel

end Matrix

end LineGrammar
