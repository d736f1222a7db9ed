/-
Whole numbers written with decimal digits and perhaps a sign.
-/
import LineGrammar.Number.Decimal

namespace LineGrammar

namespace Numeral

/-- The value of a nonempty run of decimal digits. -/
def digits? (text : List Char) : Option Nat :=
  if text.isEmpty || !text.all Char.isDigit then none else some (Decimal.digitsValue text)

/-- A natural number of 64 bits, with or without a plus sign. -/
def count? (text : String) : Option Nat :=
  let number := match text.toList with
    | '+' :: rest => digits? rest
    | digits => digits? digits
  number.filter (· < 0x10000000000000000)

/-- An integer of 64 bits. -/
def integer? (text : String) : Option Int :=
  let number := match text.toList with
    | '-' :: rest => (digits? rest).map fun size => -(size : Int)
    | '+' :: rest => (digits? rest).map fun size => (size : Int)
    | digits => (digits? digits).map fun size => (size : Int)
  number.filter fun number => -0x8000000000000000 ≤ number && number < 0x8000000000000000

example : count? "+12" = some 12 ∧ count? "-1" = none ∧ count? "1_000" = none := by
  decide +kernel
example : integer? "-0" = some 0 ∧ integer? "+" = none := by
  decide +kernel

end Numeral

end LineGrammar
