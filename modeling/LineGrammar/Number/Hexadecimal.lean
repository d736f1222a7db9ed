/-
Hexadecimal digits.
-/

namespace LineGrammar

namespace Hexadecimal

/-- The value of a digit of either case. -/
def value? (digit : Char) : Option Nat :=
  if '0' ≤ digit ∧ digit ≤ '9' then some (digit.toNat - 48)
  else if 'a' ≤ digit ∧ digit ≤ 'f' then some (digit.toNat - 87)
  else if 'A' ≤ digit ∧ digit ≤ 'F' then some (digit.toNat - 55)
  else none

/-- The digit of a value below sixteen, in lower case. -/
def digit (value : Nat) : Char :=
  Char.ofNat (if value < 10 then 48 + value else 87 + value)

theorem value?_digit : ∀ value < 16, value? (digit value) = some value := by
  decide

/-- A number with a given count of digits, the highest first. -/
def digits : Nat → Nat → List Char
  | 0, _ => []
  | count + 1, value => digits count (value / 16) ++ [digit (value % 16)]

def number? (text : List Char) : Option Nat :=
  text.foldl (fun number char => do return 16 * (← number) + (← value? char)) (some 0)

example : digits 4 0xbeef = ['b', 'e', 'e', 'f'] := by decide +kernel
example : number? ['b', 'E', '0'] = some 0xbe0 := by decide +kernel

end Hexadecimal

end LineGrammar
