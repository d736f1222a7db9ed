/-
Plain scalars: text without quotes whose meaning depends on what it looks like.
-/
import LineGrammar.Document.Value
import LineGrammar.Number.Decimal
import LineGrammar.Number.Hexadecimal

namespace LineGrammar

namespace Plain

/-- The value of a digit in one of the bases up to sixteen. -/
def digit? (base : Nat) (char : Char) : Option Nat :=
  (Hexadecimal.value? char).filter (· < base)

/-- The value of a nonempty run of digits. -/
def digits? (base : Nat) (text : List Char) : Option Nat :=
  if text.isEmpty then none
  else text.foldl (fun value char => do return base * (← value) + (← digit? base char)) (some 0)

def dropPlus : List Char → List Char
  | '+' :: rest => rest
  | text => text

def dropSign : List Char → List Char
  | '+' :: rest | '-' :: rest => rest
  | text => text

def hasSign : List Char → Bool
  | '+' :: _ | '-' :: _ => true
  | _ => false

/-- Digits after a leading zero are text, not a number. -/
def isZeroPadded (text : List Char) : Bool :=
  match dropSign text with
  | '0' :: rest => !rest.isEmpty && rest.all Char.isDigit
  | _ => false

/-- An integer in hexadecimal, octal or binary notation, after its sign. -/
def based? : List Char → Option Nat
  | '0' :: 'x' :: rest => digits? 16 rest
  | '0' :: 'o' :: rest => digits? 8 rest
  | '0' :: 'b' :: rest => digits? 2 rest
  | _ => none

def nat? (text : List Char) : Option Nat :=
  let body := dropPlus text
  match based? body with
  | some value => some value
  | none => if isZeroPadded text then none else digits? 10 body

/-- The size of an integer with a minus sign. -/
def negative? : List Char → Option Nat
  | '-' :: body =>
      match based? body with
      | some value => some value
      | none => if isZeroPadded body then none else digits? 10 body
  | _ => none

/-- An integer by its sign and its size. -/
def integer? (text : List Char) : Option (Bool × Nat) :=
  match nat? text with
  | some value => some (false, value)
  | none => (negative? text).map fun size => (true, size)

/-- A nonnegative integer of 64 bits. -/
def unsigned? (text : List Char) : Option Nat :=
  (nat? text).filter (· < 0x10000000000000000)

/-- The power of ten after the digits of a number. -/
def power? : List Char → Option Int
  | [] => some 0
  | mark :: rest =>
      if mark = 'e' ∨ mark = 'E' then
        match rest with
        | '-' :: rest => (digits? 10 rest).map fun power => -(power : Int)
        | rest => (digits? 10 (dropPlus rest)).map fun power => (power : Int)
      else none

/-- A finite number in decimal notation.  Digits may be missing on one side of the
point. -/
def finite? (text : List Char) : Option Float :=
  let body := dropSign text
  let whole := body.takeWhile Char.isDigit
  let (fraction, rest) :=
    match body.dropWhile Char.isDigit with
    | '.' :: rest => (rest.takeWhile Char.isDigit, rest.dropWhile Char.isDigit)
    | rest => ([], rest)
  if whole.isEmpty ∧ fraction.isEmpty then none
  else do
    let size := (Decimal.ofParts whole fraction (← power? rest)).toFloat
    if size.isInf then none else some (if text.head? = some '-' then -size else size)

def infinity : Float := Float.ofBits 0x7ff0000000000000

def isInfinity (text : List Char) : Bool :=
  [".inf", ".Inf", ".INF"].any fun name => name.toList == text

def isNotANumber (text : List Char) : Bool :=
  [".nan", ".NaN", ".NAN"].any fun name => name.toList == text

/-- A number, the infinities and what is not a number among them. -/
def float? (text : List Char) : Option Float :=
  if isInfinity (dropPlus text) then some infinity
  else if text.head? = some '-' ∧ isInfinity (text.drop 1) then some (-infinity)
  else if isNotANumber text then some (0 / 0)
  else if text.head? = some '+' ∧ hasSign (text.drop 1) then none
  else finite? text

def isNull (text : String) : Bool :=
  ["", "~", "null", "Null", "NULL"].contains text

def bool? (text : String) : Option Bool :=
  if ["true", "True", "TRUE"].contains text then some true
  else if ["false", "False", "FALSE"].contains text then some false
  else none

/-- A number that is no integer, or other text. -/
def resolveRest (text : String) : Value :=
  let chars := text.toList
  if isZeroPadded chars then .text text
  else
    match float? chars with
    | some value => .float value
    | none => .text text

/-- The size at which integers with and without a minus sign stop being words of 64
bits, and the size at which they stop being integers at all. -/
def integerBounds (negative : Bool) : Nat × Nat :=
  if negative then (0x8000000000000001, 0x80000000000000000000000000000001)
  else (0x10000000000000000, 0x100000000000000000000000000000000)

/-- What a plain scalar stands for where nothing says which kind of value is
wanted.  Integers of more than 64 and up to 128 bits stand for nothing. -/
def resolve? (text : String) : Option Value :=
  if isNull text then some .null
  else
    match bool? text with
    | some value => some (.bool value)
    | none =>
        match integer? text.toList with
        | none => some (resolveRest text)
        | some (negative, size) =>
            let (word, last) := integerBounds negative
            if size < word then some (if negative then .negative size else .nat size)
            else if size < last then none
            else some (resolveRest text)

end Plain

namespace Value

mutual

/-- The value with all plain scalars resolved, if each of them stands for
something. -/
def resolve? : Value → Option Value
  | .plain scalar => Plain.resolve? scalar
  | .seq items => (resolveItems? items).map .seq
  | .map entries => (resolveEntries? entries).map .map
  | .null => some .null
  | .bool value => some (.bool value)
  | .nat value => some (.nat value)
  | .negative size => some (.negative size)
  | .float value => some (.float value)
  | .text scalar => some (.text scalar)

def resolveItems? : List Value → Option (List Value)
  | [] => some []
  | item :: rest => do return (← resolve? item) :: (← resolveItems? rest)

def resolveEntries? : List (Value × Value) → Option (List (Value × Value))
  | [] => some []
  | entry :: rest => do return (← resolveEntry? entry) :: (← resolveEntries? rest)

def resolveEntry? : Value × Value → Option (Value × Value)
  | (key, value) => do return (← resolve? key, ← resolve? value)

end

end Value

end LineGrammar
