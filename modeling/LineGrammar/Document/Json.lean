/-
JSON texts.  The reader keeps integers apart from numbers with a fraction or a
power of ten; integers beyond 64 bits, and a negative zero, become doubles.  The
writer gives each double the fewest digits that read back.
-/
import LineGrammar.Document.Value
import LineGrammar.Number.Decimal
import LineGrammar.Number.Hexadecimal

namespace LineGrammar

namespace Json

def skipBlanks : List Char → List Char
  | ' ' :: rest | '\n' :: rest | '\r' :: rest | '\t' :: rest => skipBlanks rest
  | rest => rest

/-- The 16-bit unit of four hexadecimal digits. -/
def unit? (a b c d : Char) : Option Nat :=
  Hexadecimal.number? [a, b, c, d]

/-- The character a backslash and a letter stand for. -/
def simpleEscape? : Char → Option Char
  | '"' => some '"'
  | '\\' => some '\\'
  | '/' => some '/'
  | 'b' => some '\x08'
  | 'f' => some '\x0c'
  | 'n' => some '\n'
  | 'r' => some '\r'
  | 't' => some '\t'
  | _ => none

/-- The text up to the closing quote, given what was read before, latest first.
Two units of a surrogate pair are one character; a unit of a pair on its own is
refused, and so are control characters. -/
def stringBody (read : List Char) : List Char → Option (String × List Char)
  | '"' :: rest => some (String.ofList read.reverse, rest)
  | '\\' :: 'u' :: a :: b :: c :: d :: '\\' :: 'u' :: e :: f :: g :: h :: rest =>
      match unit? a b c d, unit? e f g h with
      | some first, some second =>
          if 0xd800 ≤ first ∧ first < 0xdc00 then
            if 0xdc00 ≤ second ∧ second < 0xe000 then
              let code := 0x10000 + (first - 0xd800) * 0x400 + (second - 0xdc00)
              stringBody (Char.ofNat code :: read) rest
            else none
          else if 0xdc00 ≤ first ∧ first < 0xe000 then none
          else stringBody (Char.ofNat first :: read) ('\\' :: 'u' :: e :: f :: g :: h :: rest)
      | _, _ => none
  | '\\' :: 'u' :: a :: b :: c :: d :: rest =>
      match unit? a b c d with
      | some code =>
          if 0xd800 ≤ code ∧ code < 0xe000 then none
          else stringBody (Char.ofNat code :: read) rest
      | none => none
  | '\\' :: letter :: rest =>
      match simpleEscape? letter with
      | some char => stringBody (char :: read) rest
      | none => none
  | char :: rest => if char < ' ' then none else stringBody (char :: read) rest
  | [] => none

/-- The fraction of a number: its digits after the point, if there is one. -/
def fraction? : List Char → Option (List Char × List Char)
  | '.' :: rest =>
      let digits := rest.takeWhile Char.isDigit
      if digits.isEmpty then none else some (digits, rest.dropWhile Char.isDigit)
  | rest => some ([], rest)

/-- The power of ten of a number, if it has one. -/
def power? : List Char → Option (Option Int × List Char)
  | mark :: rest =>
      if mark = 'e' ∨ mark = 'E' then
        let (negative, rest) := match rest with
          | '-' :: rest => (true, rest)
          | '+' :: rest => (false, rest)
          | rest => (false, rest)
        let digits := rest.takeWhile Char.isDigit
        let size : Int := Decimal.digitsValue digits
        if digits.isEmpty then none
        else some (some (if negative then -size else size), rest.dropWhile Char.isDigit)
      else some (none, mark :: rest)
  | [] => some (none, [])

/-- The value of a number without fraction and power of ten. -/
def integer (negative : Bool) (size : Nat) : Value :=
  if negative then
    if size = 0 then .float (-0.0)
    else if size ≤ 0x8000000000000000 then .negative size
    else .float (-(Decimal.toFloat ⟨size, 0⟩))
  else if size < 0x10000000000000000 then .nat size
  else .float (Decimal.toFloat ⟨size, 0⟩)

def number? (text : List Char) : Option (Value × List Char) := do
  let (negative, rest) := match text with
    | '-' :: rest => (true, rest)
    | rest => (false, rest)
  let whole := rest.takeWhile Char.isDigit
  if whole.isEmpty ∨ (whole.head? = some '0' ∧ whole.length ≠ 1) then none
  else
    let rest := rest.dropWhile Char.isDigit
    let (fraction, rest) ← fraction? rest
    let (power, rest) ← power? rest
    if fraction.isEmpty ∧ power.isNone then
      some (integer negative (Decimal.digitsValue whole), rest)
    else
      let size := (Decimal.ofParts whole fraction (power.getD 0)).toFloat
      if size.isInf then none else some (.float (if negative then -size else size), rest)

/-- Put an entry at the end, or in place of an entry with the same name. -/
def putEntry (name : String) (value : Value) : List (Value × Value) → List (Value × Value)
  | [] => [(.text name, value)]
  | (key, other) :: rest =>
      if key.name? == some name then (key, value) :: rest
      else (key, other) :: putEntry name value rest

mutual

/-- A value at the start of a text, with the rest of the text.  Each level of
nesting and each item costs one unit of `fuel` and at least one character. -/
def value? : Nat → List Char → Option (Value × List Char)
  | 0, _ => none
  | fuel + 1, text =>
      match skipBlanks text with
      | '\x7b' :: rest =>
          match skipBlanks rest with
          | '\x7d' :: rest => some (.map [], rest)
          | rest => members? fuel [] rest
      | '[' :: rest =>
          match skipBlanks rest with
          | ']' :: rest => some (.seq [], rest)
          | rest => items? fuel [] rest
      | '"' :: rest => (stringBody [] rest).map fun (text, rest) => (.text text, rest)
      | 't' :: 'r' :: 'u' :: 'e' :: rest => some (.bool true, rest)
      | 'f' :: 'a' :: 'l' :: 's' :: 'e' :: rest => some (.bool false, rest)
      | 'n' :: 'u' :: 'l' :: 'l' :: rest => some (.null, rest)
      | rest => number? rest

/-- The items of an array up to its end; those read before come latest first. -/
def items? : Nat → List Value → List Char → Option (Value × List Char)
  | 0, _, _ => none
  | fuel + 1, read, text =>
      match value? fuel text with
      | none => none
      | some (item, rest) =>
          match skipBlanks rest with
          | ',' :: rest => items? fuel (item :: read) rest
          | ']' :: rest => some (.seq (item :: read).reverse, rest)
          | _ => none

/-- The members of an object up to its end.  Of members with one name, the last
counts. -/
def members? : Nat → List (Value × Value) → List Char → Option (Value × List Char)
  | 0, _, _ => none
  | fuel + 1, read, text =>
      match skipBlanks text with
      | '"' :: rest =>
          match stringBody [] rest with
          | none => none
          | some (name, rest) =>
              match skipBlanks rest with
              | ':' :: rest =>
                  match value? fuel rest with
                  | none => none
                  | some (item, rest) =>
                      let read := putEntry name item read
                      match skipBlanks rest with
                      | ',' :: rest => members? fuel read rest
                      | '\x7d' :: rest => some (.map read, rest)
                      | _ => none
              | _ => none
      | _ => none

end

def read? (text : String) : Option Value :=
  let chars := text.toList
  match value? (chars.length + 1) chars with
  | some (value, rest) => if (skipBlanks rest).isEmpty then some value else none
  | none => none

/-- How a character is written inside quotes. -/
def escape (char : Char) : List Char :=
  if char = '"' then ['\\', '"']
  else if char = '\\' then ['\\', '\\']
  else if char = '\n' then ['\\', 'n']
  else if char = '\r' then ['\\', 'r']
  else if char = '\t' then ['\\', 't']
  else if char < ' ' then '\\' :: 'u' :: Hexadecimal.digits 4 char.toNat
  else [char]

def quote (text : String) : String :=
  String.ofList ('"' :: text.toList.flatMap escape ++ ['"'])

/-- A number; there is none for what is not finite. -/
def writeFloat (value : Float) : String :=
  if value.isFinite then Decimal.ofFloat value else "null"

/-- The text of a name; only text can be one. -/
def writeName : Value → String
  | .text name | .plain name => quote name
  | _ => "\"\""

/-- The spaces at the start of a line at a depth of nesting. -/
def indent (depth : Nat) : String :=
  String.ofList ('\n' :: List.replicate (2 * depth) ' ')

mutual

/-- A value with one item or member to a line, added to a text. -/
def writeValue (depth : Nat) : Value → String → String
  | .null, out => out ++ "null"
  | .bool value, out => out ++ (if value then "true" else "false")
  | .nat value, out => out ++ toString value
  | .negative size, out => out ++ "-" ++ toString size
  | .float value, out => out ++ writeFloat value
  | .text text, out | .plain text, out => out ++ quote text
  | .seq [], out => out ++ "[]"
  | .seq (item :: rest), out =>
      writeItems (depth + 1) rest (writeValue (depth + 1) item (out ++ "[" ++ indent (depth + 1)))
        ++ indent depth ++ "]"
  | .map [], out => out ++ "\x7b\x7d"
  | .map (entry :: rest), out =>
      writeMembers (depth + 1) rest (writeMember (depth + 1) entry
        (out ++ "\x7b" ++ indent (depth + 1))) ++ indent depth ++ "\x7d"

def writeItems (depth : Nat) : List Value → String → String
  | [], out => out
  | item :: rest, out =>
      writeItems depth rest (writeValue depth item (out ++ "," ++ indent depth))

def writeMembers (depth : Nat) : List (Value × Value) → String → String
  | [], out => out
  | entry :: rest, out =>
      writeMembers depth rest (writeMember depth entry (out ++ "," ++ indent depth))

def writeMember (depth : Nat) : Value × Value → String → String
  | (name, value), out => writeValue depth value (out ++ writeName name ++ ": ")

end

/-- The text of a value, indented by two spaces. -/
def write (value : Value) : String :=
  writeValue 0 value ""

end Json

end LineGrammar
