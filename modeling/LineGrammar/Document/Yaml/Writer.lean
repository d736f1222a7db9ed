/-
Documents from values.  Collections that hold something are written in block style,
each item or key on a line of its own.  Names are written plain, all other text
between double quotes.
-/
import LineGrammar.Document.Value
import LineGrammar.Number.Decimal
import LineGrammar.Number.Hexadecimal

namespace LineGrammar

namespace Yaml

/-- How a character is written between double quotes. -/
def escape (char : Char) : List Char :=
  if char = '"' ∨ char = '\\' then ['\\', char]
  else if ' ' ≤ char ∧ char ≤ '~' then [char]
  else '\\' :: 'U' :: Hexadecimal.digits 8 char.toNat

def quote (text : String) : String :=
  String.ofList ('"' :: text.toList.flatMap escape ++ ['"'])

/-- Words of small letters that stand for something else than themselves. -/
def reserved : List String :=
  ["null", "true", "false"]

/-- Whether a text means itself without quotes. -/
def isName (text : String) : Bool :=
  !text.isEmpty && !reserved.contains text
    && text.toList.all fun char => char.isLower || char == '_'

def writeText (text : String) : String :=
  if isName text then text else quote text

def writeFloat (value : Float) : String :=
  if value.isNaN then ".nan"
  else if value.isInf then (if 0 < value then ".inf" else "-.inf")
  else Decimal.ofFloat value

/-- A break and the spaces in front of what stands at a depth of nesting. -/
def newLine (depth : Nat) : String :=
  String.ofList ('\n' :: List.replicate (2 * depth) ' ')

mutual

/-- A value after a dash or a colon, added to a text. -/
def writeValue (depth : Nat) : Value → String → String
  | .null, out => out ++ " null"
  | .bool value, out => out ++ (if value then " true" else " false")
  | .nat value, out => out ++ " " ++ toString value
  | .negative size, out => out ++ " -" ++ toString size
  | .float value, out => out ++ " " ++ writeFloat value
  | .text text, out => out ++ " " ++ writeText text
  | .plain text, out => out ++ " " ++ text
  | .seq [], out => out ++ " []"
  | .seq (item :: rest), out => writeItems depth (item :: rest) out
  | .map [], out => out ++ " \x7b\x7d"
  | .map (entry :: rest), out => writeEntries depth (entry :: rest) out

def writeItems (depth : Nat) : List Value → String → String
  | [], out => out
  | item :: rest, out =>
      writeItems depth rest (writeValue (depth + 1) item (out ++ newLine depth ++ "-"))

def writeEntries (depth : Nat) : List (Value × Value) → String → String
  | [], out => out
  | entry :: rest, out => writeEntries depth rest (writeEntry depth entry out)

def writeEntry (depth : Nat) : Value × Value → String → String
  | (key, value), out =>
      writeValue (depth + 1) value
        (out ++ newLine depth ++ writeText (key.name?.getD "") ++ ":")

end

def write (value : Value) : String :=
  writeValue 0 value "---" ++ "\n"

end Yaml

end LineGrammar
