/-
The values that documents are made of, whatever notation they are written in.
-/

namespace LineGrammar

/-- A value of a document.  An integer written with a minus sign is kept by its
size, so that a zero can be negative.  A plain scalar is text that was written
without quotes in a notation where its reader decides what it stands for. -/
inductive Value where
  | null
  | bool (value : Bool)
  | nat (value : Nat)
  | negative (size : Nat)
  | float (value : Float)
  | text (value : String)
  | plain (text : String)
  | seq (items : List Value)
  | map (entries : List (Value × Value))
deriving Inhabited

namespace Value

/-- A mapping from names. -/
def record (fields : List (String × Value)) : Value :=
  .map (fields.map fun field => (.text field.1, field.2))

/-- The text of a scalar that can serve as a name. -/
def name? : Value → Option String
  | .text name | .plain name => some name
  | _ => none

/-- The value of the last entry with a name. -/
def field? (name : String) : Value → Option Value
  | .map entries =>
      (entries.reverse.find? fun entry => entry.1.name? == some name).map (·.2)
  | _ => none

mutual

/-- The greatest number of collections around anything in a value. -/
def nesting : Value → Nat
  | .seq items => itemsNesting items + 1
  | .map entries => entriesNesting entries + 1
  | .null | .bool _ | .nat _ | .negative _ | .float _ | .text _ | .plain _ => 0

def itemsNesting : List Value → Nat
  | [] => 0
  | item :: rest => max (nesting item) (itemsNesting rest)

def entriesNesting : List (Value × Value) → Nat
  | [] => 0
  | entry :: rest => max (entryNesting entry) (entriesNesting rest)

def entryNesting : Value × Value → Nat
  | (key, value) => max (nesting key) (nesting value)

end

end Value

end LineGrammar
