/-
Reading records from documents.  A record is a mapping from the names of its
fields, of which unknown ones are passed over, or a sequence of its fields in
their proper order.  The first field at fault, in the order of the document,
decides how reading fails; only then missing fields are looked for.
-/
import LineGrammar.Document.Plain
import LineGrammar.Fault
import LineGrammar.Number.Precision

namespace LineGrammar

/-- Why a document does not describe what it should. -/
inductive SceneFault where
  | malformed
  | missingField (name : String)
  | gradient (fault : Fault)
deriving DecidableEq, Repr

/-- The text shown for a fault, where it has one of its own. -/
def SceneFault.message? : SceneFault → Option String
  | malformed => none
  | missingField name => some s!"missing field `{name}`"
  | gradient fault => some fault.message

/-- Reading a value of a document. -/
abbrev Reader (A : Type) := Value → Except SceneFault A

namespace Reader

def ofOption {A : Type} : Option A → Except SceneFault A
  | some value => .ok value
  | none => .error .malformed

def text : Reader String
  | .text text | .plain text => .ok text
  | _ => .error .malformed

/-- Text of exactly one character. -/
def symbol : Reader Char := fun value => do
  match (← text value).toList with
  | [symbol] => return symbol
  | _ => .error .malformed

/-- A natural number below a bound. -/
def natBelow (bound : Nat) : Reader Nat
  | .nat number => if number < bound then .ok number else .error .malformed
  | .negative 0 => if 0 < bound then .ok 0 else .error .malformed
  | .plain text => ofOption ((Plain.unsigned? text.toList).filter (· < bound))
  | _ => .error .malformed

/-- A number of 64 bits that counts something. -/
def count : Reader Nat :=
  natBelow 0x10000000000000000

def byte : Reader UInt8 := fun value => do
  return UInt8.ofNat (← natBelow 256 value)

/-- A single; integers are rounded to the nearest one. -/
def single : Reader Float32
  | .float number => .ok (Precision.narrow number)
  | .nat number =>
      if number < 0x10000000000000000 then .ok (UInt64.ofNat number).toFloat32
      else .error .malformed
  | .negative size =>
      if size ≤ 0x8000000000000000 then .ok (0 - (UInt64.ofNat size).toFloat32)
      else .error .malformed
  | _ => .error .malformed

/-- A double; integers are rounded to the nearest one. -/
def double : Reader Float
  | .float number => .ok number
  | .nat number =>
      if number < 0x10000000000000000 then .ok (UInt64.ofNat number).toFloat
      else .error .malformed
  | .negative size =>
      if size ≤ 0x8000000000000000 then .ok (0 - (UInt64.ofNat size).toFloat)
      else .error .malformed
  | .plain text => ofOption (Plain.float? text.toList)
  | _ => .error .malformed

def pair {A : Type} (read : Reader A) : Reader (A × A)
  | .seq [first, second] => do return (← read first, ← read second)
  | _ => .error .malformed

def list {A : Type} (read : Reader A) : Reader (List A)
  | .seq items => items.mapM read
  | _ => .error .malformed

end Reader

/-- The part of a record that has been read: the names met so far and a draft of
the result. -/
structure Reading (D : Type) where
  seen : List String
  draft : D

namespace Reading

variable {D : Type}

/-- The field that a key names, if the record has it.  A number without a sign names
a field by its place. -/
def field? (names : List String) : Value → Except SceneFault (Option String)
  | .text name | .plain name => .ok (if names.contains name then some name else none)
  | .nat place => .ok names[place]?
  | _ => .error .malformed

/-- Note that a field comes next, which no field does twice. -/
def meet (reading : Reading D) (name : String) : Except SceneFault (Reading D) :=
  if reading.seen.contains name then .error .malformed
  else .ok { reading with seen := name :: reading.seen }

/-- Read one entry of a mapping. -/
def entry (names : List String) (put : String → Value → D → Except SceneFault D)
    (reading : Reading D) (entry : Value × Value) : Except SceneFault (Reading D) := do
  match ← field? names entry.1 with
  | none => return reading
  | some name =>
      let reading ← reading.meet name
      return { reading with draft := ← put name entry.2 reading.draft }

/-- Read the items of a sequence into the fields in their order. -/
def items (put : String → Value → D → Except SceneFault D) :
    List String → List Value → D → Except SceneFault D
  | _, [], draft => .ok draft
  | [], _ :: _, _ => .error .malformed
  | name :: names, item :: rest, draft => do items put names rest (← put name item draft)

end Reading

/-- What was read of a record, and whether by position. -/
structure Drafted (D : Type) where
  draft : D
  positional : Bool

/-- Read a record field by field into a draft. -/
def readRecord {D : Type} (names : List String)
    (put : String → Value → D → Except SceneFault D) (empty : D) :
    Value → Except SceneFault (Drafted D)
  | .map entries => do
      let reading ← entries.foldlM (Reading.entry names put) ⟨[], empty⟩
      return ⟨reading.draft, false⟩
  | .seq items => do return ⟨← Reading.items put names items empty, true⟩
  | .plain "" => .ok ⟨empty, false⟩
  | _ => .error .malformed

/-- A field that must be there. -/
def Drafted.require {D A : Type} (drafted : Drafted D) (name : String) (field : D → Option A) :
    Except SceneFault A :=
  match field drafted.draft with
  | some value => .ok value
  | none => .error (if drafted.positional then .malformed else .missingField name)

end LineGrammar
