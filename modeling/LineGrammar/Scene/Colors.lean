/-
Colors and generators in documents.
-/
import LineGrammar.Generator
import LineGrammar.Scene.Record

namespace LineGrammar

namespace Color

/-- The channels read so far. -/
structure Draft where
  red : Option UInt8
  green : Option UInt8
  blue : Option UInt8
  alpha : Option UInt8

def Draft.empty : Draft := ⟨none, none, none, none⟩

def fieldNames : List String := ["r", "g", "b", "a"]

def putField (name : String) (value : Value) (draft : Draft) : Except SceneFault Draft := do
  let channel ← Reader.byte value
  match name with
  | "r" => return { draft with red := some channel }
  | "g" => return { draft with green := some channel }
  | "b" => return { draft with blue := some channel }
  | _ => return { draft with alpha := some channel }

def ofValue : Reader Color := fun value => do
  let drafted ← readRecord fieldNames putField .empty value
  return ⟨← drafted.require "r" (·.red), ← drafted.require "g" (·.green),
    ← drafted.require "b" (·.blue), ← drafted.require "a" (·.alpha)⟩

def toValue (color : Color) : Value :=
  .record [("r", .nat color.red.toNat), ("g", .nat color.green.toNat),
    ("b", .nat color.blue.toNat), ("a", .nat color.alpha.toNat)]

end Color

namespace LinearKey

structure Draft where
  color : Option Color
  position : Option Position

def putField (name : String) (value : Value) (draft : Draft) : Except SceneFault Draft := do
  match name with
  | "color" => return { draft with color := some (← Color.ofValue value) }
  | _ => return { draft with position := some (.ofValue (← Reader.single value)) }

def ofValue : Reader LinearKey := fun value => do
  let drafted ← readRecord ["color", "position"] putField ⟨none, none⟩ value
  return ⟨← drafted.require "color" (·.color), ← drafted.require "position" (·.position)⟩

def toValue (key : LinearKey) : Value :=
  .record [("color", key.color.toValue), ("position", .float (Precision.widen key.position.value))]

end LinearKey

namespace DiscreteKey

structure Draft where
  color : Option Color
  index : Option Nat

def putField (name : String) (value : Value) (draft : Draft) : Except SceneFault Draft := do
  match name with
  | "color" => return { draft with color := some (← Color.ofValue value) }
  | _ => return { draft with index := some (← Reader.natBelow 0x100000000 value) }

def ofValue : Reader DiscreteKey := fun value => do
  let drafted ← readRecord ["color", "index"] putField ⟨none, none⟩ value
  return ⟨← drafted.require "color" (·.color), ← drafted.require "index" (·.index)⟩

def toValue (key : DiscreteKey) : Value :=
  .record [("color", key.color.toValue), ("index", .nat key.index)]

end DiscreteKey

/-- Read the one field of a record. -/
def readSole {A : Type} (name : String) (read : Reader A) : Reader A := fun value => do
  let drafted ← readRecord [name] (fun _ value _ => do return some (← read value)) none value
  drafted.require name id

namespace Tagged

/-- The name of the field that says which kind of record it is. -/
def tag : String := "type"

/-- The kind that a tag names.  Inside another record a number without a sign can
stand for it. -/
def kindOf {K : Type} (nested : Bool) (kinds : List (String × K)) : Reader K
  | .text name => Reader.ofOption (kinds.lookup name)
  | .nat place =>
      if nested then Reader.ofOption (kinds[place]?.map (·.2)) else .error .malformed
  | _ => .error .malformed

def isTag (entry : Value × Value) : Bool :=
  match entry.1 with
  | .text name => name == tag
  | _ => false

/-- The kind of a record and what remains of it without the tag. -/
def split {K : Type} (nested : Bool) (kinds : List (String × K)) : Reader (K × Value)
  | .map entries =>
      match entries.filter isTag with
      | [] => .error (.missingField tag)
      | [entry] => do
          return (← kindOf nested kinds entry.2, .map (entries.filter fun entry => !isTag entry))
      | _ => .error .malformed
  | .seq [] => .error (.missingField tag)
  | .seq (first :: rest) => do return (← kindOf nested kinds first, .seq rest)
  | _ => .error .malformed

/-- A record with its tag in front. -/
def record (kind : String) (fields : List (String × Value)) : Value :=
  .record ((tag, .text kind) :: fields)

end Tagged

namespace Generator

inductive Kind where
  | constant
  | linear
  | discrete
deriving DecidableEq, Repr

def kinds : List (String × Kind) :=
  [("constant", .constant), ("linear_gradient", .linear), ("discrete_gradient", .discrete)]

/-- Read a generator.  Gradients are put in order as they are when made from keys,
and refused for the same reasons. -/
def ofValue (nested : Bool) : Reader Generator := fun value => do
  match ← Tagged.split nested kinds value with
  | (.constant, rest) => return .constant (← readSole "color" Color.ofValue rest)
  | (.linear, rest) =>
      let keys ← readSole "keys" (Reader.list LinearKey.ofValue) rest
      return .linear (← (LinearGradient.ofKeys keys).mapError .gradient)
  | (.discrete, rest) =>
      let keys ← readSole "keys" (Reader.list DiscreteKey.ofValue) rest
      return .discrete (← (DiscreteGradient.ofKeys keys).mapError .gradient)

def toValue : Generator → Value
  | constant color => Tagged.record "constant" [("color", color.toValue)]
  | linear gradient =>
      Tagged.record "linear_gradient" [("keys", .seq (gradient.keys.map LinearKey.toValue))]
  | discrete gradient =>
      Tagged.record "discrete_gradient" [("keys", .seq (gradient.keys.map DiscreteKey.toValue))]

end Generator

end LineGrammar
