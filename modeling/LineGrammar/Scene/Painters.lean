/-
Trees of painters in documents.
-/
import LineGrammar.Painter.Basic
import LineGrammar.Scene.Colors

namespace LineGrammar

namespace Point

def ofValue : Reader Point := fun value => do
  let (x, y) ← Reader.pair Reader.single value
  return ⟨x, y⟩

def toValue (point : Point) : Value :=
  .seq [.float (Precision.widen point.x), .float (Precision.widen point.y)]

end Point

namespace Painter

inductive Kind where
  | constant
  | linear
  | radial
  | sequential
  | iteration
  | blockRandom
  | composite
deriving DecidableEq, Repr

def kinds : List (String × Kind) :=
  [("constant", .constant), ("linear", .linear), ("radial", .radial),
    ("sequential", .sequential), ("iteration", .iteration), ("block_random", .blockRandom),
    ("composite", .composite)]

def Kind.fieldNames : Kind → List String
  | constant => ["generator"]
  | linear => ["angle", "center", "generator"]
  | radial => ["center", "generator"]
  | sequential => ["factor", "generator"]
  | iteration => ["generator"]
  | blockRandom => ["block_size", "seed", "generator"]
  | composite => ["main", "children"]

/-- The fields read so far. -/
structure Draft where
  angle : Option Float32
  center : Option Point
  factor : Option Float32
  size : Option Nat
  seed : Option UInt64
  generator : Option Generator
  main : Option PainterPlan
  children : Option (List PainterPlan)

def Draft.empty : Draft := ⟨none, none, none, none, none, none, none, none⟩

/-- A seed, which may be left out. -/
def readSeed : Reader (Option UInt64)
  | .null => .ok none
  | value => do return some (UInt64.ofNat (← Reader.count value))

/-- Put together a painter from its fields. -/
def assemble (kind : Kind) (drafted : Drafted Draft) : Except SceneFault PainterPlan := do
  let generator := drafted.require "generator" (·.generator)
  match kind with
  | .constant => return .leaf .constant (← generator)
  | .linear =>
      let angle ← drafted.require "angle" (·.angle)
      let center ← drafted.require "center" (·.center)
      return .leaf (.linear angle center) (← generator)
  | .radial =>
      let center ← drafted.require "center" (·.center)
      return .leaf (.radial center) (← generator)
  | .sequential =>
      let factor ← drafted.require "factor" (·.factor)
      return .leaf (.sequential factor) (← generator)
  | .iteration => return .leaf .iteration (← generator)
  | .blockRandom =>
      let size ← drafted.require "block_size" (·.size)
      return .leaf (.blockRandom size drafted.draft.seed) (← generator)
  | .composite =>
      let main ← drafted.require "main" (·.main)
      return .composite main (← drafted.require "children" (·.children))

/-- Read a field that holds no painters. -/
def putField (name : String) (value : Value) (draft : Draft) : Except SceneFault Draft := do
  match name with
  | "angle" => return { draft with angle := some (← Reader.single value) }
  | "center" => return { draft with center := some (← Point.ofValue value) }
  | "factor" => return { draft with factor := some (← Reader.single value) }
  | "block_size" => return { draft with size := some (← Reader.count value) }
  | "seed" => return { draft with seed := ← readSeed value }
  | _ => return { draft with generator := some (← Generator.ofValue true value) }

mutual

/-- Read a painter from a value without plain scalars. -/
def read (nested : Bool) : Value → Except SceneFault PainterPlan
  | .map entries => do
      let kind ←
        match entries.filter Tagged.isTag with
        | [] => .error (.missingField Tagged.tag)
        | [entry] => Tagged.kindOf nested kinds entry.2
        | _ => .error .malformed
      let reading ← readEntries kind.fieldNames entries ⟨[], .empty⟩
      assemble kind ⟨reading.draft, false⟩
  | .seq (first :: rest) => do
      let kind ← Tagged.kindOf nested kinds first
      assemble kind ⟨← readItems kind.fieldNames rest .empty, true⟩
  | .seq [] => .error (.missingField Tagged.tag)
  | _ => .error .malformed

def readList : Value → Except SceneFault (List PainterPlan)
  | .seq items => readAll items
  | _ => .error .malformed

def readAll : List Value → Except SceneFault (List PainterPlan)
  | [] => .ok []
  | item :: rest => do return (← read true item) :: (← readAll rest)

/-- Read the entries of a painter's mapping into its fields. -/
def readEntries (names : List String) :
    List (Value × Value) → Reading Draft → Except SceneFault (Reading Draft)
  | [], reading => .ok reading
  | entry :: rest, reading => do readEntries names rest (← readEntry names entry reading)

def readEntry (names : List String) :
    Value × Value → Reading Draft → Except SceneFault (Reading Draft)
  | (key, value), reading => do
      if Tagged.isTag (key, value) then return reading
      match ← Reading.field? names key with
      | none => return reading
      | some name =>
          let reading ← reading.meet name
          let draft ←
            match name with
            | "main" => do pure { reading.draft with main := some (← read true value) }
            | "children" => do pure { reading.draft with children := some (← readList value) }
            | _ => putField name value reading.draft
          return { reading with draft }

/-- Read the items of a painter's sequence into its fields. -/
def readItems : List String → List Value → Draft → Except SceneFault Draft
  | _, [], draft => .ok draft
  | [], _ :: _, _ => .error .malformed
  | name :: names, item :: rest, draft => do
      let draft ←
        match name with
        | "main" => do pure { draft with main := some (← read true item) }
        | "children" => do pure { draft with children := some (← readList item) }
        | _ => putField name item draft
      readItems names rest draft

end

def ofValue : Reader PainterPlan :=
  read false

mutual

def toValue : PainterPlan → Value
  | .leaf shade generator =>
      let colors := ("generator", generator.toValue)
      match shade with
      | .constant => Tagged.record "constant" [colors]
      | .linear angle center =>
          Tagged.record "linear" [("angle", .float (Precision.widen angle)),
            ("center", center.toValue), colors]
      | .radial center => Tagged.record "radial" [("center", center.toValue), colors]
      | .sequential factor =>
          Tagged.record "sequential" [("factor", .float (Precision.widen factor)), colors]
      | .iteration => Tagged.record "iteration" [colors]
      | .blockRandom size seed =>
          Tagged.record "block_random" [("block_size", .nat size),
            ("seed", (seed.map fun seed => Value.nat seed.toNat).getD .null), colors]
  | .composite main children =>
      Tagged.record "composite" [("main", toValue main), ("children", .seq (allToValues children))]

def allToValues : List PainterPlan → List Value
  | [] => []
  | child :: rest => toValue child :: allToValues rest

end

end Painter

end LineGrammar
