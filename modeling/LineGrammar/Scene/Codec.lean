/-
Scenes in documents.
-/
import LineGrammar.Scene.Basic
import LineGrammar.Scene.Painters

namespace LineGrammar

namespace Parameters

def fieldNames : List String :=
  ["start_position", "start_angle_degrees", "delta_angle_degrees", "step", "iterations"]

def putField (name : String) (value : Value) (draft : Parameters) :
    Except SceneFault Parameters := do
  match name with
  | "start_position" =>
      let (startX, startY) ← Reader.pair Reader.double value
      return { draft with startX, startY }
  | "start_angle_degrees" => return { draft with startAngle := ← Reader.double value }
  | "delta_angle_degrees" => return { draft with turnAngle := ← Reader.double value }
  | "step" => return { draft with step := ← Reader.double value }
  | _ => return { draft with iterations := ← Reader.count value }

/-- Fields that are left out keep their defaults. -/
def ofValue : Reader Parameters := fun value => do
  return (← readRecord fieldNames putField .default value).draft

def toValue (parameters : Parameters) : Value :=
  .record [("start_position", .seq [.float parameters.startX, .float parameters.startY]),
    ("start_angle_degrees", .float parameters.startAngle),
    ("delta_angle_degrees", .float parameters.turnAngle),
    ("step", .float parameters.step), ("iterations", .nat parameters.iterations)]

end Parameters

namespace Order

/-- An order by its name, or as the only key of a mapping to nothing. -/
def ofValue : Reader Order
  | .text name | .plain name => Reader.ofOption (ofName? name)
  | .map [(.text name, .null)] => Reader.ofOption (ofName? name)
  | _ => .error .malformed

end Order

namespace RuleTable

/-- A table from a mapping of symbols, in which later entries win. -/
def ofValue {V : Type} (read : Reader V) : Reader (RuleTable V)
  | .map entries => do
      return .ofList (← entries.mapM fun (key, value) => do
        return (← Reader.symbol key, ← read value))
  | .plain "" => .ok .empty
  | _ => .error .malformed

def toValue {V : Type} (write : V → Value) (table : RuleTable V) : Value :=
  .record (table.entries.map fun (symbol, value) => (symbol.toString, write value))

end RuleTable

namespace Interpretation

/-- A table of orders, or nothing. -/
def ofValue : Reader (Option Interpretation)
  | .null => .ok none
  | .plain text =>
      if Plain.isNull text then .ok none else .error .malformed
  | value => do return some (← RuleTable.ofValue Order.ofValue value)

end Interpretation

namespace Scene

/-- The fields read so far; all but the start word have a default. -/
structure Draft where
  start : Option String
  scene : Scene

def Draft.empty : Draft :=
  ⟨none, ⟨"", "", .empty, "", none, .default, .default⟩⟩

def fieldNames : List String :=
  ["name", "axiom", "rules", "iteration_predecessors", "interpretation", "parameters",
    "painter"]

def putField (name : String) (value : Value) (draft : Draft) : Except SceneFault Draft := do
  let scene := draft.scene
  match name with
  | "name" => return { draft with scene := { scene with name := ← Reader.text value } }
  | "axiom" => return { draft with start := some (← Reader.text value) }
  | "rules" =>
      return { draft with
        scene := { scene with rules := ← RuleTable.ofValue Reader.text value } }
  | "iteration_predecessors" =>
      return { draft with scene := { scene with flagged := ← Reader.text value } }
  | "interpretation" =>
      return { draft with
        scene := { scene with interpretation := ← Interpretation.ofValue value } }
  | "parameters" =>
      return { draft with scene := { scene with parameters := ← Parameters.ofValue value } }
  | _ => return { draft with scene := { scene with painter := ← Painter.ofValue value } }

/-- Read a scene. -/
def ofValue : Reader Scene := fun value => do
  let drafted ← readRecord fieldNames putField .empty value
  return { drafted.draft.scene with start := ← drafted.require "axiom" (·.start) }

/-- All fields of a scene, those left to their defaults too. -/
def toValue (scene : Scene) : Value :=
  .record [("name", .text scene.name), ("axiom", .text scene.start),
    ("rules", scene.rules.toValue .text), ("iteration_predecessors", .text scene.flagged),
    ("interpretation", match scene.interpretation with
      | some table => RuleTable.toValue (fun order => .text order.name) table
      | none => .null),
    ("parameters", scene.parameters.toValue), ("painter", Painter.toValue scene.painter)]

end Scene

end LineGrammar
