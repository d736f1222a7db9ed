/-
Scenes in files.  The fields of a scene know what they want, so a plain scalar there
stands for whatever its field takes.  The painter is taken in as a whole before its
kind is known: every plain scalar inside it has to stand for something by itself,
also in fields that are passed over later.
-/
import LineGrammar.Document.Yaml.Node
import LineGrammar.Document.Yaml.Writer
import LineGrammar.Scene.Codec

namespace LineGrammar

namespace Scene

/-- The most collections that may stand around anything that is taken in, the scene
itself being one. -/
def maxNesting : Nat := 128

/-- An entry of a file in the form in which scenes are read.  A file has no records
by position but inside its painter. -/
def entryOfFile? : Value × Value → Option (Value × Value)
  | (key, value) =>
      match key.name?, value with
      | some "parameters", .seq _ => none
      | some "painter", value =>
          if value.nesting < maxNesting then do return (key, ← value.resolve?) else none
      | _, value => some (key, value)

/-- The scene of a document. -/
def ofDocument? : Value → Option Scene
  | .map entries => do (ofValue (.map (← entries.mapM entryOfFile?))).toOption
  | _ => none

def read? (text : String) : Option Scene := do
  ofDocument? (← Yaml.read? text)

def write (scene : Scene) : String :=
  Yaml.write scene.toValue

example : (read? "axiom: F").map (·.start) = some "F" := by decide +kernel
example : (read? "[n, F]").isNone := by decide +kernel

end Scene

end LineGrammar
