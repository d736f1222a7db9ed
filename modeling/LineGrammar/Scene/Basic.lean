/-
Scenes: a grammar, the table and the settings of the turtle, and a painter.
Angles are in degrees, as people write them.
-/
import LineGrammar.LSystem
import LineGrammar.Painter.Basic
import LineGrammar.Turtle

namespace LineGrammar

/-- The turtle's settings and the depth of the derivation. -/
structure Parameters where
  startX : Float
  startY : Float
  startAngle : Float
  turnAngle : Float
  step : Float
  iterations : Nat
deriving BEq

def Parameters.default : Parameters :=
  ⟨0, 0, 0, 90, 10, 4⟩

def degree : Float := Float.ofBits 0x3f91df46a2529d39

/-- The turtle's settings, with angles in radians. -/
def Parameters.settings (parameters : Parameters) : TurtleSettings :=
  ⟨parameters.startX, parameters.startY, parameters.startAngle * degree,
    parameters.turnAngle * degree, parameters.step⟩

/-- All that makes a drawing. -/
structure Scene where
  name : String
  start : String
  rules : RuleTable String
  flagged : String
  interpretation : Option Interpretation
  parameters : Parameters
  painter : PainterPlan

namespace Scene

instance : BEq Scene where
  beq s t := s.name == t.name && s.start == t.start && s.rules == t.rules
    && s.flagged == t.flagged && s.interpretation == t.interpretation
    && s.parameters == t.parameters && s.painter == t.painter

def grammar (scene : Scene) : Grammar :=
  ⟨scene.start.toList, scene.rules.mapValues String.toList, .ofList scene.flagged.toList⟩

/-- The table of the turtle; a scene without one takes the default. -/
def table (scene : Scene) : Interpretation :=
  scene.interpretation.getD .default

def withIterations (scene : Scene) (iterations : Nat) : Scene :=
  { scene with parameters := { scene.parameters with iterations } }

end Scene

end LineGrammar
