/-
What a symbol can tell the turtle to do, and the table used when a scene brings
none of its own.
-/
import LineGrammar.RuleTable

namespace LineGrammar

/-- The orders a turtle understands. -/
inductive Order where
  | goForward
  | turnRight
  | turnLeft
  | savePosition
  | loadPosition
deriving DecidableEq, Repr

namespace Order

def name : Order → String
  | goForward => "go_forward"
  | turnRight => "turn_right"
  | turnLeft => "turn_left"
  | savePosition => "save_position"
  | loadPosition => "load_position"

/-- All orders; the place of an order is its number in documents. -/
def all : List Order :=
  [goForward, turnRight, turnLeft, savePosition, loadPosition]

def ofName? (name : String) : Option Order :=
  all.find? (fun order => order.name == name)

/-- The vertices an order adds to a drawing.  Going back to a saved position
takes a bridge of three. -/
def vertexYield : Order → Nat
  | goForward => 1
  | loadPosition => 3
  | turnRight | turnLeft | savePosition => 0

theorem ofName?_name (order : Order) : ofName? order.name = some order := by
  cases order <;> decide +kernel

end Order

/-- A table of the symbols the turtle reacts to. -/
abbrev Interpretation := RuleTable Order

/-- The entries of the table used by default. -/
def Interpretation.defaultOrders : List (Char × Order) :=
  [('F', .goForward), ('-', .turnLeft), ('+', .turnRight), ('[', .savePosition),
    (']', .loadPosition)]

def Interpretation.default : Interpretation :=
  RuleTable.ofList defaultOrders

example : Interpretation.default.symbols = ['+', '-', 'F', '[', ']'] := by decide +kernel

end LineGrammar
