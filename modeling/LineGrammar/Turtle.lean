/-
A turtle that draws by following the orders of a word's symbols.  It leaves one
vertex for each step.  Going back to a saved pose leaves a bridge of three: the
place it leaves, the place it returns to, and that place again as the start of a
new stroke.
-/
import LineGrammar.Fault
import LineGrammar.Grammar
import LineGrammar.Order
import LineGrammar.Stream

namespace LineGrammar

/-- Where a drawing starts and how far each order moves or turns.  Angles are in
radians and grow against the clock as seen on the screen. -/
structure TurtleSettings where
  startX : Float
  startY : Float
  heading : Float
  turn : Float
  step : Float

/-- The settings used where nothing else is asked for: unit steps and quarter
turns from the origin. -/
def TurtleSettings.default : TurtleSettings :=
  ⟨0, 0, 0, Float.ofBits 0x3ff921fb54442d18, 1⟩

structure Pose where
  x : Float
  y : Float
  heading : Float

/-- A turtle with the poses it has saved, the latest first. -/
structure Turtle where
  pose : Pose
  saved : List Pose

/-- A vertex that a turtle leaves behind; those of a bridge are not drawn. -/
structure Mark where
  x : Float
  y : Float
  bridge : Bool

namespace Mark

/-- The vertex of a mark: black where it shows, otherwise transparent. -/
def vertex (mark : Mark) : Vertex :=
  ⟨⟨Precision.narrow mark.x, Precision.narrow mark.y⟩,
    if mark.bridge then .transparent else .black⟩

end Mark

namespace Pose

def mark (pose : Pose) (bridge : Bool) : Mark :=
  ⟨pose.x, pose.y, bridge⟩

/-- One step ahead.  The second coordinate grows downward. -/
def advance (settings : TurtleSettings) (pose : Pose) : Pose :=
  { pose with
    x := pose.x + settings.step * pose.heading.cos
    y := pose.y - settings.step * pose.heading.sin }

end Pose

namespace Turtle

def atStart (settings : TurtleSettings) : Turtle :=
  ⟨⟨settings.startX, settings.startY, settings.heading⟩, []⟩

/-- Follow one order; the marks are those left on the way.  Without a saved pose
there is nothing to go back to. -/
def follow (settings : TurtleSettings) (turtle : Turtle) : Order → List Mark × Turtle
  | .goForward =>
      let pose := turtle.pose.advance settings
      ([pose.mark false], { turtle with pose })
  | .turnRight =>
      ([], { turtle with
        pose := { turtle.pose with heading := turtle.pose.heading + settings.turn } })
  | .turnLeft =>
      ([], { turtle with
        pose := { turtle.pose with heading := turtle.pose.heading - settings.turn } })
  | .savePosition => ([], { turtle with saved := turtle.pose :: turtle.saved })
  | .loadPosition =>
      match turtle.saved with
      | [] => ([], turtle)
      | pose :: saved =>
          ([turtle.pose.mark true, pose.mark true, pose.mark false], ⟨pose, saved⟩)

end Turtle

/-- A turtle on its way, with the line drawn so far. -/
structure Walk where
  turtle : Turtle
  stream : Stream

namespace Walk

/-- Add marks to the line, all of one depth. -/
def leave (depth : Nat) (stream : Stream) (marks : List Mark) : Stream :=
  marks.foldl (fun stream mark => stream.push mark.vertex depth mark.bridge) stream

/-- Take in one symbol of a word with its depth.  A symbol without an order does
nothing. -/
def next (settings : TurtleSettings) (table : Interpretation) (walk : Walk)
    (entry : Char × Nat) : Walk :=
  match table.get? entry.1 with
  | none => walk
  | some order =>
      let (marks, turtle) := walk.turtle.follow settings order
      ⟨turtle, leave entry.2 walk.stream marks⟩

/-- The line starts with a vertex at the turtle's first place, which has the
depth of the first symbol. -/
def start (settings : TurtleSettings) (counts : List Nat) : Walk :=
  let turtle := Turtle.atStart settings
  ⟨turtle, leave (counts.headD 0) .empty [turtle.pose.mark false]⟩

end Walk

/-- The line of a word, given a depth for each symbol. -/
def Turtle.draw (settings : TurtleSettings) (table : Interpretation) (word : Word)
    (counts : List Nat) : Except Fault Stream := do
  checkLength .recursion word.length counts.length
  return ((word.zip counts).foldl (Walk.next settings table)
    (Walk.start settings counts)).stream

theorem Walk.next_of_get?_eq_none {settings : TurtleSettings} {table : Interpretation}
    {walk : Walk} {entry : Char × Nat} (h : table.get? entry.1 = none) :
    walk.next settings table entry = walk := by
  simp [Walk.next, h]

theorem Turtle.draw_eq_error_iff (settings : TurtleSettings) (table : Interpretation)
    (word : Word) (counts : List Nat) :
    (∃ fault, Turtle.draw settings table word counts = .error fault) ↔
      word.length ≠ counts.length := by
  unfold Turtle.draw checkLength
  split <;> simp_all [bind, Except.bind, pure, Except.pure]

end LineGrammar
