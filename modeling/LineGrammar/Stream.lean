/-
The vertices of a drawing in the order in which the line visits them.
-/
import LineGrammar.Color
import LineGrammar.Geometry

namespace LineGrammar

/-- A point of the line with its color. -/
structure Vertex where
  position : Point
  color : Color

instance : Inhabited Vertex := ⟨⟨default, .black⟩⟩

/-- The vertices of one line.  Each has a depth and may be part of a bridge,
which joins two strokes and is neither painted nor drawn. -/
structure Stream where
  vertices : Array Vertex
  depths : Array Nat
  bridges : Array Bool
  maxDepth : Nat

namespace Stream

def empty : Stream := ⟨#[], #[], #[], 0⟩

def size (stream : Stream) : Nat :=
  stream.vertices.size

def push (stream : Stream) (vertex : Vertex) (depth : Nat) (bridge : Bool) : Stream :=
  ⟨stream.vertices.push vertex, stream.depths.push depth, stream.bridges.push bridge,
    max stream.maxDepth depth⟩

def points (stream : Stream) : List Point :=
  stream.vertices.toList.map (·.position)

/-- The smallest box around all vertices, bridges included. -/
def box (stream : Stream) : Box :=
  Box.around stream.points

end Stream

end LineGrammar
