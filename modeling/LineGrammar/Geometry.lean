/-
Points of the drawing plane and upright boxes around them.
-/
import LineGrammar.Number.Single

namespace LineGrammar

/-- A point of the drawing plane; the second coordinate grows downward. -/
structure Point where
  x : Float32
  y : Float32
deriving BEq

instance : Inhabited Point := ⟨⟨0, 0⟩⟩

/-- An upright box, given by its corner at the top left and its size. -/
structure Box where
  left : Float32
  top : Float32
  width : Float32
  height : Float32

namespace Point

def lower (p q : Point) : Point :=
  ⟨Single.lesser p.x q.x, Single.lesser p.y q.y⟩

def upper (p q : Point) : Point :=
  ⟨Single.greater p.x q.x, Single.greater p.y q.y⟩

def distance (p q : Point) : Float32 :=
  Single.length (p.x - q.x) (p.y - q.y)

end Point

namespace Box

/-- The smallest box around some points; without points it is the box of size
zero at the origin. -/
def around : List Point → Box
  | [] => ⟨0, 0, 0, 0⟩
  | first :: rest =>
      let low := rest.foldl Point.lower first
      let high := rest.foldl Point.upper first
      ⟨low.x, low.y, high.x - low.x, high.y - low.y⟩

/-- The point at coordinates relative to the box, in which the box is the unit
square. -/
def pointAt (box : Box) (relative : Point) : Point :=
  ⟨box.left + relative.x * box.width, box.top + relative.y * box.height⟩

/-- The corners, the upper two first, each pair from left to right. -/
def corners (box : Box) : List Point :=
  let right := box.left + box.width
  let bottom := box.top + box.height
  [⟨box.left, box.top⟩, ⟨right, box.top⟩, ⟨box.left, bottom⟩, ⟨right, bottom⟩]

end Box

end LineGrammar
