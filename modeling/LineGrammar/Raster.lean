/-
Drawing a line into a square image.  Consecutive vertices are joined by a segment
that runs from one color to the other; a segment with an invisible end is left
out, so bridges never show.
-/
import LineGrammar.Stream

namespace LineGrammar

/-- A square image, row after row from the top. -/
structure Image where
  size : Nat
  pixels : Array Color
deriving DecidableEq

namespace Image

/-- Whether memory can hold an image, four bytes to a pixel. -/
def fits (size : Nat) : Bool :=
  4 * size * size ≤ 0x7fffffffffffffff

def blank (size : Nat) (background : Color) : Image :=
  ⟨size, Array.replicate (size * size) background⟩

/-- The color of a pixel, if it lies in the image. -/
def get? (image : Image) (x y : Nat) : Option Color :=
  if x < image.size ∧ y < image.size then image.pixels[y * image.size + x]? else none

end Image

namespace Raster

/-- One channel of a color laid over another. -/
def blendChannel (opacity : Float32) (upper lower : UInt8) : UInt8 :=
  Single.toByte (upper.toFloat32 * opacity + lower.toFloat32 * (1 - opacity))

/-- A color laid over another.  The result is as opaque as the more opaque one. -/
def layOver (upper lower : Color) : Color :=
  let opacity := upper.alpha.toFloat32 / 255
  ⟨blendChannel opacity upper.red lower.red, blendChannel opacity upper.green lower.green,
    blendChannel opacity upper.blue lower.blue, max lower.alpha upper.alpha⟩

/-- Lay a color over a pixel; places outside the image are passed over. -/
def blend (image : Image) (x y : Int) (color : Color) : Image :=
  if 0 ≤ x ∧ 0 ≤ y ∧ x < image.size ∧ y < image.size then
    { image with
      pixels := image.pixels.modify (y.toNat * image.size + x.toNat) (layOver color) }
  else image

/-- How the drawing plane is mapped to an image. -/
structure Frame where
  scale : Float32
  offset : Point
  origin : Point

/-- The part of the image that stays empty on each side. -/
def margin : Float32 := 0.05

/-- The mapping that centers a box and fills the image up to the margin with its
longer side. -/
def Frame.fit (box : Box) (size : Nat) : Frame :=
  let side := Single.ofCount size
  let extent := Single.greater box.width box.height
  let scale := if 0 < extent then side * (1 - 2 * margin) / extent else 1
  ⟨scale, ⟨(side - box.width * scale) / 2, (side - box.height * scale) / 2⟩,
    ⟨box.left, box.top⟩⟩

def Frame.project (frame : Frame) (point : Point) : Point :=
  ⟨(point.x - frame.origin.x) * frame.scale + frame.offset.x,
    (point.y - frame.origin.y) * frame.scale + frame.offset.y⟩

/-- A segment between two points of an image. -/
structure Segment where
  start : Point
  finish : Point
  startColor : Color
  finishColor : Color

namespace Segment

/-- One step for each pixel along the longer side, and at least one. -/
def steps (segment : Segment) : Nat :=
  let dx := segment.finish.x - segment.start.x
  let dy := segment.finish.y - segment.start.y
  max (Single.ceiling (Single.greater dx.abs dy.abs)) 1

def plot (segment : Segment) (steps : Nat) (image : Image) (step : Nat) : Image :=
  let t := Single.ofCount step / Single.ofCount steps
  let dx := segment.finish.x - segment.start.x
  let dy := segment.finish.y - segment.start.y
  blend image (Single.toNearest (segment.start.x + dx * t))
    (Single.toNearest (segment.start.y + dy * t))
    (segment.startColor.lerp segment.finishColor t)

def plotFrom (segment : Segment) (steps : Nat) : Nat → Nat → Image → Image
  | _, 0, image => image
  | step, more + 1, image =>
      plotFrom segment steps (step + 1) more (segment.plot steps image step)

def draw (image : Image) (segment : Segment) : Image :=
  let steps := segment.steps
  segment.plotFrom steps 0 (steps + 1) image

end Segment

/-- The pairs of neighbouring vertices that are joined by a segment: both ends
must be visible. -/
def strokes : List Vertex → List (Vertex × Vertex)
  | first :: second :: rest =>
      if first.color.isTransparent || second.color.isTransparent then strokes (second :: rest)
      else (first, second) :: strokes (second :: rest)
  | _ => []

/-- The segment of a pair of vertices. -/
def segment (frame : Frame) (first second : Vertex) : Segment :=
  ⟨frame.project first.position, frame.project second.position, first.color,
    second.color⟩

/-- Join a vertex to the one before it, if both are visible. -/
def join (frame : Frame) (drawn : Option Vertex × Image) (vertex : Vertex) :
    Option Vertex × Image :=
  match drawn with
  | (none, image) => (some vertex, image)
  | (some previous, image) =>
      if previous.color.isTransparent || vertex.color.isTransparent then (some vertex, image)
      else (some vertex, (segment frame previous vertex).draw image)

/-- Draw a line into an image of its own.  A line of one vertex is a point. -/
def draw (vertices : Array Vertex) (box : Box) (size : Nat) (background : Color) : Image :=
  let image := Image.blank size background
  let frame := Frame.fit box size
  if h : vertices.size = 1 then
    let vertex := vertices[0]
    if vertex.color.isTransparent then image
    else
      let point := frame.project vertex.position
      blend image (Single.toNearest point.x) (Single.toNearest point.y) vertex.color
  else (vertices.foldl (join frame) (none, image)).2

/-- The segments of a line are drawn one after another. -/
theorem foldl_join (frame : Frame) (vertices : List Vertex) (previous : Vertex)
    (image : Image) :
    (vertices.foldl (join frame) (some previous, image)).2 =
      (strokes (previous :: vertices)).foldl
        (fun image stroke => (segment frame stroke.1 stroke.2).draw image) image := by
  induction vertices generalizing previous image with
  | nil => rfl
  | cons vertex vertices ih =>
      simp only [List.foldl_cons, join, strokes]
      split
      · exact ih vertex image
      · rw [ih]
        rfl

end Raster

end LineGrammar
