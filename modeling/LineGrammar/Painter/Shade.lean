/-
Shades: the ways of giving each visible vertex of a drawing a scalar, mostly in
the unit interval.
-/
import LineGrammar.Stream

namespace LineGrammar

/-- An endless sequence of random scalars. -/
abbrev Draws := Nat → Float32

/-- What a painter knows of a vertex. -/
structure Spot where
  point : Point
  depth : Nat
  bridge : Bool

instance : Inhabited Spot := ⟨⟨default, 0, false⟩⟩

/-- The vertices to paint, with the deepest depth and the box of the whole
drawing. -/
structure Canvas where
  spots : Array Spot
  maxDepth : Nat
  box : Box

namespace Canvas

def select (canvas : Canvas) (indices : Array Nat) : Canvas :=
  { canvas with spots := indices.map fun index => canvas.spots[index]?.getD default }

/-- The spots that are not part of a bridge, with their indices. -/
def visible (canvas : Canvas) : List (Nat × Spot) :=
  (canvas.spots.toList.zipIdx.filter fun (spot, _) => !spot.bridge).map fun (spot, index) =>
    (index, spot)

end Canvas

/-- A way of giving scalars to vertices.  Random shades draw from a source `R`. -/
inductive Shade (R : Type) where
  | constant
  | linear (angle : Float32) (center : Point)
  | radial (center : Point)
  | sequential (factor : Float32)
  | iteration
  | blockRandom (size : Nat) (source : R)
deriving BEq

namespace Shade

/-- The longest of some lengths, zero if there is none. -/
def reach (lengths : List Float32) : Float32 :=
  lengths.foldl Single.greater 0

/-- The signed distance of a point from a center along a direction given by its
angle, which turns upward on the screen. -/
def project (angle : Float32) (center point : Point) : Float32 :=
  (point.x - center.x) * angle.cos + (point.y - center.y) * -angle.sin

/-- Distances along a direction, scaled so that the farthest corner of the box
lies at an end of the unit interval and the center in its middle. -/
def linearScalar (angle : Float32) (center : Point) (box : Box) : Point → Float32 :=
  let center := box.pointAt center
  let reach := reach (box.corners.map fun corner => (project angle center corner).abs)
  fun point =>
    if 0 < reach then Single.clampUnit (0.5 + project angle center point / (2 * reach))
    else 0.5

/-- Distances from a center, scaled so that the farthest corner of the box lies at
one. -/
def radialScalar (center : Point) (box : Box) : Point → Float32 :=
  let center := box.pointAt center
  let reach := reach (box.corners.map fun corner => corner.distance center)
  fun point =>
    if 0 < reach then Single.clampUnit (point.distance center / reach) else 0

/-- The place of a vertex in the sequence, repeated `factor` times. -/
def sequentialScalar (factor : Float32) (count : Nat) (index : Nat) : Float32 :=
  Single.fraction (Single.ofCount index * factor / Single.ofCount count)

/-- A depth as a part of the deepest one. -/
def iterationScalar (maxDepth depth : Nat) : Float32 :=
  if maxDepth = 0 then 0 else Single.ofCount depth / Single.ofCount maxDepth

/-- A run through the visible vertices that draws one scalar for each block. -/
structure BlockRun where
  current : Option (Nat × Float32)
  drawn : Nat
  scalars : Array (Nat × Float32)

namespace BlockRun

def start : BlockRun := ⟨none, 0, #[]⟩

/-- Give a vertex the scalar of its block, which is drawn if the block is new. -/
def visit (draws : Draws) (size : Nat) (run : BlockRun) (index : Nat) : BlockRun :=
  let block := index / size
  let draw : BlockRun :=
    let scalar := draws run.drawn
    ⟨some (block, scalar), run.drawn + 1, run.scalars.push (index, scalar)⟩
  match run.current with
  | some (last, scalar) =>
      if last = block then { run with scalars := run.scalars.push (index, scalar) } else draw
  | none => draw

end BlockRun

/-- One draw for each block of vertices with a visible one in it.  Blocks have at
least one vertex. -/
def blockScalars (draws : Draws) (size : Nat) (visible : List Nat) : List (Nat × Float32) :=
  (visible.foldl (BlockRun.visit draws (max size 1)) .start).scalars.toList

/-- The visible vertices with their scalars, in ascending order. -/
def scalars (shade : Shade Draws) (canvas : Canvas) : List (Nat × Float32) :=
  let each (scalar : Nat → Spot → Float32) : List (Nat × Float32) :=
    canvas.visible.map fun (index, spot) => (index, scalar index spot)
  match shade with
  | constant => each fun _ _ => 0.5
  | linear angle center =>
      let scalar := linearScalar angle center canvas.box
      each fun _ spot => scalar spot.point
  | radial center =>
      let scalar := radialScalar center canvas.box
      each fun _ spot => scalar spot.point
  | sequential factor => each fun index _ => sequentialScalar factor canvas.spots.size index
  | iteration => each fun _ spot => iterationScalar canvas.maxDepth spot.depth
  | blockRandom size draws => blockScalars draws size (canvas.visible.map (·.1))

def mapSource {R S : Type} (f : R → S) : Shade R → Shade S
  | constant => constant
  | linear angle center => linear angle center
  | radial center => radial center
  | sequential factor => sequential factor
  | iteration => iteration
  | blockRandom size source => blockRandom size (f source)

end Shade

end LineGrammar
