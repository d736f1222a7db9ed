/-
Painters: a shade with the colors for its scalars, or a composite.  The main
painter of a composite colors nothing; its scalars divide the vertices among the
children, each of which paints its own as if they were a whole drawing.
-/
import LineGrammar.Change
import LineGrammar.Generator
import LineGrammar.Painter.Pools

namespace LineGrammar

/-- A painter whose random shades draw from sources of type `R`. -/
inductive Painter (R : Type) where
  | leaf (shade : Shade R) (generator : Generator)
  | composite (main : Painter R) (children : List (Painter R))

/-- Induction over painters: the children of a composite are all at hand. -/
@[elab_as_elim, induction_eliminator]
theorem Painter.induct {R : Type} {motive : Painter R → Prop}
    (leaf : ∀ shade generator, motive (.leaf shade generator))
    (composite : ∀ main children, motive main → (∀ child ∈ children, motive child) →
      motive (.composite main children)) (painter : Painter R) : motive painter :=
  match painter with
  | .leaf shade generator => leaf shade generator
  | .composite main children =>
      composite main children (Painter.induct leaf composite main) fun child _ =>
        Painter.induct leaf composite child

/-- A painter as it is described: random shades have a seed or are left to chance. -/
abbrev PainterPlan := Painter (Option UInt64)

mutual

/-- Whether two painters are put together alike from equal parts. -/
def Painter.same {R : Type} [BEq R] : Painter R → Painter R → Bool
  | .leaf shade generator, .leaf shade' generator' => shade == shade' && generator == generator'
  | .composite main children, .composite main' children' =>
      Painter.same main main' && Painter.sameAll children children'
  | _, _ => false

def Painter.sameAll {R : Type} [BEq R] : List (Painter R) → List (Painter R) → Bool
  | [], [] => true
  | child :: rest, child' :: rest' => Painter.same child child' && Painter.sameAll rest rest'
  | _, _ => false

end

instance {R : Type} [BEq R] : BEq (Painter R) := ⟨Painter.same⟩

/-- The demand for one color: a vertex, and the scalar and the colors that a
painter has for it. -/
structure Demand where
  index : Nat
  generator : Generator
  scalar : Float32

namespace Painter

def default : PainterPlan :=
  .leaf .constant .default

/-- The colors of a painter that is no composite. -/
def generator? {R : Type} : Painter R → Option Generator
  | leaf _ generator => some generator
  | composite _ _ => none

/-- The indices of each child's vertices, from the scalars of the main painter. -/
def pools (count : Nat) (canvas : Canvas) (demands : List Demand) : List (Array Nat) :=
  (Pools.members (Pools.ofScalars count canvas.spots.size
    (demands.map fun demand => (demand.index, demand.scalar))) count).toList

mutual

/-- The colors a painter asks for, in the order in which it asks. -/
def demands : Painter Draws → Canvas → List Demand
  | .leaf shade generator, canvas =>
      (shade.scalars canvas).map fun (index, scalar) => ⟨index, generator, scalar⟩
  | .composite main [], canvas => demands main canvas
  | .composite main (child :: others), canvas =>
      poolDemands (child :: others)
        (pools (others.length + 1) canvas (demands main canvas)) canvas

/-- The colors that children ask for, each in its pool. -/
def poolDemands : List (Painter Draws) → List (Array Nat) → Canvas → List Demand
  | child :: children, indices :: pools, canvas =>
      (demands child (canvas.select indices)).map (fun demand =>
        { demand with index := indices[demand.index]?.getD 0 })
      ++ poolDemands children pools canvas
  | _, _, _ => []

end

section Recolor

variable (search : Search LinearKey)

mutual

/-- Color vertices.  The children of a composite color copies of the vertices in their pools,
which are put back where they were taken from. -/
def recolor : Painter Draws → Canvas → Array Vertex → Array Vertex
  | .leaf shade generator, canvas, vertices =>
      (shade.scalars canvas).foldl (fun vertices (index, scalar) =>
        vertices.modify index fun vertex => { vertex with color := generator.color search scalar })
        vertices
  | .composite main [], canvas, vertices => recolor main canvas vertices
  | .composite main (child :: others), canvas, vertices =>
      recolorPools (child :: others)
        (pools (others.length + 1) canvas (demands main canvas)) canvas vertices

/-- Color the vertices of each pool by its child. -/
def recolorPools : List (Painter Draws) → List (Array Nat) → Canvas → Array Vertex → Array Vertex
  | child :: children, indices :: pools, canvas, vertices =>
      let colored := recolor child (canvas.select indices) (Pools.gather vertices indices)
      recolorPools children pools canvas (Pools.scatter vertices indices colored)
  | _, _, _, vertices => vertices

end

end Recolor

/-- The places of a tree of painters, each given by the numbers of the branches
that lead to it, the last one first. -/
abbrev Path := List Nat

mutual

/-- Replace the source of each random shade, depending on its place. -/
def mapSources {R S : Type} (f : Path → R → S) (path : Path) : Painter R → Painter S
  | .leaf shade generator => .leaf (shade.mapSource (f path)) generator
  | .composite main children =>
      .composite (mapSources f (0 :: path) main) (mapSourcesAll f path 1 children)

def mapSourcesAll {R S : Type} (f : Path → R → S) (path : Path) (branch : Nat) :
    List (Painter R) → List (Painter S)
  | [] => []
  | child :: children =>
      mapSources f (branch :: path) child :: mapSourcesAll f path (branch + 1) children

end

/-- A painter ready to paint: seeds give their scalars, and where there is none,
chance does. -/
def resolve (seeded : UInt64 → Draws) (chance : Path → Draws) (plan : PainterPlan) :
    Painter Draws :=
  mapSources (fun path seed => (seed.map seeded).getD (chance path)) [] plan

/-- What painting needs from elsewhere: the scalars of a seed, and a search among the keys of a
gradient. -/
structure Tools where
  seeded : UInt64 → Draws
  search : Search LinearKey

section Paint

variable (search : Search LinearKey)

/-- Color vertices in place, given a depth for each and whether it belongs to a bridge.
Bridges keep their colors.  Lists that do not belong to the vertices are refused first. -/
def paintInPlace (painter : Painter Draws) (depths : Array Nat) (bridges : Array Bool)
    (maxDepth : Nat) (box : Box) : Change (Array Vertex) Unit := do
  let vertices ← get
  checkLength .iterationDepths vertices.size depths.size
  checkLength .transparency vertices.size bridges.size
  let spots := Array.zipWith (fun (vertex, depth) bridge => ⟨vertex.position, depth, bridge⟩)
    (vertices.zip depths) bridges
  set (painter.recolor search ⟨spots, maxDepth, box⟩ vertices)

/-- Some vertices in the colors that painting gives them. -/
def paintVertices (painter : Painter Draws) (vertices : Array Vertex) (depths : Array Nat)
    (bridges : Array Bool) (maxDepth : Nat) (box : Box) : Except Fault (Array Vertex) :=
  let (outcome, painted) :=
    (painter.paintInPlace search depths bridges maxDepth box).run.run vertices
  outcome.map fun () => painted

/-- Color a line, given a box in place of its own. -/
def paintWithin (painter : Painter Draws) (box : Box) (stream : Stream) :
    Except Fault Stream := do
  let vertices ← painter.paintVertices search stream.vertices stream.depths stream.bridges
    stream.maxDepth box
  return { stream with vertices }

/-- Color a line within its own box. -/
def paintStream (painter : Painter Draws) (stream : Stream) : Except Fault Stream :=
  painter.paintWithin search stream.box stream

end Paint

end Painter

end LineGrammar
