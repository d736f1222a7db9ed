/-
Painting with an eye on depths.  Here a shade of depths has no result if a vertex is deeper than
the depth of the drawing, or if it divides by zero.  On a drawing whose depth is the largest of
its depths neither ever happens, however deep in a tree of painters the shade stands.
-/
import LineGrammar.Proofs.Number.Arithmetic
import LineGrammar.Proofs.Painter.InPlace

namespace LineGrammar

def Single.quotient? (x y : Float32) : Option Float32 :=
  if y == 0 then none else some (x / y)

namespace Canvas

structure Bounded (canvas : Canvas) : Prop where
  depth_le : ∀ spot ∈ canvas.spots, spot.depth ≤ canvas.maxDepth
  maxDepth_lt : canvas.maxDepth < 2 ^ 64

variable {canvas : Canvas}

/-- What is selected is no deeper, and a vertex that is missing has no depth. -/
theorem Bounded.select (h : canvas.Bounded) (indices : Array Nat) :
    (canvas.select indices).Bounded where
  depth_le := by
    intro spot hspot
    obtain ⟨index, -, rfl⟩ := Array.mem_map.mp hspot
    change (canvas.spots[index]?.getD default).depth ≤ canvas.maxDepth
    cases hget : canvas.spots[index]? with
    | none => exact Nat.zero_le _
    | some spot => exact h.depth_le spot (Array.mem_of_getElem? hget)
  maxDepth_lt := h.maxDepth_lt

theorem Bounded.depth_le_of_visible (h : canvas.Bounded) {entry : Nat × Spot}
    (hentry : entry ∈ canvas.visible) : entry.2.depth ≤ canvas.maxDepth := by
  simp only [visible, List.mem_map, List.mem_filter] at hentry
  obtain ⟨⟨spot, index⟩, ⟨hspot, -⟩, rfl⟩ := hentry
  exact h.depth_le spot (Array.mem_toList_iff.mp (List.fst_mem_of_mem_zipIdx hspot))

end Canvas

theorem mapM_eq_some_map {A B : Type} {f : A → Option B} {g : A → B} {list : List A}
    (h : ∀ a ∈ list, f a = some (g a)) : list.mapM f = some (list.map g) := by
  induction list with
  | nil => rfl
  | cons first rest ih =>
      rw [List.mapM_cons, h first List.mem_cons_self,
        ih fun a ha => h a (List.mem_cons_of_mem first ha)]
      rfl

namespace Shade

/-- A depth as a part of the deepest one, with a divisor that is not zero. -/
def iterationScalar? (maxDepth depth : Nat) : Option Float32 :=
  if maxDepth = 0 then some 0
  else Single.quotient? (Single.ofCount depth) (Single.ofCount maxDepth)

/-- The scalars of a shade.  A depth may not exceed the deepest one. -/
def scalars? (shade : Shade Draws) (canvas : Canvas) : Option (List (Nat × Float32)) :=
  match shade with
  | iteration => canvas.visible.mapM fun (index, spot) => do
      let scalar ← iterationScalar? canvas.maxDepth spot.depth
      if spot.depth ≤ canvas.maxDepth then return (index, scalar) else none
  | constant | linear _ _ | radial _ | sequential _ | blockRandom _ _ =>
      some (shade.scalars canvas)

/-- Nothing is divided by zero, whatever the depths are. -/
theorem iterationScalar?_eq {maxDepth : Nat} (h : maxDepth < 2 ^ 64) (depth : Nat) :
    iterationScalar? maxDepth depth = some (iterationScalar maxDepth depth) := by
  unfold iterationScalar? iterationScalar
  split
  · rfl
  · next hzero =>
      have hnumber := Single.not_isNaN_of_isFinite (Single.isFinite_ofCount maxDepth)
      have hdivisor : ¬ (Single.ofCount maxDepth == 0) = true := by
        rw [Single.beq_iff_level hnumber Single.not_isNaN_zero, Single.level_zero]
        exact Single.level_ofCount_ne_zero (Nat.pos_of_ne_zero hzero) h
      exact if_neg hdivisor

theorem scalars?_eq {canvas : Canvas} (h : canvas.Bounded) (shade : Shade Draws) :
    shade.scalars? canvas = some (shade.scalars canvas) := by
  cases shade with
  | iteration =>
      have hentries : ∀ entry ∈ canvas.visible,
          (do
            let scalar ← iterationScalar? canvas.maxDepth entry.2.depth
            if entry.2.depth ≤ canvas.maxDepth then return (entry.1, scalar) else none) =
          some (entry.1, iterationScalar canvas.maxDepth entry.2.depth) := by
        intro entry hentry
        rw [iterationScalar?_eq h.maxDepth_lt, Option.bind_eq_bind, Option.bind_some,
          if_pos (h.depth_le_of_visible hentry)]
        rfl
      exact mapM_eq_some_map hentries
  | constant => rfl
  | linear angle center => rfl
  | radial center => rfl
  | sequential factor => rfl
  | blockRandom size draws => rfl

end Shade

namespace Painter

mutual

/-- The colors a painter asks for, if all its shades have scalars. -/
def demands? : Painter Draws → Canvas → Option (List Demand)
  | .leaf shade generator, canvas => do
      let scalars ← shade.scalars? canvas
      return scalars.map fun (index, scalar) => ⟨index, generator, scalar⟩
  | .composite main [], canvas => demands? main canvas
  | .composite main (child :: others), canvas => do
      let asked ← demands? main canvas
      poolDemands? (child :: others) (pools (others.length + 1) canvas asked) canvas

def poolDemands? : List (Painter Draws) → List (Array Nat) → Canvas → Option (List Demand)
  | child :: children, indices :: pools, canvas => do
      let asked ← demands? child (canvas.select indices)
      let rest ← poolDemands? children pools canvas
      return asked.map (fun demand => { demand with index := indices[demand.index]?.getD 0 })
        ++ rest
  | _, _, _ => some []

end

section Recolor

variable (search : Search LinearKey)

mutual

def recolor? : Painter Draws → Canvas → Array Vertex → Option (Array Vertex)
  | .leaf shade generator, canvas, vertices => do
      let scalars ← shade.scalars? canvas
      return scalars.foldl (fun vertices (index, scalar) =>
        vertices.modify index fun vertex => { vertex with color := generator.color search scalar })
        vertices
  | .composite main [], canvas, vertices => recolor? main canvas vertices
  | .composite main (child :: others), canvas, vertices => do
      let asked ← demands? main canvas
      recolorPools? (child :: others) (pools (others.length + 1) canvas asked) canvas vertices

def recolorPools? :
    List (Painter Draws) → List (Array Nat) → Canvas → Array Vertex → Option (Array Vertex)
  | child :: children, indices :: pools, canvas, vertices => do
      let colored ← recolor? child (canvas.select indices) (Pools.gather vertices indices)
      recolorPools? children pools canvas (Pools.scatter vertices indices colored)
  | _, _, _, vertices => some vertices

end

def paintStream? (painter : Painter Draws) (line : Stream) : Option Stream := do
  let canvas := canvasOf line.vertices line.depths line.bridges line.maxDepth line.box
  return { line with vertices := ← recolor? search painter canvas line.vertices }

end Recolor

variable {search : Search LinearKey}

theorem poolDemands?_eq {children : List (Painter Draws)} {canvas : Canvas}
    (h : canvas.Bounded) (hchildren : ∀ child ∈ children, ∀ canvas, canvas.Bounded →
      demands? child canvas = some (demands child canvas)) (pools : List (Array Nat)) :
    poolDemands? children pools canvas = some (poolDemands children pools canvas) := by
  induction children generalizing pools with
  | nil => rfl
  | cons child children ih =>
      cases pools with
      | nil => rfl
      | cons indices pools =>
          rw [poolDemands?, hchildren child List.mem_cons_self _ (h.select indices),
            ih (fun other hother => hchildren other (List.mem_cons_of_mem child hother)) pools]
          rfl

theorem demands?_eq (painter : Painter Draws) {canvas : Canvas} (h : canvas.Bounded) :
    demands? painter canvas = some (demands painter canvas) := by
  induction painter generalizing canvas with
  | leaf shade generator =>
      rw [demands?, shade.scalars?_eq h]
      rfl
  | composite main children ihMain ihChildren =>
      cases children with
      | nil => exact ihMain h
      | cons child others =>
          rw [demands?, ihMain h]
          exact poolDemands?_eq h (fun child hchild canvas => ihChildren child hchild) _

theorem recolorPools?_eq {children : List (Painter Draws)} {canvas : Canvas}
    (h : canvas.Bounded) (hchildren : ∀ child ∈ children, ∀ canvas vertices, canvas.Bounded →
      recolor? search child canvas vertices = some (recolor search child canvas vertices))
    (pools : List (Array Nat)) (vertices : Array Vertex) :
    recolorPools? search children pools canvas vertices =
      some (recolorPools search children pools canvas vertices) := by
  induction children generalizing pools vertices with
  | nil => rfl
  | cons child children ih =>
      cases pools with
      | nil => rfl
      | cons indices pools =>
          rw [recolorPools?, hchildren child List.mem_cons_self _ _ (h.select indices)]
          exact ih (fun other hother => hchildren other (List.mem_cons_of_mem child hother)) _ _

/-- No shade of a painter ever divides by zero or exceeds the depth of the drawing. -/
theorem recolor?_eq (painter : Painter Draws) {canvas : Canvas} (h : canvas.Bounded)
    (vertices : Array Vertex) :
    recolor? search painter canvas vertices = some (recolor search painter canvas vertices) := by
  induction painter generalizing canvas vertices with
  | leaf shade generator =>
      rw [recolor?, shade.scalars?_eq h]
      rfl
  | composite main children ihMain ihChildren =>
      cases children with
      | nil => exact ihMain h vertices
      | cons child others =>
          rw [recolor?, demands?_eq main h]
          exact recolorPools?_eq h (fun child hchild canvas vertices h =>
            ihChildren child hchild h vertices) _ _

theorem bounded_canvasOf {vertices : Array Vertex} {depths : Array Nat} {bridges : Array Bool}
    {maxDepth : Nat} {box : Box} (hle : ∀ depth ∈ depths, depth ≤ maxDepth)
    (hlt : maxDepth < 2 ^ 64) : (canvasOf vertices depths bridges maxDepth box).Bounded where
  depth_le := by
    intro spot hspot
    obtain ⟨i, hi, rfl⟩ := Array.mem_iff_getElem.mp hspot
    simp only [canvasOf, Array.getElem_zipWith, Array.getElem_zip]
    exact hle _ (Array.getElem_mem _)
  maxDepth_lt := hlt

/-- A line whose depth bounds its depths is painted without a fault. -/
theorem exists_paintStream? (search : Search LinearKey) (painter : Painter Draws) {line : Stream}
    (hdepths : line.depths.size = line.vertices.size)
    (hbridges : line.bridges.size = line.vertices.size)
    (hle : ∀ depth ∈ line.depths, depth ≤ line.maxDepth) (hlt : line.maxDepth < 2 ^ 64) :
    ∃ painted, painter.paintStream? search line = some painted ∧
      painter.paintStream search line = .ok painted := by
  rw [paintStream?, recolor?_eq painter (bounded_canvasOf hle hlt), paintStream, paintWithin,
    paintVertices, run_paintInPlace_of_sizes painter hdepths hbridges]
  exact ⟨_, rfl, rfl⟩

end Painter

end LineGrammar
