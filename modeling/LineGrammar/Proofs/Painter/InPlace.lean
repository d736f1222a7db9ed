/-
Painting in place.  Each child of a composite colors copies of the vertices of its pool, which
are then put back by their indices.  In the end every vertex has the color that the painter
asks for and stays where it is, and what is not visible or is refused stays as it was.
-/
import LineGrammar.Proofs.Painter.Assignment

namespace LineGrammar

variable {search : Search LinearKey}

namespace Demand

def answer (search : Search LinearKey) (colors : Array Color) (demand : Demand) : Array Color :=
  colors.setIfInBounds demand.index (demand.generator.color search demand.scalar)

theorem getElem?_foldl_answer (asked : List Demand) (colors : Array Color) (i : Nat) :
    (asked.foldl (answer search) colors)[i]? = colors[i]?.map fun old =>
      ((asked.filter fun demand => demand.index = i).getLast?.map
        fun demand => demand.generator.color search demand.scalar).getD old :=
  Pools.getElem?_foldl_setIfInBounds asked Demand.index
    (fun demand => demand.generator.color search demand.scalar) colors i

theorem size_foldl_answer (asked : List Demand) (colors : Array Color) :
    (asked.foldl (answer search) colors).size = colors.size :=
  Pools.size_foldl_setIfInBounds asked Demand.index
    (fun demand => demand.generator.color search demand.scalar) colors

/-- Coloring a pool apart and putting it back is coloring it in place. -/
theorem scatter_foldl_answer {asked : List Demand} {indices : Array Nat}
    {colors : Array Color} (hnodup : indices.toList.Nodup)
    (hrange : ∀ i ∈ indices, i < colors.size)
    (hasked : ∀ demand ∈ asked, demand.index < indices.size) :
    Pools.scatter colors indices (asked.foldl (answer search) (Pools.gather colors indices)) =
      (asked.map (relabel indices)).foldl (answer search) colors := by
  apply Array.ext_getElem?
  intro i
  rw [getElem?_foldl_answer]
  by_cases hi : i ∈ indices
  · obtain ⟨rank, hbound, hrank⟩ := Array.mem_iff_getElem.mp hi
    have hrank : indices[rank]? = some i := Array.getElem?_eq_some_iff.mpr ⟨hbound, hrank⟩
    have hsize : (asked.foldl (answer search) (Pools.gather colors indices)).size =
        indices.size := by
      rw [size_foldl_answer, Pools.size_gather]
    rw [Pools.getElem?_scatter hsize hnodup hrank (hrange i hi), getElem?_foldl_answer,
      Pools.getElem?_gather hrank (hrange i hi), filter_relabel hasked hnodup hrank,
      List.getLast?_map, Option.map_map]
    rfl
  · rw [Pools.getElem?_scatter_of_not_mem colors _ hi, filter_relabel_of_not_mem hasked hi]
    simp

end Demand

/-- Some vertices after painting: they stay in their order and where they are, and have given
colors. -/
structure Painted (vertices : Array Vertex) (colors : Array Color) (painted : Array Vertex) :
    Prop where
  positions_eq : painted.map Vertex.position = vertices.map Vertex.position
  colors_eq : painted.map Vertex.color = colors

namespace Painted

variable {vertices painted : Array Vertex} {colors : Array Color}

theorem refl (vertices : Array Vertex) :
    Painted vertices (vertices.map Vertex.color) vertices :=
  ⟨rfl, rfl⟩

/-- What is painted over shows the later colors. -/
theorem trans {later : Array Color} {last : Array Vertex} (h : Painted vertices colors painted)
    (hlater : Painted painted later last) : Painted vertices later last :=
  ⟨hlater.positions_eq.trans h.positions_eq, hlater.colors_eq⟩

theorem size_eq (h : Painted vertices colors painted) : painted.size = vertices.size := by
  simpa using congrArg Array.size h.positions_eq

theorem eq_zipWith (h : Painted vertices colors painted) :
    painted = Array.zipWith (fun vertex color => { vertex with color }) vertices colors := by
  have hparts : painted =
      Array.zipWith Vertex.mk (painted.map Vertex.position) (painted.map Vertex.color) := by
    rw [Array.zipWith_map, Array.zipWith_self, Array.map_id']
  rw [hparts, h.positions_eq, h.colors_eq, Array.zipWith_map_left]

theorem modify (vertices : Array Vertex) (i : Nat) (color : Color) :
    Painted vertices ((vertices.map Vertex.color).setIfInBounds i color)
      (vertices.modify i fun vertex => { vertex with color }) where
  positions_eq := by
    apply Array.ext_getElem?
    intro j
    rw [Array.getElem?_map, Array.getElem?_map, Array.getElem?_modify]
    split
    · rw [Option.map_map]
      rfl
    · rfl
  colors_eq := by
    apply Array.ext_getElem?
    intro j
    rw [Array.getElem?_map, Array.getElem?_modify, Array.getElem?_setIfInBounds,
      Array.getElem?_map, Array.size_map]
    split
    · subst i
      by_cases hj : j < vertices.size
      · simp [hj]
      · simp [hj]
    · rfl

/-- Copies that are painted apart and put back where they were taken from paint what they are
copies of. -/
theorem scatter {indices : Array Nat} (hrange : ∀ i ∈ indices, i < vertices.size)
    (h : Painted (Pools.gather vertices indices) colors painted) :
    Painted vertices (Pools.scatter (vertices.map Vertex.color) indices colors)
      (Pools.scatter vertices indices painted) where
  positions_eq := by
    have hplaces : ∀ i ∈ indices, i < (vertices.map Vertex.position).size := by
      simpa using hrange
    rw [Pools.map_scatter, h.positions_eq, Pools.map_gather Vertex.position hrange,
      Pools.scatter_gather hplaces]
  colors_eq := by
    rw [Pools.map_scatter, h.colors_eq]

end Painted

namespace Painter

/-- The colors of a drawing once everything that a painter asks for is answered. -/
def paint (search : Search LinearKey) (painter : Painter Draws) (canvas : Canvas)
    (colors : Array Color) : Array Color :=
  (demands painter canvas).foldl (Demand.answer search) colors

theorem size_paint (painter : Painter Draws) (canvas : Canvas) (colors : Array Color) :
    (paint search painter canvas colors).size = colors.size :=
  Demand.size_foldl_answer _ _

theorem getElem?_paint (painter : Painter Draws) (canvas : Canvas) (colors : Array Color)
    (i : Nat) :
    (paint search painter canvas colors)[i]? = colors[i]?.map fun old =>
      ((assigned painter canvas i).map (Assignment.color search)).getD old := by
  rw [paint, Demand.getElem?_foldl_answer, asksFor_demands painter canvas i]
  cases assigned painter canvas i with
  | none => rfl
  | some assignment => rfl

/-- The pools of a composite hold vertices of the drawing, and none of them twice. -/
theorem mem_pools {main : Painter Draws} {canvas : Canvas} {count : Nat} {indices : Array Nat}
    (h : indices ∈ pools count canvas (demands main canvas)) :
    indices.toList.Nodup ∧ ∀ i ∈ indices, i < canvas.spots.size := by
  rw [pools_eq (asksFor_demands main canvas)] at h
  obtain ⟨p, -, rfl⟩ := List.mem_map.mp h
  exact ⟨Pools.nodup_indicesOf _ _ p, fun i hi => (Pools.mem_indicesOf.mp hi).1⟩

theorem painted_leaf (steps : List (Nat × Float32)) (color : Float32 → Color)
    (vertices : Array Vertex) :
    Painted vertices
      (steps.foldl (fun colors step => colors.setIfInBounds step.1 (color step.2))
        (vertices.map Vertex.color))
      (steps.foldl (fun vertices step =>
        vertices.modify step.1 fun vertex => { vertex with color := color step.2 }) vertices) := by
  induction steps generalizing vertices with
  | nil => exact Painted.refl vertices
  | cons step steps ih =>
      have hfirst := Painted.modify vertices step.1 (color step.2)
      have hrest := ih (vertices.modify step.1 fun vertex =>
        { vertex with color := color step.2 })
      rw [hfirst.colors_eq] at hrest
      exact hfirst.trans hrest

/-- The vertices of each pool get the colors that its child asks for, if each child does as it
should. -/
theorem painted_recolorPools {children : List (Painter Draws)} {pools : List (Array Nat)}
    {canvas : Canvas} {vertices : Array Vertex}
    (hchildren : ∀ child ∈ children, ∀ canvas vertices, vertices.size = canvas.spots.size →
      Painted vertices (paint search child canvas (vertices.map Vertex.color))
        (recolor search child canvas vertices))
    (hnodup : ∀ indices ∈ pools, indices.toList.Nodup)
    (hrange : ∀ indices ∈ pools, ∀ i ∈ indices, i < vertices.size) :
    Painted vertices
      ((poolDemands children pools canvas).foldl (Demand.answer search) (vertices.map Vertex.color))
      (recolorPools search children pools canvas vertices) := by
  induction children generalizing pools vertices with
  | nil => simpa [recolorPools, poolDemands] using Painted.refl vertices
  | cons child children ih =>
      cases pools with
      | nil => simpa [recolorPools, poolDemands] using Painted.refl vertices
      | cons indices pools =>
          have hpool := hrange indices List.mem_cons_self
          have hcolors : ∀ i ∈ indices, i < (vertices.map Vertex.color).size := by
            simpa using hpool
          have hfirst := (hchildren child List.mem_cons_self (canvas.select indices)
            (Pools.gather vertices indices) (by simp [Canvas.select])).scatter hpool
          rw [Pools.map_gather Vertex.color hpool, paint,
            Demand.scatter_foldl_answer (hnodup indices List.mem_cons_self) hcolors
              (asksFor_demands child (canvas.select indices)).index_lt] at hfirst
          rw [recolorPools, poolDemands, List.foldl_append]
          -- The other children set out from what the first one leaves.
          apply hfirst.trans
          refine hfirst.colors_eq ▸ ih ?_ ?_ ?_
          · intro other hother
            exact hchildren other (List.mem_cons_of_mem child hother)
          · intro other hother
            exact hnodup other (List.mem_cons_of_mem indices hother)
          · intro other hother i hi
            rw [Pools.size_scatter]
            exact hrange other (List.mem_cons_of_mem indices hother) i hi

/-- Painting gives vertices the colors that the painter asks for, and moves none of them. -/
theorem painted_recolor (search : Search LinearKey) (painter : Painter Draws) (canvas : Canvas)
    (vertices : Array Vertex) (hsize : vertices.size = canvas.spots.size) :
    Painted vertices (paint search painter canvas (vertices.map Vertex.color))
      (recolor search painter canvas vertices) := by
  induction painter generalizing canvas vertices with
  | leaf shade generator =>
      rw [recolor, paint, demands, List.foldl_map]
      exact painted_leaf (shade.scalars canvas) (generator.color search) vertices
  | composite main children ihMain ihChildren =>
      cases children with
      | nil => exact ihMain canvas vertices hsize
      | cons child others =>
          rw [recolor, paint, demands]
          apply painted_recolorPools ihChildren
          · intro indices hindices
            exact (mem_pools hindices).1
          · intro indices hindices i hi
            rw [hsize]
            exact (mem_pools hindices).2 i hi

theorem getElem?_painted (search : Search LinearKey) (painter : Painter Draws)
    (vertices : Array Vertex) (canvas : Canvas) (i : Nat) :
    (Array.zipWith (fun vertex color => { vertex with color }) vertices
      (painter.paint search canvas (vertices.map (·.color))))[i]? = vertices[i]?.map fun vertex =>
      match assigned painter canvas i with
      | some assignment => { vertex with color := assignment.color search }
      | none => vertex := by
  rw [Array.getElem?_zipWith, getElem?_paint]
  cases hvertex : vertices[i]? with
  | none => rfl
  | some vertex =>
      cases assigned painter canvas i with
      | none => simp [hvertex]
      | some assignment => simp [hvertex]

/-- A vertex that is not visible stays as it was. -/
theorem getElem?_recolor_of_not_shows (painter : Painter Draws) {canvas : Canvas}
    {vertices : Array Vertex} (hsize : vertices.size = canvas.spots.size) {i : Nat}
    (hi : canvas.shows i = false) :
    (recolor search painter canvas vertices)[i]? = vertices[i]? := by
  rw [(painted_recolor search painter canvas vertices hsize).eq_zipWith, getElem?_painted,
    assigned_eq_none_iff.mpr hi]
  simp

def canvasOf (vertices : Array Vertex) (depths : Array Nat) (bridges : Array Bool)
    (maxDepth : Nat) (box : Box) : Canvas :=
  ⟨Array.zipWith (fun (vertex, depth) bridge => ⟨vertex.position, depth, bridge⟩)
    (vertices.zip depths) bridges, maxDepth, box⟩

section Vertices

variable {vertices : Array Vertex} {depths : Array Nat} {bridges : Array Bool}
variable {maxDepth : Nat} {box : Box}

theorem size_canvasOf (hdepths : depths.size = vertices.size)
    (hbridges : bridges.size = vertices.size) :
    (canvasOf vertices depths bridges maxDepth box).spots.size = vertices.size := by
  simp [canvasOf, hdepths, hbridges]

theorem shows_canvasOf (hdepths : depths.size = vertices.size)
    (hbridges : bridges.size = vertices.size) {i : Nat} {bridge : Bool}
    (hi : bridges[i]? = some bridge) :
    (canvasOf vertices depths bridges maxDepth box).shows i = !bridge := by
  obtain ⟨hbound, hbridge⟩ := Array.getElem?_eq_some_iff.mp hi
  have hvertex : i < vertices.size := by omega
  have hdepth : i < depths.size := by omega
  have hpair : (vertices.zip depths)[i]? = some (vertices[i], depths[i]) :=
    Array.getElem?_zip_eq_some.mpr
      ⟨Array.getElem?_eq_getElem hvertex, Array.getElem?_eq_getElem hdepth⟩
  simp [Canvas.shows, canvasOf, Array.getElem?_zipWith, hi, hpair]

/-- What painting in place does: lists that do not belong to the vertices are refused, the
depths first, and the vertices stay as they were. -/
theorem run_paintInPlace (painter : Painter Draws) :
    (painter.paintInPlace search depths bridges maxDepth box).run.run vertices =
      match checkLength .iterationDepths vertices.size depths.size with
      | .error fault => (.error fault, vertices)
      | .ok _ => match checkLength .transparency vertices.size bridges.size with
        | .error fault => (.error fault, vertices)
        | .ok _ =>
            let canvas := canvasOf vertices depths bridges maxDepth box
            (.ok (), painter.recolor search canvas vertices) := by
  rw [paintInPlace, Change.run_get_bind, Change.run_liftM_bind]
  cases checkLength .iterationDepths vertices.size depths.size with
  | error fault => rfl
  | ok _ =>
      dsimp only
      rw [Change.run_liftM_bind]
      cases checkLength .transparency vertices.size bridges.size with
      | error fault => rfl
      | ok _ => rfl

theorem run_paintInPlace_of_sizes (painter : Painter Draws)
    (hdepths : depths.size = vertices.size) (hbridges : bridges.size = vertices.size) :
    (painter.paintInPlace search depths bridges maxDepth box).run.run vertices =
      let canvas := canvasOf vertices depths bridges maxDepth box
      (.ok (), painter.recolor search canvas vertices) := by
  rw [run_paintInPlace, (checkLength_eq_ok_iff _ _ _).mpr hdepths.symm,
    (checkLength_eq_ok_iff _ _ _).mpr hbridges.symm]

theorem run_paintInPlace_of_depths (painter : Painter Draws)
    (hdepths : depths.size ≠ vertices.size) :
    (painter.paintInPlace search depths bridges maxDepth box).run.run vertices =
      (.error (.lengthMismatch .iterationDepths vertices.size depths.size), vertices) := by
  rw [run_paintInPlace, checkLength, if_neg hdepths.symm]

theorem run_paintInPlace_of_bridges (painter : Painter Draws)
    (hdepths : depths.size = vertices.size) (hbridges : bridges.size ≠ vertices.size) :
    (painter.paintInPlace search depths bridges maxDepth box).run.run vertices =
      (.error (.lengthMismatch .transparency vertices.size bridges.size), vertices) := by
  rw [run_paintInPlace, (checkLength_eq_ok_iff _ _ _).mpr hdepths.symm, checkLength,
    if_neg hbridges.symm]

end Vertices

/-- The frame of painting, for every tree of painters and whatever its random shades draw.  It
is refused exactly if a list does not belong to the vertices, and has changed none of them then.
Otherwise all of them stay in their order and where they are, and bridges keep their colors. -/
theorem paintInPlace_frame (painter : Painter Draws) (vertices : Array Vertex)
    (depths : Array Nat) (bridges : Array Bool) (maxDepth : Nat) (box : Box) :
    ∃ outcome after,
      (painter.paintInPlace search depths bridges maxDepth box).run.run vertices =
        (outcome, after) ∧
      ((∃ what actual, outcome = .error (.lengthMismatch what vertices.size actual)) ↔
        depths.size ≠ vertices.size ∨ bridges.size ≠ vertices.size) ∧
      (depths.size ≠ vertices.size ∨ bridges.size ≠ vertices.size → after = vertices) ∧
      (depths.size = vertices.size ∧ bridges.size = vertices.size →
        outcome = .ok () ∧ after.size = vertices.size ∧
        after.map Vertex.position = vertices.map Vertex.position ∧
        ∀ i : Nat, bridges[i]? = some true → after[i]? = vertices[i]?) := by
  by_cases hdepths : depths.size = vertices.size
  · by_cases hbridges : bridges.size = vertices.size
    · have hsize : vertices.size = (canvasOf vertices depths bridges maxDepth box).spots.size :=
        (size_canvasOf hdepths hbridges).symm
      have hpainted := painted_recolor search painter _ vertices hsize
      refine ⟨_, _, run_paintInPlace_of_sizes painter hdepths hbridges, ?_, ?_, ?_⟩
      · simp [hdepths, hbridges]
      · simp [hdepths, hbridges]
      · intro _
        refine ⟨rfl, hpainted.size_eq, hpainted.positions_eq, ?_⟩
        intro i hi
        apply getElem?_recolor_of_not_shows painter hsize
        rw [shows_canvasOf hdepths hbridges hi]
        rfl
    · refine ⟨_, _, run_paintInPlace_of_bridges painter hdepths hbridges, ?_, ?_, ?_⟩
      · simp [hbridges]
      · simp
      · exact fun hsizes => absurd hsizes.2 hbridges
  · refine ⟨_, _, run_paintInPlace_of_depths painter hdepths, ?_, ?_, ?_⟩
    · simp [hdepths]
    · simp
    · exact fun hsizes => absurd hsizes.1 hdepths

end Painter

end LineGrammar
