/-
Painters that look at each vertex alone.  Where no leaf of a tree of painters goes by the
place of a vertex in the sequence, a vertex is assigned alike in all drawings that show it
within the same box.  Which pool a bridge comes to lie in may change with the vertices before
it, but no color depends on that.  So painting a selection is selecting from the painting,
and children that are all alike paint as one.
-/
import LineGrammar.Proofs.Painter.Painting

namespace LineGrammar

/-- A shade that goes by the point and the depth of each vertex alone. -/
inductive Shade.Pointwise : Shade Draws → Prop
  | constant : Pointwise .constant
  | linear (angle : Float32) (center : Point) : Pointwise (.linear angle center)
  | radial (center : Point) : Pointwise (.radial center)
  | iteration : Pointwise .iteration

inductive Painter.Pointwise : Painter Draws → Prop
  | leaf {shade : Shade Draws} {generator : Generator} (hshade : shade.Pointwise) :
      Pointwise (.leaf shade generator)
  | composite {main : Painter Draws} {children : List (Painter Draws)}
      (hmain : Pointwise main) (hchildren : ∀ child ∈ children, Pointwise child) :
      Pointwise (.composite main children)

namespace Canvas

/-- Places of two drawings at which the same is seen, within the same box. -/
structure Alike (canvas other : Canvas) (i j : Nat) : Prop where
  spot_eq : other.spots[j]? = canvas.spots[i]?
  box_eq : other.box = canvas.box
  maxDepth_eq : other.maxDepth = canvas.maxDepth

variable {canvas other : Canvas} {i j : Nat}

theorem Alike.shows_eq (h : Alike canvas other i j) : other.shows j = canvas.shows i := by
  rw [shows, shows, h.spot_eq]

theorem Alike.spotAt_eq (h : Alike canvas other i j) : other.spotAt j = canvas.spotAt i := by
  rw [spotAt, spotAt, h.spot_eq]

/-- A selection shows the vertices that it was made of. -/
theorem alike_select {indices : Array Nat} {rank : Nat} (hrank : indices[rank]? = some i)
    (hi : i < canvas.spots.size) : Alike canvas (canvas.select indices) i rank where
  spot_eq := by simp [select, hrank, hi]
  box_eq := rfl
  maxDepth_eq := rfl

/-- The pool of a vertex shows it where it comes to lie. -/
theorem alike_select_indicesOf (pool : Nat → Nat) (hi : i < canvas.spots.size) :
    Alike canvas (canvas.select (Pools.indicesOf pool canvas.spots.size (pool i))) i
      ((Pools.indicesOf pool canvas.spots.size (pool i)).idxOf i) :=
  alike_select (Pools.getElem?_idxOf_indicesOf hi) hi

end Canvas

theorem Shade.Pointwise.scalarAt_eq {shade : Shade Draws} (hshade : shade.Pointwise)
    {canvas other : Canvas} {i j : Nat} (h : canvas.Alike other i j) :
    shade.scalarAt other j = shade.scalarAt canvas i := by
  cases hshade with
  | constant => rfl
  | linear angle center => simp only [scalarAt, h.spotAt_eq, h.box_eq]
  | radial center => simp only [scalarAt, h.spotAt_eq, h.box_eq]
  | iteration => simp only [scalarAt, h.spotAt_eq, h.maxDepth_eq]

namespace Painter

/-- A painter that assigns a vertex alike wherever the same is seen. -/
def Consistent (painter : Painter Draws) : Prop :=
  ∀ (canvas other : Canvas) (i j : Nat), canvas.Alike other i j →
    assigned painter other j = assigned painter canvas i

/-- The pool of a visible vertex is the part of its own scalar, whatever comes before. -/
theorem poolOf_of_assigned {main : Painter Draws} {canvas : Canvas} {i : Nat}
    {assignment : Assignment} (h : assigned main canvas i = some assignment) (count : Nat) :
    poolOf main count canvas i = Pools.part count assignment.scalar := by
  simp [poolOf, Pools.poolAt, Pools.latest, h]

/-- A consistent child assigns a vertex of its pool as it would in the whole drawing. -/
theorem assigned_composite_of_consistent {main child : Painter Draws}
    {others : List (Painter Draws)}
    (hchildren : ∀ other ∈ child :: others, Consistent other) {canvas : Canvas} {i : Nat}
    (hi : i < canvas.spots.size) :
    assigned (.composite main (child :: others)) canvas i =
      (child :: others)[poolOf main (others.length + 1) canvas i]?.bind
        fun chosen => assigned chosen canvas i := by
  rw [assigned_composite rfl, assignedBy_eq]
  apply Option.bind_congr
  intro chosen hchosen
  exact hchildren chosen (List.mem_of_getElem? hchosen) _ _ _ _
    (Canvas.alike_select_indicesOf _ hi)

/-- A composite of consistent painters is consistent, although bridges may change pools. -/
theorem Consistent.composite {main : Painter Draws} {children : List (Painter Draws)}
    (hmain : Consistent main) (hchildren : ∀ child ∈ children, Consistent child) :
    Consistent (.composite main children) := by
  intro canvas other i j halike
  cases children with
  | nil => exact hmain canvas other i j halike
  | cons child others =>
      cases hshows : canvas.shows i with
      | true =>
          obtain ⟨assignment, hassigned⟩ : ∃ assignment,
              assigned main canvas i = some assignment :=
            Option.isSome_iff_exists.mp ((isSome_assigned main canvas i).trans hshows)
          have hother : assigned main other j = some assignment :=
            (hmain _ _ _ _ halike).trans hassigned
          have hi : i < canvas.spots.size := Canvas.lt_size_of_shows hshows
          have hj : j < other.spots.size :=
            Canvas.lt_size_of_shows (halike.shows_eq.trans hshows)
          -- The pool goes by the scalar, so the same child paints the vertex in both.
          rw [assigned_composite_of_consistent hchildren hj,
            assigned_composite_of_consistent hchildren hi,
            poolOf_of_assigned hother, poolOf_of_assigned hassigned]
          apply Option.bind_congr
          intro chosen hchosen
          exact hchildren chosen (List.mem_of_getElem? hchosen) _ _ _ _ halike
      | false =>
          rw [assigned_eq_none_iff.mpr hshows,
            assigned_eq_none_iff.mpr (halike.shows_eq.trans hshows)]

theorem Pointwise.consistent {painter : Painter Draws} (h : painter.Pointwise) :
    Consistent painter := by
  induction h with
  | leaf hshade =>
      intro canvas other i j halike
      simp only [assigned, halike.shows_eq, hshade.scalarAt_eq halike]
  | composite _ _ ihMain ihChildren => exact ihMain.composite ihChildren

/-- A composite whose children are all alike assigns each vertex as one of them does. -/
theorem Consistent.assigned_replicate {child : Painter Draws} (h : Consistent child)
    (main : Painter Draws) (count : Nat) (canvas : Canvas) (i : Nat) :
    assigned (.composite main (List.replicate (count + 1) child)) canvas i =
      assigned child canvas i := by
  cases hshows : canvas.shows i with
  | true =>
      have hpool : poolOf main (count + 1) canvas i < count + 1 :=
        Pools.poolAt_lt (Nat.succ_pos count) _ i
      have hchildren : ∀ other ∈ child :: List.replicate count child, Consistent other := by
        intro other hother
        rw [← List.replicate_succ] at hother
        exact List.eq_of_mem_replicate hother ▸ h
      rw [List.replicate_succ,
        assigned_composite_of_consistent hchildren (Canvas.lt_size_of_shows hshows),
        List.length_replicate, ← List.replicate_succ, List.getElem?_replicate_of_lt hpool]
      rfl
  | false => rw [assigned_eq_none_iff.mpr hshows, assigned_eq_none_iff.mpr hshows]

section Vertices

variable {search : Search LinearKey} {vertices : Array Vertex} {depths : Array Nat}
variable {bridges : Array Bool} {maxDepth : Nat} {box : Box}

/-- The drawing of selected vertices is the selection from the drawing. -/
theorem canvasOf_gather {indices : Array Nat} (hindices : ∀ i ∈ indices, i < vertices.size)
    (hdepths : depths.size = vertices.size) (hbridges : bridges.size = vertices.size) :
    canvasOf (Pools.gather vertices indices) (Pools.gather depths indices)
        (Pools.gather bridges indices) maxDepth box =
      (canvasOf vertices depths bridges maxDepth box).select indices := by
  rw [Canvas.select, canvasOf, canvasOf, Canvas.mk.injEq]
  refine ⟨?_, rfl, rfl⟩
  apply Array.ext_getElem?
  intro rank
  cases hrank : indices[rank]? with
  | none => simp [Array.getElem?_zipWith, Array.zip, Pools.gather, hrank]
  | some i =>
      have hi : i < vertices.size := hindices i (Array.mem_of_getElem? hrank)
      simp [Array.getElem?_zipWith, Array.zip, Pools.gather, hrank, hi, hdepths, hbridges]

/-- Painters that assign every vertex alike paint alike. -/
theorem paint_congr {painter other : Painter Draws} {canvas : Canvas}
    (h : ∀ i, assigned painter canvas i = assigned other canvas i) (colors : Array Color) :
    painter.paint search canvas colors = other.paint search canvas colors := by
  apply Array.ext_getElem?
  intro i
  rw [getElem?_paint, getElem?_paint, h]

/-- A painter that looks at each vertex alone paints a selection of vertices, in whatever
order, as it paints them among all.  It may as well be split up into copies of itself, by any
other painter. -/
theorem paintVertices_gather {painter : Painter Draws} (hpainter : painter.Pointwise)
    (maxDepth : Nat) (box : Box) (hdepths : depths.size = vertices.size)
    (hbridges : bridges.size = vertices.size) {indices : Array Nat}
    (hindices : ∀ i ∈ indices, i < vertices.size) :
    ∃ painted, painter.paintVertices search vertices depths bridges maxDepth box = .ok painted ∧
      painter.paintVertices search (Pools.gather vertices indices)
          (Pools.gather depths indices) (Pools.gather bridges indices) maxDepth box =
        .ok (Pools.gather painted indices) ∧
      ∀ (main : Painter Draws) (count : Nat), 1 ≤ count →
        (Painter.composite main (List.replicate count painter)).paintVertices search vertices
          depths bridges maxDepth box = .ok painted := by
  refine ⟨_, paintVertices_eq_ok painter hdepths hbridges, ?_, ?_⟩
  · rw [paintVertices_eq_ok painter (by simp) (by simp), Except.ok.injEq,
      canvasOf_gather hindices hdepths hbridges]
    apply Array.ext_getElem?
    intro rank
    rw [getElem?_painted]
    cases hrank : indices[rank]? with
    | none => simp [Pools.gather, hrank]
    | some i =>
        have hi : i < vertices.size := hindices i (Array.mem_of_getElem? hrank)
        have hsize : (canvasOf vertices depths bridges maxDepth box).spots.size =
            vertices.size := size_canvasOf hdepths hbridges
        have hassigned := hpainter.consistent _ _ i rank
          (Canvas.alike_select hrank (hsize ▸ hi))
        rw [Pools.getElem?_gather hrank hi, Pools.getElem?_gather hrank (by simpa [size_paint]),
          getElem?_painted, hassigned]
  · intro main count hcount
    obtain ⟨count, rfl⟩ := Nat.exists_eq_add_of_le' hcount
    rw [paintVertices_eq_ok _ hdepths hbridges, paint_congr]
    exact hpainter.consistent.assigned_replicate main count _

end Vertices

/-- A painter that divides its vertices by depth and the deeper half by distance as well. -/
def terraced : Painter Draws :=
  .composite (.leaf .iteration .default)
    [.leaf .constant (.constant .white),
      .composite (.leaf (.radial ⟨0, 0⟩) .default)
        [.leaf .constant (.constant .black), .leaf .iteration (.constant (.solid 255 0 0))]]

theorem terraced_pointwise : terraced.Pointwise := by
  refine .composite (.leaf .iteration) ?_
  simp only [List.forall_mem_cons]
  refine ⟨.leaf .constant, .composite (.leaf (.radial ⟨0, 0⟩)) ?_, by simp⟩
  simp only [List.forall_mem_cons]
  exact ⟨.leaf .constant, .leaf .iteration, by simp⟩

/-- A bridge that comes to lie in the other pool as the vertex before it is left out. -/
theorem paintVertices_terraced :
    let vertices : Array Vertex :=
      #[⟨⟨0, 0⟩, .transparent⟩, ⟨⟨1, 0⟩, .transparent⟩, ⟨⟨1, 1⟩, .transparent⟩,
        ⟨⟨2, 2⟩, .transparent⟩]
    let depths : Array Nat := #[0, 1, 0, 1]
    let bridges : Array Bool := #[false, false, true, false]
    let box : Box := ⟨0, 0, 2, 2⟩
    let indices : Array Nat := #[0, 2, 3]
    let canvas := canvasOf vertices depths bridges 1 box
    let pool := poolOf (.leaf .iteration .default) 2
    terraced.Pointwise ∧ depths.size = vertices.size ∧ bridges.size = vertices.size ∧
      (∀ i ∈ indices, i < vertices.size) ∧
      pool canvas 2 = 1 ∧ pool (canvas.select indices) 1 = 0 ∧
      ∃ painted, terraced.paintVertices .halving vertices depths bridges 1 box = .ok painted ∧
        terraced.paintVertices .halving (Pools.gather vertices indices)
            (Pools.gather depths indices) (Pools.gather bridges indices) 1 box =
          .ok (Pools.gather painted indices) ∧
        (Painter.composite terraced [terraced, terraced]).paintVertices .halving vertices depths
          bridges 1 box = .ok painted ∧
        painted[1]?.map (·.color) = some .black ∧
        painted[3]?.map (·.color) = some (.solid 255 0 0) := by
  intro vertices depths bridges box indices canvas pool
  have hindices : ∀ i ∈ indices, i < vertices.size := by decide
  obtain ⟨painted, hwhole, hpart, hcopies⟩ :=
    @paintVertices_gather .halving vertices depths bridges terraced terraced_pointwise 1 box rfl rfl
      indices hindices
  refine ⟨terraced_pointwise, rfl, rfl, hindices, by decide +kernel, by decide +kernel,
    painted, hwhole, hpart, hcopies terraced 2 (by decide), ?_⟩
  have hpainted := hwhole
  rw [paintVertices_eq_ok terraced (by rfl) (by rfl), Except.ok.injEq] at hpainted
  obtain ⟨near, hnear, hblack⟩ : ∃ near, assigned terraced canvas 1 = some near ∧
      near.color .halving = .black :=
    Option.map_eq_some_iff.mp (by decide +kernel)
  obtain ⟨far, hfar, hred⟩ : ∃ far, assigned terraced canvas 3 = some far ∧
      far.color .halving = .solid 255 0 0 :=
    Option.map_eq_some_iff.mp (by decide +kernel)
  rw [← hpainted, getElem?_painted, getElem?_painted, hnear, hfar]
  exact ⟨congrArg some hblack, congrArg some hred⟩

end Painter

end LineGrammar
