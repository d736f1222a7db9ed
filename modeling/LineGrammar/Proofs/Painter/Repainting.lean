/-
Painting over an earlier painting.  What a painter makes of some vertices depends on
their places and on the colors of the bridges alone, so nothing is left of the colors
that the visible ones had before.  Seeded painters do not depend on chance either.
-/
import LineGrammar.Proofs.Painter.Painting

namespace LineGrammar

/-- Vertices in other colors: none is moved, and bridges keep their colors. -/
structure Recolored (bridges : Array Bool) (vertices others : Array Vertex) : Prop where
  positions_eq : vertices.map Vertex.position = others.map Vertex.position
  colors_eq : ∀ i : Nat, bridges[i]? = some true →
    vertices[i]?.map Vertex.color = others[i]?.map Vertex.color

namespace Recolored

variable {bridges : Array Bool} {vertices others : Array Vertex}

theorem refl (bridges : Array Bool) (vertices : Array Vertex) :
    Recolored bridges vertices vertices :=
  ⟨rfl, fun _ _ => rfl⟩

theorem trans {third : Array Vertex} (h : Recolored bridges vertices others)
    (h' : Recolored bridges others third) : Recolored bridges vertices third where
  positions_eq := h.positions_eq.trans h'.positions_eq
  colors_eq i hi := (h.colors_eq i hi).trans (h'.colors_eq i hi)

theorem size_eq (h : Recolored bridges vertices others) : vertices.size = others.size := by
  have hsize := congrArg Array.size h.positions_eq
  rwa [Array.size_map, Array.size_map] at hsize

/-- At each index there are vertices in both lists, at one place, or in neither. -/
theorem getElem?_cases (h : Recolored bridges vertices others) (i : Nat) :
    (vertices[i]? = none ∧ others[i]? = none) ∨
      ∃ position color color', vertices[i]? = some ⟨position, color⟩ ∧
        others[i]? = some ⟨position, color'⟩ := by
  have hposition : vertices[i]?.map Vertex.position = others[i]?.map Vertex.position := by
    rw [← Array.getElem?_map, ← Array.getElem?_map, h.positions_eq]
  cases hvertex : vertices[i]? with
  | none =>
      rw [hvertex, Option.map_none, eq_comm, Option.map_eq_none_iff] at hposition
      exact Or.inl ⟨rfl, hposition⟩
  | some vertex =>
      rw [hvertex, Option.map_some, eq_comm, Option.map_eq_some_iff] at hposition
      obtain ⟨other, hother, hsame⟩ := hposition
      refine Or.inr ⟨vertex.position, vertex.color, other.color, rfl, ?_⟩
      rw [hother, ← hsame]

/-- The vertices of bridges are the same. -/
theorem getElem?_eq (h : Recolored bridges vertices others) {i : Nat}
    (hi : bridges[i]? = some true) : vertices[i]? = others[i]? := by
  have hcolor := h.colors_eq i hi
  rcases h.getElem?_cases i with ⟨hvertex, hother⟩ | ⟨position, color, color', hvertex, hother⟩
  · rw [hvertex, hother]
  · rw [hvertex, hother, Option.map_some, Option.map_some, Option.some_inj] at hcolor
    change color = color' at hcolor
    rw [hvertex, hother, hcolor]

end Recolored

namespace Painter

section Vertices

variable {search : Search LinearKey} {vertices others painted : Array Vertex}
variable {depths : Array Nat} {bridges : Array Bool} {maxDepth : Nat} {box : Box}

theorem canvasOf_congr (h : Recolored bridges vertices others) :
    canvasOf vertices depths bridges maxDepth box =
      canvasOf others depths bridges maxDepth box := by
  have hspots : (canvasOf vertices depths bridges maxDepth box).spots =
      (canvasOf others depths bridges maxDepth box).spots := by
    apply Array.ext_getElem?
    intro i
    simp only [canvasOf, Array.getElem?_zipWith, Array.zip]
    rcases h.getElem?_cases i with ⟨hvertex, hother⟩ | ⟨position, color, color', hvertex, hother⟩
    · rw [hvertex, hother]
    · rw [hvertex, hother]
      cases depths[i]? with
      | none => rfl
      | some depth =>
          cases bridges[i]? with
          | none => rfl
          | some bridge => rfl
  rw [canvasOf, canvasOf, Canvas.mk.injEq]
  exact ⟨hspots, rfl, rfl⟩

/-- Lists that do not belong together are refused whatever the colors are. -/
theorem paintVertices_congr_of_ne (painter : Painter Draws)
    (hsizes : ¬ (depths.size = vertices.size ∧ bridges.size = vertices.size))
    (hother : vertices.size = others.size) :
    painter.paintVertices search vertices depths bridges maxDepth box =
      painter.paintVertices search others depths bridges maxDepth box := by
  by_cases hdepths : depths.size = vertices.size
  · have hbridges : bridges.size ≠ vertices.size := fun heq => hsizes ⟨hdepths, heq⟩
    have hdepths' : depths.size = others.size := hdepths.trans hother
    have hbridges' : bridges.size ≠ others.size := fun heq => hbridges (heq.trans hother.symm)
    rw [paintVertices, paintVertices, run_paintInPlace_of_bridges painter hdepths hbridges,
      run_paintInPlace_of_bridges painter hdepths' hbridges', hother]
    rfl
  · have hdepths' : depths.size ≠ others.size := fun heq => hdepths (heq.trans hother.symm)
    rw [paintVertices, paintVertices, run_paintInPlace_of_depths painter hdepths,
      run_paintInPlace_of_depths painter hdepths', hother]
    rfl

/-- A painting depends on the places and on the colors of bridges alone. -/
theorem paintVertices_congr (painter : Painter Draws)
    (h : Recolored bridges vertices others) :
    painter.paintVertices search vertices depths bridges maxDepth box =
      painter.paintVertices search others depths bridges maxDepth box := by
  by_cases hsizes : depths.size = vertices.size ∧ bridges.size = vertices.size
  · obtain ⟨hdepths, hbridges⟩ := hsizes
    have hdepths' : depths.size = others.size := hdepths.trans h.size_eq
    have hbridges' : bridges.size = others.size := hbridges.trans h.size_eq
    rw [paintVertices_eq_ok painter hdepths hbridges,
      paintVertices_eq_ok painter hdepths' hbridges']
    congr 1
    apply Array.ext_getElem?
    intro i
    rw [getElem?_painted, getElem?_painted, canvasOf_congr h]
    rcases h.getElem?_cases i with ⟨hvertex, hother⟩ | ⟨position, color, color', hvertex, hother⟩
    · rw [hvertex, hother]
    cases hassigned : assigned painter (canvasOf others depths bridges maxDepth box) i with
    | some assignment =>
        rw [hvertex, hother]
        rfl
    | none =>
        -- A vertex that no leaf paints is part of a bridge.
        have hshown := assigned_eq_none_iff.mp hassigned
        have hlt : i < bridges.size := by
          rw [hbridges]
          exact (Array.getElem?_eq_some_iff.mp hvertex).1
        have hbridge : bridges[i]? = some bridges[i] := Array.getElem?_eq_getElem hlt
        rw [shows_canvasOf hdepths' hbridges' hbridge] at hshown
        have htrue : bridges[i] = true := by simpa using hshown
        rw [h.getElem?_eq (htrue ▸ hbridge)]
  · exact paintVertices_congr_of_ne painter hsizes h.size_eq

theorem sizes_of_paintVertices {painter : Painter Draws}
    (h : painter.paintVertices search vertices depths bridges maxDepth box = .ok painted) :
    depths.size = vertices.size ∧ bridges.size = vertices.size := by
  by_cases hdepths : depths.size = vertices.size
  · by_cases hbridges : bridges.size = vertices.size
    · exact ⟨hdepths, hbridges⟩
    · rw [paintVertices, run_paintInPlace_of_bridges painter hdepths hbridges] at h
      cases h
  · rw [paintVertices, run_paintInPlace_of_depths painter hdepths] at h
    cases h

/-- Painting is recoloring. -/
theorem recolored_of_paintVertices {painter : Painter Draws}
    (h : painter.paintVertices search vertices depths bridges maxDepth box = .ok painted) :
    Recolored bridges vertices painted := by
  obtain ⟨hdepths, hbridges⟩ := sizes_of_paintVertices h
  rw [paintVertices_eq_ok painter hdepths hbridges, Except.ok.injEq] at h
  have hpainted := getElem?_painted search painter vertices
    (canvasOf vertices depths bridges maxDepth box)
  rw [h] at hpainted
  constructor
  · apply Array.ext_getElem?
    intro i
    rw [Array.getElem?_map, Array.getElem?_map, hpainted, Option.map_map]
    congr 1
    funext vertex
    simp only [Function.comp_apply]
    split
    · rfl
    · rfl
  · intro i hi
    rw [hpainted, assigned_eq_none_iff.mpr (shows_canvasOf hdepths hbridges hi)]
    simp

end Vertices

/-- A painter whose random shades all have a seed. -/
inductive Seeded : PainterPlan → Prop
  | leaf {shade : Shade (Option UInt64)} {generator : Generator}
      (hshade : ∀ size, shade ≠ .blockRandom size none) : Seeded (.leaf shade generator)
  | composite {main : PainterPlan} {children : List PainterPlan} (hmain : Seeded main)
      (hchildren : ∀ child ∈ children, Seeded child) : Seeded (.composite main children)

section Sources

variable {S : Type} {f g : Path → Option UInt64 → S}

theorem mapSource_congr {shade : Shade (Option UInt64)} {path : Path}
    (hseed : ∀ path seed, f path (some seed) = g path (some seed))
    (hshade : ∀ size, shade ≠ .blockRandom size none) :
    shade.mapSource (f path) = shade.mapSource (g path) := by
  cases shade with
  | blockRandom size source =>
      cases source with
      | none => exact absurd rfl (hshade size)
      | some seed => rw [Shade.mapSource, Shade.mapSource, hseed]
  | constant => rfl
  | linear angle center => rfl
  | radial center => rfl
  | sequential factor => rfl
  | iteration => rfl

theorem mapSourcesAll_congr {children : List PainterPlan}
    (hchildren : ∀ child ∈ children, ∀ path, mapSources f path child = mapSources g path child)
    (path : Path) (branch : Nat) :
    mapSourcesAll f path branch children = mapSourcesAll g path branch children := by
  induction children generalizing branch with
  | nil => rw [mapSourcesAll, mapSourcesAll]
  | cons child children ih =>
      have hrest := ih fun other hother => hchildren other (List.mem_cons_of_mem child hother)
      rw [mapSourcesAll, mapSourcesAll, hchildren child List.mem_cons_self, hrest]

theorem mapSources_congr {plan : PainterPlan} (hplan : plan.Seeded)
    (hseed : ∀ path seed, f path (some seed) = g path (some seed)) (path : Path) :
    mapSources f path plan = mapSources g path plan := by
  induction hplan generalizing path with
  | leaf hshade => rw [mapSources, mapSources, mapSource_congr hseed hshade]
  | composite hmain hchildren ihMain ihChildren =>
      rw [mapSources, mapSources, ihMain, mapSourcesAll_congr ihChildren]

end Sources

/-- A seeded painter does not depend on chance. -/
theorem Seeded.resolve_eq {plan : PainterPlan} (h : plan.Seeded) (seeded : UInt64 → Draws)
    (chance chance' : Path → Draws) : plan.resolve seeded chance = plan.resolve seeded chance' := by
  apply mapSources_congr h
  intro path seed
  rfl

end Painter

structure Stream.Recolored (line painted : Stream) : Prop where
  vertices : LineGrammar.Recolored line.bridges line.vertices painted.vertices
  depths_eq : painted.depths = line.depths
  bridges_eq : painted.bridges = line.bridges
  maxDepth_eq : painted.maxDepth = line.maxDepth

namespace Stream.Recolored

variable {line painted : Stream}

theorem refl (line : Stream) : line.Recolored line :=
  ⟨.refl _ _, rfl, rfl, rfl⟩

theorem trans {third : Stream} (h : line.Recolored painted) (h' : painted.Recolored third) :
    line.Recolored third where
  vertices := h.vertices.trans (h.bridges_eq ▸ h'.vertices)
  depths_eq := h'.depths_eq.trans h.depths_eq
  bridges_eq := h'.bridges_eq.trans h.bridges_eq
  maxDepth_eq := h'.maxDepth_eq.trans h.maxDepth_eq

theorem size_eq (h : line.Recolored painted) : painted.size = line.size :=
  h.vertices.size_eq.symm

theorem points_eq (h : line.Recolored painted) : painted.points = line.points := by
  have hpoints := congrArg Array.toList h.vertices.positions_eq
  rw [Array.toList_map, Array.toList_map] at hpoints
  exact hpoints.symm

end Stream.Recolored

namespace Painter

variable {search : Search LinearKey}

theorem recolored_of_paintWithin {painter : Painter Draws} {box : Box} {line painted : Stream}
    (h : painter.paintWithin search box line = .ok painted) : line.Recolored painted := by
  unfold paintWithin at h
  cases hvertices : painter.paintVertices search line.vertices line.depths line.bridges
      line.maxDepth box with
  | error fault =>
      rw [hvertices] at h
      cases h
  | ok vertices =>
      rw [hvertices] at h
      cases h
      exact ⟨recolored_of_paintVertices hvertices, rfl, rfl, rfl⟩

/-- Earlier colors of a line do not show in its painting. -/
theorem paintWithin_congr (painter : Painter Draws) (box : Box) {line painted : Stream}
    (h : line.Recolored painted) :
    painter.paintWithin search box painted = painter.paintWithin search box line := by
  obtain ⟨hvertices, hdepths, hbridges, hmaxDepth⟩ := h
  rw [paintWithin, paintWithin, hdepths, hbridges, hmaxDepth,
    ← paintVertices_congr painter hvertices]

/-- A line whose lists belong together can be painted. -/
theorem exists_paintWithin (search : Search LinearKey) (painter : Painter Draws) (box : Box)
    {line : Stream}
    (hdepths : line.depths.size = line.vertices.size)
    (hbridges : line.bridges.size = line.vertices.size) :
    ∃ painted, painter.paintWithin search box line = .ok painted ∧ line.Recolored painted := by
  have hpainted : ∃ painted, painter.paintWithin search box line = .ok painted := by
    rw [paintWithin, paintVertices_eq_ok painter hdepths hbridges]
    exact ⟨_, rfl⟩
  obtain ⟨painted, hpainted⟩ := hpainted
  exact ⟨painted, hpainted, recolored_of_paintWithin hpainted⟩

end Painter

end LineGrammar
