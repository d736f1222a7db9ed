/-
Opaque drawings.  A painter of which all colors are opaque leaves nothing transparent but the
bridges, whatever scalars its shades come up with: each color that it puts on a vertex is one
that a generator of its tree has for some scalar.
-/
import LineGrammar.Proofs.Gradient.Lookup
import LineGrammar.Proofs.Painter.Painting
import LineGrammar.Proofs.Turtle.Trail

namespace LineGrammar

/-- A generator of which all colors are opaque.  Its gradient may have come about in any way,
with positions that are not numbers too, some of them before all numbers. -/
inductive Generator.Opaque : Generator → Prop
  | constant {color : Color} (h : color.alpha = 255) : Opaque (.constant color)
  | linear {gradient : LinearGradient} (hreachable : gradient.Reachable fun _ => True)
      (h : ∀ key ∈ gradient.keys, key.color.alpha = 255) : Opaque (.linear gradient)
  | discrete {gradient : DiscreteGradient} (hreachable : gradient.Reachable)
      (h : ∀ key ∈ gradient.keys, key.color.alpha = 255) : Opaque (.discrete gradient)

/-- An opaque generator has an opaque color for every scalar. -/
theorem Generator.Opaque.alpha_color {generator : Generator} (h : generator.Opaque)
    (search : Search LinearKey) (f : Float32) : (generator.color search f).alpha = 255 := by
  have hcolor : ∃ color, generator.color? search f = some color ∧ color.alpha = 255 := by
    cases h with
    | constant h => exact ⟨_, rfl, h⟩
    | linear hreachable h => exact hreachable.framed.exists_color h search f
    | discrete hreachable h => exact hreachable.exists_color h f
  obtain ⟨color, hsome, halpha⟩ := hcolor
  rw [Generator.color, hsome]
  exact halpha

namespace Painter

/-- All generators of a tree of painters are of some kind. -/
inductive Every (kind : Generator → Prop) : Painter Draws → Prop
  | leaf {shade : Shade Draws} {generator : Generator} (h : kind generator) :
      Every kind (.leaf shade generator)
  | composite {main : Painter Draws} {children : List (Painter Draws)} (hmain : Every kind main)
      (hchildren : ∀ child ∈ children, Every kind child) : Every kind (.composite main children)

/-- Vertices are assigned to generators of the tree. -/
theorem Every.of_assigned {kind : Generator → Prop} {painter : Painter Draws}
    (h : painter.Every kind) {canvas : Canvas} {i : Nat} {assignment : Assignment}
    (hassigned : assigned painter canvas i = some assignment) : kind assignment.generator := by
  induction h generalizing canvas i with
  | leaf h =>
      rw [assigned] at hassigned
      split at hassigned
      · cases hassigned
        exact h
      · cases hassigned
  | @composite main children hmain hchildren ihMain ihChildren =>
      cases children with
      | nil => exact ihMain hassigned
      | cons child others =>
          rw [assigned_composite rfl, assignedBy_eq, Option.bind_eq_some_iff] at hassigned
          obtain ⟨chosen, hchosen, hassigned⟩ := hassigned
          exact ihChildren chosen (List.mem_of_getElem? hchosen) hassigned

/-- A line whose lists belong together is painted vertex by vertex. -/
theorem exists_paintStream (search : Search LinearKey) (painter : Painter Draws) {line : Stream}
    (hdepths : line.depths.size = line.vertices.size)
    (hbridges : line.bridges.size = line.vertices.size) :
    ∃ painted, painter.paintStream search line = .ok painted ∧ painted.bridges = line.bridges ∧
      painted.size = line.size ∧ ∀ i, painted.vertices[i]? = line.vertices[i]?.map fun vertex =>
        match assigned painter (canvasOf line.vertices line.depths line.bridges line.maxDepth
          line.box) i with
        | some assignment => { vertex with color := assignment.color search }
        | none => vertex := by
  rw [paintStream, paintWithin, paintVertices_eq_ok painter hdepths hbridges]
  refine ⟨_, rfl, rfl, ?_, getElem?_painted search painter line.vertices _⟩
  rw [Stream.size, Array.size_zipWith, size_paint, Array.size_map, Nat.min_self]
  rfl

variable {painter : Painter Draws} {settings : TurtleSettings} {table : Interpretation}
variable {word : Word} {counts : List Nat} {line : Stream}

/-- An opaque painter leaves nothing of a drawing transparent but the bridges. -/
theorem alpha_paintStream (search : Search LinearKey) (hpainter : painter.Every Generator.Opaque)
    (hline : Turtle.draw settings table word counts = .ok line) :
    ∃ painted, painter.paintStream search line = .ok painted ∧ painted.bridges = line.bridges ∧
      painted.size = line.size ∧ painted.bridges.size = painted.size ∧
      ∀ (i : Nat) vertex bridge, painted.vertices[i]? = some vertex →
        painted.bridges[i]? = some bridge →
          (vertex.color.alpha = 0 ↔ bridge = true) ∧
          (bridge = false → vertex.color.alpha = 255) := by
  have hshows := Turtle.shows_of_draw hline
  have hdepths := hshows.size_depths_eq
  have hbridges := hshows.size_bridges_eq
  obtain ⟨painted, hpainted, hsame, hsize, hvertices⟩ :=
    exists_paintStream search painter hdepths hbridges
  refine ⟨painted, hpainted, hsame, hsize, ?_, ?_⟩
  · rw [hsame, hbridges, hsize]
    rfl
  intro i vertex bridge hvertex hbridge
  rw [hsame] at hbridge
  have hshown := isSome_assigned painter
    (canvasOf line.vertices line.depths line.bridges line.maxDepth line.box) i
  rw [shows_canvasOf hdepths hbridges hbridge] at hshown
  rw [hvertices, Option.map_eq_some_iff] at hvertex
  obtain ⟨old, hold, hvertex⟩ := hvertex
  cases bridge with
  | false =>
      obtain ⟨assignment, hassigned⟩ := Option.isSome_iff_exists.mp hshown
      have halpha := (hpainter.of_assigned hassigned).alpha_color search assignment.scalar
      rw [hassigned] at hvertex
      have hcolor : vertex.color.alpha = 255 := by
        rw [← hvertex]
        exact halpha
      refine ⟨?_, fun _ => hcolor⟩
      rw [hcolor]
      decide
  | true =>
      -- Bridges are assigned to nobody, and a turtle leaves them transparent.
      have hnone : assigned painter
          (canvasOf line.vertices line.depths line.bridges line.maxDepth line.box) i = none := by
        simpa using hshown
      rw [hnone] at hvertex
      change old = vertex at hvertex
      rw [hshows.getElem?_vertices, Option.map_eq_some_iff] at hold
      obtain ⟨mark, hmark, hplace⟩ := hold
      rw [hshows.getElem?_bridges, hmark, Option.map_some, Option.some_inj] at hbridge
      have htransparent := mark.isTransparent_vertex
      rw [hbridge, hplace, hvertex, Color.isTransparent, beq_iff_eq] at htransparent
      exact ⟨iff_of_true htransparent rfl, fun habsurd => absurd habsurd.symm Bool.false_ne_true⟩

/-- A gradient from black to white by way of red, which lies at a number once and elsewhere at
what is not a number, before all numbers and behind them. -/
def astray : LinearGradient :=
  .normalize [⟨.black, -.stray⟩, ⟨.solid 255 0 0, -.stray⟩, ⟨.solid 255 0 0, 0.3⟩,
    ⟨.solid 255 0 0, .stray⟩, ⟨.white, .stray⟩]

theorem isOpaque_astray : (Generator.linear astray).Opaque := by
  refine .linear (.ofKeys (fun key _ => trivial)
    ((LinearGradient.ofKeys_eq_ok_iff _ astray).mpr ⟨by decide, rfl⟩)) ?_
  decide +kernel

/-- A painter that gives what is not a number to its deeper vertices. -/
def lost : Painter Draws :=
  .composite (.leaf .iteration .default)
    [.leaf (.linear (0 / 0) ⟨0, 0⟩) (.linear astray), .leaf (.sequential (0 / 0)) (.linear astray)]

/-- A branch drawn with steps of infinite length, whose bridge alone is transparent. -/
theorem alpha_paintStream_lost :
    let settings : TurtleSettings := { TurtleSettings.default with step := 1 / 0 }
    let word : Word := ['F', '[', 'F', ']', 'F']
    let counts : List Nat := [0, 0, 1, 0, 0]
    lost.Every Generator.Opaque ∧
      (astray.positions.map (·.isNaN) = [false, true, false, true, false]) ∧
      ∃ line painted, Turtle.draw settings .default word counts = .ok line ∧
        lost.paintStream .halving line = .ok painted ∧
        painted.vertices[2]?.map (·.color.alpha) = some 255 ∧
        painted.vertices[3]?.map (·.color.alpha) = some 0 := by
  intro settings word counts
  have hpainter : lost.Every Generator.Opaque := by
    refine .composite (.leaf (.constant rfl)) ?_
    simp only [List.forall_mem_cons]
    exact ⟨.leaf isOpaque_astray, .leaf isOpaque_astray, fun child hchild => by cases hchild⟩
  have hmarks : (Turtle.marks settings .default word).map (·.bridge) =
      [false, false, false, true, true, false, false] := by
    decide +kernel
  obtain ⟨line, hdraw, hshows⟩ := Turtle.draw_shows settings .default
    (show word.length = counts.length from rfl)
  obtain ⟨painted, hpainted, hsame, -, hsize, hcolors⟩ :=
    alpha_paintStream .halving hpainter hdraw
  have hbridges : painted.bridges = #[false, false, false, true, true, false, false] := by
    rw [hsame, ← Array.toList_inj, hshows.bridges_eq, ← hmarks]
  have hseven : painted.vertices.size = 7 := by
    rw [hbridges] at hsize
    exact hsize.symm
  refine ⟨hpainter, by decide +kernel, line, painted, hdraw, hpainted, ?_, ?_⟩
  · have hvertex := Array.getElem?_eq_getElem (show 2 < painted.vertices.size by omega)
    have hcolor := (hcolors 2 _ false hvertex (by rw [hbridges]; rfl)).2 rfl
    rw [hvertex, Option.map_some, hcolor]
  · have hvertex := Array.getElem?_eq_getElem (show 3 < painted.vertices.size by omega)
    have hcolor := (hcolors 3 _ true hvertex (by rw [hbridges]; rfl)).1.mpr rfl
    rw [hvertex, Option.map_some, hcolor]

end Painter

end LineGrammar
