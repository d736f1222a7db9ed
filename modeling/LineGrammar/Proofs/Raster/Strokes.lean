/-
What of a line is drawn.  An image joins neighbours that are both visible.  Since the
vertices of bridges stay invisible whatever the painter does, these are the ends of moves
ahead, as far as their colors can be seen.
-/
import Mathlib.Data.List.Forall2
import LineGrammar.Proofs.Painter.Repainting
import LineGrammar.Proofs.Turtle.Trail
import LineGrammar.Raster

namespace LineGrammar

/-- A vertex that stands for a mark is invisible if the mark is part of a bridge. -/
def Mark.Hides (mark : Mark) (vertex : Vertex) : Prop :=
  mark.bridge = true → vertex.color.isTransparent = true

namespace Raster

def isVisible (stroke : Vertex × Vertex) : Bool :=
  !stroke.1.color.isTransparent && !stroke.2.color.isTransparent

/-- The vertex of an index with the one after it. -/
def strokeAt (vertices : List Vertex) (index : Nat) : Vertex × Vertex :=
  (vertices[index]?.getD default, vertices[index + 1]?.getD default)

theorem strokes_cons (first second : Vertex) (rest : List Vertex) :
    strokes (first :: second :: rest) =
      (if isVisible (first, second) then [(first, second)] else []) ++
        strokes (second :: rest) := by
  cases hfirst : first.color.isTransparent with
  | true => simp [strokes, isVisible, hfirst]
  | false =>
      cases hsecond : second.color.isTransparent with
      | true => simp [strokes, isVisible, hfirst, hsecond]
      | false => simp [strokes, isVisible, hfirst, hsecond]

theorem strokes_cons_of_isTransparent {first second : Vertex} (rest : List Vertex)
    (h : first.color.isTransparent = true ∨ second.color.isTransparent = true) :
    strokes (first :: second :: rest) = strokes (second :: rest) := by
  rcases h with h | h
  · simp [strokes, h]
  · simp [strokes, h]

/-- From the turtle's place on, the strokes are those of the moves ahead. -/
theorem strokes_trail {settings : TurtleSettings} {table : Interpretation} (turtle : Turtle)
    (word : Word) (earlier : List Vertex) (current : Vertex) {later : List Vertex}
    (h : List.Forall₂ Mark.Hides (turtle.trail settings table word) later) :
    strokes (current :: later) =
      ((turtle.moves settings table earlier.length word).map fun move =>
        strokeAt (earlier ++ current :: later) move.index).filter isVisible := by
  induction word generalizing turtle earlier current later with
  | nil =>
      rw [Turtle.trail, List.forall₂_nil_left_iff] at h
      rw [h]
      rfl
  | cons symbol word ih =>
      cases horder : table.get? symbol with
      | none =>
          simp only [Turtle.trail, horder] at h
          simp only [Turtle.moves, horder]
          exact ih turtle earlier current h
      | some order =>
          simp only [Turtle.trail, horder] at h
          simp only [Turtle.moves, horder]
          rcases Turtle.follow_cases settings turtle order with
            ⟨hforward, hmarks, -⟩ | ⟨hother, hmarks, -⟩ | ⟨hother, hmarks⟩
          · rw [hmarks, List.singleton_append, List.forall₂_cons_left_iff] at h
            obtain ⟨next, rest, -, hrest, rfl⟩ := h
            have hlater := ih _ (earlier ++ [current]) next hrest
            have hstroke : strokeAt (earlier ++ current :: next :: rest) earlier.length =
                (current, next) := by
              simp [strokeAt]
            rw [hmarks, if_pos hforward, List.map_append, List.filter_append, List.map_singleton,
              hstroke, strokes_cons, hlater]
            simp [List.filter_singleton]
          · rw [hmarks, List.nil_append] at h
            rw [hmarks, if_neg hother]
            exact ih _ earlier current h
          · rw [hmarks] at h
            simp only [List.cons_append, List.nil_append, List.forall₂_cons_left_iff] at h
            obtain ⟨tip, _, htip, ⟨back, _, hback, ⟨next, rest, -, hrest, rfl⟩, rfl⟩, rfl⟩ := h
            have hlater := ih _ (earlier ++ [current, tip, back]) next hrest
            rw [strokes_cons_of_isTransparent _ (Or.inr (htip rfl)),
              strokes_cons_of_isTransparent _ (Or.inl (htip rfl)),
              strokes_cons_of_isTransparent _ (Or.inl (hback rfl)), hlater, hmarks, if_neg hother]
            simp

/-- A line of more than one vertex is drawn stroke by stroke. -/
theorem draw_eq_foldl_strokes {vertices : Array Vertex} (hsize : 1 < vertices.size) (box : Box)
    (size : Nat) (background : Color) :
    draw vertices box size background = (strokes vertices.toList).foldl
      (fun image stroke => (segment (Frame.fit box size) stroke.1 stroke.2).draw image)
      (Image.blank size background) := by
  have hne : vertices.size ≠ 1 := by omega
  rw [draw, dif_neg hne, ← Array.foldl_toList]
  cases hvertices : vertices.toList with
  | nil => rfl
  | cons first rest => exact foldl_join _ rest first _

/-- However a line is recolored, its bridges stay invisible. -/
theorem hides_of_recolored {line painted : Stream} {marks : List Mark}
    (hline : line.Shows marks) (hpainted : line.Recolored painted) :
    List.Forall₂ Mark.Hides marks painted.vertices.toList := by
  have hlength : marks.length = painted.vertices.toList.length :=
    hline.size_eq.symm.trans hpainted.size_eq.symm
  rw [List.forall₂_iff_get]
  refine ⟨hlength, ?_⟩
  intro i hmark hvertex hbridge
  have hmarkAt : marks[i]? = some marks[i] := List.getElem?_eq_getElem hmark
  have hbridgeAt : line.bridges[i]? = some true := by
    rw [hline.getElem?_bridges, hmarkAt]
    exact congrArg some hbridge
  have hsame := hpainted.vertices.getElem?_eq hbridgeAt
  rw [hline.getElem?_vertices, hmarkAt, ← Array.getElem?_toList,
    List.getElem?_eq_getElem hvertex] at hsame
  have hvertexAt : painted.vertices.toList[i] = marks[i].vertex :=
    (Option.some.inj hsame).symm
  change painted.vertices.toList[i].color.isTransparent = true
  rw [hvertexAt, Mark.isTransparent_vertex]
  exact hbridge

/-- What is drawn of a painted line are its moves ahead, one after another, as far as both
ends have a color that can be seen.  Each leads from a vertex at the pose of the turtle to
the next one, a step ahead, and neither is part of a bridge. -/
theorem strokes_eq_moves (search : Search LinearKey) (settings : TurtleSettings)
    (table : Interpretation) (painter : Painter Draws) {word : Word} {counts : List Nat}
    (hlength : word.length = counts.length) :
    let moves := (Turtle.atStart settings).moves settings table 0 word
    moves.length = word.countP (fun symbol => table.get? symbol = some .goForward) ∧
      ∃ line painted, Turtle.draw settings table word counts = .ok line ∧
        painter.paintStream search line = .ok painted ∧
        painted.size = line.size ∧ painted.points = line.points ∧
        painted.bridges = line.bridges ∧
        (∀ move ∈ moves,
          line.vertices[move.index]? = some (move.pose.mark false).vertex ∧
          line.vertices[move.index + 1]? = some ((move.pose.advance settings).mark false).vertex ∧
          line.bridges[move.index]? = some false ∧
          line.bridges[move.index + 1]? = some false) ∧
        strokes painted.vertices.toList =
          (moves.map fun move => strokeAt painted.vertices.toList move.index).filter isVisible ∧
        (1 < painted.size → ∀ box size background,
          draw painted.vertices box size background =
            (strokes painted.vertices.toList).foldl
              (fun image stroke => (segment (Frame.fit box size) stroke.1 stroke.2).draw image)
              (Image.blank size background)) := by
  intro moves
  obtain ⟨line, hdraw, hline⟩ := Turtle.draw_shows settings table hlength
  obtain ⟨painted, hpaint, hpainted⟩ := painter.exists_paintWithin search line.box
    hline.size_depths_eq hline.size_bridges_eq
  refine ⟨Turtle.length_moves _ 0 word, line, painted, hdraw, hpaint, hpainted.size_eq,
    hpainted.points_eq, hpainted.bridges_eq, ?_, ?_, ?_⟩
  · intro move hmove
    obtain ⟨hstart, hfinish⟩ := Turtle.getElem?_of_mem_moves _ word [] move hmove
    change (Turtle.marks settings table word)[move.index]? = _ at hstart
    change (Turtle.marks settings table word)[move.index + 1]? = _ at hfinish
    refine ⟨?_, ?_, ?_, ?_⟩
    · rw [hline.getElem?_vertices, hstart]
      rfl
    · rw [hline.getElem?_vertices, hfinish]
      rfl
    · rw [hline.getElem?_bridges, hstart]
      rfl
    · rw [hline.getElem?_bridges, hfinish]
      rfl
  · have hhides := hides_of_recolored hline hpainted
    rw [Turtle.marks, List.forall₂_cons_left_iff] at hhides
    obtain ⟨first, later, -, hlater, hvertices⟩ := hhides
    rw [hvertices]
    exact strokes_trail (Turtle.atStart settings) word [] first hlater
  · intro hsize box size background
    exact draw_eq_foldl_strokes hsize box size background

/-- A painter that shows the vertices of depth zero only. -/
def shallow : Painter Draws :=
  .composite (.leaf .iteration .default)
    [.leaf .constant (.constant .white), .leaf .constant (.constant .transparent)]

/-- A branch whose tip is not shown: of three moves, the first and the last are drawn, and
nothing leads back from the branch. -/
theorem strokes_eq_moves_of_branch :
    let table : Interpretation :=
      .ofList [('F', .goForward), ('[', .savePosition), (']', .loadPosition)]
    let word : Word := ['F', '[', 'F', ']', 'F']
    let counts : List Nat := [0, 0, 1, 0, 0]
    word.length = counts.length ∧
      ((Turtle.atStart .default).moves .default table 0 word).map (·.index) = [0, 1, 5] ∧
      ∃ line painted, Turtle.draw .default table word counts = .ok line ∧
        shallow.paintStream .halving line = .ok painted ∧
        strokes painted.vertices.toList =
          [strokeAt painted.vertices.toList 0, strokeAt painted.vertices.toList 5] := by
  intro table word counts
  have hindices : ((Turtle.atStart .default).moves .default table 0 word).map (·.index) =
      [0, 1, 5] := by
    decide +kernel
  have hvisible : ((Turtle.draw .default table word counts).bind (shallow.paintStream .halving)).map
      (fun painted => [0, 1, 5].map fun index =>
        isVisible (strokeAt painted.vertices.toList index)) = .ok [true, false, true] := by
    decide +kernel
  obtain ⟨-, line, painted, hdraw, hpaint, -, -, -, -, hstrokes, -⟩ :=
    @strokes_eq_moves .halving .default table shallow word counts rfl
  refine ⟨rfl, hindices, line, painted, hdraw, hpaint, ?_⟩
  have hmoves : ((Turtle.atStart .default).moves .default table 0 word).map (fun move =>
      strokeAt painted.vertices.toList move.index) =
        [0, 1, 5].map (strokeAt painted.vertices.toList) := by
    rw [← hindices, List.map_map]
    rfl
  have hchosen : [0, 1, 5].map (fun index => isVisible (strokeAt painted.vertices.toList index)) =
      [true, false, true] := by
    simpa [hdraw, Except.bind, hpaint, Except.map] using hvisible
  simp only [List.map_cons, List.map_nil, List.cons.injEq] at hchosen
  obtain ⟨hfirst, hsecond, hthird, -⟩ := hchosen
  rw [hstrokes, hmoves]
  simp [hfirst, hsecond, hthird]

end Raster

end LineGrammar
