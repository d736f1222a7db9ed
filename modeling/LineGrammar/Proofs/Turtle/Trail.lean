/-
What a turtle leaves behind.  The line of a word shows the marks of its orders one after
another.  The last mark is always one that shows, at the place where the turtle is, so
each move ahead joins two neighbouring vertices, and nothing else does.
-/
import LineGrammar.Turtle

namespace LineGrammar

/-- A line shows some marks if it has their vertices and bridges, in order, and a depth
for each of them. -/
structure Stream.Shows (stream : Stream) (marks : List Mark) : Prop where
  vertices_eq : stream.vertices.toList = marks.map Mark.vertex
  bridges_eq : stream.bridges.toList = marks.map Mark.bridge
  size_depths : stream.depths.size = marks.length

namespace Stream

theorem Shows.empty : Stream.empty.Shows [] :=
  ⟨rfl, rfl, rfl⟩

theorem Shows.push {stream : Stream} {marks : List Mark} (h : stream.Shows marks)
    (mark : Mark) (depth : Nat) :
    (stream.push mark.vertex depth mark.bridge).Shows (marks ++ [mark]) where
  vertices_eq := by simp [Stream.push, h.vertices_eq]
  bridges_eq := by simp [Stream.push, h.bridges_eq]
  size_depths := by simp [Stream.push, h.size_depths]

section Marks

variable {stream : Stream} {marks : List Mark}

theorem Shows.size_eq (h : stream.Shows marks) : stream.size = marks.length := by
  rw [Stream.size, ← Array.length_toList, h.vertices_eq, List.length_map]

theorem Shows.size_depths_eq (h : stream.Shows marks) :
    stream.depths.size = stream.vertices.size :=
  h.size_depths.trans h.size_eq.symm

theorem Shows.size_bridges_eq (h : stream.Shows marks) :
    stream.bridges.size = stream.vertices.size := by
  rw [← Array.length_toList, h.bridges_eq, List.length_map]
  exact h.size_eq.symm

theorem Shows.getElem?_vertices (h : stream.Shows marks) (i : Nat) :
    stream.vertices[i]? = marks[i]?.map Mark.vertex := by
  rw [← Array.getElem?_toList, h.vertices_eq, List.getElem?_map]

theorem Shows.getElem?_bridges (h : stream.Shows marks) (i : Nat) :
    stream.bridges[i]? = marks[i]?.map Mark.bridge := by
  rw [← Array.getElem?_toList, h.bridges_eq, List.getElem?_map]

end Marks

end Stream

/-- The marks of a bridge are invisible, all others are black. -/
theorem Mark.isTransparent_vertex (mark : Mark) :
    mark.vertex.color.isTransparent = mark.bridge := by
  obtain ⟨x, y, bridge⟩ := mark
  cases bridge with
  | false => rfl
  | true => rfl

namespace Turtle

variable {settings : TurtleSettings} {table : Interpretation}

/-- All that one order can do: a move leaves the place it leads to, a return leaves a
bridge, and anything else leaves the turtle where it is and no mark. -/
theorem follow_cases (settings : TurtleSettings) (turtle : Turtle) (order : Order) :
    (order = .goForward ∧
      (turtle.follow settings order).1 = [(turtle.pose.advance settings).mark false] ∧
      (turtle.follow settings order).2.pose = turtle.pose.advance settings) ∨
    (order ≠ .goForward ∧ (turtle.follow settings order).1 = [] ∧
      (turtle.follow settings order).2.pose.mark false = turtle.pose.mark false) ∨
    (order ≠ .goForward ∧ (turtle.follow settings order).1 =
      [turtle.pose.mark true, (turtle.follow settings order).2.pose.mark true,
        (turtle.follow settings order).2.pose.mark false]) := by
  cases order with
  | goForward => exact Or.inl ⟨rfl, rfl, rfl⟩
  | turnRight => exact Or.inr (Or.inl ⟨by decide, rfl, rfl⟩)
  | turnLeft => exact Or.inr (Or.inl ⟨by decide, rfl, rfl⟩)
  | savePosition => exact Or.inr (Or.inl ⟨by decide, rfl, rfl⟩)
  | loadPosition =>
      cases hsaved : turtle.saved with
      | nil =>
          refine Or.inr (Or.inl ⟨by decide, ?_, ?_⟩)
          · simp only [follow, hsaved]
          · simp only [follow, hsaved]
      | cons pose saved =>
          refine Or.inr (Or.inr ⟨by decide, ?_⟩)
          simp only [follow, hsaved]

def trail (settings : TurtleSettings) (table : Interpretation) : Turtle → Word → List Mark
  | _, [] => []
  | turtle, symbol :: word =>
      match table.get? symbol with
      | none => trail settings table turtle word
      | some order =>
          (turtle.follow settings order).1
            ++ trail settings table (turtle.follow settings order).2 word

/-- A move ahead, from a pose, and the index of the vertex at its start. -/
structure Move where
  index : Nat
  pose : Pose

/-- The moves ahead on the way over a word, one for each order to go forward.  The last
vertex before the word has the index `last`. -/
def moves (settings : TurtleSettings) (table : Interpretation) :
    Turtle → Nat → Word → List Move
  | _, _, [] => []
  | turtle, last, symbol :: word =>
      match table.get? symbol with
      | none => moves settings table turtle last word
      | some order =>
          (if order = .goForward then [⟨last, turtle.pose⟩] else [])
            ++ moves settings table (turtle.follow settings order).2
              (last + (turtle.follow settings order).1.length) word

theorem length_moves (turtle : Turtle) (last : Nat) (word : Word) :
    (turtle.moves settings table last word).length =
      word.countP fun symbol => table.get? symbol = some .goForward := by
  induction word generalizing turtle last with
  | nil => rfl
  | cons symbol word ih =>
      rw [List.countP_cons]
      cases horder : table.get? symbol with
      | none => simp [moves, horder, ih]
      | some order =>
          by_cases hforward : order = .goForward
          · simp [moves, horder, hforward, ih, Nat.add_comm]
          · simp [moves, horder, hforward, ih]

/-- A move leads from a vertex that shows, at its own pose, to the next one, a step
ahead. -/
theorem getElem?_of_mem_moves (turtle : Turtle) (word : Word) (earlier : List Mark) :
    ∀ move ∈ turtle.moves settings table earlier.length word,
      let marks := earlier ++ turtle.pose.mark false :: turtle.trail settings table word
      marks[move.index]? = some (move.pose.mark false) ∧
        marks[move.index + 1]? = some ((move.pose.advance settings).mark false) := by
  induction word generalizing turtle earlier with
  | nil =>
      intro move hmove
      simp [moves] at hmove
  | cons symbol word ih =>
      intro move hmove marks
      cases horder : table.get? symbol with
      | none =>
          simp only [moves, horder] at hmove
          have hrest := ih turtle earlier move hmove
          simpa [marks, trail, horder] using hrest
      | some order =>
          simp only [moves, horder] at hmove
          have hstep := ih (turtle.follow settings order).2
          simp only [marks, trail, horder]
          rcases follow_cases settings turtle order with
            ⟨hforward, hmarks, hpose⟩ | ⟨hother, hmarks, hpose⟩ | ⟨hother, hmarks⟩
          · rw [hmarks, if_pos hforward] at hmove
            rw [hmarks]
            rcases List.mem_append.mp hmove with hmove | hmove
            · rw [List.mem_singleton.mp hmove]
              simp
            · have hrest := hstep (earlier ++ [turtle.pose.mark false]) move (by simpa using hmove)
              rw [hpose] at hrest
              simpa using hrest
          · rw [hmarks, if_neg hother] at hmove
            have hrest := hstep earlier move (by simpa using hmove)
            rw [hpose] at hrest
            rw [hmarks]
            simpa using hrest
          · rw [hmarks, if_neg hother] at hmove
            have hrest := hstep (earlier ++ [turtle.pose.mark false, turtle.pose.mark true,
              (turtle.follow settings order).2.pose.mark true]) move (by simpa using hmove)
            rw [hmarks]
            simpa using hrest

end Turtle

namespace Walk

theorem shows_leave {stream : Stream} {marks : List Mark} (h : stream.Shows marks)
    (depth : Nat) (more : List Mark) : (leave depth stream more).Shows (marks ++ more) := by
  induction more generalizing stream marks with
  | nil => simpa [leave] using h
  | cons mark more ih =>
      have hmore := ih (h.push mark depth)
      rwa [List.append_assoc] at hmore

/-- A walk adds the marks that its turtle leaves. -/
theorem shows_foldl_next (settings : TurtleSettings) (table : Interpretation) {walk : Walk}
    {marks : List Mark} (h : walk.stream.Shows marks) {word : Word} {counts : List Nat}
    (hlength : word.length = counts.length) :
    ((word.zip counts).foldl (next settings table) walk).stream.Shows
      (marks ++ walk.turtle.trail settings table word) := by
  induction word generalizing counts walk marks with
  | nil => simpa [Turtle.trail] using h
  | cons symbol word ih =>
      cases counts with
      | nil => simp at hlength
      | cons count counts =>
          have hrest : word.length = counts.length := by simpa using hlength
          rw [List.zip_cons_cons, List.foldl_cons]
          cases horder : table.get? symbol with
          | none =>
              rw [next_of_get?_eq_none horder]
              simpa [Turtle.trail, horder] using ih h hrest
          | some order =>
              have hleft : (walk.next settings table (symbol, count)).stream.Shows
                  (marks ++ (walk.turtle.follow settings order).1) := by
                simp only [next, horder]
                exact shows_leave h count _
              have hturtle : (walk.next settings table (symbol, count)).turtle =
                  (walk.turtle.follow settings order).2 := by
                simp only [next, horder]
              have hwalk := ih hleft hrest
              rw [hturtle] at hwalk
              simpa [Turtle.trail, horder] using hwalk

end Walk

/-- The marks of a whole line: the place where it starts, and those of the word. -/
def Turtle.marks (settings : TurtleSettings) (table : Interpretation) (word : Word) :
    List Mark :=
  (atStart settings).pose.mark false :: (atStart settings).trail settings table word

/-- The line of a word shows its marks. -/
theorem Turtle.draw_shows (settings : TurtleSettings) (table : Interpretation) {word : Word}
    {counts : List Nat} (hlength : word.length = counts.length) :
    ∃ line, Turtle.draw settings table word counts = .ok line ∧
      line.Shows (marks settings table word) := by
  have hstart : (Walk.start settings counts).stream.Shows
      [(atStart settings).pose.mark false] :=
    Walk.shows_leave Stream.Shows.empty (counts.headD 0) _
  have hwalk := Walk.shows_foldl_next settings table hstart hlength
  have hdraw : Turtle.draw settings table word counts =
      .ok ((word.zip counts).foldl (Walk.next settings table)
        (Walk.start settings counts)).stream := by
    rw [Turtle.draw, checkLength, if_pos hlength]
    rfl
  exact ⟨_, hdraw, hwalk⟩

/-- The line that a turtle draws shows its marks. -/
theorem Turtle.shows_of_draw {settings : TurtleSettings} {table : Interpretation}
    {word : Word} {counts : List Nat} {line : Stream}
    (h : Turtle.draw settings table word counts = .ok line) :
    line.Shows (marks settings table word) := by
  have hlength : word.length = counts.length := by
    refine Decidable.byContradiction fun hlength => ?_
    obtain ⟨fault, herror⟩ := (Turtle.draw_eq_error_iff settings table word counts).mpr hlength
    rw [h] at herror
    cases herror
  obtain ⟨drawn, hdrawn, hshows⟩ := Turtle.draw_shows settings table hlength
  obtain rfl := Except.ok.inj (h.symm.trans hdrawn)
  exact hshows

end LineGrammar
