/-
The course of a turtle.  Each symbol of a word comes with a depth, which its vertices take
over.  Drawing a word adds the stops of its course to the line one after another, and the
course over two words put together is the one over the first and then, from where that has
led the turtle, the one over the second.
-/
import LineGrammar.Proofs.Turtle.Trail

namespace LineGrammar

/-- A vertex of a line with its depth, and whether it is part of a bridge. -/
structure Stop where
  vertex : Vertex
  depth : Nat
  bridge : Bool

def Mark.stop (depth : Nat) (mark : Mark) : Stop :=
  ⟨mark.vertex, depth, mark.bridge⟩

def Pose.point (pose : Pose) : Point :=
  ⟨Precision.narrow pose.x, Precision.narrow pose.y⟩

namespace Stream

def extend (line : Stream) (stops : List Stop) : Stream :=
  stops.foldl (fun line stop => line.push stop.vertex stop.depth stop.bridge) line

theorem extend_append (line : Stream) (stops more : List Stop) :
    line.extend (stops ++ more) = (line.extend stops).extend more :=
  List.foldl_append

theorem leave_eq_extend (line : Stream) (depth : Nat) (marks : List Mark) :
    Walk.leave depth line marks = line.extend (marks.map (Mark.stop depth)) := by
  rw [extend, List.foldl_map]
  rfl

/-- A line has some stops if it consists of their vertices, depths and bridges, in order. -/
structure Has (line : Stream) (stops : List Stop) : Prop where
  vertices_eq : line.vertices.toList = stops.map Stop.vertex
  depths_eq : line.depths.toList = stops.map Stop.depth
  bridges_eq : line.bridges.toList = stops.map Stop.bridge

theorem has_empty : empty.Has [] :=
  ⟨rfl, rfl, rfl⟩

theorem Has.push {line : Stream} {stops : List Stop} (h : line.Has stops) (stop : Stop) :
    (line.push stop.vertex stop.depth stop.bridge).Has (stops ++ [stop]) where
  vertices_eq := by simp [Stream.push, h.vertices_eq]
  depths_eq := by simp [Stream.push, h.depths_eq]
  bridges_eq := by simp [Stream.push, h.bridges_eq]

theorem Has.extend {line : Stream} {stops : List Stop} (h : line.Has stops)
    (more : List Stop) : (line.extend more).Has (stops ++ more) := by
  induction more generalizing line stops with
  | nil => simpa [Stream.extend] using h
  | cons stop more ih =>
      have hmore := ih (h.push stop)
      rwa [List.append_assoc] at hmore

end Stream

namespace Turtle

/-- What a symbol makes a turtle do. -/
def heed (settings : TurtleSettings) (table : Interpretation) (turtle : Turtle)
    (symbol : Char) : List Mark × Turtle :=
  match table.get? symbol with
  | none => ([], turtle)
  | some order => turtle.follow settings order

def after (settings : TurtleSettings) (table : Interpretation) (turtle : Turtle)
    (word : Word) : Turtle :=
  word.foldl (fun turtle symbol => (turtle.heed settings table symbol).2) turtle

/-- The stops that a turtle makes on its way over symbols with their depths. -/
def course (settings : TurtleSettings) (table : Interpretation) :
    Turtle → List (Char × Nat) → List Stop
  | _, [] => []
  | turtle, (symbol, depth) :: entries =>
      (turtle.heed settings table symbol).1.map (Mark.stop depth)
        ++ course settings table (turtle.heed settings table symbol).2 entries

/-- All stops of the line of a word: the first place of the turtle, which has the depth of the
first symbol, and those of the course over the word. -/
def stops (settings : TurtleSettings) (table : Interpretation) (word : Word)
    (counts : List Nat) : List Stop :=
  ⟨⟨(atStart settings).pose.point, .black⟩, counts.headD 0, false⟩
    :: (atStart settings).course settings table (word.zip counts)

variable {settings : TurtleSettings} {table : Interpretation}

/-- All that a symbol can make a turtle do: save its pose, return to a saved one by way of a
bridge, move on, or stay where it is. -/
theorem heed_cases (settings : TurtleSettings) (table : Interpretation) (turtle : Turtle)
    (symbol : Char) :
    (table.get? symbol = some .savePosition ∧
      turtle.heed settings table symbol = ([], ⟨turtle.pose, turtle.pose :: turtle.saved⟩)) ∨
    (table.get? symbol = some .loadPosition ∧ ∃ pose saved, turtle.saved = pose :: saved ∧
      turtle.heed settings table symbol =
        ([turtle.pose.mark true, pose.mark true, pose.mark false], ⟨pose, saved⟩)) ∨
    (table.get? symbol = some .goForward ∧ ∃ pose,
      turtle.heed settings table symbol = ([pose.mark false], ⟨pose, turtle.saved⟩)) ∨
    (table.get? symbol ≠ some .savePosition ∧
      (table.get? symbol = some .loadPosition → turtle.saved = []) ∧ ∃ heading,
      turtle.heed settings table symbol =
        ([], ⟨{ turtle.pose with heading }, turtle.saved⟩)) := by
  unfold heed
  cases table.get? symbol with
  | none => exact Or.inr (Or.inr (Or.inr ⟨nofun, nofun, turtle.pose.heading, rfl⟩))
  | some order =>
      cases order with
      | goForward => exact Or.inr (Or.inr (Or.inl ⟨rfl, _, rfl⟩))
      | turnRight => exact Or.inr (Or.inr (Or.inr ⟨nofun, nofun, _, rfl⟩))
      | turnLeft => exact Or.inr (Or.inr (Or.inr ⟨nofun, nofun, _, rfl⟩))
      | savePosition => exact Or.inl ⟨rfl, rfl⟩
      | loadPosition =>
          cases hsaved : turtle.saved with
          | nil =>
              refine Or.inr (Or.inr (Or.inr ⟨nofun, fun _ => rfl, turtle.pose.heading, ?_⟩))
              simp only [follow, hsaved]
              rw [← hsaved]
          | cons pose saved =>
              refine Or.inr (Or.inl ⟨rfl, pose, saved, rfl, ?_⟩)
              simp only [follow, hsaved]

theorem heed_of_save {turtle : Turtle} {symbol : Char}
    (h : table.get? symbol = some .savePosition) :
    turtle.heed settings table symbol = ([], ⟨turtle.pose, turtle.pose :: turtle.saved⟩) := by
  simp only [heed, h, follow]

theorem heed_of_load {turtle : Turtle} {symbol : Char} {pose : Pose} {saved : List Pose}
    (h : table.get? symbol = some .loadPosition) (hsaved : turtle.saved = pose :: saved) :
    turtle.heed settings table symbol =
      ([turtle.pose.mark true, pose.mark true, pose.mark false], ⟨pose, saved⟩) := by
  simp only [heed, h, follow, hsaved]

theorem saved_heed_of_ne {turtle : Turtle} {symbol : Char}
    (hsave : table.get? symbol ≠ some .savePosition)
    (hload : table.get? symbol ≠ some .loadPosition) :
    (turtle.heed settings table symbol).2.saved = turtle.saved := by
  rcases heed_cases settings table turtle symbol with
    ⟨h, -⟩ | ⟨h, -⟩ | ⟨-, pose, hheed⟩ | ⟨-, -, heading, hheed⟩
  · exact absurd h hsave
  · exact absurd h hload
  · rw [hheed]
  · rw [hheed]

theorem after_cons (turtle : Turtle) (symbol : Char) (word : Word) :
    turtle.after settings table (symbol :: word) =
      (turtle.heed settings table symbol).2.after settings table word :=
  rfl

theorem after_append (turtle : Turtle) (word more : Word) :
    turtle.after settings table (word ++ more) =
      (turtle.after settings table word).after settings table more :=
  List.foldl_append

theorem course_append (turtle : Turtle) (entries more : List (Char × Nat)) :
    turtle.course settings table (entries ++ more) = turtle.course settings table entries
      ++ (turtle.after settings table (entries.map Prod.fst)).course settings table more := by
  induction entries generalizing turtle with
  | nil => rfl
  | cons entry entries ih =>
      rw [List.cons_append, course, ih, course, List.append_assoc]
      rfl

/-- The course over two words, each with depths of its own. -/
theorem course_zip_append (turtle : Turtle) {word : Word} {counts : List Nat} (more : Word)
    (moreCounts : List Nat) (hlength : word.length = counts.length) :
    turtle.course settings table ((word ++ more).zip (counts ++ moreCounts)) =
      turtle.course settings table (word.zip counts)
        ++ (turtle.after settings table word).course settings table (more.zip moreCounts) := by
  rw [List.zip_append hlength, course_append, List.map_fst_zip (Nat.le_of_eq hlength)]

end Turtle

theorem Walk.next_eq (settings : TurtleSettings) (table : Interpretation) (walk : Walk)
    (entry : Char × Nat) :
    walk.next settings table entry =
      ⟨(walk.turtle.heed settings table entry.1).2, walk.stream.extend
        ((walk.turtle.heed settings table entry.1).1.map (Mark.stop entry.2))⟩ := by
  rw [← Stream.leave_eq_extend]
  unfold Walk.next Turtle.heed
  cases table.get? entry.1 with
  | none => rfl
  | some order => rfl

/-- A walk adds the stops of its course to the line. -/
theorem Walk.stream_foldl_next (settings : TurtleSettings) (table : Interpretation)
    (walk : Walk) (entries : List (Char × Nat)) :
    (entries.foldl (Walk.next settings table) walk).stream =
      walk.stream.extend (walk.turtle.course settings table entries) := by
  induction entries generalizing walk with
  | nil => rfl
  | cons entry entries ih =>
      rw [List.foldl_cons, ih, Walk.next_eq, Turtle.course, Stream.extend_append]

namespace Turtle

variable {settings : TurtleSettings} {table : Interpretation} {word : Word}
variable {counts : List Nat} {line : Stream}

/-- The line of a word has its stops. -/
theorem draw_eq_ok_iff : draw settings table word counts = .ok line ↔
    word.length = counts.length ∧
      line = Stream.empty.extend (stops settings table word counts) := by
  rw [draw, bind_eq_ok_iff]
  constructor
  · rintro ⟨⟨⟩, hcheck, hline⟩
    refine ⟨(checkLength_eq_ok_iff _ _ _).mp hcheck, ?_⟩
    rw [← Except.ok.inj hline, Walk.stream_foldl_next]
    rfl
  · rintro ⟨hlength, rfl⟩
    refine ⟨(), (checkLength_eq_ok_iff _ _ _).mpr hlength, ?_⟩
    rw [Walk.stream_foldl_next]
    rfl

/-- A longer word extends the line of its beginning, unless that has no symbol to tell the
depth of the first place. -/
theorem draw_append (hword : word ≠ []) (hline : draw settings table word counts = .ok line)
    {more : Word} {moreCounts : List Nat} (hmore : more.length = moreCounts.length) :
    draw settings table (word ++ more) (counts ++ moreCounts) =
      .ok (line.extend (((atStart settings).after settings table word).course settings table
        (more.zip moreCounts))) := by
  obtain ⟨hlength, rfl⟩ := draw_eq_ok_iff.mp hline
  obtain ⟨count, others, rfl⟩ : ∃ count others, counts = count :: others := by
    cases counts with
    | nil => exact absurd (List.eq_nil_of_length_eq_zero hlength) hword
    | cons count others => exact ⟨count, others, rfl⟩
  rw [draw_eq_ok_iff, List.length_append, List.length_append, hlength, hmore]
  refine ⟨rfl, ?_⟩
  rw [← Stream.extend_append, stops, stops, course_zip_append _ _ _ hlength]
  rfl

/-- The last vertex of a line shows, at the place where the turtle is. -/
theorem getLast?_vertex_course (settings : TurtleSettings) (table : Interpretation)
    (turtle : Turtle) (entries : List (Char × Nat)) (stop : Stop)
    (hstop : stop.vertex = ⟨turtle.pose.point, .black⟩) :
    ((stop :: turtle.course settings table entries).map Stop.vertex).getLast? =
      some ⟨(turtle.after settings table (entries.map Prod.fst)).pose.point, .black⟩ := by
  induction entries generalizing turtle stop with
  | nil => simp [course, after, hstop]
  | cons entry entries ih =>
      rw [course, List.map_cons, List.map_append, List.map_cons, after_cons]
      rcases heed_cases settings table turtle entry.1 with
        ⟨-, hheed⟩ | ⟨-, pose, saved, -, hheed⟩ | ⟨-, pose, hheed⟩ | ⟨-, -, heading, hheed⟩
      · rw [hheed]
        exact ih _ stop hstop
      · have hback := ih ⟨pose, saved⟩ ((pose.mark false).stop entry.2) rfl
        rw [List.map_cons] at hback
        simpa [hheed] using hback
      · have hnext := ih ⟨pose, turtle.saved⟩ ((pose.mark false).stop entry.2) rfl
        rw [List.map_cons] at hnext
        simpa [hheed] using hnext
      · rw [hheed]
        exact ih _ stop hstop

theorem has_of_draw (hline : draw settings table word counts = .ok line) :
    line.Has (stops settings table word counts) := by
  rw [(draw_eq_ok_iff.mp hline).2]
  exact Stream.has_empty.extend _

theorem back?_vertices_of_draw (hline : draw settings table word counts = .ok line) :
    line.vertices.back? =
      some ⟨((atStart settings).after settings table word).pose.point, .black⟩ := by
  have hlength := (draw_eq_ok_iff.mp hline).1
  have hlast := getLast?_vertex_course settings table (atStart settings) (word.zip counts)
    ⟨⟨(atStart settings).pose.point, .black⟩, counts.headD 0, false⟩ rfl
  rw [List.map_fst_zip (Nat.le_of_eq hlength)] at hlast
  rw [← Array.getLast?_toList, (has_of_draw hline).vertices_eq]
  exact hlast

end Turtle

end LineGrammar
