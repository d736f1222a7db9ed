/-
The shape of a line.  It begins with a vertex that shows, and goes on with more of them and
with bridges.  A bridge leaves the place of the vertex before it and arrives at one where the
turtle has saved its pose, and what shows again starts from there.
-/
import Mathlib.Computability.Language
import Mathlib.Order.Bounds.Basic
import LineGrammar.Proofs.Turtle.Course

namespace LineGrammar

open scoped Computability

namespace Stream

/-- The flags of what can follow a vertex that shows: another one, or a bridge of two vertices
that do not show and one that does. -/
def links : Language Bool :=
  {[false]} + {[true, true, false]}

def flags : Language Bool :=
  {[false]} * links∗

theorem append_mem_kstar_links {link others : List Bool} (hlink : link ∈ links)
    (hothers : others ∈ links∗) : link ++ others ∈ links∗ :=
  Set.mem_of_mem_of_subset (Language.append_mem_mul hlink hothers) (mul_kstar_le_kstar (a := links))

/-- A line has a bridge after the vertex of an index. It leads from one place to another, and
has one depth. -/
structure HasBridge (line : Stream) (i : Nat) (tip base : Point) (depth : Nat) : Prop where
  vertex_tip : line.vertices[i]? = some ⟨tip, .black⟩
  vertex_leaving : line.vertices[i + 1]? = some ⟨tip, .transparent⟩
  vertex_arriving : line.vertices[i + 2]? = some ⟨base, .transparent⟩
  vertex_base : line.vertices[i + 3]? = some ⟨base, .black⟩
  depth_leaving : line.depths[i + 1]? = some depth
  depth_arriving : line.depths[i + 2]? = some depth
  depth_base : line.depths[i + 3]? = some depth

section Has

variable {line : Stream} {stops : List Stop}

theorem Has.getElem?_vertices (h : line.Has stops) (i : Nat) :
    line.vertices[i]? = stops[i]?.map Stop.vertex := by
  rw [← Array.getElem?_toList, h.vertices_eq, List.getElem?_map]

theorem Has.getElem?_depths (h : line.Has stops) (i : Nat) :
    line.depths[i]? = stops[i]?.map Stop.depth := by
  rw [← Array.getElem?_toList, h.depths_eq, List.getElem?_map]

theorem Has.getElem?_bridges (h : line.Has stops) (i : Nat) :
    line.bridges[i]? = stops[i]?.map Stop.bridge := by
  rw [← Array.getElem?_toList, h.bridges_eq, List.getElem?_map]

theorem Has.size_vertices (h : line.Has stops) : line.vertices.size = stops.length := by
  rw [← Array.length_toList, h.vertices_eq, List.length_map]

theorem Has.size_depths (h : line.Has stops) : line.depths.size = stops.length := by
  rw [← Array.length_toList, h.depths_eq, List.length_map]

theorem Has.size_bridges (h : line.Has stops) : line.bridges.size = stops.length := by
  rw [← Array.length_toList, h.bridges_eq, List.length_map]

end Has

/-- A bridge among the stops of a line, after one that shows. -/
theorem Has.hasBridge {line : Stream} {earlier later : List Stop} {tip base : Point}
    {depth i : Nat} (hsize : earlier.length = i + 1)
    (htip : (earlier.map Stop.vertex).getLast? = some ⟨tip, .black⟩)
    (hline : line.Has (earlier ++ ⟨⟨tip, .transparent⟩, depth, true⟩
      :: ⟨⟨base, .transparent⟩, depth, true⟩ :: ⟨⟨base, .black⟩, depth, false⟩ :: later)) :
    line.HasBridge i tip base depth where
  vertex_tip := by
    rw [List.getLast?_eq_getElem?, List.length_map, hsize, List.getElem?_map] at htip
    rw [hline.getElem?_vertices, List.getElem?_append_left (by omega)]
    exact htip
  vertex_leaving := by
    rw [hline.getElem?_vertices, List.getElem?_append_right (by omega)]
    simp [hsize]
  vertex_arriving := by
    rw [hline.getElem?_vertices, List.getElem?_append_right (by omega)]
    simp [hsize]
  vertex_base := by
    rw [hline.getElem?_vertices, List.getElem?_append_right (by omega)]
    simp [hsize]
  depth_leaving := by
    rw [hline.getElem?_depths, List.getElem?_append_right (by omega)]
    simp [hsize]
  depth_arriving := by
    rw [hline.getElem?_depths, List.getElem?_append_right (by omega)]
    simp [hsize]
  depth_base := by
    rw [hline.getElem?_depths, List.getElem?_append_right (by omega)]
    simp [hsize]

theorem isGreatest_first (vertex : Vertex) (depth : Nat) (bridge : Bool) :
    IsGreatest {other | other ∈ (empty.push vertex depth bridge).depths}
      (empty.push vertex depth bridge).maxDepth := by
  simp [push, empty]

/-- The depth of a line is the largest of its depths, and stays so. -/
theorem isGreatest_push {line : Stream}
    (h : IsGreatest {depth | depth ∈ line.depths} line.maxDepth) (vertex : Vertex) (depth : Nat)
    (bridge : Bool) :
    IsGreatest {other | other ∈ (line.push vertex depth bridge).depths}
      (line.push vertex depth bridge).maxDepth := by
  have hset : {other | other ∈ (line.push vertex depth bridge).depths} =
      insert depth {other | other ∈ line.depths} := by
    ext other
    simp [push, or_comm]
  rw [hset]
  change IsGreatest _ (max line.maxDepth depth)
  rw [max_comm]
  exact h.insert depth

theorem isGreatest_extend {line : Stream}
    (h : IsGreatest {depth | depth ∈ line.depths} line.maxDepth) (stops : List Stop) :
    IsGreatest {depth | depth ∈ (line.extend stops).depths} (line.extend stops).maxDepth := by
  induction stops generalizing line with
  | nil => exact h
  | cons stop stops ih => exact ih (isGreatest_push h stop.vertex stop.depth stop.bridge)

end Stream

/-- The vertex of a mark is black where it shows, otherwise transparent. -/
theorem Mark.color_stop (depth : Nat) (mark : Mark) :
    (mark.stop depth).vertex.color =
      if (mark.stop depth).bridge = true then .transparent else .black :=
  rfl

namespace Turtle

variable {settings : TurtleSettings} {table : Interpretation}

/-- Every saved pose is one that the turtle had at an order to save, unless it was saved
before. -/
theorem exists_save_of_mem_saved {turtle : Turtle} {word : Word} {pose : Pose}
    (h : pose ∈ (turtle.after settings table word).saved) :
    pose ∈ turtle.saved ∨ ∃ before save rest, word = before ++ save :: rest ∧
      table.get? save = some .savePosition ∧
      pose = (turtle.after settings table before).pose := by
  induction word generalizing turtle with
  | nil => exact Or.inl h
  | cons symbol word ih =>
      rw [after_cons] at h
      rcases ih h with hsaved | ⟨before, save, rest, rfl, hsave, hpose⟩
      · rcases heed_cases settings table turtle symbol with
          ⟨hsave, hheed⟩ | ⟨-, first, saved, hfirst, hheed⟩ | ⟨-, next, hheed⟩ |
            ⟨-, -, heading, hheed⟩
        · rw [hheed] at hsaved
          rcases List.mem_cons.mp hsaved with hpose | hsaved
          · exact Or.inr ⟨[], symbol, word, rfl, hsave, hpose⟩
          · exact Or.inl hsaved
        · rw [hheed] at hsaved
          rw [hfirst]
          exact Or.inl (List.mem_cons_of_mem first hsaved)
        · rw [hheed] at hsaved
          exact Or.inl hsaved
        · rw [hheed] at hsaved
          exact Or.inl hsaved
      · exact Or.inr ⟨symbol :: before, save, rest, rfl, hsave, hpose⟩

theorem color_of_mem_course {turtle : Turtle} {entries : List (Char × Nat)} {stop : Stop}
    (h : stop ∈ turtle.course settings table entries) :
    stop.vertex.color = if stop.bridge = true then .transparent else .black := by
  induction entries generalizing turtle with
  | nil => cases h
  | cons entry entries ih =>
      rw [course] at h
      rcases List.mem_append.mp h with hmark | hrest
      · obtain ⟨mark, -, rfl⟩ := List.mem_map.mp hmark
        exact mark.color_stop entry.2
      · exact ih hrest

theorem bridges_course_mem (turtle : Turtle) (entries : List (Char × Nat)) :
    (turtle.course settings table entries).map Stop.bridge ∈ Stream.links∗ := by
  induction entries generalizing turtle with
  | nil => exact Language.nil_mem_kstar _
  | cons entry entries ih =>
      have hrest := ih (turtle.heed settings table entry.1).2
      rw [course, List.map_append]
      rcases heed_cases settings table turtle entry.1 with
        ⟨-, hheed⟩ | ⟨-, pose, saved, -, hheed⟩ | ⟨-, pose, hheed⟩ | ⟨-, -, heading, hheed⟩
      · rw [hheed] at hrest ⊢
        exact hrest
      · rw [hheed] at hrest ⊢
        exact Stream.append_mem_kstar_links (Or.inr rfl) hrest
      · rw [hheed] at hrest ⊢
        exact Stream.append_mem_kstar_links (Or.inl rfl) hrest
      · rw [hheed] at hrest ⊢
        exact hrest

/-- The course over symbols, split at one of them. -/
theorem course_split (turtle : Turtle) (front : List (Char × Nat)) (symbol : Char)
    (depth : Nat) (rest : List (Char × Nat)) :
    let there := turtle.after settings table (front.map Prod.fst)
    turtle.course settings table (front ++ (symbol, depth) :: rest) =
      turtle.course settings table front
        ++ ((there.heed settings table symbol).1.map (Mark.stop depth)
          ++ (there.heed settings table symbol).2.course settings table rest) :=
  course_append turtle front ((symbol, depth) :: rest)

/-- Each stop is made at some symbol. -/
theorem exists_symbol_of_lt (turtle : Turtle) {entries : List (Char × Nat)} {i : Nat}
    (hi : i < (turtle.course settings table entries).length) :
    ∃ front symbol depth rest, entries = front ++ (symbol, depth) :: rest ∧
      (turtle.course settings table front).length ≤ i ∧
      i < (turtle.course settings table front).length
        + ((turtle.after settings table (front.map Prod.fst)).heed settings table
          symbol).1.length := by
  induction entries generalizing turtle i with
  | nil => cases hi
  | cons entry entries ih =>
      rw [course, List.length_append, List.length_map] at hi
      by_cases hfirst : i < (turtle.heed settings table entry.1).1.length
      · refine ⟨[], entry.1, entry.2, entries, rfl, Nat.zero_le _, ?_⟩
        rw [course, List.length_nil, Nat.zero_add]
        exact hfirst
      · obtain ⟨front, symbol, depth, rest, rfl, hle, hlt⟩ :=
          @ih (turtle.heed settings table entry.1).2
            (i - (turtle.heed settings table entry.1).1.length) (by omega)
        refine ⟨entry :: front, symbol, depth, rest, rfl, ?_, ?_⟩
        · rw [course, List.length_append, List.length_map]
          omega
        · rw [course, List.length_append, List.length_map, List.map_cons, after_cons]
          omega

/-- Where two vertices of a bridge follow each other, the first of them is made at an order to
go back, which finds a saved pose. -/
theorem exists_load_of_bridge (turtle : Turtle) {entries : List (Char × Nat)} {i : Nat}
    (hleaving : (turtle.course settings table entries)[i]?.map Stop.bridge = some true)
    (harriving : (turtle.course settings table entries)[i + 1]?.map Stop.bridge = some true) :
    ∃ front load depth rest pose later, entries = front ++ (load, depth) :: rest ∧
      (turtle.course settings table front).length = i ∧
      table.get? load = some .loadPosition ∧
      pose ∈ (turtle.after settings table (front.map Prod.fst)).saved ∧
      turtle.course settings table entries = turtle.course settings table front
        ++ ⟨⟨(turtle.after settings table (front.map Prod.fst)).pose.point, .transparent⟩,
            depth, true⟩
          :: ⟨⟨pose.point, .transparent⟩, depth, true⟩
          :: ⟨⟨pose.point, .black⟩, depth, false⟩ :: later := by
  have hi : i < (turtle.course settings table entries).length := by
    obtain ⟨stop, hstop, -⟩ := Option.map_eq_some_iff.mp hleaving
    exact (List.getElem?_eq_some_iff.mp hstop).1
  obtain ⟨front, symbol, depth, rest, rfl, hle, hlt⟩ := exists_symbol_of_lt turtle hi
  obtain ⟨k, rfl⟩ := Nat.exists_eq_add_of_le hle
  rw [course_split, List.getElem?_append_right (by omega)] at hleaving harriving
  rw [course_split]
  rcases heed_cases settings table (turtle.after settings table (front.map Prod.fst)) symbol with
    ⟨-, hheed⟩ | ⟨hload, pose, saved, hsaved, hheed⟩ | ⟨-, pose, hheed⟩ | ⟨-, -, heading, hheed⟩
  · simp only [hheed, List.length_nil] at hlt
    omega
  · rw [hheed] at hleaving harriving hlt ⊢
    -- Of the three stops of a bridge only the first has another one after it that does not show.
    obtain rfl : k = 0 := by
      match k with
      | 0 => rfl
      | 1 => simp [Mark.stop, Pose.mark, Nat.add_assoc] at harriving
      | 2 => simp [Mark.stop, Pose.mark] at hleaving
      | k + 3 =>
          simp only [List.length_cons, List.length_nil] at hlt
          omega
    refine ⟨front, symbol, depth, rest, pose, _, rfl, rfl, hload, ?_, rfl⟩
    rw [hsaved]
    exact List.mem_cons_self
  · rw [hheed] at hleaving hlt
    obtain rfl : k = 0 := by simpa using hlt
    simp [Mark.stop, Pose.mark] at hleaving
  · simp only [hheed, List.length_nil] at hlt
    omega

section Line

variable {word : Word} {counts : List Nat} {line : Stream}

theorem draw_of_length_ne (h : word.length ≠ counts.length) :
    draw settings table word counts =
      .error (.lengthMismatch .recursion word.length counts.length) := by
  rw [draw, checkLength, if_neg h]
  rfl

theorem toList_bridges_mem_flags (hline : draw settings table word counts = .ok line) :
    line.bridges.toList ∈ Stream.flags := by
  rw [(has_of_draw hline).bridges_eq]
  exact Language.append_mem_mul (Set.mem_singleton [false]) (bridges_course_mem _ _)

theorem color_of_draw (hline : draw settings table word counts = .ok line) {i : Nat}
    {vertex : Vertex} {bridge : Bool} (hvertex : line.vertices[i]? = some vertex)
    (hbridge : line.bridges[i]? = some bridge) :
    vertex.color = if bridge = true then .transparent else .black := by
  rw [(has_of_draw hline).getElem?_vertices, Option.map_eq_some_iff] at hvertex
  obtain ⟨stop, hstop, rfl⟩ := hvertex
  rw [(has_of_draw hline).getElem?_bridges, hstop, Option.map_some, Option.some_inj] at hbridge
  rw [← hbridge]
  rcases List.mem_cons.mp (List.mem_of_getElem? hstop) with rfl | hcourse
  · rfl
  · exact color_of_mem_course hcourse

theorem isGreatest_maxDepth (hline : draw settings table word counts = .ok line) :
    IsGreatest {depth | depth ∈ line.depths} line.maxDepth := by
  rw [(draw_eq_ok_iff.mp hline).2]
  exact Stream.isGreatest_extend (Stream.isGreatest_first _ _ _) _

/-- A bridge of a line comes from an order to go back, and leads to the place of the turtle at
an order to save before that.  What stands before the order to go back draws the vertices before
the bridge. -/
theorem exists_hasBridge (hline : draw settings table word counts = .ok line) {i : Nat}
    (hleaving : line.bridges[i + 1]? = some true) (harriving : line.bridges[i + 2]? = some true) :
    ∃ tip base depth, line.HasBridge i tip base depth ∧
      ∃ before save between load rest beforeCounts restCounts shorter,
        word = before ++ save :: between ++ load :: rest ∧
        counts = beforeCounts ++ depth :: restCounts ∧
        table.get? save = some .savePosition ∧ table.get? load = some .loadPosition ∧
        draw settings table (before ++ save :: between) beforeCounts = .ok shorter ∧
        shorter.size = i + 1 ∧
        base = ((atStart settings).after settings table before).pose.point := by
  have hlength := (draw_eq_ok_iff.mp hline).1
  have hstops := has_of_draw hline
  rw [hstops.getElem?_bridges] at hleaving harriving
  obtain ⟨front, load, depth, rest, pose, later, hentries, hsize, hload, hpose, hcourse⟩ :=
    exists_load_of_bridge (atStart settings) hleaving harriving
  rcases exists_save_of_mem_saved hpose with hnone | ⟨before, save, between, hfront, hsave, hbase⟩
  · cases hnone
  have hword := congrArg (List.map Prod.fst) hentries
  rw [List.map_fst_zip (Nat.le_of_eq hlength), List.map_append, List.map_cons, hfront] at hword
  have hcounts := congrArg (List.map Prod.snd) hentries
  rw [List.map_snd_zip (Nat.le_of_eq hlength.symm), List.map_append, List.map_cons] at hcounts
  have hbridge : line.HasBridge i
      ((atStart settings).after settings table (front.map Prod.fst)).pose.point pose.point
      depth := by
    rw [stops, hcourse] at hstops
    have hlast := getLast?_vertex_course settings table (atStart settings) front
      ⟨⟨(atStart settings).pose.point, .black⟩, counts.headD 0, false⟩ rfl
    exact @Stream.Has.hasBridge line (_ :: (atStart settings).course settings table front) later
      _ _ depth i (congrArg Nat.succ hsize) hlast hstops
  obtain ⟨shorter, hshorter, hcount⟩ : ∃ shorter,
      draw settings table (front.map Prod.fst) (front.map Prod.snd) = .ok shorter ∧
        shorter.size = i + 1 := by
    refine ⟨_, draw_eq_ok_iff.mpr ⟨by rw [List.length_map, List.length_map], rfl⟩, ?_⟩
    have hzip : (front.map Prod.fst).zip (front.map Prod.snd) = front :=
      (List.zip_of_prod rfl rfl).symm
    rw [Stream.size, (Stream.has_empty.extend _).size_vertices, stops, hzip, List.nil_append,
      List.length_cons, hsize]
  rw [hfront] at hshorter
  exact ⟨_, _, _, hbridge, before, save, between, load, _, _, _, shorter, hword, hcounts, hsave,
    hload, hshorter, hcount, congrArg Pose.point hbase⟩

end Line

/-- A word is drawn unless its depths do not belong to it.  Its line has a depth and a flag for
each vertex.  The flags tell which vertices are black, and where there are bridges; each of these
goes from the vertex before it to a place at which the turtle was on an order to save before.  The
depth of the line is the largest of its depths. -/
theorem draw_shape (settings : TurtleSettings) (table : Interpretation) (word : Word)
    (counts : List Nat) :
    (draw settings table word counts =
        .error (.lengthMismatch .recursion word.length counts.length) ↔
      word.length ≠ counts.length) ∧
    (word.length = counts.length → ∃ line, draw settings table word counts = .ok line ∧
      line.depths.size = line.vertices.size ∧ line.bridges.size = line.vertices.size ∧
      line.bridges.toList ∈ Stream.flags ∧
      (∀ (i : Nat) vertex bridge, line.vertices[i]? = some vertex →
        line.bridges[i]? = some bridge →
        vertex.color = if bridge = true then .transparent else .black) ∧
      (∀ i : Nat, line.bridges[i + 1]? = some true → line.bridges[i + 2]? = some true →
        ∃ tip base depth, line.HasBridge i tip base depth ∧
          ∃ before save between load rest beforeCounts restCounts shorter,
            word = before ++ save :: between ++ load :: rest ∧
            counts = beforeCounts ++ depth :: restCounts ∧
            table.get? save = some .savePosition ∧ table.get? load = some .loadPosition ∧
            draw settings table (before ++ save :: between) beforeCounts = .ok shorter ∧
            shorter.size = i + 1 ∧
            base = ((atStart settings).after settings table before).pose.point) ∧
      IsGreatest {depth | depth ∈ line.depths} line.maxDepth) := by
  constructor
  · constructor
    · intro h
      exact (draw_eq_error_iff settings table word counts).mp ⟨_, h⟩
    · exact draw_of_length_ne
  · intro hlength
    have hline : draw settings table word counts =
        .ok (Stream.empty.extend (stops settings table word counts)) :=
      draw_eq_ok_iff.mpr ⟨hlength, rfl⟩
    have hstops := has_of_draw hline
    exact ⟨_, hline, hstops.size_depths.trans hstops.size_vertices.symm,
      hstops.size_bridges.trans hstops.size_vertices.symm, toList_bridges_mem_flags hline,
      fun i vertex bridge => color_of_draw hline, fun i => exists_hasBridge hline,
      isGreatest_maxDepth hline⟩

end Turtle

end LineGrammar
