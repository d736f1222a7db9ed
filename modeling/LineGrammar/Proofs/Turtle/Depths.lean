/-
The depths of a line.  Each symbol adds to it nothing, a vertex, or a bridge of three vertices,
all of the symbol's own depth.  The line of a derived word is therefore no deeper than the
derivation, and painters meet no vertex that is deeper than the line.
-/
import LineGrammar.Proofs.LSystem.Ancestry
import LineGrammar.Proofs.Painter.Quotients
import LineGrammar.Proofs.Turtle.Shape

namespace LineGrammar

/-- What one symbol adds to a line: a vertex, or a bridge. -/
structure Link where
  depth : Nat
  bridge : Bool

namespace Link

/-- All vertices of a link have its depth. -/
def depths (link : Link) : List Nat :=
  if link.bridge then [link.depth, link.depth, link.depth] else [link.depth]

/-- Of a bridge only the last vertex shows. -/
def flags (link : Link) : List Bool :=
  if link.bridge then [true, true, false] else [false]

/-- Links are known from their vertices. -/
theorem eq_of_flatMap {links others : List Link}
    (hdepths : links.flatMap depths = others.flatMap depths)
    (hflags : links.flatMap flags = others.flatMap flags) : links = others := by
  induction links generalizing others with
  | nil =>
      cases others with
      | nil => rfl
      | cons other others =>
          obtain ⟨depth, bridge⟩ := other
          cases bridge <;> cases hflags
  | cons link links ih =>
      cases others with
      | nil =>
          obtain ⟨depth, bridge⟩ := link
          cases bridge <;> cases hflags
      | cons other others =>
          obtain ⟨depth, bridge⟩ := link
          obtain ⟨depth', bridge'⟩ := other
          -- Only a link of the same kind starts with the same flag.
          obtain rfl : bridge = bridge' := by
            cases bridge <;> cases bridge' <;> first | rfl | cases hflags
          have hrest : links.flatMap flags = others.flatMap flags :=
            List.append_cancel_left hflags
          obtain ⟨rfl, htail⟩ : depth = depth' ∧ links.flatMap depths = others.flatMap depths := by
            cases bridge <;> simpa [depths] using hdepths
          rw [ih htail hrest]

theorem depth_mem_of_mem_flatMap {links : List Link} {depth : Nat}
    (h : depth ∈ links.flatMap depths) : depth ∈ links.map Link.depth := by
  obtain ⟨link, hlink, hdepth⟩ := List.mem_flatMap.mp h
  have hsame : depth = link.depth := by
    rw [depths] at hdepth
    split at hdepth <;> simpa using hdepth
  exact hsame ▸ List.mem_map_of_mem hlink

end Link

/-- A line joins links to a first vertex that shows. -/
structure Stream.Joins (line : Stream) (first : Nat) (links : List Link) : Prop where
  depths_eq : line.depths.toList = first :: links.flatMap Link.depths
  bridges_eq : line.bridges.toList = false :: links.flatMap Link.flags

theorem Stream.Joins.unique {line : Stream} {first : Nat} {links others : List Link}
    (h : line.Joins first links) (h' : line.Joins first others) : links = others :=
  Link.eq_of_flatMap (List.cons.inj (h.depths_eq.symm.trans h'.depths_eq)).2
    (List.cons.inj (h.bridges_eq.symm.trans h'.bridges_eq)).2

namespace Turtle

variable {settings : TurtleSettings} {table : Interpretation}

/-- The stops of a course are links, one for some of the symbols. -/
theorem exists_links (settings : TurtleSettings) (table : Interpretation) (turtle : Turtle)
    (entries : List (Char × Nat)) : ∃ links : List Link,
      (turtle.course settings table entries).map Stop.depth = links.flatMap Link.depths ∧
      (turtle.course settings table entries).map Stop.bridge = links.flatMap Link.flags ∧
      (links.map Link.depth).Sublist (entries.map Prod.snd) := by
  induction entries generalizing turtle with
  | nil => exact ⟨[], rfl, rfl, List.Sublist.refl []⟩
  | cons entry entries ih =>
      obtain ⟨links, hdepths, hflags, hsublist⟩ := ih (turtle.heed settings table entry.1).2
      rw [course, List.map_append, List.map_append, hdepths, hflags]
      rcases heed_cases settings table turtle entry.1 with
        ⟨-, hheed⟩ | ⟨-, pose, saved, -, hheed⟩ | ⟨-, pose, hheed⟩ | ⟨-, -, heading, hheed⟩
      · rw [hheed]
        exact ⟨links, rfl, rfl, hsublist.cons _⟩
      · rw [hheed]
        exact ⟨⟨entry.2, true⟩ :: links, rfl, rfl, hsublist.cons_cons _⟩
      · rw [hheed]
        exact ⟨⟨entry.2, false⟩ :: links, rfl, rfl, hsublist.cons_cons _⟩
      · rw [hheed]
        exact ⟨links, rfl, rfl, hsublist.cons _⟩

variable {word : Word} {counts : List Nat} {line : Stream}

/-- The first vertex has the depth of the first symbol, and each link that of a later one or of
the first one. -/
theorem exists_joins (hline : draw settings table word counts = .ok line) :
    ∃ links, line.Joins (counts.headD 0) links ∧ (links.map Link.depth).Sublist counts := by
  have hlength := (draw_eq_ok_iff.mp hline).1
  have hstops := has_of_draw hline
  obtain ⟨links, hdepths, hflags, hsublist⟩ :=
    exists_links settings table (atStart settings) (word.zip counts)
  rw [List.map_snd_zip (Nat.le_of_eq hlength.symm)] at hsublist
  refine ⟨links, ⟨?_, ?_⟩, hsublist⟩
  · rw [hstops.depths_eq, stops, List.map_cons, hdepths]
  · rw [hstops.bridges_eq, stops, List.map_cons, hflags]

/-- A line is as deep as one of the symbols, or has no depth. -/
theorem maxDepth_eq_zero_or_mem (hline : draw settings table word counts = .ok line) :
    line.maxDepth = 0 ∨ line.maxDepth ∈ counts := by
  obtain ⟨links, hjoins, hsublist⟩ := exists_joins hline
  have hmem := Array.mem_toList_iff.mpr (isGreatest_maxDepth hline).1
  rw [hjoins.depths_eq] at hmem
  rcases List.mem_cons.mp hmem with hfirst | hlink
  · cases counts with
    | nil => exact .inl hfirst
    | cons count counts =>
        rw [hfirst]
        exact .inr List.mem_cons_self
  · exact .inr (hsublist.subset (Link.depth_mem_of_mem_flatMap hlink))

end Turtle

namespace LSystem

/-- The depths of the line of a derived word.  The first vertex has that of the first symbol, or
zero if there is none, and the links after it have depths of symbols in the order of the word.
The line is as deep as its deepest vertex and no deeper than the derivation.  Painters meet no
deeper vertex on it, and never divide by zero for a depth. -/
theorem depths_of_draw {system : LSystem} (h : system.Reachable) (settings : TurtleSettings)
    (table : Interpretation) (depth : Nat) :
    let derivation := (system.produce depth).1
    ∃ line, Turtle.draw settings table derivation.word derivation.counts = .ok line ∧
      (∃ links, line.Joins (derivation.counts.headD 0) links ∧
        (∀ others, line.Joins (derivation.counts.headD 0) others → others = links) ∧
        (links.map Link.depth).Sublist derivation.counts) ∧
      (∀ d ∈ line.depths, d ≤ line.maxDepth) ∧
      line.maxDepth ≤ derivation.peak ∧ derivation.peak ≤ min depth 255 ∧
      (∀ (search : Search LinearKey) (painter : Painter Draws), ∃ painted,
        painter.paintStream? search line = some painted ∧
        painter.paintStream search line = .ok painted) ∧
      ∀ maxDepth ≤ 255, ∀ d,
        Shade.iterationScalar? maxDepth d = some (Shade.iterationScalar maxDepth d) := by
  intro derivation
  have hderivation : derivation = system.grammar.derive depth := h.faithful.produce_fst depth
  rw [hderivation]
  obtain ⟨line, hline⟩ : ∃ line, Turtle.draw settings table (system.grammar.derive depth).word
      (system.grammar.derive depth).counts = .ok line :=
    ⟨_, Turtle.draw_eq_ok_iff.mpr ⟨(system.grammar.length_counts_levelAt depth).symm, rfl⟩⟩
  have hshows := Turtle.shows_of_draw hline
  obtain ⟨links, hjoins, hsublist⟩ := Turtle.exists_joins hline
  have hdeepest := Turtle.isGreatest_maxDepth hline
  have hpeak := system.grammar.peak_le depth
  have hmax : line.maxDepth ≤ (system.grammar.levelAt depth).peak := by
    rcases Turtle.maxDepth_eq_zero_or_mem hline with hzero | hmem
    · exact hzero ▸ Nat.zero_le _
    · exact system.grammar.le_peak (Nat.le_refl depth) hmem
  have hlimit : min depth Grammar.countLimit < 2 ^ 64 :=
    Nat.lt_of_le_of_lt (Nat.min_le_right _ _) (by decide)
  refine ⟨line, hline, ⟨links, hjoins, fun _ hothers => hothers.unique hjoins, hsublist⟩,
    fun d hd => hdeepest.2 hd, hmax, hpeak, fun search painter => ?_, fun maxDepth hle d => ?_⟩
  · exact painter.exists_paintStream? search hshows.size_depths_eq hshows.size_bridges_eq
      (fun d hd => hdeepest.2 hd) (Nat.lt_of_le_of_lt (hmax.trans hpeak) hlimit)
  · exact Shade.iterationScalar?_eq (Nat.lt_of_le_of_lt hle (by decide)) d

/-- A system whose last depths are those of branches. -/
def thicket : LSystem :=
  (ofRules ['F', 'X'] [('F', ['F', '[', '+', 'F', ']', 'X']), ('X', [])] ['F']).run
    [.produceWord 1]

/-- The line of a thicket has bridges, and a painter of depths colors it. -/
theorem depths_of_draw_thicket :
    thicket.Reachable ∧ ∃ line painted, Turtle.draw .default .default (thicket.produce 2).1.word
      (thicket.produce 2).1.counts = .ok line ∧ line.maxDepth ≤ 2 ∧
      (Painter.leaf .iteration .default).paintStream? .halving line = some painted := by
  have hreachable : thicket.Reachable := ⟨_, _, _, _, rfl⟩
  obtain ⟨line, hline, -, -, hmax, hpeak, hpainted, -⟩ :=
    depths_of_draw hreachable .default .default 2
  obtain ⟨painted, hpainted, -⟩ := hpainted .halving (.leaf .iteration .default)
  exact ⟨hreachable, line, painted, hline, (hmax.trans hpeak).trans (by decide), hpainted⟩

end LSystem

end LineGrammar
