/-
Symbols without an order.  They move no turtle and leave no mark, so they can be left out of a
word, each with its depth, and the same line is drawn.  Only the first symbol is seen without an
order, as its depth is that of the first place.
-/
import Mathlib.Data.Finset.Basic
import LineGrammar.Proofs.Turtle.Shape

namespace LineGrammar

section LeaveOut

variable {A B : Type} {places : Finset Nat}

/-- A list without what stands at some places, which are counted from `first`. -/
def leaveOut (places : Finset Nat) (first : Nat) (values : List A) : List A :=
  ((values.zipIdx first).filter fun entry => entry.2 ∉ places).map Prod.fst

theorem leaveOut_cons_of_mem {first : Nat} (h : first ∈ places) (value : A) (values : List A) :
    leaveOut places first (value :: values) = leaveOut places (first + 1) values := by
  rw [leaveOut, List.zipIdx_cons, List.filter_cons_of_neg (by simpa using h)]
  rfl

theorem leaveOut_cons_of_not_mem {first : Nat} (h : first ∉ places) (value : A)
    (values : List A) :
    leaveOut places first (value :: values) = value :: leaveOut places (first + 1) values := by
  rw [leaveOut, List.zipIdx_cons, List.filter_cons_of_pos (by simpa using h)]
  rfl

/-- Two lists in step stay so where the same places are left out of both. -/
theorem zip_leaveOut (first : Nat) {values : List A} {others : List B}
    (hlength : values.length = others.length) :
    (leaveOut places first values).zip (leaveOut places first others) =
      leaveOut places first (values.zip others) := by
  induction values generalizing others first with
  | nil => rfl
  | cons value values ih =>
      cases others with
      | nil => cases hlength
      | cons other others =>
          have hrest := ih (first + 1) (Nat.succ.inj hlength)
          rw [List.zip_cons_cons]
          by_cases hplace : first ∈ places
          · simp only [leaveOut_cons_of_mem hplace, hrest]
          · simp only [leaveOut_cons_of_not_mem hplace, List.zip_cons_cons, hrest]

theorem length_leaveOut (first : Nat) (values : List A) :
    (leaveOut places first values).length =
      (List.range' first values.length).countP fun i => i ∉ places := by
  rw [leaveOut, List.length_map, ← List.countP_eq_length_filter, ← List.zipIdx_map_snd,
    List.countP_map]
  rfl

theorem head?_leaveOut (h : 0 ∉ places) (values : List A) :
    (leaveOut places 0 values).head? = values.head? := by
  cases values with
  | nil => rfl
  | cons value values =>
      rw [leaveOut_cons_of_not_mem h]
      rfl

end LeaveOut

namespace Turtle

variable {settings : TurtleSettings} {table : Interpretation}

theorem heed_of_get?_eq_none {turtle : Turtle} {symbol : Char}
    (h : table.get? symbol = none) : turtle.heed settings table symbol = ([], turtle) := by
  simp only [heed, h]

/-- The course over a word does not change when symbols without an order are left out. -/
theorem course_leaveOut {places : Finset Nat} (turtle : Turtle) (first : Nat)
    {entries : List (Char × Nat)}
    (hidle : ∀ i entry, entries[i]? = some entry → first + i ∈ places →
      table.get? entry.1 = none) :
    turtle.course settings table (leaveOut places first entries) =
      turtle.course settings table entries := by
  induction entries generalizing turtle first with
  | nil => rfl
  | cons entry entries ih =>
      have hrest : ∀ i other, entries[i]? = some other → first + 1 + i ∈ places →
          table.get? other.1 = none := by
        intro i other hother hplace
        exact hidle (i + 1) other hother (by rwa [Nat.add_right_comm] at hplace)
      by_cases hplace : first ∈ places
      · have hfirst := hidle 0 entry rfl hplace
        rw [leaveOut_cons_of_mem hplace, ih turtle (first + 1) hrest, course,
          heed_of_get?_eq_none hfirst]
        rfl
      · rw [leaveOut_cons_of_not_mem hplace, course, course, ih _ (first + 1) hrest]

section Line

variable {word : Word} {counts : List Nat} {places : Finset Nat}

/-- Only the depth of the first stop can tell whether symbols without an order are left out. -/
theorem stops_leaveOut (hlength : word.length = counts.length)
    (hidle : ∀ i ∈ places, ∀ symbol, word[i]? = some symbol → table.get? symbol = none) :
    stops settings table (leaveOut places 0 word) (leaveOut places 0 counts) =
      ⟨⟨(atStart settings).pose.point, .black⟩, (leaveOut places 0 counts).headD 0, false⟩
        :: (atStart settings).course settings table (word.zip counts) := by
  rw [stops, zip_leaveOut 0 hlength, course_leaveOut]
  intro i entry hentry hplace
  rw [Nat.zero_add] at hplace
  exact hidle i hplace entry.1 (List.getElem?_zip_eq_some.mp hentry).1

/-- Leaving out symbols without an order, together with their depths, leaves the line as it is,
unless the first symbol is among them.  In that case too the vertices and the bridges stay, and
the depths but for the first one, which is then that of the first symbol left. -/
theorem draw_leaveOut (settings : TurtleSettings) (table : Interpretation)
    (hlength : word.length = counts.length)
    (hidle : ∀ i ∈ places, ∀ symbol, word[i]? = some symbol → table.get? symbol = none) :
    ∃ line shorter, draw settings table word counts = .ok line ∧
      draw settings table (leaveOut places 0 word) (leaveOut places 0 counts) = .ok shorter ∧
      (0 ∉ places → shorter = line) ∧
      shorter.vertices = line.vertices ∧ shorter.bridges = line.bridges ∧
      shorter.depths = line.depths.setIfInBounds 0 ((leaveOut places 0 counts).headD 0) ∧
      IsGreatest {depth | depth ∈ shorter.depths} shorter.maxDepth := by
  have hshorterLength : (leaveOut places 0 word).length = (leaveOut places 0 counts).length := by
    rw [length_leaveOut, length_leaveOut, hlength]
  have hline : draw settings table word counts =
      .ok (Stream.empty.extend (stops settings table word counts)) :=
    draw_eq_ok_iff.mpr ⟨hlength, rfl⟩
  have hshorter : draw settings table (leaveOut places 0 word) (leaveOut places 0 counts) =
      .ok (Stream.empty.extend (stops settings table (leaveOut places 0 word)
        (leaveOut places 0 counts))) :=
    draw_eq_ok_iff.mpr ⟨hshorterLength, rfl⟩
  have hlineHas := has_of_draw hline
  have hshorterHas := has_of_draw hshorter
  have hgreatest := isGreatest_maxDepth hshorter
  have hstops : stops settings table (leaveOut places 0 word) (leaveOut places 0 counts) =
      ⟨⟨(atStart settings).pose.point, .black⟩, (leaveOut places 0 counts).headD 0, false⟩
        :: (atStart settings).course settings table (word.zip counts) :=
    stops_leaveOut hlength hidle
  refine ⟨_, _, hline, hshorter, ?_, ?_, ?_, ?_, hgreatest⟩
  · intro hfirst
    rw [hstops, List.headD_eq_head?_getD, head?_leaveOut hfirst, stops,
      List.headD_eq_head?_getD]
  · rw [← Array.toList_inj, hshorterHas.vertices_eq, hlineHas.vertices_eq, hstops]
    rfl
  · rw [← Array.toList_inj, hshorterHas.bridges_eq, hlineHas.bridges_eq, hstops]
    rfl
  · rw [← Array.toList_inj, Array.toList_setIfInBounds, hshorterHas.depths_eq,
      hlineHas.depths_eq, hstops]
    rfl

/-- A line that is one deeper for a first symbol without an order. -/
theorem draw_leaveOut_first :
    let word : Word := ['X', 'F', 'Y', 'F']
    let counts := [4, 1, 5, 3]
    word.length = counts.length ∧
      (∀ i ∈ ({2} : Finset Nat), ∀ symbol, word[i]? = some symbol →
        Interpretation.default.get? symbol = none) ∧
      (∀ i ∈ ({0, 2} : Finset Nat), ∀ symbol, word[i]? = some symbol →
        Interpretation.default.get? symbol = none) ∧
      ∃ line shorter, draw .default .default word counts = .ok line ∧
        draw .default .default ['X', 'F', 'F'] [4, 1, 3] = .ok line ∧
        draw .default .default ['F', 'F'] [1, 3] = .ok shorter ∧
        shorter.vertices = line.vertices ∧ shorter.bridges = line.bridges ∧
        line.depths = #[4, 1, 3] ∧ shorter.depths = #[1, 1, 3] ∧
        line.maxDepth = 4 ∧ shorter.maxDepth = 3 := by
  intro word counts
  have hidle : ∀ i ∈ ({0, 2} : Finset Nat), ∀ symbol, word[i]? = some symbol →
      Interpretation.default.get? symbol = none := by
    have hnone : Interpretation.default.get? 'X' = none ∧
        Interpretation.default.get? 'Y' = none := by
      decide +kernel
    intro i hi symbol hsymbol
    rcases Finset.mem_insert.mp hi with rfl | hi
    · exact Option.some.inj hsymbol ▸ hnone.1
    · obtain rfl := Finset.mem_singleton.mp hi
      exact Option.some.inj hsymbol ▸ hnone.2
  have hlater : ∀ i ∈ ({2} : Finset Nat), ∀ symbol, word[i]? = some symbol →
      Interpretation.default.get? symbol = none :=
    fun i hi => hidle i (Finset.mem_insert_of_mem hi)
  obtain ⟨line, same, hline, hsame, hkept, -⟩ :=
    @draw_leaveOut word counts {2} .default .default rfl hlater
  obtain ⟨whole, shorter, hwhole, hshorter, -, hvertices, hbridges, hdepths, -⟩ :=
    @draw_leaveOut word counts {0, 2} .default .default rfl hidle
  obtain rfl := Except.ok.inj (hline.symm.trans hwhole)
  rw [hkept (by decide)] at hsame
  have hlineDepths : line.depths = #[4, 1, 3] := by
    rw [← Array.toList_inj, (has_of_draw hline).depths_eq]
    decide +kernel
  refine ⟨rfl, hlater, hidle, line, shorter, hline, hsame, hshorter, hvertices, hbridges,
    hlineDepths, ?_, ?_, ?_⟩
  · rw [hdepths, hlineDepths]
    rfl
  · rw [(draw_eq_ok_iff.mp hline).2]
    decide +kernel
  · rw [(draw_eq_ok_iff.mp hshorter).2]
    decide +kernel

end Line

end Turtle

end LineGrammar
