/-
The table of predicted sizes against the limits.  A row tells of a depth what the limits make of
the prediction for it: an overflow, or the counts, with a mark where they are refused.  The rows
go on until the depth of the scene or the first overflow.
-/
import LineGrammar.Command.Program
import LineGrammar.Proofs.Studio.Overflow

namespace LineGrammar

namespace SizeTable

section Cells

/-- What stands in a printed row between its spaces. -/
def cells (row : String) : List String :=
  ((row.toList.splitOn ' ').filter (· ≠ [])).map String.ofList

/-- A text that takes up one cell. -/
def Solid (text : String) : Prop :=
  text.toList ≠ [] ∧ ' ' ∉ text.toList

theorem cells_append_space (left right : String) :
    cells (left ++ " " ++ right) = cells left ++ cells right := by
  have hsplit : (left ++ " " ++ right).toList.splitOn ' ' =
      left.toList.splitOn ' ' ++ right.toList.splitOn ' ' := by
    rw [String.toList_append, String.toList_append, List.append_assoc]
    exact List.splitOn_append_cons_self left.toList right.toList
  rw [cells, hsplit, List.filter_append, List.map_append]
  rfl

theorem cells_of_solid {text : String} (h : Solid text) : cells text = [text] := by
  rw [cells, List.splitOn_eq_singleton h.2, List.filter_cons_of_pos (by simpa using h.1),
    List.filter_nil, List.map_singleton, String.ofList_toList]

theorem cells_column (width : Nat) (text : String) : cells (column width text) = cells text := by
  rw [column]
  induction width - text.length with
  | zero => rfl
  | succ blanks ih =>
      have hblank : String.ofList (List.replicate (blanks + 1) ' ') ++ text =
          "" ++ " " ++ (String.ofList (List.replicate blanks ' ') ++ text) := by
        rw [← String.toList_inj]
        simp [List.replicate_succ]
      rw [hblank, cells_append_space, ih]
      rfl

/-- Numbers are written with digits. -/
theorem isDigit_of_mem_repr {n : Nat} {character : Char} (h : character ∈ n.repr.toList) :
    character.isDigit = true := by
  rw [Nat.toList_repr] at h
  exact Nat.isDigit_of_mem_toDigits (by decide) (by decide) h

/-- No number reads like a text with something else than digits in it. -/
theorem ne_repr {text : String} {character : Char} (hmem : character ∈ text.toList)
    (hdigit : character.isDigit = false) (n : Nat) : text ≠ n.repr := by
  rintro rfl
  rw [isDigit_of_mem_repr hmem] at hdigit
  cases hdigit

theorem solid_toString (n : Nat) : Solid (toString n) := by
  rw [Nat.toString_eq_repr]
  refine ⟨by simp [Nat.toDigits_ne_nil], fun hspace => ?_⟩
  exact absurd (isDigit_of_mem_repr hspace) (by decide)

theorem cells_line {depth symbols vertices : String} (hdepth : Solid depth)
    (hsymbols : Solid symbols) (hvertices : Solid vertices) :
    cells (line depth symbols vertices) = [depth, symbols, vertices] := by
  have hline : line depth symbols vertices = column 5 depth ++ " " ++ column 22 symbols ++ " "
      ++ column 22 vertices :=
    rfl
  rw [hline, cells_append_space, cells_append_space, cells_column, cells_column, cells_column,
    cells_of_solid hdepth, cells_of_solid hsymbols, cells_of_solid hvertices]
  rfl

/-- The cells of a printed row: the depth and the counts or an overflow, and perhaps a mark. -/
theorem cells_rowText (row : SizeRow) :
    cells (rowText row) = toString row.depth ::
      if row.estimate.overflow then ["overflow", "overflow"]
      else [toString row.estimate.symbols, toString row.estimate.vertices]
        ++ if row.beyond then ["(over", "limit)"] else [] := by
  have hoverflow : Solid "overflow" := by
    constructor <;> decide
  have hcounts := cells_line (solid_toString row.depth) (solid_toString row.estimate.symbols)
    (solid_toString row.estimate.vertices)
  unfold rowText
  by_cases hflag : row.estimate.overflow = true
  · rw [if_pos hflag, if_pos hflag]
    exact cells_line (solid_toString row.depth) hoverflow hoverflow
  · rw [if_neg hflag, if_neg hflag]
    by_cases hbeyond : row.beyond = true
    · have hmark : "  (over limit)" = " " ++ " (over limit)" := rfl
      have hcells : cells " (over limit)" = ["(over", "limit)"] := by
        decide +kernel
      rw [if_pos hbeyond, if_pos hbeyond, hmark, ← String.append_assoc, cells_append_space,
        hcounts, hcells]
      rfl
    · rw [if_neg hbeyond, if_neg hbeyond, String.append_empty, hcounts]
      rfl

/-- A printed row that gives no counts. -/
def SaysOverflow (row : String) : Prop :=
  "overflow" ∈ cells row

/-- A printed row that ends with the mark of what is beyond the limits. -/
def IsMarked (row : String) : Prop :=
  ["(over", "limit)"] <:+ cells row

theorem saysOverflow_rowText (row : SizeRow) :
    SaysOverflow (rowText row) ↔ row.estimate.overflow = true := by
  have hnumber : ∀ n : Nat, "overflow" ≠ n.repr := @ne_repr _ 'o' (by decide) (by decide)
  rw [SaysOverflow, cells_rowText]
  by_cases hflag : row.estimate.overflow = true
  · simp [hflag]
  · by_cases hbeyond : row.beyond = true
    · simp [hflag, hbeyond, hnumber]
    · simp [hflag, hbeyond, hnumber]

theorem isMarked_rowText (row : SizeRow) :
    IsMarked (rowText row) ↔ row.estimate.overflow = false ∧ row.beyond = true := by
  have hnumber : ∀ n : Nat, "limit)" ≠ n.repr := @ne_repr _ 'l' (by decide) (by decide)
  rw [IsMarked, cells_rowText]
  by_cases hflag : row.estimate.overflow = true
  · simp [hflag, List.suffix_cons_iff]
  · by_cases hbeyond : row.beyond = true
    · simp [hflag, hbeyond, List.suffix_cons_iff]
    · simp [hflag, hbeyond, hnumber, List.suffix_cons_iff]

end Cells

section Rows

variable {grammar : Grammar} {table : Interpretation} {predicted : Nat → Estimate}

def rowAt (limits : Limits) (predicted : Nat → Estimate) (depth : Nat) : SizeRow :=
  ⟨depth, predicted depth, isBeyond limits (predicted depth)⟩

/-- An overflow leaves no further row; any other row is followed by those of the next depths. -/
theorem rowsFrom_succ (limits : Limits)
    (hpredicted : ∀ depth, grammar.estimate table depth = .ok (predicted depth))
    (first more : Nat) :
    rowsFrom grammar table limits first (more + 1) =
      if (predicted first).overflow then .ok [rowAt limits predicted first]
      else (rowsFrom grammar table limits (first + 1) more).map
        (rowAt limits predicted first :: ·) := by
  rw [rowsFrom, hpredicted]
  by_cases hflag : (predicted first).overflow = true
  · rw [if_pos hflag]
    exact if_pos hflag
  · rw [if_neg hflag]
    refine (if_neg hflag).trans ?_
    cases rowsFrom grammar table limits (first + 1) more with
    | error fault => rfl
    | ok rows => rfl

/-- The rows from a depth on end at the last one or at the first overflow. -/
theorem exists_rowsFrom (limits : Limits)
    (hpredicted : ∀ depth, grammar.estimate table depth = .ok (predicted depth))
    (first more : Nat) :
    ∃ extra ≤ more, rowsFrom grammar table limits first (more + 1) =
        .ok ((List.range' first (extra + 1)).map (rowAt limits predicted)) ∧
      (∀ depth, first ≤ depth → depth < first + extra → (predicted depth).overflow = false) ∧
      (extra < more → (predicted (first + extra)).overflow = true) := by
  induction more generalizing first with
  | zero =>
      refine ⟨0, Nat.le_refl 0, ?_, fun depth hle hlt => by omega, nofun⟩
      rw [rowsFrom_succ limits hpredicted, rowsFrom]
      split <;> rfl
  | succ more ih =>
      rw [rowsFrom_succ limits hpredicted]
      by_cases hflag : (predicted first).overflow = true
      · rw [if_pos hflag]
        exact ⟨0, Nat.zero_le _, rfl, fun depth hle hlt => by omega, fun _ => hflag⟩
      · obtain ⟨extra, hextra, hrows, hbefore, hlast⟩ := ih (first + 1)
        rw [if_neg hflag, hrows]
        refine ⟨extra + 1, Nat.succ_le_succ hextra, rfl, fun depth hle hlt => ?_, fun hlt => ?_⟩
        · rcases Nat.eq_or_lt_of_le hle with rfl | hlater
          · simpa using hflag
          · exact hbefore depth hlater (by omega)
        · rw [Nat.add_comm extra 1, ← Nat.add_assoc]
          exact hlast (Nat.lt_of_succ_lt_succ hlt)

end Rows

/-- The limits refuse the counts of a prediction exactly if these are beyond them, whichever is
looked at first. -/
theorem check_eq_tooLarge_iff (limits : Limits) (iterations : Nat) (estimate : Estimate) :
    (∃ what count limit depth,
        limits.check iterations estimate = .error (.tooLarge what count limit depth)) ↔
      estimate.overflow = false ∧ isBeyond limits estimate = true := by
  unfold Limits.check isBeyond
  by_cases hflag : estimate.overflow = true
  · simp [hflag]
  · by_cases hsymbols : limits.maxSymbols < estimate.symbols
    · simp [hflag, hsymbols]
    · by_cases hvertices : limits.maxVertices < estimate.vertices
      · simp [hflag, hsymbols, hvertices]
      · simp [hflag, hsymbols, hvertices]

/-- A printed row agrees with what comes of a prediction for its depth at the limits: it says that
there is an overflow, or has the mark, exactly if the prediction is refused for that reason, and
otherwise has the counts of the prediction that is let pass. -/
structure Agrees (row : String) (depth : Nat) (outcome : Except StudioFault Estimate) : Prop where
  head?_cells : (cells row).head? = some (toString depth)
  eq_overflow_iff : ∀ iterations, outcome = .error (.overflow iterations) ↔
    iterations = depth ∧ SaysOverflow row
  eq_tooLarge_iff : (∃ what count limit iterations,
    outcome = .error (.tooLarge what count limit iterations)) ↔ IsMarked row
  exists_ok : ¬ SaysOverflow row → ¬ IsMarked row → ∃ estimate, outcome = .ok estimate ∧
    cells row = [toString depth, toString estimate.symbols, toString estimate.vertices]

theorem agrees_rowText (limits : Limits) (predicted : Nat → Estimate) (depth : Nat) :
    Agrees (rowText (rowAt limits predicted depth)) depth
      (limits.check depth (predicted depth)) where
  head?_cells := by
    rw [cells_rowText]
    rfl
  eq_overflow_iff := by
    intro iterations
    rw [saysOverflow_rowText]
    exact limits.check_eq_overflow_iff depth _ iterations
  eq_tooLarge_iff := by
    rw [isMarked_rowText]
    exact check_eq_tooLarge_iff limits depth _
  exists_ok := by
    rw [saysOverflow_rowText, isMarked_rowText, cells_rowText]
    intro hclear hunmarked
    have hflag : (predicted depth).overflow = false := by simpa [rowAt] using hclear
    have hwithin : isBeyond limits (predicted depth) = false := by
      simpa [rowAt, hflag] using hunmarked
    refine ⟨predicted depth, ?_, by simp [rowAt, hflag, hwithin]⟩
    simp only [isBeyond, Bool.or_eq_false_iff, decide_eq_false_iff_not, Nat.not_lt] at hwithin
    exact (limits.check_eq_ok_iff depth _ _).mpr ⟨rfl, hflag, hwithin.2, hwithin.1⟩

def title (name : String) : List String :=
  [s!"Size estimates for '{name}':", "", line "n" "symbols" "vertices"]

/-- With a scene at hand, all that is printed of it is its table. -/
theorem perform_estimate {m : Type → Type} [Monad m] [LawfulMonad m] {host : Host m}
    {limits : Limits} {selection : Selection} {scene : Scene} {rows : List SizeRow}
    (hscene : Program.select host selection = pure scene)
    (hrows : SizeTable.rows scene limits = .ok rows) :
    Program.perform host limits (.estimate selection) =
      pure (Program.lines (text scene.name rows)) := by
  rw [Program.perform, hscene, pure_bind, hrows]

/-- The table of a scene has one row for each depth, up to that of the scene or to the first one
whose prediction overflows.  Each row agrees with what a studio of its depth makes of its size,
and the table is all that is printed. -/
theorem rows_agree (scene : Scene) (limits : Limits) :
    ∃ (predicted : Nat → Estimate) (last : Nat) (rows : List SizeRow) (printed : List String),
      (∀ depth, scene.grammar.estimate scene.table depth = .ok (predicted depth)) ∧
      SizeTable.rows scene limits = .ok rows ∧
      text scene.name rows = title scene.name ++ printed ∧
      (∀ (m : Type → Type) [Monad m] [LawfulMonad m] (host : Host m) (selection : Selection),
        Program.select host selection = pure scene →
        Program.perform host limits (.estimate selection) =
          pure (Program.lines (title scene.name ++ printed))) ∧
      printed.length = last + 1 ∧ last ≤ scene.parameters.iterations ∧
      (∀ depth < last, (predicted depth).overflow = false) ∧
      (last < scene.parameters.iterations → (predicted last).overflow = true) ∧
      ∀ depth row, printed[depth]? = some row →
        Agrees row depth (Studio.ofScene (scene.withIterations depth) limits).checkSize := by
  have hestimate : ∀ depth, ∃ estimate,
      scene.grammar.estimate scene.table depth = .ok estimate := fun depth =>
    (scene.grammar.estimate_exact scene.table depth).imp fun _ h => h.1
  choose predicted hpredicted using hestimate
  obtain ⟨last, hlast, hrows, hbefore, hstop⟩ :=
    exists_rowsFrom limits hpredicted 0 scene.parameters.iterations
  rw [Nat.zero_add] at hbefore hstop
  refine ⟨predicted, last, _, _, hpredicted, hrows, rfl,
    fun m _ _ host selection hscene => perform_estimate hscene hrows, by simp, hlast,
    fun depth => hbefore depth (Nat.zero_le _), hstop, fun depth row hrow => ?_⟩
  obtain rfl : rowText (rowAt limits predicted depth) = row := by
    rw [List.map_map, List.getElem?_map, Option.map_eq_some_iff] at hrow
    obtain ⟨place, hplace, rfl⟩ := hrow
    obtain ⟨hlt, rfl⟩ := List.getElem?_eq_some_iff.mp hplace
    simp
  obtain ⟨estimate, hstudio, -, hcheck⟩ :=
    (Studio.ofScene (scene.withIterations depth) limits).exists_estimate
  obtain rfl : predicted depth = estimate :=
    Except.ok.inj ((hpredicted depth).symm.trans hstudio)
  rw [hcheck]
  exact agrees_rowText limits predicted depth

end SizeTable

end LineGrammar
