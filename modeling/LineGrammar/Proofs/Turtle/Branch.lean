/-
Closed branches.  A word that goes back just as often as it saves, and never before, takes
from the saved poses only what it has put there.  So the order to go back that ends a branch
finds the pose from which it set out, and what follows is drawn as if there had been no branch.
-/
import LineGrammar.Proofs.Growth.Brackets
import LineGrammar.Proofs.Turtle.Course

namespace LineGrammar

/-- A word that closes just the branches that it opens. -/
structure Interpretation.Closed (table : Interpretation) (word : Word) : Prop where
  covered : table.Covered 0 word
  saves_eq : table.saves word = table.loads word

instance (table : Interpretation) (word : Word) : Decidable (table.Closed word) :=
  decidable_of_iff (table.Covered 0 word ∧ table.saves word = table.loads word)
    ⟨fun h => ⟨h.1, h.2⟩, fun h => ⟨h.covered, h.saves_eq⟩⟩

namespace Turtle

variable {settings : TurtleSettings} {table : Interpretation}

/-- On its way over a word that some of the saved poses cover, a turtle leaves the others
alone. -/
theorem saved_after {turtle : Turtle} {own outer : List Pose} {word : Word}
    (hsaved : turtle.saved = own ++ outer) (hword : table.Covered own.length word) :
    ∃ left, (turtle.after settings table word).saved = left ++ outer ∧
      left.length + table.loads word = own.length + table.saves word := by
  induction word generalizing turtle own with
  | nil => exact ⟨own, hsaved, rfl⟩
  | cons symbol word ih =>
      rw [after_cons, Interpretation.saves_cons, Interpretation.loads_cons]
      by_cases hsave : table.get? symbol = some .savePosition
      · have hload : table.get? symbol ≠ some .loadPosition := by simp [hsave]
        rw [Interpretation.covered_cons_of_save hsave] at hword
        rw [heed_of_save hsave, if_pos hsave, if_neg hload]
        obtain ⟨left, hleft, hlength⟩ := @ih ⟨turtle.pose, turtle.pose :: turtle.saved⟩
          (turtle.pose :: own) (congrArg _ hsaved) hword
        rw [List.length_cons] at hlength
        exact ⟨left, hleft, by omega⟩
      by_cases hload : table.get? symbol = some .loadPosition
      · rw [Interpretation.covered_cons_of_load hload] at hword
        obtain ⟨fewer, hfewer, hrest⟩ := hword
        obtain ⟨pose, own, rfl⟩ := List.exists_cons_of_length_eq_add_one hfewer
        rw [List.length_cons, Nat.add_right_cancel_iff] at hfewer
        -- The pose to which the turtle goes back is one of its own.
        rw [heed_of_load hload hsaved, if_neg hsave, if_pos hload]
        obtain ⟨left, hleft, hlength⟩ := @ih ⟨pose, own ++ outer⟩ own rfl (hfewer ▸ hrest)
        rw [List.length_cons]
        exact ⟨left, hleft, by omega⟩
      rw [Interpretation.covered_cons_of_ne hsave hload] at hword
      rw [if_neg hsave, if_neg hload]
      exact ih ((saved_heed_of_ne hsave hload).trans hsaved) hword

/-- At the end of a closed word the same poses are saved as before it. -/
theorem saved_after_of_closed {word : Word} (hword : table.Closed word) (turtle : Turtle) :
    (turtle.after settings table word).saved = turtle.saved := by
  obtain ⟨left, hleft, hlength⟩ := @saved_after settings table turtle [] turtle.saved word rfl
    hword.covered
  have hnil : left = [] := by
    rw [List.length_nil, hword.saves_eq] at hlength
    exact List.eq_nil_of_length_eq_zero (by omega)
  rw [hleft, hnil, List.nil_append]

/-- The course over a branch and what follows it: the order to go back that ends the branch
leads over a bridge to the pose before it. -/
theorem course_branch (turtle : Turtle) {save load : Char}
    (hsave : table.get? save = some .savePosition) (hload : table.get? load = some .loadPosition)
    {branch : Word} (hbranch : table.Closed branch) {branchCounts : List Nat}
    (hlength : branch.length = branchCounts.length) (rest : Word) (restCounts : List Nat)
    (saveCount loadCount : Nat) :
    turtle.course settings table ((save :: branch ++ load :: rest).zip
        (saveCount :: branchCounts ++ loadCount :: restCounts)) =
      turtle.course settings table ((save :: branch).zip (saveCount :: branchCounts))
        ++ ([⟨⟨(turtle.after settings table (save :: branch)).pose.point, .transparent⟩,
              loadCount, true⟩,
            ⟨⟨turtle.pose.point, .transparent⟩, loadCount, true⟩,
            ⟨⟨turtle.pose.point, .black⟩, loadCount, false⟩]
          ++ turtle.course settings table (rest.zip restCounts)) := by
  have hwhole : (save :: branch).length = (saveCount :: branchCounts).length :=
    congrArg Nat.succ hlength
  have hsaved : (turtle.after settings table (save :: branch)).saved =
      turtle.pose :: turtle.saved := by
    rw [after_cons, saved_after_of_closed hbranch, heed_of_save hsave]
  have hreturn : (turtle.after settings table (save :: branch)).course settings table
      ((load :: rest).zip (loadCount :: restCounts)) =
        [⟨⟨(turtle.after settings table (save :: branch)).pose.point, .transparent⟩,
            loadCount, true⟩,
          ⟨⟨turtle.pose.point, .transparent⟩, loadCount, true⟩,
          ⟨⟨turtle.pose.point, .black⟩, loadCount, false⟩]
        ++ turtle.course settings table (rest.zip restCounts) := by
    rw [List.zip_cons_cons, course, heed_of_load hload hsaved]
    rfl
  rw [course_zip_append turtle (load :: rest) (loadCount :: restCounts) hwhole, hreturn]

/-- A closed branch leaves no trace but its vertices and a bridge.  What follows it is drawn as
after the stem alone, whatever poses the stem has left saved and the rest goes back to. -/
theorem draw_branch (settings : TurtleSettings) (table : Interpretation)
    {stem branch rest : Word} {save load : Char} {stemCounts branchCounts restCounts : List Nat}
    (saveCount loadCount : Nat) (hstem : stem ≠ [])
    (hstemLength : stem.length = stemCounts.length)
    (hbranchLength : branch.length = branchCounts.length)
    (hrestLength : rest.length = restCounts.length)
    (hsave : table.get? save = some .savePosition)
    (hload : table.get? load = some .loadPosition) (hbranch : table.Closed branch) :
    ∃ line inner later base tip,
      draw settings table stem stemCounts = .ok line ∧
      draw settings table (stem ++ save :: branch) (stemCounts ++ saveCount :: branchCounts) =
        .ok (line.extend inner) ∧
      draw settings table (stem ++ rest) (stemCounts ++ restCounts) = .ok (line.extend later) ∧
      line.vertices.back? = some ⟨base, .black⟩ ∧
      (line.extend inner).vertices.back? = some ⟨tip, .black⟩ ∧
      draw settings table (stem ++ save :: branch ++ load :: rest)
          (stemCounts ++ saveCount :: branchCounts ++ loadCount :: restCounts) =
        .ok (line.extend (inner
          ++ [⟨⟨tip, .transparent⟩, loadCount, true⟩, ⟨⟨base, .transparent⟩, loadCount, true⟩,
            ⟨⟨base, .black⟩, loadCount, false⟩]
          ++ later)) := by
  have hline : draw settings table stem stemCounts =
      .ok (Stream.empty.extend (stops settings table stem stemCounts)) :=
    draw_eq_ok_iff.mpr ⟨hstemLength, rfl⟩
  have hinner := draw_append hstem hline
    (show (save :: branch).length = (saveCount :: branchCounts).length from
      congrArg Nat.succ hbranchLength)
  have hlater := draw_append hstem hline hrestLength
  have hwhole := draw_append hstem hline
    (show (save :: branch ++ load :: rest).length =
      (saveCount :: branchCounts ++ loadCount :: restCounts).length by
        simp [hbranchLength, hrestLength])
  rw [course_branch _ hsave hload hbranch hbranchLength, ← after_append] at hwhole
  refine ⟨_, _, _, _, _, hline, hinner, hlater, back?_vertices_of_draw hline,
    back?_vertices_of_draw hinner, ?_⟩
  rw [List.append_assoc, List.append_assoc, hwhole, List.append_assoc]

/-- A branch with a branch of its own, after which the rest goes back to a pose that the stem
has saved.  Its bridge leads from the fifth vertex after the start to the second one. -/
theorem draw_branch_forked :
    let stem : Word := ['F', '[', 'F']
    let branch : Word := ['+', 'F', '[', 'F', ']']
    let rest : Word := ['F', ']', 'F']
    stem ≠ [] ∧ stem.length = [0, 0, 1].length ∧ branch.length = [2, 2, 2, 3, 2].length ∧
      rest.length = [1, 0, 0].length ∧
      Interpretation.default.get? '[' = some .savePosition ∧
      Interpretation.default.get? ']' = some .loadPosition ∧
      Interpretation.default.Closed branch ∧
      ∃ (line : Stream) (inner later : List Stop) (base tip : Point),
        draw .default .default stem [0, 0, 1] = .ok line ∧
        draw .default .default (stem ++ rest) [0, 0, 1, 1, 0, 0] = .ok (line.extend later) ∧
        line.vertices.back? = some ⟨base, .black⟩ ∧
        (line.extend inner).vertices.back? = some ⟨tip, .black⟩ ∧
        draw .default .default (stem ++ '[' :: branch ++ ']' :: rest)
            [0, 0, 1, 1, 2, 2, 2, 3, 2, 1, 1, 0, 0] =
          .ok (line.extend (inner
            ++ [⟨⟨tip, .transparent⟩, 1, true⟩, ⟨⟨base, .transparent⟩, 1, true⟩,
              ⟨⟨base, .black⟩, 1, false⟩]
            ++ later)) := by
  intro stem branch rest
  have hsave : Interpretation.default.get? '[' = some .savePosition := by decide +kernel
  have hload : Interpretation.default.get? ']' = some .loadPosition := by decide +kernel
  have hbranch : Interpretation.default.Closed branch := by decide +kernel
  obtain ⟨line, inner, later, base, tip, hline, -, hlater, hbase, htip, hwhole⟩ :=
    @draw_branch .default .default stem branch rest '[' ']' [0, 0, 1] [2, 2, 2, 3, 2] [1, 0, 0]
      1 1 (by decide) rfl rfl rfl hsave hload hbranch
  exact ⟨by decide, rfl, rfl, rfl, hsave, hload, hbranch, line, inner, later, base, tip, hline,
    hlater, hbase, htip, hwhole⟩

end Turtle

end LineGrammar
