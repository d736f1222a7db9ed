/-
Painting carries out what a painter asks for: every visible vertex gets the color
that its leaf has for its scalar, and every other vertex stays as it is.
-/
import LineGrammar.Proofs.Painter.InPlace

namespace LineGrammar

namespace Painter

variable {search : Search LinearKey}

theorem paintVertices_eq_ok (painter : Painter Draws) {vertices : Array Vertex}
    {depths : Array Nat} {bridges : Array Bool} {maxDepth : Nat} {box : Box}
    (hdepths : depths.size = vertices.size) (hbridges : bridges.size = vertices.size) :
    painter.paintVertices search vertices depths bridges maxDepth box =
      .ok (Array.zipWith (fun vertex color => { vertex with color }) vertices
        (painter.paint search (canvasOf vertices depths bridges maxDepth box)
          (vertices.map (·.color)))) := by
  have hpainted := painted_recolor search painter
    (canvasOf vertices depths bridges maxDepth box) vertices (size_canvasOf hdepths hbridges).symm
  rw [paintVertices, run_paintInPlace_of_sizes painter hdepths hbridges, ← hpainted.eq_zipWith]
  rfl

/-- Painting colors each visible vertex as its leaf does for the scalar assigned to it,
and each is asked for once, with that scalar.  Bridges are left alone. -/
theorem paintVertices_eq_assigned (painter : Painter Draws) {vertices : Array Vertex}
    {depths : Array Nat} {bridges : Array Bool} (maxDepth : Nat) (box : Box)
    (hdepths : depths.size = vertices.size) (hbridges : bridges.size = vertices.size) :
    let canvas := canvasOf vertices depths bridges maxDepth box
    ∃ painted, painter.paintVertices search vertices depths bridges maxDepth box = .ok painted ∧
      painted.size = vertices.size ∧
      ∀ i,
        (bridges[i]? = some false → ∃ assignment,
          assigned painter canvas i = some assignment ∧
          painted[i]? = vertices[i]?.map (fun vertex =>
            { vertex with color := assignment.generator.color search assignment.scalar }) ∧
          (demands painter canvas).filter (fun demand => demand.index = i) =
            [⟨i, assignment.generator, assignment.scalar⟩]) ∧
        (bridges[i]? = some true →
          assigned painter canvas i = none ∧ painted[i]? = vertices[i]? ∧
          (demands painter canvas).filter (fun demand => demand.index = i) = []) := by
  intro canvas
  refine ⟨_, paintVertices_eq_ok painter hdepths hbridges, ?_, ?_⟩
  · rw [Array.size_zipWith, size_paint, Array.size_map, Nat.min_self]
  intro i
  have hpainted := getElem?_painted search painter vertices canvas i
  have hasked := asksFor_demands painter canvas i
  have hassigned := isSome_assigned painter canvas i
  constructor
  · intro hvisible
    rw [shows_canvasOf hdepths hbridges hvisible] at hassigned
    obtain ⟨assignment, hsome⟩ := Option.isSome_iff_exists.mp hassigned
    refine ⟨assignment, hsome, ?_, ?_⟩
    · rw [hpainted, hsome]
      rfl
    · rw [hasked, hsome]
      rfl
  · intro hbridge
    rw [shows_canvasOf hdepths hbridges hbridge] at hassigned
    have hnone : assigned painter canvas i = none := by simpa using hassigned
    refine ⟨hnone, ?_, ?_⟩
    · rw [hpainted, hnone]
      simp
    · rw [hasked, hnone]
      rfl

/-- A painter that divides its vertices in two and the second half once more. -/
def woven : Painter Draws :=
  let place := .leaf (.sequential 1) .default
  .composite place [.leaf .constant (.constant .white),
    .composite place [.leaf .constant (.constant .black),
      .leaf .iteration (.constant (.solid 255 0 0))]]

/-- The last of four vertices is the second of its half, whose pool is the second. -/
theorem paintVertices_woven :
    let vertices : Array Vertex := Array.replicate 4 ⟨⟨0, 0⟩, .transparent⟩
    let depths : Array Nat := #[0, 0, 0, 1]
    let bridges : Array Bool := #[false, true, false, false]
    depths.size = vertices.size ∧ bridges.size = vertices.size ∧
      ∃ painted, woven.paintVertices .halving vertices depths bridges 1 ⟨0, 0, 0, 0⟩ = .ok painted ∧
        painted[1]? = some ⟨⟨0, 0⟩, .transparent⟩ ∧
        painted[3]? = some ⟨⟨0, 0⟩, .solid 255 0 0⟩ ∧
        ((demands woven (canvasOf vertices depths bridges 1 ⟨0, 0, 0, 0⟩)).filter
          fun demand => demand.index = 3).map (·.scalar) = [1] := by
  intro vertices depths bridges
  obtain ⟨painted, hok, -, hpoint⟩ :=
    @paintVertices_eq_assigned .halving woven vertices depths bridges 1 ⟨0, 0, 0, 0⟩ rfl rfl
  obtain ⟨-, hbridge, -⟩ := (hpoint 1).2 rfl
  obtain ⟨assignment, hassigned, hpainted, hasked⟩ := (hpoint 3).1 rfl
  have hcolor : (assigned woven (canvasOf vertices depths bridges 1 ⟨0, 0, 0, 0⟩) 3).map
      (·.color .halving) = some (.solid 255 0 0) := by
    decide +kernel
  have hscalar : (assigned woven (canvasOf vertices depths bridges 1 ⟨0, 0, 0, 0⟩) 3).map
      (·.scalar) = some 1 := by
    decide +kernel
  rw [hassigned, Option.map_some, Option.some_inj] at hcolor hscalar
  refine ⟨rfl, rfl, painted, hok, hbridge, ?_, ?_⟩
  · rw [hpainted, ← hcolor]
    rfl
  · rw [hasked, ← hscalar]
    rfl

end Painter

end LineGrammar
