/-
Scalars of shades, vertex by vertex: the visible vertices in ascending order, each
with a scalar that depends on the drawing and on its own index alone.  For blocks
this is a draw numbered by the blocks before that have a visible vertex.
-/
import Mathlib.Data.List.Induction
import Mathlib.Data.Nat.Init
import Mathlib.Tactic.ByContra
import LineGrammar.Painter.Shade

namespace LineGrammar

namespace Canvas

def shows (canvas : Canvas) (i : Nat) : Bool :=
  canvas.spots[i]?.any fun spot => !spot.bridge

def spotAt (canvas : Canvas) (i : Nat) : Spot :=
  canvas.spots[i]?.getD default

/-- The indices of the visible vertices, in ascending order. -/
def shown (canvas : Canvas) : List Nat :=
  (List.range canvas.spots.size).filter fun i => canvas.shows i

/-- Nothing is to be seen beyond the last vertex. -/
theorem shows_of_size_le {canvas : Canvas} {i : Nat} (h : canvas.spots.size ≤ i) :
    canvas.shows i = false := by
  simp [shows, Array.getElem?_eq_none h]

theorem lt_size_of_shows {canvas : Canvas} {i : Nat} (h : canvas.shows i = true) :
    i < canvas.spots.size := by
  by_contra hi
  simp [shows_of_size_le (Nat.le_of_not_lt hi)] at h

@[simp] theorem mem_shown {canvas : Canvas} {i : Nat} :
    i ∈ canvas.shown ↔ canvas.shows i = true := by
  simp only [shown, List.mem_filter, List.mem_range]
  constructor
  · intro h
    exact h.2
  · intro h
    exact ⟨lt_size_of_shows h, h⟩

theorem shown_sorted (canvas : Canvas) : canvas.shown.Pairwise (· < ·) :=
  List.pairwise_lt_range.filter _

theorem nodup_shown (canvas : Canvas) : canvas.shown.Nodup :=
  List.nodup_range.filter _

theorem visible_eq (canvas : Canvas) :
    canvas.visible = canvas.shown.map fun i => (i, canvas.spotAt i) := by
  have hspots : canvas.spots.toList.zipIdx =
      (List.range canvas.spots.size).map fun i => (canvas.spotAt i, i) := by
    apply List.ext_getElem
    · simp
    · intro i hi hi'
      simp at hi
      simp [spotAt, hi]
  have hshows : ∀ i ∈ List.range canvas.spots.size,
      (!(canvas.spotAt i).bridge) = canvas.shows i := by
    intro i hi
    have hi : i < canvas.spots.size := by simpa using hi
    simp [shows, spotAt, hi]
  rw [visible, hspots, List.filter_map, List.map_map, shown, ← List.filter_congr hshows]
  rfl

theorem map_fst_visible (canvas : Canvas) : canvas.visible.map Prod.fst = canvas.shown := by
  simp [visible_eq, Function.comp_def]

end Canvas

namespace Shade

/-- The number of blocks below a block that hold one of the indices. -/
def blocksBelow (indices : List Nat) (size block : Nat) : Nat :=
  (List.range block).countP fun other => indices.any fun i => i / size = other

def scalarAt (shade : Shade Draws) (canvas : Canvas) (i : Nat) : Float32 :=
  match shade with
  | constant => 0.5
  | linear angle center => linearScalar angle center canvas.box (canvas.spotAt i).point
  | radial center => radialScalar center canvas.box (canvas.spotAt i).point
  | sequential factor => sequentialScalar factor canvas.spots.size i
  | iteration => iterationScalar canvas.maxDepth (canvas.spotAt i).depth
  | blockRandom size draws =>
      draws (blocksBelow canvas.shown (max size 1) (i / max size 1))

section Blocks

variable {indices : List Nat} {size block i : Nat}

theorem blocksBelow_concat_of_le (h : block ≤ i / size) :
    blocksBelow (indices ++ [i]) size block = blocksBelow indices size block := by
  apply List.countP_congr
  intro other hother
  have hother : other < block := by simpa using hother
  have hne : i / size ≠ other := by omega
  simp [hne]

theorem blocksBelow_concat_of_mem (h : ∃ j ∈ indices, j / size = i / size) :
    blocksBelow (indices ++ [i]) size block = blocksBelow indices size block := by
  obtain ⟨j, hj, hblock⟩ := h
  apply List.countP_congr
  intro other _
  simp only [List.any_append, List.any_cons, List.any_nil, Bool.or_false, Bool.or_eq_true,
    List.any_eq_true, decide_eq_true_eq]
  constructor
  · intro hany
    rcases hany with hany | hother
    · exact hany
    · exact ⟨j, hj, hblock.trans hother⟩
  · exact Or.inl

theorem blocksBelow_concat_of_new (hnew : ∀ j ∈ indices, j / size < i / size)
    (h : i / size < block) :
    blocksBelow (indices ++ [i]) size block = blocksBelow indices size (i / size) + 1 := by
  induction block, h using Nat.le_induction with
  | base =>
      rw [blocksBelow, List.range_succ, List.countP_append, ← blocksBelow,
        blocksBelow_concat_of_le (Nat.le_refl _)]
      simp
  | succ block hblock ih =>
      have hnone : ((indices ++ [i]).any fun j => j / size = block) = false := by
        rw [List.any_eq_false]
        intro j hj heq
        have heq : j / size = block := of_decide_eq_true heq
        rcases List.mem_append.mp hj with hj | hj
        · have hlt := hnew j hj
          omega
        · have hlast : j = i := by simpa using hj
          rw [hlast] at heq
          omega
      rw [blocksBelow, List.range_succ, List.countP_append, ← blocksBelow, ih]
      simp only [List.countP_cons, List.countP_nil, hnone]
      rfl

end Blocks

/-- What a run through ascending indices has come to: each has its scalar, the next
draw is numbered by the blocks so far, and the block at hand is the last of them. -/
structure BlockRun.Tells (draws : Draws) (size : Nat) (indices : List Nat)
    (run : BlockRun) : Prop where
  scalars : run.scalars.toList =
    indices.map fun i => (i, draws (blocksBelow indices size (i / size)))
  drawn : ∀ block, (∀ i ∈ indices, i / size < block) →
    run.drawn = blocksBelow indices size block
  fresh : run.current = none → indices = []
  current : ∀ last scalar, run.current = some (last, scalar) →
    (∃ i ∈ indices, i / size = last) ∧ (∀ i ∈ indices, i / size ≤ last) ∧
      scalar = draws (blocksBelow indices size last)

theorem BlockRun.tells_start (draws : Draws) (size : Nat) :
    BlockRun.Tells draws size [] .start where
  scalars := rfl
  drawn := by
    intro block _
    simp [start, blocksBelow]
  fresh := fun _ => rfl
  current := by
    intro last scalar h
    simp [start] at h

section Visit

variable {draws : Draws} {size : Nat} {indices : List Nat} {run : BlockRun} {i : Nat}

theorem map_concat_of_forall_le (h : ∀ j ∈ indices, j ≤ i) :
    (indices.map fun j => (j, draws (blocksBelow (indices ++ [i]) size (j / size)))) =
      indices.map fun j => (j, draws (blocksBelow indices size (j / size))) := by
  apply List.map_congr_left
  intro j hj
  have hle : j / size ≤ i / size := Nat.div_le_div_right (h j hj)
  rw [blocksBelow_concat_of_le hle]

/-- Where the block at hand goes on, nothing is drawn. -/
theorem BlockRun.Tells.repeat (htells : run.Tells draws size indices)
    (hle : ∀ j ∈ indices, j ≤ i) {scalar : Float32}
    (hcurrent : run.current = some (i / size, scalar)) :
    BlockRun.Tells draws size (indices ++ [i])
      { run with scalars := run.scalars.push (i, scalar) } := by
  obtain ⟨hmem, hlast, hscalar⟩ := htells.current (i / size) scalar hcurrent
  constructor
  · rw [Array.toList_push, htells.scalars, List.map_append, map_concat_of_forall_le hle,
      List.map_singleton, blocksBelow_concat_of_le (Nat.le_refl _), hscalar]
  · intro block hblock
    rw [blocksBelow_concat_of_mem hmem]
    apply htells.drawn
    intro j hj
    exact hblock j (List.mem_append_left [i] hj)
  · intro hnone
    simp [hcurrent] at hnone
  · intro last scalar' hcurrent'
    have heq : (i / size, scalar) = (last, scalar') :=
      Option.some.inj (hcurrent.symm.trans hcurrent')
    obtain ⟨rfl, rfl⟩ := Prod.mk.inj heq
    refine ⟨⟨i, by simp, rfl⟩, ?_, ?_⟩
    · intro j hj
      rcases List.mem_append.mp hj with hj | hj
      · exact hlast j hj
      · have heq : j = i := by simpa using hj
        exact Nat.le_of_eq (by rw [heq])
    · rw [blocksBelow_concat_of_le (Nat.le_refl _), hscalar]

/-- A block that is new takes the next draw. -/
theorem BlockRun.Tells.draw (htells : run.Tells draws size indices)
    (hnew : ∀ j ∈ indices, j / size < i / size) :
    BlockRun.Tells draws size (indices ++ [i])
      ⟨some (i / size, draws run.drawn), run.drawn + 1,
        run.scalars.push (i, draws run.drawn)⟩ := by
  have hdrawn : run.drawn = blocksBelow indices size (i / size) := htells.drawn _ hnew
  have hle : ∀ j ∈ indices, j ≤ i := by
    intro j hj
    by_contra hlt
    have hdiv : i / size ≤ j / size := Nat.div_le_div_right (by omega)
    have hlt' := hnew j hj
    omega
  constructor
  · rw [Array.toList_push, htells.scalars, List.map_append, map_concat_of_forall_le hle,
      List.map_singleton, blocksBelow_concat_of_le (Nat.le_refl _), hdrawn]
  · intro block hblock
    rw [blocksBelow_concat_of_new hnew (hblock i (by simp)), hdrawn]
  · intro hnone
    simp at hnone
  · intro last scalar hcurrent
    have heq : (i / size, draws run.drawn) = (last, scalar) := Option.some.inj hcurrent
    obtain ⟨rfl, rfl⟩ := Prod.mk.inj heq
    refine ⟨⟨i, by simp, rfl⟩, ?_, ?_⟩
    · intro j hj
      rcases List.mem_append.mp hj with hj | hj
      · exact Nat.le_of_lt (hnew j hj)
      · have heq : j = i := by simpa using hj
        exact Nat.le_of_eq (by rw [heq])
    · rw [blocksBelow_concat_of_le (Nat.le_refl _), hdrawn]

theorem BlockRun.Tells.visit (htells : run.Tells draws size indices)
    (hlt : ∀ j ∈ indices, j < i) :
    BlockRun.Tells draws size (indices ++ [i]) (run.visit draws size i) := by
  have hle : ∀ j ∈ indices, j ≤ i := fun j hj => Nat.le_of_lt (hlt j hj)
  rw [BlockRun.visit]
  cases hcurrent : run.current with
  | none =>
      apply htells.draw
      simp [htells.fresh hcurrent]
  | some block =>
      obtain ⟨last, scalar⟩ := block
      by_cases hlast : last = i / size
      · subst hlast
        simpa [hcurrent] using htells.repeat hle hcurrent
      · simp only [hlast, ↓reduceIte]
        apply htells.draw
        obtain ⟨⟨j, hj, hblock⟩, hmax, -⟩ := htells.current last scalar hcurrent
        have hdiv : j / size ≤ i / size := Nat.div_le_div_right (hle j hj)
        intro k hk
        have hkmax := hmax k hk
        omega

end Visit

theorem tells_foldl_visit (draws : Draws) (size : Nat) {indices : List Nat}
    (hsorted : indices.Pairwise (· < ·)) :
    BlockRun.Tells draws size indices
      (indices.foldl (BlockRun.visit draws size) .start) := by
  induction indices using List.reverseRec with
  | nil => exact BlockRun.tells_start draws size
  | append_singleton indices i ih =>
      rw [List.pairwise_append] at hsorted
      obtain ⟨hsorted, -, hlast⟩ := hsorted
      rw [List.foldl_append]
      apply (ih hsorted).visit
      intro j hj
      exact hlast j hj i (by simp)

/-- A shade gives each visible vertex its scalar, in ascending order. -/
theorem scalars_eq (shade : Shade Draws) (canvas : Canvas) :
    shade.scalars canvas = canvas.shown.map fun i => (i, shade.scalarAt canvas i) := by
  cases shade with
  | blockRandom size draws =>
      rw [scalars, canvas.map_fst_visible, blockScalars]
      exact (tells_foldl_visit draws (max size 1) canvas.shown_sorted).scalars
  | constant => simp [scalars, scalarAt, Canvas.visible_eq]
  | linear angle center => simp [scalars, scalarAt, Canvas.visible_eq]
  | radial center => simp [scalars, scalarAt, Canvas.visible_eq]
  | sequential factor => simp [scalars, scalarAt, Canvas.visible_eq]
  | iteration => simp [scalars, scalarAt, Canvas.visible_eq]

end Shade

end LineGrammar
