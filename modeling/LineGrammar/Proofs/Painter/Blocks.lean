/-
Random scalars by blocks.  One is drawn for each block with a visible vertex in it, in the
order of the blocks, and every visible vertex of the block has it.  Bridges take nothing from
the source, however many blocks they fill.
-/
import Mathlib.Data.Nat.Nth
import LineGrammar.Proofs.Painter.Painting
import LineGrammar.Random

namespace LineGrammar

section Counting

variable {blocks : Finset Nat} {bound number : Nat}

theorem finite_mem (blocks : Finset Nat) : (Set.ofPred (· ∈ blocks)).Finite :=
  blocks.finite_toSet

theorem toFinset_finite_mem (blocks : Finset Nat) : (finite_mem blocks).toFinset = blocks := by
  ext block
  simp

/-- Below a bound of all blocks there are all of them. -/
theorem count_mem_eq_card (h : ∀ block ∈ blocks, block < bound) :
    Nat.count (· ∈ blocks) bound = blocks.card := by
  rw [Nat.count_eq_card_filter_range]
  congr 1
  ext block
  simpa using h block

/-- Blocks that are numbered by the blocks below them have the numbers from zero on. -/
theorem exists_count_mem_eq_iff :
    (∃ block ∈ blocks, Nat.count (· ∈ blocks) block = number) ↔ number < blocks.card := by
  constructor
  · rintro ⟨block, hblock, rfl⟩
    simpa only [toFinset_finite_mem] using Nat.count_lt_card (finite_mem blocks) hblock
  · intro hnumber
    have hlt : number < (finite_mem blocks).toFinset.card := by
      rwa [toFinset_finite_mem]
    exact ⟨Nat.nth (· ∈ blocks) number, Nat.nth_mem_of_lt_card (finite_mem blocks) hlt,
      Nat.count_nth_of_lt_card_finite (finite_mem blocks) hlt⟩

end Counting

namespace Shade

def visibleBlocks (bridges : Array Bool) (size : Nat) : Finset Nat :=
  ((Finset.range bridges.size).filter fun i => bridges[i]? = some false).image (· / size)

theorem mem_visibleBlocks {bridges : Array Bool} {size block : Nat} :
    block ∈ visibleBlocks bridges size ↔
      ∃ i : Nat, bridges[i]? = some false ∧ i / size = block := by
  simp only [visibleBlocks, Finset.mem_image, Finset.mem_filter, Finset.mem_range]
  constructor
  · rintro ⟨i, ⟨-, hvisible⟩, hblock⟩
    exact ⟨i, hvisible, hblock⟩
  · rintro ⟨i, hvisible, hblock⟩
    exact ⟨i, ⟨(Array.getElem?_eq_some_iff.mp hvisible).1, hvisible⟩, hblock⟩

theorem lt_size_of_mem_visibleBlocks {bridges : Array Bool} {size block : Nat}
    (h : block ∈ visibleBlocks bridges size) : block < bridges.size := by
  obtain ⟨i, hvisible, rfl⟩ := mem_visibleBlocks.mp h
  exact Nat.lt_of_le_of_lt (Nat.div_le_self i size) (Array.getElem?_eq_some_iff.mp hvisible).1

/-- How many blocks with a visible vertex there are before the block of a vertex. -/
def blockNumber (bridges : Array Bool) (size i : Nat) : Nat :=
  Nat.count (· ∈ visibleBlocks bridges size) (i / size)

/-- The numbers of visible vertices are all those from zero on. -/
theorem exists_blockNumber_eq_iff {bridges : Array Bool} {size number : Nat} :
    (∃ i : Nat, bridges[i]? = some false ∧ blockNumber bridges size i = number) ↔
      number < (visibleBlocks bridges size).card := by
  rw [← exists_count_mem_eq_iff]
  constructor
  · rintro ⟨i, hvisible, hnumber⟩
    exact ⟨i / size, mem_visibleBlocks.mpr ⟨i, hvisible, rfl⟩, hnumber⟩
  · rintro ⟨block, hblock, hnumber⟩
    obtain ⟨i, hvisible, rfl⟩ := mem_visibleBlocks.mp hblock
    exact ⟨i, hvisible, hnumber⟩

theorem blockNumber_eq_iff {bridges : Array Bool} {size i j : Nat}
    (hi : bridges[i]? = some false) (hj : bridges[j]? = some false) :
    blockNumber bridges size i = blockNumber bridges size j ↔ i / size = j / size := by
  constructor
  · exact Nat.count_injective (mem_visibleBlocks.mpr ⟨i, hi, rfl⟩)
      (mem_visibleBlocks.mpr ⟨j, hj, rfl⟩)
  · intro hsame
    rw [blockNumber, blockNumber, hsame]

/-- The run that gives random scalars to the visible vertices of a drawing. -/
def blockRun (draws : Draws) (size : Nat) (canvas : Canvas) : BlockRun :=
  (canvas.visible.map (·.1)).foldl (BlockRun.visit draws (max size 1)) .start

theorem tells_blockRun (draws : Draws) (size : Nat) (canvas : Canvas) :
    BlockRun.Tells draws (max size 1) canvas.shown (blockRun draws size canvas) := by
  rw [blockRun, canvas.map_fst_visible]
  exact tells_foldl_visit draws (max size 1) canvas.shown_sorted

end Shade

namespace Painter

variable {vertices : Array Vertex} {depths : Array Nat} {bridges : Array Bool}
variable {maxDepth : Nat} {box : Box}

theorem shows_canvasOf_iff (hdepths : depths.size = vertices.size)
    (hbridges : bridges.size = vertices.size) {i : Nat} :
    (canvasOf vertices depths bridges maxDepth box).shows i = true ↔
      bridges[i]? = some false := by
  cases hbridge : bridges[i]? with
  | some bridge => simp [shows_canvasOf hdepths hbridges hbridge]
  | none =>
      have hsize : (canvasOf vertices depths bridges maxDepth box).spots.size = vertices.size :=
        size_canvasOf hdepths hbridges
      have hi : vertices.size ≤ i := hbridges ▸ Array.getElem?_eq_none_iff.mp hbridge
      simp [Canvas.shows_of_size_le (hsize.le.trans hi)]

/-- The blocks that a run has come by are those with a visible vertex. -/
theorem blocksBelow_shown (hdepths : depths.size = vertices.size)
    (hbridges : bridges.size = vertices.size) (size block : Nat) :
    Shade.blocksBelow (canvasOf vertices depths bridges maxDepth box).shown size block =
      Nat.count (· ∈ Shade.visibleBlocks bridges size) block := by
  apply List.countP_congr
  intro other _
  simp [Shade.mem_visibleBlocks, shows_canvasOf_iff hdepths hbridges]

/-- A run takes as many draws as there are blocks with a visible vertex. -/
theorem drawn_blockRun (hdepths : depths.size = vertices.size)
    (hbridges : bridges.size = vertices.size) (draws : Draws) (size : Nat) :
    (Shade.blockRun draws size (canvasOf vertices depths bridges maxDepth box)).drawn =
      (Shade.visibleBlocks bridges (max size 1)).card := by
  have hshown : ∀ i ∈ (canvasOf vertices depths bridges maxDepth box).shown,
      i / max size 1 < bridges.size := by
    intro i hi
    have hvisible := (shows_canvasOf_iff hdepths hbridges).mp (Canvas.mem_shown.mp hi)
    exact Shade.lt_size_of_mem_visibleBlocks (Shade.mem_visibleBlocks.mpr ⟨i, hvisible, rfl⟩)
  rw [(Shade.tells_blockRun draws size _).drawn bridges.size hshown,
    blocksBelow_shown hdepths hbridges,
    count_mem_eq_card fun _ => Shade.lt_size_of_mem_visibleBlocks]

theorem assigned_blockRandom (hdepths : depths.size = vertices.size)
    (hbridges : bridges.size = vertices.size) (size : Nat) (draws : Draws)
    (generator : Generator) {i : Nat} (hi : bridges[i]? = some false) :
    assigned (.leaf (.blockRandom size draws) generator)
        (canvasOf vertices depths bridges maxDepth box) i =
      some ⟨.blockRandom size draws, generator,
        draws (Shade.blockNumber bridges (max size 1) i)⟩ := by
  rw [assigned, if_pos ((shows_canvasOf_iff hdepths hbridges).mpr hi), Shade.scalarAt,
    blocksBelow_shown hdepths hbridges, Shade.blockNumber]

/-- A painter by blocks gives every visible vertex the draw with the number of its block,
counting those below it that have a visible vertex.  So vertices have one draw exactly if
they lie in one block, and there are as many draws as blocks with a visible vertex, all of
them in use. -/
theorem demands_blockRandom (search : Search LinearKey) (size : Nat) (draws : Draws)
    (generator : Generator) (maxDepth : Nat) (box : Box) (hdepths : depths.size = vertices.size)
    (hbridges : bridges.size = vertices.size) :
    let shade : Shade Draws := .blockRandom size draws
    let canvas := canvasOf vertices depths bridges maxDepth box
    let run := Shade.blockRun draws size canvas
    let length := max size 1
    let blocks := Shade.visibleBlocks bridges length
    let number := Shade.blockNumber bridges length
    (shade.scalars canvas = run.scalars.toList ∧ run.drawn = blocks.card) ∧
      (∀ n, n < blocks.card ↔ ∃ i : Nat, bridges[i]? = some false ∧ number i = n) ∧
      (∀ i j : Nat, bridges[i]? = some false → bridges[j]? = some false →
        (number i = number j ↔ i / length = j / length)) ∧
      ∃ painted, (Painter.leaf shade generator).paintVertices search vertices depths bridges
          maxDepth box = .ok painted ∧
        ∀ i : Nat, bridges[i]? = some false →
          (demands (.leaf shade generator) canvas).filter (fun demand => demand.index = i) =
            [⟨i, generator, draws (number i)⟩] ∧
          painted[i]? = vertices[i]?.map fun vertex =>
            { vertex with color := generator.color search (draws (number i)) } := by
  intro shade canvas run length blocks number
  refine ⟨⟨rfl, drawn_blockRun hdepths hbridges draws size⟩,
    fun n => Shade.exists_blockNumber_eq_iff.symm, fun i j => Shade.blockNumber_eq_iff, _,
    paintVertices_eq_ok _ hdepths hbridges, ?_⟩
  intro i hi
  have hassigned : assigned (.leaf shade generator) canvas i =
      some ⟨shade, generator, draws (number i)⟩ :=
    assigned_blockRandom hdepths hbridges size draws generator hi
  constructor
  · rw [asksFor_demands (.leaf shade generator) canvas i, hassigned]
    rfl
  · rw [getElem?_painted, hassigned]
    rfl

/-- A bridge across the whole of the second of four blocks of two, which takes no draw. -/
theorem demands_blockRandom_bridged :
    let vertices : Array Vertex := Array.replicate 8 ⟨⟨0, 0⟩, .transparent⟩
    let depths : Array Nat := Array.replicate 8 0
    let bridges : Array Bool := #[false, true, true, true, true, false, false, true]
    let draws := Random.draws 7
    let generator : Generator := .between .black .white
    depths.size = vertices.size ∧ bridges.size = vertices.size ∧
      (Shade.blockRun draws 2 (canvasOf vertices depths bridges 0 ⟨0, 0, 0, 0⟩)).drawn = 3 ∧
      ∃ painted, (Painter.leaf (.blockRandom 2 draws) generator).paintVertices .halving vertices
          depths bridges 0 ⟨0, 0, 0, 0⟩ = .ok painted ∧
        painted[5]? = some ⟨⟨0, 0⟩, generator.color .halving (draws 1)⟩ ∧
        painted[6]? = some ⟨⟨0, 0⟩, generator.color .halving (draws 2)⟩ := by
  intro vertices depths bridges draws generator
  obtain ⟨⟨-, hdrawn⟩, -, -, painted, hok, hpainted⟩ :=
    @demands_blockRandom vertices depths bridges .halving 2 draws generator 0 ⟨0, 0, 0, 0⟩ rfl rfl
  have hcard : (Shade.visibleBlocks bridges (max 2 1)).card = 3 := by decide
  have hlater : Shade.blockNumber bridges (max 2 1) 5 = 1 := by decide
  have hlast : Shade.blockNumber bridges (max 2 1) 6 = 2 := by decide
  refine ⟨rfl, rfl, hdrawn.trans hcard, painted, hok, ?_, ?_⟩
  · rw [(hpainted 5 rfl).2, hlater]
    rfl
  · rw [(hpainted 6 rfl).2, hlast]
    rfl

end Painter

end LineGrammar
