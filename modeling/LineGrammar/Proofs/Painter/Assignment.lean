/-
The meaning of painters: each visible vertex is assigned to one leaf of the tree,
with the scalar it has there.  A painter asks for one color for each visible
vertex, and painting carries out what it asks for.
-/
import Mathlib.Data.List.Nodup
import LineGrammar.Painter.Basic
import LineGrammar.Proofs.Painter.Division
import LineGrammar.Proofs.Painter.Scalars

namespace LineGrammar

namespace Pools

/-- The pool of a vertex: the part of its own scalar, or of that of the nearest
vertex before that has one, or pool zero. -/
def poolAt (count : Nat) (scalar : Nat → Option Float32) (i : Nat) : Nat :=
  latest (fun j => (scalar j).map (part count)) (i + 1)

theorem poolAt_lt {count : Nat} (hcount : 0 < count) (scalar : Nat → Option Float32)
    (i : Nat) : poolAt count scalar i < count := by
  apply latest_lt hcount
  intro j pool hpool
  simp only [Option.map_eq_some_iff] at hpool
  obtain ⟨f, -, rfl⟩ := hpool
  exact part_lt hcount f

end Pools

namespace Canvas

theorem shows_select {canvas : Canvas} {indices : Array Nat} {rank i : Nat}
    (hrank : indices[rank]? = some i) (hi : i < canvas.spots.size) :
    (canvas.select indices).shows rank = canvas.shows i := by
  simp [shows, select, hrank, hi]

theorem shows_select_indicesOf (canvas : Canvas) (pool : Nat → Nat) (i : Nat) :
    (canvas.select (Pools.indicesOf pool canvas.spots.size (pool i))).shows
      ((Pools.indicesOf pool canvas.spots.size (pool i)).idxOf i) = canvas.shows i := by
  by_cases hi : i < canvas.spots.size
  · exact shows_select (Pools.getElem?_idxOf_indicesOf hi) hi
  · have hmem : i ∉ Pools.indicesOf pool canvas.spots.size (pool i) := by
      simp [hi]
    rw [shows_of_size_le (Nat.le_of_not_lt hi), Array.idxOf_eq_size hmem]
    exact shows_of_size_le (by simp [select])

end Canvas

namespace Painter

/-- The leaf that paints a vertex, and the scalar it has for it. -/
structure Assignment where
  shade : Shade Draws
  generator : Generator
  scalar : Float32

namespace Assignment

def color (search : Search LinearKey) (assignment : Assignment) : Color :=
  assignment.generator.color search assignment.scalar

def demand (assignment : Assignment) (i : Nat) : Demand :=
  ⟨i, assignment.generator, assignment.scalar⟩

end Assignment

mutual

/-- What a painter assigns to a vertex: nothing unless it is visible.  The children
of a composite each get their pool as a drawing of its own. -/
def assigned : Painter Draws → Canvas → Nat → Option Assignment
  | .leaf shade generator, canvas, i =>
      if canvas.shows i then some ⟨shade, generator, shade.scalarAt canvas i⟩ else none
  | .composite main [], canvas, i => assigned main canvas i
  | .composite main (child :: others), canvas, i =>
      let pool := Pools.poolAt (others.length + 1) fun j =>
        (assigned main canvas j).map (·.scalar)
      let indices := Pools.indicesOf pool canvas.spots.size (pool i)
      assignedBy (child :: others) (pool i) (canvas.select indices) (indices.idxOf i)

def assignedBy : List (Painter Draws) → Nat → Canvas → Nat → Option Assignment
  | [], _, _, _ => none
  | child :: _, 0, canvas, i => assigned child canvas i
  | _ :: children, number + 1, canvas, i => assignedBy children number canvas i

end

theorem assignedBy_eq (children : List (Painter Draws)) (number : Nat) (canvas : Canvas)
    (i : Nat) : assignedBy children number canvas i =
      children[number]?.bind fun child => assigned child canvas i := by
  induction children generalizing number with
  | nil => rfl
  | cons child children ih =>
      cases number with
      | zero => rfl
      | succ number => exact ih number

def poolOf (main : Painter Draws) (count : Nat) (canvas : Canvas) : Nat → Nat :=
  Pools.poolAt count fun j => (assigned main canvas j).map (·.scalar)

theorem assigned_composite {main child : Painter Draws} {others : List (Painter Draws)}
    {canvas : Canvas} {pool : Nat → Nat} (hpool : pool = poolOf main (others.length + 1) canvas)
    (i : Nat) :
    assigned (.composite main (child :: others)) canvas i =
      assignedBy (child :: others) (pool i)
        (canvas.select (Pools.indicesOf pool canvas.spots.size (pool i)))
        ((Pools.indicesOf pool canvas.spots.size (pool i)).idxOf i) := by
  subst hpool
  rw [assigned]
  rfl

/-- A vertex is assigned to a leaf exactly if it is visible. -/
theorem isSome_assigned (painter : Painter Draws) (canvas : Canvas) (i : Nat) :
    (assigned painter canvas i).isSome = canvas.shows i := by
  induction painter generalizing canvas i with
  | leaf shade generator =>
      rw [assigned]
      cases hshows : canvas.shows i with
      | false => rfl
      | true => rfl
  | composite main children ihMain ihChildren =>
      cases children with
      | nil => exact ihMain canvas i
      | cons child others =>
          obtain ⟨pool, hpool⟩ : ∃ pool, pool = poolOf main (others.length + 1) canvas :=
            ⟨_, rfl⟩
          have hbound : pool i < (child :: others).length := by
            rw [hpool]
            exact Pools.poolAt_lt (Nat.succ_pos _) _ i
          rw [assigned_composite hpool, assignedBy_eq, List.getElem?_eq_getElem hbound,
            Option.bind_some, ihChildren _ (List.getElem_mem hbound)]
          exact canvas.shows_select_indicesOf pool i

theorem assigned_eq_none_iff {painter : Painter Draws} {canvas : Canvas} {i : Nat} :
    assigned painter canvas i = none ↔ canvas.shows i = false := by
  rw [← isSome_assigned painter canvas i]
  simp

/-- Demands answer to an assignment if there is one demand for each assigned vertex,
with its generator and its scalar, and none for any other. -/
def AsksFor (demands : List Demand) (assignment : Nat → Option Assignment) : Prop :=
  ∀ i, demands.filter (fun demand => demand.index = i) =
    ((assignment i).map fun assigned => assigned.demand i).toList

theorem AsksFor.shows_index {painter : Painter Draws} {canvas : Canvas} {asked : List Demand}
    (hasked : AsksFor asked (assigned painter canvas)) {demand : Demand}
    (hdemand : demand ∈ asked) : canvas.shows demand.index = true := by
  have hmem : demand ∈ asked.filter fun other => other.index = demand.index := by
    simpa using hdemand
  rw [← isSome_assigned painter]
  rw [hasked demand.index] at hmem
  cases hassigned : assigned painter canvas demand.index with
  | none => simp [hassigned] at hmem
  | some assignment => rfl

theorem asksFor_leaf (shade : Shade Draws) (generator : Generator) (canvas : Canvas) :
    AsksFor (demands (.leaf shade generator) canvas)
      (assigned (.leaf shade generator) canvas) := by
  intro i
  have hdemands : demands (.leaf shade generator) canvas =
      canvas.shown.map fun j => ⟨j, generator, shade.scalarAt canvas j⟩ := by
    rw [demands, Shade.scalars_eq, List.map_map]
    rfl
  rw [hdemands, assigned]
  by_cases hshows : canvas.shows i = true
  · have hkeys : ((canvas.shown.map fun j => (⟨j, generator, shade.scalarAt canvas j⟩ :
        Demand)).map Demand.index).Nodup := by
      simpa [Function.comp_def] using canvas.nodup_shown
    have hmem : (⟨i, generator, shade.scalarAt canvas i⟩ : Demand) ∈
        canvas.shown.map fun j => ⟨j, generator, shade.scalarAt canvas j⟩ := by
      simpa using hshows
    rw [Pools.filter_key_eq Demand.index hkeys hmem, if_pos hshows]
    rfl
  · rw [if_neg hshows, List.filter_eq_nil_iff.mpr]
    · rfl
    · intro demand hdemand
      simp only [List.mem_map, Canvas.mem_shown] at hdemand
      obtain ⟨j, hj, rfl⟩ := hdemand
      intro heq
      have heq : j = i := of_decide_eq_true heq
      rw [heq] at hj
      exact hshows hj

/-- The pools of a composite, from an assignment of its main painter. -/
theorem pools_eq {main : Painter Draws} {canvas : Canvas} {asked : List Demand}
    (hasked : AsksFor asked (assigned main canvas)) (count : Nat) :
    pools count canvas asked = (List.range count).map fun p =>
      Pools.indicesOf (poolOf main count canvas) canvas.spots.size p := by
  have hvalue : (fun j => ((asked.map fun demand => (demand.index, demand.scalar)).filter
      fun step => step.1 = j).getLast?.map fun step => Pools.part count step.2) =
      fun j => ((assigned main canvas j).map (·.scalar)).map (Pools.part count) := by
    funext j
    rw [List.filter_map]
    change ((asked.filter fun demand => demand.index = j).map _).getLast?.map _ = _
    rw [hasked j]
    cases assigned main canvas j with
    | none => rfl
    | some assignment => rfl
  rw [pools, Pools.ofScalars_eq, Pools.members_range, List.toList_toArray, hvalue]
  rfl

end Painter

namespace Demand

/-- A demand for a vertex of a pool, as one for a vertex of the whole drawing. -/
def relabel (indices : Array Nat) (demand : Demand) : Demand :=
  { demand with index := indices[demand.index]?.getD 0 }

theorem filter_relabel {asked : List Demand} {indices : Array Nat} {rank i : Nat}
    (hasked : ∀ demand ∈ asked, demand.index < indices.size)
    (hnodup : indices.toList.Nodup) (hrank : indices[rank]? = some i) :
    (asked.map (relabel indices)).filter (fun demand => demand.index = i) =
      (asked.filter fun demand => demand.index = rank).map (relabel indices) := by
  rw [List.filter_map]
  congr 1
  apply List.filter_congr
  intro demand hdemand
  have hindex := hasked demand hdemand
  obtain ⟨hsize, hi⟩ := Array.getElem?_eq_some_iff.mp hrank
  have hiff : indices[demand.index] = indices[rank] ↔ demand.index = rank := by
    rw [← Array.getElem_toList, ← Array.getElem_toList]
    exact List.Nodup.getElem_inj_iff hnodup
  simp [relabel, hindex, ← hi, hiff]

theorem filter_relabel_of_not_mem {asked : List Demand} {indices : Array Nat} {i : Nat}
    (hasked : ∀ demand ∈ asked, demand.index < indices.size) (hi : i ∉ indices) :
    (asked.map (relabel indices)).filter (fun demand => demand.index = i) = [] := by
  rw [List.filter_eq_nil_iff]
  intro demand hdemand heq
  simp only [List.mem_map] at hdemand
  obtain ⟨demand, hdemand, rfl⟩ := hdemand
  have hindex := hasked demand hdemand
  have heq : indices[demand.index] = i := by
    simpa [relabel, hindex] using heq
  exact hi (heq ▸ Array.getElem_mem hindex)

end Demand

namespace Painter

theorem AsksFor.index_lt {painter : Painter Draws} {canvas : Canvas} {indices : Array Nat}
    {asked : List Demand} (hasked : AsksFor asked (assigned painter (canvas.select indices))) :
    ∀ demand ∈ asked, demand.index < indices.size := by
  intro demand hdemand
  have hlt := Canvas.lt_size_of_shows (hasked.shows_index hdemand)
  simpa [Canvas.select] using hlt

/-- What a child asks for is what it is assigned, at the place of each vertex in its
pool. -/
theorem AsksFor.filter_relabel {child : Painter Draws} {canvas : Canvas}
    {pool : Nat → Nat} {asked : List Demand} {i : Nat}
    (hasked : AsksFor asked (assigned child
      (canvas.select (Pools.indicesOf pool canvas.spots.size (pool i))))) :
    (asked.map (Demand.relabel (Pools.indicesOf pool canvas.spots.size (pool i)))).filter
        (fun demand => demand.index = i) =
      ((assigned child (canvas.select (Pools.indicesOf pool canvas.spots.size (pool i)))
        ((Pools.indicesOf pool canvas.spots.size (pool i)).idxOf i)).map
          fun assigned => assigned.demand i).toList := by
  obtain ⟨indices, hindices⟩ : ∃ indices,
    indices = Pools.indicesOf pool canvas.spots.size (pool i) := ⟨_, rfl⟩
  have hnodup : indices.toList.Nodup := by
    rw [hindices]
    exact Pools.nodup_indicesOf pool _ _
  by_cases hi : i < canvas.spots.size
  · have hrank : indices[indices.idxOf i]? = some i := by
      rw [hindices]
      exact Pools.getElem?_idxOf_indicesOf hi
    rw [← hindices] at hasked ⊢
    rw [Demand.filter_relabel hasked.index_lt hnodup hrank, hasked (indices.idxOf i)]
    cases assigned child (canvas.select indices) (indices.idxOf i) with
    | none => rfl
    | some assignment => simp [Assignment.demand, Demand.relabel, hrank]
  · have hmem : i ∉ indices := by
      simp [hindices, hi]
    have hnone : assigned child (canvas.select indices) (indices.idxOf i) = none := by
      rw [assigned_eq_none_iff, hindices, Canvas.shows_select_indicesOf]
      exact Canvas.shows_of_size_le (Nat.le_of_not_lt hi)
    rw [← hindices] at hasked ⊢
    rw [Demand.filter_relabel_of_not_mem hasked.index_lt hmem, hnone]
    rfl

theorem filter_poolDemands {pool : Nat → Nat} {canvas : Canvas} {i : Nat}
    {children : List (Painter Draws)} (start : Nat)
    (hchildren : ∀ child ∈ children, ∀ canvas,
      AsksFor (demands child canvas) (assigned child canvas)) :
    (poolDemands children ((List.range' start children.length).map
        (Pools.indicesOf pool canvas.spots.size)) canvas).filter
        (fun demand => demand.index = i) =
      if start ≤ pool i then
        ((assignedBy children (pool i - start)
          (canvas.select (Pools.indicesOf pool canvas.spots.size (pool i)))
          ((Pools.indicesOf pool canvas.spots.size (pool i)).idxOf i)).map
            fun assigned => assigned.demand i).toList
      else [] := by
  induction children generalizing start with
  | nil => simp [poolDemands, assignedBy]
  | cons child children ih =>
      have hrest := ih (start + 1) fun other hother =>
        hchildren other (List.mem_cons_of_mem child hother)
      have hchild := hchildren child List.mem_cons_self
        (canvas.select (Pools.indicesOf pool canvas.spots.size start))
      rw [List.length_cons, List.range'_succ, List.map_cons, poolDemands, List.filter_append,
        hrest]
      change ((demands child _).map (Demand.relabel _)).filter _ ++ _ = _
      by_cases hpool : pool i = start
      · subst hpool
        rw [hchild.filter_relabel, if_neg (by omega), if_pos (Nat.le_refl _), Nat.sub_self,
          assignedBy, List.append_nil]
      · have hmem : i ∉ Pools.indicesOf pool canvas.spots.size start := by
          simp [hpool]
        rw [Demand.filter_relabel_of_not_mem hchild.index_lt hmem, List.nil_append]
        by_cases hlater : start ≤ pool i
        · have hsub : pool i - start = (pool i - (start + 1)) + 1 := by omega
          rw [if_pos (by omega), if_pos hlater, hsub, assignedBy]
        · rw [if_neg (by omega), if_neg hlater]

/-- A painter asks for exactly the colors of its assignment. -/
theorem asksFor_demands (painter : Painter Draws) (canvas : Canvas) :
    AsksFor (demands painter canvas) (assigned painter canvas) := by
  induction painter generalizing canvas with
  | leaf shade generator => exact asksFor_leaf shade generator canvas
  | composite main children ihMain ihChildren =>
      cases children with
      | nil => exact ihMain canvas
      | cons child others =>
          intro i
          rw [demands, pools_eq (ihMain canvas), List.range_eq_range',
            assigned_composite rfl]
          exact (filter_poolDemands 0 ihChildren).trans (if_pos (Nat.zero_le _))

end Painter

end LineGrammar
