/-
Pools lose nothing.  Their lists divide the indices of all vertices among them.  So what is put
back pool after pool reaches every vertex once: it gets what stands at its rank in the list for
its pool.  The children of a composite color copies of their pools, and what they make of these
is put back in just this way.
-/
import LineGrammar.Proofs.Painter.Assignment

namespace LineGrammar

namespace Pools

/-- Lists that divide the indices of pools among them: one list for each pool, with its indices
in ascending order, and every index in one of them. -/
structure Divides (pools : Array Nat) (count : Nat) (lists : List (Array Nat)) : Prop where
  length_eq : lists.length = count
  ascending : ∀ indices ∈ lists, indices.toList.Pairwise (· < ·)
  mem_iff : ∀ (p : Nat) (indices : Array Nat), lists[p]? = some indices →
    ∀ i, i ∈ indices ↔ pools[i]? = some p
  perm_range : (lists.flatMap Array.toList).Perm (List.range pools.size)

def rank (pools : Array Nat) (p i : Nat) : Nat :=
  (pools.toList.take i).count p

section Members

variable {pools : Array Nat} {count : Nat}

theorem range_map_getD (pools : Array Nat) :
    ((List.range pools.size).map fun i => pools[i]?.getD 0).toArray = pools := by
  apply Array.ext
  · simp
  · intro i hi hi'
    simp [hi']

theorem toList_members (pools : Array Nat) (count : Nat) :
    (members pools count).toList =
      (List.range count).map (indicesOf (fun i => pools[i]?.getD 0) pools.size) := by
  have hmembers := members_range (fun i => pools[i]?.getD 0) count pools.size
  rw [range_map_getD] at hmembers
  rw [hmembers]

theorem mem_indicesOf_iff {i p : Nat} :
    i ∈ indicesOf (fun j => pools[j]?.getD 0) pools.size p ↔ pools[i]? = some p := by
  rw [mem_indicesOf, Array.getElem?_eq_some_iff]
  constructor
  · rintro ⟨hi, hpool⟩
    exact ⟨hi, by simpa [hi] using hpool⟩
  · rintro ⟨hi, hpool⟩
    exact ⟨hi, by simpa [hi] using hpool⟩

theorem getElem?_members {p : Nat} {indices : Array Nat}
    (h : (members pools count).toList[p]? = some indices) :
    indices = indicesOf (fun i => pools[i]?.getD 0) pools.size p := by
  rw [toList_members, List.getElem?_map, Option.map_eq_some_iff] at h
  obtain ⟨other, hother, rfl⟩ := h
  rw [(List.getElem?_eq_some_iff.mp hother).2.symm, List.getElem_range]

/-- Every index stands in the list of its pool at its rank. -/
theorem getElem?_indicesOf_rank {i p : Nat} (h : pools[i]? = some p) :
    (indicesOf (fun j => pools[j]?.getD 0) pools.size p)[rank pools p i]? = some i := by
  obtain ⟨hi, hpool⟩ := Array.getElem?_eq_some_iff.mp h
  have hbefore : ((List.range i).filter fun j => pools[j]?.getD 0 = p).length =
      rank pools p i := by
    have htake : pools.toList.take i = (List.range i).map fun j => pools[j]?.getD 0 := by
      apply List.ext_getElem
      · simp [Nat.le_of_lt hi]
      · intro j hj hj'
        have hlt : j < pools.size := Nat.lt_of_lt_of_le hj (List.length_take_le' i pools.toList)
        simp [hlt]
    rw [rank, htake, List.count, List.countP_map, List.countP_eq_length_filter]
    rfl
  -- The list goes through the indices before, then comes to the one at hand.
  obtain ⟨more, hmore⟩ := Nat.exists_eq_add_of_lt hi
  have hrange : List.range pools.size =
      List.range i ++ i :: (List.range more).map fun j => i + (j + 1) := by
    rw [hmore, Nat.add_assoc, List.range_add, List.range_succ_eq_map, List.map_cons,
      List.map_map]
    rfl
  rw [indicesOf, List.getElem?_toArray, hrange, List.filter_append,
    List.filter_cons_of_pos (by simpa [hi] using hpool), ← hbefore,
    List.getElem?_append_right (Nat.le_refl _), Nat.sub_self]
  rfl

/-- Where all pools are counted, their lists divide the indices. -/
theorem divides_members (hpools : ∀ pool ∈ pools, pool < count) :
    Divides pools count (members pools count).toList where
  length_eq := by simp [toList_members]
  ascending := by
    intro indices hindices
    rw [toList_members] at hindices
    obtain ⟨p, -, rfl⟩ := List.mem_map.mp hindices
    exact List.pairwise_lt_range.filter _
  mem_iff := by
    intro p indices hindices i
    rw [getElem?_members hindices, mem_indicesOf_iff]
  perm_range := by
    rw [toList_members, List.flatMap_map]
    apply (List.perm_ext_iff_of_nodup ?nodup List.nodup_range).mpr
    case nodup =>
      refine List.nodup_flatMap.mpr ⟨fun p _ => nodup_indicesOf _ _ p, ?_⟩
      -- No index has two pools.
      refine List.nodup_range.imp fun hne i hfirst hsecond => hne ?_
      rw [Array.mem_toList_iff, mem_indicesOf] at hfirst hsecond
      exact hfirst.2.symm.trans hsecond.2
    intro i
    simp only [List.mem_flatMap, List.mem_range, Array.mem_toList_iff, mem_indicesOf]
    constructor
    · rintro ⟨p, -, hi, -⟩
      exact hi
    · intro hi
      refine ⟨pools[i]?.getD 0, ?_, hi, rfl⟩
      rw [Array.getElem?_eq_getElem hi, Option.getD_some]
      exact hpools _ (Array.getElem_mem hi)

end Members

section PutBack

variable {A : Type}

/-- Put back replacements for lists of indices, pool after pool. -/
def putBack : Array A → List (Array Nat) → List (Array A) → Array A
  | values, indices :: lists, replacement :: replacements =>
      putBack (scatter values indices replacement) lists replacements
  | values, _, _ => values

def writes (lists : List (Array Nat)) (replacements : List (Array A)) : List (Nat × A) :=
  (lists.zip replacements).flatMap fun (indices, replacement) =>
    (indices.zip replacement).toList

@[simp] theorem writes_cons (indices : Array Nat) (lists : List (Array Nat))
    (replacement : Array A) (replacements : List (Array A)) :
    writes (indices :: lists) (replacement :: replacements) =
      (indices.zip replacement).toList ++ writes lists replacements :=
  rfl

theorem putBack_eq_foldl (values : Array A) (lists : List (Array Nat))
    (replacements : List (Array A)) :
    putBack values lists replacements = (writes lists replacements).foldl
      (fun values step => values.setIfInBounds step.1 step.2) values := by
  induction lists generalizing values replacements with
  | nil => rfl
  | cons indices lists ih =>
      cases replacements with
      | nil => rfl
      | cons replacement replacements =>
          rw [putBack, ih, writes_cons, List.foldl_append, scatter, ← Array.foldl_toList]

/-- Replacements of the right sizes are written to each index of the lists once. -/
theorem map_fst_writes {lists : List (Array Nat)} {replacements : List (Array A)}
    (hsizes : replacements.map Array.size = lists.map Array.size) :
    (writes lists replacements).map Prod.fst = lists.flatMap Array.toList := by
  induction lists generalizing replacements with
  | nil => rfl
  | cons indices lists ih =>
      cases replacements with
      | nil => cases hsizes
      | cons replacement replacements =>
          obtain ⟨hsize, hsizes⟩ := List.cons.inj hsizes
          have hfirst : (indices.zip replacement).toList.map Prod.fst = indices.toList := by
            rw [Array.toList_zip, List.map_fst_zip (by simp [hsize])]
          rw [writes_cons, List.map_append, List.flatMap_cons, hfirst, ih hsizes]

theorem mem_writes {lists : List (Array Nat)} {replacements : List (Array A)} {p rank i : Nat}
    {indices : Array Nat} {replacement : Array A} {value : A}
    (hindices : lists[p]? = some indices) (hreplacement : replacements[p]? = some replacement)
    (hi : indices[rank]? = some i) (hvalue : replacement[rank]? = some value) :
    (i, value) ∈ writes lists replacements := by
  refine List.mem_flatMap.mpr ⟨(indices, replacement), ?_, ?_⟩
  · exact List.mem_of_getElem? (List.getElem?_zip_eq_some.mpr ⟨hindices, hreplacement⟩)
  · have hwrite : (indices.toList.zip replacement.toList)[rank]? = some (i, value) := by
      rw [List.getElem?_zip_eq_some, Array.getElem?_toList, Array.getElem?_toList]
      exact ⟨hi, hvalue⟩
    change (i, value) ∈ (indices.zip replacement).toList
    rw [Array.toList_zip]
    exact List.mem_of_getElem? hwrite

@[simp] theorem size_putBack (values : Array A) (lists : List (Array Nat))
    (replacements : List (Array A)) : (putBack values lists replacements).size = values.size := by
  rw [putBack_eq_foldl]
  exact size_foldl_setIfInBounds _ Prod.fst Prod.snd values

/-- Where no index comes twice, it holds in the end what was written there. -/
theorem getElem?_putBack {values : Array A} {lists : List (Array Nat)}
    {replacements : List (Array A)} {i : Nat} {value : A}
    (hsizes : replacements.map Array.size = lists.map Array.size)
    (hnodup : (lists.flatMap Array.toList).Nodup)
    (hwrite : (i, value) ∈ writes lists replacements) (hi : i < values.size) :
    (putBack values lists replacements)[i]? = some value := by
  have hkeys : ((writes lists replacements).map Prod.fst).Nodup := by
    rwa [map_fst_writes hsizes]
  rw [putBack_eq_foldl, getElem?_foldl_setIfInBounds _ Prod.fst Prod.snd,
    filter_key_eq Prod.fst hkeys hwrite, Array.getElem?_eq_getElem hi]
  rfl

/-- Putting back what was gathered from all pools changes nothing. -/
theorem putBack_gather [Inhabited A] {values : Array A} {lists : List (Array Nat)}
    (hrange : ∀ indices ∈ lists, ∀ i ∈ indices, i < values.size) :
    putBack values lists (lists.map (gather values)) = values := by
  induction lists with
  | nil => rfl
  | cons indices lists ih =>
      obtain ⟨hfirst, hrest⟩ := List.forall_mem_cons.mp hrange
      rw [List.map_cons, putBack, scatter_gather hfirst]
      exact ih hrest

end PutBack

namespace Divides

variable {A : Type} {pools : Array Nat} {count : Nat} {lists : List (Array Nat)}

theorem nodup (h : Divides pools count lists) : (lists.flatMap Array.toList).Nodup :=
  h.perm_range.nodup_iff.mpr List.nodup_range

theorem lt_size (h : Divides pools count lists) {indices : Array Nat} (hindices : indices ∈ lists)
    {i : Nat} (hi : i ∈ indices) : i < pools.size := by
  rw [← List.mem_range, ← h.perm_range.mem_iff]
  exact List.mem_flatMap.mpr ⟨indices, hindices, Array.mem_toList_iff.mpr hi⟩

end Divides

/-- Each index is written what stands at its rank in the replacement for its pool. -/
theorem exists_write {A : Type} {pools : Array Nat} {count : Nat}
    {replacements : List (Array A)} (hpools : ∀ pool ∈ pools, pool < count)
    (hsizes : replacements.map Array.size = (members pools count).toList.map Array.size)
    {i p : Nat} (hi : pools[i]? = some p) :
    ∃ indices replacement value, (members pools count)[p]? = some indices ∧
      indices[rank pools p i]? = some i ∧ replacements[p]? = some replacement ∧
      replacement[rank pools p i]? = some value ∧
      (i, value) ∈ writes (members pools count).toList replacements := by
  have hp : p < count := hpools p (Array.mem_of_getElem? hi)
  obtain ⟨indices, hindices⟩ : ∃ indices, (members pools count).toList[p]? = some indices :=
    ⟨_, List.getElem?_eq_getElem (by rwa [(divides_members hpools).length_eq])⟩
  have hrank : indices[rank pools p i]? = some i :=
    getElem?_members hindices ▸ getElem?_indicesOf_rank hi
  have hsize : (replacements.map Array.size)[p]? = some indices.size := by
    rw [hsizes, List.getElem?_map, hindices]
    rfl
  rw [List.getElem?_map, Option.map_eq_some_iff] at hsize
  obtain ⟨replacement, hreplacement, hsize⟩ := hsize
  obtain ⟨value, hvalue⟩ : ∃ value, replacement[rank pools p i]? = some value := by
    have hlt := (Array.getElem?_eq_some_iff.mp hrank).1
    exact ⟨_, Array.getElem?_eq_getElem (hsize ▸ hlt)⟩
  exact ⟨indices, replacement, value, by rwa [← Array.getElem?_toList], hrank, hreplacement,
    hvalue, mem_writes hindices hreplacement hrank hvalue⟩

/-- Whatever scalars are recorded, for whichever vertices, every vertex gets one of the pools. -/
theorem lt_of_mem_ofScalars {count : Nat} (hcount : 0 < count) (size : Nat)
    (scalars : List (Nat × Float32)) : ∀ pool ∈ ofScalars count size scalars, pool < count := by
  intro pool hpool
  rw [ofScalars_eq, List.mem_toArray, List.mem_map] at hpool
  obtain ⟨i, -, rfl⟩ := hpool
  apply latest_lt hcount
  intro j part hpart
  obtain ⟨step, -, rfl⟩ := Option.map_eq_some_iff.mp hpart
  exact part_lt hcount step.2

theorem size_ofScalars (count size : Nat) (scalars : List (Nat × Float32)) :
    (ofScalars count size scalars).size = size := by
  simp [ofScalars_eq]

/-- What is put back at some indices is not seen at others. -/
theorem gather_scatter_of_disjoint {A : Type} [Inhabited A] (values : Array A)
    {indices others : Array Nat} (replacement : Array A) (h : ∀ i ∈ others, i ∉ indices) :
    gather (scatter values indices replacement) others = gather values others := by
  apply Array.map_congr_left
  intro i hi
  rw [getElem?_scatter_of_not_mem values replacement (h i hi)]

end Pools

namespace Painter

/-- Pools that share no index are painted as if each were painted first. -/
theorem recolorPools_eq_putBack {search : Search LinearKey} {children : List (Painter Draws)}
    {lists : List (Array Nat)}
    (hlists : (lists.flatMap Array.toList).Nodup) (canvas : Canvas) {source vertices : Array Vertex}
    (hsource : ∀ indices ∈ lists, Pools.gather vertices indices = Pools.gather source indices) :
    recolorPools search children lists canvas vertices = Pools.putBack vertices lists
      (List.zipWith (fun child indices =>
        recolor search child (canvas.select indices) (Pools.gather source indices))
        children lists) := by
  induction children generalizing lists vertices with
  | nil =>
      cases lists with
      | nil => rfl
      | cons indices lists => rfl
  | cons child children ih =>
      cases lists with
      | nil => rfl
      | cons indices lists =>
          obtain ⟨hfirst, hrest⟩ := List.forall_mem_cons.mp hsource
          rw [List.flatMap_cons, List.nodup_append] at hlists
          obtain ⟨-, hlists, hdisjoint⟩ := hlists
          rw [recolorPools, hfirst, List.zipWith_cons_cons, Pools.putBack]
          apply ih hlists
          -- The pools that are left do not see what has been put back for this one.
          intro others hothers
          rw [Pools.gather_scatter_of_disjoint, hrest others hothers]
          intro i hi hmem
          exact hdisjoint i (Array.mem_toList_iff.mpr hmem) i
            (List.mem_flatMap.mpr ⟨others, hothers, Array.mem_toList_iff.mpr hi⟩) rfl

/-- The children of a composite color copies of the vertices in their pools, as these were
before, and what they make of them is put back. -/
theorem recolor_composite_eq_putBack (search : Search LinearKey) (main child : Painter Draws)
    (others : List (Painter Draws)) (canvas : Canvas) (vertices : Array Vertex) :
    recolor search (.composite main (child :: others)) canvas vertices =
      let lists := pools (others.length + 1) canvas (demands main canvas)
      Pools.putBack vertices lists (List.zipWith (fun child indices =>
        recolor search child (canvas.select indices) (Pools.gather vertices indices))
        (child :: others) lists) := by
  rw [recolor]
  apply recolorPools_eq_putBack
  · exact (Pools.divides_members
      (Pools.lt_of_mem_ofScalars (Nat.succ_pos _) _ _)).nodup
  · exact fun _ _ => rfl

end Painter

namespace Pools

/-- The lists of pools divide the indices among them.  So of any replacements for them, put back
pool after pool, each index gets the one at its rank within its pool, and what was gathered is
put back where it was.  Recorded pools are always within their number, whatever scalars are
recorded and whichever vertices have none, and the children of a composite color their pools
just so. -/
theorem members_lossless {A : Type} [Inhabited A] {pools : Array Nat} {count : Nat}
    (hpools : ∀ pool ∈ pools, pool < count) :
    let lists := members pools count
    partition? pools count = (if count ≤ maxCount then some lists else none) ∧
      Divides pools count lists.toList ∧
      (∀ (values : Array A) (replacements : List (Array A)), values.size = pools.size →
        replacements.map Array.size = lists.toList.map Array.size →
        (putBack values lists.toList replacements).size = pools.size ∧
        ∀ i p, pools[i]? = some p → ∃ indices replacement value,
          lists[p]? = some indices ∧ indices[rank pools p i]? = some i ∧
          replacements[p]? = some replacement ∧ replacement[rank pools p i]? = some value ∧
          (putBack values lists.toList replacements)[i]? = some value) ∧
      (∀ values : Array A, values.size = pools.size →
        putBack values lists.toList (lists.toList.map (gather values)) = values) ∧
      (∀ children size (scalars : List (Nat × Float32)), 0 < children →
        (ofScalars children size scalars).size = size ∧
        ∀ pool ∈ ofScalars children size scalars, pool < children) ∧
      ∀ (search : Search LinearKey) (main child : Painter Draws) (others : List (Painter Draws))
        (canvas : Canvas) (vertices : Array Vertex),
        let recorded := ofScalars (others.length + 1) canvas.spots.size
          ((main.demands canvas).map fun demand => (demand.index, demand.scalar))
        let lists := (members recorded (others.length + 1)).toList
        (Painter.composite main (child :: others)).recolor search canvas vertices =
          putBack vertices lists (List.zipWith (fun child indices =>
            child.recolor search (canvas.select indices) (gather vertices indices))
            (child :: others) lists) := by
  intro lists
  have hdivides : Divides pools count lists.toList := divides_members hpools
  refine ⟨?_, hdivides, ?_, ?_, ?_, Painter.recolor_composite_eq_putBack⟩
  · have hall : pools.all (· < count) = true :=
      Array.all_eq_true_iff_forall_mem.mpr fun pool hpool => decide_eq_true (hpools pool hpool)
    simp only [partition?, hall, and_true]
    rfl
  · intro values replacements hvalues hsizes
    refine ⟨by rw [size_putBack, hvalues], fun i p hi => ?_⟩
    obtain ⟨indices, replacement, value, hindices, hrank, hreplacement, hvalue, hwrite⟩ :=
      exists_write hpools hsizes hi
    refine ⟨indices, replacement, value, hindices, hrank, hreplacement, hvalue, ?_⟩
    apply getElem?_putBack hsizes hdivides.nodup hwrite
    rw [hvalues]
    exact (Array.getElem?_eq_some_iff.mp hi).1
  · intro values hvalues
    apply putBack_gather
    intro indices hindices i hi
    rw [hvalues]
    exact hdivides.lt_size hindices hi
  · intro children size scalars hchildren
    exact ⟨size_ofScalars children size scalars, lt_of_mem_ofScalars hchildren size scalars⟩

/-- Four pools of which the last is empty, and pools recorded for scalars of which one is not a
number. -/
theorem members_lossless_sparse :
    let pools : Array Nat := #[2, 0, 1, 2, 2, 0]
    let replacements : List (Array Nat) := [#[10, 11], #[20], #[30, 31, 32], #[]]
    (∀ pool ∈ pools, pool < 4) ∧
      partition? pools 4 = some #[#[1, 5], #[2], #[0, 3, 4], #[]] ∧
      Divides pools 4 [#[1, 5], #[2], #[0, 3, 4], #[]] ∧
      rank pools 2 3 = 1 ∧
      (putBack (Array.replicate 6 0) [#[1, 5], #[2], #[0, 3, 4], #[]] replacements)[3]? =
        some 31 ∧
      ofScalars 3 5 [(1, 0.9), (3, 0 / 0)] = #[0, 2, 2, 0, 0] ∧
      ∀ pool ∈ ofScalars 3 5 [(1, 0.9), (3, 0 / 0)], pool < 3 := by
  intro pools replacements
  have hpools : ∀ pool ∈ pools, pool < 4 := by decide
  have hlists : members pools 4 = #[#[1, 5], #[2], #[0, 3, 4], #[]] := by decide +kernel
  obtain ⟨hpartition, hdivides, hput, -, hrecorded, -⟩ := @members_lossless Nat _ pools 4 hpools
  rw [hlists] at hpartition hdivides hput
  obtain ⟨-, hput⟩ := hput (Array.replicate 6 0) replacements rfl rfl
  obtain ⟨indices, replacement, value, -, -, hreplacement, hvalue, hput⟩ := hput 3 2 rfl
  obtain rfl : #[30, 31, 32] = replacement := Option.some.inj hreplacement
  obtain rfl : 31 = value := Option.some.inj hvalue
  exact ⟨hpools, hpartition.trans (if_pos (by decide)), hdivides, rfl, hput, by decide +kernel,
    (hrecorded 3 5 _ (by decide)).2⟩

end Pools

end LineGrammar
