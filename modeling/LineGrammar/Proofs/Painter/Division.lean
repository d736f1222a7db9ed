/-
Division of a drawing among painters, index by index: which pool a vertex comes
to lie in, what the list of each pool is, and what becomes of a value that is
gathered and put back.
-/
import Mathlib.Data.List.Basic
import LineGrammar.Painter.Pools

namespace LineGrammar

namespace Pools

/-- After a run of writes a place holds what was written there last. -/
theorem getElem?_foldl_setIfInBounds {A B : Type} (steps : List B) (index : B → Nat)
    (value : B → A) (values : Array A) (i : Nat) :
    (steps.foldl (fun values step => values.setIfInBounds (index step) (value step))
      values)[i]? =
      values[i]?.map fun old =>
        ((steps.filter fun step => index step = i).getLast?.map value).getD old := by
  induction steps generalizing values with
  | nil => simp
  | cons step steps ih =>
      rw [List.foldl_cons, ih]
      by_cases hindex : index step = i
      · have hwritten : (values.setIfInBounds (index step) (value step))[i]? =
            values[i]?.map fun _ => value step := by
          by_cases hi : i < values.size
          · simp [hindex, hi]
          · simp [hindex, hi]
        rw [hwritten, List.filter_cons_of_pos (by simpa using hindex), List.getLast?_cons,
          Option.map_map]
        congr 1
        funext old
        cases (steps.filter fun step => index step = i).getLast? with
        | none => rfl
        | some last => rfl
      · rw [Array.getElem?_setIfInBounds_ne hindex,
          List.filter_cons_of_neg (by simpa using hindex)]

/-- Where no two steps share a key, a step is the only one with its key. -/
theorem filter_key_eq {B : Type} (key : B → Nat) {steps : List B} {step : B}
    (hkeys : (steps.map key).Nodup) (hstep : step ∈ steps) :
    steps.filter (fun other => key other = key step) = [step] := by
  induction steps with
  | nil => simp at hstep
  | cons first steps ih =>
      simp only [List.map_cons, List.nodup_cons, List.mem_map, not_exists, not_and] at hkeys
      obtain ⟨hfirst, hkeys⟩ := hkeys
      simp only [List.mem_cons] at hstep
      rcases hstep with rfl | hstep
      · have hnone : steps.filter (fun other => key other = key step) = [] := by
          simpa using hfirst
        rw [List.filter_cons_of_pos (by simp), hnone]
      · have hne : key first ≠ key step := fun heq => hfirst step hstep heq.symm
        rw [List.filter_cons_of_neg (by simpa using hne), ih hkeys hstep]

section Transport

variable {A B : Type}

theorem map_gather [Inhabited A] [Inhabited B] (f : A → B) {values : Array A}
    {indices : Array Nat} (hrange : ∀ i ∈ indices, i < values.size) :
    (gather values indices).map f = gather (values.map f) indices := by
  rw [gather, gather, Array.map_map]
  apply Array.map_congr_left
  intro i hi
  simp [hrange i hi]

theorem map_scatter (f : A → B) (values : Array A) (indices : Array Nat)
    (replacements : Array A) :
    (scatter values indices replacements).map f =
      scatter (values.map f) indices (replacements.map f) := by
  simp only [scatter, ← Array.foldl_toList, Array.toList_zip, Array.toList_map,
    List.zip_map_right, List.foldl_map]
  induction indices.toList.zip replacements.toList generalizing values with
  | nil => rfl
  | cons step steps ih =>
      rw [List.foldl_cons, List.foldl_cons, ih, Array.map_setIfInBounds]
      rfl

/-- Putting back what was gathered changes nothing. -/
theorem scatter_gather [Inhabited A] {values : Array A} {indices : Array Nat}
    (hrange : ∀ i ∈ indices, i < values.size) :
    scatter values indices (gather values indices) = values := by
  have hsteps : (indices.zip (gather values indices)).toList =
      indices.toList.map fun i => (i, values[i]?.getD default) := by
    rw [Array.toList_zip, gather, Array.toList_map, List.zip_map_right, List.zip_eq_zipWith]
    simp
  have hlist : ∀ i ∈ indices.toList, i < values.size := by
    simpa using hrange
  simp only [scatter, ← Array.foldl_toList, hsteps, List.foldl_map]
  generalize indices.toList = list at hlist ⊢
  induction list with
  | nil => rfl
  | cons i rest ih =>
      obtain ⟨hi, hrest⟩ := List.forall_mem_cons.mp hlist
      have hsame : values.setIfInBounds i (values[i]?.getD default) = values := by
        simp [Array.setIfInBounds, hi]
      rw [List.foldl_cons, hsame]
      exact ih hrest

theorem getElem?_gather [Inhabited A] {values : Array A} {indices : Array Nat} {rank i : Nat}
    (hrank : indices[rank]? = some i) (hi : i < values.size) :
    (gather values indices)[rank]? = values[i]? := by
  simp [gather, hrank, hi]

theorem getElem?_scatter_of_not_mem (values : Array A) {indices : Array Nat}
    (replacements : Array A) {i : Nat} (hi : i ∉ indices) :
    (scatter values indices replacements)[i]? = values[i]? := by
  have hnone : (indices.zip replacements).toList.filter (fun step => step.1 = i) = [] := by
    rw [List.filter_eq_nil_iff]
    intro step hstep heq
    have hmem : step.1 ∈ indices.toList :=
      (List.of_mem_zip (by simpa using hstep)).1
    exact hi (by simpa [of_decide_eq_true heq] using hmem)
  rw [scatter, ← Array.foldl_toList, getElem?_foldl_setIfInBounds _ Prod.fst Prod.snd, hnone]
  simp

theorem getElem?_scatter {values : Array A} {indices : Array Nat} {replacements : Array A}
    {rank i : Nat} (hsize : replacements.size = indices.size) (hnodup : indices.toList.Nodup)
    (hrank : indices[rank]? = some i) (hi : i < values.size) :
    (scatter values indices replacements)[i]? = replacements[rank]? := by
  have hbound : rank < replacements.size := by
    rw [hsize]
    exact (Array.getElem?_eq_some_iff.mp hrank).1
  have hvalue : replacements[rank]? = some replacements[rank] :=
    Array.getElem?_eq_getElem hbound
  have hstep : (i, replacements[rank]) ∈ (indices.zip replacements).toList := by
    rw [Array.toList_zip, List.mem_iff_getElem?]
    exact ⟨rank, by simp [List.getElem?_zip_eq_some, hrank, hbound]⟩
  have hkeys : ((indices.zip replacements).toList.map Prod.fst).Nodup := by
    rw [Array.toList_zip, List.map_fst_zip (by simp [hsize])]
    exact hnodup
  rw [scatter, ← Array.foldl_toList, getElem?_foldl_setIfInBounds _ Prod.fst Prod.snd,
    filter_key_eq Prod.fst hkeys hstep, hvalue]
  simp [hi]

end Transport

/-- The part of the unit interval, of `count` equal parts, that a scalar lies in.
One that is not a number lies in part zero. -/
def part (count : Nat) (scalar : Float32) : Nat :=
  if scalar.isNaN then 0
  else min (Single.clampUnit scalar * Single.ofCount count).toUInt64.toNat (count - 1)

theorem ofScalar_eq_part (count : Nat) (scalar : Float32) :
    ofScalar count scalar = part count scalar := by
  by_cases hnan : scalar.isNaN
  · have hproduct := Single.isNaN_mul_of_isNaN hnan (Single.ofCount count)
    rw [ofScalar, part, Single.clampUnit_of_isNaN hnan, Single.toUInt64_of_isNaN hproduct,
      if_pos hnan]
    rfl
  · rw [ofScalar, part, if_neg hnan]

theorem part_lt {count : Nat} (hcount : 0 < count) (scalar : Float32) :
    part count scalar < count := by
  rw [← ofScalar_eq_part]
  exact ofScalar_lt hcount scalar

/-- The last value below `n`, zero if there is none. -/
def latest (value : Nat → Option Nat) : Nat → Nat
  | 0 => 0
  | n + 1 => (value n).getD (latest value n)

theorem latest_lt {value : Nat → Option Nat} {bound : Nat} (hbound : 0 < bound)
    (h : ∀ i pool, value i = some pool → pool < bound) (n : Nat) :
    latest value n < bound := by
  induction n with
  | zero => exact hbound
  | succ n ih =>
      rw [latest]
      cases hvalue : value n with
      | none => exact ih
      | some pool => exact h n pool hvalue

/-- A vertex without a pool of its own joins the last one before it. -/
theorem foldl_inherit (value : Nat → Option Nat) (size : Nat) :
    ((List.range size).map value).foldl (fun (last, pools) pool =>
      let pool := pool.getD last
      (pool, pools.push pool)) (0, #[]) =
      (latest value size, ((List.range size).map fun i => latest value (i + 1)).toArray) := by
  induction size with
  | zero => rfl
  | succ size ih =>
      rw [List.range_succ, List.map_append, List.foldl_append, ih]
      simp [latest]

theorem inherit_range (value : Nat → Option Nat) (size : Nat) :
    inherit ((List.range size).map value).toArray =
      ((List.range size).map fun i => latest value (i + 1)).toArray := by
  rw [inherit, List.foldl_toArray, foldl_inherit]

/-- The indices below `size` that lie in a pool, in ascending order. -/
def indicesOf (pool : Nat → Nat) (size p : Nat) : Array Nat :=
  ((List.range size).filter fun i => pool i = p).toArray

@[simp] theorem mem_indicesOf {pool : Nat → Nat} {size p i : Nat} :
    i ∈ indicesOf pool size p ↔ i < size ∧ pool i = p := by
  simp [indicesOf]

theorem indicesOf_succ (pool : Nat → Nat) (size p : Nat) :
    indicesOf pool (size + 1) p =
      if pool size = p then (indicesOf pool size p).push size else indicesOf pool size p := by
  by_cases hpool : pool size = p
  · simp [indicesOf, List.range_succ, hpool]
  · simp [indicesOf, List.range_succ, hpool]

theorem nodup_indicesOf (pool : Nat → Nat) (size p : Nat) :
    (indicesOf pool size p).toList.Nodup := by
  exact List.nodup_range.filter _

theorem getElem?_idxOf_indicesOf {pool : Nat → Nat} {size i : Nat} (hi : i < size) :
    (indicesOf pool size (pool i))[(indicesOf pool size (pool i)).idxOf i]? = some i := by
  have hmem : i ∈ (List.range size).filter fun j => pool j = pool i := by
    simp [hi]
  rw [indicesOf, List.idxOf_toArray, List.getElem?_toArray]
  exact List.getElem?_idxOf hmem

theorem foldl_members (pool : Nat → Nat) (count size : Nat) :
    ((List.range size).map pool).foldl (fun (index, lists) pool =>
      (index + 1, lists.modify pool (·.push index))) (0, Array.replicate count #[]) =
      (size, ((List.range count).map fun p => indicesOf pool size p).toArray) := by
  induction size with
  | zero =>
      simp [indicesOf, List.map_const']
  | succ size ih =>
      rw [List.range_succ, List.map_append, List.foldl_append, ih]
      simp only [List.map_cons, List.map_nil, List.foldl_cons, List.foldl_nil]
      congr 1
      apply Array.ext
      · simp
      · intro p hp hp'
        rw [Array.getElem_modify]
        simp [indicesOf_succ]

theorem members_range (pool : Nat → Nat) (count size : Nat) :
    members ((List.range size).map pool).toArray count =
      ((List.range count).map fun p => indicesOf pool size p).toArray := by
  rw [members, List.foldl_toArray, foldl_members]

/-- The pools that scalars give: a vertex with scalars lies in that of the last one
it has, any other in that of the nearest one before. -/
theorem ofScalars_eq (count size : Nat) (scalars : List (Nat × Float32)) :
    ofScalars count size scalars = ((List.range size).map fun i =>
      latest (fun j => (scalars.filter fun step => step.1 = j).getLast?.map
        fun step => part count step.2) (i + 1)).toArray := by
  rw [ofScalars, ← inherit_range]
  simp only [ofScalar_eq_part]
  congr 1
  apply Array.ext_getElem?
  intro i
  rw [getElem?_foldl_setIfInBounds scalars Prod.fst fun step => some (part count step.2)]
  by_cases hi : i < size
  · simp only [List.getElem?_toArray, List.getElem?_map, List.getElem?_range hi,
      Array.getElem?_replicate, hi, ↓reduceIte, Option.map_some]
    cases (scalars.filter fun step => step.1 = i).getLast? with
    | none => rfl
    | some step => rfl
  · simp [hi]

end Pools

end LineGrammar
