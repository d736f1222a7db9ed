/-
Pools: dividing the vertices of a drawing among several painters, and putting
what they painted back in place.
-/
import LineGrammar.Painter.Shade

namespace LineGrammar

namespace Pools

/-- The pool of a scalar, of `count` equal parts of the unit interval. -/
def ofScalar (count : Nat) (scalar : Float32) : Nat :=
  min (Single.clampUnit scalar * Single.ofCount count).toUInt64.toNat (count - 1)

/-- Fill in the pool of the nearest vertex before, or pool zero at the start. -/
def inherit (recorded : Array (Option Nat)) : Array Nat :=
  (recorded.foldl (fun (last, pools) pool =>
    let pool := pool.getD last
    (pool, pools.push pool)) (0, #[])).2

/-- The pool of each of `size` vertices, given scalars for some of them. -/
def ofScalars (count size : Nat) (scalars : List (Nat × Float32)) : Array Nat :=
  inherit (scalars.foldl (fun recorded (index, scalar) =>
    recorded.setIfInBounds index (some (ofScalar count scalar))) (Array.replicate size none))

/-- The indices of each of `count` pools, in ascending order.  Whatever lies in
none of them is left out. -/
def members (pools : Array Nat) (count : Nat) : Array (Array Nat) :=
  (pools.foldl (fun (index, lists) pool =>
    (index + 1, lists.modify pool (·.push index))) (0, Array.replicate count #[])).2

/-- The greatest number of pools that memory can hold, at 24 bytes to a pool. -/
def maxCount : Nat := 0x7fffffffffffffff / 24

/-- The indices of each of `count` pools, if every index lies in one. -/
def partition? (pools : Array Nat) (count : Nat) : Option (Array (Array Nat)) :=
  if count ≤ maxCount ∧ pools.all (· < count) then some (members pools count) else none

/-- The values at some indices. -/
def gather {A : Type} [Inhabited A] (values : Array A) (indices : Array Nat) : Array A :=
  indices.map fun index => values[index]?.getD default

/-- Put values back where they were gathered. -/
def scatter {A : Type} (values : Array A) (indices : Array Nat) (replacements : Array A) :
    Array A :=
  (indices.zip replacements).foldl
    (fun values (index, replacement) => values.setIfInBounds index replacement) values

theorem ofScalar_lt {count : Nat} (h : 0 < count) (scalar : Float32) :
    ofScalar count scalar < count := by
  unfold ofScalar
  omega

@[simp] theorem size_gather {A : Type} [Inhabited A] (values : Array A) (indices : Array Nat) :
    (gather values indices).size = indices.size := by
  simp [gather]

theorem size_foldl_setIfInBounds {A B : Type} (steps : List B) (index : B → Nat)
    (value : B → A) (values : Array A) :
    (steps.foldl (fun values step => values.setIfInBounds (index step) (value step))
      values).size = values.size := by
  induction steps generalizing values with
  | nil => rfl
  | cons step steps ih => rw [List.foldl_cons, ih, Array.size_setIfInBounds]

@[simp] theorem size_scatter {A : Type} (values : Array A) (indices : Array Nat)
    (replacements : Array A) : (scatter values indices replacements).size = values.size := by
  unfold scatter
  rw [← Array.foldl_toList]
  exact size_foldl_setIfInBounds (indices.zip replacements).toList Prod.fst Prod.snd values

example : partition? #[2, 0, 1, 2, 2, 0] 4 = some #[#[1, 5], #[2], #[0, 3, 4], #[]] := by
  decide +kernel

end Pools

end LineGrammar
