/-
Searches for the place in a list where a condition ends.
-/

namespace LineGrammar

/-- A place at which a search may end: the condition holds right before it, if anything is
there, and does not hold at it. -/
structure SearchEnd {A : Type} (p : A → Bool) (list : List A) (place : Nat) : Prop where
  before : place = 0 ∨ ∃ x, list[place - 1]? = some x ∧ p x = true
  after : place = list.length ∨ ∃ x, list[place]? = some x ∧ p x = false

/-- A search that may go through a list as it likes.  Where a condition ends more than once,
it may end at any of these places. -/
structure Search (A : Type) where
  find : (A → Bool) → List A → Nat
  ends (p : A → Bool) (list : List A) : SearchEnd p list (find p list)

namespace Search

variable {A : Type} {p : A → Bool} {list : List A}

/-- Halve the part of a list between two places until nothing is left of it. -/
def halve (p : A → Bool) (list : List A) (left right : Nat) : Nat :=
  if left < right then
    let middle := left + (right - left) / 2
    if list[middle]?.any p then halve p list (middle + 1) right else halve p list left middle
  else left
termination_by right - left

/-- Each half is left out in which a search need not end. -/
theorem searchEnd_halve {left right : Nat} (hle : left ≤ right)
    (hbefore : left = 0 ∨ ∃ x, list[left - 1]? = some x ∧ p x = true)
    (hafter : right = list.length ∨ ∃ x, list[right]? = some x ∧ p x = false) :
    SearchEnd p list (halve p list left right) := by
  have hright : right ≤ list.length := by
    rcases hafter with hend | ⟨x, hx, -⟩
    · exact Nat.le_of_eq hend
    · exact Nat.le_of_lt (List.getElem?_eq_some_iff.mp hx).1
  fun_induction halve p list left right with
  | case1 left right hlt middle hholds ih =>
      have hmiddle : middle < right := by omega
      have hsome := List.getElem?_eq_getElem (Nat.lt_of_lt_of_le hmiddle hright)
      rw [hsome, Option.any_some] at hholds
      exact ih hmiddle (.inr ⟨_, hsome, hholds⟩) hafter hright
  | case2 left right hlt middle hfails ih =>
      have hmiddle : middle < right := by omega
      have hsome := List.getElem?_eq_getElem (Nat.lt_of_lt_of_le hmiddle hright)
      rw [hsome, Option.any_some, Bool.not_eq_true] at hfails
      exact ih (Nat.le_add_right _ _) hbefore (.inr ⟨_, hsome, hfails⟩) (by omega)
  | case3 left right hend =>
      obtain rfl : left = right := Nat.le_antisymm hle (Nat.le_of_not_lt hend)
      exact ⟨hbefore, hafter⟩

/-- The search that halves a list. -/
def halving : Search A where
  find p list := halve p list 0 list.length
  ends _ _ := searchEnd_halve (Nat.zero_le _) (.inl rfl) (.inl rfl)

example : halving.find (fun n => n < 5) [1, 2, 3, 6, 7] = 3 := by decide +kernel

end Search

end LineGrammar
