/-
Stable sorting by insertion.  Sorting a list that is nearly in order takes about
one comparison for each element.
-/

namespace LineGrammar

namespace Sorting

variable {A : Type u}

/-- Insert an element before the first one that it may precede. -/
def insert (le : A → A → Bool) (x : A) : List A → List A
  | [] => [x]
  | y :: rest => if le x y then x :: y :: rest else y :: insert le x rest

/-- The elements of a list in ascending order, equal ones as they were. -/
def sort (le : A → A → Bool) : List A → List A
  | [] => []
  | x :: rest => insert le x (sort le rest)

theorem insert_perm (le : A → A → Bool) (x : A) (list : List A) :
    (insert le x list).Perm (x :: list) := by
  induction list with
  | nil => exact .rfl
  | cons y rest ih =>
      simp only [insert]
      split
      · exact .rfl
      · exact (ih.cons y).trans (.swap x y rest)

/-- Sorting loses nothing and adds nothing. -/
theorem sort_perm (le : A → A → Bool) (list : List A) : (sort le list).Perm list := by
  induction list with
  | nil => exact .rfl
  | cons x rest ih => exact (insert_perm le x (sort le rest)).trans (ih.cons x)

@[simp] theorem length_sort (le : A → A → Bool) (list : List A) :
    (sort le list).length = list.length :=
  (sort_perm le list).length_eq

theorem insert_pairwise {le : A → A → Bool}
    (htrans : ∀ a b c, le a b = true → le b c = true → le a c = true)
    (htotal : ∀ a b, le a b = true ∨ le b a = true) (x : A) {list : List A}
    (h : list.Pairwise (fun a b => le a b = true)) :
    (insert le x list).Pairwise (fun a b => le a b = true) := by
  induction list with
  | nil => simp [insert]
  | cons y rest ih =>
      have hrest := List.pairwise_cons.mp h
      simp only [insert]
      split
      · next hle =>
          refine List.pairwise_cons.mpr ⟨fun z hz => ?_, h⟩
          rcases List.mem_cons.mp hz with rfl | hz
          · exact hle
          · exact htrans x y z hle (hrest.1 z hz)
      · next hnot =>
          refine List.pairwise_cons.mpr ⟨fun z hz => ?_, ih hrest.2⟩
          rcases List.mem_cons.mp ((insert_perm le x rest).mem_iff.mp hz) with rfl | hz
          · exact (htotal z y).resolve_left hnot
          · exact hrest.1 z hz

theorem sort_pairwise {le : A → A → Bool}
    (htrans : ∀ a b c, le a b = true → le b c = true → le a c = true)
    (htotal : ∀ a b, le a b = true ∨ le b a = true) (list : List A) :
    (sort le list).Pairwise (fun a b => le a b = true) := by
  induction list with
  | nil => exact .nil
  | cons x rest ih => exact insert_pairwise htrans htotal x ih

/-- A list in order is left as it is. -/
theorem sort_of_pairwise {le : A → A → Bool} {list : List A}
    (h : list.Pairwise (fun a b => le a b = true)) : sort le list = list := by
  induction list with
  | nil => rfl
  | cons x rest ih =>
      have hrest := List.pairwise_cons.mp h
      rw [sort, ih hrest.2]
      cases rest with
      | nil => rfl
      | cons y rest => rw [insert, if_pos (hrest.1 y List.mem_cons_self)]

theorem insert_append {le : A → A → Bool} {x : A} (list : List A) {later : List A}
    (h : ∀ y ∈ later, le x y = true) :
    insert le x (list ++ later) = insert le x list ++ later := by
  induction list with
  | nil =>
      cases later with
      | nil => rfl
      | cons y rest => exact if_pos (h y List.mem_cons_self)
  | cons y rest ih =>
      simp only [List.cons_append, insert]
      split
      · rfl
      · rw [ih, List.cons_append]

/-- Elements in order that all others may precede stay at the end. -/
theorem sort_append {le : A → A → Bool} (list : List A) {later : List A}
    (hlater : later.Pairwise (fun a b => le a b = true))
    (h : ∀ x ∈ list, ∀ y ∈ later, le x y = true) :
    sort le (list ++ later) = sort le list ++ later := by
  induction list with
  | nil => exact sort_of_pairwise hlater
  | cons x rest ih =>
      rw [List.cons_append, sort, sort, ih fun y hy => h y (List.mem_cons_of_mem x hy)]
      exact insert_append _ (h x List.mem_cons_self)

theorem filter_insert {le : A → A → Bool} {p : A → Bool} {x : A} {list : List A}
    (h : p x = true → ∀ y ∈ list, p y = true → le x y = true) :
    (insert le x list).filter p = (x :: list).filter p := by
  induction list with
  | nil => rfl
  | cons y rest ih =>
      have hrest := ih fun hx z hz => h hx z (List.mem_cons_of_mem y hz)
      simp only [insert]
      split
      · rfl
      · next hnot =>
          rw [List.filter_cons, hrest, List.filter_cons, List.filter_cons, List.filter_cons]
          -- An element that stays behind `y` cannot share the property with it.
          by_cases hx : p x = true
          · have hy : ¬ p y = true := fun hy => hnot (h hx y List.mem_cons_self hy)
            simp [hx, hy]
          · simp [hx]

/-- Elements of which any may precede any other keep their order. -/
theorem filter_sort {le : A → A → Bool} {p : A → Bool} {list : List A}
    (h : ∀ x ∈ list, ∀ y ∈ list, p x = true → p y = true → le x y = true) :
    (sort le list).filter p = list.filter p := by
  induction list with
  | nil => rfl
  | cons x rest ih =>
      have hrest : (sort le rest).filter p = rest.filter p :=
        ih fun y hy z hz => h y (List.mem_cons_of_mem x hy) z (List.mem_cons_of_mem x hz)
      have hx : p x = true → ∀ y ∈ sort le rest, p y = true → le x y = true := by
        intro hx y hy
        have hmem := (sort_perm le rest).mem_iff.mp hy
        exact h x List.mem_cons_self y (List.mem_cons_of_mem x hmem) hx
      rw [sort, filter_insert hx, List.filter_cons, List.filter_cons, hrest]

/-- A list splits in two where a property ends. -/
theorem filter_append_filter_not {p : A → Bool} {list : List A}
    (h : list.Pairwise fun a b => p b = true → p a = true) :
    list.filter p ++ list.filter (fun a => !p a) = list := by
  induction list with
  | nil => rfl
  | cons x rest ih =>
      rw [List.pairwise_cons] at h
      by_cases hx : p x = true
      · simpa [hx] using ih h.2
      · have hrest : ∀ y ∈ rest, ¬ p y = true := fun y hy hpy => hx (h.1 y hy hpy)
        have hnone : rest.filter p = [] := List.filter_eq_nil_iff.mpr hrest
        have hall : rest.filter (fun a => !p a) = rest :=
          List.filter_eq_self.mpr fun y hy => by simpa using hrest y hy
        simp [hx, hnone, hall]

end Sorting

end LineGrammar
