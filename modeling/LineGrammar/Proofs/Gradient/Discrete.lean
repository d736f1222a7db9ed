/-
Histories of gradients in steps.  Whatever keys are inserted, removed and recolored, they
lie at ascending numbers from zero up, none beyond the longest palette, and the palette is
the one that they span.  Such a gradient is made anew from its own keys without a change.
-/
import LineGrammar.Gradient.Discrete
import Mathlib.Data.List.Nodup

namespace LineGrammar

namespace DiscreteGradient

inductive Operation where
  | insertKey (color : Color) (index : Nat)
  | removeKey (slot : Nat)
  | setColor (slot : Nat) (color : Color)

def Operation.change : Operation → Change DiscreteGradient Unit
  | .insertKey color index => DiscreteGradient.insertKey color index
  | .removeKey slot => do
      let _ ← DiscreteGradient.removeKey slot
      return
  | .setColor slot color => DiscreteGradient.setColor slot color

/-- The gradient after a change, whatever came of it. -/
def perform (gradient : DiscreteGradient) (operation : Operation) : DiscreteGradient :=
  operation.change.after gradient

/-- What comes of a change: nothing more to say, or the fault for which it is refused. -/
def attempt (gradient : DiscreteGradient) (operation : Operation) : Except Fault Unit :=
  operation.change.outcome gradient

/-- The gradients that come about.  Those from colors and those that are read are made from
keys too. -/
inductive Reachable : DiscreteGradient → Prop
  | ofKeys {keys : List DiscreteKey} {gradient : DiscreteGradient}
      (h : ofKeys keys = .ok gradient) : Reachable gradient
  | perform {gradient : DiscreteGradient} (operation : Operation) (h : Reachable gradient) :
      Reachable (gradient.perform operation)

/-- Indices that ascend from zero and do not go beyond the longest palette. -/
structure Proper (indices : List Nat) : Prop where
  head : indices.head? = some 0
  ascending : indices.Pairwise (· < ·)
  bounded : ∀ index ∈ indices, index ≤ largestPaletteIndex

/-- Keys that lie above each other stay where they are. -/
theorem spread_of_ascending {previous : Nat} {keys : List DiscreteKey}
    (h : (previous :: keys.map (·.index)).Pairwise (· < ·)) : spread previous keys = .ok keys := by
  induction keys generalizing previous with
  | nil => rfl
  | cons key rest ih =>
      rw [List.map_cons, List.pairwise_cons] at h
      have hlt : previous < key.index := h.1 key.index List.mem_cons_self
      rw [spread, if_neg (Nat.not_le_of_lt hlt)]
      change (do return { key with index := key.index } :: (← spread key.index rest)) = _
      rw [ih h.2]
      rfl

/-- A key is moved behind the one before it, which only happens to one that is not there
yet, and the others follow. -/
theorem spread_cons_eq_ok {previous : Nat} {key : DiscreteKey} {rest keys : List DiscreteKey}
    (h : spread previous (key :: rest) = .ok keys) :
    ∃ index rest', previous < index ∧ spread index rest = .ok rest' ∧
      keys = { key with index } :: rest' := by
  have hstep : ∃ index, previous < index ∧
      (do return { key with index } :: (← spread index rest)) = .ok keys := by
    rw [spread] at h
    split at h
    · obtain ⟨index, hindex, h⟩ := (bind_eq_ok_iff _ _ _).mp h
      unfold bump at hindex
      split at hindex
      · obtain rfl := Except.ok.inj hindex
        exact ⟨previous + 1, Nat.lt_succ_self previous, h⟩
      · cases hindex
    · next hlt => exact ⟨key.index, Nat.lt_of_not_le hlt, h⟩
  obtain ⟨index, hlt, h⟩ := hstep
  obtain ⟨rest', hrest, h⟩ := (bind_eq_ok_iff _ _ _).mp h
  exact ⟨index, rest', hlt, hrest, (Except.ok.inj h).symm⟩

theorem spread_eq_ok {previous : Nat} {keys keys' : List DiscreteKey}
    (h : spread previous keys = .ok keys') :
    keys'.length = keys.length ∧ (previous :: keys'.map (·.index)).Pairwise (· < ·) := by
  induction keys generalizing previous keys' with
  | nil =>
      obtain rfl := Except.ok.inj h
      exact ⟨rfl, List.pairwise_singleton _ _⟩
  | cons key rest ih =>
      obtain ⟨index, rest', hlt, hrest, rfl⟩ := spread_cons_eq_ok h
      obtain ⟨hlength, hascending⟩ := ih hrest
      refine ⟨congrArg (· + 1) hlength, List.pairwise_cons.mpr ⟨?_, hascending⟩⟩
      intro other hother
      rcases List.mem_cons.mp hother with rfl | hother
      · exact hlt
      · exact Nat.lt_trans hlt ((List.pairwise_cons.mp hascending).1 other hother)

theorem checkLast_eq_ok_iff (keys keys' : List DiscreteKey) :
    checkLast keys = .ok keys' ↔
      keys' = keys ∧ ∀ last ∈ keys.getLast?, last.index ≤ largestPaletteIndex := by
  unfold checkLast
  cases keys.getLast? with
  | none => simp [eq_comm]
  | some last =>
      simp only [Option.mem_some_iff, forall_eq']
      split
      · next hlarge => simp [Nat.not_le_of_lt hlarge]
      · next hle => simp [Nat.le_of_not_lt hle, eq_comm]

/-- Nothing is further up than the last one of what ascends. -/
theorem le_last {indices : List Nat} {last : Nat} (h : indices.Pairwise (· < ·))
    (hlast : indices.getLast? = some last) : ∀ index ∈ indices, index ≤ last := by
  obtain ⟨before, rfl⟩ := List.getLast?_eq_some_iff.mp hlast
  rw [List.pairwise_append] at h
  intro index hindex
  rcases List.mem_append.mp hindex with hindex | hindex
  · exact Nat.le_of_lt (h.2.2 index hindex last List.mem_cons_self)
  · exact Nat.le_of_eq (List.mem_singleton.mp hindex)

/-- Keys at ascending indices are as bounded as the last one is. -/
theorem bounded_of_last {keys : List DiscreteKey} {bound : Nat}
    (hascending : (keys.map (·.index)).Pairwise (· < ·))
    (hlast : ∀ last ∈ keys.getLast?, last.index ≤ bound) :
    ∀ index ∈ keys.map (·.index), index ≤ bound := by
  intro index hindex
  have hkeys : keys ≠ [] := by
    rintro rfl
    cases hindex
  have hend := List.getLast?_eq_some_getLast hkeys
  have hend' : (keys.map (·.index)).getLast? = some (keys.getLast hkeys).index := by
    rw [List.getLast?_map, hend, Option.map_some]
  exact Nat.le_trans (le_last hascending hend' index hindex) (hlast _ hend)

/-- Keys that are put in order come to lie at proper indices. -/
theorem normalize_eq_ok {keys keys' : List DiscreteKey} (htwo : 2 ≤ keys.length)
    (h : normalize keys = .ok keys') :
    2 ≤ keys'.length ∧ Proper (keys'.map (·.index)) := by
  have hlength : (inOrder keys).length = keys.length := Sorting.length_sort _ keys
  unfold normalize at h
  cases hkeys : inOrder keys with
  | nil =>
      rw [hkeys, List.length_nil] at hlength
      omega
  | cons first rest =>
      simp only [hkeys] at h
      obtain ⟨rest', hrest, h⟩ := (bind_eq_ok_iff _ _ _).mp h
      obtain ⟨rfl, hlast⟩ := (checkLast_eq_ok_iff _ _).mp h
      obtain ⟨hrestLength, hascending⟩ := spread_eq_ok hrest
      refine ⟨?_, rfl, hascending, bounded_of_last hascending hlast⟩
      rw [hkeys, List.length_cons] at hlength
      rw [List.length_cons, hrestLength]
      omega

/-- Keys that lie above each other are what putting them in order leads to. -/
theorem inOrder_eq_of_perm {given keys : List DiscreteKey} (hperm : given.Perm keys)
    (hascending : (keys.map (·.index)).Pairwise (· < ·)) : inOrder given = keys := by
  have hlt : keys.Pairwise fun a b => a.index < b.index := List.pairwise_map.mp hascending
  have hkeys : keys.Pairwise fun a b => decide (a.index ≤ b.index) = true :=
    hlt.imp fun h => decide_eq_true (Nat.le_of_lt h)
  have hsorted : (inOrder given).Pairwise fun a b => decide (a.index ≤ b.index) = true :=
    Sorting.sort_pairwise (by simp only [decide_eq_true_eq]; omega)
      (by simp only [decide_eq_true_eq]; omega) given
  have hsame : (inOrder given).Perm keys := (Sorting.sort_perm _ given).trans hperm
  refine hsame.eq_of_pairwise ?_ hsorted hkeys
  -- No two keys share an index, so their order leaves no choice.
  intro a b ha hb hab hba
  have hindex : a.index = b.index :=
    Nat.le_antisymm (of_decide_eq_true hab) (of_decide_eq_true hba)
  exact List.inj_on_of_nodup_map (hascending.imp Nat.ne_of_lt) (hsame.mem_iff.mp ha) hb hindex

/-- Of keys that lie above each other from zero up, nothing but the last one is looked at. -/
theorem normalize_eq_checkLast {given keys : List DiscreteKey} (hperm : given.Perm keys)
    (hhead : (keys.map (·.index)).head? = some 0)
    (hascending : (keys.map (·.index)).Pairwise (· < ·)) : normalize given = checkLast keys := by
  rw [normalize, inOrder_eq_of_perm hperm hascending]
  cases keys with
  | nil => rfl
  | cons first rest =>
      rw [List.map_cons, List.head?_cons, Option.some_inj] at hhead
      rw [List.map_cons, hhead] at hascending
      have hfirst : { first with index := 0 } = first := by
        rw [← hhead]
      change (do checkLast ({ first with index := 0 } :: (← spread 0 rest))) = _
      rw [spread_of_ascending hascending, hfirst]
      rfl

/-- Keys at proper indices are in order already. -/
theorem normalize_of_proper {keys : List DiscreteKey} (h : Proper (keys.map (·.index))) :
    normalize keys = .ok keys := by
  rw [normalize_eq_checkLast (.refl keys) h.head h.ascending, checkLast_eq_ok_iff]
  refine ⟨rfl, fun last hlast => ?_⟩
  exact h.bounded _ (List.mem_map_of_mem (List.mem_of_getLast? hlast))

theorem ofKeys_eq_ok_iff (keys : List DiscreteKey) (gradient : DiscreteGradient) :
    ofKeys keys = .ok gradient ↔
      2 ≤ keys.length ∧ ∃ keys', normalize keys = .ok keys' ∧ withKeys keys' = gradient := by
  unfold ofKeys
  split
  · next hlength => simp [Nat.not_le_of_lt hlength]
  · next hlength =>
      cases normalize keys <;> simp [Except.map, Nat.le_of_not_lt hlength]

theorem length_of_mapM_eq_ok {A B E : Type} {f : A → Except E B} {list : List A}
    {list' : List B} (h : list.mapM f = .ok list') : list'.length = list.length := by
  induction list generalizing list' with
  | nil =>
      obtain rfl := Except.ok.inj h
      rfl
  | cons x rest ih =>
      rw [List.mapM_cons] at h
      obtain ⟨y, -, h⟩ := (bind_eq_ok_iff _ _ _).mp h
      obtain ⟨rest', hrest, h⟩ := (bind_eq_ok_iff _ _ _).mp h
      obtain rfl := Except.ok.inj h
      rw [List.length_cons, List.length_cons, ih hrest]

theorem length_of_vacate_eq_ok {index : Nat} {keys copy : List DiscreteKey}
    (h : vacate index keys = .ok copy) : copy.length = keys.length := by
  unfold vacate at h
  split at h
  · exact length_of_mapM_eq_ok h
  · rw [Except.ok.inj h]

/-- The keys with another one, before any of this is written to a gradient. -/
def insert (color : Color) (index : Nat) (keys : List DiscreteKey) :
    Except Fault (List DiscreteKey) := do
  let copy ← vacate index keys
  normalize (copy ++ [⟨color, index⟩])

/-- The key in a slot and the others, before any of this is written to a gradient. -/
def remove (slot : Nat) (keys : List DiscreteKey) :
    Except Fault (DiscreteKey × List DiscreteKey) := do
  let key ← Keys.inSlot keys slot
  Keys.checkSpare keys
  return (key, ← normalize (keys.eraseIdx slot))

section Run

variable (gradient : DiscreteGradient) (color : Color) (index slot : Nat)

/-- All that may fail comes before the first write. -/
theorem run_insertKey :
    (insertKey color index).run.run gradient =
      match insert color index gradient.keys with
      | .error fault => (.error fault, gradient)
      | .ok keys => (.ok (), withKeys keys) := by
  simp only [insertKey, insert, Change.run_get_bind, Change.run_liftM_bind]
  cases vacate index gradient.keys with
  | error fault => rfl
  | ok copy =>
      dsimp only [bind, Except.bind]
      cases normalize (copy ++ [⟨color, index⟩]) <;> rfl

theorem run_removeKey :
    (removeKey slot).run.run gradient =
      match remove slot gradient.keys with
      | .error fault => (.error fault, gradient)
      | .ok (key, keys) => (.ok key, withKeys keys) := by
  simp only [removeKey, remove, Change.run_get_bind, Change.run_liftM_bind]
  cases Keys.inSlot gradient.keys slot with
  | error fault => rfl
  | ok key =>
      cases Keys.checkSpare gradient.keys with
      | error fault => rfl
      | ok spare => cases normalize (gradient.keys.eraseIdx slot) <;> rfl

theorem run_setColor :
    (setColor slot color).run.run gradient =
      match Keys.inSlot gradient.keys slot with
      | .error fault => (.error fault, gradient)
      | .ok key => (.ok (), withKeys (gradient.keys.set slot { key with color })) := by
  rw [setColor, Change.run_get_bind, Change.run_liftM_bind]
  cases Keys.inSlot gradient.keys slot <;> rfl

end Run

theorem insert_eq_ok {color : Color} {index : Nat} {given keys : List DiscreteKey}
    (h : insert color index given = .ok keys) :
    ∃ moved : List DiscreteKey, moved.length = given.length + 1 ∧ normalize moved = .ok keys := by
  obtain ⟨copy, hcopy, h⟩ := (bind_eq_ok_iff _ _ _).mp h
  refine ⟨_, ?_, h⟩
  rw [List.length_append, length_of_vacate_eq_ok hcopy, List.length_singleton]

theorem remove_eq_ok {slot : Nat} {given keys : List DiscreteKey} {key : DiscreteKey}
    (h : remove slot given = .ok (key, keys)) :
    ∃ left : List DiscreteKey, 2 ≤ left.length ∧ normalize left = .ok keys := by
  obtain ⟨removed, hslot, h⟩ := (bind_eq_ok_iff _ _ _).mp h
  obtain ⟨spare, hspare, h⟩ := (bind_eq_ok_iff _ _ _).mp h
  obtain ⟨keys', hkeys, h⟩ := (bind_eq_ok_iff _ _ _).mp h
  obtain ⟨-, rfl⟩ := Prod.mk.inj (Except.ok.inj h)
  have hlt := (List.getElem?_eq_some_iff.mp ((Keys.inSlot_eq_ok_iff _ _ _).mp hslot)).1
  have hmany := (Keys.checkSpare_eq_ok_iff given).mp hspare
  refine ⟨_, ?_, hkeys⟩
  rw [List.length_eraseIdx_of_lt hlt]
  omega

/-- What may come of a change.  It is refused and nothing is written, or the gradient has the
palette of keys at the indices at hand or of keys that have been put in order. -/
theorem perform_cases (gradient : DiscreteGradient) (operation : Operation)
    (htwo : 2 ≤ gradient.keys.length) :
    (∃ fault, gradient.attempt operation = .error fault) ∧
        gradient.perform operation = gradient ∨
      gradient.attempt operation = .ok () ∧ ∃ keys, gradient.perform operation = withKeys keys ∧
        (keys.map (·.index) = gradient.keys.map (·.index) ∨
          ∃ given, 2 ≤ given.length ∧ normalize given = .ok keys) := by
  unfold attempt perform Change.outcome Change.after
  cases operation with
  | insertKey color index =>
      rw [Operation.change, run_insertKey]
      cases h : insert color index gradient.keys with
      | error fault => exact .inl ⟨⟨fault, rfl⟩, rfl⟩
      | ok keys =>
          obtain ⟨moved, hlength, hkeys⟩ := insert_eq_ok h
          exact .inr ⟨rfl, keys, rfl, .inr ⟨moved, by omega, hkeys⟩⟩
  | removeKey slot =>
      rw [Operation.change, Change.run_bind, run_removeKey]
      cases h : remove slot gradient.keys with
      | error fault => exact .inl ⟨⟨fault, rfl⟩, rfl⟩
      | ok removed =>
          exact .inr ⟨rfl, removed.2, rfl, .inr (remove_eq_ok h)⟩
  | setColor slot color =>
      rw [Operation.change, run_setColor]
      cases h : Keys.inSlot gradient.keys slot with
      | error fault => exact .inl ⟨⟨fault, rfl⟩, rfl⟩
      | ok key =>
          have hslot := (Keys.inSlot_eq_ok_iff _ _ _).mp h
          have hindices := Keys.map_set_of_getElem? (·.index) hslot { key with color } rfl
          exact .inr ⟨rfl, _, rfl, .inl hindices⟩

/-- A change that is refused has not written anything. -/
theorem perform_of_refused {gradient : DiscreteGradient} {operation : Operation} {fault : Fault}
    (htwo : 2 ≤ gradient.keys.length) (h : gradient.attempt operation = .error fault) :
    gradient.perform operation = gradient := by
  rcases perform_cases gradient operation htwo with ⟨-, hsame⟩ | ⟨hdone, -⟩
  · exact hsame
  · rw [hdone] at h
    cases h

/-- There are always two keys, at proper indices, and the palette is theirs. -/
theorem Reachable.proper {gradient : DiscreteGradient} (h : Reachable gradient) :
    2 ≤ gradient.keys.length ∧ Proper (gradient.keys.map (·.index)) ∧
      withKeys gradient.keys = gradient := by
  induction h with
  | @ofKeys keys gradient h =>
      obtain ⟨htwo, keys', hkeys, rfl⟩ := (ofKeys_eq_ok_iff _ _).mp h
      obtain ⟨htwo', hproper⟩ := normalize_eq_ok htwo hkeys
      exact ⟨htwo', hproper, rfl⟩
  | @perform gradient operation h ih =>
      obtain ⟨htwo, hproper, hkeys⟩ := ih
      rcases perform_cases gradient operation htwo with
        ⟨-, hsame⟩ | ⟨-, keys, hperform, hindices | ⟨given, hgiven, hnormalize⟩⟩
      · rw [hsame]
        exact ⟨htwo, hproper, hkeys⟩
      · rw [hperform]
        have hlength := congrArg List.length hindices
        rw [List.length_map, List.length_map] at hlength
        refine ⟨?_, ?_, rfl⟩
        · change 2 ≤ keys.length
          omega
        · change Proper (keys.map (·.index))
          rwa [hindices]
      · rw [hperform]
        obtain ⟨htwo', hproper'⟩ := normalize_eq_ok hgiven hnormalize
        exact ⟨htwo', hproper', rfl⟩

/-- A gradient is the same again, with its palette, when it is made from its own keys. -/
theorem Reachable.ofKeys_keys {gradient : DiscreteGradient} (h : Reachable gradient) :
    DiscreteGradient.ofKeys gradient.keys = .ok gradient := by
  obtain ⟨htwo, hproper, hkeys⟩ := h.proper
  exact (ofKeys_eq_ok_iff _ _).mpr ⟨htwo, _, normalize_of_proper hproper, hkeys⟩

end DiscreteGradient

end LineGrammar
