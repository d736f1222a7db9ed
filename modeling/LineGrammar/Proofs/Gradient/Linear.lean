/-
Histories of interpolating gradients.  However keys are added, removed, recolored and moved,
a gradient in which every position is a number lies between its ends: its positions ascend
from zero to one.
-/
import LineGrammar.Gradient.Linear
import LineGrammar.Proofs.Gradient.Position

namespace LineGrammar

namespace LinearGradient

inductive Operation where
  | addKey (color : Color) (position : Position)
  | removeKey (slot : Nat)
  | setColor (slot : Nat) (color : Color)
  | setPosition (slot : Nat) (position : Position)

namespace Operation

def position? : Operation → Option Position
  | addKey _ position | setPosition _ position => some position
  | removeKey _ | setColor _ _ => none

def change : Operation → Change LinearGradient Unit
  | addKey color position => modify fun gradient => gradient.addKey color position
  | removeKey slot => do
      let _ ← LinearGradient.removeKey slot
      return
  | setColor slot color => LinearGradient.setColor slot color
  | setPosition slot position => LinearGradient.setPosition slot position

end Operation

/-- The gradient after a change, whatever came of it. -/
def perform (gradient : LinearGradient) (operation : Operation) : LinearGradient :=
  operation.change.after gradient

/-- What comes of a change: nothing more to say, or the fault for which it is refused. -/
def attempt (gradient : LinearGradient) (operation : Operation) : Except Fault Unit :=
  operation.change.outcome gradient

/-- The gradients that come about, with positions of some kind being passed to them. -/
inductive Reachable (allowed : Position → Prop) : LinearGradient → Prop
  | between (first last : Color) : Reachable allowed (between first last)
  | ofKeys {keys : List LinearKey} {gradient : LinearGradient}
      (hallowed : ∀ key ∈ keys, allowed key.position) (h : ofKeys keys = .ok gradient) :
      Reachable allowed gradient
  | perform {gradient : LinearGradient} (operation : Operation)
      (hallowed : ∀ position ∈ operation.position?, allowed position)
      (h : Reachable allowed gradient) : Reachable allowed (gradient.perform operation)

def positions (gradient : LinearGradient) : List Float32 :=
  gradient.keys.map (·.position.value)

/-- Positions ascend from zero to one. -/
structure Proper (gradient : LinearGradient) : Prop where
  two_le : 2 ≤ gradient.positions.length
  within : ∀ position ∈ gradient.positions, 0 ≤ position ∧ position ≤ 1
  ascending : gradient.positions.Pairwise (· ≤ ·)
  head : gradient.positions.head? = some 0
  last : gradient.positions.getLast? = some 1

theorem ofKeys_eq_ok_iff (keys : List LinearKey) (gradient : LinearGradient) :
    ofKeys keys = .ok gradient ↔ 2 ≤ keys.length ∧ normalize keys = gradient := by
  unfold ofKeys
  split
  · next hlength => simp [Nat.not_le_of_lt hlength]
  · next hlength => simp [Nat.le_of_not_lt hlength]

theorem endAtOne_append (keys : List LinearKey) (last : LinearKey) :
    endAtOne (keys ++ [last]) = keys ++ [⟨last.color, 1⟩] := by
  induction keys with
  | nil => rfl
  | cons key rest ih =>
      cases rest with
      | nil => rfl
      | cons next rest => exact congrArg (key :: ·) ih

/-- At least two keys have a first and a last one. -/
theorem exists_ends {keys : List LinearKey} (h : 2 ≤ keys.length) :
    ∃ first middle last, keys = first :: (middle ++ [last]) := by
  match keys, h with
  | first :: next :: rest, _ =>
      exact ⟨first, (next :: rest).dropLast, (next :: rest).getLast (by simp), by
        rw [List.dropLast_concat_getLast]⟩

theorem keys_normalize {keys : List LinearKey} {first last : LinearKey}
    {middle : List LinearKey} (h : inOrder keys = first :: (middle ++ [last])) :
    (normalize keys).keys =
      ⟨first.color, 0⟩ :: (middle.map clampKey ++ [⟨last.color, 1⟩]) := by
  have hends : endAtOne (startAtZero (inOrder keys)) =
      (⟨first.color, 0⟩ :: middle) ++ [⟨last.color, 1⟩] := by
    rw [h]
    exact endAtOne_append (⟨first.color, 0⟩ :: middle) last
  rw [normalize, hends]
  simp only [List.map_append, List.map_cons, List.map_nil, clampKey, Position.clampUnit_zero,
    Position.clampUnit_one, List.cons_append]

theorem inOrder_perm (keys : List LinearKey) : (inOrder keys).Perm keys :=
  Sorting.sort_perm _ keys

theorem rank_pairwise_inOrder (keys : List LinearKey) :
    (inOrder keys).Pairwise fun a b => a.position.rank ≤ b.position.rank := by
  have hsorted : (inOrder keys).Pairwise fun a b =>
      decide (a.position.rank ≤ b.position.rank) = true := by
    apply Sorting.sort_pairwise
    · intro a b c hab hbc
      exact decide_eq_true (Int.le_trans (of_decide_eq_true hab) (of_decide_eq_true hbc))
    · intro a b
      exact (Int.le_total _ _).imp decide_eq_true decide_eq_true
  exact hsorted.imp of_decide_eq_true

/-- Clamping numbers keeps their order. -/
theorem clampUnit_le_clampUnit {x y : Float32} (hx : ¬ x.isNaN) (hy : ¬ y.isNaN)
    (h : Single.level x ≤ Single.level y) : Single.clampUnit x ≤ Single.clampUnit y := by
  have hx' : ¬ (Single.clampUnit x).isNaN := by rwa [Single.isNaN_clampUnit]
  have hy' : ¬ (Single.clampUnit y).isNaN := by rwa [Single.isNaN_clampUnit]
  rw [Single.le_iff_level hx' hy', Single.level_clampUnit hx, Single.level_clampUnit hy]
  omega

theorem clampUnit_mem_unit {x : Float32} (h : ¬ x.isNaN) :
    0 ≤ Single.clampUnit x ∧ Single.clampUnit x ≤ 1 := by
  have h' : ¬ (Single.clampUnit x).isNaN := by rwa [Single.isNaN_clampUnit]
  rw [Single.mem_unit_iff_level h', Single.level_clampUnit h]
  omega

/-- Between the ends lie the keys that are neither first nor last, clamped. -/
theorem exists_middle {keys : List LinearKey} (htwo : 2 ≤ keys.length) :
    ∃ first middle last, inOrder keys = first :: (middle ++ [last]) ∧
      (normalize keys).positions =
        0 :: (middle.map (fun key => Single.clampUnit key.position.value) ++ [1]) := by
  have hlength : 2 ≤ (inOrder keys).length := by
    rwa [inOrder, Sorting.length_sort]
  obtain ⟨first, middle, last, hkeys⟩ := exists_ends hlength
  refine ⟨first, middle, last, hkeys, ?_⟩
  simp [positions, keys_normalize hkeys, clampKey]

theorem not_isNaN_normalize {keys : List LinearKey} (htwo : 2 ≤ keys.length)
    (hnumbers : ∀ key ∈ keys, ¬ key.position.value.isNaN) :
    ∀ position ∈ (normalize keys).positions, ¬ position.isNaN := by
  obtain ⟨first, middle, last, hkeys, hpositions⟩ := exists_middle htwo
  intro position hposition
  rw [hpositions] at hposition
  rcases List.mem_cons.mp hposition with rfl | hposition
  · exact Single.not_isNaN_zero
  rcases List.mem_append.mp hposition with hposition | hposition
  · obtain ⟨key, hkey, rfl⟩ := List.mem_map.mp hposition
    rw [Single.isNaN_clampUnit]
    apply hnumbers
    have hordered : key ∈ inOrder keys := by
      rw [hkeys]
      exact List.mem_cons_of_mem _ (List.mem_append_left _ hkey)
    exact (inOrder_perm keys).mem_iff.mp hordered
  · rw [List.mem_singleton.mp hposition]
    exact Single.not_isNaN_one

/-- Putting keys in order leaves them properly placed, unless a position between the ends is
not a number. -/
theorem proper_normalize {keys : List LinearKey} (htwo : 2 ≤ keys.length)
    (hnumbers : ∀ position ∈ (normalize keys).positions, ¬ position.isNaN) :
    (normalize keys).Proper := by
  obtain ⟨first, middle, last, hkeys, hpositions⟩ := exists_middle htwo
  have hnumber : ∀ key ∈ middle, ¬ key.position.value.isNaN := by
    intro key hkey hnan
    apply hnumbers (Single.clampUnit key.position.value)
    · rw [hpositions]
      exact List.mem_cons_of_mem _ (List.mem_append_left _ (List.mem_map_of_mem hkey))
    · rwa [Single.isNaN_clampUnit]
  have hunit : ∀ position ∈ middle.map (fun key => Single.clampUnit key.position.value),
      0 ≤ position ∧ position ≤ 1 := by
    intro position hposition
    obtain ⟨key, hkey, rfl⟩ := List.mem_map.mp hposition
    exact clampUnit_mem_unit (hnumber key hkey)
  have hends : (0 : Float32) ≤ 0 ∧ (0 : Float32) ≤ 1 ∧ (1 : Float32) ≤ 1 := by decide +kernel
  -- Keys are sorted by rank, which numbers follow in their own order, clamped or not.
  have hmiddle : (middle.map fun key => Single.clampUnit key.position.value).Pairwise (· ≤ ·) := by
    have hranks := rank_pairwise_inOrder keys
    rw [hkeys, List.pairwise_cons, List.pairwise_append] at hranks
    rw [List.pairwise_map]
    exact hranks.2.1.imp_of_mem fun ha hb hle =>
      clampUnit_le_clampUnit (hnumber _ ha) (hnumber _ hb)
        (Position.level_le_of_rank_le (hnumber _ ha) (hnumber _ hb) hle)
  exact {
    two_le := by simp [hpositions]
    within := by
      rw [hpositions]
      intro position hposition
      rcases List.mem_cons.mp hposition with rfl | hposition
      · exact ⟨hends.1, hends.2.1⟩
      rcases List.mem_append.mp hposition with hposition | hposition
      · exact hunit position hposition
      · rw [List.mem_singleton.mp hposition]
        exact ⟨hends.2.1, hends.2.2⟩
    ascending := by
      rw [hpositions, List.pairwise_cons, List.pairwise_append]
      refine ⟨?_, hmiddle, List.pairwise_singleton _ _, ?_⟩
      · intro position hposition
        rcases List.mem_append.mp hposition with hposition | hposition
        · exact (hunit position hposition).1
        · rw [List.mem_singleton.mp hposition]
          exact hends.2.1
      · intro position hposition last hlast
        rw [List.mem_singleton.mp hlast]
        exact (hunit position hposition).2
    head := by rw [hpositions, List.head?_cons]
    last := by
      rw [hpositions, ← List.cons_append]
      exact List.getLast?_concat }

theorem positions_setColor (gradient : LinearGradient) {slot : Nat} {key : LinearKey}
    (h : gradient.keys[slot]? = some key) (color : Color) :
    positions ⟨gradient.keys.set slot { key with color }⟩ = gradient.positions :=
  Keys.map_set_of_getElem? (fun key : LinearKey => key.position.value) h { key with color } rfl

section Run

variable (gradient : LinearGradient) (slot : Nat)

/-- The key in a slot, if the gradient can spare it. -/
def spare : Except Fault LinearKey := do
  let key ← Keys.inSlot gradient.keys slot
  Keys.checkSpare gradient.keys
  return key

/-- All that may fail comes before the first write. -/
theorem run_removeKey :
    (removeKey slot).run.run gradient =
      match gradient.spare slot with
      | .error fault => (.error fault, gradient)
      | .ok key => (.ok key, normalize (gradient.keys.eraseIdx slot)) := by
  simp only [removeKey, spare, Change.run_get_bind, Change.run_liftM_bind]
  cases Keys.inSlot gradient.keys slot with
  | error fault => rfl
  | ok key => cases Keys.checkSpare gradient.keys <;> rfl

theorem run_setColor (color : Color) :
    (setColor slot color).run.run gradient =
      match Keys.inSlot gradient.keys slot with
      | .error fault => (.error fault, gradient)
      | .ok key => (.ok (), ⟨gradient.keys.set slot { key with color }⟩) := by
  simp only [setColor, Change.run_get_bind, Change.run_liftM_bind]
  cases Keys.inSlot gradient.keys slot <;> rfl

theorem run_setPosition (position : Position) :
    (setPosition slot position).run.run gradient =
      match Keys.inSlot gradient.keys slot with
      | .error fault => (.error fault, gradient)
      | .ok key => (.ok (), normalize (gradient.keys.set slot { key with position })) := by
  simp only [setPosition, Change.run_get_bind, Change.run_liftM_bind]
  cases Keys.inSlot gradient.keys slot <;> rfl

end Run

theorem spare_eq_ok_iff (gradient : LinearGradient) (slot : Nat) (key : LinearKey) :
    gradient.spare slot = .ok key ↔
      gradient.keys[slot]? = some key ∧ 2 < gradient.keys.length := by
  rw [← Keys.inSlot_eq_ok_iff, ← Keys.checkSpare_eq_ok_iff, spare]
  cases Keys.inSlot gradient.keys slot with
  | error fault => simp [bind, Except.bind]
  | ok key' => cases Keys.checkSpare gradient.keys <;> simp [bind, Except.bind, pure, Except.pure]

/-- What a gradient becomes by a change that is not refused. -/
inductive Becomes (gradient : LinearGradient) : Operation → LinearGradient → Prop
  | addKey (color : Color) (position : Position) :
      Becomes gradient (.addKey color position) (normalize (gradient.keys ++ [⟨color, position⟩]))
  | removeKey {slot : Nat} {key : LinearKey} (hslot : gradient.keys[slot]? = some key)
      (hmany : 2 < gradient.keys.length) :
      Becomes gradient (.removeKey slot) (normalize (gradient.keys.eraseIdx slot))
  | setColor {slot : Nat} {key : LinearKey} (hslot : gradient.keys[slot]? = some key)
      (color : Color) :
      Becomes gradient (.setColor slot color) ⟨gradient.keys.set slot { key with color }⟩
  | setPosition {slot : Nat} {key : LinearKey} (hslot : gradient.keys[slot]? = some key)
      (position : Position) :
      Becomes gradient (.setPosition slot position)
        (normalize (gradient.keys.set slot { key with position }))

/-- What may come of a change.  It is refused and nothing is written, or all of it is. -/
theorem perform_cases (gradient : LinearGradient) (operation : Operation) :
    (∃ fault, gradient.attempt operation = .error fault) ∧
        gradient.perform operation = gradient ∨
      gradient.attempt operation = .ok () ∧
        gradient.Becomes operation (gradient.perform operation) := by
  unfold attempt perform Change.outcome Change.after
  cases operation with
  | addKey color position => exact .inr ⟨rfl, .addKey color position⟩
  | removeKey slot =>
      rw [Operation.change, Change.run_bind, run_removeKey]
      cases h : gradient.spare slot with
      | error fault => exact .inl ⟨⟨fault, rfl⟩, rfl⟩
      | ok key =>
          obtain ⟨hslot, hmany⟩ := (spare_eq_ok_iff gradient slot key).mp h
          exact .inr ⟨rfl, .removeKey hslot hmany⟩
  | setColor slot color =>
      rw [Operation.change, run_setColor]
      cases h : Keys.inSlot gradient.keys slot with
      | error fault => exact .inl ⟨⟨fault, rfl⟩, rfl⟩
      | ok key => exact .inr ⟨rfl, .setColor ((Keys.inSlot_eq_ok_iff _ _ _).mp h) color⟩
  | setPosition slot position =>
      rw [Operation.change, run_setPosition]
      cases h : Keys.inSlot gradient.keys slot with
      | error fault => exact .inl ⟨⟨fault, rfl⟩, rfl⟩
      | ok key => exact .inr ⟨rfl, .setPosition ((Keys.inSlot_eq_ok_iff _ _ _).mp h) position⟩

section Outcomes

variable {gradient : LinearGradient} {operation : Operation}

/-- A change that is refused has not written anything. -/
theorem perform_of_refused {fault : Fault} (h : gradient.attempt operation = .error fault) :
    gradient.perform operation = gradient := by
  rcases gradient.perform_cases operation with ⟨-, hsame⟩ | ⟨hdone, -⟩
  · exact hsame
  · rw [hdone] at h
    cases h

theorem becomes_of_done (h : gradient.attempt operation = .ok ()) :
    gradient.Becomes operation (gradient.perform operation) := by
  rcases gradient.perform_cases operation with ⟨⟨fault, hrefused⟩, -⟩ | ⟨-, hbecomes⟩
  · rw [h] at hrefused
    cases hrefused
  · exact hbecomes

end Outcomes

/-- A change keeps all positions, or it puts keys in order that have the positions at hand
and the one that is brought in. -/
theorem positions_perform (gradient : LinearGradient) (operation : Operation)
    (htwo : 2 ≤ gradient.positions.length) :
    (gradient.perform operation).positions = gradient.positions ∨
      ∃ keys : List LinearKey, 2 ≤ keys.length ∧
        (∀ key ∈ keys, key.position ∈ operation.position? ∨
          key.position.value ∈ gradient.positions) ∧
        gradient.perform operation = normalize keys := by
  have hmem : ∀ key ∈ gradient.keys, key.position.value ∈ gradient.positions :=
    fun key hkey => List.mem_map_of_mem hkey
  rw [positions, List.length_map] at htwo
  rcases gradient.perform_cases operation with ⟨-, hsame⟩ | ⟨-, hbecomes⟩
  · exact .inl (congrArg positions hsame)
  generalize gradient.perform operation = gradient' at hbecomes
  cases hbecomes with
  | addKey color position =>
      refine .inr ⟨gradient.keys ++ [⟨color, position⟩], ?_, ?_, rfl⟩
      · rw [List.length_append]
        omega
      · intro key hkey
        rcases List.mem_append.mp hkey with hkey | hkey
        · exact .inr (hmem key hkey)
        · rw [List.mem_singleton.mp hkey]
          exact .inl rfl
  | @removeKey slot key hslot hmany =>
      refine .inr ⟨gradient.keys.eraseIdx slot, ?_, ?_, rfl⟩
      · have hlt := (List.getElem?_eq_some_iff.mp hslot).1
        rw [List.length_eraseIdx_of_lt hlt]
        omega
      · exact fun key hkey => .inr (hmem key (List.mem_of_mem_eraseIdx hkey))
  | setColor hslot color => exact .inl (positions_setColor gradient hslot color)
  | @setPosition slot key hslot position =>
      refine .inr ⟨gradient.keys.set slot { key with position }, ?_, ?_, rfl⟩
      · rwa [List.length_set]
      · intro key' hkey'
        rcases List.mem_or_eq_of_mem_set hkey' with hkey' | rfl
        · exact .inr (hmem key' hkey')
        · exact .inl rfl

theorem Proper.not_isNaN {gradient : LinearGradient} (h : gradient.Proper) :
    ∀ position ∈ gradient.positions, ¬ position.isNaN :=
  fun position hposition hnan =>
    (Single.not_le_of_isNaN hnan 1).1 (h.within position hposition).2

theorem Proper.of_positions_eq {gradient gradient' : LinearGradient} (h : gradient.Proper)
    (heq : gradient'.positions = gradient.positions) : gradient'.Proper := by
  obtain ⟨htwo, hwithin, hascending, hhead, hlast⟩ := h
  rw [← heq] at htwo hwithin hascending hhead hlast
  exact ⟨htwo, hwithin, hascending, hhead, hlast⟩

theorem positions_between (first last : Color) : (between first last).positions = [0, 1] := by
  simp [positions, between]

theorem proper_between (first last : Color) : (between first last).Proper := by
  have hwithin : ∀ position ∈ [(0 : Float32), 1], 0 ≤ position ∧ position ≤ 1 := by
    decide +kernel
  have hascending : [(0 : Float32), 1].Pairwise (· ≤ ·) := by decide +kernel
  rw [← positions_between first last] at hwithin hascending
  refine ⟨Nat.le_refl 2, hwithin, hascending, ?_, ?_⟩ <;> rw [positions_between] <;> rfl

/-- There are always two keys, and they are properly placed unless some position is not a
number. -/
theorem Reachable.proper_or_not_number {allowed : Position → Prop} {gradient : LinearGradient}
    (h : Reachable allowed gradient) :
    2 ≤ gradient.positions.length ∧
      ((∀ position ∈ gradient.positions, ¬ position.isNaN) → gradient.Proper) := by
  induction h with
  | between first last => exact ⟨Nat.le_refl 2, fun _ => proper_between first last⟩
  | @ofKeys keys gradient hallowed h =>
      obtain ⟨htwo, rfl⟩ := (ofKeys_eq_ok_iff keys gradient).mp h
      refine ⟨?_, proper_normalize htwo⟩
      rwa [positions, List.length_map, length_normalize]
  | @perform gradient operation hallowed h ih =>
      rcases positions_perform gradient operation ih.1 with hpositions | ⟨keys, htwo, -, hperform⟩
      · rw [hpositions]
        exact ⟨ih.1, fun hnumbers => (ih.2 hnumbers).of_positions_eq hpositions⟩
      · rw [hperform]
        refine ⟨?_, proper_normalize htwo⟩
        rwa [positions, List.length_map, length_normalize]

/-- A gradient whose positions are numbers ascends from zero to one, whatever became of it
before. -/
theorem Reachable.proper {allowed : Position → Prop} {gradient : LinearGradient}
    (h : Reachable allowed gradient)
    (hnumbers : ∀ position ∈ gradient.positions, ¬ position.isNaN) : gradient.Proper :=
  h.proper_or_not_number.2 hnumbers

/-- Where only numbers are passed, only numbers are kept. -/
theorem Reachable.not_isNaN {gradient : LinearGradient}
    (h : Reachable (fun position => ¬ position.value.isNaN) gradient) :
    ∀ position ∈ gradient.positions, ¬ position.isNaN := by
  induction h with
  | between first last =>
      rw [positions_between]
      decide +kernel
  | @ofKeys keys gradient hallowed h =>
      obtain ⟨htwo, rfl⟩ := (ofKeys_eq_ok_iff keys gradient).mp h
      exact not_isNaN_normalize htwo hallowed
  | @perform gradient operation hallowed h ih =>
      rcases positions_perform gradient operation h.proper_or_not_number.1 with
        hpositions | ⟨keys, htwo, hkeys, hperform⟩
      · rwa [hpositions]
      · rw [hperform]
        refine not_isNaN_normalize htwo fun key hkey => ?_
        rcases hkeys key hkey with hposition | hposition
        · exact hallowed _ hposition
        · exact ih _ hposition

end LinearGradient

end LineGrammar
