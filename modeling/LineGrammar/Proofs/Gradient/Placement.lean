/-
Where the keys of a gradient in steps come to lie.  In the order of their indices each key is
put at its own index, or right behind the key before it where that is further up.  These are
the least places that ascend from zero and at which no later key lies below its index.  Keys
are refused exactly if the last place is beyond the longest palette, and no number on the way
is too large for its word.
-/
import LineGrammar.Proofs.Gradient.Discrete
import Mathlib.Algebra.Group.Nat.Defs

namespace LineGrammar

/-- A computation on words.  It has no result if a number does not fit into its word, and may
fail with a fault otherwise. -/
abbrev Worded := ExceptT Fault Option

namespace Word

def add? (bits x y : Nat) : Option Nat :=
  if x + y < 2 ^ bits then some (x + y) else none

def sub? (x y : Nat) : Option Nat :=
  if y ≤ x then some (x - y) else none

end Word

namespace DiscreteGradient

/-- Keys in the order of their indices, those at one index in the order in which they were
given. -/
structure Ranked (given ranked : List DiscreteKey) : Prop where
  perm : ranked.Perm given
  ascending : (ranked.map (·.index)).Pairwise (· ≤ ·)
  stable : ∀ index, (ranked.filter fun key => key.index == index) =
    given.filter fun key => key.index == index

theorem ranked_inOrder (keys : List DiscreteKey) : Ranked keys (inOrder keys) where
  perm := Sorting.sort_perm _ keys
  ascending := by
    have hsorted : (inOrder keys).Pairwise fun a b => decide (a.index ≤ b.index) = true :=
      Sorting.sort_pairwise (by simp only [decide_eq_true_eq]; omega)
        (by simp only [decide_eq_true_eq]; omega) keys
    exact List.pairwise_map.mpr (hsorted.imp of_decide_eq_true)
  stable index := by
    apply Sorting.filter_sort
    intro a _ b _ ha hb
    rw [beq_iff_eq] at ha hb
    exact decide_eq_true (Nat.le_of_eq (ha.trans hb.symm))

/-- The place of a key after one at some place. -/
def climb (place index : Nat) : Nat :=
  max index (place + 1)

/-- The places of keys with ascending indices.  The first key is put at zero. -/
def places : List Nat → List Nat
  | [] => []
  | _ :: later => later.scanl climb 0

/-- Places that ascend from zero and at which no key but the first lies below its index. -/
structure Clears (indices places : List Nat) : Prop where
  head : places.head? = some 0
  ascending : places.Pairwise (· < ·)
  above : List.Forall₂ (· ≤ ·) indices.tail places.tail

section Climbing

variable {place : Nat} {indices : List Nat}

theorem le_of_mem_scanl : ∀ later ∈ indices.scanl climb place, place ≤ later := by
  induction indices generalizing place with
  | nil => simp
  | cons index rest ih =>
      rw [List.scanl_cons, List.forall_mem_cons]
      refine ⟨Nat.le_refl _, fun later hlater => ?_⟩
      have hle := ih later hlater
      unfold climb at hle
      omega

theorem ascending_scanl : (indices.scanl climb place).Pairwise (· < ·) := by
  induction indices generalizing place with
  | nil => simp
  | cons index rest ih =>
      rw [List.scanl_cons, List.pairwise_cons]
      refine ⟨fun later hlater => ?_, ih⟩
      have hle := le_of_mem_scanl later hlater
      unfold climb at hle
      omega

theorem above_scanl : List.Forall₂ (· ≤ ·) indices (indices.scanl climb place).tail := by
  induction indices generalizing place with
  | nil => exact .nil
  | cons index rest ih =>
      have hfirst : rest.scanl climb (climb place index) =
          climb place index :: (rest.scanl climb (climb place index)).tail := by
        cases rest <;> simp
      rw [List.scanl_cons, List.tail_cons, hfirst]
      exact .cons (Nat.le_max_left _ _) ih

/-- Whatever ascends from a place no lower and stays above the indices is nowhere lower. -/
theorem scanl_le {other : Nat} {others : List Nat} (hplace : place ≤ other)
    (hascending : (other :: others).Pairwise (· < ·))
    (habove : List.Forall₂ (· ≤ ·) indices others) :
    List.Forall₂ (· ≤ ·) (indices.scanl climb place) (other :: others) := by
  induction habove generalizing place other with
  | nil => exact .cons hplace .nil
  | @cons index next rest others hindex habove ih =>
      obtain ⟨hnext, hrest⟩ := List.pairwise_cons.mp hascending
      have hlt := hnext next List.mem_cons_self
      rw [List.scanl_cons]
      exact .cons hplace (ih (Nat.max_le.mpr ⟨hindex, by omega⟩) hrest)

end Climbing

theorem clears_places {indices : List Nat} (h : indices ≠ []) :
    Clears indices (places indices) := by
  cases indices with
  | nil => exact absurd rfl h
  | cons index later => exact ⟨List.head?_scanl, ascending_scanl, above_scanl⟩

/-- No other places that will do are lower anywhere. -/
theorem Clears.places_le {indices others : List Nat} (h : Clears indices others)
    (hindices : indices ≠ []) : List.Forall₂ (· ≤ ·) (places indices) others := by
  obtain ⟨hhead, hascending, habove⟩ := h
  cases indices with
  | nil => exact absurd rfl hindices
  | cons index later =>
      cases others with
      | nil => cases hhead
      | cons other others =>
          rw [List.head?_cons, Option.some_inj] at hhead
          exact scanl_le (Nat.le_of_eq hhead.symm) hascending habove

theorem bump_eq (place : Nat) :
    bump place = if place < largestPaletteIndex then .ok (place + 1)
      else .error (.gradientTooLarge (place + 1)) :=
  rfl

/-- Keys are moved to their places, or a place beyond the longest palette is met on the
way. -/
theorem spread_cases (place : Nat) (keys : List DiscreteKey) :
    (∃ keys', spread place keys = .ok keys' ∧ keys'.map (·.color) = keys.map (·.color) ∧
      place :: keys'.map (·.index) = (keys.map (·.index)).scanl climb place) ∨
    ∃ far ∈ (keys.map (·.index)).scanl climb place,
      largestPaletteIndex < far ∧ spread place keys = .error (.gradientTooLarge far) := by
  induction keys generalizing place with
  | nil => exact .inl ⟨[], rfl, rfl, rfl⟩
  | cons key rest ih =>
      rw [List.map_cons, List.map_cons, List.scanl_cons]
      have hstep : (∃ far, far = climb place key.index ∧ largestPaletteIndex < far ∧
            spread place (key :: rest) = .error (.gradientTooLarge far)) ∨
          spread place (key :: rest) = (do
            return { key with index := climb place key.index } ::
              (← spread (climb place key.index) rest)) := by
        by_cases hle : key.index ≤ place
        · have hclimb : climb place key.index = place + 1 := by
            unfold climb
            omega
          rw [spread, if_pos hle, bump_eq, hclimb]
          by_cases hlt : place < largestPaletteIndex
          · exact .inr (by rw [if_pos hlt]; rfl)
          · exact .inl ⟨place + 1, rfl, by omega, by rw [if_neg hlt]; rfl⟩
        · have hclimb : climb place key.index = key.index := by
            unfold climb
            omega
          rw [spread, if_neg hle, hclimb]
          exact .inr rfl
      rcases hstep with ⟨far, hfar, hlarge, herror⟩ | hstep
      · refine .inr ⟨far, List.mem_cons_of_mem _ (List.mem_of_mem_head? ?_), hlarge, herror⟩
        rw [List.head?_scanl, hfar]
        rfl
      · rw [hstep]
        rcases ih (climb place key.index) with
          ⟨keys', hspread, hcolors, hindices⟩ | ⟨far, hfar, hlarge, herror⟩
        · refine .inl ⟨_, by rw [hspread]; rfl, ?_, ?_⟩
          · rw [List.map_cons, hcolors]
          · rw [List.map_cons, hindices]
        · exact .inr ⟨far, List.mem_cons_of_mem _ hfar, hlarge, by rw [herror]; rfl⟩

theorem checkLast_of_last {keys : List DiscreteKey} {last : Nat}
    (h : (keys.map (·.index)).getLast? = some last) :
    checkLast keys = if largestPaletteIndex < last then .error (.gradientTooLarge last)
      else .ok keys := by
  rw [List.getLast?_map, Option.map_eq_some_iff] at h
  obtain ⟨key, hkey, rfl⟩ := h
  simp only [checkLast, hkey]

/-- Keys in order are moved to their places if the last one is within the longest palette, and
refused for a place beyond it otherwise. -/
theorem normalize_cases {keys : List DiscreteKey} (hkeys : keys ≠ []) :
    let indices := places ((inOrder keys).map (·.index))
    ∃ last, indices.getLast? = some last ∧
      (last ≤ largestPaletteIndex → ∃ keys', normalize keys = .ok keys' ∧
        keys'.map (·.color) = (inOrder keys).map (·.color) ∧ keys'.map (·.index) = indices) ∧
      (largestPaletteIndex < last → ∃ place ∈ indices, largestPaletteIndex < place ∧
        normalize keys = .error (.gradientTooLarge place)) := by
  intro indices
  cases hordered : inOrder keys with
  | nil =>
      have hperm := (ranked_inOrder keys).perm
      rw [hordered] at hperm
      exact absurd hperm.nil_eq.symm hkeys
  | cons first rest =>
      have hindices : indices = (rest.map (·.index)).scanl climb 0 := by
        simp only [indices, hordered, List.map_cons, places]
      have hlast : indices.getLast? = some ((rest.map (·.index)).foldl climb 0) := by
        rw [hindices, List.getLast?_scanl]
      have hnormalize : normalize keys = (do
          checkLast ({ first with index := 0 } :: (← spread 0 rest))) := by
        rw [normalize, hordered]
      refine ⟨_, hlast, ?_⟩
      rw [hnormalize]
      rcases spread_cases 0 rest with
        ⟨rest', hspread, hcolors, hplaces⟩ | ⟨far, hfar, hlarge, herror⟩
      · have hplaced : ({ first with index := 0 } :: rest').map (·.index) = indices :=
          hplaces.trans hindices.symm
        have hcheck := checkLast_of_last (hplaced ▸ hlast)
        rw [hspread]
        refine ⟨fun hle => ⟨_, hcheck.trans (if_neg (Nat.not_lt_of_le hle)), ?_, hplaced⟩,
          fun hlt => ⟨_, List.mem_of_getLast? hlast, hlt, hcheck.trans (if_pos hlt)⟩⟩
        rw [List.map_cons, List.map_cons, hcolors]
      · rw [← hindices] at hfar
        have hle := le_last (hindices ▸ ascending_scanl) hlast far hfar
        rw [herror]
        exact ⟨fun hsmall => absurd (Nat.lt_of_lt_of_le hlarge hle) (Nat.not_lt_of_le hsmall),
          fun _ => ⟨far, hfar, hlarge, rfl⟩⟩

section Words

/-- The step after one, on words.  There need not be one in a word of 32 bits; the number that
a fault names has 64. -/
def bump? (index : Nat) : Worded Nat :=
  match (Word.add? 32 index 1).filter (· ≤ largestPaletteIndex) with
  | some next => pure next
  | none => do throw (.gradientTooLarge (← Word.add? 64 index 1))

/-- The same as `spread`, on words. -/
def spread? (previous : Nat) : List DiscreteKey → Worded (List DiscreteKey)
  | [] => pure []
  | key :: rest => do
      let index ← if key.index ≤ previous then bump? previous else pure key.index
      return { key with index } :: (← spread? index rest)

def normalize? (keys : List DiscreteKey) : Worded (List DiscreteKey) :=
  match inOrder keys with
  | [] => pure []
  | first :: rest => do
      let rest ← spread? 0 rest
      liftM (checkLast ({ first with index := 0 } :: rest))

def expand? : List DiscreteKey → Worded (List Color)
  | [] => pure []
  | [last] => pure [last.color]
  | key :: next :: rest => do
      let count ← (Word.sub? next.index key.index : Option Nat)
      let colors := (List.range count).map fun step =>
        key.color.lerp next.color (Single.ofCount step / Single.ofCount count)
      return colors ++ (← expand? (next :: rest))

def ofKeys? (keys : List DiscreteKey) : Worded DiscreteGradient :=
  if keys.length < 2 then throw .gradientTooShort
  else do
    let keys ← normalize? keys
    return ⟨keys, (← expand? keys).toArray⟩

theorem bump?_eq {index : Nat} (h : index < 2 ^ 32) : bump? index = liftM (bump index) := by
  have hlong : Word.add? 64 index 1 = some (index + 1) := if_pos (by omega)
  rw [bump_eq]
  by_cases hlt : index < largestPaletteIndex
  · have hshort : Word.add? 32 index 1 = some (index + 1) := by
      unfold largestPaletteIndex at hlt
      exact if_pos (by omega)
    have hkept : (Word.add? 32 index 1).filter (· ≤ largestPaletteIndex) = some (index + 1) := by
      rw [hshort]
      exact if_pos (decide_eq_true hlt)
    rw [bump?, hkept, if_pos hlt]
    rfl
  · have hnone : (Word.add? 32 index 1).filter (· ≤ largestPaletteIndex) = none := by
      unfold Word.add?
      split
      · exact if_neg (by simpa [Nat.lt_succ_iff] using hlt)
      · rfl
    rw [bump?, hnone, hlong, if_neg hlt]
    rfl

theorem spread?_eq {previous : Nat} {keys : List DiscreteKey} (h : previous < 2 ^ 32)
    (hkeys : ∀ key ∈ keys, key.index < 2 ^ 32) :
    spread? previous keys = liftM (spread previous keys) := by
  induction keys generalizing previous with
  | nil => rfl
  | cons key rest ih =>
      rw [List.forall_mem_cons] at hkeys
      have hrest : ∀ index, index < 2 ^ 32 →
          (do return { key with index } :: (← spread? index rest) : Worded _) =
            liftM (do return { key with index } :: (← spread index rest) : Except Fault _) := by
        intro index hindex
        rw [ih hindex hkeys.2, liftM_bind]
        rfl
      by_cases hle : key.index ≤ previous
      · rw [spread?, spread, if_pos hle, if_pos hle, bump?_eq h, bump_eq]
        split
        · next hlt =>
            have hnext : previous + 1 < 2 ^ 32 := by
              unfold largestPaletteIndex at hlt
              omega
            exact hrest _ hnext
        · rfl
      · rw [spread?, spread, if_neg hle, if_neg hle]
        exact hrest _ hkeys.1

theorem normalize?_eq {keys : List DiscreteKey} (h : ∀ key ∈ keys, key.index < 2 ^ 32) :
    normalize? keys = liftM (normalize keys) := by
  rw [normalize?, normalize]
  cases hordered : inOrder keys with
  | nil => rfl
  | cons first rest =>
      have hrest : ∀ key ∈ rest, key.index < 2 ^ 32 := by
        intro key hkey
        apply h
        rw [← (ranked_inOrder keys).perm.mem_iff, hordered]
        exact List.mem_cons_of_mem first hkey
      simp only [spread?_eq (Nat.two_pow_pos 32) hrest, liftM_bind]

/-- Differences of ascending indices are not below zero. -/
theorem expand?_eq {keys : List DiscreteKey} (h : (keys.map (·.index)).Pairwise (· < ·)) :
    expand? keys = pure (expand keys) := by
  induction keys with
  | nil => rfl
  | cons key rest ih =>
      cases rest with
      | nil => rfl
      | cons next rest =>
          rw [List.map_cons, List.pairwise_cons] at h
          have hle := Nat.le_of_lt (h.1 next.index List.mem_cons_self)
          rw [expand?, Word.sub?, if_pos hle, ih h.2]
          rfl

/-- No number is too large for its word when keys are put in order and expanded. -/
theorem ofKeys?_eq {keys : List DiscreteKey} (h : ∀ key ∈ keys, key.index < 2 ^ 32) :
    ofKeys? keys = liftM (ofKeys keys) := by
  unfold ofKeys? ofKeys
  split
  · rfl
  · next hlength =>
      rw [normalize?_eq h]
      cases hkeys : normalize keys with
      | error fault => rfl
      | ok keys' =>
          obtain ⟨-, hproper⟩ := normalize_eq_ok (Nat.le_of_not_lt hlength) hkeys
          change (do return ⟨keys', (← expand? keys').toArray⟩ : Worded DiscreteGradient) = _
          rw [expand?_eq hproper.ascending]
          rfl

end Words

/-- Keys are put at the least places that will do, in the order of their indices.  They are
refused exactly if the last of these places is beyond the longest palette, for such a place,
and all numbers on the way fit into their words. -/
theorem ofKeys_places {keys : List DiscreteKey} (htwo : 2 ≤ keys.length)
    (hwords : ∀ key ∈ keys, key.index < 2 ^ 32) :
    let ranked := inOrder keys
    let indices := places (ranked.map (·.index))
    Ranked keys ranked ∧
      (ofKeys? keys).run = some (ofKeys keys) ∧
      (∃ last, indices.getLast? = some last ∧
        (last ≤ largestPaletteIndex → ∃ gradient, ofKeys keys = .ok gradient ∧
          gradient.keys.map (·.color) = ranked.map (·.color) ∧
          gradient.keys.map (·.index) = indices) ∧
        (largestPaletteIndex < last → ∃ place ∈ indices, largestPaletteIndex < place ∧
          ofKeys keys = .error (.gradientTooLarge place))) ∧
      Clears (ranked.map (·.index)) indices ∧
      ∀ others, Clears (ranked.map (·.index)) others →
        List.Forall₂ (· ≤ ·) indices others := by
  intro ranked indices
  have hranked : Ranked keys ranked := ranked_inOrder keys
  have hkeys : keys ≠ [] := List.ne_nil_of_length_pos (by omega)
  have hmade : ofKeys keys = (normalize keys).map withKeys := if_neg (Nat.not_lt_of_le htwo)
  have hrun : (ofKeys? keys).run = some (ofKeys keys) := by
    rw [ofKeys?_eq hwords]
    rfl
  obtain ⟨last, hlast, hfits, hexceeds⟩ := normalize_cases hkeys
  have hindices : ranked.map (·.index) ≠ [] := by
    rw [Ne, List.map_eq_nil_iff]
    intro hnil
    rw [hnil] at hranked
    exact hkeys hranked.perm.nil_eq.symm
  refine ⟨hranked, hrun, ⟨last, hlast, fun hle => ?_, fun hlt => ?_⟩, clears_places hindices,
    fun others hothers => hothers.places_le hindices⟩
  · obtain ⟨keys', hkeys', hcolors, hindices⟩ := hfits hle
    exact ⟨withKeys keys', by rw [hmade, hkeys']; rfl, hcolors, hindices⟩
  · obtain ⟨place, hplace, hlarge, herror⟩ := hexceeds hlt
    exact ⟨place, hplace, hlarge, by rw [hmade, herror]; rfl⟩

/-- Two pairs of keys, each at one index. -/
def crowded : List DiscreteKey :=
  [⟨.white, 7⟩, ⟨.solid 0 0 255, 4⟩, ⟨.black, 7⟩, ⟨.solid 255 0 0, 4⟩]

/-- Two keys at the last index that a word can hold. -/
def remote : List DiscreteKey :=
  [⟨.black, 4294967295⟩, ⟨.white, 4294967295⟩, ⟨.black, 0⟩]

/-- Of two keys at one index the one that was given later makes way.  Counting up beyond the
largest word does not start again from zero. -/
theorem ofKeys_places_crowded :
    (2 ≤ crowded.length ∧ ∀ key ∈ crowded, key.index < 2 ^ 32) ∧
      (∃ gradient, ofKeys crowded = .ok gradient ∧
        gradient.keys.map (·.color) = [.solid 0 0 255, .solid 255 0 0, .white, .black] ∧
        gradient.keys.map (·.index) = [0, 4, 7, 8]) ∧
      (2 ≤ remote.length ∧ ∀ key ∈ remote, key.index < 2 ^ 32) ∧
      (∃ place ∈ [0, 4294967295, 4294967296], largestPaletteIndex < place ∧
        ofKeys remote = .error (.gradientTooLarge place)) ∧
      (ofKeys? remote).run = some (ofKeys remote) := by
  have hcrowded : 2 ≤ crowded.length ∧ ∀ key ∈ crowded, key.index < 2 ^ 32 := by decide
  have hremote : 2 ≤ remote.length ∧ ∀ key ∈ remote, key.index < 2 ^ 32 := by decide
  obtain ⟨-, -, ⟨last, hlast, hfits, -⟩, -⟩ := ofKeys_places hcrowded.1 hcrowded.2
  obtain ⟨-, hrun, ⟨far, hfar, -, hexceeds⟩, -⟩ := ofKeys_places hremote.1 hremote.2
  obtain rfl : 8 = last := Option.some.inj hlast
  obtain rfl : 4294967296 = far := Option.some.inj hfar
  exact ⟨hcrowded, hfits (by decide), hremote, hexceeds (by decide), hrun⟩

end DiscreteGradient

end LineGrammar
