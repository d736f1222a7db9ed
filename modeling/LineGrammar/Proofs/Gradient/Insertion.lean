/-
Inserting into gradients in steps.  A key at a free index comes between the keys below and
the keys above it.  At an index that is taken, the key there and all above it move up by one
first.  The keys lie in order then and nothing else is moved; so a key at a free index can be
taken away again without a trace.
-/
import LineGrammar.Proofs.Gradient.Discrete

namespace LineGrammar

def DiscreteKey.raise (key : DiscreteKey) : DiscreteKey :=
  { key with index := key.index + 1 }

namespace DiscreteGradient

def below (gradient : DiscreteGradient) (index : Nat) : List DiscreteKey :=
  gradient.keys.filter fun key => key.index < index

def above (gradient : DiscreteGradient) (index : Nat) : List DiscreteKey :=
  gradient.keys.filter fun key => index ≤ key.index

def Taken (gradient : DiscreteGradient) (index : Nat) : Prop :=
  index ∈ gradient.keys.map (·.index)

instance (gradient : DiscreteGradient) (index : Nat) : Decidable (gradient.Taken index) :=
  inferInstanceAs (Decidable (index ∈ gradient.keys.map (·.index)))

/-- The keys that come after a new one.  Where its index is taken they have moved up. -/
def upper (gradient : DiscreteGradient) (index : Nat) : List DiscreteKey :=
  if gradient.Taken index then (gradient.above index).map .raise else gradient.above index

/-- Another key would have to lie beyond the longest palette: its index does, or it is taken
and the last key cannot move up. -/
def Exceeds (gradient : DiscreteGradient) (index : Nat) : Prop :=
  largestPaletteIndex < index ∨
    gradient.Taken index ∧ gradient.keys.getLast?.map (·.index) = some largestPaletteIndex

instance (gradient : DiscreteGradient) (index : Nat) : Decidable (gradient.Exceeds index) :=
  inferInstanceAs (Decidable (_ ∨ _ ∧ _))

section Room

variable {index : Nat} {keys : List DiscreteKey}

/-- All keys from an index on move up if there is a step left for each of them. -/
theorem mapM_makeRoom
    (h : ∀ key ∈ keys, index ≤ key.index → key.index < largestPaletteIndex) :
    keys.mapM (makeRoom index) =
      .ok (keys.map fun key => if index ≤ key.index then key.raise else key) := by
  induction keys with
  | nil => rfl
  | cons key rest ih =>
      rw [List.forall_mem_cons] at h
      have hkey : makeRoom index key =
          .ok (if index ≤ key.index then key.raise else key) := by
        unfold makeRoom
        split
        · next hle =>
            rw [bump, if_pos (h.1 hle)]
            rfl
        · rfl
      rw [List.mapM_cons, hkey, ih h.2]
      rfl

/-- A key at the last step cannot move up, and it is the only one that cannot. -/
theorem mapM_makeRoom_of_last (hle : ∀ key ∈ keys, key.index ≤ largestPaletteIndex)
    (h : ∃ key ∈ keys, index ≤ key.index ∧ key.index = largestPaletteIndex) :
    keys.mapM (makeRoom index) = .error (.gradientTooLarge (largestPaletteIndex + 1)) := by
  induction keys with
  | nil => simp at h
  | cons key rest ih =>
      rw [List.forall_mem_cons] at hle
      rw [List.exists_mem_cons_iff] at h
      rw [List.mapM_cons]
      by_cases hkey : index ≤ key.index ∧ key.index = largestPaletteIndex
      · rw [makeRoom, if_pos hkey.1, bump, hkey.2, if_neg (Nat.lt_irrefl _)]
        rfl
      · have hmoved : ∃ moved, makeRoom index key = .ok moved := by
          unfold makeRoom
          split
          · next hindex =>
              have hlt : key.index < largestPaletteIndex :=
                Nat.lt_of_le_of_ne hle.1 fun heq => hkey ⟨hindex, heq⟩
              exact ⟨key.raise, by rw [bump, if_pos hlt]; rfl⟩
          · exact ⟨key, rfl⟩
        obtain ⟨moved, hmoved⟩ := hmoved
        rw [hmoved, ih hle.2 (h.resolve_left hkey)]
        rfl

/-- A new key in its place between others, which lie in order with it, stays there. -/
theorem normalize_concat {lower upper : List DiscreteKey} {key : DiscreteKey}
    (hhead : ((lower ++ key :: upper).map (·.index)).head? = some 0)
    (hascending : ((lower ++ key :: upper).map (·.index)).Pairwise (· < ·)) :
    normalize (lower ++ upper ++ [key]) = checkLast (lower ++ key :: upper) := by
  refine normalize_eq_checkLast ?_ hhead hascending
  exact (List.perm_append_singleton key _).trans List.perm_middle.symm

end Room

section Insertion

variable {gradient : DiscreteGradient} {index : Nat}

theorem below_append_above (h : Proper (gradient.keys.map (·.index))) (index : Nat) :
    gradient.below index ++ gradient.above index = gradient.keys := by
  have habove : gradient.above index =
      gradient.keys.filter fun key => !decide (key.index < index) := by
    apply List.filter_congr
    intro key _
    rw [← decide_not, decide_eq_decide, Nat.not_lt]
  rw [habove]
  apply Sorting.filter_append_filter_not
  refine (List.pairwise_map.mp h.ascending).imp fun hlt hb => ?_
  exact decide_eq_true (Nat.lt_trans hlt (of_decide_eq_true hb))

theorem index_lt_of_mem_below {key : DiscreteKey} (hkey : key ∈ gradient.below index) :
    key.index < index :=
  of_decide_eq_true (List.mem_filter.mp hkey).2

theorem lt_index_of_mem_upper {key : DiscreteKey} (hkey : key ∈ gradient.upper index) :
    index < key.index := by
  unfold upper at hkey
  split at hkey
  · obtain ⟨old, hold, rfl⟩ := List.mem_map.mp hkey
    exact Nat.lt_succ_of_le (of_decide_eq_true (List.mem_filter.mp hold).2)
  · next hfree =>
      obtain ⟨hmem, hle⟩ := List.mem_filter.mp hkey
      refine Nat.lt_of_le_of_ne (of_decide_eq_true hle) fun heq => hfree ?_
      exact heq ▸ List.mem_map_of_mem hmem

theorem upper_ascending (h : Proper (gradient.keys.map (·.index))) :
    ((gradient.upper index).map (·.index)).Pairwise (· < ·) := by
  have habove : (gradient.above index).Pairwise fun a b => a.index < b.index :=
    (List.pairwise_map.mp h.ascending).filter _
  unfold upper
  split
  · rw [List.map_map, List.pairwise_map]
    exact habove.imp fun hlt => Nat.succ_lt_succ hlt
  · exact List.pairwise_map.mpr habove

/-- The keys around a new one lie in order with it. -/
theorem ascending_insert (h : Proper (gradient.keys.map (·.index))) (color : Color) :
    ((gradient.below index ++ ⟨color, index⟩ :: gradient.upper index).map
      (·.index)).Pairwise (· < ·) := by
  have hbelow : (gradient.below index).Pairwise fun a b => a.index < b.index :=
    (List.pairwise_map.mp h.ascending).filter _
  have hupper : (gradient.upper index).Pairwise fun a b => a.index < b.index :=
    List.pairwise_map.mp (upper_ascending h)
  rw [List.pairwise_map, List.pairwise_append, List.pairwise_cons]
  refine ⟨hbelow, ⟨fun key hkey => lt_index_of_mem_upper hkey, hupper⟩, ?_⟩
  intro key hkey other hother
  have hlt := index_lt_of_mem_below hkey
  rcases List.mem_cons.mp hother with rfl | hother
  · exact hlt
  · exact Nat.lt_trans hlt (lt_index_of_mem_upper hother)

/-- A new key comes before the first one only at zero. -/
theorem head?_insert (h : Proper (gradient.keys.map (·.index))) (color : Color) :
    ((gradient.below index ++ ⟨color, index⟩ :: gradient.upper index).map (·.index)).head? =
      some 0 := by
  have hhead := h.head
  rw [← below_append_above h index] at hhead
  cases hbelow : gradient.below index with
  | cons first rest =>
      rw [hbelow] at hhead
      exact hhead
  | nil =>
      -- The key at zero is not below the index, so there is nothing below.
      obtain ⟨first, hfirst, hzero⟩ := List.mem_map.mp (List.mem_of_mem_head? h.head)
      have hnot : ¬ first.index < index := fun hlt => by
        have hmem : first ∈ gradient.below index :=
          List.mem_filter.mpr ⟨hfirst, decide_eq_true hlt⟩
        rw [hbelow] at hmem
        exact List.not_mem_nil hmem
      have hindex : index = 0 := by omega
      rw [hindex]
      rfl

/-- Moving up the keys from an index on leaves those below it where they are. -/
theorem map_raise_keys (h : Proper (gradient.keys.map (·.index))) (index : Nat) :
    (gradient.keys.map fun key => if index ≤ key.index then key.raise else key) =
      gradient.below index ++ (gradient.above index).map .raise := by
  have hbelow : ((gradient.below index).map fun key =>
      if index ≤ key.index then key.raise else key) = gradient.below index := by
    rw [List.map_congr_left fun key hkey =>
      if_neg (Nat.not_le_of_lt (index_lt_of_mem_below hkey)), List.map_id']
  have habove : ((gradient.above index).map fun key =>
      if index ≤ key.index then key.raise else key) = (gradient.above index).map .raise :=
    List.map_congr_left fun key hkey => if_pos (of_decide_eq_true (List.mem_filter.mp hkey).2)
  rw [← below_append_above h index, List.map_append, hbelow, habove]

theorem vacate_of_taken (h : gradient.Taken index) :
    vacate index gradient.keys = gradient.keys.mapM (makeRoom index) := by
  have hany : (gradient.keys.any fun key => key.index == index) = true := by
    simpa [Taken] using h
  rw [vacate, if_pos hany]

theorem vacate_of_free (h : ¬ gradient.Taken index) :
    vacate index gradient.keys = .ok gradient.keys := by
  have hany : ¬ (gradient.keys.any fun key => key.index == index) = true := by
    simpa [Taken] using h
  rw [vacate, if_neg hany]

/-- Where the other keys have room to move up, it depends on the last key alone whether an
insertion succeeds. -/
theorem insert_eq_checkLast (h : Proper (gradient.keys.map (·.index))) (color : Color)
    (hroom : gradient.Taken index →
      ∀ key ∈ gradient.keys, index ≤ key.index → key.index < largestPaletteIndex) :
    insert color index gradient.keys =
      checkLast (gradient.below index ++ ⟨color, index⟩ :: gradient.upper index) := by
  rw [← normalize_concat (head?_insert h color) (ascending_insert h color)]
  by_cases htaken : gradient.Taken index
  · rw [insert, vacate_of_taken htaken, mapM_makeRoom (hroom htaken), map_raise_keys h,
      upper, if_pos htaken]
    rfl
  · rw [insert, vacate_of_free htaken, upper, if_neg htaken, below_append_above h]
    rfl

/-- A key that would have to lie beyond the longest palette is refused. -/
theorem insert_of_exceeds (h : Proper (gradient.keys.map (·.index))) (color : Color)
    (hexceeds : gradient.Exceeds index) :
    insert color index gradient.keys =
      .error (.gradientTooLarge (max index (largestPaletteIndex + 1))) := by
  have hbounded : ∀ key ∈ gradient.keys, key.index ≤ largestPaletteIndex := fun key hkey =>
    h.bounded key.index (List.mem_map_of_mem hkey)
  by_cases hlarge : largestPaletteIndex < index
  · have hfree : ¬ gradient.Taken index := fun htaken =>
      Nat.not_le_of_lt hlarge (h.bounded index htaken)
    have hupper : gradient.upper index = [] := by
      rw [upper, if_neg hfree, above, List.filter_eq_nil_iff]
      intro key hkey hle
      have := hbounded key hkey
      have := of_decide_eq_true hle
      omega
    rw [insert_eq_checkLast h color fun htaken => absurd htaken hfree, hupper, checkLast,
      List.getLast?_concat, Nat.max_eq_left hlarge]
    simp only [hlarge, if_true]
  · obtain ⟨htaken, hfull⟩ := hexceeds.resolve_left hlarge
    obtain ⟨last, hlast, hfull⟩ := Option.map_eq_some_iff.mp hfull
    have hindex : index ≤ largestPaletteIndex := Nat.le_of_not_lt hlarge
    rw [insert, vacate_of_taken htaken, mapM_makeRoom_of_last hbounded
      ⟨last, List.mem_of_getLast? hlast, hfull ▸ hindex, hfull⟩,
      Nat.max_eq_right (Nat.le_succ_of_le hindex)]
    rfl

/-- The keys have room to move up unless the last one lies at the last step. -/
theorem lt_of_not_exceeds (h : Proper (gradient.keys.map (·.index)))
    (hexceeds : ¬ gradient.Exceeds index) (htaken : gradient.Taken index) :
    ∀ key ∈ gradient.keys, key.index < largestPaletteIndex := by
  have hlast : ∀ last ∈ gradient.keys.getLast?, last.index ≤ largestPaletteIndex - 1 := by
    intro last hlast
    have hle := h.bounded last.index (List.mem_map_of_mem (List.mem_of_getLast? hlast))
    have hne : last.index ≠ largestPaletteIndex := fun heq =>
      hexceeds (Or.inr ⟨htaken, Option.map_eq_some_iff.mpr ⟨last, hlast, heq⟩⟩)
    exact Nat.le_sub_one_of_lt (Nat.lt_of_le_of_ne hle hne)
  intro key hkey
  have hle := bounded_of_last h.ascending hlast key.index (List.mem_map_of_mem hkey)
  exact Nat.lt_of_le_of_lt hle (by decide)

/-- Any other key finds its place. -/
theorem insert_of_not_exceeds (h : Proper (gradient.keys.map (·.index))) (color : Color)
    (hexceeds : ¬ gradient.Exceeds index) :
    insert color index gradient.keys =
      .ok (gradient.below index ++ ⟨color, index⟩ :: gradient.upper index) := by
  have hroom := lt_of_not_exceeds h hexceeds
  have hbounded : ∀ key ∈ gradient.keys, key.index ≤ largestPaletteIndex := fun key hkey =>
    h.bounded key.index (List.mem_map_of_mem hkey)
  have hupper : ∀ key ∈ gradient.upper index, key.index ≤ largestPaletteIndex := by
    intro key hkey
    unfold upper at hkey
    split at hkey
    · next htaken =>
        obtain ⟨old, hold, rfl⟩ := List.mem_map.mp hkey
        exact hroom htaken old (List.mem_filter.mp hold).1
    · exact hbounded key (List.mem_filter.mp hkey).1
  rw [insert_eq_checkLast h color fun htaken key hkey _ => hroom htaken key hkey]
  refine (checkLast_eq_ok_iff _ _).mpr ⟨rfl, fun last hlast => ?_⟩
  rcases List.mem_append.mp (List.mem_of_getLast? hlast) with hmem | hmem
  · exact hbounded last (List.mem_filter.mp hmem).1
  · rcases List.mem_cons.mp hmem with rfl | hmem
    · exact Nat.le_of_not_lt fun hlt => hexceeds (Or.inl hlt)
    · exact hupper last hmem

/-- Without the key at a free index the others are left as they were. -/
theorem eraseIdx_insert (h : Proper (gradient.keys.map (·.index)))
    (hfree : ¬ gradient.Taken index) (color : Color) :
    (gradient.below index ++ ⟨color, index⟩ :: gradient.upper index).eraseIdx
      (gradient.below index).length = gradient.keys := by
  rw [List.eraseIdx_append_of_length_le (Nat.le_refl _), Nat.sub_self, List.eraseIdx_cons_zero,
    upper, if_neg hfree, below_append_above h]

/-- A key that was put at a free index can be removed again, which leaves the keys that were
there before. -/
theorem remove_inserted (htwo : 2 ≤ gradient.keys.length)
    (h : Proper (gradient.keys.map (·.index))) (hfree : ¬ gradient.Taken index)
    (color : Color) :
    let inserted := gradient.below index ++ ⟨color, index⟩ :: gradient.upper index
    inserted[(gradient.below index).length]? = some ⟨color, index⟩ ∧
      remove (gradient.below index).length inserted =
        .ok (⟨color, index⟩, gradient.keys) := by
  intro inserted
  have hslot : inserted[(gradient.below index).length]? = some ⟨color, index⟩ := by
    rw [List.getElem?_append_right (Nat.le_refl _), Nat.sub_self, List.getElem?_cons_zero]
  have herase : inserted.eraseIdx (gradient.below index).length = gradient.keys :=
    eraseIdx_insert h hfree color
  have hspare : Keys.checkSpare inserted = .ok () := by
    have hlt := (List.getElem?_eq_some_iff.mp hslot).1
    have hshorter := List.length_eraseIdx_of_lt hlt
    rw [herase] at hshorter
    rw [Keys.checkSpare_eq_ok_iff]
    omega
  refine ⟨hslot, ?_⟩
  rw [remove, (Keys.inSlot_eq_ok_iff _ _ _).mpr hslot, hspare, herase, normalize_of_proper h]
  rfl

end Insertion

/-- An insertion fails exactly if a key would have to lie beyond the longest palette, always
for this reason, and leaves the gradient as it was.  Otherwise the new key comes after the
keys below its index and before the others, which have moved up by one if it was taken.  A
key at a free index can be removed again, and the gradient is what it was. -/
theorem insertKey_outcome {gradient : DiscreteGradient} (h : Reachable gradient) (color : Color)
    (index : Nat) :
    let slot := (gradient.below index).length
    let gradient' := (insertKey color index).after gradient
    (∀ fault, (insertKey color index).outcome gradient = .error fault ↔
      gradient.Exceeds index ∧
        fault = .gradientTooLarge (max index (largestPaletteIndex + 1))) ∧
      (gradient.Exceeds index → gradient' = gradient) ∧
      (¬ gradient.Exceeds index →
        (insertKey color index).outcome gradient = .ok () ∧
        gradient'.keys = gradient.below index ++ ⟨color, index⟩ ::
          (if gradient.Taken index then (gradient.above index).map .raise
            else gradient.above index) ∧
        (¬ gradient.Taken index → gradient'.keys[slot]? = some ⟨color, index⟩ ∧
          (removeKey slot).outcome gradient' = .ok ⟨color, index⟩ ∧
          (removeKey slot).after gradient' = gradient)) := by
  intro slot gradient'
  obtain ⟨htwo, hproper, hpalette⟩ := h.proper
  have hrun := run_insertKey gradient color index
  by_cases hexceeds : gradient.Exceeds index
  · rw [insert_of_exceeds hproper color hexceeds] at hrun
    refine ⟨fun fault => ?_, fun _ => congrArg Prod.snd hrun, fun hnot => absurd hexceeds hnot⟩
    rw [Change.outcome, hrun, Except.error.injEq, eq_comm, and_iff_right hexceeds]
  · rw [insert_of_not_exceeds hproper color hexceeds] at hrun
    have hafter : gradient' =
        withKeys (gradient.below index ++ ⟨color, index⟩ :: gradient.upper index) :=
      congrArg Prod.snd hrun
    refine ⟨fun fault => ?_, fun hyes => absurd hyes hexceeds, fun _ => ?_⟩
    · rw [Change.outcome, hrun]
      simp [hexceeds]
    · refine ⟨congrArg Prod.fst hrun, congrArg (·.keys) hafter, fun hfree => ?_⟩
      obtain ⟨hslot, hremove⟩ := remove_inserted htwo hproper hfree color
      have hundo := run_removeKey gradient' slot
      rw [hafter, withKeys, hremove] at hundo
      rw [hafter]
      exact ⟨hslot, congrArg Prod.fst hundo, (congrArg Prod.snd hundo).trans hpalette⟩

/-- Two neighbouring keys, and a third one after a gap. -/
def spaced : DiscreteGradient :=
  withKeys [⟨.black, 0⟩, ⟨.white, 1⟩, ⟨.black, 4⟩]

/-- At a taken index all keys from there on move up.  In the gap nothing moves, and the new
key can be removed.  Beyond the longest palette there is no place for a key. -/
theorem insertKey_outcome_spaced :
    Reachable spaced ∧
      ((insertKey .white 1).after spaced).keys =
        [⟨.black, 0⟩, ⟨.white, 1⟩, ⟨.white, 2⟩, ⟨.black, 5⟩] ∧
      (removeKey 2).outcome ((insertKey .white 3).after spaced) = .ok ⟨.white, 3⟩ ∧
      (removeKey 2).after ((insertKey .white 3).after spaced) = spaced ∧
      (insertKey .white 4096).outcome spaced = .error (.gradientTooLarge 4096) ∧
      (insertKey .white 4096).after spaced = spaced := by
  have hmade : ofKeys spaced.keys = .ok spaced := by decide +kernel
  have hspaced : Reachable spaced := .ofKeys hmade
  obtain ⟨-, -, htaken⟩ := insertKey_outcome hspaced .white 1
  obtain ⟨-, hkeys, -⟩ := htaken (by decide)
  obtain ⟨-, -, hfree⟩ := insertKey_outcome hspaced .white 3
  obtain ⟨-, -, hundo⟩ := hfree (by decide)
  obtain ⟨-, hremoved, hback⟩ := hundo (by decide)
  obtain ⟨hfails, hsame, -⟩ := insertKey_outcome hspaced .white 4096
  exact ⟨hspaced, hkeys, hremoved, hback, (hfails _).mpr ⟨by decide, rfl⟩, hsame (by decide)⟩

end DiscreteGradient

end LineGrammar
