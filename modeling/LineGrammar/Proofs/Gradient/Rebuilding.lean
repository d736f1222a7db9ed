/-
Gradients made anew from their own keys, as they are when a scene is saved and loaded.  The
keys above zero stay where they are.  Those at zero are ordered by their sign bits again,
and the first one has been given a zero without a sign: a key at negative zero that comes
later moves in front of it.  The gradient is the same again exactly if this moves no color.
-/
import LineGrammar.Proofs.Gradient.Linear

namespace LineGrammar

namespace LinearGradient

/-- The keys at zero.  A gradient has one at its start and may have others. -/
def zeros (gradient : LinearGradient) : List LinearKey :=
  gradient.keys.filter fun key => key.position.value == 0

def others (gradient : LinearGradient) : List LinearKey :=
  gradient.keys.filter fun key => !(key.position.value == 0)

variable {gradient : LinearGradient}

theorem Proper.level_mem_unit (h : gradient.Proper) {key : LinearKey}
    (hkey : key ∈ gradient.keys) :
    0 ≤ Single.level key.position.value ∧ Single.level key.position.value ≤ 0x3f800000 := by
  have hposition : key.position.value ∈ gradient.positions := List.mem_map_of_mem hkey
  exact (Single.mem_unit_iff_level (h.not_isNaN _ hposition)).mp (h.within _ hposition)

theorem Proper.clampKey_eq (h : gradient.Proper) {key : LinearKey}
    (hkey : key ∈ gradient.keys) : clampKey key = key := by
  have hposition : key.position.value ∈ gradient.positions := List.mem_map_of_mem hkey
  obtain ⟨hzero, hone⟩ := h.level_mem_unit hkey
  have hvalue : key.position.clampUnit.value = key.position.value := by
    rw [Position.value_clampUnit, Single.clampUnit_of_level (h.not_isNaN _ hposition) hzero hone]
  rw [clampKey, ← Position.eq_of_value_eq (h.not_isNaN _ hposition) hvalue.symm]

theorem Proper.level_pairwise (h : gradient.Proper) :
    gradient.keys.Pairwise fun a b =>
      Single.level a.position.value ≤ Single.level b.position.value := by
  have hascending := h.ascending
  rw [positions, List.pairwise_map] at hascending
  refine hascending.imp_of_mem fun ha hb hle => ?_
  exact (Single.le_iff_level (h.not_isNaN _ (List.mem_map_of_mem ha))
    (h.not_isNaN _ (List.mem_map_of_mem hb))).mp hle

theorem Proper.mem_zeros_iff (h : gradient.Proper) (key : LinearKey) :
    key ∈ gradient.zeros ↔ key ∈ gradient.keys ∧ Single.level key.position.value = 0 := by
  rw [zeros, List.mem_filter]
  refine and_congr_right fun hkey => ?_
  rw [Single.beq_iff_level (h.not_isNaN _ (List.mem_map_of_mem hkey)) Single.not_isNaN_zero,
    Single.level_zero]

theorem Proper.mem_others_iff (h : gradient.Proper) (key : LinearKey) :
    key ∈ gradient.others ↔ key ∈ gradient.keys ∧ 0 < Single.level key.position.value := by
  rw [others, List.mem_filter, Bool.not_eq_true', ← Bool.not_eq_true]
  refine and_congr_right fun hkey => ?_
  have hzero := (h.level_mem_unit hkey).1
  rw [Single.beq_iff_level (h.not_isNaN _ (List.mem_map_of_mem hkey)) Single.not_isNaN_zero,
    Single.level_zero]
  omega

theorem Proper.zeros_append_others (h : gradient.Proper) :
    gradient.zeros ++ gradient.others = gradient.keys := by
  apply Sorting.filter_append_filter_not
  refine h.level_pairwise.imp_of_mem fun ha hb hle hzero => ?_
  rw [Single.beq_iff_level (h.not_isNaN _ (List.mem_map_of_mem ha)) Single.not_isNaN_zero,
    Single.level_zero]
  rw [Single.beq_iff_level (h.not_isNaN _ (List.mem_map_of_mem hb)) Single.not_isNaN_zero,
    Single.level_zero] at hzero
  have := (h.level_mem_unit ha).1
  omega

theorem Proper.rank_of_mem_others (h : gradient.Proper) {key : LinearKey}
    (hkey : key ∈ gradient.others) : key.position.rank = Single.level key.position.value := by
  obtain ⟨hkeys, hpos⟩ := (h.mem_others_iff key).mp hkey
  exact Position.rank_of_level_pos (h.not_isNaN _ (List.mem_map_of_mem hkeys)) hpos

/-- Keys above zero are in order already. -/
theorem Proper.inOrder_keys (h : gradient.Proper) :
    inOrder gradient.keys = inOrder gradient.zeros ++ gradient.others := by
  -- Above zero the rank of a position is its level, so that nothing is out of order there.
  have hothers : gradient.others.Pairwise fun a b =>
      decide (a.position.rank ≤ b.position.rank) = true := by
    refine (h.level_pairwise.sublist List.filter_sublist).imp_of_mem fun ha hb hle => ?_
    rw [h.rank_of_mem_others ha, h.rank_of_mem_others hb]
    exact decide_eq_true hle
  have hbefore : ∀ a ∈ gradient.zeros, ∀ b ∈ gradient.others,
      decide (a.position.rank ≤ b.position.rank) = true := by
    intro a ha b hb
    obtain ⟨hkeys, hzero⟩ := (h.mem_zeros_iff a).mp ha
    have hpos := ((h.mem_others_iff b).mp hb).2
    have hrank := Position.rank_eq_level (h.not_isNaN _ (List.mem_map_of_mem hkeys))
    rw [h.rank_of_mem_others hb]
    exact decide_eq_true (by omega)
  calc
    inOrder gradient.keys = inOrder (gradient.zeros ++ gradient.others) := by
      rw [h.zeros_append_others]
    _ = inOrder gradient.zeros ++ gradient.others := Sorting.sort_append _ hothers hbefore

theorem Proper.exists_zero (h : gradient.Proper) : ∃ key, key ∈ gradient.zeros := by
  have hhead := h.head
  rw [positions, List.head?_map, Option.map_eq_some_iff] at hhead
  obtain ⟨first, hfirst, hposition⟩ := hhead
  refine ⟨first, (h.mem_zeros_iff first).mpr ⟨List.mem_of_head? hfirst, ?_⟩⟩
  rw [hposition, Single.level_zero]

theorem Proper.exists_last (h : gradient.Proper) :
    ∃ middle color, gradient.others = middle ++ [⟨color, 1⟩] := by
  have hlast := h.last
  rw [positions, List.getLast?_map, Option.map_eq_some_iff] at hlast
  obtain ⟨last, hlast, hposition⟩ := hlast
  have hmem : last ∈ gradient.others := by
    refine (h.mem_others_iff last).mpr ⟨List.mem_of_getLast? hlast, ?_⟩
    rw [hposition, Single.level_one]
    decide
  rcases List.eq_nil_or_concat gradient.others with hnil | ⟨middle, key, hothers⟩
  · rw [hnil] at hmem
    cases hmem
  · rw [List.concat_eq_append] at hothers
    rw [← h.zeros_append_others, hothers, ← List.append_assoc, List.getLast?_concat] at hlast
    obtain rfl := Option.some.inj hlast
    have hone : key.position = 1 :=
      Position.eq_of_value_eq (by rw [hposition]; exact Single.not_isNaN_one)
        (hposition.trans Position.value_one.symm)
    refine ⟨middle, key.color, ?_⟩
    rw [← hone]
    exact hothers

/-- Putting the keys of a gradient in order again concerns those at zero only. -/
theorem Proper.normalize_keys (h : gradient.Proper) :
    normalize gradient.keys = ⟨startAtZero (inOrder gradient.zeros) ++ gradient.others⟩ := by
  obtain ⟨middle, color, hothers⟩ := h.exists_last
  obtain ⟨zero, hzero⟩ := h.exists_zero
  cases hzeros : inOrder gradient.zeros with
  | nil =>
      rw [← (inOrder_perm gradient.zeros).mem_iff, hzeros] at hzero
      cases hzero
  | cons first rest =>
      have hkeys : inOrder gradient.keys = first :: ((rest ++ middle) ++ [⟨color, 1⟩]) := by
        rw [h.inOrder_keys, hzeros, hothers, List.cons_append, List.append_assoc]
      have hmem : ∀ key ∈ rest ++ middle, key ∈ gradient.keys := by
        intro key hkey
        rw [← (inOrder_perm gradient.keys).mem_iff, hkeys]
        exact List.mem_cons_of_mem _ (List.mem_append_left _ hkey)
      -- All keys but the ends are clamped, and lie in the unit interval already.
      have hclamped : (rest ++ middle).map clampKey = rest ++ middle :=
        (List.map_congr_left fun key hkey => h.clampKey_eq (hmem key hkey)).trans (List.map_id _)
      have hnormalize := keys_normalize hkeys
      rw [hclamped, List.append_assoc, ← hothers] at hnormalize
      exact congrArg LinearGradient.mk hnormalize

/-- Lists of numbers are equal if they are on the same levels. -/
theorem positions_beq_iff {xs ys : List Float32} (hxs : ∀ x ∈ xs, ¬ x.isNaN)
    (hys : ∀ y ∈ ys, ¬ y.isNaN) :
    (xs == ys) = true ↔ xs.map Single.level = ys.map Single.level := by
  induction xs generalizing ys with
  | nil => cases ys <;> simp
  | cons x xs ih =>
      cases ys with
      | nil => simp
      | cons y ys =>
          rw [List.forall_mem_cons] at hxs hys
          rw [List.cons_beq_cons, Bool.and_eq_true, ih hxs.2 hys.2,
            Single.beq_iff_level hxs.1 hys.1, List.map_cons, List.map_cons, List.cons.injEq]

/-- Keys are equal if their colors and their positions are. -/
theorem keys_beq_eq (keys keys' : List LinearKey) :
    (keys == keys') = (keys.map (·.color) == keys'.map (·.color) &&
      keys.map (·.position.value) == keys'.map (·.position.value)) := by
  induction keys generalizing keys' with
  | nil => cases keys' <;> rfl
  | cons key rest ih =>
      cases keys' with
      | nil => rfl
      | cons key' rest' =>
          have hkey : (key == key') =
              (key.color == key'.color && key.position.value == key'.position.value) :=
            rfl
          rw [List.cons_beq_cons, hkey, ih, List.map_cons, List.map_cons, List.map_cons,
            List.map_cons, List.cons_beq_cons, List.cons_beq_cons]
          ac_rfl

theorem beq_eq_keys_beq (gradient gradient' : LinearGradient) :
    (gradient == gradient') = (gradient.keys == gradient'.keys) :=
  rfl

theorem colors_startAtZero (keys : List LinearKey) :
    (startAtZero keys).map (·.color) = keys.map (·.color) := by
  cases keys <;> rfl

/-- What is put in order at zero stays on the level of zero. -/
theorem Proper.levels_startAtZero (h : gradient.Proper) :
    (startAtZero (inOrder gradient.zeros)).map (fun key => Single.level key.position.value) =
      gradient.zeros.map (fun key => Single.level key.position.value) := by
  have hlength : (startAtZero (inOrder gradient.zeros)).length = gradient.zeros.length := by
    rw [length_startAtZero, (inOrder_perm _).length_eq]
  have hsorted : ∀ key ∈ inOrder gradient.zeros, Single.level key.position.value = 0 :=
    fun key hkey => ((h.mem_zeros_iff key).mp ((inOrder_perm _).mem_iff.mp hkey)).2
  have hstart : ∀ key ∈ startAtZero (inOrder gradient.zeros),
      Single.level key.position.value = 0 := by
    cases hzeros : inOrder gradient.zeros with
    | nil =>
        intro key hkey
        cases hkey
    | cons first rest =>
        rw [hzeros, List.forall_mem_cons] at hsorted
        refine List.forall_mem_cons.mpr ⟨?_, hsorted.2⟩
        rw [Position.value_zero, Single.level_zero]
  have hzeros : ∀ key ∈ gradient.zeros, Single.level key.position.value = 0 :=
    fun key hkey => ((h.mem_zeros_iff key).mp hkey).2
  rw [List.map_congr_left hstart, List.map_congr_left hzeros, List.map_const', List.map_const',
    hlength]

/-- Putting the keys of a gradient in order again leaves equal positions. -/
theorem Proper.positions_normalize_keys (h : gradient.Proper) :
    ((normalize gradient.keys).positions == gradient.positions) = true := by
  have htwo : 2 ≤ gradient.keys.length := by
    have := h.two_le
    rwa [positions, List.length_map] at this
  have hnumbers : ∀ key ∈ gradient.keys, ¬ key.position.value.isNaN :=
    fun key hkey => h.not_isNaN _ (List.mem_map_of_mem hkey)
  rw [positions_beq_iff (not_isNaN_normalize htwo hnumbers) h.not_isNaN, h.normalize_keys,
    positions, positions, List.map_map, List.map_map]
  calc
    (startAtZero (inOrder gradient.zeros) ++ gradient.others).map
        (fun key => Single.level key.position.value) =
      (gradient.zeros ++ gradient.others).map (fun key => Single.level key.position.value) := by
        rw [List.map_append, List.map_append, h.levels_startAtZero]
    _ = gradient.keys.map (fun key => Single.level key.position.value) := by
        rw [h.zeros_append_others]

theorem Proper.colors_normalize_keys (h : gradient.Proper) :
    (normalize gradient.keys).keys.map (·.color) = gradient.keys.map (·.color) ↔
      (inOrder gradient.zeros).map (·.color) = gradient.zeros.map (·.color) := by
  rw [h.normalize_keys, ← h.zeros_append_others]
  simp only [List.map_append, colors_startAtZero, List.append_left_inj]

/-- Without a negative zero the keys at zero are in order already. -/
theorem Proper.startAtZero_zeros (h : gradient.Proper)
    (hpositive : ∀ position ∈ gradient.positions, position ≠ -0.0) :
    startAtZero (inOrder gradient.zeros) = gradient.zeros := by
  have hzero : ∀ key ∈ gradient.zeros, key.position = 0 := by
    intro key hkey
    obtain ⟨hkeys, hlevel⟩ := (h.mem_zeros_iff key).mp hkey
    have hposition : key.position.value ∈ gradient.positions := List.mem_map_of_mem hkeys
    refine Position.eq_of_value_eq (h.not_isNaN _ hposition) ?_
    rw [Position.value_zero]
    exact (Single.eq_zero_of_level hlevel).resolve_right (hpositive _ hposition)
  have hsorted : inOrder gradient.zeros = gradient.zeros := by
    apply Sorting.sort_of_pairwise
    refine List.pairwise_of_forall_mem_list fun a ha b hb => ?_
    rw [hzero a ha, hzero b hb]
    exact decide_eq_true (Int.le_refl _)
  rw [hsorted]
  cases hzeros : gradient.zeros with
  | nil => rfl
  | cons first rest =>
      rw [hzeros, List.forall_mem_cons] at hzero
      rw [startAtZero, ← hzero.1]

/-- A gradient that no key at negative zero belongs to is the same again. -/
theorem Proper.ofKeys_keys (h : gradient.Proper)
    (hpositive : ∀ position ∈ gradient.positions, position ≠ -0.0) :
    ofKeys gradient.keys = .ok gradient := by
  have htwo := h.two_le
  rw [positions, List.length_map] at htwo
  refine (ofKeys_eq_ok_iff _ _).mpr ⟨htwo, ?_⟩
  rw [h.normalize_keys, h.startAtZero_zeros hpositive, h.zeros_append_others]

/-- A gradient made of numbers can always be made anew from its own keys, with equal
positions.  It is equal to the first one exactly if ordering the keys at zero by their sign
bits keeps their colors in place, and the same if there is no negative zero. -/
theorem exists_rebuilt (h : Reachable (fun position => ¬ position.value.isNaN) gradient) :
    ∃ rebuilt, ofKeys gradient.keys = .ok rebuilt ∧
      (rebuilt.positions == gradient.positions) = true ∧
      ((rebuilt == gradient) = true ↔
        (inOrder gradient.zeros).map (·.color) = gradient.zeros.map (·.color)) ∧
      ((∀ position ∈ gradient.positions, position ≠ -0.0) → rebuilt = gradient) := by
  have hproper := h.proper h.not_isNaN
  have htwo := hproper.two_le
  rw [positions, List.length_map] at htwo
  have hpositions := hproper.positions_normalize_keys
  refine ⟨normalize gradient.keys, (ofKeys_eq_ok_iff _ _).mpr ⟨htwo, rfl⟩, hpositions, ?_, ?_⟩
  · rw [beq_eq_keys_beq, keys_beq_eq, Bool.and_eq_true, beq_iff_eq, hproper.colors_normalize_keys]
    exact and_iff_left hpositions
  · intro hpositive
    rw [hproper.normalize_keys, hproper.startAtZero_zeros hpositive, hproper.zeros_append_others]

/-- A gradient from red by way of green to blue, with green at a negative zero. -/
def signed : LinearGradient :=
  normalize [⟨.solid 255 0 0, -1⟩, ⟨.solid 0 255 0, -0⟩, ⟨.solid 0 0 255, 1⟩]

theorem reachable_signed : Reachable (fun position => ¬ position.value.isNaN) signed := by
  refine .ofKeys ?_ ((ofKeys_eq_ok_iff _ signed).mpr ⟨by decide, rfl⟩)
  decide +kernel

/-- Making it anew puts green in front of red. -/
theorem exists_rebuilt_signed :
    Reachable (fun position => ¬ position.value.isNaN) signed ∧
      ∃ rebuilt, ofKeys signed.keys = .ok rebuilt ∧
        (rebuilt.positions == signed.positions) = true ∧ (rebuilt == signed) = false := by
  obtain ⟨rebuilt, hrebuilt, hpositions, hequal, -⟩ := exists_rebuilt reachable_signed
  refine ⟨reachable_signed, rebuilt, hrebuilt, hpositions, ?_⟩
  rw [Bool.eq_false_iff, ne_eq, hequal]
  decide +kernel

/-- Not every gradient is equal to the one made from its keys. -/
theorem not_rebuilt_eq :
    ¬ ∀ gradient, Reachable (fun position => ¬ position.value.isNaN) gradient →
      ∃ rebuilt, ofKeys gradient.keys = .ok rebuilt ∧ (rebuilt == gradient) = true := by
  intro hall
  obtain ⟨rebuilt, hrebuilt, hequal⟩ := hall signed reachable_signed
  obtain ⟨-, rfl⟩ := (ofKeys_eq_ok_iff _ _).mp hrebuilt
  revert hequal
  decide +kernel

end LinearGradient

end LineGrammar
