/-
Interpolation between the keys of a gradient.  Where positions are numbers, a scalar above zero
lies between exactly two neighbouring keys, the color found for it is mixed in proportion to
its way from the left one to the right one, and at the position of a key it is the color of the
first key there.
-/
import LineGrammar.Proofs.Gradient.Mixing
import LineGrammar.Proofs.Gradient.Search

namespace LineGrammar

namespace LinearGradient

/-- A scalar lies between the keys at a place and the next one: above the left key, and not
above the right one. -/
structure Encloses (gradient : LinearGradient) (f : Float32) (place : Nat)
    (left right : LinearKey) : Prop where
  left_eq : gradient.keys[place]? = some left
  right_eq : gradient.keys[place + 1]? = some right
  above : left.position.value < f
  not_above : f ≤ right.position.value

variable {gradient : LinearGradient}

/-- A place between two keys is where a search for the right one ends. -/
theorem Encloses.searchEnd {f : Float32} {place : Nat}
    {left right : LinearKey} (h : gradient.Encloses f place left right) :
    SearchEnd (fun key : LinearKey => decide (key.position.value < f)) gradient.keys
      (place + 1) where
  before := .inr ⟨left, h.left_eq, decide_eq_true h.above⟩
  after := by
    refine .inr ⟨right, h.right_eq, decide_eq_false fun hbelow => ?_⟩
    obtain ⟨hright, hf⟩ := Single.not_isNaN_of_lt hbelow
    have hle := (Single.le_iff_level hf hright).mp h.not_above
    have hlt := (Single.lt_iff_level hright hf).mp hbelow
    omega

theorem Encloses.unique (hproper : gradient.Proper) {f : Float32}
    {place place' : Nat} {left left' right right' : LinearKey}
    (h : gradient.Encloses f place left right) (h' : gradient.Encloses f place' left' right') :
    place = place' ∧ left = left' ∧ right = right' := by
  have hplace := h.searchEnd.unique (hproper.below_pairwise f) h'.searchEnd
  obtain rfl : place = place' := Nat.succ_injective hplace
  exact ⟨rfl, Option.some_inj.mp (h.left_eq.symm.trans h'.left_eq),
    Option.some_inj.mp (h.right_eq.symm.trans h'.right_eq)⟩

theorem Proper.level_mem (h : gradient.Proper) {key : LinearKey} (hkey : key ∈ gradient.keys) :
    ¬ key.position.value.isNaN ∧ 0 ≤ Single.level key.position.value ∧
      Single.level key.position.value ≤ 0x3f800000 :=
  ⟨h.not_isNaN _ (List.mem_map_of_mem hkey), h.level_mem_unit hkey⟩

theorem Proper.exists_first (h : gradient.Proper) :
    ∃ first, gradient.keys[0]? = some first ∧ first.position.value = 0 := by
  have hhead := h.head
  rw [positions, List.head?_map, Option.map_eq_some_iff, List.head?_eq_getElem?] at hhead
  exact hhead

/-- A scalar above zero lies between two keys, which any search finds. -/
theorem Proper.exists_encloses (h : gradient.Proper) (search : Search LinearKey) {f : Float32}
    (hf : 0 < f) :
    ∃ place left right, gradient.Encloses (Single.lesser f 1) place left right ∧
      gradient.color? search f = some (mix left right (Single.lesser f 1)) := by
  have hnumber := (Single.not_isNaN_of_lt hf).2
  have hclamped : ¬ (Single.clampUnit f).isNaN := by rwa [Single.isNaN_clampUnit]
  have hpos : 0 < Single.clampUnit f := by
    have hlevel := (Single.lt_iff_level Single.not_isNaN_zero hnumber).mp hf
    rw [Single.lt_iff_level Single.not_isNaN_zero hclamped, Single.level_clampUnit hnumber]
    rw [Single.level_zero] at hlevel ⊢
    omega
  rw [← Single.clampUnit_eq_lesser hf]
  rcases h.framed.color?_cases search f with
    ⟨first, hfirst, hnot, -⟩ | ⟨place, left, right, hleft, hright, habove, hnot, hcolor⟩
  · -- The first key lies below the scalar.
    obtain ⟨first', hfirst', hzero⟩ := h.exists_first
    rw [← List.head?_eq_getElem?, hfirst, Option.some_inj] at hfirst'
    rw [hfirst', hzero] at hnot
    exact absurd hpos hnot
  · refine ⟨place, left, right, ⟨hleft, hright, habove, ?_⟩, hcolor⟩
    obtain ⟨hrightNumber, -⟩ := h.level_mem (List.mem_of_getElem? hright)
    rw [Single.lt_iff_level hrightNumber hclamped] at hnot
    rw [Single.le_iff_level hclamped hrightNumber]
    omega

/-- Between two keys the color is mixed in proportion to the way from the left one. -/
theorem Proper.mix_eq (h : gradient.Proper) {f : Float32} {place : Nat} {left right : LinearKey}
    (hbetween : gradient.Encloses f place left right) :
    0 < right.position.value - left.position.value ∧
      mix left right f = left.color.lerp right.color
        ((f - left.position.value) / (right.position.value - left.position.value)) := by
  have hspan : 0 < right.position.value - left.position.value := by
    obtain ⟨hleft, hlow, -⟩ := h.level_mem (List.mem_of_getElem? hbetween.left_eq)
    obtain ⟨hright, -, hhigh⟩ := h.level_mem (List.mem_of_getElem? hbetween.right_eq)
    have hf := (Single.not_isNaN_of_lt hbetween.above).2
    have habove := (Single.lt_iff_level hleft hf).mp hbetween.above
    have hnot := (Single.le_iff_level hf hright).mp hbetween.not_above
    exact Single.sub_pos hlow (by omega) (by omega)
  exact ⟨hspan, by rw [mix, if_pos hspan]⟩

theorem Proper.level_le (h : gradient.Proper) {i j : Nat} {key key' : LinearKey}
    (hkey : gradient.keys[i]? = some key) (hkey' : gradient.keys[j]? = some key') (hij : i ≤ j) :
    Single.level key.position.value ≤ Single.level key'.position.value := by
  rcases Nat.lt_or_eq_of_le hij with hlt | rfl
  · obtain ⟨hi, rfl⟩ := List.getElem?_eq_some_iff.mp hkey
    obtain ⟨hj, rfl⟩ := List.getElem?_eq_some_iff.mp hkey'
    exact List.pairwise_iff_getElem.mp h.level_pairwise i j hi hj hlt
  · rw [Option.some_inj.mp (hkey.symm.trans hkey')]

/-- At the position of a key the right one of the two keys is the first key there. -/
theorem Proper.find?_eq_right (h : gradient.Proper) {key : LinearKey} (hkey : key ∈ gradient.keys)
    {place : Nat} {left right : LinearKey} (hpos : 0 < key.position.value)
    (hbetween : gradient.Encloses key.position.value place left right) :
    right.position.value = key.position.value ∧
      gradient.keys.find? (fun other => other.position.value == key.position.value) =
        some right := by
  obtain ⟨i, hi⟩ := List.getElem?_of_mem hkey
  have hnumber := (h.level_mem hkey).1
  have hleft := (h.level_mem (List.mem_of_getElem? hbetween.left_eq)).1
  have hright := (h.level_mem (List.mem_of_getElem? hbetween.right_eq)).1
  have habove := (Single.lt_iff_level hleft hnumber).mp hbetween.above
  have hnot := (Single.le_iff_level hnumber hright).mp hbetween.not_above
  have hlevel := (Single.lt_iff_level Single.not_isNaN_zero hnumber).mp hpos
  rw [Single.level_zero] at hlevel
  have hafter : place + 1 ≤ i := by
    by_contra hbefore
    have hle := h.level_le hi hbetween.left_eq (by omega)
    omega
  have hsame : right.position.value = key.position.value := by
    have hle := h.level_le hbetween.right_eq hi hafter
    exact Single.eq_of_level (by omega) (by omega)
  obtain ⟨hplace, hget⟩ := List.getElem?_eq_some_iff.mp hbetween.right_eq
  refine ⟨hsame, List.find?_eq_some_iff_getElem.mpr
    ⟨(Single.beq_iff_level hright hnumber).mpr (by rw [hsame]), place + 1, hplace, hget, ?_⟩⟩
  intro j hj
  have hle := h.level_le (List.getElem?_eq_getElem (by omega)) hbetween.left_eq
    (Nat.lt_succ_iff.mp hj)
  rw [Bool.not_eq_true', ← Bool.not_eq_true,
    Single.beq_iff_level (h.level_mem (List.getElem_mem (by omega))).1 hnumber]
  omega

/-- At the position of a key above zero is the color of the first key there. -/
theorem Proper.color?_position (h : gradient.Proper) (search : Search LinearKey)
    {key : LinearKey} (hkey : key ∈ gradient.keys) (hpos : 0 < key.position.value) :
    ∃ first, gradient.keys.find? (fun other => other.position.value == key.position.value) =
        some first ∧
      gradient.color? search key.position.value = some first.color := by
  have hcapped : Single.lesser key.position.value 1 = key.position.value := by
    obtain ⟨hnumber, hlow, hhigh⟩ := h.level_mem hkey
    rw [← Single.clampUnit_eq_lesser hpos, Single.clampUnit_of_level hnumber hlow hhigh]
  obtain ⟨place, left, right, hbetween, hcolor⟩ := h.exists_encloses search hpos
  rw [hcapped] at hbetween hcolor
  obtain ⟨hright, hfirst⟩ := h.find?_eq_right hkey hpos hbetween
  obtain ⟨hspan, hmix⟩ := h.mix_eq hbetween
  refine ⟨right, hfirst, ?_⟩
  have hfinite : (right.position.value - left.position.value).isFinite := by
    obtain ⟨hleftNumber, hlow, hhigh⟩ := h.level_mem (List.mem_of_getElem? hbetween.left_eq)
    obtain ⟨hrightNumber, hlow', hhigh'⟩ := h.level_mem (List.mem_of_getElem? hbetween.right_eq)
    exact Single.isFinite_sub hrightNumber hleftNumber (by omega) (by omega)
  have hnonzero : Single.level (right.position.value - left.position.value) ≠ 0 := by
    rw [Single.lt_iff_level Single.not_isNaN_zero (Single.not_isNaN_of_isFinite hfinite),
      Single.level_zero] at hspan
    omega
  rw [hcolor, hmix, ← hright, Single.div_self hfinite hnonzero, Color.lerp_one]

/-- Up to the first key is the color of that key. -/
theorem Proper.color?_of_le_zero (h : gradient.Proper) (search : Search LinearKey) {f : Float32}
    (hf : f ≤ 0) :
    ∃ first, gradient.keys.head? = some first ∧ gradient.color? search f = some first.color := by
  have hnumber : ¬ f.isNaN := fun hnan => (Single.not_le_of_isNaN hnan 0).1 hf
  have hclamped : ¬ (Single.clampUnit f).isNaN := by rwa [Single.isNaN_clampUnit]
  rcases h.framed.color?_cases search f with
    ⟨first, hfirst, -, hcolor⟩ | ⟨place, left, right, hleft, -, hbelow, -⟩
  · exact ⟨first, hfirst, hcolor⟩
  · -- No key lies below zero.
    obtain ⟨hleftNumber, hlow, -⟩ := h.level_mem (List.mem_of_getElem? hleft)
    have hlevel := (Single.le_iff_level hnumber Single.not_isNaN_zero).mp hf
    rw [Single.lt_iff_level hleftNumber hclamped, Single.level_clampUnit hnumber] at hbelow
    rw [Single.level_zero] at hlevel
    omega

/-- The color of a gradient at a number.  Up to the first key it is the color of that key.  Above
it the number, capped at one, lies between exactly two neighbouring keys that are apart, and the
color is mixed in proportion to the way between them.  At the position of a key above zero it is
the color of the first key there.  Every search finds the same. -/
theorem color?_interpolates (h : Reachable (fun _ => True) gradient)
    (hnumbers : ∀ position ∈ gradient.positions, ¬ position.isNaN) (search : Search LinearKey) :
    (∀ f : Float32, ¬ f.isNaN →
      (f ≤ 0 → ∃ first, gradient.keys.head? = some first ∧
        gradient.color? search f = some first.color) ∧
      (¬ f ≤ 0 → ∃ place left right,
        let capped := Single.lesser f 1
        gradient.Encloses capped place left right ∧
        (∀ place' left' right', gradient.Encloses capped place' left' right' →
          place' = place ∧ left' = left ∧ right' = right) ∧
        0 < right.position.value - left.position.value ∧
        gradient.color? search f = some (left.color.lerp right.color
          ((capped - left.position.value) / (right.position.value - left.position.value))))) ∧
    (∀ key ∈ gradient.keys, 0 < key.position.value →
      ∃ first, gradient.keys.find? (fun other => other.position.value == key.position.value) =
          some first ∧
        gradient.color? search key.position.value = some first.color) ∧
    ∀ (other : Search LinearKey) f, gradient.color? other f = gradient.color? search f := by
  have hproper := h.proper hnumbers
  refine ⟨fun f hnumber => ⟨hproper.color?_of_le_zero search, fun hpositive => ?_⟩,
    fun key hkey hpos => hproper.color?_position search hkey hpos,
    fun other f => hproper.color?_eq other search f⟩
  have hf : 0 < f := by
    rw [Single.le_iff_level hnumber Single.not_isNaN_zero] at hpositive
    rw [Single.lt_iff_level Single.not_isNaN_zero hnumber]
    omega
  obtain ⟨place, left, right, hbetween, hcolor⟩ := hproper.exists_encloses search hf
  obtain ⟨hspan, hmix⟩ := hproper.mix_eq hbetween
  exact ⟨place, left, right, hbetween, fun _ _ _ hother => hother.unique hproper hbetween, hspan,
    hcolor.trans (congrArg some hmix)⟩

/-- Keys with two at one place, one beyond either end and one that lies nowhere. -/
def tied : List LinearKey :=
  [⟨.solid 255 0 0, 0.25⟩, ⟨.solid 0 255 0, 0.25⟩, ⟨.solid 0 0 255, -3⟩, ⟨.white, 7⟩,
    ⟨.black, .stray⟩]

/-- Of two keys at one place the first is found there.  Beyond the last key is the color of the
first of those at one. -/
theorem color?_interpolates_tied :
    (Reachable (fun _ => True) (normalize tied) ∧
        ∀ position ∈ (normalize tied).positions, ¬ position.isNaN) ∧
      (normalize tied).color? .halving (-7) = some (.solid 0 0 255) ∧
      (∃ place left right, (normalize tied).Encloses (Single.lesser 9 1) place left right) ∧
      (normalize tied).color? .halving 0.25 = some (.solid 255 0 0) := by
  have hreachable : Reachable (fun _ => True) (normalize tied) :=
    .ofKeys (fun _ _ => trivial) ((ofKeys_eq_ok_iff _ _).mpr ⟨by decide, rfl⟩)
  have hnumbers : ∀ position ∈ (normalize tied).positions, ¬ position.isNaN := by
    decide +kernel
  obtain ⟨hcolors, hkeys, -⟩ := color?_interpolates hreachable hnumbers .halving
  refine ⟨⟨hreachable, hnumbers⟩, ?_, ?_, ?_⟩
  · obtain ⟨first, hfirst, hcolor⟩ := (hcolors (-7) (by decide +kernel)).1 (by decide +kernel)
    have hblue : (normalize tied).keys.head?.map (·.color) = some (.solid 0 0 255) := by
      decide +kernel
    rwa [hfirst, Option.map_some, ← hcolor] at hblue
  · obtain ⟨place, left, right, hbetween, -⟩ :=
      (hcolors 9 (by decide +kernel)).2 (by decide +kernel)
    exact ⟨place, left, right, hbetween⟩
  · obtain ⟨key, hkey, hlevel⟩ : ∃ key ∈ (normalize tied).keys,
        Single.level key.position.value = Single.level 0.25 := by
      decide +kernel
    have hposition : key.position.value = 0.25 := Single.eq_of_level hlevel (by decide +kernel)
    obtain ⟨first, hfirst, hcolor⟩ := hkeys key hkey (by rw [hposition]; decide +kernel)
    have hred : ((normalize tied).keys.find? (fun other =>
        other.position.value == 0.25)).map (·.color) = some (.solid 255 0 0) := by
      decide +kernel
    rw [hposition] at hfirst hcolor
    rwa [hfirst, Option.map_some, ← hcolor] at hred

end LinearGradient

end LineGrammar
