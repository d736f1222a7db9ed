/-
Looking up colors.  Where positions are not numbers the keys need not be in order for a search,
which may then end at one place or another.  All that is known of it is that the key right
before this place lies below the scalar and the one at the place does not.  It is enough for
the parameter at which two colors are mixed to be a number: the left key and the scalar are
numbers, and a span that is none is not divided by.  Gradients of opaque colors therefore have
an opaque color for every scalar, even one that is not a number.
-/
import LineGrammar.Generator
import LineGrammar.Proofs.Gradient.Linear
import LineGrammar.Proofs.Gradient.Palette

namespace LineGrammar

namespace LinearGradient

/-- The last position is one.  All others are in the unit interval or not numbers, in whatever
order they come. -/
structure Framed (gradient : LinearGradient) : Prop where
  last : gradient.positions.getLast? = some 1
  within : ∀ position ∈ gradient.positions, ¬ position.isNaN →
    0 ≤ Single.level position ∧ Single.level position ≤ 0x3f800000

theorem framed_normalize {keys : List LinearKey} (htwo : 2 ≤ keys.length) :
    (normalize keys).Framed := by
  obtain ⟨first, middle, last, -, hpositions⟩ := exists_middle htwo
  refine ⟨?_, ?_⟩
  · rw [hpositions, ← List.cons_append]
    exact List.getLast?_concat
  · rw [hpositions]
    intro position hposition hnumber
    rcases List.mem_cons.mp hposition with rfl | hposition
    · decide +kernel
    rcases List.mem_append.mp hposition with hposition | hposition
    · obtain ⟨key, -, rfl⟩ := List.mem_map.mp hposition
      rw [Single.isNaN_clampUnit] at hnumber
      exact Single.clampUnit_mem hnumber
    · rw [List.mem_singleton.mp hposition]
      decide +kernel

theorem Framed.of_positions_eq {gradient gradient' : LinearGradient} (h : gradient.Framed)
    (heq : gradient'.positions = gradient.positions) : gradient'.Framed := by
  obtain ⟨hlast, hwithin⟩ := h
  rw [← heq] at hlast hwithin
  exact ⟨hlast, hwithin⟩

theorem Proper.framed {gradient : LinearGradient} (h : gradient.Proper) : gradient.Framed :=
  ⟨h.last, fun position hposition hnumber =>
    (Single.mem_unit_iff_level hnumber).mp (h.within position hposition)⟩

theorem Reachable.framed {allowed : Position → Prop} {gradient : LinearGradient}
    (h : Reachable allowed gradient) : gradient.Framed := by
  induction h with
  | between first last => exact (proper_between first last).framed
  | @ofKeys keys gradient hallowed h =>
      obtain ⟨htwo, rfl⟩ := (ofKeys_eq_ok_iff keys gradient).mp h
      exact framed_normalize htwo
  | @perform gradient operation hallowed h ih =>
      rcases positions_perform gradient operation h.proper_or_not_number.1 with
        hpositions | ⟨keys, htwo, -, hperform⟩
      · exact ih.of_positions_eq hpositions
      · rw [hperform]
        exact framed_normalize htwo

/-- The parameter at which two keys are mixed is a number if the left one and the scalar are
numbers of the unit interval, whatever the right one is. -/
theorem alpha_mix {a b : LinearKey} {f : Float32} (hbelow : a.position.value < f)
    (ha : 0 ≤ Single.level a.position.value) (hf : Single.level f ≤ 0x3f800000)
    (hleft : a.color.alpha = 255) (hright : b.color.alpha = 255) : (mix a b f).alpha = 255 := by
  obtain ⟨haNumber, hfNumber⟩ := Single.not_isNaN_of_lt hbelow
  have hlevel := (Single.lt_iff_level haNumber hfNumber).mp hbelow
  refine Color.alpha_lerp ?_ hleft hright
  split
  · next hspan =>
      have hnumber := (Single.not_isNaN_of_lt hspan).2
      rw [Single.lt_iff_level Single.not_isNaN_zero hnumber, Single.level_zero] at hspan
      exact Single.not_isNaN_div (Single.isFinite_sub hfNumber haNumber (by omega) (by omega))
        hnumber hspan.ne'
  · exact Single.not_isNaN_one

theorem not_one_lt_clampUnit (f : Float32) : ¬ 1 < Single.clampUnit f := by
  by_cases hnan : f.isNaN
  · rw [Single.clampUnit_of_isNaN hnan]
    exact (Single.not_lt_of_isNaN hnan 1).2
  · have hnumber : ¬ (Single.clampUnit f).isNaN := by rwa [Single.isNaN_clampUnit]
    rw [Single.lt_iff_level Single.not_isNaN_one hnumber, Single.level_one]
    exact Int.not_lt_of_ge (Single.clampUnit_mem hnan).2

/-- What may come of a search.  It stays at the first key if that does not lie below the
scalar, or it ends between two keys of which the left one does and the right one does not.  It
does not go beyond the last key, which is at one. -/
theorem Framed.color?_cases {gradient : LinearGradient} (h : gradient.Framed)
    (search : Search LinearKey) (f : Float32) :
    (∃ first, gradient.keys.head? = some first ∧
        ¬ first.position.value < Single.clampUnit f ∧
        gradient.color? search f = some first.color) ∨
      ∃ place left right, gradient.keys[place]? = some left ∧
        gradient.keys[place + 1]? = some right ∧ left.position.value < Single.clampUnit f ∧
        ¬ right.position.value < Single.clampUnit f ∧
        gradient.color? search f = some (mix left right (Single.clampUnit f)) := by
  have hlast := h.last
  rw [positions, List.getLast?_map, Option.map_eq_some_iff] at hlast
  obtain ⟨last, hlast, hone⟩ := hlast
  have hend := search.ends (fun key => decide (key.position.value < Single.clampUnit f))
    gradient.keys
  rw [color?]
  generalize search.find (fun key => decide (key.position.value < Single.clampUnit f))
    gradient.keys = upper at hend ⊢
  have hinside : upper ≠ gradient.keys.length := by
    rintro rfl
    rcases hend.before with hempty | ⟨key, hkey, hbelow⟩
    · rw [List.length_eq_zero_iff.mp hempty] at hlast
      cases hlast
    · rw [← List.getLast?_eq_getElem?, hlast, Option.some_inj] at hkey
      rw [← hkey, hone, decide_eq_true_eq] at hbelow
      exact not_one_lt_clampUnit f hbelow
  obtain ⟨right, hright, hnot⟩ := hend.after.resolve_left hinside
  rw [decide_eq_false_iff_not] at hnot
  cases upper with
  | zero =>
      rw [← List.head?_eq_getElem?] at hright
      refine .inl ⟨right, hright, hnot, ?_⟩
      rw [if_pos rfl, ← List.head?_eq_getElem?, hright, Option.map_some]
  | succ place =>
      obtain ⟨left, hleft, hbelow⟩ := hend.before.resolve_left (Nat.succ_ne_zero place)
      refine .inr ⟨place, left, right, hleft, hright, of_decide_eq_true hbelow, hnot, ?_⟩
      rw [Nat.add_sub_cancel] at hleft
      rw [if_neg (Nat.succ_ne_zero place), Nat.add_sub_cancel, hleft, hright]
      rfl

/-- A gradient of opaque colors has an opaque color for every scalar. -/
theorem Framed.exists_color {gradient : LinearGradient} (h : gradient.Framed)
    (hsolid : ∀ key ∈ gradient.keys, key.color.alpha = 255) (search : Search LinearKey)
    (f : Float32) :
    ∃ color, gradient.color? search f = some color ∧ color.alpha = 255 := by
  rcases h.color?_cases search f with
    ⟨first, hfirst, -, hcolor⟩ | ⟨place, left, right, hleft, hright, hbelow, -, hcolor⟩
  · exact ⟨first.color, hcolor, hsolid first (List.mem_of_head? hfirst)⟩
  · have hmem := List.mem_of_getElem? hleft
    have hf : Single.level (Single.clampUnit f) ≤ 0x3f800000 := by
      have hnumber := (Single.not_isNaN_of_lt hbelow).2
      rw [Single.isNaN_clampUnit] at hnumber
      exact (Single.clampUnit_mem hnumber).2
    have hzero := (h.within left.position.value (List.mem_map_of_mem hmem)
      (Single.not_isNaN_of_lt hbelow).1).1
    exact ⟨_, hcolor, alpha_mix hbelow hzero hf (hsolid left hmem)
      (hsolid right (List.mem_of_getElem? hright))⟩

end LinearGradient

namespace DiscreteGradient

/-- All colors that opaque keys span are opaque. -/
theorem alpha_of_mem_expand {keys : List DiscreteKey}
    (hascending : (keys.map (·.index)).Pairwise (· < ·))
    (hbounded : ∀ key ∈ keys, key.index < 2 ^ 64)
    (hsolid : ∀ key ∈ keys, key.color.alpha = 255) :
    ∀ color ∈ expand keys, color.alpha = 255 := by
  induction keys with
  | nil =>
      intro color hcolor
      cases hcolor
  | cons key rest ih =>
      cases rest with
      | nil => simpa [expand] using hsolid
      | cons next rest =>
          obtain ⟨hlt, hascending⟩ := ascending_cons hascending
          rw [List.forall_mem_cons] at hbounded hsolid
          have hnext := hbounded.2 next List.mem_cons_self
          intro color hcolor
          rcases List.mem_append.mp hcolor with hcolor | hcolor
          · obtain ⟨step, -, rfl⟩ := List.mem_map.mp hcolor
            exact Color.alpha_lerp
              (Single.not_isNaN_div_ofCount (Nat.sub_pos_of_lt hlt) (by omega) step)
              hsolid.1 (hsolid.2 next List.mem_cons_self)
          · exact ih hascending hbounded.2 hsolid.2 color hcolor

/-- A palette begins with the color of the first key. -/
theorem Reachable.palette_pos {gradient : DiscreteGradient} (h : Reachable gradient) :
    0 < gradient.palette.size ∧
      gradient.palette[0]? = gradient.keys.head?.map (·.color) := by
  obtain ⟨-, hproper, hpalette⟩ := h.proper
  have hspans := hproper.spans
  rw [hpalette] at hspans
  have hhead := hproper.head
  rw [List.head?_map, Option.map_eq_some_iff] at hhead
  obtain ⟨first, hfirst, hzero⟩ := hhead
  have hcolor := hspans.at_key first (List.mem_of_mem_head? hfirst)
  rw [hzero] at hcolor
  refine ⟨(Array.getElem?_eq_some_iff.mp hcolor).1, ?_⟩
  rw [hcolor, hfirst, Option.map_some]

theorem Reachable.exists_color {gradient : DiscreteGradient} (h : Reachable gradient)
    (hsolid : ∀ key ∈ gradient.keys, key.color.alpha = 255) (f : Float32) :
    ∃ color, gradient.color? f = some color ∧ color.alpha = 255 := by
  obtain ⟨-, hproper, hpalette⟩ := h.proper
  have hpos := h.palette_pos.1
  have hcolors : ∀ color ∈ gradient.palette, color ∈ expand gradient.keys := by
    have hexpanded : gradient.palette = (expand gradient.keys).toArray :=
      (congrArg palette hpalette).symm
    intro color hcolor
    rw [hexpanded] at hcolor
    exact List.mem_toArray.mp hcolor
  have hindex : ∀ step, min step (gradient.palette.size - 1) < gradient.palette.size := by
    intro step
    omega
  exact ⟨_, Array.getElem?_eq_getElem (hindex _),
    alpha_of_mem_expand hproper.ascending hproper.index_lt hsolid _
      (hcolors _ (Array.getElem_mem (hindex _)))⟩

end DiscreteGradient

end LineGrammar
