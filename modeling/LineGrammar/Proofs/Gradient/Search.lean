/-
Looking up colors by any search.  A search for the first key that does not lie below a scalar
may halve the list of keys, and where positions are not numbers the keys need not be in order
for it.  A color is found all the same, and it is that of the first key if the scalar is not a
number.  Where the positions ascend, all searches find the same.
-/
import LineGrammar.Proofs.Gradient.NotNumbers
import LineGrammar.Proofs.Gradient.Placement

namespace LineGrammar

section SearchEnd

variable {A : Type} {p : A → Bool} {list : List A}

/-- Where a condition that has failed does not hold again, no search ends before another. -/
theorem SearchEnd.le (hlist : list.Pairwise fun a b => p b = true → p a = true) {i j : Nat}
    (hi : SearchEnd p list i) (hj : SearchEnd p list j) : j ≤ i := by
  by_contra hlt
  obtain ⟨y, hy, hholds⟩ := hj.before.resolve_left (by omega)
  obtain ⟨hylt, rfl⟩ := List.getElem?_eq_some_iff.mp hy
  obtain ⟨x, hx, hfails⟩ := hi.after.resolve_left (by omega)
  obtain ⟨hxlt, rfl⟩ := List.getElem?_eq_some_iff.mp hx
  have hstill : p list[i] = true := by
    rcases Nat.lt_or_eq_of_le (show i ≤ j - 1 by omega) with hbefore | hsame
    · exact List.pairwise_iff_getElem.mp hlist i (j - 1) hxlt hylt hbefore hholds
    · simpa only [hsame] using hholds
  rw [hfails] at hstill
  cases hstill

theorem SearchEnd.unique (hlist : list.Pairwise fun a b => p b = true → p a = true) {i j : Nat}
    (hi : SearchEnd p list i) (hj : SearchEnd p list j) : i = j :=
  Nat.le_antisymm (hj.le hlist hi) (hi.le hlist hj)

end SearchEnd

namespace LinearGradient

variable {gradient : LinearGradient}

/-- Where the positions ascend, the keys that lie below a scalar come first. -/
theorem Proper.below_pairwise (h : gradient.Proper) (f : Float32) :
    gradient.keys.Pairwise fun a b =>
      decide (b.position.value < f) = true → decide (a.position.value < f) = true := by
  refine (List.pairwise_map.mp h.ascending).imp fun {a b} hle hbelow => ?_
  rw [decide_eq_true_eq] at hbelow ⊢
  exact Single.lt_of_le_of_lt hle hbelow

theorem Proper.color?_eq (h : gradient.Proper) (search other : Search LinearKey) (f : Float32) :
    gradient.color? search f = gradient.color? other f := by
  have hplace := (search.ends _ gradient.keys).unique (h.below_pairwise (Single.clampUnit f))
    (other.ends _ gradient.keys)
  rw [color?, color?, hplace]

theorem Framed.exists_color? (h : gradient.Framed) (search : Search LinearKey) (f : Float32) :
    ∃ color, gradient.color? search f = some color := by
  rcases h.color?_cases search f with ⟨_, -, -, hcolor⟩ | ⟨_, _, _, -, -, -, -, hcolor⟩
  · exact ⟨_, hcolor⟩
  · exact ⟨_, hcolor⟩

/-- No key lies below what is not a number. -/
theorem Framed.color?_of_isNaN (h : gradient.Framed) (search : Search LinearKey) {f : Float32}
    (hnan : f.isNaN) : gradient.color? search f = gradient.keys.head?.map (·.color) := by
  rcases h.color?_cases search f with
    ⟨first, hfirst, -, hcolor⟩ | ⟨place, left, right, -, -, hbelow, -⟩
  · rw [hcolor, hfirst, Option.map_some]
  · rw [Single.clampUnit_of_isNaN hnan] at hbelow
    exact absurd hbelow (Single.not_lt_of_isNaN hnan left.position.value).2

end LinearGradient

namespace DiscreteGradient

/-- The color at a scalar as it is found on words.  An empty palette has no last place, and a
place beyond the palette has no color. -/
def lookup? (gradient : DiscreteGradient) (f : Float32) : Option Color := do
  let count := gradient.palette.size
  let step := (Single.clampUnit f * Single.ofCount count).toUInt64.toNat
  let last ← Word.sub? count 1
  gradient.palette[min step last]?

theorem color?_eq_lookup? (gradient : DiscreteGradient) (f : Float32) :
    gradient.color? f = gradient.lookup? f := by
  rw [color?, lookup?, Word.sub?]
  split
  · rfl
  · next hempty => exact Array.getElem?_eq_none (by omega)

theorem Reachable.exists_lookup? {gradient : DiscreteGradient} (h : Reachable gradient)
    (f : Float32) : ∃ color, gradient.lookup? f = some color := by
  have hpos := h.palette_pos.1
  rw [← color?_eq_lookup?]
  exact ⟨_, Array.getElem?_eq_getElem (by omega)⟩

/-- What is not a number is in the first step. -/
theorem Reachable.lookup?_of_isNaN {gradient : DiscreteGradient} (h : Reachable gradient)
    {f : Float32} (hnan : f.isNaN) :
    gradient.lookup? f = gradient.keys.head?.map (·.color) := by
  have hstep : (Single.clampUnit f * Single.ofCount gradient.palette.size).toUInt64 = 0 := by
    rw [Single.clampUnit_of_isNaN hnan]
    exact Single.toUInt64_of_isNaN (Single.isNaN_mul_of_isNaN hnan _)
  rw [← color?_eq_lookup?, color?, hstep, ← h.palette_pos.2, UInt64.toNat_zero, Nat.zero_min]

end DiscreteGradient

namespace Generator

/-- The generators that come about.  Any positions and indices may be passed to their
gradients. -/
inductive Reachable : Generator → Prop
  | constant (color : Color) : Reachable (.constant color)
  | linear {gradient : LinearGradient}
      (h : LinearGradient.Reachable (fun _ => True) gradient) : Reachable (.linear gradient)
  | discrete {gradient : DiscreteGradient}
      (h : DiscreteGradient.Reachable gradient) : Reachable (.discrete gradient)
  | ofValue {generator : Generator} {nested : Bool} {value : Value}
      (h : ofValue nested value = .ok generator) : Reachable generator

/-- A generator that is read is one that could have been made. -/
theorem Reachable.cases_kind {generator : Generator} (h : Reachable generator) :
    (∃ color, generator = .constant color) ∨
      (∃ gradient, LinearGradient.Reachable (fun _ => True) gradient ∧
        generator = .linear gradient) ∨
      ∃ gradient, DiscreteGradient.Reachable gradient ∧ generator = .discrete gradient := by
  cases h with
  | constant color => exact .inl ⟨color, rfl⟩
  | linear h => exact .inr (.inl ⟨_, h, rfl⟩)
  | discrete h => exact .inr (.inr ⟨_, h, rfl⟩)
  | ofValue h =>
      rcases cases_of_ofValue h with hconstant | ⟨keys, gradient, hmade, hlinear⟩ |
        ⟨keys, gradient, hmade, hdiscrete⟩
      · exact .inl hconstant
      · exact .inr (.inl ⟨gradient, .ofKeys (fun _ _ => trivial) hmade, hlinear⟩)
      · exact .inr (.inr ⟨gradient, .ofKeys hmade, hdiscrete⟩)

/-- The color for a scalar as it is found by some search, on words. -/
def lookup? (search : Search LinearKey) : Generator → Float32 → Option Color
  | constant color, _ => some color
  | linear gradient, f => gradient.color? search f
  | discrete gradient, f => gradient.lookup? f

/-- The color of the first key, or the only one. -/
def first? : Generator → Option Color
  | constant color => some color
  | linear gradient => gradient.keys.head?.map (·.color)
  | discrete gradient => gradient.keys.head?.map (·.color)

def Numbered : Generator → Prop
  | linear gradient => ∀ position ∈ gradient.positions, ¬ position.isNaN
  | constant _ | discrete _ => True

theorem color?_eq_lookup? (generator : Generator) (search : Search LinearKey) (f : Float32) :
    generator.color? search f = generator.lookup? search f := by
  cases generator with
  | constant color => rfl
  | linear gradient => rfl
  | discrete gradient => exact gradient.color?_eq_lookup? f

/-- Every search finds a color, with only those keys and places of a palette being asked for
that are there.  For what is not a number it is the color of the first key.  Which search it
was only matters if some key is not at a number. -/
theorem found_by_search {generator : Generator} (h : Reachable generator)
    (search : Search LinearKey) (f : Float32) :
    generator.color? search f = generator.lookup? search f ∧
      ∃ color, generator.lookup? search f = some color ∧
        (f.isNaN → generator.first? = some color) ∧
        (generator.Numbered →
          ∀ other : Search LinearKey, generator.color? other f = some color) := by
  refine ⟨generator.color?_eq_lookup? search f, ?_⟩
  rcases h.cases_kind with ⟨color, rfl⟩ | ⟨gradient, hgradient, rfl⟩ | ⟨gradient, hgradient, rfl⟩
  · exact ⟨color, rfl, fun _ => rfl, fun _ _ => rfl⟩
  · obtain ⟨color, hcolor⟩ := hgradient.framed.exists_color? search f
    refine ⟨color, hcolor, fun hnan => ?_, fun hnumbers other => ?_⟩
    · exact (hgradient.framed.color?_of_isNaN search hnan).symm.trans hcolor
    · exact ((hgradient.proper hnumbers).color?_eq other search f).trans hcolor
  · obtain ⟨color, hcolor⟩ := hgradient.exists_lookup? f
    refine ⟨color, hcolor, fun hnan => ?_, fun _ other => ?_⟩
    · exact (hgradient.lookup?_of_isNaN hnan).symm.trans hcolor
    · exact (gradient.color?_eq_lookup? f).trans hcolor

/-- Keys of which two come before all numbers.  The first of these is put at zero, the other
one stays between it and the numbers. -/
def unordered : LinearGradient :=
  .normalize [⟨.solid 255 0 0, -.stray⟩, ⟨.solid 0 255 0, -.stray⟩, ⟨.solid 0 0 255, 0.3⟩,
    ⟨.white, 0.6⟩]

/-- A key that lies nowhere does not keep a search from ending, although the keys below a scalar
do not come first.  From beyond the unit interval the last color of a palette is found. -/
theorem found_by_search_lost :
    let stray := Generator.linear unordered
    let stepped := Generator.discrete DiscreteGradient.blackAndWhite
    (Reachable stray ∧ Reachable stepped) ∧
      (unordered.keys.map fun key => decide (key.position.value < 0.75)) =
        [true, false, true, false] ∧
      ((0 / 0 : Float32).isNaN ∧ stray.lookup? .halving (0 / 0) = some (.solid 255 0 0)) ∧
      (∃ color, stray.lookup? .halving 0.75 = some color) ∧
      (stepped.Numbered ∧ stepped.lookup? .halving (1 / 0) = some .white) := by
  intro stray stepped
  have hstray : Reachable stray :=
    .linear (.ofKeys (fun _ _ => trivial)
      ((LinearGradient.ofKeys_eq_ok_iff _ _).mpr ⟨by decide, rfl⟩))
  have hstepped : Reachable stepped := by
    have hmade : DiscreteGradient.ofKeys [⟨.black, 0⟩, ⟨.white, 1⟩] =
        .ok DiscreteGradient.blackAndWhite := by
      decide +kernel
    exact .discrete (.ofKeys hmade)
  have hnan : (0 / 0 : Float32).isNaN := by decide +kernel
  have hfirst : stray.first? = some (.solid 255 0 0) := by decide +kernel
  have hlast : stepped.color? .halving (1 / 0) = some .white := by decide +kernel
  obtain ⟨-, color, hcolor, hhead, -⟩ := found_by_search hstray .halving (0 / 0)
  obtain ⟨-, between, hbetween, -, -⟩ := found_by_search hstray .halving 0.75
  obtain ⟨-, top, hend, -, hsame⟩ := found_by_search hstepped .halving (1 / 0)
  refine ⟨⟨hstray, hstepped⟩, by decide +kernel, ⟨hnan, ?_⟩, ⟨between, hbetween⟩, trivial, ?_⟩
  · exact hcolor.trans ((hhead hnan).symm.trans hfirst)
  · exact hend.trans ((hsame trivial .halving).symm.trans hlast)

end Generator

end LineGrammar
