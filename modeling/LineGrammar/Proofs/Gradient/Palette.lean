/-
The palettes of gradients in steps.  A palette has one color for each number up to the last
key: at a key the color of that key, and between two neighbouring keys their mixtures.  This
holds of every gradient, whatever changes were asked of it and whichever of them were
refused.
-/
import LineGrammar.Proofs.Gradient.Discrete
import LineGrammar.Proofs.Gradient.Mixing
import LineGrammar.Proofs.Scene.Records

namespace LineGrammar

namespace DiscreteGradient

/-- Up to the next key there are mixtures with it. -/
theorem getElem?_expand_step {key next : DiscreteKey} {step : Nat} (rest : List DiscreteKey)
    (hstep : step < next.index - key.index) :
    (expand (key :: next :: rest))[step]? = some (key.color.lerp next.color
      (Single.ofCount step / Single.ofCount (next.index - key.index))) := by
  rw [expand, List.getElem?_append_left (by rwa [length_steps]), steps, List.getElem?_map,
    List.getElem?_range hstep]
  rfl

/-- From the next key on the first one plays no part. -/
theorem getElem?_expand_of_le {key next : DiscreteKey} {i : Nat} (rest : List DiscreteKey)
    (hlt : key.index < next.index) (hle : next.index ≤ i) :
    (expand (key :: next :: rest))[i - key.index]? =
      (expand (next :: rest))[i - next.index]? := by
  rw [expand, List.getElem?_append_right (by rw [length_steps]; omega), length_steps]
  congr 1
  omega

theorem ascending_cons {key next : DiscreteKey} {rest : List DiscreteKey}
    (h : ((key :: next :: rest).map (·.index)).Pairwise (· < ·)) :
    key.index < next.index ∧ ((next :: rest).map (·.index)).Pairwise (· < ·) := by
  rw [List.map_cons, List.pairwise_cons] at h
  exact ⟨h.1 next.index List.mem_cons_self, h.2⟩

section Ascending

variable {first : DiscreteKey} {rest : List DiscreteKey}
variable (hascending : ((first :: rest).map (·.index)).Pairwise (· < ·))
include hascending

theorem index_le_of_mem : ∀ key ∈ first :: rest, first.index ≤ key.index := by
  rw [List.map_cons, List.pairwise_cons] at hascending
  rw [List.forall_mem_cons]
  exact ⟨Nat.le_refl _, fun key hkey =>
    Nat.le_of_lt (hascending.1 key.index (List.mem_map_of_mem hkey))⟩

theorem length_expand {last : DiscreteKey} (hlast : (first :: rest).getLast? = some last) :
    (expand (first :: rest)).length = last.index - first.index + 1 := by
  induction rest generalizing first with
  | nil =>
      rw [List.getLast?_singleton, Option.some_inj] at hlast
      rw [hlast, Nat.sub_self]
      rfl
  | cons next rest ih =>
      obtain ⟨hlt, hrest⟩ := ascending_cons hascending
      rw [List.getLast?_cons_cons] at hlast
      have hle := index_le_of_mem hrest last (List.mem_of_getLast? hlast)
      rw [expand, List.length_append, length_steps, ih hrest hlast]
      omega

/-- At the place of a key there is its own color. -/
theorem getElem?_expand_key (hbounded : ∀ key ∈ first :: rest, key.index < 2 ^ 64) :
    ∀ key ∈ first :: rest,
      (expand (first :: rest))[key.index - first.index]? = some key.color := by
  induction rest generalizing first with
  | nil =>
      intro key hkey
      rw [List.mem_singleton.mp hkey, Nat.sub_self]
      rfl
  | cons next rest ih =>
      obtain ⟨hlt, hrest⟩ := ascending_cons hascending
      rw [List.forall_mem_cons] at hbounded ⊢
      constructor
      · have hnext := hbounded.2 next List.mem_cons_self
        have hpos : 0 < next.index - first.index := Nat.sub_pos_of_lt hlt
        have hcount : next.index - first.index < 2 ^ 64 := by omega
        rw [Nat.sub_self, getElem?_expand_step rest hpos,
          Color.lerp_zero (Single.not_isNaN_div_ofCount hpos hcount 0)
            (Single.level_zero_div_ofCount hpos hcount)]
      · intro key hkey
        rw [getElem?_expand_of_le rest hlt (index_le_of_mem hrest key hkey)]
        exact ih hrest hbounded.2 key hkey

/-- Between two neighbouring keys there are their mixtures. -/
theorem getElem?_expand_between {slot : Nat} {a b : DiscreteKey}
    (ha : (first :: rest)[slot]? = some a) (hb : (first :: rest)[slot + 1]? = some b)
    {step : Nat} (hstep : step < b.index - a.index) :
    (expand (first :: rest))[a.index + step - first.index]? = some (a.color.lerp b.color
      (Single.ofCount step / Single.ofCount (b.index - a.index))) := by
  induction rest generalizing first slot with
  | nil =>
      rw [List.getElem?_cons_succ, List.getElem?_nil] at hb
      cases hb
  | cons next rest ih =>
      obtain ⟨hlt, hrest⟩ := ascending_cons hascending
      cases slot with
      | zero =>
          obtain rfl := Option.some.inj ha
          obtain rfl := Option.some.inj hb
          rw [Nat.add_sub_cancel_left]
          exact getElem?_expand_step rest hstep
      | succ slot =>
          rw [List.getElem?_cons_succ] at ha hb
          have hle := index_le_of_mem hrest a (List.mem_of_getElem? ha)
          rw [getElem?_expand_of_le rest hlt (Nat.le_add_right_of_le hle)]
          exact ih hrest ha hb

end Ascending

/-- The palette that keys span. -/
structure Spans (keys : List DiscreteKey) (palette : Array Color) : Prop where
  size_eq : ∀ last ∈ keys.getLast?, palette.size = last.index + 1
  at_key : ∀ key ∈ keys, palette[key.index]? = some key.color
  between : ∀ slot a b, keys[slot]? = some a → keys[slot + 1]? = some b →
    ∀ step, 0 < step → step < b.index - a.index →
      palette[a.index + step]? = some (a.color.lerp b.color
        (Single.ofCount step / Single.ofCount (b.index - a.index)))

theorem Proper.index_lt {keys : List DiscreteKey} (h : Proper (keys.map (·.index))) :
    ∀ key ∈ keys, key.index < 2 ^ 64 :=
  fun key hkey => Nat.lt_of_le_of_lt (h.bounded key.index (List.mem_map_of_mem hkey)) (by decide)

/-- Keys at proper indices span the palette to which they are expanded. -/
theorem Proper.spans {keys : List DiscreteKey} (h : Proper (keys.map (·.index))) :
    Spans keys (withKeys keys).palette := by
  have hbounded := h.index_lt
  obtain ⟨hhead, hascending, -⟩ := h
  cases keys with
  | nil => cases hhead
  | cons first rest =>
      rw [List.map_cons, List.head?_cons, Option.some_inj] at hhead
      refine ⟨fun last hlast => ?_, fun key hkey => ?_, fun slot a b ha hb step _ hstep => ?_⟩
      · have hlength := length_expand hascending hlast
        rwa [hhead, Nat.sub_zero] at hlength
      · have hcolor := getElem?_expand_key hascending hbounded key hkey
        rw [hhead, Nat.sub_zero] at hcolor
        exact List.getElem?_toArray.trans hcolor
      · have hcolor := getElem?_expand_between hascending ha hb hstep
        rw [hhead, Nat.sub_zero] at hcolor
        exact List.getElem?_toArray.trans hcolor

/-- How a gradient comes to be: from keys, from colors, or by being read. -/
inductive Made : DiscreteGradient → Prop
  | ofKeys {keys : List DiscreteKey} {gradient : DiscreteGradient}
      (h : ofKeys keys = .ok gradient) : Made gradient
  | ofColors {colors : List Color} {gradient : DiscreteGradient}
      (h : ofColors colors = .ok gradient) : Made gradient
  | ofValue {nested : Bool} {value : Value} {gradient : DiscreteGradient}
      (h : Generator.ofValue nested value = .ok (.discrete gradient)) : Made gradient

theorem Made.reachable {gradient : DiscreteGradient} (h : Made gradient) : Reachable gradient := by
  cases h with
  | ofKeys h => exact .ofKeys h
  | ofColors h => exact .ofKeys h
  | ofValue h =>
      rcases Generator.cases_of_ofValue h with
        ⟨color, habsurd⟩ | ⟨keys, linear, -, habsurd⟩ | ⟨keys, made, hkeys, hmade⟩
      · cases habsurd
      · cases habsurd
      · cases hmade
        exact .ofKeys hkeys

theorem reachable_run {start : DiscreteGradient} (h : Reachable start)
    (operations : List Operation) : Reachable (operations.foldl perform start) := by
  induction operations generalizing start with
  | nil => exact h
  | cons operation operations ih => exact ih (h.perform operation)

/-- Whatever changes are asked of a gradient, its keys lie at proper indices, its palette is
the one that they span, and it is the same again when it is made from them.  A change that is
refused leaves all this as it was. -/
theorem spans_of_run {start : DiscreteGradient} (h : Made start) (operations : List Operation) :
    let gradient := operations.foldl perform start
    2 ≤ gradient.keys.length ∧ Proper (gradient.keys.map (·.index)) ∧
      Spans gradient.keys gradient.palette ∧ ofKeys gradient.keys = .ok gradient ∧
      ∀ operation fault, gradient.attempt operation = .error fault →
        gradient.perform operation = gradient := by
  intro gradient
  have hreachable : Reachable gradient := reachable_run h.reachable operations
  obtain ⟨htwo, hproper, hpalette⟩ := hreachable.proper
  have hspans := hproper.spans
  rw [hpalette] at hspans
  refine ⟨htwo, hproper, hspans, hreachable.ofKeys_keys, fun operation fault hrefused => ?_⟩
  exact perform_of_refused htwo hrefused

def blackAndWhite : DiscreteGradient :=
  withKeys [⟨.black, 0⟩, ⟨.white, 1⟩]

/-- Red takes the place of white, which moves up.  A key beyond the longest palette is refused,
and one after a gap has mixtures in front of it. -/
theorem spans_of_run_blackAndWhite :
    ofColors [.black, .white] = .ok blackAndWhite ∧
      let operations : List Operation :=
        [.insertKey (.solid 255 0 0) 1, .insertKey .black 5000, .insertKey .black 5]
      let gradient := operations.foldl perform blackAndWhite
      gradient.keys.map (·.index) = [0, 1, 2, 5] ∧ gradient.palette.size = 6 ∧
        gradient.palette[2]? = some .white ∧
        gradient.palette[4]? =
          some (Color.white.lerp .black (Single.ofCount 2 / Single.ofCount 3)) ∧
        ofKeys gradient.keys = .ok gradient := by
  have hmade : ofColors [.black, .white] = .ok blackAndWhite := by decide +kernel
  refine ⟨hmade, ?_⟩
  intro operations gradient
  obtain ⟨-, -, hspans, hagain, -⟩ := spans_of_run (.ofColors hmade) operations
  have hkeys : gradient.keys =
      [⟨.black, 0⟩, ⟨.solid 255 0 0, 1⟩, ⟨.white, 2⟩, ⟨.black, 5⟩] := by
    decide +kernel
  change Spans gradient.keys gradient.palette at hspans
  rw [hkeys] at hspans ⊢
  exact ⟨rfl, hspans.size_eq ⟨.black, 5⟩ rfl, hspans.at_key ⟨.white, 2⟩ (by decide),
    hspans.between 2 ⟨.white, 2⟩ ⟨.black, 5⟩ rfl rfl 2 (by decide) (by decide), hkeys ▸ hagain⟩

end DiscreteGradient

end LineGrammar
