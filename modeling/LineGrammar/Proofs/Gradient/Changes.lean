/-
Runs of changes to interpolating gradients.  A gradient that was made of numbers and is
changed by numbers keeps its keys in order between zero and one.  A change is refused for a
slot that is not there, or if too few keys would be left, and for no other reason.  It takes
away the color that it removes or replaces, brings in the one that it is given, and keeps all
others.
-/
import LineGrammar.Proofs.Gradient.Rebuilding
import LineGrammar.Scene.Colors

namespace LineGrammar

namespace LinearGradient

/-- The keys of a linear gradient in a document. -/
def keysOf (nested : Bool) : Reader (List LinearKey) := fun value => do
  match ← Tagged.split nested Generator.kinds value with
  | (.linear, rest) => readSole "keys" (Reader.list LinearKey.ofValue) rest
  | _ => .error .malformed

/-- How a gradient comes to be of some keys: between two colors, from the keys, or by being
read. -/
inductive Made : List LinearKey → LinearGradient → Prop
  | between (first last : Color) : Made [⟨first, 0⟩, ⟨last, 1⟩] (between first last)
  | ofKeys {keys : List LinearKey} {gradient : LinearGradient}
      (h : ofKeys keys = .ok gradient) : Made keys gradient
  | ofValue {nested : Bool} {value : Value} {keys : List LinearKey} {gradient : LinearGradient}
      (hkeys : keysOf nested value = .ok keys)
      (h : Generator.ofValue nested value = .ok (.linear gradient)) : Made keys gradient

/-- A gradient that is read is made from the keys of its document. -/
theorem ofKeys_of_ofValue {nested : Bool} {value : Value} {keys : List LinearKey}
    {gradient : LinearGradient} (hkeys : keysOf nested value = .ok keys)
    (h : Generator.ofValue nested value = .ok (.linear gradient)) :
    LinearGradient.ofKeys keys = .ok gradient := by
  obtain ⟨⟨kind, rest⟩, hsplit, h⟩ := (bind_eq_ok_iff _ _ _).mp h
  obtain ⟨⟨kind', rest'⟩, hsplit', hkeys⟩ := (bind_eq_ok_iff _ _ _).mp hkeys
  rw [hsplit, Except.ok.injEq, Prod.mk.injEq] at hsplit'
  obtain ⟨rfl, rfl⟩ := hsplit'
  cases kind with
  | constant => cases hkeys
  | discrete => cases hkeys
  | linear =>
      obtain ⟨keys', hread, h⟩ := (bind_eq_ok_iff _ _ _).mp h
      obtain ⟨gradient', hmade, h⟩ := (bind_eq_ok_iff _ _ _).mp h
      obtain rfl : keys' = keys := Except.ok.inj (hread.symm.trans hkeys)
      obtain rfl : gradient' = gradient :=
        Generator.linear.inj (Except.ok.inj h)
      exact (mapError_eq_ok_iff _ _ _).mp hmade

/-- All ways of making a gradient lead to the keys in order. -/
theorem Made.eq_normalize {keys : List LinearKey} {gradient : LinearGradient}
    (h : Made keys gradient) : 2 ≤ keys.length ∧ gradient = normalize keys := by
  have hofKeys : ∀ {keys gradient}, LinearGradient.ofKeys keys = .ok gradient →
      2 ≤ keys.length ∧ gradient = normalize keys := fun h =>
    ((ofKeys_eq_ok_iff _ _).mp h).imp_right Eq.symm
  cases h with
  | ofKeys h => exact hofKeys h
  | ofValue hkeys h => exact hofKeys (ofKeys_of_ofValue hkeys h)
  | between first last =>
      have hbetween := (proper_between first last).ofKeys_keys (by
        rw [positions_between]
        decide +kernel)
      exact hofKeys hbetween

theorem Made.reachable {allowed : Position → Prop} {keys : List LinearKey}
    {gradient : LinearGradient} (h : Made keys gradient)
    (hkeys : ∀ key ∈ keys, allowed key.position) : Reachable allowed gradient := by
  obtain ⟨htwo, rfl⟩ := h.eq_normalize
  exact .ofKeys hkeys ((ofKeys_eq_ok_iff _ _).mpr ⟨htwo, rfl⟩)

theorem Reachable.two_le {allowed : Position → Prop} {gradient : LinearGradient}
    (h : Reachable allowed gradient) : 2 ≤ gradient.keys.length := by
  have := h.proper_or_not_number.1
  rwa [positions, List.length_map] at this

/-- What can come about goes on to come about in a run of changes. -/
theorem Reachable.run {allowed : Position → Prop} {start : LinearGradient}
    (h : Reachable allowed start) {operations : List Operation}
    (hallowed : ∀ operation ∈ operations, ∀ position ∈ operation.position?, allowed position) :
    Reachable allowed (operations.foldl LinearGradient.perform start) := by
  induction operations generalizing start with
  | nil => exact h
  | cons operation operations ih =>
      rw [List.forall_mem_cons] at hallowed
      exact ih (h.perform operation hallowed.1) hallowed.2

section Outcomes

variable (gradient : LinearGradient) (slot : Nat) (fault : Fault)

theorem spare_eq_error_iff :
    gradient.spare slot = .error fault ↔
      gradient.keys.length ≤ slot ∧ fault = .noSuchKey slot ∨
      slot < gradient.keys.length ∧ gradient.keys.length ≤ 2 ∧ fault = .gradientTooShort := by
  rw [spare]
  cases hslot : Keys.inSlot gradient.keys slot with
  | error refusal =>
      obtain ⟨hle, rfl⟩ := (Keys.inSlot_eq_error_iff _ _ _).mp hslot
      simp [bind, Except.bind, hle, Nat.not_lt_of_le hle, eq_comm]
  | ok key =>
      have hlt := (List.getElem?_eq_some_iff.mp ((Keys.inSlot_eq_ok_iff _ _ _).mp hslot)).1
      have hfew := Keys.checkSpare_eq_error_iff gradient.keys fault
      rw [and_iff_right hlt, ← hfew]
      cases Keys.checkSpare gradient.keys <;>
        simp [bind, Except.bind, pure, Except.pure, Nat.not_le_of_lt hlt]

/-- Keys are removed while more than two are left, and not from where there are none. -/
theorem outcome_removeKey :
    (removeKey slot).outcome gradient = .error fault ↔
      gradient.keys.length ≤ slot ∧ fault = .noSuchKey slot ∨
      slot < gradient.keys.length ∧ gradient.keys.length ≤ 2 ∧ fault = .gradientTooShort := by
  rw [Change.outcome, run_removeKey, ← spare_eq_error_iff]
  cases gradient.spare slot <;> simp

/-- A key is recolored wherever there is one. -/
theorem outcome_setColor (color : Color) :
    (setColor slot color).outcome gradient = .error fault ↔
      gradient.keys.length ≤ slot ∧ fault = .noSuchKey slot := by
  rw [Change.outcome, run_setColor, ← Keys.inSlot_eq_error_iff]
  cases Keys.inSlot gradient.keys slot <;> simp

/-- A key is moved wherever there is one. -/
theorem outcome_setPosition (position : Position) :
    (setPosition slot position).outcome gradient = .error fault ↔
      gradient.keys.length ≤ slot ∧ fault = .noSuchKey slot := by
  rw [Change.outcome, run_setPosition, ← Keys.inSlot_eq_error_iff]
  cases Keys.inSlot gradient.keys slot <;> simp

end Outcomes

section Colors

def Operation.color? : Operation → Option Color
  | addKey color _ | setColor _ color => some color
  | removeKey _ | setPosition _ _ => none

/-- The color that a change takes away. -/
def Operation.lost? (gradient : LinearGradient) : Operation → Option Color
  | removeKey slot | setColor slot _ => gradient.keys[slot]?.map (·.color)
  | addKey _ _ | setPosition _ _ => none

def colors (gradient : LinearGradient) : List Color :=
  gradient.keys.map (·.color)

theorem colors_endAtOne (keys : List LinearKey) :
    (endAtOne keys).map (·.color) = keys.map (·.color) := by
  fun_induction endAtOne keys <;> simp_all

/-- Keys that are put in order keep their colors. -/
theorem colors_normalize_perm (keys : List LinearKey) :
    (normalize keys).colors.Perm (keys.map (·.color)) := by
  have hcolors : (normalize keys).colors = (inOrder keys).map (·.color) := by
    have hclamp : (fun key => (clampKey key).color) = LinearKey.color := rfl
    rw [colors, normalize, List.map_map]
    change List.map (fun key => (clampKey key).color) _ = _
    rw [hclamp, colors_endAtOne, colors_startAtZero]
  rw [hcolors]
  exact (inOrder_perm keys).map _

variable {gradient gradient' : LinearGradient} {slot : Nat} {key : LinearKey}

theorem colors_eraseIdx_perm (h : gradient.keys[slot]? = some key) :
    ((gradient.keys.eraseIdx slot).map (·.color) ++ [key.color]).Perm gradient.colors := by
  obtain ⟨hslot, rfl⟩ := List.getElem?_eq_some_iff.mp h
  have hkeys := (List.getElem_cons_eraseIdx_perm hslot).map (·.color)
  exact (List.perm_append_singleton _ _).trans hkeys

theorem colors_set_perm (h : gradient.keys[slot]? = some key) (key' : LinearKey) :
    ((gradient.keys.set slot key').map (·.color) ++ [key.color]).Perm
      (gradient.colors ++ [key'.color]) := by
  have hslot := (List.getElem?_eq_some_iff.mp h).1
  have hset := (List.set_perm_cons_eraseIdx hslot key').map (·.color)
  calc
    ((gradient.keys.set slot key').map (·.color) ++ [key.color]).Perm
        (key'.color :: (gradient.keys.eraseIdx slot).map (·.color) ++ [key.color]) :=
      hset.append_right _
    List.Perm _ (key'.color :: gradient.colors) := (colors_eraseIdx_perm h).cons _
    List.Perm _ (gradient.colors ++ [key'.color]) := (List.perm_append_singleton _ _).symm

/-- After a change there are the colors from before, but the one that it takes away, and the
one that it brings in. -/
theorem Becomes.colors_perm {operation : Operation} (h : gradient.Becomes operation gradient') :
    (gradient'.colors ++ (operation.lost? gradient).toList).Perm
      (gradient.colors ++ operation.color?.toList) := by
  cases h with
  | addKey color position =>
      have hcolors := colors_normalize_perm (gradient.keys ++ [⟨color, position⟩])
      rw [List.map_append] at hcolors
      simpa [Operation.lost?, Operation.color?, colors] using hcolors
  | @removeKey slot key hslot hmany =>
      have hcolors := (colors_normalize_perm (gradient.keys.eraseIdx slot)).append_right
        [key.color]
      simpa [Operation.lost?, Operation.color?, hslot] using
        hcolors.trans (colors_eraseIdx_perm hslot)
  | @setColor slot key hslot color =>
      simpa [Operation.lost?, Operation.color?, hslot, colors] using
        colors_set_perm hslot { key with color }
  | @setPosition slot key hslot position =>
      have hset := colors_set_perm hslot { key with position }
      have hcolors := (colors_normalize_perm _).trans ((List.perm_append_right_iff _).mp hset)
      simpa [Operation.lost?, Operation.color?] using hcolors

end Colors

/-- Numbers leave the keys of a gradient in order between zero and one, whatever changes are
asked of it.  Slots that are not there are refused, and so is a removal that would leave less
than two keys; nothing else is, and a change that is refused leaves the gradient as it was.
The colors are those that it was made of, but the ones that changes bring in and take away. -/
theorem proper_of_run {keys : List LinearKey} {start : LinearGradient} (h : Made keys start)
    (hkeys : ∀ key ∈ keys, ¬ key.position.value.isNaN) (operations : List Operation)
    (hoperations : ∀ operation ∈ operations, ∀ position ∈ operation.position?,
      ¬ position.value.isNaN) :
    let gradient := operations.foldl perform start
    gradient.Proper ∧
      (∀ slot fault, (removeKey slot).outcome gradient = .error fault ↔
        gradient.keys.length ≤ slot ∧ fault = .noSuchKey slot ∨
        slot < gradient.keys.length ∧ gradient.keys.length = 2 ∧ fault = .gradientTooShort) ∧
      (∀ slot color fault, (setColor slot color).outcome gradient = .error fault ↔
        gradient.keys.length ≤ slot ∧ fault = .noSuchKey slot) ∧
      (∀ slot position fault, (setPosition slot position).outcome gradient = .error fault ↔
        gradient.keys.length ≤ slot ∧ fault = .noSuchKey slot) ∧
      (∀ operation fault, gradient.attempt operation = .error fault →
        gradient.perform operation = gradient) ∧
      start.colors.Perm (keys.map (·.color)) ∧
      ∀ operation, gradient.attempt operation = .ok () →
        ((gradient.perform operation).colors ++ (operation.lost? gradient).toList).Perm
          (gradient.colors ++ operation.color?.toList) := by
  intro gradient
  have hreachable : Reachable (fun position => ¬ position.value.isNaN) gradient :=
    (h.reachable hkeys).run hoperations
  have hproper := hreachable.proper hreachable.not_isNaN
  have htwo : 2 ≤ gradient.keys.length := hreachable.two_le
  refine ⟨hproper, fun slot fault => ?_,
    fun slot color fault => outcome_setColor gradient slot fault color,
    fun slot position fault => outcome_setPosition gradient slot fault position,
    fun operation fault hrefused => perform_of_refused hrefused, ?_,
    fun operation hdone => (becomes_of_done hdone).colors_perm⟩
  · rw [outcome_removeKey, Nat.le_antisymm_iff, and_iff_left htwo]
  · obtain ⟨-, rfl⟩ := h.eq_normalize
    exact colors_normalize_perm keys

/-- Keys from outside the unit interval, out of order. -/
def scattered : List LinearKey :=
  [⟨.solid 0 255 0, 7⟩, ⟨.solid 255 0 0, .ofValue (-1 / 0)⟩, ⟨.solid 0 0 255, 0.5⟩]

/-- A key that is moved below the first one takes its place.  Once two keys are left, neither
can be removed; their colors can still be replaced. -/
theorem proper_of_run_scattered :
    let start := normalize scattered
    let operations : List Operation :=
      [.setPosition 1 (-3), .removeKey 9, .addKey .white 0.25, .removeKey 3, .removeKey 2]
    let gradient := operations.foldl perform start
    (Made scattered start ∧ (∀ key ∈ scattered, ¬ key.position.value.isNaN) ∧
      ∀ operation ∈ operations, ∀ position ∈ operation.position?, ¬ position.value.isNaN) ∧
      gradient.Proper ∧
      gradient.colors = [.solid 0 0 255, .solid 255 0 0] ∧
      (removeKey 0).outcome gradient = .error .gradientTooShort ∧
      (removeKey 2).outcome gradient = .error (.noSuchKey 2) ∧
      gradient.perform (.removeKey 0) = gradient ∧
      gradient.attempt (.setColor 0 .black) = .ok () ∧
      ((gradient.perform (.setColor 0 .black)).colors ++ [Color.solid 0 0 255]).Perm
        (gradient.colors ++ [Color.black]) := by
  intro start operations gradient
  have hmade : Made scattered start :=
    .ofKeys ((ofKeys_eq_ok_iff _ _).mpr ⟨by decide, rfl⟩)
  have hkeys : ∀ key ∈ scattered, ¬ key.position.value.isNaN := by decide +kernel
  have hoperations : ∀ operation ∈ operations, ∀ position ∈ operation.position?,
      ¬ position.value.isNaN := by
    decide +kernel
  have hcolors : gradient.colors = [.solid 0 0 255, .solid 255 0 0] := by decide +kernel
  have hlength : gradient.keys.length = 2 := by
    have := congrArg List.length hcolors
    rwa [colors, List.length_map] at this
  have hrun := proper_of_run hmade hkeys operations hoperations
  have hgradient : operations.foldl perform start = gradient := rfl
  simp only [hgradient] at hrun
  obtain ⟨hproper, hremove, hcolor, -, hrefused, -, hdone⟩ := hrun
  -- From here on it does not matter how the gradient came about.
  clear_value gradient
  have hshort : (removeKey 0).outcome gradient = .error .gradientTooShort :=
    (hremove _ _).mpr (.inr ⟨hlength ▸ Nat.zero_lt_two, hlength, rfl⟩)
  have hmissing : (removeKey 2).outcome gradient = .error (.noSuchKey 2) :=
    (hremove _ _).mpr (.inl ⟨Nat.le_of_eq hlength, rfl⟩)
  have hkept : gradient.attempt (.removeKey 0) = .error .gradientTooShort := by
    have hspare : gradient.spare 0 = .error .gradientTooShort :=
      (spare_eq_error_iff _ _ _).mpr (.inr ⟨by omega, Nat.le_of_eq hlength, rfl⟩)
    rw [attempt, Operation.change, Change.outcome, Change.run_bind, run_removeKey, hspare]
  have hset : gradient.attempt (.setColor 0 .black) = .ok () := by
    cases h : gradient.attempt (.setColor 0 .black) with
    | error fault =>
        have hslot := ((hcolor 0 .black fault).mp h).1
        omega
    | ok done => rfl
  refine ⟨⟨hmade, hkeys, hoperations⟩, hproper, hcolors, hshort, hmissing, hrefused _ _ hkept,
    hset, ?_⟩
  have hfirst : gradient.keys[0]?.map (·.color) = some (.solid 0 0 255) := by
    rw [← List.getElem?_map]
    exact congrArg (·[0]?) hcolors
  have hbalance := hdone (.setColor 0 .black) hset
  rwa [Operation.lost?, hfirst] at hbalance

end LinearGradient

end LineGrammar
