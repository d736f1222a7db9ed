/-
Positions that are not numbers.  Clamping passes over them, and of those that are put in order
at most the first and the last are replaced.  By their sign bits they come before all numbers or
behind, so one on either side is replaced and others stay, unless there are just two keys.  A
change brings in at most one and never leaves more than there were before; all other positions
are in the unit interval.
-/
import LineGrammar.Proofs.Gradient.Changes
import LineGrammar.Proofs.Gradient.Lookup

namespace LineGrammar

namespace LinearGradient

/-- How many keys lie at what is not a number. -/
def lapses (keys : List LinearKey) : Nat :=
  keys.countP fun key => key.position.value.isNaN

/-- How many keys lie before all numbers. -/
def earlier (keys : List LinearKey) : Nat :=
  keys.countP fun key => key.position.before

/-- How many keys lie behind all numbers. -/
def later (keys : List LinearKey) : Nat :=
  keys.countP fun key => key.position.behind

theorem lapses_eq_countP (gradient : LinearGradient) :
    lapses gradient.keys = gradient.positions.countP (·.isNaN) := by
  rw [lapses, positions, List.countP_map]
  rfl

section Ordered

variable {keys middle : List LinearKey} {first last : LinearKey}
variable (hkeys : inOrder keys = first :: (middle ++ [last]))
include hkeys

/-- Keys in order count with those at the ends. -/
theorem countP_eq_add (p : LinearKey → Bool) :
    keys.countP p = [first].countP p + middle.countP p + [last].countP p := by
  rw [← (inOrder_perm keys).countP_eq p, hkeys, ← List.singleton_append, ← List.append_assoc,
    List.countP_append, List.countP_append]

theorem rank_between {key : LinearKey} (hkey : key ∈ middle) :
    first.position.rank ≤ key.position.rank ∧ key.position.rank ≤ last.position.rank := by
  have hranks := rank_pairwise_inOrder keys
  rw [hkeys, List.pairwise_cons, List.pairwise_append] at hranks
  exact ⟨hranks.1 key (List.mem_append_left _ hkey), hranks.2.2.2 key hkey last List.mem_cons_self⟩

/-- Where some are left between the ends, there is another one of the kind at an end. -/
theorem exists_lapse_end (hpos : 0 < lapses middle) :
    0 < earlier middle ∧ earlier [first] = 1 ∨ 0 < later middle ∧ later [last] = 1 := by
  obtain ⟨key, hkey, hnan⟩ := List.countP_pos_iff.mp hpos
  obtain ⟨hfirst, hlast⟩ := rank_between hkeys hkey
  rw [Position.isNaN_eq_before_or_behind, Bool.or_eq_true] at hnan
  rcases hnan with hbefore | hbehind
  · have hend := Position.before_of_rank_le hbefore hfirst
    exact .inl ⟨List.countP_pos_iff.mpr ⟨key, hkey, hbefore⟩, by simp [earlier, hend]⟩
  · have hend := Position.behind_of_rank_le hbehind hlast
    exact .inr ⟨List.countP_pos_iff.mpr ⟨key, hkey, hbehind⟩, by simp [later, hend]⟩

/-- A number between the ends has nothing behind it that comes before all numbers, and nothing
before it that comes behind them. -/
theorem ends_of_number {key : LinearKey} (hkey : key ∈ middle) (h : ¬ key.position.value.isNaN) :
    earlier [last] = 0 ∧ later [first] = 0 := by
  obtain ⟨hfirst, hlast⟩ := rank_between hkeys hkey
  rw [Position.isNaN_eq_before_or_behind, Bool.or_eq_true, not_or] at h
  have hnotBefore : ¬ last.position.before = true := fun hbefore =>
    h.1 (Position.before_of_rank_le hbefore hlast)
  have hnotBehind : ¬ first.position.behind = true := fun hbehind =>
    h.2 (Position.behind_of_rank_le hbehind hfirst)
  exact ⟨by simp [earlier, hnotBefore], by simp [later, hnotBehind]⟩

end Ordered

theorem lapses_eq_earlier_add_later (keys : List LinearKey) :
    lapses keys = earlier keys + later keys := by
  induction keys with
  | nil => rfl
  | cons key rest ih =>
      simp only [lapses, earlier, later, List.countP_cons] at ih ⊢
      have hkey : (if key.position.value.isNaN then 1 else 0) =
          (if key.position.before then 1 else 0) + if key.position.behind then 1 else 0 := by
        rw [Position.isNaN_eq_before_or_behind]
        have hnotBoth : ¬ (key.position.before = true ∧ key.position.behind = true) := by
          rw [Position.before_iff_rank, Position.behind_iff_rank]
          omega
        cases hbefore : key.position.before <;> cases hbehind : key.position.behind <;> simp_all
      omega

/-- Between the ends everything stays that is not a number. -/
theorem exists_lapses_normalize {keys : List LinearKey} (htwo : 2 ≤ keys.length) :
    ∃ first middle last, inOrder keys = first :: (middle ++ [last]) ∧
      lapses (normalize keys).keys = lapses middle := by
  obtain ⟨first, middle, last, hkeys, hpositions⟩ := exists_middle htwo
  have hclamped : ((fun position : Float32 => position.isNaN) ∘
      fun key : LinearKey => Single.clampUnit key.position.value) =
        fun key => key.position.value.isNaN :=
    funext fun key => Single.isNaN_clampUnit key.position.value
  refine ⟨first, middle, last, hkeys, ?_⟩
  rw [lapses_eq_countP, hpositions, List.countP_cons, List.countP_append, List.countP_map,
    hclamped, List.countP_singleton, if_neg Single.not_isNaN_zero, if_neg Single.not_isNaN_one]
  rfl

/-- Putting keys in order leaves less of them at what is not a number, unless there is none,
but it replaces the positions of two at most. -/
theorem lapses_normalize {keys : List LinearKey} (htwo : 2 ≤ keys.length) :
    lapses keys - 2 ≤ lapses (normalize keys).keys ∧
      lapses (normalize keys).keys ≤ lapses keys - 1 := by
  obtain ⟨first, middle, last, hkeys, hmiddle⟩ := exists_lapses_normalize htwo
  have hadd : lapses keys = lapses [first] + lapses middle + lapses [last] :=
    countP_eq_add hkeys _
  have hends : lapses [first] ≤ 1 ∧ lapses [last] ≤ 1 :=
    ⟨List.countP_le_length, List.countP_le_length⟩
  have hfirst := lapses_eq_earlier_add_later [first]
  have hlast := lapses_eq_earlier_add_later [last]
  have hend := exists_lapse_end hkeys
  omega

/-- All positions become numbers if at most one key lies before all numbers and at most one
behind, or if there are just two keys, and not otherwise. -/
theorem lapses_normalize_eq_zero_iff {keys : List LinearKey} (htwo : 2 ≤ keys.length) :
    lapses (normalize keys).keys = 0 ↔
      earlier keys ≤ 1 ∧ later keys ≤ 1 ∨ keys.length = 2 := by
  obtain ⟨first, middle, last, hkeys, hmiddle⟩ := exists_lapses_normalize htwo
  have hearlier : earlier keys = earlier [first] + earlier middle + earlier [last] :=
    countP_eq_add hkeys _
  have hlater : later keys = later [first] + later middle + later [last] :=
    countP_eq_add hkeys _
  have hlength : keys.length = middle.length + 2 := by
    rw [← (inOrder_perm keys).length_eq, hkeys, List.length_cons, List.length_append,
      List.length_singleton]
  have hkinds := lapses_eq_earlier_add_later middle
  rw [hmiddle]
  constructor
  · intro hnone
    rcases List.eq_nil_or_concat middle with rfl | ⟨others, key, rfl⟩
    · exact .inr hlength
    · -- A number between the ends keeps either kind on its own side.
      have hkey : key ∈ others.concat key := by simp
      have hnumber := List.countP_eq_zero.mp hnone key hkey
      obtain ⟨hend, hstart⟩ := ends_of_number hkeys hkey hnumber
      have hfirst : earlier [first] ≤ 1 := List.countP_le_length
      have hlast : later [last] ≤ 1 := List.countP_le_length
      exact .inl (by omega)
  · rintro (hfew | hshort)
    · by_contra hsome
      have hend := exists_lapse_end hkeys (Nat.pos_of_ne_zero hsome)
      omega
    · rw [List.length_eq_zero_iff.mp (show middle.length = 0 by omega)]
      rfl

theorem lapses_set_le (keys : List LinearKey) (slot : Nat) (key : LinearKey) :
    lapses (keys.set slot key) ≤ lapses keys + 1 := by
  by_cases hslot : slot < keys.length
  · rw [lapses, List.countP_set hslot]
    split <;> split <;> simp only [lapses] <;> omega
  · rw [List.set_eq_of_length_le (Nat.le_of_not_lt hslot)]
    exact Nat.le_succ _

/-- A change never leaves more keys at what is not a number than there were. -/
theorem lapses_perform_le {gradient : LinearGradient} (htwo : 2 ≤ gradient.keys.length)
    (operation : Operation) :
    lapses (gradient.perform operation).keys ≤ lapses gradient.keys := by
  rcases gradient.perform_cases operation with ⟨-, hsame⟩ | ⟨-, hbecomes⟩
  · rw [hsame]
  generalize gradient.perform operation = gradient' at hbecomes ⊢
  cases hbecomes with
  | addKey color position =>
      have hlong : 2 ≤ (gradient.keys ++ [LinearKey.mk color position]).length := by
        rw [List.length_append]
        omega
      have hle := lapses_normalize hlong
      have hone : lapses (gradient.keys ++ [⟨color, position⟩]) ≤ lapses gradient.keys + 1 := by
        rw [lapses, List.countP_append]
        exact Nat.add_le_add_left List.countP_le_length _
      omega
  | @removeKey slot key hslot hmany =>
      have hlt := (List.getElem?_eq_some_iff.mp hslot).1
      have hstill : 2 ≤ (gradient.keys.eraseIdx slot).length := by
        rw [List.length_eraseIdx_of_lt hlt]
        omega
      have hle := lapses_normalize hstill
      have hless : lapses (gradient.keys.eraseIdx slot) ≤ lapses gradient.keys :=
        (List.eraseIdx_sublist _ _).countP_le
      omega
  | setColor hslot color =>
      rw [lapses_eq_countP, lapses_eq_countP, positions_setColor gradient hslot]
  | @setPosition slot key hslot position =>
      have hset : 2 ≤ (gradient.keys.set slot { key with position }).length := by
        rwa [List.length_set]
      have hle := lapses_normalize hset
      have hone := lapses_set_le gradient.keys slot { key with position }
      omega

/-- Whatever is passed, the first position is zero. -/
theorem Reachable.head {allowed : Position → Prop} {gradient : LinearGradient}
    (h : Reachable allowed gradient) : gradient.positions.head? = some 0 := by
  have hnormalize : ∀ {keys : List LinearKey}, 2 ≤ keys.length →
      (normalize keys).positions.head? = some 0 := by
    intro keys htwo
    obtain ⟨first, middle, last, -, hpositions⟩ := exists_middle htwo
    rw [hpositions, List.head?_cons]
  induction h with
  | between first last =>
      rw [positions_between]
      rfl
  | @ofKeys keys gradient hallowed h =>
      obtain ⟨htwo, rfl⟩ := (ofKeys_eq_ok_iff keys gradient).mp h
      exact hnormalize htwo
  | @perform gradient operation hallowed h ih =>
      rcases positions_perform gradient operation h.proper_or_not_number.1 with
        hpositions | ⟨keys, htwo, -, hperform⟩
      · rwa [hpositions]
      · rw [hperform]
        exact hnormalize htwo

theorem Framed.mem_unit {gradient : LinearGradient} (h : gradient.Framed) {position : Float32}
    (hposition : position ∈ gradient.positions) :
    position.isNaN ∨ 0 ≤ position ∧ position ≤ 1 := by
  rw [or_iff_not_imp_left]
  intro hnumber
  exact (Single.mem_unit_iff_level hnumber).mpr (h.within position hposition hnumber)

/-- In a run of changes there are never more keys at what is not a number than at its
start. -/
theorem lapses_run_le {start : LinearGradient} (h : Reachable (fun _ => True) start)
    (operations : List Operation) :
    lapses (operations.foldl perform start).keys ≤ lapses start.keys := by
  induction operations generalizing start with
  | nil => exact Nat.le_refl _
  | cons operation operations ih =>
      have hstep := lapses_perform_le h.two_le operation
      exact Nat.le_trans (ih (h.perform operation fun _ _ => trivial)) hstep

/-- A gradient that was made of keys and has gone through changes starts at zero and ends at
one, and all positions between are in the unit interval or not numbers.  By the sign bits it is
known of the keys whether some stay at what is not a number: none does if at most one comes before
all numbers and at most one behind, or if there are just two.  Their number never grows, whatever
changes bring in, so where none stays all positions are in the unit interval for good. -/
theorem unit_of_run {keys : List LinearKey} {start : LinearGradient} (h : Made keys start)
    (operations : List Operation) :
    let gradient := operations.foldl perform start
    let replaced := earlier keys ≤ 1 ∧ later keys ≤ 1 ∨ keys.length = 2
    gradient.positions.head? = some 0 ∧ gradient.positions.getLast? = some 1 ∧
      (∀ position ∈ gradient.positions, position.isNaN ∨ 0 ≤ position ∧ position ≤ 1) ∧
      lapses keys - 2 ≤ lapses start.keys ∧ lapses start.keys ≤ lapses keys - 1 ∧
      (lapses start.keys = 0 ↔ replaced) ∧
      lapses gradient.keys ≤ lapses start.keys ∧
      (∀ operation, lapses (gradient.perform operation).keys ≤ lapses gradient.keys) ∧
      (replaced → ∀ position ∈ gradient.positions, 0 ≤ position ∧ position ≤ 1) := by
  intro gradient replaced
  have hstart : Reachable (fun _ => True) start := h.reachable fun _ _ => trivial
  have hreachable : Reachable (fun _ => True) gradient :=
    hstart.run fun _ _ _ _ => trivial
  obtain ⟨htwo, rfl⟩ := h.eq_normalize
  obtain ⟨hleast, hmost⟩ := lapses_normalize htwo
  have hreplaced := lapses_normalize_eq_zero_iff htwo
  have hrun := lapses_run_le hstart operations
  have hunit : ∀ position ∈ gradient.positions,
      position.isNaN ∨ 0 ≤ position ∧ position ≤ 1 :=
    fun position hposition => hreachable.framed.mem_unit hposition
  refine ⟨hreachable.head, hreachable.framed.last, hunit, hleast, hmost, hreplaced, hrun,
    lapses_perform_le hreachable.two_le, fun hends position hposition => ?_⟩
  have hnone : gradient.positions.countP (·.isNaN) = 0 := by
    rw [← lapses_eq_countP]
    exact Nat.eq_zero_of_le_zero (Nat.le_trans hrun (Nat.le_of_eq (hreplaced.mpr hends)))
  exact (hunit position hposition).resolve_left (List.countP_eq_zero.mp hnone position hposition)

/-- Two keys in their places, and two that have none, one of them with a sign bit. -/
def strayed : List LinearKey :=
  [⟨.solid 255 0 0, 0.5⟩, ⟨.solid 0 255 0, .stray⟩, ⟨.white, -.stray⟩, ⟨.solid 0 0 255, 0.25⟩]

/-- One key in its place, and two that have none. -/
def lost : List LinearKey :=
  [⟨.solid 255 0 0, 0.5⟩, ⟨.solid 0 255 0, .stray⟩, ⟨.solid 0 0 255, .stray⟩]

/-- A single key without a place is put at the end that its sign bit names, and so is one that
is added or moved.  Of two at one end, one stays where it is; removing the last key sends it to
the end as well. -/
theorem unit_of_run_strayed :
    let operations : List Operation := [.addKey .white .stray, .setPosition 1 (-.stray)]
    (Made strayed (normalize strayed) ∧ earlier strayed = 1 ∧ later strayed = 1) ∧
      (∀ position ∈ (operations.foldl perform (normalize strayed)).positions,
        0 ≤ position ∧ position ≤ 1) ∧
      (Made lost (normalize lost) ∧ earlier lost = 0 ∧ later lost = 2) ∧
      lapses (normalize lost).keys ≠ 0 ∧
      lapses ((normalize lost).perform (.removeKey 2)).keys = 0 ∧
      ∀ position ∈ (normalize lost).positions, position.isNaN ∨ 0 ≤ position ∧ position ≤ 1 := by
  intro operations
  have hmade : ∀ {keys : List LinearKey}, 2 ≤ keys.length → Made keys (normalize keys) :=
    fun htwo => .ofKeys ((ofKeys_eq_ok_iff _ _).mpr ⟨htwo, rfl⟩)
  have hstrayed : Made strayed (normalize strayed) := hmade (by decide)
  have hends : earlier strayed = 1 ∧ later strayed = 1 := by decide +kernel
  have hlost : Made lost (normalize lost) := hmade (by decide)
  have hend : earlier lost = 0 ∧ later lost = 2 := by decide +kernel
  obtain ⟨-, -, -, -, -, -, -, -, hunit⟩ := unit_of_run hstrayed operations
  obtain ⟨-, -, hwithin, -, -, hreplaced, -⟩ := unit_of_run hlost []
  have hsome : lapses (normalize lost).keys ≠ 0 := by
    rw [ne_eq, hreplaced, hend.1, hend.2]
    decide
  exact ⟨⟨hstrayed, hends⟩, hunit (.inl ⟨Nat.le_of_eq hends.1, Nat.le_of_eq hends.2⟩),
    ⟨hlost, hend⟩, hsome, by decide +kernel, hwithin⟩

/-- Not every position is in the unit interval. -/
theorem not_within_unit :
    ¬ ∀ gradient, Reachable (fun _ => True) gradient →
      ∀ position ∈ gradient.positions, 0 ≤ position ∧ position ≤ 1 := by
  intro hall
  have hmade : Reachable (fun _ => True) (normalize lost) :=
    .ofKeys (fun _ _ => trivial) ((ofKeys_eq_ok_iff _ _).mpr ⟨by decide, rfl⟩)
  have hpositions := hall (normalize lost) hmade
  revert hpositions
  decide +kernel

end LinearGradient

end LineGrammar
