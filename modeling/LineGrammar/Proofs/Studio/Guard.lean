/-
What the limits of a studio hold back.  They are compared with the prediction for the
depth at hand alone.  A word on the way there may be longer than the last one, by no
more than the symbols that are erased in between.
-/
import LineGrammar.Proofs.Growth.Prediction
import LineGrammar.Studio
import Mathlib.Algebra.BigOperators.Intervals

namespace LineGrammar

namespace Grammar

/-- How many symbols of the word at a depth have nothing to follow them. -/
def erasedAt (grammar : Grammar) (depth : Nat) : Nat :=
  (grammar.wordAt depth).countP fun symbol => (grammar.successor symbol).isEmpty

/-- Only erased symbols make a word longer than the next one. -/
theorem length_le_length_expand (grammar : Grammar) (word : Word) :
    word.length ≤ (grammar.expand word).length +
      word.countP fun symbol => (grammar.successor symbol).isEmpty := by
  induction word with
  | nil => exact Nat.zero_le _
  | cons symbol word ih =>
      have hexpand : (grammar.expand (symbol :: word)).length =
          (grammar.successor symbol).length + (grammar.expand word).length := by
        simp [expand]
      rw [hexpand, List.length_cons, List.countP_cons]
      by_cases hempty : (grammar.successor symbol).isEmpty = true
      · rw [if_pos hempty]
        omega
      · have hpos : 0 < (grammar.successor symbol).length := by
          apply List.length_pos_of_ne_nil
          intro hnil
          exact hempty (List.isEmpty_iff.mpr hnil)
        rw [if_neg hempty]
        omega

theorem length_wordAt_le (grammar : Grammar) {depth last : Nat} (hle : depth ≤ last) :
    (grammar.wordAt depth).length ≤
      (grammar.wordAt last).length + ∑ later ∈ Finset.Ico depth last, grammar.erasedAt later := by
  induction last, hle using Nat.le_induction with
  | base => simp
  | succ last hle ih =>
      have hstep := grammar.length_le_length_expand (grammar.wordAt last)
      have hsum := Finset.sum_Ico_succ_top hle grammar.erasedAt
      rw [hsum]
      change (grammar.wordAt last).length ≤
        (grammar.wordAt (last + 1)).length + grammar.erasedAt last at hstep
      omega

theorem erasedAt_eq_zero {grammar : Grammar} {depth : Nat}
    (h : ∀ symbol ∈ grammar.wordAt depth, grammar.successor symbol ≠ []) :
    grammar.erasedAt depth = 0 := by
  rw [erasedAt, List.countP_eq_zero]
  intro symbol hsymbol hempty
  exact h symbol hsymbol (List.isEmpty_iff.mp hempty)

end Grammar

/-- The words that a derivation leaves behind are those of the depths on the way. -/
theorem LSystem.Faithful.word_of_produce {system : LSystem} (h : system.Faithful)
    {last depth : Nat} {word : Word}
    (hword : (system.produce last).2.words[depth]? = some word) :
    word = system.grammar.wordAt depth := by
  have hafter := h.produce_snd last
  have hlt : depth < (system.produce last).2.words.size := by
    by_contra hge
    rw [Array.getElem?_eq_none (Nat.le_of_not_lt hge)] at hword
    cases hword
  rw [hafter.words_eq, Grammar.getElem?_firstWords _ hlt, LSystem.grammar_produce] at hword
  exact (Option.some.inj hword).symm

namespace Studio

/-- A prediction always comes out, so what is refused is refused by the limits. -/
theorem exists_estimate (studio : Studio) :
    ∃ estimate, studio.system.grammar.estimate studio.table studio.iterations = .ok estimate ∧
      studio.estimate = .ok estimate ∧
      studio.checkSize = studio.limits.check studio.iterations estimate := by
  obtain ⟨estimate, hestimate, -⟩ :=
    studio.system.grammar.estimate_exact studio.table studio.iterations
  have hstudio : studio.estimate = .ok estimate := by
    rw [Studio.estimate, hestimate]
    rfl
  refine ⟨estimate, hestimate, hstudio, ?_⟩
  rw [checkSize, hstudio]
  rfl

/-- What passes the limits is the prediction, and it stays within them. -/
theorem checkSize_eq_ok {studio : Studio} {estimate : Estimate}
    (h : studio.checkSize = .ok estimate) :
    studio.system.grammar.estimate studio.table studio.iterations = .ok estimate ∧
      estimate.overflow = false ∧ estimate.symbols ≤ studio.limits.maxSymbols ∧
      estimate.vertices ≤ studio.limits.maxVertices := by
  obtain ⟨predicted, hpredicted, -, hcheck⟩ := studio.exists_estimate
  rw [hcheck, Limits.check_eq_ok_iff] at h
  obtain ⟨rfl, hclear, hsymbols, hvertices⟩ := h
  exact ⟨hpredicted, hclear, hsymbols, hvertices⟩

theorem length_wordAt_iterations_le {studio : Studio} {estimate : Estimate}
    (h : studio.checkSize = .ok estimate) :
    (studio.system.grammar.wordAt studio.iterations).length ≤ studio.limits.maxSymbols := by
  obtain ⟨hestimate, hclear, hsymbols, -⟩ := checkSize_eq_ok h
  obtain ⟨predicted, hpredicted, hexact⟩ :=
    studio.system.grammar.estimate_exact studio.table studio.iterations
  rw [hestimate] at hpredicted
  rw [← Except.ok.inj hpredicted] at hexact
  rw [← (hexact hclear).1]
  exact hsymbols

/-- A studio whose only symbol doubles and then vanishes. -/
def fading : Studio where
  system := .ofRules ['A'] [('A', ['B', 'B']), ('B', [])] []
  table := .empty
  settings := .default
  iterations := 2
  painter := .default
  limits := ⟨1, 1, "logs"⟩

theorem reachable_fading : fading.system.Reachable :=
  ⟨_, _, _, [], rfl⟩

theorem checkSize_fading : fading.checkSize = .ok ⟨0, 1, false⟩ := by
  decide +kernel

/-- What passes the limits at the last depth may exceed them on the way: the word of
one symbol becomes two, where one is allowed, before it vanishes. -/
theorem not_checkSize_bounds_words :
    ¬ ∀ (studio : Studio) (estimate : Estimate), studio.system.Reachable →
      studio.checkSize = .ok estimate → ∀ depth ≤ studio.iterations,
        (studio.system.grammar.wordAt depth).length ≤ studio.limits.maxSymbols := by
  intro h
  have hbound := h fading ⟨0, 1, false⟩ reachable_fading checkSize_fading 1 (by decide)
  revert hbound
  decide +kernel

/-- What passes the limits has no more symbols at the last depth than they allow.  The
word at a depth before exceeds them at most by the symbols that are erased from there
on, and not at all where none is; and the words that are derived on the way are those
of these depths. -/
theorem checkSize_bounds_words {studio : Studio} (hsystem : studio.system.Reachable)
    {estimate : Estimate} (h : studio.checkSize = .ok estimate) :
    (studio.system.grammar.wordAt studio.iterations).length ≤ studio.limits.maxSymbols ∧
      ∀ depth ≤ studio.iterations,
        (studio.system.grammar.wordAt depth).length ≤ studio.limits.maxSymbols +
            ∑ later ∈ Finset.Ico depth studio.iterations,
              studio.system.grammar.erasedAt later ∧
          ((∀ later, depth ≤ later → later < studio.iterations →
              ∀ symbol ∈ studio.system.grammar.wordAt later,
                studio.system.grammar.successor symbol ≠ []) →
            (studio.system.grammar.wordAt depth).length ≤ studio.limits.maxSymbols) ∧
          ∀ word, (studio.system.produce studio.iterations).2.words[depth]? = some word →
            word = studio.system.grammar.wordAt depth := by
  have hlast := length_wordAt_iterations_le h
  refine ⟨hlast, ?_⟩
  intro depth hdepth
  have hlength := studio.system.grammar.length_wordAt_le hdepth
  have hbound : (studio.system.grammar.wordAt depth).length ≤ studio.limits.maxSymbols +
      ∑ later ∈ Finset.Ico depth studio.iterations, studio.system.grammar.erasedAt later :=
    Nat.le_trans hlength (Nat.add_le_add_right hlast _)
  refine ⟨hbound, ?_, ?_⟩
  · intro hkept
    have hzero : ∑ later ∈ Finset.Ico depth studio.iterations,
        studio.system.grammar.erasedAt later = 0 := by
      apply Finset.sum_eq_zero
      intro later hlater
      obtain ⟨hfrom, hbefore⟩ := Finset.mem_Ico.mp hlater
      exact Grammar.erasedAt_eq_zero (hkept later hfrom hbefore)
    rwa [hzero, Nat.add_zero] at hbound
  · intro word hword
    exact hsystem.faithful.word_of_produce hword

/-- The two symbols that vanish make up for the second one at depth one. -/
theorem checkSize_bounds_words_of_fading :
    fading.system.Reachable ∧ fading.checkSize = .ok ⟨0, 1, false⟩ ∧
      (fading.system.grammar.wordAt 2).length ≤ 1 ∧
      (fading.system.grammar.wordAt 1).length ≤
        1 + ∑ later ∈ Finset.Ico 1 2, fading.system.grammar.erasedAt later := by
  have hbounds := checkSize_bounds_words reachable_fading checkSize_fading
  exact ⟨reachable_fading, checkSize_fading, hbounds.1, (hbounds.2 1 (by decide)).1⟩

end Studio

end LineGrammar
