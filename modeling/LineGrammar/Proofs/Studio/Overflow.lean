/-
When a prediction is given up.  The flag of a prediction is raised exactly if the length
of the word or the number of vertices does not fit into a word of the machine, or a count
that squaring comes by on the way.  The latter may belong to a symbol that the start word
never leads to, so a prediction can be given up for a drawing of a single symbol.
-/
import LineGrammar.Proofs.Studio.Guard

namespace LineGrammar

/-- Some symbol is counted on the way to a prediction and does not fit: in the start word,
or in what a symbol of the alphabet turns into by itself after as many steps as squaring
visits. -/
def Grammar.Overgrown (grammar : Grammar) (table : Interpretation) (depth : Nat) : Prop :=
  (∃ symbol, UInt64.size ≤ grammar.start.count symbol) ∨
    ∃ steps, Matrix.Visits depth steps ∧ ∃ parent ∈ grammar.alphabet table, ∃ symbol,
      UInt64.size ≤ (grammar.expand^[steps] [parent]).count symbol

/-- Only a flag makes the limits speak of an overflow. -/
theorem Limits.check_eq_overflow_iff (limits : Limits) (iterations : Nat)
    (estimate : Estimate) (depth : Nat) :
    limits.check iterations estimate = .error (.overflow depth) ↔
      depth = iterations ∧ estimate.overflow = true := by
  unfold check
  split
  · next hflag =>
      simp only [hflag, and_true, Except.error.injEq, StudioFault.overflow.injEq]
      exact eq_comm
  · next hflag =>
      split
      · simp [hflag]
      · split <;> simp [hflag]

namespace Studio

/-- A studio whose only symbol stays as it is, while the rule of another one doubles it. -/
def sterile : Studio where
  system := .ofRules ['A'] [('B', ['B', 'B'])] []
  table := .empty
  settings := .default
  iterations := 64
  painter := .default
  limits := .default

theorem estimate_sterile :
    sterile.system.grammar.estimate sterile.table sterile.iterations = .ok .tooLarge := by
  decide +kernel

/-- A flag does not mean that the drawing is too large: here it has one symbol and one
vertex, and what does not fit is the count of a symbol that it does not have. -/
theorem not_overflow_only_if_large :
    ¬ ∀ (studio : Studio) (estimate : Estimate), studio.system.Reachable →
      studio.system.grammar.estimate studio.table studio.iterations = .ok estimate →
        estimate.overflow = true →
          UInt64.size ≤ (studio.system.grammar.wordAt studio.iterations).length ∨
            UInt64.size ≤ 1 + ((studio.system.grammar.wordAt studio.iterations).map
              studio.table.yieldOf).sum := by
  intro h
  have hlarge := h sterile .tooLarge ⟨_, _, _, [], rfl⟩ estimate_sterile rfl
  revert hlarge
  decide +kernel

/-- A prediction always comes out.  It is flagged exactly if the word has too many symbols
or vertices to be counted, or if a count does not fit that is met on the way; and just
then the limits speak of an overflow. -/
theorem overflow_iff_overgrown (studio : Studio) :
    ∃ estimate,
      studio.system.grammar.estimate studio.table studio.iterations = .ok estimate ∧
      (estimate.overflow = true ↔
        UInt64.size ≤ (studio.system.grammar.wordAt studio.iterations).length ∨
        UInt64.size ≤ 1 + ((studio.system.grammar.wordAt studio.iterations).map
          studio.table.yieldOf).sum ∨
        studio.system.grammar.Overgrown studio.table studio.iterations) ∧
      ∀ depth, studio.checkSize = .error (.overflow depth) ↔
        depth = studio.iterations ∧ estimate.overflow = true := by
  obtain ⟨estimate, hestimate, -, hcheck⟩ := studio.exists_estimate
  refine ⟨estimate, hestimate, ?_, ?_⟩
  · exact Estimate.ofAlphabet_overflow_iff studio.table
      (studio.system.grammar.alphabet studio.table).ascending
      (studio.system.grammar.covers_alphabet studio.table) hestimate
  · intro depth
    rw [hcheck, Limits.check_eq_overflow_iff]

end Studio

end LineGrammar
