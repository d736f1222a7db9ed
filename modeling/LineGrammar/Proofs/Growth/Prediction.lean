/-
Predictions against drawings.  What is predicted for a depth without deriving anything
is the length of the word that is derived there, and the number of vertices of its line
together with those that orders to go back in vain leave out.
-/
import LineGrammar.Proofs.LSystem.History
import LineGrammar.Proofs.Turtle.Length

namespace LineGrammar

namespace LSystem

/-- The line of a derived word can always be drawn. -/
theorem Faithful.size_draw {system : LSystem} (h : system.Faithful)
    (settings : TurtleSettings) (table : Interpretation) (depth : Nat) :
    ∃ stream, Turtle.draw settings table (system.produce depth).1.word
        (system.produce depth).1.counts = .ok stream ∧
      stream.size + 3 * (Turtle.atStart settings).vainLoads settings table
          (system.produce depth).1.word =
        1 + ((system.produce depth).1.word.map table.yieldOf).sum := by
  have hlength := Grammar.length_counts_levelAt system.grammar depth
  rw [h.produce_fst depth]
  exact Turtle.size_draw settings table hlength.symm

/-- A prediction that is not flagged says exactly how long the derived word is, and
how many vertices its line has, if each order to go back in vain is charged a whole
bridge. -/
theorem estimate_eq_drawn {system : LSystem} (hsystem : system.Reachable)
    (table : Interpretation) (settings : TurtleSettings) (depth : Nat) {estimate : Estimate}
    (hestimate : system.grammar.estimate table depth = .ok estimate)
    (hclear : estimate.overflow = false) :
    let derivation := (system.produce depth).1
    estimate.symbols = derivation.word.length ∧
      ∃ stream, Turtle.draw settings table derivation.word derivation.counts = .ok stream ∧
        estimate.vertices = stream.size +
          3 * (Turtle.atStart settings).vainLoads settings table derivation.word ∧
        stream.size ≤ estimate.vertices := by
  intro derivation
  have hfaithful := hsystem.faithful
  obtain ⟨predicted, hpredicted, hexact⟩ := system.grammar.estimate_exact table depth
  have hsame : predicted = estimate := by
    rw [hestimate] at hpredicted
    exact (Except.ok.inj hpredicted).symm
  subst hsame
  obtain ⟨hsymbols, hvertices⟩ := hexact hclear
  have hword : derivation.word = system.grammar.wordAt depth := by
    change (system.produce depth).1.word = _
    rw [hfaithful.produce_fst depth]
    rfl
  obtain ⟨stream, hdraw, hsize⟩ := hfaithful.size_draw settings table depth
  change stream.size + 3 * (Turtle.atStart settings).vainLoads settings table
    derivation.word = 1 + (derivation.word.map table.yieldOf).sum at hsize
  rw [← hword] at hsymbols hvertices
  refine ⟨hsymbols, stream, hdraw, ?_, ?_⟩
  · rw [hvertices, hsize]
  · rw [hvertices, ← hsize]
    exact Nat.le_add_right _ _

/-- Two returns in vain and a rule that erases: five symbols, and eight vertices
predicted where two are drawn. -/
theorem estimate_eq_drawn_of_vain_returns :
    let system := (ofRules ['F', 'X'] [('F', ['F', ']', 'G'])] ['F']).run
      [.produce 3, .addRule 'X' []]
    let table : Interpretation := .ofList [('F', .goForward), (']', .loadPosition)]
    system.Reachable ∧
      system.grammar.estimate table 2 = .ok ⟨5, 8, false⟩ ∧
      5 = (system.produce 2).1.word.length ∧
      ∃ stream, Turtle.draw .default table (system.produce 2).1.word
          (system.produce 2).1.counts = .ok stream ∧
        8 = stream.size + 3 * (Turtle.atStart .default).vainLoads .default table
          (system.produce 2).1.word ∧
        stream.size ≤ 8 := by
  intro system table
  have hreachable : system.Reachable := ⟨_, _, _, _, rfl⟩
  have hestimate : system.grammar.estimate table 2 = .ok ⟨5, 8, false⟩ := by
    decide +kernel
  exact ⟨hreachable, hestimate,
    estimate_eq_drawn hreachable table .default 2 hestimate rfl⟩

end LSystem

end LineGrammar
