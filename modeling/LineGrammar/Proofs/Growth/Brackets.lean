/-
Brackets.  A word is covered if each of its beginnings saves the pose at least as often as
it goes back.  Where the start word and all successors are covered, and symbols that save
or go back have no rules, every derived word is covered too.  Then no turtle goes back in
vain, and predictions of vertices are exact.
-/
import LineGrammar.Proofs.Growth.Prediction

namespace LineGrammar

namespace Interpretation

def saves (table : Interpretation) (word : Word) : Nat :=
  word.countP fun symbol => table.get? symbol = some .savePosition

def loads (table : Interpretation) (word : Word) : Nat :=
  word.countP fun symbol => table.get? symbol = some .loadPosition

/-- No beginning of a word goes back more often than there are poses to go back to: some
that are saved before, and those that it saves itself. -/
def Covered (table : Interpretation) (saved : Nat) (word : Word) : Prop :=
  ∀ beginning, beginning <+: word → table.loads beginning ≤ saved + table.saves beginning

instance (table : Interpretation) (saved : Nat) (word : Word) :
    Decidable (table.Covered saved word) :=
  decidable_of_iff (∀ beginning ∈ word.inits,
    table.loads beginning ≤ saved + table.saves beginning) (by simp [Covered])

variable {table : Interpretation} {saved : Nat} {symbol : Char} {word : Word}

theorem saves_append (table : Interpretation) (left right : Word) :
    table.saves (left ++ right) = table.saves left + table.saves right :=
  List.countP_append

theorem loads_append (table : Interpretation) (left right : Word) :
    table.loads (left ++ right) = table.loads left + table.loads right :=
  List.countP_append

theorem saves_cons (table : Interpretation) (symbol : Char) (word : Word) :
    table.saves (symbol :: word) =
      table.saves word + if table.get? symbol = some .savePosition then 1 else 0 := by
  simp [saves, List.countP_cons]

theorem loads_cons (table : Interpretation) (symbol : Char) (word : Word) :
    table.loads (symbol :: word) =
      table.loads word + if table.get? symbol = some .loadPosition then 1 else 0 := by
  simp [loads, List.countP_cons]

theorem covered_cons_iff : table.Covered saved (symbol :: word) ↔
    ∀ beginning, beginning <+: word →
      table.loads [symbol] + table.loads beginning ≤
        saved + (table.saves [symbol] + table.saves beginning) := by
  have hsplit : ∀ beginning, symbol :: beginning = [symbol] ++ beginning := fun _ => rfl
  constructor
  · intro h beginning hbeginning
    have hlonger := h (symbol :: beginning) ((List.prefix_cons_inj symbol).mpr hbeginning)
    rwa [hsplit, loads_append, saves_append] at hlonger
  · intro h beginning hbeginning
    rcases List.prefix_cons_iff.mp hbeginning with rfl | ⟨shorter, rfl, hshorter⟩
    · exact Nat.zero_le _
    · rw [hsplit, loads_append, saves_append]
      exact h shorter hshorter

theorem covered_cons_of_save (hsymbol : table.get? symbol = some .savePosition) :
    table.Covered saved (symbol :: word) ↔ table.Covered (saved + 1) word := by
  have hsaves : table.saves [symbol] = 1 := by simp [saves, hsymbol]
  have hloads : table.loads [symbol] = 0 := by simp [loads, hsymbol]
  rw [covered_cons_iff, hsaves, hloads]
  constructor
  · intro h beginning hbeginning
    have hle := h beginning hbeginning
    omega
  · intro h beginning hbeginning
    have hle := h beginning hbeginning
    omega

theorem covered_cons_of_load (hsymbol : table.get? symbol = some .loadPosition) :
    table.Covered saved (symbol :: word) ↔
      ∃ fewer, saved = fewer + 1 ∧ table.Covered fewer word := by
  have hsaves : table.saves [symbol] = 0 := by simp [saves, hsymbol]
  have hloads : table.loads [symbol] = 1 := by simp [loads, hsymbol]
  rw [covered_cons_iff, hsaves, hloads]
  constructor
  · intro h
    have hfirst := h [] List.nil_prefix
    obtain ⟨fewer, rfl⟩ : ∃ fewer, saved = fewer + 1 :=
      Nat.exists_eq_add_of_le' (by simpa [loads, saves] using hfirst)
    refine ⟨fewer, rfl, ?_⟩
    intro beginning hbeginning
    have hle := h beginning hbeginning
    omega
  · rintro ⟨fewer, rfl, h⟩ beginning hbeginning
    have hle := h beginning hbeginning
    omega

theorem covered_cons_of_ne (hsave : table.get? symbol ≠ some .savePosition)
    (hload : table.get? symbol ≠ some .loadPosition) :
    table.Covered saved (symbol :: word) ↔ table.Covered saved word := by
  have hsaves : table.saves [symbol] = 0 := by simp [saves, hsave]
  have hloads : table.loads [symbol] = 0 := by simp [loads, hload]
  rw [covered_cons_iff, hsaves, hloads]
  simp only [Nat.zero_add, Covered]

/-- A beginning of two words put together may cut the second one anywhere. -/
theorem Covered.append {left right : Word} (hleft : table.Covered 0 left)
    (hright : table.Covered saved right) : table.Covered saved (left ++ right) := by
  rintro beginning ⟨rest, hrest⟩
  rcases List.append_eq_append_iff.mp hrest with ⟨middle, hmiddle, -⟩ | ⟨middle, rfl, hmiddle⟩
  · have hle := hleft beginning ⟨middle, hmiddle.symm⟩
    omega
  · have hwhole := hleft left (List.prefix_refl left)
    have hcut := hright middle ⟨rest, hmiddle.symm⟩
    rw [loads_append, saves_append]
    omega

end Interpretation

namespace Grammar

/-- Symbols that save the pose or go back have no rules, and the start word and all
successors are covered. -/
structure BracketSafe (grammar : Grammar) (table : Interpretation) : Prop where
  save_fixed : ∀ symbol, table.get? symbol = some .savePosition →
    grammar.rules.get? symbol = none
  load_fixed : ∀ symbol, table.get? symbol = some .loadPosition →
    grammar.rules.get? symbol = none
  start_covered : table.Covered 0 grammar.start
  successor_covered : ∀ symbol successor, grammar.rules.get? symbol = some successor →
    table.Covered 0 successor

namespace BracketSafe

variable {grammar : Grammar} {table : Interpretation}

/-- Rewriting all symbols at once keeps a word covered, whatever is saved before it. -/
theorem covered_expand (h : grammar.BracketSafe table) {saved : Nat} {word : Word}
    (hword : table.Covered saved word) : table.Covered saved (grammar.expand word) := by
  induction word generalizing saved with
  | nil => exact hword
  | cons symbol word ih =>
      have hexpand : grammar.expand (symbol :: word) =
          grammar.successor symbol ++ grammar.expand word := rfl
      rw [hexpand, successor]
      by_cases hsave : table.get? symbol = some .savePosition
      · rw [h.save_fixed symbol hsave]
        rw [Interpretation.covered_cons_of_save hsave] at hword
        exact (Interpretation.covered_cons_of_save hsave).mpr (ih hword)
      by_cases hload : table.get? symbol = some .loadPosition
      · rw [h.load_fixed symbol hload]
        rw [Interpretation.covered_cons_of_load hload] at hword
        obtain ⟨fewer, rfl, hrest⟩ := hword
        exact (Interpretation.covered_cons_of_load hload).mpr ⟨fewer, rfl, ih hrest⟩
      rw [Interpretation.covered_cons_of_ne hsave hload] at hword
      cases hrule : grammar.rules.get? symbol with
      | none => exact (Interpretation.covered_cons_of_ne hsave hload).mpr (ih hword)
      | some successor => exact (h.successor_covered symbol successor hrule).append (ih hword)

theorem covered_wordAt (h : grammar.BracketSafe table) (depth : Nat) :
    table.Covered 0 (grammar.wordAt depth) := by
  induction depth with
  | zero => exact h.start_covered
  | succ depth ih => exact h.covered_expand ih

end BracketSafe

end Grammar

namespace Turtle

/-- Moves and turns leave the saved poses alone. -/
theorem saved_follow (settings : TurtleSettings) (turtle : Turtle) {order : Order}
    (hsave : order ≠ .savePosition) (hload : order ≠ .loadPosition) :
    (turtle.follow settings order).2.saved = turtle.saved := by
  cases order with
  | goForward => rfl
  | turnRight => rfl
  | turnLeft => rfl
  | savePosition => exact absurd rfl hsave
  | loadPosition => exact absurd rfl hload

/-- On a word that its saved poses cover a turtle never goes back in vain. -/
theorem vainLoads_eq_zero {settings : TurtleSettings} {table : Interpretation}
    {turtle : Turtle} {word : Word} (h : table.Covered turtle.saved.length word) :
    turtle.vainLoads settings table word = 0 := by
  induction word generalizing turtle with
  | nil => rfl
  | cons symbol word ih =>
      by_cases hsave : table.get? symbol = some .savePosition
      · rw [Interpretation.covered_cons_of_save hsave] at h
        have hrest := @ih (turtle.follow settings .savePosition).2 h
        simp [vainLoads, hsave, hrest]
      by_cases hload : table.get? symbol = some .loadPosition
      · rw [Interpretation.covered_cons_of_load hload] at h
        obtain ⟨fewer, hlength, hrest⟩ := h
        obtain ⟨pose, saved, hsaved⟩ := List.exists_cons_of_length_eq_add_one hlength
        have hfewer : (turtle.follow settings .loadPosition).2.saved.length = fewer := by
          rw [hsaved, List.length_cons, Nat.add_right_cancel_iff] at hlength
          simpa only [follow, hsaved] using hlength
        have hback := @ih (turtle.follow settings .loadPosition).2 (hfewer ▸ hrest)
        simp [vainLoads, hload, hsaved, hback]
      rw [Interpretation.covered_cons_of_ne hsave hload] at h
      cases horder : table.get? symbol with
      | none =>
          simp only [vainLoads, horder]
          exact ih h
      | some order =>
          have hnoSave : order ≠ .savePosition := fun heq => hsave (heq ▸ horder)
          have hnoLoad : order ≠ .loadPosition := fun heq => hload (heq ▸ horder)
          have hsame := saved_follow settings turtle hnoSave hnoLoad
          have hrest := @ih (turtle.follow settings order).2 (hsame ▸ h)
          simp [vainLoads, horder, hnoLoad, hrest]

end Turtle

namespace LSystem

/-- For a grammar with safe brackets no order to go back is in vain at any depth, and the
prediction of vertices, unless it is flagged, is their number. -/
theorem estimate_eq_size_of_bracketSafe {system : LSystem} (hsystem : system.Reachable)
    {table : Interpretation} (hsafe : system.grammar.BracketSafe table) (depth : Nat) :
    (∀ settings, (Turtle.atStart settings).vainLoads settings table
      (system.produce depth).1.word = 0) ∧
      ∃ estimate, system.grammar.estimate table depth = .ok estimate ∧
        (estimate.overflow = false → ∀ settings, ∃ stream,
          Turtle.draw settings table (system.produce depth).1.word
            (system.produce depth).1.counts = .ok stream ∧
          estimate.vertices = stream.size) := by
  have hword : (system.produce depth).1.word = system.grammar.wordAt depth := by
    rw [hsystem.faithful.produce_fst depth]
    rfl
  have hvain : ∀ settings, (Turtle.atStart settings).vainLoads settings table
      (system.produce depth).1.word = 0 := by
    intro settings
    apply Turtle.vainLoads_eq_zero
    rw [hword]
    exact hsafe.covered_wordAt depth
  obtain ⟨estimate, hestimate, hexact⟩ := system.grammar.estimate_exact table depth
  refine ⟨hvain, estimate, hestimate, ?_⟩
  intro hclear settings
  obtain ⟨stream, hdraw, hsize⟩ := hsystem.faithful.size_draw settings table depth
  refine ⟨stream, hdraw, ?_⟩
  rw [(hexact hclear).2, ← hword, ← hsize, hvain settings, Nat.mul_zero, Nat.add_zero]

/-- A rule that closes one branch in the middle of its successor and leaves another one
open. -/
def branching : LSystem :=
  (ofRules ['F'] [('F', ['F', '[', 'F', ']', '[', 'F'])] ['F']).run [.produce 1]

theorem bracketSafe_branching : branching.grammar.BracketSafe .default := by
  have hrules : ∀ symbol, branching.grammar.rules.get? symbol =
      if 'F' = symbol then some ['F', '[', 'F', ']', '[', 'F'] else none := fun symbol =>
    RuleTable.get?_insert .empty 'F' symbol _
  have hforward : Interpretation.default.get? 'F' = some .goForward := by decide +kernel
  constructor
  · intro symbol hsymbol
    rw [hrules, if_neg]
    rintro rfl
    simp [hforward] at hsymbol
  · intro symbol hsymbol
    rw [hrules, if_neg]
    rintro rfl
    simp [hforward] at hsymbol
  · decide +kernel
  · intro symbol successor hrule
    rw [hrules, Option.ite_none_right_eq_some] at hrule
    obtain ⟨-, hsuccessor⟩ := hrule
    rw [← Option.some.inj hsuccessor]
    decide +kernel

/-- Two steps of it give twenty-two vertices, and just as many are predicted. -/
theorem estimate_eq_size_of_branching :
    branching.Reachable ∧ branching.grammar.BracketSafe .default ∧
      (Turtle.atStart .default).vainLoads .default .default (branching.produce 2).1.word = 0 ∧
      branching.grammar.estimate .default 2 = .ok ⟨21, 22, false⟩ ∧
      ∃ stream, Turtle.draw .default .default (branching.produce 2).1.word
        (branching.produce 2).1.counts = .ok stream ∧ stream.size = 22 := by
  have hreachable : branching.Reachable := ⟨_, _, _, _, rfl⟩
  have hestimate : branching.grammar.estimate .default 2 = .ok ⟨21, 22, false⟩ := by
    decide +kernel
  obtain ⟨hvain, estimate, hsame, hexact⟩ :=
    estimate_eq_size_of_bracketSafe hreachable bracketSafe_branching 2
  rw [hestimate, Except.ok.injEq] at hsame
  obtain ⟨stream, hdraw, hsize⟩ := hexact (hsame ▸ rfl) .default
  refine ⟨hreachable, bracketSafe_branching, hvain .default, hestimate, stream, hdraw, ?_⟩
  rw [← hsize, ← hsame]

end LSystem

end LineGrammar
