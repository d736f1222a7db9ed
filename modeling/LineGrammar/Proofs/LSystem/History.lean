/-
Histories of a system that remembers what it has derived.  In whatever order words
are asked for and the grammar is changed, the two tables hold the words and levels
of the grammar at hand and nothing else.  Every answer is therefore the first answer
of a newly made system, and the derivation made from the start word.
-/
import LineGrammar.LSystem

namespace LineGrammar

namespace Grammar

def firstWords (grammar : Grammar) (count : Nat) : Array Word :=
  (Array.range count).map grammar.wordAt

def firstLevels (grammar : Grammar) (count : Nat) : Array Level :=
  (Array.range count).map grammar.levelAt

@[simp] theorem size_firstWords (grammar : Grammar) (count : Nat) :
    (grammar.firstWords count).size = count := by
  simp [firstWords]

@[simp] theorem size_firstLevels (grammar : Grammar) (count : Nat) :
    (grammar.firstLevels count).size = count := by
  simp [firstLevels]

theorem getElem?_firstWords (grammar : Grammar) {count depth : Nat} (h : depth < count) :
    (grammar.firstWords count)[depth]? = some (grammar.wordAt depth) := by
  simp [firstWords, h]

theorem getElem?_firstLevels (grammar : Grammar) {count depth : Nat} (h : depth < count) :
    (grammar.firstLevels count)[depth]? = some (grammar.levelAt depth) := by
  simp [firstLevels, h]

theorem push_firstWords (grammar : Grammar) (count : Nat) :
    (grammar.firstWords count).push (grammar.wordAt count) =
      grammar.firstWords (count + 1) := by
  simp [firstWords, Array.range_succ]

theorem push_firstLevels (grammar : Grammar) (count : Nat) :
    (grammar.firstLevels count).push (grammar.levelAt count) =
      grammar.firstLevels (count + 1) := by
  simp [firstLevels, Array.range_succ]

theorem firstWords_one (grammar : Grammar) : grammar.firstWords 1 = #[grammar.start] := by
  have hzero : grammar.firstWords 0 = #[] :=
    Array.eq_empty_of_size_eq_zero (grammar.size_firstWords 0)
  rw [← push_firstWords, hzero]
  rfl

theorem firstLevels_one (grammar : Grammar) :
    grammar.firstLevels 1 = #[grammar.firstLevel] := by
  have hzero : grammar.firstLevels 0 = #[] :=
    Array.eq_empty_of_size_eq_zero (grammar.size_firstLevels 0)
  rw [← push_firstLevels, hzero]
  rfl

theorem extendWords_firstWords (grammar : Grammar) (more count : Nat) :
    grammar.extendWords more (grammar.firstWords (count + 1)) =
      grammar.firstWords (count + 1 + more) := by
  induction more generalizing count with
  | zero => rfl
  | succ more ih =>
      have hlast : (grammar.firstWords (count + 1)).back? = some (grammar.wordAt count) := by
        rw [Array.back?_eq_getElem?, size_firstWords]
        exact getElem?_firstWords grammar (Nat.lt_succ_self count)
      have hnext : grammar.expand (grammar.wordAt count) = grammar.wordAt (count + 1) := rfl
      rw [extendWords, hlast, Option.getD_some, hnext, push_firstWords, ih]
      congr 1
      omega

/-- Levels catch up with words that others have derived. -/
theorem extendLevels_firstLevels (grammar : Grammar) (known more count : Nat)
    (h : count + 1 + more ≤ known) :
    grammar.extendLevels (grammar.firstWords known) more (grammar.firstLevels (count + 1)) =
      grammar.firstLevels (count + 1 + more) := by
  induction more generalizing count with
  | zero => rfl
  | succ more ih =>
      have hword : (grammar.firstWords known)[(grammar.firstLevels (count + 1)).size - 1]? =
          some (grammar.wordAt count) := by
        rw [size_firstLevels]
        exact getElem?_firstWords grammar (by omega)
      have hlast : (grammar.firstLevels (count + 1)).back? =
          some (grammar.levelAt count) := by
        rw [Array.back?_eq_getElem?, size_firstLevels]
        exact getElem?_firstLevels grammar (Nat.lt_succ_self count)
      have hnext : grammar.nextLevel (grammar.wordAt count) (grammar.levelAt count) =
          grammar.levelAt (count + 1) := rfl
      rw [extendLevels, hword, hlast]
      simp only [Option.getD_some]
      rw [hnext, push_firstLevels, ih _ (by omega)]
      congr 1
      omega

theorem wordAt_eq_nil (grammar : Grammar) (h : grammar.start = []) (depth : Nat) :
    grammar.wordAt depth = [] := by
  induction depth with
  | zero => exact h
  | succ depth ih => rw [wordAt, ih, expand_nil]

theorem levelAt_of_start_eq_nil (grammar : Grammar) (h : grammar.start = [])
    (depth : Nat) : grammar.levelAt depth = ⟨[], 0⟩ := by
  induction depth with
  | zero => simp [levelAt, firstLevel, h]
  | succ depth ih => simp [levelAt, ih, wordAt_eq_nil grammar h, nextLevel, expandCounts]

end Grammar

namespace LSystem

/-- The tables hold the words and levels of the first depths and nothing else, and
there are words at least as deep as levels. -/
structure Faithful (system : LSystem) : Prop where
  words_eq : system.words = system.grammar.firstWords system.words.size
  levels_eq : system.levels = system.grammar.firstLevels system.levels.size
  levels_pos : 0 < system.levels.size
  levels_le : system.levels.size ≤ system.words.size

theorem faithful_forget (system : LSystem) : system.forget.Faithful where
  words_eq := (Grammar.firstWords_one system.grammar).symm
  levels_eq := (Grammar.firstLevels_one system.grammar).symm
  levels_pos := Nat.one_pos
  levels_le := Nat.le_refl 1

theorem faithful_ofGrammar (grammar : Grammar) : (ofGrammar grammar).Faithful :=
  faithful_forget _

/-- Subscribers have no part in what is derived. -/
theorem Faithful.withRules {system : LSystem} (h : system.Faithful) {rules : RuleStore Word}
    (htable : rules.table = system.rules.table) : { system with rules }.Faithful := by
  obtain ⟨table, listeners⟩ := rules
  cases htable
  exact ⟨h.words_eq, h.levels_eq, h.levels_pos, h.levels_le⟩

theorem Faithful.words_growWords {system : LSystem} (h : system.Faithful) (depth : Nat) :
    (system.growWords depth).words =
      system.grammar.firstWords (max system.words.size (depth + 1)) := by
  obtain ⟨count, hcount⟩ : ∃ count, system.words.size = count + 1 :=
    Nat.exists_eq_succ_of_ne_zero (by have := h.levels_pos; have := h.levels_le; omega)
  have hwords := h.words_eq
  rw [hcount] at hwords
  have hlength : count + 1 + (depth + 1 - (count + 1)) = max (count + 1) (depth + 1) := by
    omega
  change system.grammar.extendWords (depth + 1 - system.words.size) system.words = _
  rw [hcount, hwords, Grammar.extendWords_firstWords, hlength]

theorem Faithful.growWords {system : LSystem} (h : system.Faithful) (depth : Nat) :
    (system.growWords depth).Faithful := by
  have hwords := h.words_growWords depth
  have hsize : (system.growWords depth).words.size = max system.words.size (depth + 1) := by
    rw [hwords, Grammar.size_firstWords]
  constructor
  · rw [hsize]
    exact hwords
  · exact h.levels_eq
  · exact h.levels_pos
  · rw [hsize]
    exact Nat.le_trans h.levels_le (Nat.le_max_left _ _)

theorem Faithful.levels_growLevels {system : LSystem} (h : system.Faithful) {depth : Nat}
    (hdepth : depth < system.words.size) :
    (system.growLevels depth).levels =
      system.grammar.firstLevels (max system.levels.size (depth + 1)) := by
  obtain ⟨count, hcount⟩ : ∃ count, system.levels.size = count + 1 :=
    Nat.exists_eq_succ_of_ne_zero (by have := h.levels_pos; omega)
  have hlevels := h.levels_eq
  have hle := h.levels_le
  rw [hcount] at hlevels hle
  have hlength : count + 1 + (depth + 1 - (count + 1)) = max (count + 1) (depth + 1) := by
    omega
  change system.grammar.extendLevels system.words (depth + 1 - system.levels.size)
    system.levels = _
  rw [hcount, hlevels, h.words_eq,
    Grammar.extendLevels_firstLevels _ _ _ _ (by omega), hlength]

theorem Faithful.growLevels {system : LSystem} (h : system.Faithful) {depth : Nat}
    (hdepth : depth < system.words.size) : (system.growLevels depth).Faithful := by
  have hlevels := h.levels_growLevels hdepth
  have hsize : (system.growLevels depth).levels.size =
      max system.levels.size (depth + 1) := by
    rw [hlevels, Grammar.size_firstLevels]
  constructor
  · exact h.words_eq
  · rw [hsize]
    exact hlevels
  · rw [hsize]
    exact Nat.lt_of_lt_of_le h.levels_pos (Nat.le_max_left _ _)
  · rw [hsize]
    exact Nat.max_le.mpr ⟨h.levels_le, hdepth⟩

/-- Answers are the derivation made from the start word. -/
theorem Faithful.produce_fst {system : LSystem} (h : system.Faithful) (depth : Nat) :
    (system.produce depth).1 = system.grammar.derive depth := by
  by_cases hstart : system.grammar.start.isEmpty = true
  · have hnil : system.grammar.start = [] := List.isEmpty_iff.mp hstart
    rw [produce, if_pos hstart, Grammar.derive, Grammar.wordAt_eq_nil _ hnil,
      Grammar.levelAt_of_start_eq_nil _ hnil]
  · have hwords := h.words_growWords depth
    have hdepth : depth < (system.growWords depth).words.size := by
      rw [hwords, Grammar.size_firstWords]
      omega
    have hlevels := (h.growWords depth).levels_growLevels hdepth
    have hword : ((system.growWords depth).growLevels depth).words[depth]? =
        some (system.grammar.wordAt depth) := by
      change (system.growWords depth).words[depth]? = _
      rw [hwords]
      exact Grammar.getElem?_firstWords _ (by omega)
    have hlevel : ((system.growWords depth).growLevels depth).levels[depth]? =
        some (system.grammar.levelAt depth) := by
      rw [hlevels]
      exact Grammar.getElem?_firstLevels _ (by omega)
    rw [produce, if_neg hstart]
    simp only [hword, hlevel, Option.getD_some]
    rfl

theorem Faithful.produceWord_fst {system : LSystem} (h : system.Faithful) (depth : Nat) :
    (system.produceWord depth).1 = system.grammar.wordAt depth := by
  by_cases hstart : system.grammar.start.isEmpty = true
  · have hnil : system.grammar.start = [] := List.isEmpty_iff.mp hstart
    rw [produceWord, if_pos hstart, Grammar.wordAt_eq_nil _ hnil]
  · have hword : (system.growWords depth).words[depth]? =
        some (system.grammar.wordAt depth) := by
      rw [h.words_growWords depth]
      exact Grammar.getElem?_firstWords _ (by omega)
    rw [produceWord, if_neg hstart]
    simp only [hword, Option.getD_some]

theorem Faithful.produce_snd {system : LSystem} (h : system.Faithful) (depth : Nat) :
    (system.produce depth).2.Faithful := by
  by_cases hstart : system.grammar.start.isEmpty = true
  · rw [produce, if_pos hstart]
    exact h
  · rw [produce, if_neg hstart]
    apply (h.growWords depth).growLevels
    rw [h.words_growWords, Grammar.size_firstWords]
    omega

theorem Faithful.produceWord_snd {system : LSystem} (h : system.Faithful) (depth : Nat) :
    (system.produceWord depth).2.Faithful := by
  by_cases hstart : system.grammar.start.isEmpty = true
  · rw [produceWord, if_pos hstart]
    exact h
  · rw [produceWord, if_neg hstart]
    exact h.growWords depth

inductive Operation where
  | produce (depth : Nat)
  | produceWord (depth : Nat)
  | setStart (start : Word)
  | addRule (symbol : Char) (successor : Word)
  | removeRule (symbol : Char)
  | clearRules
  | setFlags (flags : List Char)
  | subscribe
  | copy
deriving DecidableEq

/-- The system after an operation.  One that is refused leaves it as it was. -/
def perform (system : LSystem) : Operation → LSystem
  | .produce depth => (system.produce depth).2
  | .produceWord depth => (system.produceWord depth).2
  | .setStart start => system.setStart start
  | .addRule symbol successor => system.addRule symbol successor
  | .removeRule symbol =>
      match system.removeRule symbol with
      | .ok (_, changed) => changed
      | .error _ => system
  | .clearRules => system.clearRules
  | .setFlags flags => system.setFlags flags
  | .subscribe => system.subscribe
  | .copy => system.copy

def run (system : LSystem) (operations : List Operation) : LSystem :=
  operations.foldl perform system

/-- What an operation means for the grammar, whatever has been derived.  Taking
away a rule that is not there changes nothing. -/
def Operation.change (grammar : Grammar) : Operation → Grammar
  | .setStart start => { grammar with start }
  | .addRule symbol successor =>
      { grammar with rules := grammar.rules.insert symbol successor }
  | .removeRule symbol => { grammar with rules := grammar.rules.erase symbol }
  | .clearRules => { grammar with rules := .empty }
  | .setFlags flags => { grammar with flagged := .ofList flags }
  | .produce _ | .produceWord _ | .subscribe | .copy => grammar

theorem perform_removeRule_of_none {system : LSystem} {symbol : Char}
    (h : system.grammar.rules.get? symbol = none) :
    system.perform (.removeRule symbol) = system := by
  have hrefused := (system.removeRule_eq_error_iff symbol _).mpr ⟨h, rfl⟩
  simp only [perform, hrefused]

theorem perform_removeRule_of_some {system : LSystem} {symbol : Char} {successor : Word}
    (h : system.grammar.rules.get? symbol = some successor) :
    ∃ rules, system.rules.remove symbol = .ok (successor, rules) ∧
      system.perform (.removeRule symbol) = { system with rules }.forget := by
  have hremoved := (system.rules.remove_eq_ok_iff symbol successor _).mpr ⟨h, rfl⟩
  have hdone := (system.removeRule_eq_ok_iff symbol successor _).mpr ⟨_, hremoved, rfl⟩
  exact ⟨_, hremoved, by simp only [perform, hdone]⟩

theorem faithful_perform {system : LSystem} (h : system.Faithful) (operation : Operation) :
    (system.perform operation).Faithful := by
  cases operation with
  | produce depth => exact h.produce_snd depth
  | produceWord depth => exact h.produceWord_snd depth
  | removeRule symbol =>
      cases hrule : system.grammar.rules.get? symbol with
      | none =>
          rw [perform_removeRule_of_none hrule]
          exact h
      | some successor =>
          obtain ⟨rules, -, hdone⟩ := perform_removeRule_of_some hrule
          rw [hdone]
          exact faithful_forget _
  | subscribe => exact h.withRules rfl
  | copy => exact h.withRules rfl
  | setStart start => exact (faithful_forget _).withRules rfl
  | addRule symbol successor => exact faithful_forget { system with rules := _ }
  | clearRules => exact faithful_forget { system with rules := .clear _ }
  | setFlags flags => exact (faithful_forget _).withRules rfl

theorem faithful_run {system : LSystem} (h : system.Faithful)
    (operations : List Operation) : (system.run operations).Faithful := by
  induction operations generalizing system with
  | nil => exact h
  | cons operation operations ih => exact ih (faithful_perform h operation)

theorem grammar_perform (system : LSystem) (operation : Operation) :
    (system.perform operation).grammar = operation.change system.grammar := by
  cases operation with
  | produce depth => exact grammar_produce system depth
  | produceWord depth => exact grammar_produceWord system depth
  | removeRule symbol =>
      cases hrule : system.grammar.rules.get? symbol with
      | none =>
          rw [perform_removeRule_of_none hrule, Operation.change,
            RuleTable.erase_of_get?_eq_none hrule]
      | some successor =>
          obtain ⟨rules, hremoved, hdone⟩ := perform_removeRule_of_some hrule
          rw [hdone, ((system.rules.remove_eq_ok_iff symbol successor rules).mp hremoved).2]
          rfl
  | subscribe => rfl
  | copy => rfl
  | setStart start => rfl
  | addRule symbol successor => rfl
  | clearRules => rfl
  | setFlags flags => rfl

theorem grammar_run (system : LSystem) (operations : List Operation) :
    (system.run operations).grammar =
      operations.foldl Operation.change system.grammar := by
  induction operations generalizing system with
  | nil => rfl
  | cons operation operations ih =>
      change ((system.perform operation).run operations).grammar = _
      rw [ih, grammar_perform]
      rfl

/-- Systems that operations make out of new ones. -/
def Reachable (system : LSystem) : Prop :=
  ∃ start rules flags operations, system = (ofRules start rules flags).run operations

theorem Reachable.faithful {system : LSystem} (h : system.Reachable) : system.Faithful := by
  obtain ⟨start, rules, flags, operations, rfl⟩ := h
  exact faithful_run (faithful_ofGrammar _) operations

/-- The word of a depth, as a system answers when it is asked for it. -/
def derivedAt (system : LSystem) (depth : Nat) : Word :=
  (system.produce depth).1.word

theorem Reachable.derivedAt_eq {system : LSystem} (h : system.Reachable) :
    system.derivedAt = system.grammar.wordAt := by
  funext depth
  exact congrArg Derivation.word (h.faithful.produce_fst depth)

/-- A grammar is made anew from its parts. -/
theorem ofRules_parts (grammar : Grammar) :
    ofRules grammar.start grammar.rules.entries grammar.flagged.members =
      ofGrammar grammar := by
  simp [ofRules]

/-- What a system answers does not depend on its history: after any operations,
the grammar is the one that the changes among them make of the first, every
derivation and every word is the first answer of a new system with that grammar,
and this answer is derived from the start word. -/
theorem answers_run_eq_fresh (start : Word) (rules : List (Char × Word))
    (flags : List Char) (operations : List Operation) (depth : Nat) :
    let system := (ofRules start rules flags).run operations
    let grammar := operations.foldl Operation.change ⟨start, .ofList rules, .ofList flags⟩
    let fresh := ofRules grammar.start grammar.rules.entries grammar.flagged.members
    system.grammar = grammar ∧
      (system.produce depth).1 = (fresh.produce depth).1 ∧
      (system.produceWord depth).1 = (fresh.produceWord depth).1 ∧
      (fresh.produce depth).1 = grammar.derive depth ∧
      (fresh.produceWord depth).1 = grammar.wordAt depth := by
  intro system grammar fresh
  have hgrammar : system.grammar = grammar := grammar_run _ operations
  have hsystem : system.Faithful := faithful_run (faithful_ofGrammar _) operations
  have hnew : fresh = ofGrammar grammar := ofRules_parts grammar
  have hfresh : fresh.Faithful := hnew ▸ faithful_ofGrammar grammar
  have hsame : fresh.grammar = grammar := by rw [hnew]; rfl
  refine ⟨hgrammar, ?_, ?_, ?_, ?_⟩
  · rw [hsystem.produce_fst, hfresh.produce_fst, hgrammar, hsame]
  · rw [hsystem.produceWord_fst, hfresh.produceWord_fst, hgrammar, hsame]
  · rw [hfresh.produce_fst, hsame]
  · rw [hfresh.produceWord_fst, hsame]

end LSystem

end LineGrammar
