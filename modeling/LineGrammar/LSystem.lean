/-
A grammar that remembers what it has derived.  Words and counts are kept in two
tables indexed by depth, which grow on demand and are forgotten when the grammar
changes.  Counts may lag behind words and then catch up.
-/
import LineGrammar.Grammar
import LineGrammar.RuleStore

namespace LineGrammar

/-- The parts of a grammar with the words and levels derived so far.  Entry zero of
both tables belongs to the start word.  Subscribers to the rules are told of every
change, also of the start word and of the flags. -/
structure LSystem where
  start : Word
  rules : RuleStore Word
  flagged : SymbolSet
  words : Array Word
  levels : Array Level

namespace Grammar

def extendWords (grammar : Grammar) : Nat → Array Word → Array Word
  | 0, words => words
  | more + 1, words =>
      grammar.extendWords more (words.push (grammar.expand (words.back?.getD [])))

/-- Add the levels of the next depths, whose words are known. -/
def extendLevels (grammar : Grammar) (words : Array Word) : Nat → Array Level → Array Level
  | 0, levels => levels
  | more + 1, levels =>
      let word := words[levels.size - 1]?.getD []
      let level := levels.back?.getD grammar.firstLevel
      grammar.extendLevels words more (levels.push (grammar.nextLevel word level))

end Grammar

namespace LSystem

def grammar (system : LSystem) : Grammar :=
  ⟨system.start, system.rules.table, system.flagged⟩

def listeners (system : LSystem) : Listeners :=
  system.rules.listeners

/-- Forget all derivations. -/
def forget (system : LSystem) : LSystem :=
  { system with
    words := #[system.grammar.start]
    levels := #[system.grammar.firstLevel] }

/-- A grammar about which nothing has been derived yet. -/
def ofGrammar (grammar : Grammar) : LSystem :=
  forget ⟨grammar.start, .ofTable grammar.rules, grammar.flagged, #[], #[]⟩

/-- The grammar of a start word, rules of which later ones win, and flags. -/
def ofRules (start : Word) (rules : List (Char × Word)) (flags : List Char) : LSystem :=
  ofGrammar ⟨start, .ofList rules, .ofList flags⟩

/-- Call the subscribers, whatever has changed. -/
def notify (system : LSystem) : LSystem :=
  { system with rules := system.rules.notify }

def setStart (system : LSystem) (start : Word) : LSystem :=
  { system with start }.forget.notify

def addRule (system : LSystem) (symbol : Char) (successor : Word) : LSystem :=
  { system.forget with rules := (system.rules.add symbol successor).2 }

/-- Take away the rule of a symbol, whose successor is the result.  Where there
is none, nothing changes and nobody is told. -/
def removeRule (system : LSystem) (symbol : Char) : Except Fault (Word × LSystem) := do
  let (successor, rules) ← system.rules.remove symbol
  return (successor, { system with rules }.forget)

def clearRules (system : LSystem) : LSystem :=
  { system.forget with rules := system.rules.clear }

def setFlags (system : LSystem) (flags : List Char) : LSystem :=
  { system with flagged := .ofList flags }.forget.notify

def subscribe (system : LSystem) : LSystem :=
  { system with rules := system.rules.subscribe }

/-- Go on with a copy, which keeps the derivations but has no subscribers. -/
def copy (system : LSystem) : LSystem :=
  { system with rules := system.rules.copy }

/-- The depths down to which words and counts are known. -/
def knownDepths (system : LSystem) : Nat × Nat :=
  (system.words.size - 1, system.levels.size - 1)

/-- Derive the words that are missing down to a depth. -/
def growWords (system : LSystem) (depth : Nat) : LSystem :=
  { system with
    words := system.grammar.extendWords (depth + 1 - system.words.size) system.words }

/-- Derive the counts that are missing down to a depth. -/
def growLevels (system : LSystem) (depth : Nat) : LSystem :=
  { system with
    levels := system.grammar.extendLevels system.words
      (depth + 1 - system.levels.size) system.levels }

/-- The word at a depth with its counts.  An empty start word has nothing to
derive, and nothing is remembered for it. -/
def produce (system : LSystem) (depth : Nat) : Derivation × LSystem :=
  if system.grammar.start.isEmpty then (⟨[], [], 0⟩, system)
  else
    let system := (system.growWords depth).growLevels depth
    let level := system.levels[depth]?.getD ⟨[], 0⟩
    (⟨system.words[depth]?.getD [], level.counts, level.peak⟩, system)

/-- The word at a depth, without its counts. -/
def produceWord (system : LSystem) (depth : Nat) : Word × LSystem :=
  if system.grammar.start.isEmpty then ([], system)
  else
    let system := system.growWords depth
    (system.words[depth]?.getD [], system)

/-- A derivation adds to the two tables and changes nothing else. -/
theorem produce_snd_eq (system : LSystem) (depth : Nat) :
    ∃ words levels, (system.produce depth).2 = { system with words, levels } := by
  unfold produce
  split
  · exact ⟨system.words, system.levels, rfl⟩
  · exact ⟨_, _, rfl⟩

theorem produceWord_snd_eq (system : LSystem) (depth : Nat) :
    ∃ words, (system.produceWord depth).2 = { system with words } := by
  unfold produceWord
  split
  · exact ⟨system.words, rfl⟩
  · exact ⟨_, rfl⟩

@[simp] theorem rules_produce (system : LSystem) (depth : Nat) :
    (system.produce depth).2.rules = system.rules := by
  obtain ⟨words, levels, h⟩ := system.produce_snd_eq depth
  rw [h]

@[simp] theorem rules_produceWord (system : LSystem) (depth : Nat) :
    (system.produceWord depth).2.rules = system.rules := by
  obtain ⟨words, h⟩ := system.produceWord_snd_eq depth
  rw [h]

@[simp] theorem grammar_produce (system : LSystem) (depth : Nat) :
    (system.produce depth).2.grammar = system.grammar := by
  obtain ⟨words, levels, h⟩ := system.produce_snd_eq depth
  rw [h]
  rfl

@[simp] theorem grammar_produceWord (system : LSystem) (depth : Nat) :
    (system.produceWord depth).2.grammar = system.grammar := by
  obtain ⟨words, h⟩ := system.produceWord_snd_eq depth
  rw [h]
  rfl

theorem removeRule_eq_error_iff (system : LSystem) (symbol : Char) (fault : Fault) :
    system.removeRule symbol = .error fault ↔
      system.grammar.rules.get? symbol = none ∧ fault = .missingRule symbol := by
  have hstore := system.rules.remove_eq_error_iff symbol fault
  rw [removeRule, grammar, ← hstore]
  cases system.rules.remove symbol <;> simp [Functor.map, Except.map]

theorem removeRule_eq_ok_iff (system : LSystem) (symbol : Char) (successor : Word)
    (changed : LSystem) :
    system.removeRule symbol = .ok (successor, changed) ↔
      ∃ rules, system.rules.remove symbol = .ok (successor, rules) ∧
        changed = { system with rules }.forget := by
  rw [removeRule]
  cases system.rules.remove symbol with
  | error fault => simp [Functor.map, Except.map]
  | ok removed =>
      obtain ⟨successor', rules⟩ := removed
      simp [Functor.map, Except.map, eq_comm, and_assoc]

end LSystem

example : ((LSystem.ofRules ['F'] [('F', ['F', '+', 'G']), ('G', ['G', '-', 'F'])] ['F']).produce
    2).1 = ⟨['F', '+', 'G', '+', 'G', '-', 'F'], [2, 2, 2, 1, 1, 1, 1], 2⟩ := by
  decide +kernel

end LineGrammar
