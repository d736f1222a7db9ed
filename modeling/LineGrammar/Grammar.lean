/-
Derivation of words.  A grammar has a start word, one successor word for
each symbol with a rule, and a set of flagged symbols.  Beside every derived word
stands a list of counts: how many flagged symbols each of its symbols has among
its ancestors, up to a limit.
-/
import LineGrammar.RuleTable
import LineGrammar.SymbolSet

namespace LineGrammar

abbrev Word := List Char

/-- A grammar whose rules are applied to all symbols of a word at once. -/
structure Grammar where
  start : Word
  rules : RuleTable Word
  flagged : SymbolSet
deriving DecidableEq

/-- The counts of one derived word, with the largest count seen at its depth or
before. -/
structure Level where
  counts : List Nat
  peak : Nat
deriving DecidableEq, Repr

/-- A derived word with the count of each of its symbols and the largest count
seen on the way to it. -/
structure Derivation where
  word : Word
  counts : List Nat
  peak : Nat
deriving DecidableEq, Repr

namespace Grammar

/-- Counts stop growing here. -/
def countLimit : Nat := 255

/-- What a symbol turns into; one without a rule stays as it is. -/
def successor (grammar : Grammar) (symbol : Char) : Word :=
  (grammar.rules.get? symbol).getD [symbol]

/-- All symbols of a word replaced by their successors. -/
def expand (grammar : Grammar) (word : Word) : Word :=
  word.flatMap grammar.successor

/-- The count that a symbol hands on to its successor. -/
def inherit (grammar : Grammar) (symbol : Char) (count : Nat) : Nat :=
  if symbol ∈ grammar.flagged then min countLimit (count + 1) else count

/-- The counts of an expanded word, from the word and its own counts. -/
def expandCounts (grammar : Grammar) (word : Word) (counts : List Nat) : List Nat :=
  (word.zip counts).flatMap fun (symbol, count) =>
    List.replicate (grammar.successor symbol).length (grammar.inherit symbol count)

/-- The level after the one that belongs to a word. -/
def nextLevel (grammar : Grammar) (word : Word) (level : Level) : Level :=
  let counts := grammar.expandCounts word level.counts
  ⟨counts, counts.foldl max level.peak⟩

/-- The start word has no ancestors. -/
def firstLevel (grammar : Grammar) : Level :=
  ⟨List.replicate grammar.start.length 0, 0⟩

/-- The word at a depth. -/
def wordAt (grammar : Grammar) : Nat → Word
  | 0 => grammar.start
  | depth + 1 => grammar.expand (grammar.wordAt depth)

/-- The counts at a depth. -/
def levelAt (grammar : Grammar) : Nat → Level
  | 0 => grammar.firstLevel
  | depth + 1 => grammar.nextLevel (grammar.wordAt depth) (grammar.levelAt depth)

/-- The derivation at a depth, made from the start word every time. -/
def derive (grammar : Grammar) (depth : Nat) : Derivation :=
  let level := grammar.levelAt depth
  ⟨grammar.wordAt depth, level.counts, level.peak⟩

@[simp] theorem expand_nil (grammar : Grammar) : grammar.expand [] = [] :=
  rfl

@[simp] theorem expand_append (grammar : Grammar) (left right : Word) :
    grammar.expand (left ++ right) = grammar.expand left ++ grammar.expand right := by
  simp [expand]

/-- Counts stay in step with the word they belong to. -/
theorem length_expandCounts (grammar : Grammar) (word : Word) (counts : List Nat)
    (h : word.length = counts.length) :
    (grammar.expandCounts word counts).length = (grammar.expand word).length := by
  induction word generalizing counts with
  | nil => simp [expandCounts]
  | cons symbol word ih =>
      cases counts with
      | nil => simp at h
      | cons count counts =>
          have hstep := ih counts (by simpa using h)
          simp only [expandCounts, expand] at hstep
          simp [expandCounts, expand, hstep]

theorem length_counts_levelAt (grammar : Grammar) (depth : Nat) :
    (grammar.levelAt depth).counts.length = (grammar.wordAt depth).length := by
  induction depth with
  | zero => simp [levelAt, wordAt, firstLevel]
  | succ depth ih => exact length_expandCounts grammar _ _ ih.symm

end Grammar

end LineGrammar
