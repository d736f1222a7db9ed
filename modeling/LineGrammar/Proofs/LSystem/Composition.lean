/-
Laws of derivation.  Start words can be derived apart and put together afterwards, and a
derivation can be broken off at any depth and taken up again from the word reached there.
The counts of the second part are then added to those that the symbols of that word had.
-/
import LineGrammar.Proofs.LSystem.Ancestry

namespace LineGrammar

namespace Grammar

def startingAt (grammar : Grammar) (start : Word) : Grammar :=
  { grammar with start }

section Parts

variable (grammar : Grammar)

theorem expand_startingAt (start word : Word) :
    (grammar.startingAt start).expand word = grammar.expand word :=
  rfl

theorem expandCounts_startingAt (start word : Word) (counts : List Nat) :
    (grammar.startingAt start).expandCounts word counts = grammar.expandCounts word counts :=
  rfl

theorem expandCounts_append {word : Word} {counts : List Nat} (h : word.length = counts.length)
    (word' : Word) (counts' : List Nat) :
    grammar.expandCounts (word ++ word') (counts ++ counts') =
      grammar.expandCounts word counts ++ grammar.expandCounts word' counts' := by
  rw [expandCounts, List.zip_append h, List.flatMap_append]
  rfl

/-- Parts of a start word are derived apart. -/
theorem wordAt_startingAt_append (left right : Word) (depth : Nat) :
    (grammar.startingAt (left ++ right)).wordAt depth =
      (grammar.startingAt left).wordAt depth ++ (grammar.startingAt right).wordAt depth := by
  induction depth with
  | zero => rfl
  | succ depth ih =>
      simp only [wordAt, ih, expand_startingAt, expand_append]

theorem counts_startingAt_append (left right : Word) (depth : Nat) :
    ((grammar.startingAt (left ++ right)).levelAt depth).counts =
      ((grammar.startingAt left).levelAt depth).counts ++
        ((grammar.startingAt right).levelAt depth).counts := by
  induction depth with
  | zero =>
      change List.replicate (left ++ right).length 0 =
        List.replicate left.length 0 ++ List.replicate right.length 0
      rw [List.length_append, List.replicate_append_replicate]
  | succ depth ih =>
      have hlength := ((grammar.startingAt left).length_counts_levelAt depth).symm
      simp only [levelAt, nextLevel, ih, wordAt_startingAt_append, expandCounts_startingAt,
        expandCounts_append grammar hlength]

/-- Largest counts of two parts that begin with different ones. -/
theorem foldl_max_append (counts counts' : List Nat) (first first' : Nat) :
    (counts ++ counts').foldl max (max first first') =
      max (counts.foldl max first) (counts'.foldl max first') := by
  rw [List.foldl_append, Nat.max_comm first first', List.foldl_assoc,
    Nat.max_comm first', List.foldl_assoc]

theorem peak_startingAt_append (left right : Word) (depth : Nat) :
    ((grammar.startingAt (left ++ right)).levelAt depth).peak =
      max ((grammar.startingAt left).levelAt depth).peak
        ((grammar.startingAt right).levelAt depth).peak := by
  induction depth with
  | zero => rfl
  | succ depth ih =>
      rw [peak_succ, peak_succ, peak_succ, ih, counts_startingAt_append, foldl_max_append]

end Parts

section Depths

variable {grammar : Grammar} {first more i : Nat} {line : Nat → Nat}

/-- A derivation goes on from the word of any depth. -/
theorem wordAt_add (grammar : Grammar) (first more : Nat) :
    grammar.wordAt (first + more) =
      (grammar.startingAt (grammar.wordAt first)).wordAt more := by
  induction more with
  | zero => rfl
  | succ more ih =>
      rw [← Nat.add_assoc, wordAt, ih]
      rfl

/-- An ancestor is a symbol of the word of its depth. -/
theorem Lineage.lt_length {words : Nat → Word}
    (h : grammar.Lineage words (first + more) i line) (hi : i < (words (first + more)).length) :
    line first < (words first).length := by
  cases more with
  | zero => exact h.last ▸ hi
  | succ more => exact (h.begets first (Nat.lt_add_of_pos_right (Nat.succ_pos more))).lt_length

/-- The beginning of a line is that of the ancestor where it is cut. -/
theorem Lineage.before {words : Nat → Word} (h : grammar.Lineage words (first + more) i line) :
    grammar.Lineage words first (line first) line :=
  ⟨rfl, fun d hd => h.begets d (Nat.lt_add_right more hd)⟩

/-- The rest of a line is one of the derivation that goes on where it is cut. -/
theorem Lineage.after (h : grammar.Lineage grammar.wordAt (first + more) i line) :
    (grammar.startingAt (grammar.wordAt first)).Lineage
      (grammar.startingAt (grammar.wordAt first)).wordAt more i fun d => line (first + d) := by
  refine ⟨h.last, fun d hd => ?_⟩
  have hparent := h.begets (first + d) (Nat.add_lt_add_left hd first)
  rw [wordAt_add] at hparent
  exact ⟨hparent.starts, hparent.ends⟩

theorem flaggedAbove_add (grammar : Grammar) (line : Nat → Nat) (first more : Nat) :
    grammar.flaggedAbove grammar.wordAt line (first + more) =
      grammar.flaggedAbove grammar.wordAt line first +
        (grammar.startingAt (grammar.wordAt first)).flaggedAbove
          (grammar.startingAt (grammar.wordAt first)).wordAt (fun d => line (first + d))
          more := by
  induction more with
  | zero => rfl
  | succ more ih =>
      rw [← Nat.add_assoc, flaggedAbove_succ, flaggedAbove_succ, ih, wordAt_add, Nat.add_assoc]
      rfl

/-- A count is that of the ancestor where the derivation is cut and the one from there on,
together and up to the limit. -/
theorem counts_add (grammar : Grammar) (hi : i < (grammar.wordAt (first + more)).length)
    (h : grammar.Lineage grammar.wordAt (first + more) i line) :
    ∃ before after, (grammar.levelAt first).counts[line first]? = some before ∧
      ((grammar.startingAt (grammar.wordAt first)).levelAt more).counts[i]? = some after ∧
      (grammar.levelAt (first + more)).counts[i]? =
        some (min countLimit (before + after)) := by
  have hafter : i < ((grammar.startingAt (grammar.wordAt first)).wordAt more).length := by
    rwa [← wordAt_add]
  have hbefore := h.lt_length hi
  refine ⟨_, _, grammar.counts_of_lineage hbefore h.before,
    (grammar.startingAt (grammar.wordAt first)).counts_of_lineage hafter h.after, ?_⟩
  rw [grammar.counts_of_lineage hi h, flaggedAbove_add]
  congr 1
  omega

end Depths

end Grammar

namespace LSystem

/-- What a new system derives. -/
theorem produce_ofRules (start : Word) (rules : List (Char × Word)) (flags : List Char)
    (depth : Nat) : ((ofRules start rules flags).produce depth).1 =
      (Grammar.startingAt ⟨[], .ofList rules, .ofList flags⟩ start).derive depth :=
  (faithful_ofGrammar _).produce_fst depth

/-- For given rules and flags, words and counts of a start word in two parts are those of the
parts next to each other and the peak is the larger one; and a derivation of many steps is one
of fewer steps that begins where the others end, with the counts of a symbol and of the one
it descends from added, up to the limit. -/
theorem produce_append_and_add (rules : List (Char × Word)) (flags : List Char) :
    let derive := fun start depth => ((ofRules start rules flags).produce depth).1
    (∀ left right depth,
      (derive (left ++ right) depth).word =
        (derive left depth).word ++ (derive right depth).word ∧
      (derive (left ++ right) depth).counts =
        (derive left depth).counts ++ (derive right depth).counts ∧
      (derive (left ++ right) depth).peak =
        max (derive left depth).peak (derive right depth).peak) ∧
    (∀ start first more,
      (derive start (first + more)).word = (derive (derive start first).word more).word ∧
      ∀ i < (derive start (first + more)).word.length,
        (∃ line, (ofRules start rules flags).grammar.Lineage
          (fun d => (derive start d).word) (first + more) i line) ∧
        ∀ line, (ofRules start rules flags).grammar.Lineage
            (fun d => (derive start d).word) (first + more) i line →
          ∃ before after, (derive start first).counts[line first]? = some before ∧
            (derive (derive start first).word more).counts[i]? = some after ∧
            (derive start (first + more)).counts[i]? = some (min 255 (before + after))) := by
  intro derive
  obtain ⟨grammar, hgrammar⟩ : ∃ grammar : Grammar, grammar = ⟨[], .ofList rules, .ofList flags⟩ :=
    ⟨_, rfl⟩
  have hderive : derive = fun start => (grammar.startingAt start).derive := by
    funext start depth
    rw [hgrammar]
    exact produce_ofRules start rules flags depth
  have hstart : ∀ start, (ofRules start rules flags).grammar = grammar.startingAt start := by
    intro start
    rw [hgrammar]
    rfl
  simp only [hderive, hstart]
  refine ⟨fun left right depth => ⟨?_, ?_, ?_⟩, fun start first more => ⟨?_, fun i hi => ?_⟩⟩
  · exact grammar.wordAt_startingAt_append left right depth
  · exact grammar.counts_startingAt_append left right depth
  · exact grammar.peak_startingAt_append left right depth
  · exact (grammar.startingAt start).wordAt_add first more
  · exact ⟨(grammar.startingAt start).exists_lineage hi,
      fun line => (grammar.startingAt start).counts_add hi⟩

/-- A word of two symbols in parts, and a derivation of two steps cut after the first: the
second symbol is the child of a flagged one, which is the child of a flagged one. -/
theorem produce_append_and_add_cut :
    let rules : List (Char × Word) := [('F', ['F', '-']), ('-', ['F'])]
    let derive := fun start depth => ((ofRules start rules ['F']).produce depth).1
    let line := fun d => [0, 0, 1][d]?.getD 0
    (derive ['F', '-'] 2).counts = (derive ['F'] 2).counts ++ (derive ['-'] 2).counts ∧
      (ofRules ['F'] rules ['F']).grammar.Lineage (fun d => (derive ['F'] d).word) 2 1 line ∧
      ∃ before after, (derive ['F'] 1).counts[line 1]? = some before ∧
        (derive ['F', '-'] 1).counts[1]? = some after ∧
        (derive ['F'] 2).counts[1]? = some (min 255 (before + after)) := by
  intro rules derive line
  have hword : (derive ['F'] 1).word = ['F', '-'] := by decide +kernel
  have hline : (ofRules ['F'] rules ['F']).grammar.Lineage (fun d => (derive ['F'] d).word)
      2 1 line := by
    refine ⟨rfl, fun d hd => ?_⟩
    rcases Nat.le_one_iff_eq_zero_or_eq_one.mp (Nat.le_of_lt_succ hd) with rfl | rfl
    · exact ⟨by decide +kernel, by decide +kernel⟩
    · exact ⟨by decide +kernel, by decide +kernel⟩
  obtain ⟨hparts, hdepths⟩ := produce_append_and_add rules ['F']
  obtain ⟨-, hcounts, -⟩ := hparts ['F'] ['-'] 2
  obtain ⟨-, hlines⟩ := hdepths ['F'] 1 1
  have hadd := (hlines 1 (by decide +kernel)).2 line hline
  rw [hword] at hadd
  exact ⟨hcounts, hline, hadd⟩

end LSystem

end LineGrammar
