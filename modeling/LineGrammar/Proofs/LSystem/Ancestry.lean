/-
Ancestry in a derivation.  Every symbol of an expanded word lies in the successor of a symbol
of the word before, its parent; a symbol without a rule is the parent of its own copy.  The
count that stands beside a symbol is the number of flagged symbols in its line of ancestors,
as far as counts grow, and the peak is the largest count of all depths so far.
-/
import LineGrammar.Proofs.LSystem.History
import Mathlib.Data.List.Infix

namespace LineGrammar

namespace Grammar

/-- The symbol at `i` of a word is the parent of the one at `j` of the expanded word: what
the symbols before it turn into ends at `j` or earlier, and its own successor ends later. -/
structure Begets (grammar : Grammar) (word : Word) (i j : Nat) : Prop where
  starts : (grammar.expand (word.take i)).length ≤ j
  ends : j < (grammar.expand (word.take (i + 1))).length

/-- A line of ancestors: `line d` is the place of the ancestor in the word of depth `d`, and
the last one is the symbol whose ancestors they are. -/
structure Lineage (grammar : Grammar) (words : Nat → Word) (depth i : Nat)
    (line : Nat → Nat) : Prop where
  last : line depth = i
  begets : ∀ d < depth, grammar.Begets (words d) (line d) (line (d + 1))

def flaggedAbove (grammar : Grammar) (words : Nat → Word) (line : Nat → Nat)
    (depth : Nat) : Nat :=
  (List.range depth).countP fun d => (words d)[line d]?.any (· ∈ grammar.flagged)

section Parents

variable {grammar : Grammar} {symbol : Char} {word : Word} {counts : List Nat} {i j : Nat}

theorem begets_zero_iff :
    grammar.Begets (symbol :: word) 0 j ↔ j < (grammar.successor symbol).length := by
  constructor
  · intro h
    simpa [expand] using h.ends
  · intro h
    exact ⟨Nat.zero_le j, by simpa [expand] using h⟩

theorem begets_succ_iff :
    grammar.Begets (symbol :: word) (i + 1) j ↔
      (grammar.successor symbol).length ≤ j ∧
        grammar.Begets word i (j - (grammar.successor symbol).length) := by
  have hlength : ∀ rest : Word, (grammar.expand (symbol :: rest)).length =
      (grammar.successor symbol).length + (grammar.expand rest).length := by
    intro rest
    simp [expand]
  constructor
  · rintro ⟨hstarts, hends⟩
    rw [List.take_succ_cons, hlength] at hstarts hends
    exact ⟨by omega, by omega, by omega⟩
  · rintro ⟨hle, hstarts, hends⟩
    refine ⟨?_, ?_⟩ <;> rw [List.take_succ_cons, hlength] <;> omega

theorem Begets.lt_length (h : grammar.Begets word i j) : i < word.length := by
  obtain ⟨hstarts, hends⟩ := h
  apply Nat.lt_of_not_le
  intro hle
  rw [List.take_of_length_le hle] at hstarts
  rw [List.take_of_length_le (Nat.le_succ_of_le hle)] at hends
  exact Nat.not_lt_of_le hstarts hends

/-- Nothing has two parents. -/
theorem Begets.eq {i' : Nat} (h : grammar.Begets word i j) (h' : grammar.Begets word i' j) :
    i = i' := by
  -- The successors of earlier symbols end where or before those of a later one start.
  have hle : ∀ {a b : Nat}, grammar.Begets word a j → grammar.Begets word b j → b ≤ a := by
    intro a b ha hb
    apply Nat.le_of_not_lt
    intro hlt
    have hprefix : grammar.expand (word.take (a + 1)) <+: grammar.expand (word.take b) :=
      List.IsPrefix.flatMap (List.take_prefix_take_left hlt) _
    exact Nat.not_lt_of_le (Nat.le_trans hprefix.length_le hb.starts) ha.ends
  exact Nat.le_antisymm (hle h' h) (hle h h')

/-- Every symbol of an expanded word has a parent. -/
theorem exists_begets (h : j < (grammar.expand word).length) :
    ∃ i, grammar.Begets word i j := by
  induction word generalizing j with
  | nil => simp at h
  | cons symbol word ih =>
      by_cases hfirst : j < (grammar.successor symbol).length
      · exact ⟨0, begets_zero_iff.mpr hfirst⟩
      · have hrest : j - (grammar.successor symbol).length < (grammar.expand word).length := by
          simp only [expand, List.flatMap_cons, List.length_append] at h ⊢
          omega
        obtain ⟨i, hparent⟩ := ih hrest
        exact ⟨i + 1, begets_succ_iff.mpr ⟨Nat.le_of_not_lt hfirst, hparent⟩⟩

/-- A symbol has the count that its parent hands on. -/
theorem getElem?_expandCounts (hlength : word.length = counts.length)
    (h : grammar.Begets word i j) :
    ∃ symbol count, word[i]? = some symbol ∧ counts[i]? = some count ∧
      (grammar.expandCounts word counts)[j]? = some (grammar.inherit symbol count) := by
  induction word generalizing counts i j with
  | nil => simpa using h.ends
  | cons symbol word ih =>
      cases counts with
      | nil => simp at hlength
      | cons count counts =>
          have hcounts : grammar.expandCounts (symbol :: word) (count :: counts) =
              List.replicate (grammar.successor symbol).length (grammar.inherit symbol count)
                ++ grammar.expandCounts word counts := rfl
          rw [hcounts]
          cases i with
          | zero =>
              have hfirst := begets_zero_iff.mp h
              refine ⟨symbol, count, rfl, rfl, ?_⟩
              rw [List.getElem?_append_left (by rwa [List.length_replicate]),
                List.getElem?_replicate_of_lt hfirst]
          | succ i =>
              obtain ⟨hle, hparent⟩ := begets_succ_iff.mp h
              rw [List.getElem?_append_right (by rwa [List.length_replicate]),
                List.length_replicate]
              exact ih (Nat.succ.inj hlength) hparent

end Parents

section Lines

variable {grammar : Grammar} {words : Nat → Word} {depth i : Nat} {line : Nat → Nat}

/-- The line of a parent is that of its child, one depth less. -/
theorem Lineage.parent (h : grammar.Lineage words (depth + 1) i line) :
    grammar.Lineage words depth (line depth) line ∧
      grammar.Begets (words depth) (line depth) i :=
  ⟨⟨rfl, fun d hd => h.begets d (Nat.lt_succ_of_lt hd)⟩,
    h.last ▸ h.begets depth (Nat.lt_succ_self depth)⟩

/-- A child prolongs the line of its parent. -/
theorem Lineage.prolong {j : Nat} (h : grammar.Lineage words depth j line)
    (hbegets : grammar.Begets (words depth) j i) :
    grammar.Lineage words (depth + 1) i fun d => if d ≤ depth then line d else i := by
  refine ⟨if_neg (Nat.not_succ_le_self depth), fun d hd => ?_⟩
  rcases Nat.lt_or_eq_of_le (Nat.le_of_lt_succ hd) with hlt | rfl
  · simpa [Nat.le_of_lt hlt, Nat.succ_le_of_lt hlt] using h.begets d hlt
  · simpa only [Nat.le_refl, if_true, if_neg (Nat.not_succ_le_self d), h.last] using hbegets

/-- Every symbol that has been derived has a line of ancestors up to the start word. -/
theorem exists_lineage (grammar : Grammar) (h : i < (grammar.wordAt depth).length) :
    ∃ line, grammar.Lineage grammar.wordAt depth i line := by
  induction depth generalizing i with
  | zero => exact ⟨fun _ => i, rfl, fun d hd => absurd hd (Nat.not_lt_zero d)⟩
  | succ depth ih =>
      obtain ⟨parent, hbegets⟩ := exists_begets h
      obtain ⟨line, hline⟩ := ih hbegets.lt_length
      exact ⟨_, hline.prolong hbegets⟩

theorem flaggedAbove_succ (grammar : Grammar) (words : Nat → Word) (line : Nat → Nat)
    (depth : Nat) :
    grammar.flaggedAbove words line (depth + 1) = grammar.flaggedAbove words line depth +
      if (words depth)[line depth]?.any (· ∈ grammar.flagged) then 1 else 0 := by
  rw [flaggedAbove, List.range_succ, List.countP_append, List.countP_singleton]
  rfl

theorem flaggedAbove_le (grammar : Grammar) (words : Nat → Word) (line : Nat → Nat)
    (depth : Nat) : grammar.flaggedAbove words line depth ≤ depth := by
  exact Nat.le_trans List.countP_le_length (Nat.le_of_eq List.length_range)

/-- Handing on a count adds one for a flagged symbol, up to the limit. -/
theorem inherit_min (grammar : Grammar) (symbol : Char) (count : Nat) :
    grammar.inherit symbol (min countLimit count) =
      min countLimit (count + if symbol ∈ grammar.flagged then 1 else 0) := by
  unfold inherit
  split <;> omega

/-- The count of a symbol is the number of its flagged ancestors, up to the limit. -/
theorem counts_of_lineage (grammar : Grammar) (hi : i < (grammar.wordAt depth).length)
    (h : grammar.Lineage grammar.wordAt depth i line) :
    (grammar.levelAt depth).counts[i]? =
      some (min countLimit (grammar.flaggedAbove grammar.wordAt line depth)) := by
  induction depth generalizing i with
  | zero => exact List.getElem?_replicate_of_lt hi
  | succ depth ih =>
      obtain ⟨hline, hbegets⟩ := h.parent
      have hlength := (grammar.length_counts_levelAt depth).symm
      obtain ⟨symbol, count, hsymbol, hcount, hchild⟩ := getElem?_expandCounts hlength hbegets
      have hparent : line depth < (grammar.wordAt depth).length :=
        (List.getElem?_eq_some_iff.mp hsymbol).1
      rw [ih hparent hline, Option.some_inj] at hcount
      change (grammar.expandCounts (grammar.wordAt depth) (grammar.levelAt depth).counts)[i]? = _
      rw [hchild, ← hcount, inherit_min, flaggedAbove_succ, hsymbol, Option.any_some]
      simp only [decide_eq_true_eq]

end Lines

section Peaks

/-- The largest of some counts and a first one lies below what bounds them all. -/
theorem foldl_max_le_iff (counts : List Nat) (first bound : Nat) :
    counts.foldl max first ≤ bound ↔ first ≤ bound ∧ ∀ count ∈ counts, count ≤ bound := by
  induction counts generalizing first with
  | nil => simp
  | cons count counts ih =>
      rw [List.foldl_cons, ih, List.forall_mem_cons, Nat.max_le, and_assoc]

theorem foldl_max_mem (counts : List Nat) (first : Nat) :
    counts.foldl max first = first ∨ counts.foldl max first ∈ counts := by
  induction counts generalizing first with
  | nil => exact .inl rfl
  | cons count counts ih =>
      rw [List.foldl_cons]
      rcases ih (max first count) with heq | hmem
      · rw [heq]
        rcases Nat.le_total count first with hle | hle
        · exact .inl (Nat.max_eq_left hle)
        · rw [Nat.max_eq_right hle]
          exact .inr List.mem_cons_self
      · exact .inr (List.mem_cons_of_mem count hmem)

variable (grammar : Grammar)

theorem peak_succ (depth : Nat) : (grammar.levelAt (depth + 1)).peak =
    (grammar.levelAt (depth + 1)).counts.foldl max (grammar.levelAt depth).peak :=
  rfl

/-- The peak bounds the counts of its depth and of all depths before. -/
theorem le_peak {d depth count : Nat} (hd : d ≤ depth)
    (hcount : count ∈ (grammar.levelAt d).counts) : count ≤ (grammar.levelAt depth).peak := by
  induction depth with
  | zero =>
      obtain rfl := Nat.le_zero.mp hd
      exact Nat.le_of_eq (List.eq_of_mem_replicate hcount)
  | succ depth ih =>
      have hpeak := (foldl_max_le_iff _ _ _).mp (Nat.le_of_eq (grammar.peak_succ depth).symm)
      rcases Nat.lt_or_eq_of_le hd with hlt | rfl
      · exact Nat.le_trans (ih (Nat.le_of_lt_succ hlt)) hpeak.1
      · exact hpeak.2 count hcount

theorem peak_mono {d depth : Nat} (hd : d ≤ depth) :
    (grammar.levelAt d).peak ≤ (grammar.levelAt depth).peak := by
  induction hd with
  | refl => exact Nat.le_refl _
  | @step depth hd ih =>
      have hpeak := (foldl_max_le_iff _ _ _).mp (Nat.le_of_eq (grammar.peak_succ depth).symm)
      exact Nat.le_trans ih hpeak.1

/-- A peak that is not zero is one of the counts so far. -/
theorem peak_mem (depth : Nat) : (grammar.levelAt depth).peak = 0 ∨
    ∃ d ≤ depth, (grammar.levelAt depth).peak ∈ (grammar.levelAt d).counts := by
  induction depth with
  | zero => exact .inl rfl
  | succ depth ih =>
      rw [peak_succ]
      rcases foldl_max_mem (grammar.levelAt (depth + 1)).counts (grammar.levelAt depth).peak with
        heq | hmem
      · rw [heq]
        exact ih.imp_right fun ⟨d, hd, hmem⟩ => ⟨d, Nat.le_succ_of_le hd, hmem⟩
      · exact .inr ⟨depth + 1, Nat.le_refl _, hmem⟩

theorem count_le {depth count : Nat} (h : count ∈ (grammar.levelAt depth).counts) :
    count ≤ min depth countLimit := by
  obtain ⟨i, hi, hcount⟩ := List.mem_iff_getElem.mp h
  have hword : i < (grammar.wordAt depth).length := by rwa [← length_counts_levelAt]
  obtain ⟨line, hline⟩ := grammar.exists_lineage hword
  have hvalue := grammar.counts_of_lineage hword hline
  rw [List.getElem?_eq_getElem hi, hcount, Option.some_inj] at hvalue
  have hle := grammar.flaggedAbove_le grammar.wordAt line depth
  omega

theorem peak_le (depth : Nat) : (grammar.levelAt depth).peak ≤ min depth countLimit := by
  rcases grammar.peak_mem depth with hzero | ⟨d, hd, hmem⟩
  · omega
  · have hle := grammar.count_le hmem
    omega

end Peaks

end Grammar

namespace LSystem

/-- Beside each symbol stands the number of flagged symbols among its ancestors, up to the
limit, and the peak is the largest count of all depths down to the one asked for. -/
theorem counts_eq_flaggedAbove {system : LSystem} (h : system.Reachable) (depth : Nat) :
    let grammar := system.grammar
    let words := fun d => (system.produce d).1.word
    let counts := fun d => (system.produce d).1.counts
    let peak := fun d => (system.produce d).1.peak
    (counts depth).length = (words depth).length ∧
      (∀ i < (words depth).length,
        (∃ line, grammar.Lineage words depth i line) ∧
        ∀ line, grammar.Lineage words depth i line →
          (counts depth)[i]? = some (min 255 (grammar.flaggedAbove words line depth))) ∧
      (∀ d ≤ depth, ∀ count ∈ counts d, count ≤ peak depth) ∧
      (peak depth = 0 ∨ ∃ d ≤ depth, peak depth ∈ counts d) ∧
      (∀ d ≤ depth, peak d ≤ peak depth) ∧
      peak depth ≤ min depth 255 := by
  intro grammar words counts peak
  have hwords : words = grammar.wordAt := by
    funext d
    exact congrArg Derivation.word (h.faithful.produce_fst d)
  have hcounts : counts = fun d => (grammar.levelAt d).counts := by
    funext d
    exact congrArg Derivation.counts (h.faithful.produce_fst d)
  have hpeak : peak = fun d => (grammar.levelAt d).peak := by
    funext d
    exact congrArg Derivation.peak (h.faithful.produce_fst d)
  rw [hwords, hcounts, hpeak]
  exact ⟨grammar.length_counts_levelAt depth,
    fun i hi => ⟨grammar.exists_lineage hi, fun line => grammar.counts_of_lineage hi⟩,
    fun d hd count => grammar.le_peak hd, grammar.peak_mem depth, fun d => grammar.peak_mono,
    grammar.peak_le depth⟩

/-- A system in which one symbol vanishes and another one is flagged and grows. -/
def vine : LSystem :=
  (ofRules ['A', 'F'] [('A', []), ('F', ['F', '-', 'A'])] ['F']).run [.produceWord 1]

/-- The last symbol of the second word is the copy of a copy: of its two ancestors only the
first one is flagged. -/
theorem counts_eq_flaggedAbove_vine :
    let words := fun d => (vine.produce d).1.word
    let line := fun d => [1, 1, 3][d]?.getD 0
    vine.Reachable ∧ words 2 = ['F', '-', 'A', '-'] ∧ vine.grammar.Lineage words 2 3 line ∧
      (vine.produce 2).1.counts[3]? = some (min 255 1) ∧ (vine.produce 2).1.peak ≤ 2 := by
  intro words line
  have hvine : vine.Reachable := ⟨_, _, _, _, rfl⟩
  have hword : words 2 = ['F', '-', 'A', '-'] := by decide +kernel
  have hfirst : vine.grammar.Begets (words 0) 1 1 := ⟨by decide +kernel, by decide +kernel⟩
  have hsecond : vine.grammar.Begets (words 1) 1 3 := ⟨by decide +kernel, by decide +kernel⟩
  have hline : vine.grammar.Lineage words 2 3 line := by
    refine ⟨rfl, fun d hd => ?_⟩
    rcases Nat.le_one_iff_eq_zero_or_eq_one.mp (Nat.le_of_lt_succ hd) with rfl | rfl
    · exact hfirst
    · exact hsecond
  have hflagged : vine.grammar.flaggedAbove words line 2 = 1 := by decide +kernel
  obtain ⟨-, hcounts, -, -, -, hpeak⟩ := counts_eq_flaggedAbove hvine 2
  have hcount := (hcounts 3 (by decide +kernel)).2 line hline
  rw [hflagged] at hcount
  exact ⟨hvine, hword, hline, hcount, Nat.le_trans hpeak (by decide)⟩

end LSystem

end LineGrammar
