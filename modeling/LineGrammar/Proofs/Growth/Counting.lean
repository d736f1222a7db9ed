/-
Counting the symbols of derived words.  One derivation step acts linearly on the
counts of the symbols in a given list, as long as other symbols are left out, so the
counts at a depth are those of the start word times a power of the successors'
counts.  The prediction over the list is therefore exact whenever it is not flagged.  It
is flagged if a count of the word does not fit, and also if one of another word does that
some symbol of the list turns into on the way.
-/
import LineGrammar.Growth.Estimate
import LineGrammar.Proofs.Growth.Overflow

namespace LineGrammar

/-- The vertices that a symbol adds to a drawing if nothing goes wrong. -/
def Interpretation.yieldOf (table : Interpretation) (symbol : Char) : Nat :=
  match table.get? symbol with
  | some order => order.vertexYield
  | none => 0

namespace Grammar

/-- What is left of the word at a depth if all symbols outside a list are dropped,
with their descendants. -/
def wordWithin (grammar : Grammar) (symbols : List Char) : Nat → Word
  | 0 => grammar.start.filter (· ∈ symbols)
  | depth + 1 => (grammar.expand (grammar.wordWithin symbols depth)).filter (· ∈ symbols)

theorem mem_of_mem_wordWithin {grammar : Grammar} {symbols : List Char} {depth : Nat}
    {symbol : Char} (h : symbol ∈ grammar.wordWithin symbols depth) : symbol ∈ symbols := by
  cases depth <;> exact of_decide_eq_true (List.mem_filter.mp h).2

theorem count_expand (grammar : Grammar) (word : Word) (symbol : Char) :
    (grammar.expand word).count symbol =
      (word.map fun parent => (grammar.successor parent).count symbol).sum :=
  List.count_flatMap

/-- Every symbol that derivation can reach lies in the list. -/
def Covers (grammar : Grammar) (symbols : List Char) : Prop :=
  (∀ symbol ∈ grammar.start, symbol ∈ symbols) ∧
    ∀ parent ∈ symbols, ∀ symbol ∈ grammar.successor parent, symbol ∈ symbols

theorem Covers.mem_wordAt {grammar : Grammar} {symbols : List Char}
    (h : grammar.Covers symbols) (depth : Nat) :
    ∀ symbol ∈ grammar.wordAt depth, symbol ∈ symbols := by
  induction depth with
  | zero => exact h.1
  | succ depth ih =>
      intro symbol hsymbol
      obtain ⟨parent, hparent, hmem⟩ := List.mem_flatMap.mp hsymbol
      exact h.2 parent (ih parent hparent) symbol hmem

theorem Covers.mem_iterate_expand {grammar : Grammar} {symbols : List Char}
    (h : grammar.Covers symbols) {parent : Char} (hparent : parent ∈ symbols) (steps : Nat) :
    ∀ symbol ∈ grammar.expand^[steps] [parent], symbol ∈ symbols := by
  induction steps with
  | zero =>
      intro symbol hsymbol
      exact List.mem_singleton.mp hsymbol ▸ hparent
  | succ steps ih =>
      intro symbol hsymbol
      rw [Function.iterate_succ_apply'] at hsymbol
      obtain ⟨parent, hparent, hmem⟩ := List.mem_flatMap.mp hsymbol
      exact h.2 parent (ih parent hparent) symbol hmem

/-- Nothing is dropped where the list covers the grammar. -/
theorem Covers.wordWithin_eq {grammar : Grammar} {symbols : List Char}
    (h : grammar.Covers symbols) (depth : Nat) :
    grammar.wordWithin symbols depth = grammar.wordAt depth := by
  have hkeep : ∀ depth, (grammar.wordAt depth).filter (· ∈ symbols) =
      grammar.wordAt depth := fun depth =>
    List.filter_eq_self.mpr fun symbol hsymbol =>
      decide_eq_true (h.mem_wordAt depth symbol hsymbol)
  induction depth with
  | zero => exact hkeep 0
  | succ depth ih =>
      rw [wordWithin, ih]
      exact hkeep (depth + 1)

theorem mem_alphabet (grammar : Grammar) (table : Interpretation) (symbol : Char) :
    symbol ∈ grammar.alphabet table ↔
      symbol ∈ table.symbols ∨
        (∃ entry ∈ grammar.rules.entries, symbol = entry.1 ∨ symbol ∈ entry.2) ∨
        symbol ∈ grammar.start := by
  simp [alphabet]

theorem covers_alphabet (grammar : Grammar) (table : Interpretation) :
    grammar.Covers (grammar.alphabet table).members := by
  constructor
  · intro symbol hsymbol
    exact (mem_alphabet grammar table symbol).mpr (Or.inr (Or.inr hsymbol))
  · intro parent hparent symbol hsymbol
    rw [successor] at hsymbol
    cases hrule : grammar.rules.get? parent with
    | none =>
        rw [hrule, Option.getD_none, List.mem_singleton] at hsymbol
        exact hsymbol ▸ hparent
    | some successor =>
        rw [hrule, Option.getD_some] at hsymbol
        apply (mem_alphabet grammar table symbol).mpr
        exact Or.inr (Or.inl ⟨(parent, successor),
          RuleTable.mem_entries_of_get? hrule, Or.inr hsymbol⟩)

end Grammar

namespace Estimate

/-- A weight summed over a word is the sum over the symbols of a list, each weighed
as often as it occurs, if the word has no others. -/
theorem sum_count_mul (symbols : List Char) (hnodup : symbols.Nodup) (word : Word)
    (hword : ∀ symbol ∈ word, symbol ∈ symbols) (weight : Char → Nat) :
    ∑ place : Fin symbols.length, word.count symbols[place] * weight symbols[place] =
      (word.map weight).sum := by
  induction word with
  | nil => simp
  | cons head tail ih =>
      obtain ⟨place, hplace⟩ := List.mem_iff_get.mp (hword head List.mem_cons_self)
      have hothers : ∀ other : Fin symbols.length, other ≠ place →
          (if head = symbols[other] then weight symbols[other] else 0) = 0 := by
        intro other hne
        rw [if_neg]
        intro heq
        exact hne (Fin.ext (hnodup.getElem_inj_iff.mp (heq.symm.trans hplace.symm)))
      have hhead : ∑ other : Fin symbols.length,
          (if head = symbols[other] then weight symbols[other] else 0) = weight head := by
        rw [Finset.sum_eq_single place (fun other _ => hothers other) (by simp)]
        simp [← hplace]
      have htail := ih fun symbol hsymbol => hword symbol (List.mem_cons_of_mem _ hsymbol)
      rw [List.map_cons, List.sum_cons, ← htail, ← hhead, ← Finset.sum_add_distrib]
      apply Finset.sum_congr rfl
      intro other _
      rw [List.count_cons, Nat.add_mul, Nat.add_comm]
      simp only [beq_iff_eq, ite_mul, Nat.one_mul, Nat.zero_mul]

def countRow (symbols : List Char) (word : Word) : CountMatrix 1 symbols.length :=
  fun _ col => word.count symbols[col]

/-- The counts of some symbols in the successor of each of them. -/
def successorCounts (grammar : Grammar) (symbols : List Char) :
    CountMatrix symbols.length symbols.length :=
  fun row col => (grammar.successor symbols[row]).count symbols[col]

def yieldColumn (table : Interpretation) (symbols : List Char) :
    CountMatrix symbols.length 1 :=
  fun row _ => table.yieldOf symbols[row]

theorem not_large_yieldColumn (table : Interpretation) (symbols : List Char) :
    ¬ (yieldColumn table symbols).Large := by
  rintro ⟨row, col, hlarge⟩
  have hfew : table.yieldOf symbols[row] ≤ 3 := by
    unfold Interpretation.yieldOf
    split
    · next order _ => cases order <;> decide
    · exact Nat.zero_le _
  have hsize : 3 < UInt64.size := by decide
  exact absurd (Nat.le_trans hlarge hfew) (Nat.not_le.mpr hsize)

theorem exact_startVector (grammar : Grammar) {symbols : List Char}
    (h : checkAscending symbols = .ok ()) :
    ∃ start, startVector grammar symbols = .ok start ∧
      start.Exact (countRow symbols grammar.start) ∧
      (start.overflow = true ↔ (countRow symbols grammar.start).Large) := by
  refine ⟨_, by rw [startVector, h]; rfl, Matrix.exact_ofTallies _ _ ?_⟩
  intro row col
  have hcount : occurrences symbols.toArray grammar.start col =
      countRow symbols grammar.start row col := by
    simp [occurrences, countRow]
  rw [← hcount]
  exact Tally.counts_ofCount _

theorem exact_transitionMatrix (grammar : Grammar) {symbols : List Char}
    (h : checkAscending symbols = .ok ()) :
    ∃ transitions, transitionMatrix grammar symbols = .ok transitions ∧
      transitions.Exact (successorCounts grammar symbols) ∧
      (transitions.overflow = true ↔ (successorCounts grammar symbols).Large) := by
  refine ⟨_, by rw [transitionMatrix, h]; rfl, Matrix.exact_ofTallies _ _ ?_⟩
  intro row col
  have hcount : occurrences symbols.toArray
      ((symbols.toArray.map grammar.successor)[(row : Nat)]?.getD []) col =
        successorCounts grammar symbols row col := by
    simp [occurrences, successorCounts]
  rw [← hcount]
  exact Tally.counts_ofCount _

theorem exact_yieldVector (table : Interpretation) {symbols : List Char}
    (h : checkAscending symbols = .ok ()) :
    ∃ yields, yieldVector table symbols = .ok yields ∧
      yields.Exact (yieldColumn table symbols) ∧ yields.overflow = false := by
  refine ⟨_, by rw [yieldVector, h]; rfl,
    (Matrix.exact_ofTallies (yieldColumn table symbols) _ ?_).imp_right ?_⟩
  · intro row col
    have hcount : (match symbols.toArray[(row : Nat)]?.bind table.get? with
        | some order => order.vertexYield
        | none => 0) = yieldColumn table symbols row col := by
      simp [yieldColumn, Interpretation.yieldOf]
    rw [← hcount]
    exact Tally.counts_ofCount _
  · intro hflag
    rw [← Bool.not_eq_true, hflag]
    exact not_large_yieldColumn table symbols

/-- One derivation step is one multiplication. -/
theorem countRow_expand (grammar : Grammar) {symbols : List Char} (hnodup : symbols.Nodup)
    {word : Word} (hword : ∀ symbol ∈ word, symbol ∈ symbols) :
    countRow symbols ((grammar.expand word).filter (· ∈ symbols)) =
      countRow symbols word * successorCounts grammar symbols := by
  funext row col
  have hkept : ((grammar.expand word).filter (· ∈ symbols)).count symbols[col] =
      (grammar.expand word).count symbols[col] :=
    List.count_filter (decide_eq_true (List.getElem_mem col.isLt))
  have hsum := sum_count_mul symbols hnodup word hword
    fun parent => (grammar.successor parent).count symbols[col]
  rw [Matrix.mul_apply]
  change ((grammar.expand word).filter (· ∈ symbols)).count symbols[col] =
    ∑ place : Fin symbols.length, word.count symbols[place] *
      (grammar.successor symbols[place]).count symbols[col]
  rw [hkept, Grammar.count_expand, hsum]

theorem countRow_wordWithin (grammar : Grammar) {symbols : List Char}
    (hnodup : symbols.Nodup) (depth : Nat) :
    countRow symbols (grammar.wordWithin symbols depth) =
      countRow symbols grammar.start * successorCounts grammar symbols ^ depth := by
  induction depth with
  | zero =>
      rw [pow_zero, Matrix.mul_one]
      funext row col
      exact List.count_filter (decide_eq_true (List.getElem_mem col.isLt))
  | succ depth ih =>
      rw [pow_succ, ← Matrix.mul_assoc, ← ih]
      exact countRow_expand grammar hnodup fun symbol => Grammar.mem_of_mem_wordWithin

/-- A power of the successors' counts counts what each symbol turns into after as many
steps. -/
theorem successorCounts_pow {grammar : Grammar} {symbols : List Char}
    (hcovers : grammar.Covers symbols) (hnodup : symbols.Nodup) (steps : Nat)
    (row col : Fin symbols.length) :
    (successorCounts grammar symbols ^ steps) row col =
      (grammar.expand^[steps] [symbols[row]]).count symbols[col] := by
  induction steps generalizing col with
  | zero =>
      have hsame : symbols[(row : Nat)] = symbols[(col : Nat)] ↔ row = col :=
        hnodup.getElem_inj_iff.trans Fin.ext_iff.symm
      simp [Matrix.one_apply, List.count_singleton, hsame]
  | succ steps ih =>
      have hparent : symbols[row] ∈ symbols := List.getElem_mem row.isLt
      have hword := hcovers.mem_iterate_expand hparent steps
      have hsum := sum_count_mul symbols hnodup _ hword
        fun parent => (grammar.successor parent).count symbols[col]
      rw [pow_succ, Matrix.mul_apply, Function.iterate_succ_apply', Grammar.count_expand,
        ← hsum]
      apply Finset.sum_congr rfl
      intro place _
      rw [ih place]
      rfl

/-- A symbol that the list leaves out does not occur at all. -/
theorem large_countRow_iff {symbols : List Char} {word : Word}
    (hword : ∀ symbol ∈ word, symbol ∈ symbols) :
    (countRow symbols word).Large ↔ ∃ symbol, UInt64.size ≤ word.count symbol := by
  constructor
  · rintro ⟨_, col, hlarge⟩
    exact ⟨symbols[col], hlarge⟩
  · rintro ⟨symbol, hlarge⟩
    have hpos : 0 < word.count symbol := Nat.lt_of_lt_of_le (by decide) hlarge
    obtain ⟨col, hcol⟩ := List.mem_iff_get.mp (hword symbol (List.count_pos_iff.mp hpos))
    refine ⟨0, col, ?_⟩
    rw [countRow]
    rwa [← hcol] at hlarge

theorem large_successorCounts_pow_iff {grammar : Grammar} {symbols : List Char}
    (hcovers : grammar.Covers symbols) (hnodup : symbols.Nodup) (steps : Nat) :
    CountMatrix.Large (successorCounts grammar symbols ^ steps) ↔
      ∃ parent ∈ symbols, ∃ symbol,
        UInt64.size ≤ (grammar.expand^[steps] [parent]).count symbol := by
  have hrow : ∀ row : Fin symbols.length,
      (∃ col, UInt64.size ≤ (successorCounts grammar symbols ^ steps) row col) ↔
        ∃ symbol, UInt64.size ≤ (grammar.expand^[steps] [symbols[row]]).count symbol := by
    intro row
    have hparent : symbols[row] ∈ symbols := List.getElem_mem row.isLt
    have hword := hcovers.mem_iterate_expand hparent steps
    rw [← large_countRow_iff hword]
    simp only [successorCounts_pow hcovers hnodup]
    exact ⟨fun ⟨col, hlarge⟩ => ⟨0, col, hlarge⟩, fun ⟨_, col, hlarge⟩ => ⟨col, hlarge⟩⟩
  constructor
  · rintro ⟨row, hlarge⟩
    exact ⟨symbols[row], List.getElem_mem _, (hrow row).mp hlarge⟩
  · rintro ⟨parent, hparent, hlarge⟩
    obtain ⟨row, rfl⟩ := List.mem_iff_get.mp hparent
    exact ⟨row, (hrow row).mpr hlarge⟩

theorem sum_countRow {symbols : List Char} (hnodup : symbols.Nodup) {word : Word}
    (hword : ∀ symbol ∈ word, symbol ∈ symbols) :
    ∑ row, ∑ col, countRow symbols word row col = word.length := by
  have hsum := sum_count_mul symbols hnodup word hword fun _ => 1
  simpa [countRow] using hsum

theorem sum_countRow_mul (table : Interpretation) {symbols : List Char}
    (hnodup : symbols.Nodup) {word : Word} (hword : ∀ symbol ∈ word, symbol ∈ symbols) :
    ∑ row, ∑ col, (countRow symbols word * yieldColumn table symbols) row col =
      (word.map table.yieldOf).sum := by
  have hsum := sum_count_mul symbols hnodup word hword table.yieldOf
  simpa [Matrix.mul_apply, countRow, yieldColumn] using hsum

/-- A prediction over ascending symbols sums up the exact counts of what is left of the
word, and of the vertices that its symbols add.  They are flagged if one of them does not
fit, but also if one does not from which they are computed. -/
theorem ofAlphabet_eq (grammar : Grammar) (table : Interpretation)
    {symbols : List Char} (hascending : symbols.Pairwise (· < ·)) (depth : Nat) :
    let row := countRow symbols (grammar.wordWithin symbols depth)
    ∃ counts drawn : Matrix,
      counts.Exact row ∧ drawn.Exact (row * yieldColumn table symbols) ∧
      (counts.overflow = true ↔ (countRow symbols grammar.start).Large ∨
        (∃ steps, Matrix.Visits depth steps ∧
          CountMatrix.Large (successorCounts grammar symbols ^ steps)) ∨ row.Large) ∧
      (drawn.overflow = true ↔
        counts.overflow = true ∨ CountMatrix.Large (row * yieldColumn table symbols)) ∧
      ofAlphabet grammar table symbols depth =
        if counts.grandSum.overflow || (drawn.grandSum.add 1).overflow then .ok tooLarge
        else .ok ⟨counts.grandSum.value.toNat, (drawn.grandSum.add 1).value.toNat, false⟩ := by
  intro row
  have hcheck := checkAscending_of_pairwise hascending
  have hnodup : symbols.Nodup := hascending.imp Char.ne_of_lt
  obtain ⟨start, hstart, hstartExact, hstartFlag⟩ := exact_startVector grammar hcheck
  obtain ⟨transitions, htransitions, htransitionsExact, htransitionsFlag⟩ :=
    exact_transitionMatrix grammar hcheck
  obtain ⟨yields, hyields, hyieldsExact, hyieldsClear⟩ := exact_yieldVector table hcheck
  obtain ⟨power, hpower, hpowerExact, -⟩ := htransitionsExact.pow depth
  obtain ⟨counts, hcounts, hcountsExact, hcountsFlag⟩ := hstartExact.mul hpowerExact.exact_pow
  rw [← countRow_wordWithin grammar hnodup] at hcountsExact hcountsFlag
  obtain ⟨drawn, hdrawn, hdrawnExact, hdrawnFlag⟩ := hcountsExact.mul hyieldsExact
  refine ⟨counts, drawn, hcountsExact, hdrawnExact, ?_, ?_, ?_⟩
  · rw [hcountsFlag, hstartFlag, htransitionsExact.overflow_pow_iff htransitionsFlag hpower]
  · rw [hdrawnFlag, hyieldsClear]
    simp [row]
  · simp only [ofAlphabet, hstart, htransitions, hyields, hpower, hcounts, hdrawn, bind,
      Except.bind, pure, Except.pure]

/-- Over ascending symbols a prediction always comes out.  If it is not flagged, it
is exact for what is left of the word: its length, and one vertex more than its
symbols add. -/
theorem ofAlphabet_exact (grammar : Grammar) (table : Interpretation)
    {symbols : List Char} (hascending : symbols.Pairwise (· < ·)) (depth : Nat) :
    ∃ estimate, ofAlphabet grammar table symbols depth = .ok estimate ∧
      (estimate.overflow = false →
        estimate.symbols = (grammar.wordWithin symbols depth).length ∧
          estimate.vertices =
            1 + ((grammar.wordWithin symbols depth).map table.yieldOf).sum) := by
  have hnodup : symbols.Nodup := hascending.imp Char.ne_of_lt
  have hword : ∀ symbol ∈ grammar.wordWithin symbols depth, symbol ∈ symbols :=
    fun symbol => Grammar.mem_of_mem_wordWithin
  obtain ⟨counts, drawn, hcountsExact, hdrawnExact, -, -, hresult⟩ :=
    ofAlphabet_eq grammar table hascending depth
  rw [hresult]
  split
  · refine ⟨tooLarge, rfl, ?_⟩
    intro hclear
    cases hclear
  · next hclear =>
      rw [Bool.or_eq_true, not_or, Bool.not_eq_true, Bool.not_eq_true] at hclear
      obtain ⟨htotalClear, hverticesClear⟩ := hclear
      have hcountsClear := Matrix.overflow_of_grandSum htotalClear
      have hdrawnClear :=
        Matrix.overflow_of_grandSum (Tally.overflow_of_add hverticesClear)
      have htotal := hcountsExact.grandSum hcountsClear
      have hvertices := (hdrawnExact.grandSum hdrawnClear).add 1
      rw [sum_countRow hnodup hword] at htotal
      rw [sum_countRow_mul table hnodup hword] at hvertices
      refine ⟨_, rfl, fun _ => ⟨htotal.value_eq htotalClear, ?_⟩⟩
      rw [Nat.add_comm]
      exact hvertices.value_eq hverticesClear

/-- Where the list covers the grammar, a prediction is flagged exactly if one of its two
numbers does not fit, or a count that it comes by on the way: of a symbol in the start
word, or in what a symbol of the list turns into after as many steps as squaring visits. -/
theorem ofAlphabet_overflow_iff {grammar : Grammar} (table : Interpretation)
    {symbols : List Char} (hascending : symbols.Pairwise (· < ·))
    (hcovers : grammar.Covers symbols) {depth : Nat} {estimate : Estimate}
    (hestimate : ofAlphabet grammar table symbols depth = .ok estimate) :
    estimate.overflow = true ↔
      UInt64.size ≤ (grammar.wordAt depth).length ∨
        UInt64.size ≤ 1 + ((grammar.wordAt depth).map table.yieldOf).sum ∨
        (∃ symbol, UInt64.size ≤ grammar.start.count symbol) ∨
        ∃ steps, Matrix.Visits depth steps ∧ ∃ parent ∈ symbols, ∃ symbol,
          UInt64.size ≤ (grammar.expand^[steps] [parent]).count symbol := by
  have hnodup : symbols.Nodup := hascending.imp Char.ne_of_lt
  have hword := hcovers.mem_wordAt depth
  obtain ⟨counts, drawn, hcountsExact, hdrawnExact, hcountsFlag, hdrawnFlag, hresult⟩ :=
    ofAlphabet_eq grammar table hascending depth
  rw [hcovers.wordWithin_eq] at hcountsExact hdrawnExact hcountsFlag hdrawnFlag
  simp only [large_countRow_iff hcovers.1, large_countRow_iff hword,
    large_successorCounts_pow_iff hcovers hnodup] at hcountsFlag
  have hsumYield := sum_countRow_mul table hnodup hword
  have hflag : estimate.overflow = true ↔
      counts.grandSum.overflow = true ∨ (drawn.grandSum.add 1).overflow = true := by
    rw [hresult] at hestimate
    split at hestimate
    · next hsums =>
        obtain rfl := Except.ok.inj hestimate
        exact iff_of_true rfl (Bool.or_eq_true _ _ ▸ hsums)
    · next hsums =>
        obtain rfl := Except.ok.inj hestimate
        exact iff_of_false Bool.false_ne_true (Bool.or_eq_true _ _ ▸ hsums)
  -- A single count is no larger than the length of the word.
  have hsymbols : counts.overflow = true ∨ UInt64.size ≤ (grammar.wordAt depth).length ↔
      UInt64.size ≤ (grammar.wordAt depth).length ∨
        (∃ symbol, UInt64.size ≤ grammar.start.count symbol) ∨
        ∃ steps, Matrix.Visits depth steps ∧ ∃ parent ∈ symbols, ∃ symbol,
          UInt64.size ≤ (grammar.expand^[steps] [parent]).count symbol := by
    rw [hcountsFlag]
    constructor
    · rintro ((hmet | hvisited | ⟨_, hlarge⟩) | hlarge)
      · exact Or.inr (Or.inl hmet)
      · exact Or.inr (Or.inr hvisited)
      · exact Or.inl (Nat.le_trans hlarge List.count_le_length)
      · exact Or.inl hlarge
    · rintro (hlarge | hmet | hvisited)
      · exact Or.inr hlarge
      · exact Or.inl (Or.inl hmet)
      · exact Or.inl (Or.inr (Or.inl hvisited))
  have hvertices : drawn.overflow = true ∨
        UInt64.size ≤ ((grammar.wordAt depth).map table.yieldOf).sum + 1 ↔
      counts.overflow = true ∨
        UInt64.size ≤ 1 + ((grammar.wordAt depth).map table.yieldOf).sum := by
    rw [hdrawnFlag, or_assoc, Nat.add_comm 1]
    apply or_congr_right
    apply or_iff_right_of_imp
    rintro ⟨row, col, hlarge⟩
    rw [Subsingleton.elim row 0, Subsingleton.elim col 0] at hlarge
    simp only [Fin.sum_univ_one, Fin.isValue] at hsumYield
    omega
  rw [hflag, hcountsExact.overflow_grandSum_iff, hdrawnExact.overflow_grandSum_add_iff,
    sum_countRow hnodup hword, sum_countRow_mul table hnodup hword]
  change _ ∨ drawn.overflow = true ∨
    UInt64.size ≤ ((grammar.wordAt depth).map table.yieldOf).sum + 1 ↔ _
  rw [hvertices, ← or_or_distrib_left, ← or_assoc, hsymbols, or_assoc, or_comm (b := _ ≤ 1 + _)]

end Estimate

/-- The prediction for a depth always comes out, and is exact if it is not flagged. -/
theorem Grammar.estimate_exact (grammar : Grammar) (table : Interpretation) (depth : Nat) :
    ∃ estimate, grammar.estimate table depth = .ok estimate ∧
      (estimate.overflow = false →
        estimate.symbols = (grammar.wordAt depth).length ∧
          estimate.vertices = 1 + ((grammar.wordAt depth).map table.yieldOf).sum) := by
  have hexact := Estimate.ofAlphabet_exact grammar table
    (grammar.alphabet table).ascending depth
  rwa [(grammar.covers_alphabet table).wordWithin_eq] at hexact

end LineGrammar
