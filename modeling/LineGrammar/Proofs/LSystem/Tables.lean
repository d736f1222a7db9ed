/-
The depths of the two tables.  Words are known at least as deep as levels, both from the start
word on, and after each operation the depths are known that the operation says.  A loop that
reads and grows the tables entry by entry, from any lag between them, finds every entry it reads.
-/
import LineGrammar.Proofs.LSystem.History

namespace LineGrammar

namespace Grammar

/-- The counts of an expanded word, symbol by symbol.  Each reads the count at its place. -/
def countsFrom? (grammar : Grammar) (counts : List Nat) : Nat → Word → Option (List Nat)
  | _, [] => some []
  | place, symbol :: word => do
      let count ← counts[place]?
      let rest ← grammar.countsFrom? counts (place + 1) word
      return List.replicate (grammar.successor symbol).length (grammar.inherit symbol count) ++ rest

theorem countsFrom?_eq (grammar : Grammar) (counts : List Nat) {place : Nat} {word : Word}
    (h : place + word.length = counts.length) :
    grammar.countsFrom? counts place word =
      some (grammar.expandCounts word (counts.drop place)) := by
  induction word generalizing place with
  | nil => rfl
  | cons symbol word ih =>
      rw [List.length_cons] at h
      have hplace : place < counts.length := by omega
      have hrest : grammar.countsFrom? counts (place + 1) word =
          some (grammar.expandCounts word (counts.drop (place + 1))) := ih (by omega)
      rw [countsFrom?, List.getElem?_eq_getElem hplace, hrest, List.drop_eq_getElem_cons hplace]
      rfl

end Grammar

namespace LSystem

/-- Derive a depth from the one before, which must be in the tables: its word, unless it is
known, and its level, if counts are wanted. -/
def derive? (system : LSystem) (counted : Bool) : Nat → Option (Option Word × Level)
  | 0 => none
  | before + 1 => do
      let source ← system.words[before]?
      let word :=
        if system.words.size ≤ before + 1 then some (system.grammar.expand source) else none
      if counted then
        let parent ← system.levels[before]?
        let counts ← system.grammar.countsFrom? parent.counts 0 source
        return (word, ⟨counts, counts.foldl max parent.peak⟩)
      else return (word, ⟨[], 0⟩)

def enter? (counted : Bool) (system : LSystem) (depth : Nat) : Option LSystem := do
  let (word, level) ← system.derive? counted depth
  let words := match word with
    | some word => system.words.push word
    | none => system.words
  let levels := if counted then system.levels.push level else system.levels
  return { system with words, levels }

/-- Words are known at least as deep as levels. -/
def assert? (system : LSystem) : Option Unit :=
  if system.levels.size ≤ system.words.size then some () else none

def enterAll? (system : LSystem) (counted : Bool) (first last : Nat) : Option LSystem :=
  (List.range' first (last + 1 - first)).foldlM (enter? counted) system

/-- The word at a depth with its counts, entry by entry. -/
def produce? (system : LSystem) (depth : Nat) : Option (Derivation × LSystem) := do
  system.assert?
  if system.grammar.start.isEmpty then return (⟨[], [], 0⟩, system)
  let grown ← system.enterAll? true system.levels.size depth
  grown.assert?
  let level ← grown.levels[depth]?
  let word ← grown.words[depth]?
  return (⟨word, level.counts, level.peak⟩, grown)

def produceWord? (system : LSystem) (depth : Nat) : Option (Word × LSystem) := do
  if system.grammar.start.isEmpty then return ([], system)
  let grown ← system.enterAll? false system.words.size depth
  return (← grown.words[depth]?, grown)

/-- The system with as many words and levels in its tables. -/
def withTables (system : LSystem) (words levels : Nat) : LSystem :=
  { system with
    words := system.grammar.firstWords words
    levels := system.grammar.firstLevels levels }

variable {system : LSystem} {words levels : Nat}

theorem Faithful.getElem?_words (h : system.Faithful) {depth : Nat}
    (hdepth : depth < system.words.size) :
    system.words[depth]? = some (system.grammar.wordAt depth) := by
  rw [h.words_eq]
  exact Grammar.getElem?_firstWords _ hdepth

theorem Faithful.getElem?_levels (h : system.Faithful) {depth : Nat}
    (hdepth : depth < system.levels.size) :
    system.levels[depth]? = some (system.grammar.levelAt depth) := by
  rw [h.levels_eq]
  exact Grammar.getElem?_firstLevels _ hdepth

theorem Faithful.eq_withTables (h : system.Faithful) :
    system.withTables system.words.size system.levels.size = system := by
  rw [withTables, ← h.words_eq, ← h.levels_eq]

theorem Faithful.produce_snd_eq (h : system.Faithful) (hstart : system.grammar.start ≠ [])
    (depth : Nat) : (system.produce depth).2 = system.withTables
      (max system.words.size (depth + 1)) (max system.levels.size (depth + 1)) := by
  have hwords := h.words_growWords depth
  have hdepth : depth < (system.growWords depth).words.size := by
    rw [hwords, Grammar.size_firstWords]
    omega
  have hlevels := (h.growWords depth).levels_growLevels hdepth
  rw [produce, if_neg (by simpa using hstart), withTables]
  change { system with
    words := (system.growWords depth).words
    levels := ((system.growWords depth).growLevels depth).levels } = _
  rw [hwords, hlevels]
  rfl

theorem Faithful.produceWord_snd_eq (h : system.Faithful) (hstart : system.grammar.start ≠ [])
    (depth : Nat) : (system.produceWord depth).2 =
      system.withTables (max system.words.size (depth + 1)) system.levels.size := by
  rw [produceWord, if_neg (by simpa using hstart), withTables, ← h.levels_eq]
  change { system with words := (system.growWords depth).words } = _
  rw [h.words_growWords depth]

/-- Tables that hold the depth before have all that is read for a depth. -/
theorem derive?_withTables {before : Nat} (hwords : before < words) (counted : Bool)
    (hlevels : counted → before < levels) :
    (system.withTables words levels).derive? counted (before + 1) =
      some (if words ≤ before + 1 then some (system.grammar.wordAt (before + 1)) else none,
        if counted then system.grammar.levelAt (before + 1) else ⟨[], 0⟩) := by
  have hword : (system.withTables words levels).words[before]? =
      some (system.grammar.wordAt before) :=
    Grammar.getElem?_firstWords _ hwords
  have hnext : system.grammar.expand (system.grammar.wordAt before) =
      system.grammar.wordAt (before + 1) := rfl
  have hsize : (system.withTables words levels).words.size = words :=
    Grammar.size_firstWords ..
  have hgrammar : (system.withTables words levels).grammar = system.grammar := rfl
  rw [derive?, hword, hsize, hgrammar]
  cases counted with
  | false => simp [hnext]
  | true =>
      have hlevel : (system.withTables words levels).levels[before]? =
          some (system.grammar.levelAt before) :=
        Grammar.getElem?_firstLevels _ (hlevels rfl)
      have hcounts := system.grammar.countsFrom?_eq (system.grammar.levelAt before).counts
        ((Nat.zero_add _).trans (system.grammar.length_counts_levelAt before).symm)
      rw [List.drop_zero] at hcounts
      simp only [if_true, hlevel, hcounts, hnext, Option.bind_eq_bind, Option.bind_some]
      rfl

theorem enter?_false_withTables (hwords : 0 < words) :
    enter? false (system.withTables words levels) words =
      some (system.withTables (words + 1) levels) := by
  obtain ⟨before, rfl⟩ := Nat.exists_eq_succ_of_ne_zero (Nat.ne_of_gt hwords)
  rw [enter?, derive?_withTables (Nat.lt_succ_self before) false nofun, if_pos (Nat.le_refl _)]
  simp [withTables, Grammar.push_firstWords]

/-- Levels catch up with words, and both grow once they have. -/
theorem enter?_true_withTables (hlevels : 0 < levels) (hle : levels ≤ words) :
    enter? true (system.withTables words levels) levels =
      some (system.withTables (max words (levels + 1)) (levels + 1)) := by
  obtain ⟨before, rfl⟩ := Nat.exists_eq_succ_of_ne_zero (Nat.ne_of_gt hlevels)
  rw [enter?, derive?_withTables hle true fun _ => Nat.lt_succ_self before]
  rcases Nat.lt_or_eq_of_le hle with hlag | rfl
  · rw [if_neg (Nat.not_le_of_lt hlag), Nat.max_eq_left hlag]
    simp [withTables, Grammar.push_firstLevels]
  · rw [if_pos (Nat.le_refl _), Nat.max_eq_right (Nat.le_succ _)]
    simp [withTables, Grammar.push_firstWords, Grammar.push_firstLevels]

theorem foldlM_enter?_false (system : LSystem) {words : Nat} (levels : Nat) (hwords : 0 < words)
    (more : Nat) :
    (List.range' words more).foldlM (enter? false) (system.withTables words levels) =
      some (system.withTables (words + more) levels) := by
  induction more generalizing words with
  | zero => rfl
  | succ more ih =>
      rw [List.range'_succ, List.foldlM_cons, enter?_false_withTables hwords]
      exact (ih (Nat.succ_pos words)).trans (by rw [Nat.succ_add_eq_add_succ])

theorem foldlM_enter?_true (system : LSystem) {words levels : Nat} (hlevels : 0 < levels)
    (hle : levels ≤ words) (more : Nat) :
    (List.range' levels more).foldlM (enter? true) (system.withTables words levels) =
      some (system.withTables (max words (levels + more)) (levels + more)) := by
  induction more generalizing words levels with
  | zero =>
      rw [Nat.add_zero, Nat.max_eq_left hle]
      rfl
  | succ more ih =>
      have hsize : max (max words (levels + 1)) (levels + 1 + more) =
          max words (levels + (more + 1)) := by omega
      rw [List.range'_succ, List.foldlM_cons, enter?_true_withTables hlevels hle]
      exact (ih (Nat.succ_pos levels) (Nat.le_max_right _ _)).trans
        (by rw [hsize, Nat.succ_add_eq_add_succ])

theorem Faithful.enterAll?_false (h : system.Faithful) (depth : Nat) :
    system.enterAll? false system.words.size depth =
      some (system.withTables (max system.words.size (depth + 1)) system.levels.size) := by
  have hpos := Nat.lt_of_lt_of_le h.levels_pos h.levels_le
  have hloop := foldlM_enter?_false system system.levels.size hpos (depth + 1 - system.words.size)
  rw [h.eq_withTables] at hloop
  rw [enterAll?, hloop, show system.words.size + (depth + 1 - system.words.size) =
    max system.words.size (depth + 1) by omega]

theorem Faithful.enterAll?_true (h : system.Faithful) (depth : Nat) :
    system.enterAll? true system.levels.size depth = some (system.withTables
      (max system.words.size (depth + 1)) (max system.levels.size (depth + 1))) := by
  have hle := h.levels_le
  have hloop := foldlM_enter?_true system h.levels_pos hle (depth + 1 - system.levels.size)
  rw [h.eq_withTables] at hloop
  rw [enterAll?, hloop, show system.levels.size + (depth + 1 - system.levels.size) =
    max system.levels.size (depth + 1) by omega, show max system.words.size
      (max system.levels.size (depth + 1)) = max system.words.size (depth + 1) by omega]

theorem Faithful.assert?_eq (h : system.Faithful) : system.assert? = some () :=
  if_pos h.levels_le

/-- Derivation finds every entry it reads, and both assertions hold. -/
theorem Faithful.produce?_eq (h : system.Faithful) (depth : Nat) :
    system.produce? depth = some (system.produce depth) := by
  by_cases hstart : system.grammar.start = []
  · simp [produce?, produce, h.assert?_eq, hstart]
  · have hgrown := h.produce_snd_eq hstart depth
    have hassert := (h.produce_snd depth).assert?_eq
    have hlevel : (system.produce depth).2.levels[depth]? =
        some (system.grammar.levelAt depth) := by
      rw [hgrown]
      exact Grammar.getElem?_firstLevels _ (by omega)
    have hword : (system.produce depth).2.words[depth]? = some (system.grammar.wordAt depth) := by
      rw [hgrown]
      exact Grammar.getElem?_firstWords _ (by omega)
    have hanswer : system.grammar.derive depth = (system.produce depth).1 :=
      (h.produce_fst depth).symm
    have hloop := h.enterAll?_true depth
    rw [← hgrown] at hloop
    simp only [produce?, h.assert?_eq, List.isEmpty_iff, hstart, if_false, hloop,
      Option.bind_eq_bind, Option.bind_some, hassert, hlevel, hword]
    exact congrArg (fun answer => some (answer, (system.produce depth).2)) hanswer

theorem Faithful.produceWord?_eq (h : system.Faithful) (depth : Nat) :
    system.produceWord? depth = some (system.produceWord depth) := by
  by_cases hstart : system.grammar.start = []
  · simp [produceWord?, produceWord, hstart]
  · have hgrown := h.produceWord_snd_eq hstart depth
    have hword : (system.produceWord depth).2.words[depth]? =
        some (system.grammar.wordAt depth) := by
      rw [hgrown]
      exact Grammar.getElem?_firstWords _ (by omega)
    have hanswer : system.grammar.wordAt depth = (system.produceWord depth).1 :=
      (h.produceWord_fst depth).symm
    have hloop := h.enterAll?_false depth
    rw [← hgrown] at hloop
    simp only [produceWord?, List.isEmpty_iff, hstart, if_false, hloop, Option.bind_eq_bind,
      Option.bind_some, hword]
    exact congrArg (fun answer => some (answer, (system.produceWord depth).2)) hanswer

/-- The depths known after an operation, from those known before it. -/
def Operation.depths (grammar : Grammar) (known : Nat × Nat) : Operation → Nat × Nat
  | .produce depth =>
      if grammar.start = [] then known else (max known.1 depth, max known.2 depth)
  | .produceWord depth => if grammar.start = [] then known else (max known.1 depth, known.2)
  | .removeRule symbol => if (grammar.rules.get? symbol).isSome then (0, 0) else known
  | .setStart _ | .addRule _ _ | .clearRules | .setFlags _ => (0, 0)
  | .subscribe | .copy => known

theorem knownDepths_withTables (system : LSystem) (words levels : Nat) :
    (system.withTables words levels).knownDepths = (words - 1, levels - 1) := by
  simp [knownDepths, withTables]

theorem Faithful.knownDepths_perform (h : system.Faithful) (operation : Operation) :
    (system.perform operation).knownDepths =
      operation.depths system.grammar system.knownDepths := by
  have hlevels := h.levels_pos
  have hwords := h.levels_le
  cases operation with
  | produce depth =>
      change (system.produce depth).2.knownDepths = _
      by_cases hstart : system.grammar.start = []
      · simp [produce, Operation.depths, hstart]
      · rw [h.produce_snd_eq hstart, knownDepths_withTables, Operation.depths, if_neg hstart,
          knownDepths]
        congr 1 <;> simp only <;> omega
  | produceWord depth =>
      change (system.produceWord depth).2.knownDepths = _
      by_cases hstart : system.grammar.start = []
      · simp [produceWord, Operation.depths, hstart]
      · rw [h.produceWord_snd_eq hstart, knownDepths_withTables, Operation.depths, if_neg hstart,
          knownDepths]
        congr 1
        simp only
        omega
  | removeRule symbol =>
      cases hrule : system.grammar.rules.get? symbol with
      | none => rw [perform_removeRule_of_none hrule, Operation.depths, hrule]; rfl
      | some successor =>
          obtain ⟨rules, -, hdone⟩ := perform_removeRule_of_some hrule
          rw [hdone, Operation.depths, hrule]
          rfl
  | setStart start => rfl
  | addRule symbol successor => rfl
  | clearRules => rfl
  | setFlags flags => rfl
  | subscribe => rfl
  | copy => rfl

/-- Nothing is ever known below an empty start word. -/
theorem Operation.depths_of_start_eq_nil {grammar : Grammar} {known : Nat × Nat}
    (hknown : grammar.start = [] → known = (0, 0)) (operation : Operation)
    (hstart : (operation.change grammar).start = []) :
    operation.depths grammar known = (0, 0) := by
  cases operation with
  | produce depth => exact (if_pos hstart).trans (hknown hstart)
  | produceWord depth => exact (if_pos hstart).trans (hknown hstart)
  | removeRule symbol =>
      rw [Operation.depths]
      split
      · rfl
      · exact hknown hstart
  | subscribe => exact hknown hstart
  | copy => exact hknown hstart
  | setStart start => rfl
  | addRule symbol successor => rfl
  | clearRules => rfl
  | setFlags flags => rfl

theorem knownDepths_run_of_start_eq_nil (h : system.Faithful)
    (hknown : system.grammar.start = [] → system.knownDepths = (0, 0))
    (operations : List Operation) (hstart : (system.run operations).grammar.start = []) :
    (system.run operations).knownDepths = (0, 0) := by
  induction operations generalizing system with
  | nil => exact hknown hstart
  | cons operation operations ih =>
      refine ih (faithful_perform h operation) (fun hnext => ?_) hstart
      rw [grammar_perform] at hnext
      rw [h.knownDepths_perform]
      exact operation.depths_of_start_eq_nil hknown hnext

/-- Both tables at any time.  They hold the words and the levels of the first depths, the words
at least as deep as the levels and both from the start word on, which alone is known if it is
empty.  After each operation the depths are known that the operation says.  Derivation entry by
entry finds all that it reads, and leaves the grammar as it is. -/
theorem tables_of_reachable (h : system.Reachable) :
    (0 < system.levels.size ∧ system.levels.size ≤ system.words.size) ∧
    (∀ depth < system.words.size,
      system.words[depth]? = some (system.grammar.wordAt depth)) ∧
    (∀ depth < system.levels.size,
      system.levels[depth]? = some (system.grammar.levelAt depth) ∧
        (system.grammar.levelAt depth).counts.length = (system.grammar.wordAt depth).length) ∧
    (system.grammar.start = [] → system.knownDepths = (0, 0)) ∧
    (∀ operation, (system.perform operation).knownDepths =
      operation.depths system.grammar system.knownDepths) ∧
    ∀ depth, system.produce? depth = some (system.produce depth) ∧
      system.produceWord? depth = some (system.produceWord depth) ∧
      (system.produce depth).2.grammar = system.grammar ∧
      (system.produceWord depth).2.grammar = system.grammar := by
  have hfaithful := h.faithful
  refine ⟨⟨hfaithful.levels_pos, hfaithful.levels_le⟩, fun _ => hfaithful.getElem?_words,
    fun depth hdepth => ⟨hfaithful.getElem?_levels hdepth,
      system.grammar.length_counts_levelAt depth⟩, ?_, hfaithful.knownDepths_perform,
    fun depth => ⟨hfaithful.produce?_eq depth, hfaithful.produceWord?_eq depth,
      grammar_produce system depth, grammar_produceWord system depth⟩⟩
  obtain ⟨start, rules, flags, operations, rfl⟩ := h
  exact knownDepths_run_of_start_eq_nil (faithful_ofGrammar _) (fun _ => rfl) operations

/-- A system whose levels lag behind its words. -/
def lagging : LSystem :=
  (ofRules ['F'] [('F', ['F', '+', 'G']), ('G', ['G', '-', 'F'])] ['F']).run
    [.produce 1, .produceWord 2, .removeRule 'X', .copy]

/-- Levels catch up with the words and pass them. -/
theorem tables_of_reachable_lagging :
    lagging.Reachable ∧ lagging.knownDepths = (2, 1) ∧
      (lagging.perform (.produce 3)).knownDepths = (3, 3) := by
  have hreachable : lagging.Reachable := ⟨_, _, _, _, rfl⟩
  have hknown : lagging.knownDepths = (2, 1) := by decide +kernel
  have hstart : lagging.grammar.start ≠ [] := by decide +kernel
  obtain ⟨-, -, -, -, hdepths, -⟩ := tables_of_reachable hreachable
  refine ⟨hreachable, hknown, (hdepths (.produce 3)).trans ?_⟩
  rw [hknown, Operation.depths, if_neg hstart]
  rfl

end LSystem

end LineGrammar
