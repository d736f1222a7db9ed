/-
What a prediction over some of the symbols means.  A symbol that the list leaves out is
dropped with all that would be derived from it.  What is counted in the end are the symbols
that lie in the list together with all their ancestors.
-/
import LineGrammar.Proofs.Growth.Counting
import LineGrammar.Proofs.LSystem.Ancestry

namespace LineGrammar

namespace Word

def kept (keep : Nat → Bool) : Word → Word
  | [] => []
  | symbol :: word =>
      if keep 0 then symbol :: kept (fun i => keep (i + 1)) word
      else kept (fun i => keep (i + 1)) word

theorem kept_const (choice : Bool) (word : Word) :
    kept (fun _ => choice) word = if choice then word else [] := by
  induction word with
  | nil => simp [kept]
  | cons symbol word ih => cases choice <;> simp_all [kept]

theorem kept_congr {keep keep' : Nat → Bool} {word : Word}
    (h : ∀ i < word.length, keep i = keep' i) : kept keep word = kept keep' word := by
  induction word generalizing keep keep' with
  | nil => rfl
  | cons symbol word ih =>
      have hrest := ih fun i hi => h (i + 1) (Nat.succ_lt_succ hi)
      rw [kept, kept, h 0 (Nat.succ_pos _), hrest]

theorem kept_append (keep : Nat → Bool) (left right : Word) :
    kept keep (left ++ right) =
      kept keep left ++ kept (fun i => keep (left.length + i)) right := by
  induction left generalizing keep with
  | nil => simp [kept]
  | cons symbol left ih =>
      have hshift : (fun i => keep (left.length + i + 1)) =
          fun i => keep ((symbol :: left).length + i) := by
        funext i
        rw [List.length_cons, Nat.add_right_comm]
      rw [List.cons_append, kept, kept, ih, hshift]
      split <;> simp

/-- Filtering what is kept is keeping less. -/
theorem filter_kept (keep : Nat → Bool) (wanted : Char → Bool) (word : Word) :
    (kept keep word).filter wanted = kept (fun i => keep i && word[i]?.any wanted) word := by
  induction word generalizing keep with
  | nil => rfl
  | cons symbol word ih =>
      have hrest := ih fun i => keep (i + 1)
      by_cases hkeep : keep 0 = true <;> by_cases hwanted : wanted symbol = true <;>
        simp_all [kept]

/-- A weight summed over what is kept is a sum over the places. -/
theorem sum_kept (keep : Nat → Bool) (weight : Char → Nat) (word : Word) :
    ((kept keep word).map weight).sum =
      ∑ i ∈ Finset.univ.filter (fun i : Fin word.length => keep i = true),
        weight (word.get i) := by
  induction word generalizing keep with
  | nil => rfl
  | cons symbol word ih =>
      have hrest := ih fun i => keep (i + 1)
      rw [Finset.sum_filter] at hrest ⊢
      have hsplit : ∑ i : Fin (symbol :: word).length,
          (if keep i then weight ((symbol :: word).get i) else 0) =
            (if keep 0 then weight symbol else 0) +
              ∑ i : Fin word.length, if keep (i + 1) then weight (word.get i) else 0 :=
        Fin.sum_univ_succ _
      rw [hsplit, ← hrest, kept]
      split <;> simp

end Word

namespace Grammar

section Expansion

variable {grammar : Grammar} {word : Word}

/-- Expanding what is kept of a word keeps the symbols whose parent is kept. -/
theorem expand_kept {keep keep' : Nat → Bool}
    (h : ∀ j < (grammar.expand word).length,
      keep' j = true ↔ ∃ i, grammar.Begets word i j ∧ keep i = true) :
    grammar.expand (Word.kept keep word) = Word.kept keep' (grammar.expand word) := by
  induction word generalizing keep keep' with
  | nil => rfl
  | cons symbol word ih =>
      have hexpand : ∀ rest : Word,
          grammar.expand (symbol :: rest) = grammar.successor symbol ++ grammar.expand rest :=
        fun _ => rfl
      rw [hexpand, List.length_append] at h
      -- All symbols of the first successor have the first symbol for a parent.
      have hfirst : Word.kept keep' (grammar.successor symbol) =
          if keep 0 then grammar.successor symbol else [] := by
        rw [← Word.kept_const]
        apply Word.kept_congr
        intro j hj
        rw [Bool.eq_iff_iff, h j (Nat.lt_add_right _ hj)]
        constructor
        · rintro ⟨_ | i, hbegets, hkeep⟩
          · exact hkeep
          · exact absurd (begets_succ_iff.mp hbegets).1 (Nat.not_le_of_lt hj)
        · exact fun hkeep => ⟨0, begets_zero_iff.mpr hj, hkeep⟩
      have hrest : grammar.expand (Word.kept (fun i => keep (i + 1)) word) =
          Word.kept (fun j => keep' ((grammar.successor symbol).length + j))
            (grammar.expand word) := by
        apply ih
        intro j hj
        rw [h _ (Nat.add_lt_add_left hj _)]
        constructor
        · rintro ⟨_ | i, hbegets, hkeep⟩
          · have hlt := begets_zero_iff.mp hbegets
            omega
          · have hparent := (begets_succ_iff.mp hbegets).2
            rw [Nat.add_sub_cancel_left] at hparent
            exact ⟨i, hparent, hkeep⟩
        · rintro ⟨i, hbegets, hkeep⟩
          refine ⟨i + 1, begets_succ_iff.mpr ⟨Nat.le_add_right _ _, ?_⟩, hkeep⟩
          rwa [Nat.add_sub_cancel_left]
      rw [hexpand word, Word.kept_append, hfirst, ← hrest, Word.kept]
      split
      · rw [hexpand]
      · rw [List.nil_append]

end Expansion

/-- The symbol at a place of the word of a depth lies in the list, and so do all its
ancestors. -/
def Survives (grammar : Grammar) (symbols : List Char) (words : Nat → Word) (depth i : Nat) :
    Prop :=
  ∀ line, grammar.Lineage words depth i line →
    ∀ d ≤ depth, ∀ symbol ∈ (words d)[line d]?, symbol ∈ symbols

section Survivors

variable {grammar : Grammar} {symbols : List Char} {depth i : Nat}

theorem survives_zero_iff :
    grammar.Survives symbols grammar.wordAt 0 i ↔
      ∀ symbol ∈ (grammar.wordAt 0)[i]?, symbol ∈ symbols := by
  constructor
  · intro h
    exact h (fun _ => i) ⟨rfl, fun d hd => absurd hd (Nat.not_lt_zero d)⟩ 0 (Nat.le_refl 0)
  · rintro h line ⟨rfl, -⟩ d hd
    obtain rfl := Nat.le_zero.mp hd
    exact h

/-- A symbol survives exactly if its parent does and it lies in the list itself. -/
theorem survives_succ_iff {parent : Nat}
    (hbegets : grammar.Begets (grammar.wordAt depth) parent i) :
    grammar.Survives symbols grammar.wordAt (depth + 1) i ↔
      grammar.Survives symbols grammar.wordAt depth parent ∧
        ∀ symbol ∈ (grammar.wordAt (depth + 1))[i]?, symbol ∈ symbols := by
  constructor
  · intro h
    constructor
    · intro line hline d hd
      have hself := h _ (hline.prolong hbegets) d (Nat.le_succ_of_le hd)
      rwa [if_pos hd] at hself
    · obtain ⟨line, hline⟩ := grammar.exists_lineage hbegets.lt_length
      have hself := h _ (hline.prolong hbegets) (depth + 1) (Nat.le_refl _)
      rwa [if_neg (Nat.not_succ_le_self depth)] at hself
  · rintro ⟨hparent, hself⟩ line hline d hd
    obtain ⟨hbefore, hbegets'⟩ := hline.parent
    rcases Nat.lt_or_eq_of_le hd with hlt | rfl
    · rw [hbegets'.eq hbegets] at hbefore
      exact hparent line hbefore d (Nat.le_of_lt_succ hlt)
    · rw [hline.last]
      exact hself

open Classical in
/-- What is left of a word when symbols outside the list are dropped at every depth are the
symbols that survive, in their order. -/
theorem wordWithin_eq_kept (grammar : Grammar) (symbols : List Char) (depth : Nat) :
    grammar.wordWithin symbols depth =
      Word.kept (fun i => decide (grammar.Survives symbols grammar.wordAt depth i))
        (grammar.wordAt depth) := by
  have hany : ∀ {word : Word} {i : Nat}, i < word.length →
      (word[i]?.any (decide <| · ∈ symbols) = true ↔ ∀ symbol ∈ word[i]?, symbol ∈ symbols) := by
    intro word i hi
    simp [List.getElem?_eq_getElem hi]
  induction depth with
  | zero =>
      have hall := Word.kept_const true grammar.start
      rw [if_pos rfl] at hall
      rw [wordWithin, ← hall, Word.filter_kept]
      apply Word.kept_congr
      intro i hi
      rw [Bool.true_and, Bool.eq_iff_iff, hany hi, decide_eq_true_eq, survives_zero_iff]
      rfl
  | succ depth ih =>
      rw [wordWithin, ih]
      have hexpand :
          grammar.expand (Word.kept (fun i => decide (grammar.Survives symbols grammar.wordAt
            depth i)) (grammar.wordAt depth)) =
          Word.kept (fun j => decide (∃ i, grammar.Begets (grammar.wordAt depth) i j ∧
            grammar.Survives symbols grammar.wordAt depth i))
              (grammar.expand (grammar.wordAt depth)) :=
        expand_kept (by simp)
      rw [hexpand, Word.filter_kept]
      apply Word.kept_congr
      intro j hj
      obtain ⟨parent, hparent⟩ := exists_begets hj
      have honly : (∃ i, grammar.Begets (grammar.wordAt depth) i j ∧
          grammar.Survives symbols grammar.wordAt depth i) ↔
            grammar.Survives symbols grammar.wordAt depth parent := by
        constructor
        · rintro ⟨i, hbegets, hkeep⟩
          exact hbegets.eq hparent ▸ hkeep
        · exact fun hkeep => ⟨parent, hparent, hkeep⟩
      rw [Bool.eq_iff_iff, Bool.and_eq_true, hany hj, decide_eq_true_eq, decide_eq_true_eq, honly]
      exact (survives_succ_iff hparent).symm

end Survivors

end Grammar

namespace LSystem

open Classical in
/-- A prediction over some of the symbols always comes out.  If it is not flagged, it counts
the symbols of the derived word that lie among them with all their ancestors, and one vertex
more than these add. -/
theorem estimate_eq_survivors {system : LSystem} (hsystem : system.Reachable)
    (table : Interpretation) {symbols : List Char} (hascending : symbols.Pairwise (· < ·))
    (depth : Nat) :
    let survivors := Finset.univ.filter fun i : Fin (system.derivedAt depth).length =>
      system.grammar.Survives symbols system.derivedAt depth i
    (∀ i < (system.derivedAt depth).length,
      ∃ line, system.grammar.Lineage system.derivedAt depth i line) ∧
      ∃ estimate, Estimate.ofAlphabet system.grammar table symbols depth = .ok estimate ∧
        (estimate.overflow = false →
          estimate.symbols = survivors.card ∧
            estimate.vertices =
              1 + ∑ i ∈ survivors, table.yieldOf ((system.derivedAt depth).get i)) := by
  rw [hsystem.derivedAt_eq]
  intro survivors
  have hsum : ∀ weight : Char → Nat,
      ((system.grammar.wordWithin symbols depth).map weight).sum =
        ∑ i ∈ survivors, weight ((system.grammar.wordAt depth).get i) := by
    intro weight
    rw [Grammar.wordWithin_eq_kept, Word.sum_kept]
    simp only [decide_eq_true_eq]
    rfl
  obtain ⟨estimate, hestimate, hexact⟩ :=
    Estimate.ofAlphabet_exact system.grammar table hascending depth
  refine ⟨fun i => system.grammar.exists_lineage, estimate, hestimate, fun hclear => ?_⟩
  obtain ⟨hsymbols, hvertices⟩ := hexact hclear
  constructor
  · have hcount := hsum fun _ => 1
    rw [hsymbols]
    simpa using hcount
  · rw [hvertices, hsum]

open Classical in
/-- Of three forward moves one comes from a symbol that is not listed.  It is not counted,
although it is listed itself. -/
theorem estimate_eq_survivors_grafted :
    let system := (ofRules ['A', 'F'] [('A', ['B', 'F']), ('B', ['F'])] []).run [.produce 1]
    let table : Interpretation := .ofList [('F', .goForward)]
    let survivors := Finset.univ.filter fun i : Fin (system.derivedAt 2).length =>
      system.grammar.Survives ['A', 'F'] system.derivedAt 2 i
    system.Reachable ∧ ['A', 'F'].Pairwise (· < ·) ∧
      Estimate.ofAlphabet system.grammar table ['A', 'F'] 2 = .ok ⟨2, 3, false⟩ ∧
      system.derivedAt 2 = ['F', 'F', 'F'] ∧
      2 = survivors.card ∧
      3 = 1 + ∑ i ∈ survivors, table.yieldOf ((system.derivedAt 2).get i) ∧
      ¬ system.grammar.Survives ['A', 'F'] system.derivedAt 2 0 := by
  intro system table survivors
  have hreachable : system.Reachable := ⟨_, _, _, _, rfl⟩
  have hascending : ['A', 'F'].Pairwise (· < ·) := by decide
  have hvalue : Estimate.ofAlphabet system.grammar table ['A', 'F'] 2 =
      .ok ⟨2, 3, false⟩ := by
    decide +kernel
  have hword : system.derivedAt 2 = ['F', 'F', 'F'] := by decide +kernel
  obtain ⟨-, estimate, hestimate, hexact⟩ :=
    estimate_eq_survivors hreachable table hascending 2
  rw [hvalue] at hestimate
  obtain rfl := Except.ok.inj hestimate
  obtain ⟨hsymbols, hvertices⟩ := hexact rfl
  refine ⟨hreachable, hascending, hvalue, hword, ?_, ?_, ?_⟩
  · exact hsymbols
  · exact hvertices
  · intro hsurvives
    have hfirst : system.grammar.Begets (system.derivedAt 0) 0 0 :=
      ⟨by decide +kernel, by decide +kernel⟩
    have hsecond : system.grammar.Begets (system.derivedAt 1) 0 0 :=
      ⟨by decide +kernel, by decide +kernel⟩
    have hline : system.grammar.Lineage system.derivedAt 2 0 fun _ => 0 := by
      refine ⟨rfl, fun d hd => ?_⟩
      match d, hd with
      | 0, _ => exact hfirst
      | 1, _ => exact hsecond
    have hparent : (system.derivedAt 1)[0]? = some 'B' := by decide +kernel
    have hlisted := hsurvives _ hline 1 (by decide) 'B' hparent
    exact absurd hlisted (by decide)

end LSystem

end LineGrammar
