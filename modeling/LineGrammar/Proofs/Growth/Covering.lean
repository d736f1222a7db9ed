/-
Predictions over more symbols than are met.  A symbol outside the alphabet has no rule, so
it stays as it is through all depths and adds nothing to any number.  A prediction is
therefore the same over every list that holds the whole alphabet, and is flagged for the
same reasons.
-/
import LineGrammar.Proofs.Growth.Counting

namespace LineGrammar

namespace Grammar

section Strangers

variable {grammar : Grammar} {table : Interpretation} {symbols : List Char}

/-- A symbol outside the alphabet stays as it is. -/
theorem successor_of_not_mem_alphabet {symbol : Char}
    (h : symbol ∉ grammar.alphabet table) : grammar.successor symbol = [symbol] := by
  rw [successor]
  cases hrule : grammar.rules.get? symbol with
  | none => rfl
  | some successor =>
      have hentry := RuleTable.mem_entries_of_get? hrule
      exact absurd ((mem_alphabet grammar table symbol).mpr
        (Or.inr (Or.inl ⟨(symbol, successor), hentry, Or.inl rfl⟩))) h

theorem iterate_expand_of_not_mem_alphabet {symbol : Char}
    (h : symbol ∉ grammar.alphabet table) (steps : Nat) :
    grammar.expand^[steps] [symbol] = [symbol] := by
  apply Function.iterate_fixed
  simp [expand, successor_of_not_mem_alphabet h]

/-- A list that holds the alphabet covers the grammar. -/
theorem covers_of_alphabet_subset
    (h : ∀ symbol ∈ grammar.alphabet table, symbol ∈ symbols) : grammar.Covers symbols := by
  have hcovers := grammar.covers_alphabet table
  constructor
  · exact fun symbol hsymbol => h symbol (hcovers.1 symbol hsymbol)
  · intro parent hparent symbol hsymbol
    by_cases hmet : parent ∈ grammar.alphabet table
    · exact h symbol (hcovers.2 parent hmet symbol hsymbol)
    · rw [successor_of_not_mem_alphabet hmet, List.mem_singleton] at hsymbol
      exact hsymbol ▸ hparent

/-- Only a symbol of the alphabet can turn into a word with too many symbols to count. -/
theorem large_descent_iff (h : ∀ symbol ∈ grammar.alphabet table, symbol ∈ symbols)
    (steps : Nat) :
    (∃ parent ∈ symbols, ∃ symbol,
        UInt64.size ≤ (grammar.expand^[steps] [parent]).count symbol) ↔
      ∃ parent ∈ (grammar.alphabet table).members, ∃ symbol,
        UInt64.size ≤ (grammar.expand^[steps] [parent]).count symbol := by
  constructor
  · rintro ⟨parent, -, symbol, hlarge⟩
    by_cases hmet : parent ∈ grammar.alphabet table
    · exact ⟨parent, hmet, symbol, hlarge⟩
    · have hone : 1 < UInt64.size := by decide
      have hfew : List.count symbol [parent] ≤ 1 := List.count_le_length
      rw [iterate_expand_of_not_mem_alphabet hmet] at hlarge
      omega
  · rintro ⟨parent, hparent, hlarge⟩
    exact ⟨parent, h parent hparent, hlarge⟩

end Strangers

end Grammar

namespace Estimate

/-- A flagged prediction tells nothing else. -/
theorem eq_tooLarge {grammar : Grammar} {table : Interpretation} {symbols : List Char}
    (hascending : symbols.Pairwise (· < ·)) {depth : Nat} {estimate : Estimate}
    (hestimate : ofAlphabet grammar table symbols depth = .ok estimate)
    (hflag : estimate.overflow = true) : estimate = tooLarge := by
  obtain ⟨counts, drawn, -, -, -, -, hresult⟩ := ofAlphabet_eq grammar table hascending depth
  rw [hresult] at hestimate
  split at hestimate
  · exact (Except.ok.inj hestimate).symm
  · rw [← Except.ok.inj hestimate] at hflag
    cases hflag

end Estimate

namespace Grammar

/-- A prediction is the same over every ascending list that holds the alphabet. -/
theorem estimate_eq_ofAlphabet {grammar : Grammar} {table : Interpretation}
    {symbols : List Char} (hascending : symbols.Pairwise (· < ·))
    (hall : ∀ symbol ∈ grammar.alphabet table, symbol ∈ symbols) (depth : Nat) :
    ∃ estimate, grammar.estimate table depth = .ok estimate ∧
      Estimate.ofAlphabet grammar table symbols depth = .ok estimate := by
  have hcovers := covers_of_alphabet_subset hall
  obtain ⟨estimate, hestimate, hexact⟩ := grammar.estimate_exact table depth
  obtain ⟨other, hother, hexact'⟩ := Estimate.ofAlphabet_exact grammar table hascending depth
  rw [hcovers.wordWithin_eq] at hexact'
  have hflags : estimate.overflow = true ↔ other.overflow = true := by
    rw [Estimate.ofAlphabet_overflow_iff table (grammar.alphabet table).ascending
      (grammar.covers_alphabet table) hestimate,
      Estimate.ofAlphabet_overflow_iff table hascending hcovers hother]
    simp only [large_descent_iff hall]
  have hsame : other = estimate := by
    cases hflag : estimate.overflow with
    | true =>
        rw [Estimate.eq_tooLarge (grammar.alphabet table).ascending hestimate hflag,
          Estimate.eq_tooLarge hascending hother (hflags.mp hflag)]
    | false =>
        have hclear : other.overflow = false := by
          rw [Bool.eq_false_iff, ne_eq, ← hflags, hflag]
          exact Bool.false_ne_true
        obtain ⟨hsymbols, hvertices⟩ := hexact hflag
        obtain ⟨hsymbols', hvertices'⟩ := hexact' hclear
        cases other
        cases estimate
        simp_all
  exact ⟨estimate, hestimate, hsame ▸ hother⟩

/-- Two symbols that are never met stand before and between the others.  They change neither
a prediction that fits nor one that does not. -/
theorem estimate_eq_ofAlphabet_strangers :
    let grammar : Grammar := ⟨['F'], .ofList [('F', ['F', '+', 'F'])], .empty⟩
    let table : Interpretation := .ofList [('F', .goForward), ('+', .turnRight)]
    ['!', '+', 'A', 'F'].Pairwise (· < ·) ∧
      (∀ symbol ∈ grammar.alphabet table, symbol ∈ ['!', '+', 'A', 'F']) ∧
      Estimate.ofAlphabet grammar table ['!', '+', 'A', 'F'] 3 = .ok ⟨15, 9, false⟩ ∧
      Estimate.ofAlphabet grammar table ['!', '+', 'A', 'F'] 64 = .ok .tooLarge := by
  intro grammar table
  have hascending : ['!', '+', 'A', 'F'].Pairwise (· < ·) := by decide
  have hall : ∀ symbol ∈ grammar.alphabet table, symbol ∈ ['!', '+', 'A', 'F'] := by
    have hmembers : (grammar.alphabet table).members = ['+', 'F'] := by decide +kernel
    change ∀ symbol ∈ (grammar.alphabet table).members, _
    rw [hmembers]
    simp
  have hfits : grammar.estimate table 3 = .ok ⟨15, 9, false⟩ := by decide +kernel
  have hlarge : grammar.estimate table 64 = .ok .tooLarge := by decide +kernel
  obtain ⟨fitting, hfitting, hother⟩ := estimate_eq_ofAlphabet hascending hall 3
  obtain ⟨flagged, hflagged, hother'⟩ := estimate_eq_ofAlphabet hascending hall 64
  refine ⟨hascending, hall, ?_, ?_⟩
  · rw [hother, ← hfitting, hfits]
  · rw [hother', ← hflagged, hlarge]

end Grammar

end LineGrammar
