/-
Runs of operations on objects with rules.  Objects are copied on the way, and operations
address any of them.  Each object keeps to its own journal: what happens to one is neither
seen by another nor told to the subscribers of another.
-/
import LineGrammar.Proofs.LSystem.History
import LineGrammar.Proofs.Rules.Journal
import LineGrammar.RuleStore

namespace LineGrammar

/-- A kind of objects with rules and subscribers, the operations on them, and what each
operation turns out to be: rules and subscribers follow what happens. -/
structure Ruled (S O V : Type) where
  table : S → RuleTable V
  listeners : S → Listeners
  perform : S → O → S
  event : S → O → Event V
  table_perform : ∀ object operation,
    table (perform object operation) = (event object operation).apply (table object)
  listeners_perform : ∀ object operation,
    listeners (perform object operation) = (event object operation).hear (listeners object)

/-- An object with its journal.  That of a copy begins with the journal of the original. -/
structure Traced (S V : Type) where
  object : S
  journal : List (Event V)

namespace Ruled

variable {S O V : Type} (kind : Ruled S O V)

def advance (traced : Traced S V) (operation : O) : Traced S V :=
  ⟨kind.perform traced.object operation,
    traced.journal ++ [kind.event traced.object operation]⟩

/-- Objects after an operation on the one at a place.  A copy is put behind the others, and
the original stays as it is. -/
def step (family : List (Traced S V)) (place : Nat) (operation : O) : List (Traced S V) :=
  match family[place]? with
  | none => family
  | some traced =>
      if (kind.event traced.object operation).isCopy then
        family ++ [kind.advance traced operation]
      else family.set place (kind.advance traced operation)

/-- Objects after some operations, each on the object at some place. -/
def run (family : List (Traced S V)) (steps : List (Nat × O)) : List (Traced S V) :=
  steps.foldl (fun family step => kind.step family step.1 step.2) family

/-- An object is what its journal leads to. -/
structure Follows (traced : Traced S V) : Prop where
  table_eq : kind.table traced.object = Journal.table traced.journal
  listeners_eq : kind.listeners traced.object = Journal.listeners traced.journal

/-- What an object tells of its journal: a symbol has the rule added last, unless something
has settled it since; the symbols with a rule are listed in ascending order; and each
subscriber has been called once for every change since it joined, up to the next copy. -/
structure Tells (traced : Traced S V) : Prop where
  get?_eq_some_iff : ∀ symbol value, (kind.table traced.object).get? symbol = some value ↔
    ∃ before after, traced.journal = before ++ .added symbol value :: after ∧
      ∀ event ∈ after, ¬ event.Settles symbol
  symbols_ascending : (kind.table traced.object).symbols.Pairwise (· < ·)
  mem_symbols_iff : ∀ symbol, symbol ∈ (kind.table traced.object).symbols ↔
    ((kind.table traced.object).get? symbol).isSome
  calls_eq : (kind.listeners traced.object).calls = Journal.calls traced.journal

variable {kind}

theorem Follows.tells {traced : Traced S V} (h : kind.Follows traced) : kind.Tells traced where
  get?_eq_some_iff symbol value := by
    rw [h.table_eq]
    exact Journal.get?_table_eq_some_iff traced.journal symbol value
  symbols_ascending := List.pairwise_map.mpr (kind.table traced.object).ascending
  mem_symbols_iff := RuleTable.mem_symbols_iff _
  calls_eq := by rw [h.listeners_eq, Journal.calls_listeners]

theorem Follows.advance {traced : Traced S V} (h : kind.Follows traced) (operation : O) :
    kind.Follows (kind.advance traced operation) where
  table_eq := by
    rw [Ruled.advance, kind.table_perform, h.table_eq, Journal.table, Journal.table,
      List.foldl_append]
    rfl
  listeners_eq := by
    rw [Ruled.advance, kind.listeners_perform, h.listeners_eq, Journal.listeners,
      Journal.listeners, List.foldl_append]
    rfl

theorem follows_step {family : List (Traced S V)} (h : ∀ traced ∈ family, kind.Follows traced)
    (place : Nat) (operation : O) :
    ∀ traced ∈ kind.step family place operation, kind.Follows traced := by
  intro traced htraced
  unfold step at htraced
  split at htraced
  · exact h traced htraced
  · next original horiginal =>
      have hnext := (h original (List.mem_of_getElem? horiginal)).advance operation
      split at htraced
      · rcases List.mem_append.mp htraced with hmem | hmem
        · exact h traced hmem
        · rw [List.mem_singleton.mp hmem]
          exact hnext
      · rcases List.mem_or_eq_of_mem_set htraced with hmem | rfl
        · exact h traced hmem
        · exact hnext

/-- Whatever is done to them, all objects keep to their journals. -/
theorem follows_run {family : List (Traced S V)} (h : ∀ traced ∈ family, kind.Follows traced)
    (steps : List (Nat × O)) : ∀ traced ∈ kind.run family steps, kind.Follows traced := by
  induction steps generalizing family with
  | nil => exact h
  | cons step steps ih => exact ih (follows_step h step.1 step.2)

end Ruled

namespace RuleStore

inductive Operation (V : Type) where
  | add (symbol : Char) (value : V)
  | remove (symbol : Char)
  | clear
  | subscribe
  | copy

variable {V : Type}

/-- The table after an operation.  One that is refused leaves it as it was. -/
def perform (store : RuleStore V) : Operation V → RuleStore V
  | .add symbol value => (store.add symbol value).2
  | .remove symbol =>
      match store.remove symbol with
      | .ok (_, changed) => changed
      | .error _ => store
  | .clear => store.clear
  | .subscribe => store.subscribe
  | .copy => store.copy

/-- What an operation turns out to be.  A removal that is refused is quiet. -/
def event (store : RuleStore V) : Operation V → Event V
  | .add symbol value => .added symbol value
  | .remove symbol =>
      match store.remove symbol with
      | .ok _ => .removed symbol
      | .error _ => .quiet
  | .clear => .cleared
  | .subscribe => .joined
  | .copy => .copied

theorem perform_eq (store : RuleStore V) (operation : Operation V) :
    store.perform operation =
      ⟨(store.event operation).apply store.table,
        (store.event operation).hear store.listeners⟩ := by
  cases operation with
  | remove symbol =>
      simp only [perform, event, remove]
      cases store.table.get? symbol <;> rfl
  | add symbol value => rfl
  | clear => rfl
  | subscribe => rfl
  | copy => rfl

def ruled : Ruled (RuleStore V) (Operation V) V where
  table := table
  listeners := listeners
  perform := perform
  event := event
  table_perform store operation := by rw [perform_eq]
  listeners_perform store operation := by rw [perform_eq]

def opening (rules : List (Char × V)) : Traced (RuleStore V) V :=
  ⟨.ofTable (.ofList rules), Journal.ofRules rules⟩

theorem follows_opening (rules : List (Char × V)) : ruled.Follows (opening rules) where
  table_eq := (Journal.table_ofRules rules).symm
  listeners_eq := (Journal.listeners_ofRules rules).symm

/-- What operations on rules answer: an addition the rule it replaces, a removal the one it
takes away.  A removal is refused exactly if there is no rule, names the symbol, and then
leaves everything as it is. -/
structure Answers (store : RuleStore V) : Prop where
  add_fst : ∀ symbol value, (store.add symbol value).1 = store.table.get? symbol
  remove_fst : ∀ symbol value changed, store.remove symbol = .ok (value, changed) →
    store.table.get? symbol = some value
  remove_refused : ∀ symbol fault, store.remove symbol = .error fault ↔
    store.table.get? symbol = none ∧ fault = .missingRule symbol
  perform_refused : ∀ symbol, store.table.get? symbol = none →
    store.perform (.remove symbol) = store ∧ store.event (.remove symbol) = .quiet

theorem answers (store : RuleStore V) : store.Answers where
  add_fst symbol value := rfl
  remove_fst symbol value changed h := ((store.remove_eq_ok_iff symbol value changed).mp h).1
  remove_refused := store.remove_eq_error_iff
  perform_refused symbol h := by
    simp [perform, event, remove, h]

end RuleStore

namespace LSystem

/-- What an operation turns out to be.  Deriving is quiet, and so is a removal that is
refused. -/
def event (system : LSystem) : Operation → Event Word
  | .produce _ | .produceWord _ => .quiet
  | .setStart _ | .setFlags _ => .changed
  | .addRule symbol successor => .added symbol successor
  | .removeRule symbol =>
      match system.removeRule symbol with
      | .ok _ => .removed symbol
      | .error _ => .quiet
  | .clearRules => .cleared
  | .subscribe => .joined
  | .copy => .copied

/-- The store of the rules keeps to the events of the system. -/
theorem rules_perform (system : LSystem) (operation : Operation) :
    (system.perform operation).rules =
      ⟨(system.event operation).apply system.rules.table,
        (system.event operation).hear system.rules.listeners⟩ := by
  cases operation with
  | produce depth => exact rules_produce system depth
  | produceWord depth => exact rules_produceWord system depth
  | removeRule symbol =>
      have hstore := system.rules.perform_eq (.remove symbol)
      simp only [RuleStore.perform, RuleStore.event] at hstore
      simp only [perform, event, removeRule]
      cases hremoved : system.rules.remove symbol with
      | error fault => rfl
      | ok removed =>
          rw [hremoved] at hstore
          exact hstore
  | setStart start => rfl
  | addRule symbol successor => rfl
  | clearRules => rfl
  | setFlags flags => rfl
  | subscribe => rfl
  | copy => rfl

def ruled : Ruled LSystem Operation Word where
  table system := system.grammar.rules
  listeners := listeners
  perform := perform
  event := event
  table_perform system operation := congrArg RuleStore.table (rules_perform system operation)
  listeners_perform system operation :=
    congrArg RuleStore.listeners (rules_perform system operation)

def opening (start : Word) (rules : List (Char × Word)) (flags : List Char) :
    Traced LSystem Word :=
  ⟨.ofRules start rules flags, Journal.ofRules rules⟩

theorem follows_opening (start : Word) (rules : List (Char × Word)) (flags : List Char) :
    ruled.Follows (opening start rules flags) where
  table_eq := (Journal.table_ofRules rules).symm
  listeners_eq := (Journal.listeners_ofRules rules).symm

/-- What removals answer: the rule taken away.  They are refused exactly if there is none,
name the symbol, and then leave everything as it is, derivations included. -/
structure Answers (system : LSystem) : Prop where
  removeRule_fst : ∀ symbol successor changed,
    system.removeRule symbol = .ok (successor, changed) →
      system.grammar.rules.get? symbol = some successor
  removeRule_refused : ∀ symbol fault, system.removeRule symbol = .error fault ↔
    system.grammar.rules.get? symbol = none ∧ fault = .missingRule symbol
  perform_refused : ∀ symbol, system.grammar.rules.get? symbol = none →
    system.perform (.removeRule symbol) = system ∧ system.event (.removeRule symbol) = .quiet

theorem answers (system : LSystem) : system.Answers where
  removeRule_fst symbol successor changed h := by
    obtain ⟨rules, hremoved, -⟩ := (system.removeRule_eq_ok_iff symbol successor changed).mp h
    exact ((system.rules.remove_eq_ok_iff symbol successor rules).mp hremoved).1
  removeRule_refused := system.removeRule_eq_error_iff
  perform_refused symbol h := by
    have hrefused := (system.removeRule_eq_error_iff symbol _).mpr ⟨h, rfl⟩
    exact ⟨perform_removeRule_of_none h, by simp only [event, hrefused]⟩

end LSystem

/-- Whatever is done to a table with subscribers or to a system, and to copies of them, each
of them tells what its own journal says, and answers by the rules it has. -/
theorem tells_of_mem_run :
    (∀ (V : Type) (rules : List (Char × V)) (steps : List (Nat × RuleStore.Operation V)),
      ∀ traced ∈ RuleStore.ruled.run [RuleStore.opening rules] steps,
        RuleStore.ruled.Tells traced ∧ traced.object.Answers) ∧
    (∀ (start : Word) (rules : List (Char × Word)) (flags : List Char)
      (steps : List (Nat × LSystem.Operation)),
      ∀ traced ∈ LSystem.ruled.run [LSystem.opening start rules flags] steps,
        LSystem.ruled.Tells traced ∧ traced.object.Answers) := by
  constructor
  · intro V rules steps traced htraced
    have hopening : ∀ first ∈ [RuleStore.opening rules], RuleStore.ruled.Follows first :=
      List.forall_mem_singleton.mpr (RuleStore.follows_opening rules)
    exact ⟨(Ruled.follows_run hopening steps traced htraced).tells, traced.object.answers⟩
  · intro start rules flags steps traced htraced
    have hopening : ∀ first ∈ [LSystem.opening start rules flags], LSystem.ruled.Follows first :=
      List.forall_mem_singleton.mpr (LSystem.follows_opening start rules flags)
    exact ⟨(Ruled.follows_run hopening steps traced htraced).tells, traced.object.answers⟩

/-- A table with a subscriber and its copy: a removal is refused, then the copy gets another
rule and the original loses its own. -/
def forked : List (Traced (RuleStore Nat) Nat) :=
  RuleStore.ruled.run [RuleStore.opening [('A', 1)]]
    [(0, .subscribe), (0, .remove 'B'), (0, .copy), (1, .add 'A' 2), (0, .remove 'A')]

/-- The subscriber has been called once, and nobody has heard of the rule of the copy. -/
theorem tells_forked :
    ∃ original copied, forked = [original, copied] ∧
      (original.object.table.get? 'A' = none ∧ original.object.listeners.calls = [1] ∧
        RuleStore.ruled.Tells original) ∧
      (copied.object.table.get? 'A' = some 2 ∧ copied.object.listeners.calls = [0] ∧
        RuleStore.ruled.Tells copied) := by
  have htells : ∀ traced ∈ forked, RuleStore.ruled.Tells traced := fun traced htraced =>
    (tells_of_mem_run.1 Nat _ _ traced htraced).1
  exact ⟨_, _, rfl, ⟨rfl, rfl, htells _ (.head _)⟩, rfl, rfl, htells _ (.tail _ (.head _))⟩

end LineGrammar
