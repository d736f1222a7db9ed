/-
Journals of what happens to objects with rules and subscribers.  A journal of additions,
removals and other changes determines both the rules and the calls that subscribers have
received: the rule of a symbol is the last one added for it that nothing has taken away
since, and a subscriber is called once for each change from its joining on, up to the moment
at which a copy leaves it behind.
-/
import LineGrammar.Listeners
import LineGrammar.RuleTable

namespace LineGrammar

/-- What happens to an object.  A change other than of its rules is told as well; what is
quiet changes nothing and is told to nobody. -/
inductive Event (V : Type) where
  | added (symbol : Char) (value : V)
  | removed (symbol : Char)
  | cleared
  | changed
  | joined
  | copied
  | quiet

namespace Event

variable {V : Type}

def isChange : Event V → Bool
  | added _ _ | removed _ | cleared | changed => true
  | joined | copied | quiet => false

def isCopy : Event V → Bool
  | copied => true
  | added _ _ | removed _ | cleared | changed | joined | quiet => false

/-- Whether the rule of a symbol does not depend on what was before. -/
def Settles (symbol : Char) : Event V → Prop
  | added other _ | removed other => other = symbol
  | cleared => True
  | changed | joined | copied | quiet => False

def apply (table : RuleTable V) : Event V → RuleTable V
  | added symbol value => table.insert symbol value
  | removed symbol => table.erase symbol
  | cleared => .empty
  | changed | joined | copied | quiet => table

/-- The subscribers after an event. -/
def hear (listeners : Listeners) : Event V → Listeners
  | added _ _ | removed _ | cleared | changed => listeners.notify
  | joined => listeners.subscribe
  | copied => listeners.leave
  | quiet => listeners

/-- A symbol has a rule if it has just been added, or if it had the rule before. -/
theorem get?_apply_eq_some_iff (event : Event V) (table : RuleTable V) (symbol : Char)
    (value : V) :
    (event.apply table).get? symbol = some value ↔
      event = added symbol value ∨ (¬ event.Settles symbol ∧ table.get? symbol = some value) := by
  cases event with
  | added other other' =>
      by_cases h : other = symbol <;> simp [apply, Settles, RuleTable.get?_insert, h]
  | removed other =>
      by_cases h : other = symbol <;> simp [apply, Settles, RuleTable.get?_erase, h]
  | cleared => simp [apply, Settles]
  | changed => simp [apply, Settles]
  | joined => simp [apply, Settles]
  | copied => simp [apply, Settles]
  | quiet => simp [apply, Settles]

end Event

namespace Journal

variable {V : Type}

/-- The rules that a journal leads to. -/
def table (journal : List (Event V)) : RuleTable V :=
  journal.foldl Event.apply .empty

def listeners (journal : List (Event V)) : Listeners :=
  journal.foldl Event.hear .empty

/-- The changes of a journal up to the next copy. -/
def changes (journal : List (Event V)) : Nat :=
  (journal.takeWhile fun event => !event.isCopy).countP Event.isChange

/-- The calls that each subscriber receives: one for every change after its joining. -/
def calls : List (Event V) → List Nat
  | [] => []
  | .joined :: rest => changes rest :: calls rest
  | _ :: rest => calls rest

/-- A symbol has the rule that was added last, if nothing has settled it since. -/
theorem get?_foldl_apply_eq_some_iff (journal : List (Event V)) (table : RuleTable V)
    (symbol : Char) (value : V) :
    (journal.foldl Event.apply table).get? symbol = some value ↔
      (∃ before after, journal = before ++ .added symbol value :: after ∧
        ∀ event ∈ after, ¬ event.Settles symbol) ∨
      (table.get? symbol = some value ∧ ∀ event ∈ journal, ¬ event.Settles symbol) := by
  induction journal generalizing table with
  | nil => simp
  | cons event rest ih =>
      rw [List.foldl_cons, ih, Event.get?_apply_eq_some_iff, List.forall_mem_cons]
      constructor
      · rintro (⟨before, after, rfl, hafter⟩ | ⟨rfl | ⟨hevent, htable⟩, hrest⟩)
        · exact .inl ⟨event :: before, after, rfl, hafter⟩
        · exact .inl ⟨[], rest, rfl, hrest⟩
        · exact .inr ⟨htable, hevent, hrest⟩
      · rintro (⟨before, after, hjournal, hafter⟩ | ⟨htable, hevent, hrest⟩)
        · -- The addition is the event at hand, or one of those that follow.
          rcases List.cons_eq_append_iff.mp hjournal with ⟨-, hnow⟩ | ⟨before, -, hlater⟩
          · obtain ⟨hevent, rfl⟩ := List.cons.inj hnow
            exact .inr ⟨.inl hevent.symm, hafter⟩
          · exact .inl ⟨before, after, hlater, hafter⟩
        · exact .inr ⟨.inr ⟨hevent, htable⟩, hrest⟩

theorem get?_table_eq_some_iff (journal : List (Event V)) (symbol : Char) (value : V) :
    (table journal).get? symbol = some value ↔
      ∃ before after, journal = before ++ .added symbol value :: after ∧
        ∀ event ∈ after, ¬ event.Settles symbol := by
  rw [table, get?_foldl_apply_eq_some_iff, RuleTable.get?_empty]
  simp

theorem changes_cons (event : Event V) (rest : List (Event V)) :
    changes (event :: rest) =
      if event.isCopy then 0 else changes rest + if event.isChange then 1 else 0 := by
  rw [changes, List.takeWhile_cons]
  cases hcopy : event.isCopy <;> simp [changes, List.countP_cons]

/-- Who has joined before hears the changes up to the next copy, and whoever joins hears the
changes from then on. -/
theorem calls_foldl_hear (journal : List (Event V)) (listeners : Listeners) :
    (journal.foldl Event.hear listeners).calls =
      listeners.former ++ listeners.current.map (· + changes journal) ++ calls journal := by
  induction journal generalizing listeners with
  | nil => simp [changes, calls, Listeners.calls]
  | cons event rest ih =>
      rw [List.foldl_cons, ih, changes_cons]
      cases event <;>
        simp [Event.hear, Event.isCopy, Event.isChange, Listeners.notify, Listeners.subscribe,
          Listeners.leave, Listeners.calls, calls, Nat.succ_add_eq_add_succ]

theorem calls_listeners (journal : List (Event V)) : (listeners journal).calls = calls journal := by
  rw [listeners, calls_foldl_hear]
  rfl

def ofRules (rules : List (Char × V)) : List (Event V) :=
  rules.map fun rule => .added rule.1 rule.2

theorem table_ofRules (rules : List (Char × V)) : table (ofRules rules) = .ofList rules :=
  List.foldl_map

/-- Nobody hears of the first rules. -/
theorem listeners_ofRules (rules : List (Char × V)) : listeners (ofRules rules) = .empty := by
  rw [listeners, ofRules, List.foldl_map]
  induction rules with
  | nil => rfl
  | cons rule rest ih => exact ih

end Journal

end LineGrammar
