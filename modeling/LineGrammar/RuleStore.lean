/-
A table that tells its subscribers about every change.
-/
import LineGrammar.Fault
import LineGrammar.Listeners
import LineGrammar.RuleTable

namespace LineGrammar

/-- A table together with the subscribers to its changes. -/
structure RuleStore (V : Type u) where
  table : RuleTable V
  listeners : Listeners

namespace RuleStore

variable {V : Type u}

def ofTable (table : RuleTable V) : RuleStore V :=
  ⟨table, .empty⟩

/-- Give a symbol a value; the result is the value that was replaced. -/
def add (store : RuleStore V) (symbol : Char) (value : V) : Option V × RuleStore V :=
  (store.table.get? symbol, ⟨store.table.insert symbol value, store.listeners.notify⟩)

/-- Take away a symbol's value, which is the result.  A symbol without one is
refused, and nobody is told. -/
def remove (store : RuleStore V) (symbol : Char) : Except Fault (V × RuleStore V) :=
  match store.table.get? symbol with
  | none => .error (.missingRule symbol)
  | some value => .ok (value, ⟨store.table.erase symbol, store.listeners.notify⟩)

def clear (store : RuleStore V) : RuleStore V :=
  ⟨.empty, store.listeners.notify⟩

/-- Tell the subscribers of a change that is not in the table. -/
def notify (store : RuleStore V) : RuleStore V :=
  { store with listeners := store.listeners.notify }

def subscribe (store : RuleStore V) : RuleStore V :=
  { store with listeners := store.listeners.subscribe }

/-- Go on with a copy, which has no subscribers of its own. -/
def copy (store : RuleStore V) : RuleStore V :=
  { store with listeners := store.listeners.leave }

theorem remove_eq_error_iff (store : RuleStore V) (symbol : Char) (fault : Fault) :
    store.remove symbol = .error fault ↔
      store.table.get? symbol = none ∧ fault = .missingRule symbol := by
  unfold remove
  cases store.table.get? symbol <;> simp [eq_comm]

theorem remove_eq_ok_iff (store : RuleStore V) (symbol : Char) (value : V)
    (changed : RuleStore V) :
    store.remove symbol = .ok (value, changed) ↔
      store.table.get? symbol = some value ∧
        changed = ⟨store.table.erase symbol, store.listeners.notify⟩ := by
  unfold remove
  cases store.table.get? symbol <;> simp [eq_comm]

end RuleStore

end LineGrammar
