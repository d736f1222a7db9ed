/-
Subscribers to the changes of one object, seen through the number of times each
has been called.
-/

namespace LineGrammar

/-- Calls received so far, subscriber by subscriber in the order of joining.
`former` belongs to earlier instances of the object, which hear nothing more;
`current` hears every change. -/
structure Listeners where
  former : List Nat
  current : List Nat
deriving DecidableEq, Repr

namespace Listeners

def empty : Listeners := ⟨[], []⟩

/-- The calls of every subscriber that ever joined. -/
def calls (listeners : Listeners) : List Nat :=
  listeners.former ++ listeners.current

def subscribe (listeners : Listeners) : Listeners :=
  { listeners with current := listeners.current ++ [0] }

/-- Call every current subscriber once. -/
def notify (listeners : Listeners) : Listeners :=
  { listeners with current := listeners.current.map (· + 1) }

/-- A copied object starts without subscribers; those of the object it was
copied from stay behind. -/
def leave (listeners : Listeners) : Listeners :=
  ⟨listeners.calls, []⟩

end Listeners

end LineGrammar
