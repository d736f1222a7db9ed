/-
Changes of a state that may be refused on the way.  What has been written by then stays.
-/
import LineGrammar.Fault

namespace LineGrammar

/-- A change of a state, with a result unless it is refused. -/
abbrev Change (S A : Type) := ExceptT Fault (StateM S) A

namespace Change

variable {S A B : Type}

/-- The result of a change, or the fault for which it is refused. -/
def outcome (change : Change S A) (state : S) : Except Fault A :=
  (change.run.run state).1

/-- The state that a change leaves, whatever comes of it. -/
def after (change : Change S A) (state : S) : S :=
  (change.run.run state).2

/-- What follows a change goes on from the state that it leaves, unless it was refused. -/
theorem run_bind (change : Change S A) (rest : A → Change S B) (state : S) :
    (change >>= rest).run.run state =
      match change.run.run state with
      | (.error fault, state') => (.error fault, state')
      | (.ok value, state') => (rest value).run.run state' := by
  rw [ExceptT.run_bind, StateT.run_bind]
  rcases change.run.run state with ⟨fault | value, state'⟩ <;> rfl

/-- A step that is refused leaves the state as it was. -/
theorem run_liftM_bind (step : Except Fault A) (rest : A → Change S B) (state : S) :
    ((liftM step : Change S A) >>= rest).run.run state =
      match step with
      | .error fault => (.error fault, state)
      | .ok value => (rest value).run.run state := by
  rw [run_bind]
  cases step <;> rfl

theorem run_get_bind (rest : S → Change S B) (state : S) :
    (get >>= rest).run.run state = (rest state).run.run state :=
  rfl

end Change

end LineGrammar
