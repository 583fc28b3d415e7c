/-
Module: Riegeli.Library.Ending
Purpose: What a run of a method ends in, as a value and a state or as a failure
  and a state, with a rule for each way methods are put together.
Trusted boundary: none
Main exports: Ends, Ends.bind, Ends.mono, Ends.get_bind, Ends.lift_bind
-/
import Riegeli.Library.Action
import Riegeli.Library.Contract

namespace Riegeli

variable {State Failure Value Result : Type} {failed : Failure → State → Prop}

/-- The run ends in a value and a state with the second property, or in a failure
and a state with the first. -/
def Ends (failed : Failure → State → Prop) (run : Except Failure Value × State)
    (after : Value → State → Prop) : Prop :=
  match run with
  | (.ok value, next) => after value next
  | (.error failure, next) => failed failure next

namespace Ends

variable {run : Except Failure Value × State} {first : Act State Failure Value}
  {second : Value → Act State Failure Result} {state next : State} {value : Value}
  {failure : Failure} {middle after : Value → State → Prop} {final : Result → State → Prop}

theorem ok (holds : after value next) : Ends failed (.ok value, next) after := holds

theorem error (allowed : failed failure next) : Ends failed (.error failure, next) after := allowed

/-- What holds of the end of a run that has a value. -/
theorem of_ok (ends : Ends failed run after) (ran : run = (.ok value, next)) : after value next := by
  rw [ran] at ends
  exact ends

theorem mono (ends : Ends failed run middle)
    (weaker : ∀ value next, middle value next → after value next) : Ends failed run after := by
  obtain ⟨outcome, next⟩ := run
  cases outcome with
  | ok value => exact weaker value next ends
  | error failure => exact ends

/-- What comes after may rely on how what came before has ended. -/
theorem bind (begins : Ends failed (first state) middle)
    (rest : ∀ value next, middle value next → Ends failed (second value next) final) :
    Ends failed ((first >>= second) state) final := by
  rw [Act.bind_run]
  cases ran : first state with
  | mk outcome next =>
      rw [ran] at begins
      cases outcome with
      | ok value => exact rest value next begins
      | error failure => exact begins

/-- Reading the state first. -/
theorem get_bind {rest : State → Act State Failure Result}
    (ends : Ends failed (rest state state) final) :
    Ends failed ((Act.get >>= rest) state) final := ends

/-- Updating the state first. -/
theorem modify_bind {update : State → State} {rest : Unit → Act State Failure Result}
    (ends : Ends failed (rest () (update state)) final) :
    Ends failed ((Act.modify update >>= rest) state) final := ends

/-- A computation that does not use the state. -/
theorem lift {raised : Failure → Prop} {call : Except Failure Value} {post : Value → Prop}
    (meets : Meets raised call post) (allowed : ∀ failure, raised failure → failed failure state) :
    Ends failed (Act.lift call state) fun value next => next = state ∧ post value := by
  rw [Act.lift_run]
  cases call with
  | ok value => exact ⟨rfl, meets⟩
  | error failure => exact allowed failure meets

/-- A computation that does not use the state first. -/
theorem lift_bind {raised : Failure → Prop} {call : Except Failure Value} {post : Value → Prop}
    (meets : Meets raised call post) (allowed : ∀ failure, raised failure → failed failure state)
    (rest : ∀ value, post value → Ends failed (second value state) final) :
    Ends failed ((Act.lift call >>= second) state) final := by
  refine bind (lift meets allowed) fun value next ended => ?_
  rw [ended.1]
  exact rest value ended.2

theorem ite {condition : Prop} [Decidable condition] {other : Act State Failure Value}
    (yes : condition → Ends failed (first state) after)
    (no : ¬ condition → Ends failed (other state) after) :
    Ends failed ((if condition then first else other) state) after := by
  split
  · rename_i holds
    exact yes holds
  · rename_i fails
    exact no fails

end Ends

end Riegeli
