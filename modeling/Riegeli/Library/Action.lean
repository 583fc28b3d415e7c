/-
Module: Riegeli.Library.Action
Purpose: Actions of a mutable object: a method that may fail and that leaves
  a new state behind in either case, with the rules for taking a sequence of
  such methods apart.
Trusted boundary: none
Main exports: Act, Act.bind_run, Act.run_bind_ok, Act.Moves, Frame,
  Act.Stays, Except.bind_eq_ok
-/
import Mathlib.Data.List.Basic

namespace Riegeli

variable {State Failure Value Result : Type}

/-- A method on `&mut self`.  The state survives a failure. -/
def Act (State Failure Value : Type) : Type :=
  State → Except Failure Value × State

namespace Act

/-- Run the second method only when the first one succeeds. -/
def andThen (first : Act State Failure Value)
    (second : Value → Act State Failure Result) : Act State Failure Result :=
  fun state =>
    match first state with
    | (.ok value, next) => second value next
    | (.error failure, next) => (.error failure, next)

instance : Monad (Act State Failure) where
  pure value := fun state => (.ok value, state)
  bind := andThen

/-- Read the state. -/
def get : Act State Failure State := fun state => (.ok state, state)

/-- Update the state. -/
def modify (update : State → State) : Act State Failure Unit :=
  fun state => (.ok (), update state)

/-- Fail without touching the state. -/
def fail (failure : Failure) : Act State Failure Value :=
  fun state => (.error failure, state)

/-- Run a computation that does not use the state. -/
def lift (result : Except Failure Value) : Act State Failure Value :=
  fun state => (result, state)

/-- Run a method only under a condition, `if condition { method()?; }`. -/
def whenever (condition : Prop) [Decidable condition] (method : Act State Failure Unit) :
    Act State Failure Unit :=
  if condition then method else fun state => (.ok (), state)

@[simp] theorem pure_run (value : Value) (state : State) :
    (pure value : Act State Failure Value) state = (.ok value, state) := rfl

@[simp] theorem get_run (state : State) :
    (get : Act State Failure State) state = (.ok state, state) := rfl

@[simp] theorem modify_run (update : State → State) (state : State) :
    (modify update : Act State Failure Unit) state = (.ok (), update state) := rfl

@[simp] theorem fail_run (failure : Failure) (state : State) :
    (fail failure : Act State Failure Value) state = (.error failure, state) := rfl

@[simp] theorem lift_run (result : Except Failure Value) (state : State) :
    (lift result : Act State Failure Value) state = (result, state) := rfl

theorem whenever_run (condition : Prop) [Decidable condition]
    (method : Act State Failure Unit) (state : State) :
    whenever condition method state = if condition then method state else (.ok (), state) := by
  by_cases holds : condition <;> simp [whenever, holds]

theorem whenever_pos {condition : Prop} [Decidable condition]
    {method : Act State Failure Unit} (holds : condition) : whenever condition method = method :=
  if_pos holds

theorem whenever_neg {condition : Prop} [Decidable condition]
    {method : Act State Failure Unit} (fails : ¬ condition) :
    whenever condition method = pure () := if_neg fails

theorem bind_run (first : Act State Failure Value)
    (second : Value → Act State Failure Result) (state : State) :
    (first >>= second) state =
      match first state with
      | (.ok value, next) => second value next
      | (.error failure, next) => (.error failure, next) := rfl

theorem bind_run_ok {first : Act State Failure Value}
    {second : Value → Act State Failure Result} {state next : State} {value : Value}
    (ran : first state = (.ok value, next)) :
    (first >>= second) state = second value next := by
  rw [bind_run, ran]

theorem bind_run_error {first : Act State Failure Value}
    {second : Value → Act State Failure Result} {state next : State}
    {failure : Failure} (ran : first state = (.error failure, next)) :
    (first >>= second) state = (.error failure, next) := by
  rw [bind_run, ran]

/-- A sequence succeeds exactly when both methods do. -/
theorem run_bind_ok {first : Act State Failure Value}
    {second : Value → Act State Failure Result} {state final : State}
    {result : Result} :
    (first >>= second) state = (.ok result, final) ↔
      ∃ value next, first state = (.ok value, next) ∧
        second value next = (.ok result, final) := by
  rw [bind_run]
  constructor
  · intro ran
    match outcome : first state with
    | (.ok value, next) =>
        rw [outcome] at ran
        exact ⟨value, next, rfl, ran⟩
    | (.error failure, next) =>
        rw [outcome] at ran
        simp at ran
  · rintro ⟨value, next, firstRan, secondRan⟩
    rw [firstRan]
    exact secondRan

/-! ## Methods that move the state along a relation -/

/-- The failure a run ends with, if any. -/
def failureOf : Except Failure Value → Option Failure
  | .ok _ => none
  | .error failure => some failure

/-- Every run of the method moves the state along `step`, which also sees how
the run ended. -/
def Moves (step : State → Option Failure → State → Prop) (method : Act State Failure Value) :
    Prop :=
  ∀ state, step state (failureOf (method state).1) (method state).2

section Moves

variable {step : State → Option Failure → State → Prop}

theorem Moves.pure (refl : ∀ state, step state none state) (value : Value) :
    Moves step (pure value : Act State Failure Value) := refl

theorem Moves.get (refl : ∀ state, step state none state) :
    Moves step (get : Act State Failure State) := refl

theorem Moves.fail {failure : Failure} (refl : ∀ state, step state (some failure) state) :
    Moves step (fail failure : Act State Failure Value) := refl

theorem Moves.lift (refl : ∀ failure state, step state failure state)
    (result : Except Failure Value) :
    Moves step (lift result : Act State Failure Value) := fun state => refl _ state

theorem Moves.modify {update : State → State}
    (moves : ∀ state, step state none (update state)) :
    Moves step (modify update : Act State Failure Unit) := moves

/-- The second method may rely on what the first one returned. -/
theorem Moves.bind_of {first : Act State Failure Value}
    {second : Value → Act State Failure Result}
    (trans : ∀ {before middle failure after}, step before none middle →
      step middle failure after → step before failure after)
    (firstMoves : Moves step first)
    (secondMoves : ∀ state value next, first state = (.ok value, next) →
      step next (failureOf (second value next).1) (second value next).2) :
    Moves step (first >>= second) := by
  intro state
  have moved := firstMoves state
  rw [bind_run]
  match outcome : first state with
  | (.ok value, next) =>
      rw [outcome] at moved
      exact trans moved (secondMoves state value next outcome)
  | (.error failure, next) =>
      rw [outcome] at moved
      exact moved

theorem Moves.bind {first : Act State Failure Value}
    {second : Value → Act State Failure Result}
    (trans : ∀ {before middle failure after}, step before none middle →
      step middle failure after → step before failure after)
    (firstMoves : Moves step first) (secondMoves : ∀ value, Moves step (second value)) :
    Moves step (first >>= second) :=
  Moves.bind_of trans firstMoves fun _ value next _ => secondMoves value next

theorem Moves.whenever {condition : Prop} [Decidable condition]
    {method : Act State Failure Unit} (refl : ∀ state, step state none state)
    (moves : Moves step method) : Moves step (whenever condition method) := by
  intro state
  rw [whenever_run]
  split
  · exact moves state
  · exact refl state

end Moves

end Act

/-! ## Frames -/

/-- What a method may do to the state, whichever way it ends: a relation that
holds of doing nothing and of doing one thing after the other. -/
structure Frame (State : Type) where
  rel : State → State → Prop
  refl : ∀ state, rel state state
  trans : ∀ {before middle after}, rel before middle → rel middle after → rel before after

/-- The frame of what a view does not see. -/
def Frame.ofView {View : Type} (view : State → View) : Frame State where
  rel before after := view after = view before
  refl _ := rfl
  trans first second := second.trans first

namespace Act

/-- Every run of the method stays within the frame. -/
def Stays (frame : Frame State) (method : Act State Failure Value) : Prop :=
  ∀ state, frame.rel state (method state).2

section Stays

variable {frame : Frame State}

theorem Stays.pure (value : Value) : Stays frame (pure value : Act State Failure Value) :=
  fun state => frame.refl state

theorem Stays.get : Stays frame (get : Act State Failure State) := fun state => frame.refl state

theorem Stays.fail (failure : Failure) : Stays frame (fail failure : Act State Failure Value) :=
  fun state => frame.refl state

theorem Stays.lift (result : Except Failure Value) :
    Stays frame (lift result : Act State Failure Value) := fun state => frame.refl state

theorem Stays.modify {update : State → State} (within : ∀ state, frame.rel state (update state)) :
    Stays frame (modify update : Act State Failure Unit) := within

theorem Stays.bind {first : Act State Failure Value} {second : Value → Act State Failure Result}
    (firstStays : Stays frame first) (secondStays : ∀ value, Stays frame (second value)) :
    Stays frame (first >>= second) := by
  intro state
  have moved := firstStays state
  rw [bind_run]
  match outcome : first state with
  | (.ok value, next) =>
      rw [outcome] at moved
      exact frame.trans moved (secondStays value next)
  | (.error failure, next) =>
      rw [outcome] at moved
      exact moved

/-- Reading the state first. -/
theorem Stays.get_bind {second : State → Act State Failure Result}
    (secondStays : ∀ value, Stays frame (second value)) : Stays frame (Act.get >>= second) :=
  Stays.bind Stays.get secondStays

theorem Stays.ite {condition : Prop} [Decidable condition] {first second : Act State Failure Value}
    (firstStays : Stays frame first) (secondStays : Stays frame second) :
    Stays frame (if condition then first else second) := by
  split
  · exact firstStays
  · exact secondStays

theorem Stays.whenever {condition : Prop} [Decidable condition]
    {method : Act State Failure Unit} (stays : Stays frame method) :
    Stays frame (whenever condition method) :=
  Stays.ite stays (Stays.pure ())

end Stays

end Act

/-- A fallible computation followed by another one succeeds exactly when both
do. -/
theorem Except.bind_eq_ok {first : Except Failure Value}
    {second : Value → Except Failure Result} {result : Result} :
    (first >>= second) = .ok result ↔
      ∃ value, first = .ok value ∧ second value = .ok result := by
  cases first with
  | error failure => simp [bind, Except.bind]
  | ok value => simp [bind, Except.bind]

@[simp] theorem Except.ok_bind (value : Value) (second : Value → Except Failure Result) :
    ((Except.ok value : Except Failure Value) >>= second) = second value := rfl

@[simp] theorem Except.error_bind (failure : Failure)
    (second : Value → Except Failure Result) :
    ((Except.error failure : Except Failure Value) >>= second) = .error failure := rfl

end Riegeli
