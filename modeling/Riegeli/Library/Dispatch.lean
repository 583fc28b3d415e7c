/-
Module: Riegeli.Library.Dispatch
Purpose: Events handed to a state one after the other, and the parts of the state
  that take some of the events each: what a part comes to is what it comes to
  alone.
Trusted boundary: none
Main exports: Act.feed, Act.feed_append, Act.feed_error, Part, Part.Serves, Part.alone,
  Part.Serves.fed, Part.Serves.stopped
-/
import Riegeli.Library.Action

namespace Riegeli

variable {Event State Own Failure Value : Type}

/-! ## Feeding -/

/-- Handle the events one after the other, up to the first that fails. -/
def Act.feed (dispatch : Event → Act State Failure Value) : List Event → Act State Failure Unit
  | [] => pure ()
  | event :: rest => do
      let _ ← dispatch event
      Act.feed dispatch rest

section Feeding

variable {dispatch : Event → Act State Failure Value} {first second : List Event}
  {state middle : State}

theorem Act.feed_append (ran : Act.feed dispatch first state = (.ok (), middle)) :
    Act.feed dispatch (first ++ second) state = Act.feed dispatch second middle := by
  induction first generalizing state with
  | nil =>
      cases ran
      rfl
  | cons event rest ih =>
      obtain ⟨value, next, here, later⟩ := Act.run_bind_ok.mp ran
      rw [List.cons_append, Act.feed, Act.bind_run_ok here]
      exact ih later

/-- What fails is one of the events, and those before it were handled. -/
theorem Act.feed_error {failure : Failure} {after : State}
    (ran : Act.feed dispatch first state = (.error failure, after)) :
    ∃ front last behind middle, first = front ++ last :: behind ∧
      Act.feed dispatch front state = (.ok (), middle) ∧
      dispatch last middle = (.error failure, after) := by
  induction first generalizing state with
  | nil => cases ran
  | cons event rest ih =>
      rw [Act.feed] at ran
      rcases here : dispatch event state with ⟨failed | value, next⟩
      · rw [Act.bind_run_error here] at ran
        cases ran
        exact ⟨[], event, rest, state, rfl, rfl, here⟩
      · rw [Act.bind_run_ok here] at ran
        obtain ⟨front, last, behind, middle, rfl, before, fails⟩ := ih ran
        refine ⟨event :: front, last, behind, middle, rfl, ?_, fails⟩
        rw [Act.feed, Act.bind_run_ok here]
        exact before

end Feeding

/-! ## Parts -/

/-- A part of a state, with the events that it takes and what it does with them. -/
structure Part (Event State Own Failure : Type) where
  view : State → Own
  takes : Event → Bool
  handle : Event → Act Own Failure Unit

/-- What the part comes to alone, fed those of the events that it takes. -/
def Part.alone (part : Part Event State Own Failure) (events : List Event) (state : State) :
    Except Failure Unit × Own :=
  Act.feed part.handle (events.filter part.takes) (part.view state)

/-- Every event that the part takes is handed to it, and no other event changes
it. -/
structure Part.Serves (part : Part Event State Own Failure)
    (dispatch : Event → Act State Failure Value) : Prop where
  own : ∀ event state, part.takes event = true →
    part.handle event (part.view state) =
      ((dispatch event state).1.map fun _ => (), part.view (dispatch event state).2)
  other : ∀ event state, part.takes event = false →
    part.view (dispatch event state).2 = part.view state

namespace Part.Serves

variable {part : Part Event State Own Failure} {dispatch : Event → Act State Failure Value}
  {events : List Event} {event : Event} {state middle after : State}

/-- A part that has been fed with others stands where it stands alone. -/
theorem fed (serves : part.Serves dispatch) (ran : Act.feed dispatch events state = (.ok (), after)) :
    part.alone events state = (.ok (), part.view after) := by
  induction events generalizing state with
  | nil =>
      cases ran
      rfl
  | cons event rest ih =>
      obtain ⟨value, next, here, later⟩ := Act.run_bind_ok.mp ran
      have alone := ih later
      unfold Part.alone at alone ⊢
      cases takes : part.takes event with
      | true =>
          have handled := serves.own event state takes
          rw [here] at handled
          rw [List.filter_cons_of_pos takes, Act.feed, Act.bind_run_ok handled]
          exact alone
      | false =>
          have kept := serves.other event state takes
          rw [here] at kept
          rw [List.filter_cons_of_neg (by rw [takes]; exact Bool.false_ne_true), ← kept]
          exact alone

/-- Where an event fails, the part that takes it fails alone, and no other part
notices. -/
theorem stopped {failure : Failure} (serves : part.Serves dispatch)
    (ran : Act.feed dispatch events state = (.ok (), middle))
    (fails : dispatch event middle = (.error failure, after)) :
    part.alone (events ++ [event]) state =
      (if part.takes event then .error failure else .ok (), part.view after) := by
  have alone := serves.fed ran
  unfold Part.alone at alone ⊢
  rw [List.filter_append, Act.feed_append alone]
  cases takes : part.takes event with
  | true =>
      have handled := serves.own event middle takes
      rw [fails] at handled
      rw [List.filter_cons_of_pos takes, Act.feed, Act.bind_run_error handled]
      rfl
  | false =>
      have kept := serves.other event middle takes
      rw [fails] at kept
      rw [List.filter_cons_of_neg (by rw [takes]; exact Bool.false_ne_true), ← kept]
      rfl

end Part.Serves

end Riegeli
