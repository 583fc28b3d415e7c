/-
Module: Riegeli.Spec.FieldEvents
Purpose: The fields of a message as flat events, and how the events of groups
  open and close.
Trusted boundary: none
Main exports: openGroups, GroupsBalanced, openDepth, GroupsMatched
-/
import Riegeli.Proofs.FieldCopies

namespace Riegeli

/-- The groups that are open after these events, innermost first, or `none` when
an event ends a group that is not the innermost one. -/
def openGroups : List Nat → List ProtoField → Option (List Nat)
  | groups, [] => some groups
  | groups, field :: fields => (groupsAfter groups field).bind fun after => openGroups after fields

/-- The start and end events of groups are balanced, with matching numbers. -/
def GroupsBalanced (fields : List ProtoField) : Prop := openGroups [] fields = some []

instance (fields : List ProtoField) : Decidable (GroupsBalanced fields) :=
  inferInstanceAs (Decidable (_ = _))

/-- The number of groups open after these events when the numbers of the groups
are not compared, or `none` when an end event finds no open group. -/
def openDepth : Nat → List ProtoField → Option Nat
  | depth, [] => some depth
  | depth, field :: fields =>
      match field.wireType with
      | .startGroup => openDepth (depth + 1) fields
      | .endGroup => if depth = 0 then none else openDepth (depth - 1) fields
      | _ => openDepth depth fields

/-- Iterating over the message ends in an error, or finds an end of a group
where no group is open, or finds groups that are balanced with matching
numbers. -/
def GroupsMatched (source : Bytes) : Prop :=
  ∀ fields, (ProtoFieldIter.new source).collect = .ok fields →
    openDepth 0 fields = none ∨ GroupsBalanced fields

/-- A group that is not open is not closed. -/
theorem openDepth_of_openGroups {fields : List ProtoField} :
    ∀ {groups after : List Nat}, openGroups groups fields = some after →
      openDepth groups.length fields = some after.length := by
  induction fields with
  | nil =>
      intro groups after opened
      obtain rfl := Option.some.inj opened
      rfl
  | cons field fields ih =>
      intro groups after opened
      obtain ⟨next, here, later⟩ := Option.bind_eq_some_iff.mp opened
      have rest := ih later
      unfold groupsAfter at here
      rw [openDepth]
      cases wire : field.wireType with
      | startGroup =>
          rw [wire] at here
          obtain rfl := Option.some.inj here
          exact rest
      | endGroup =>
          rw [wire] at here
          cases groups with
          | nil => cases here
          | cons innermost outer =>
              simp only at here
              split at here
              · obtain rfl := Option.some.inj here
                exact rest
              · cases here
      | varint => rw [wire] at here; obtain rfl := Option.some.inj here; exact rest
      | fixed32 => rw [wire] at here; obtain rfl := Option.some.inj here; exact rest
      | fixed64 => rw [wire] at here; obtain rfl := Option.some.inj here; exact rest
      | lengthDelimited => rw [wire] at here; obtain rfl := Option.some.inj here; exact rest

theorem openGroups_append {first : List ProtoField} (second : List ProtoField) :
    ∀ {groups after : List Nat}, openGroups groups first = some after →
      openGroups groups (first ++ second) = openGroups after second := by
  induction first with
  | nil =>
      intro groups after opened
      obtain rfl := Option.some.inj opened
      rfl
  | cons field first ih =>
      intro groups after opened
      obtain ⟨next, here, later⟩ := Option.bind_eq_some_iff.mp opened
      rw [List.cons_append, openGroups, here]
      exact ih later

end Riegeli
