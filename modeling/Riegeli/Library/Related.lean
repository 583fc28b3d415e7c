/-
Module: Riegeli.Library.Related
Purpose: Lists that are related item by item.
Trusted boundary: none
Main exports: forall₂_get, forall₂_exists, forall₂_left, forall₂_append_cons
-/
import Mathlib.Data.List.Forall2

namespace Riegeli

variable {First Second : Type} {related : First → Second → Prop} {firsts : List First}
  {seconds : List Second}

theorem forall₂_get (all : List.Forall₂ related firsts seconds) {index : Nat} {first : First}
    (found : firsts[index]? = some first) :
    ∃ second, seconds[index]? = some second ∧ related first second := by
  induction all generalizing index with
  | nil => cases found
  | cons here _ ih =>
      cases index with
      | zero =>
          obtain rfl := Option.some.inj found
          exact ⟨_, rfl, here⟩
      | succ index => exact ih found

/-- Every item on the right is related to one on the left. -/
theorem forall₂_left (all : List.Forall₂ related firsts seconds) {second : Second}
    (member : second ∈ seconds) : ∃ first ∈ firsts, related first second := by
  induction all with
  | nil => cases member
  | @cons first _ _ _ here _ ih =>
      rcases List.mem_cons.mp member with rfl | later
      · exact ⟨first, List.mem_cons_self, here⟩
      · obtain ⟨other, listed, holds⟩ := ih later
        exact ⟨other, List.mem_cons_of_mem _ listed, holds⟩

theorem forall₂_exists (each : ∀ first ∈ firsts, ∃ second, related first second) :
    ∃ seconds, List.Forall₂ related firsts seconds := by
  induction firsts with
  | nil => exact ⟨[], .nil⟩
  | cons first rest ih =>
      obtain ⟨⟨second, here⟩, later⟩ := List.forall_mem_cons.mp each
      obtain ⟨seconds, all⟩ := ih later
      exact ⟨second :: seconds, .cons here all⟩

/-- A list related to one with an item in the middle has one there too. -/
theorem forall₂_append_cons {before after : List Second} {second : Second}
    (all : List.Forall₂ related firsts (before ++ second :: after)) :
    ∃ front first back, firsts = front ++ first :: back ∧
      List.Forall₂ related front before ∧ related first second ∧
      List.Forall₂ related back after := by
  have front := List.forall₂_take_append firsts before (second :: after) all
  have back := List.forall₂_drop_append firsts before (second :: after) all
  obtain ⟨first, rest, here, later, same⟩ := List.forall₂_cons_right_iff.mp back
  refine ⟨_, first, rest, ?_, front, here, later⟩
  rw [← same, List.take_append_drop]

end Riegeli
