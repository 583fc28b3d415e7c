/-
Module: Riegeli.Library.Contract
Purpose: Contracts of computations that may fail: what every value satisfies and
  which errors may be raised.
Trusted boundary: none
Main exports: Meets, Meets.bind, Meets.mono, Meets.mapM
-/
import Mathlib.Data.List.Forall2
import Mathlib.Tactic.Common

namespace Riegeli

variable {Error Value Result Item : Type} {raised : Error → Prop}

/-- The computation ends in a value with this property, or in an error that may
be raised. -/
def Meets (raised : Error → Prop) (call : Except Error Value) (post : Value → Prop) : Prop :=
  match call with
  | .ok value => post value
  | .error error => raised error

namespace Meets

variable {call : Except Error Value} {next : Value → Except Error Result} {value : Value}
  {post middle : Value → Prop} {final : Result → Prop}

theorem ok (holds : post value) : Meets raised (.ok value) post := holds

theorem error {error : Error} (allowed : raised error) : Meets raised (.error error) post := allowed

/-- The property holds of the value that came. -/
theorem of_ok (meets : Meets raised call post) (ran : call = .ok value) : post value := by
  rw [ran] at meets
  exact meets

/-- Nothing is asked of the value, and any error may be raised. -/
theorem any (call : Except Error Value) : Meets (fun _ => True) call fun _ => True := by
  cases call <;> trivial

theorem mono (meets : Meets raised call middle) (weaker : ∀ value, middle value → post value) :
    Meets raised call post := by
  cases call with
  | ok value => exact weaker value meets
  | error error => exact meets

/-- What comes after may rely on the contract of what came before. -/
theorem bind (first : Meets raised call middle)
    (rest : ∀ value, middle value → Meets raised (next value) final) :
    Meets raised (call >>= next) final := by
  cases call with
  | ok value => exact rest value first
  | error error => exact first

/-- A value may be remembered together with where it comes from. -/
theorem named (meets : Meets raised call post) :
    Meets raised call fun value => call = .ok value ∧ post value := by
  cases call with
  | ok value => exact ⟨rfl, meets⟩
  | error error => exact meets

theorem ite {condition : Prop} [Decidable condition] {other : Except Error Value}
    (yes : condition → Meets raised call post) (no : ¬ condition → Meets raised other post) :
    Meets raised (if condition then call else other) post := by
  split
  · rename_i holds
    exact yes holds
  · rename_i fails
    exact no fails

/-- A computation over a list meets a contract item by item. -/
theorem mapM {items : List Item} {each : Item → Except Error Value} {related : Item → Value → Prop}
    (all : ∀ item ∈ items, Meets raised (each item) (related item)) :
    Meets raised (items.mapM each) (List.Forall₂ related items) := by
  induction items with
  | nil => exact List.Forall₂.nil
  | cons item rest ih =>
      rw [List.mapM_cons]
      refine bind (all item List.mem_cons_self) fun value first => ?_
      refine bind (ih fun other member => all other (List.mem_cons_of_mem _ member))
        fun values later => ?_
      exact List.Forall₂.cons first later

end Meets

end Riegeli
