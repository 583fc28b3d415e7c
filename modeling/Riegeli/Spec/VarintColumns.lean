/-
Module: Riegeli.Spec.VarintColumns
Purpose: The column of a varint field: its values at the top level of a
  message, in the order of the fields.
Trusted boundary: none
Main exports: varintValue, ColumnOf
-/
import Riegeli.Spec.WireFields

namespace Riegeli

/-- The value of a top-level field if it is a varint field with this number. -/
def varintValue (number : Nat) (field : Nat × Bytes) : Option Nat :=
  match decodeU64 (field.2.drop (tagBytes number .varint).length) with
  | .error _ => none
  | .ok (value, _) =>
      if field = (number, tagBytes number .varint ++ encodeU64 value) then some value else none

/-- What a record adds to the column of a field number: the values of its
varint fields with that number outside every group, and nothing when it is no
canonical message. -/
def ColumnOf (number : Nat) (record : Bytes) (column : List Nat) : Prop :=
  (isProtoMessage record = true ∧ (∃ fields, SplitsInto record fields) ∧
      ∀ fields, SplitsInto record fields → column = fields.filterMap (varintValue number)) ∨
    (isProtoMessage record = false ∧ column = [])

/-- The value of a varint field is what its bytes encode. -/
theorem varintValue_eq_some {number value : Nat} {field : Nat × Bytes} (fits : value ≤ u64Max) :
    varintValue number field = some value ↔
      field = (number, tagBytes number .varint ++ encodeU64 value) := by
  constructor
  · intro valued
    unfold varintValue at valued
    split at valued
    · cases valued
    · split at valued
      · rename_i same
        obtain rfl := Option.some.inj valued
        exact same
      · cases valued
  · rintro rfl
    have decoded := decodeU64_encodeU64 fits []
    rw [List.append_nil] at decoded
    unfold varintValue
    simp only [List.drop_left, decoded]
    rw [if_pos trivial]

end Riegeli
