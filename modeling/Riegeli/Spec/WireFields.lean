/-
Module: Riegeli.Spec.WireFields
Purpose: A canonical proto message as the sequence of its top-level fields,
  where a group is one field from its start tag to the matching end tag.
Trusted boundary: none
Main exports: FieldNumber, TopFields, joined, SplitsInto, keptFields
-/
import Riegeli.Core.Wire

namespace Riegeli

/-- A number that a tag can carry. -/
def FieldNumber (number : Nat) : Prop := 0 < number ∧ number < 2 ^ 29

/-- The bytes of a tag. -/
def tagBytes (number : Nat) (wireType : WireType) : Bytes :=
  encodeU32 (number * 8 + wireType.toNat)

/-- The bytes of fields one after the other. -/
def joined (fields : List (Nat × Bytes)) : Bytes := (fields.map Prod.snd).flatten

/-- Each entry is a canonical field: its number and its bytes. -/
inductive TopFields : List (Nat × Bytes) → Prop where
  | nil : TopFields []
  | varint {number value : Nat} {rest : List (Nat × Bytes)} :
      FieldNumber number → value ≤ u64Max → TopFields rest →
      TopFields ((number, tagBytes number .varint ++ encodeU64 value) :: rest)
  | fixed32 {number : Nat} {bytes : Bytes} {rest : List (Nat × Bytes)} :
      FieldNumber number → bytes.length = 4 → TopFields rest →
      TopFields ((number, tagBytes number .fixed32 ++ bytes) :: rest)
  | fixed64 {number : Nat} {bytes : Bytes} {rest : List (Nat × Bytes)} :
      FieldNumber number → bytes.length = 8 → TopFields rest →
      TopFields ((number, tagBytes number .fixed64 ++ bytes) :: rest)
  | lengthDelimited {number : Nat} {bytes : Bytes} {rest : List (Nat × Bytes)} :
      FieldNumber number → bytes.length ≤ u32Max → TopFields rest →
      TopFields
        ((number, tagBytes number .lengthDelimited ++ (encodeU32 bytes.length ++ bytes)) :: rest)
  | group {number : Nat} {contents rest : List (Nat × Bytes)} :
      FieldNumber number → TopFields contents → TopFields rest →
      TopFields
        ((number, tagBytes number .startGroup ++ (joined contents ++ tagBytes number .endGroup)) ::
          rest)

/-- The message consists of these top-level fields. -/
def SplitsInto (message : Bytes) (fields : List (Nat × Bytes)) : Prop :=
  TopFields fields ∧ joined fields = message

/-- The fields with these numbers, one after the other. -/
def keptFields (numbers : List Nat) (fields : List (Nat × Bytes)) : Bytes :=
  joined (fields.filter fun field => numbers.contains field.1)

@[simp] theorem joined_nil : joined [] = [] := rfl

@[simp] theorem joined_cons (field : Nat × Bytes) (rest : List (Nat × Bytes)) :
    joined (field :: rest) = field.2 ++ joined rest := rfl

/-- A field is kept or dropped as a whole. -/
theorem keptFields_cons (numbers : List Nat) (field : Nat × Bytes) (rest : List (Nat × Bytes)) :
    keptFields numbers (field :: rest) =
      (if numbers.contains field.1 then field.2 else []) ++ keptFields numbers rest := by
  unfold keptFields
  rw [List.filter_cons]
  split
  · rw [joined_cons]
  · rw [List.nil_append]

end Riegeli
