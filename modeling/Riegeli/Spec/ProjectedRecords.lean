/-
Module: Riegeli.Spec.ProjectedRecords
Purpose: What a field projection is for: every field occurrence of a record is
  kept, entered, zeroed or dropped by what the projected paths say of its path.
Trusted boundary: none
Main exports: FieldProjection.Whole, FieldProjection.Through,
  FieldProjection.Noted, FieldTree.rewritten, ProjectedRecord
-/
import Riegeli.Spec.FieldPaths
import Riegeli.Spec.ProjectedFields

namespace Riegeli

namespace FieldProjection

variable (projection : FieldProjection) (path : List Nat)

/-- A path that is included in full leads to the field or to one around it. -/
def Whole : Prop :=
  ∃ field ∈ projection.fields.getD [], field.existenceOnly = false ∧ field.path <+: path

/-- A projected path leads through the field. -/
def Through : Prop := ∃ field ∈ projection.fields.getD [], path <+: field.path ∧ path ≠ field.path

/-- The existence of the field is asked for. -/
def Noted : Prop :=
  ∃ field ∈ projection.fields.getD [], field.existenceOnly = true ∧ field.path = path

instance : Decidable (projection.Whole path) := inferInstanceAs (Decidable (∃ _ ∈ _, _))

instance : Decidable (projection.Through path) := inferInstanceAs (Decidable (∃ _ ∈ _, _))

instance : Decidable (projection.Noted path) := inferInstanceAs (Decidable (∃ _ ∈ _, _))

end FieldProjection

/-- The tag of a field and the zero value of its type. -/
def FieldLeaf.zeroed (field : FieldLeaf) : Bytes :=
  tagBytes field.number field.wireType ++ zeroValue (some field.wireType)

/-- The fields of a message with a path, each rewritten by its own path. -/
def FieldTree.rewritten (projection : FieldProjection) : List Nat → FieldTree → Bytes
  | _, .nil => []
  | path, .leaf field rest =>
      let own := path ++ [field.number]
      (if projection.Whole own then field.bytes
        else if projection.Through own then field.bytes
        else if projection.Noted own then field.zeroed
        else []) ++ rest.rewritten projection path
  | path, .submessage number contents rest =>
      let own := path ++ [number]
      let inner := contents.rewritten projection own
      (if projection.Whole own then
          tagBytes number .lengthDelimited ++ (encodeU32 contents.bytes.length ++ contents.bytes)
        else if projection.Through own then
          tagBytes number .lengthDelimited ++ (encodeU32 inner.length ++ inner)
        else if projection.Noted own then tagBytes number .lengthDelimited ++ encodeU32 0
        else []) ++ rest.rewritten projection path
  | path, .group number contents rest =>
      let own := path ++ [number]
      (if projection.Whole own then
          tagBytes number .startGroup ++ (contents.bytes ++ tagBytes number .endGroup)
        else if projection.Through own then
          tagBytes number .startGroup ++
            (contents.rewritten projection own ++ tagBytes number .endGroup)
        else if projection.Noted own then tagBytes number .startGroup ++ tagBytes number .endGroup
        else []) ++ rest.rewritten projection path

/-- What a projection leaves of a record: a message is rewritten field by field,
with the submessages that the encoder takes apart, and other bytes stay. -/
inductive ProjectedRecord (projection : FieldProjection) : Bytes → Bytes → Prop where
  | proto {fields : FieldTree} :
      isProtoMessage fields.bytes = true → fields.Canonical → fields.Decomposed 0 →
      ProjectedRecord projection fields.bytes (fields.rewritten projection [])
  | nonProto {record : Bytes} : isProtoMessage record = false →
      ProjectedRecord projection record record

end Riegeli
