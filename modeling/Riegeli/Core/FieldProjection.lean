/-
Module: Riegeli.Core.FieldProjection
Purpose: The field projection of `field_projection.rs` and the include-field
  map that the transposed decoder builds from it.
Trusted boundary: none
Main exports: Field, FieldProjection, IncludeType, IncludedField,
  IncludeFieldMap, IncludeFieldMap.fromProjection
-/
import Riegeli.Core.Wire

namespace Riegeli

/-- `Field`: a path of field numbers from the root message. -/
structure Field where
  path : List Nat
  existenceOnly : Bool
deriving Repr, DecidableEq

/-- `FieldProjection`.  `none` stands for all fields. -/
structure FieldProjection where
  fields : Option (List Field)
deriving Repr, DecidableEq

namespace FieldProjection

/-- `FieldProjection::is_all`. -/
def isAll (self : FieldProjection) : Bool :=
  match self.fields with
  | none => true
  | some fields => fields.any fun field => field.path.isEmpty && !field.existenceOnly

/-- `FieldProjection::has_full_include`. -/
def hasFullInclude (self : FieldProjection) : Bool :=
  match self.fields with
  | none => true
  | some fields => fields.any fun field => !field.existenceOnly

/-- `FieldProjection::mentions_field`. -/
def mentionsField (self : FieldProjection) (fieldNumber : Nat) : Bool :=
  match self.fields with
  | none => true
  | some fields => fields.any fun field => field.path.isEmpty || field.path.contains fieldNumber

end FieldProjection

/-- `IncludeType`. -/
inductive IncludeType where
  | includeFully
  | includeChild
  | existenceOnly
deriving Repr, DecidableEq

/-- The discriminant that orders the include types. -/
def IncludeType.toNat : IncludeType → Nat
  | .includeFully => 0
  | .includeChild => 1
  | .existenceOnly => 2

/-- `IncludedField`. -/
structure IncludedField where
  fieldId : Nat
  includeType : IncludeType
deriving Repr, DecidableEq

/-- `IncludeFieldMap`: entries by parent and field number, each key once. -/
structure IncludeFieldMap where
  map : List ((Nat × Nat) × IncludedField)
deriving Repr, DecidableEq

namespace IncludeFieldMap

/-- The decoder's `INVALID_POS`, the parent of the root fields. -/
def invalidPos : Nat := u32Max

/-- `IncludeFieldMap::get`. -/
def get (self : IncludeFieldMap) (parentId fieldNumber : Nat) : Option IncludedField :=
  self.map.lookup (parentId, fieldNumber)

/-- Change the entry of a key. -/
def update (map : List ((Nat × Nat) × IncludedField)) (key : Nat × Nat)
    (entry : IncludedField) : List ((Nat × Nat) × IncludedField) :=
  map.map fun item => if item.1 = key then (key, entry) else item

/-- One pass of the loop over a path: insert or widen an entry, and go on from
its identifier. -/
def insertStep (map : List ((Nat × Nat) × IncludedField)) (currentId fieldNumber : Nat)
    (includeType : IncludeType) : List ((Nat × Nat) × IncludedField) × Nat :=
  let key := (currentId, fieldNumber)
  let nextId := map.length % 2 ^ 32
  match map.lookup key with
  | none => (map ++ [(key, { fieldId := nextId, includeType := includeType })], nextId)
  | some entry =>
      if includeType.toNat < entry.includeType.toNat then
        (update map key { entry with includeType := includeType }, entry.fieldId)
      else (map, entry.fieldId)

/-- The loop over the field numbers of one path. -/
def insertPath (existenceOnly : Bool) :
    List Nat → Nat → List ((Nat × Nat) × IncludedField) → List ((Nat × Nat) × IncludedField)
  | [], _, map => map
  | fieldNumber :: rest, currentId, map =>
      let includeType :=
        if rest.isEmpty then
          if existenceOnly then IncludeType.existenceOnly else .includeFully
        else .includeChild
      let (map, currentId) := insertStep map currentId fieldNumber includeType
      insertPath existenceOnly rest currentId map

/-- The loop over the projected fields.  An empty path disables projection. -/
def insertFields :
    List Field → List ((Nat × Nat) × IncludedField) → Option (List ((Nat × Nat) × IncludedField))
  | [], map => some map
  | field :: rest, map =>
      if field.path.isEmpty then none
      else insertFields rest (insertPath field.existenceOnly field.path invalidPos map)

/-- `IncludeFieldMap::from_projection`. -/
def fromProjection (projection : FieldProjection) : Option IncludeFieldMap := do
  let fields ← projection.fields
  let map ← insertFields fields []
  some { map := map }

end IncludeFieldMap

end Riegeli
