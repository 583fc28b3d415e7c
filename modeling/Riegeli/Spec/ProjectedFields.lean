/-
Module: Riegeli.Spec.ProjectedFields
Purpose: What a field projection leaves of a message: a rewriting of its
  fields by their paths.
Trusted boundary: none
Main exports: FieldProjection.included, FieldLeaf.projected,
  FieldTree.projected, Placed
-/
import Riegeli.Spec.FieldTrees
import Riegeli.Core.TransposeDecoder

namespace Riegeli

/-- What a projection says of the fields with a path: they are kept when the
path leads to a projected field or through one that is included in full, and
their existence is noted when that is all that was asked for. -/
def FieldProjection.included (projection : FieldProjection) (path : List Nat) : FieldIncluded :=
  match projection.fields with
  | none => .yes
  | some fields =>
      if (∃ field ∈ fields, field.existenceOnly = false ∧ field.path <+: path) ∨
          (∃ field ∈ fields, path <+: field.path ∧ path ≠ field.path) then .yes
      else if ∃ field ∈ fields, field.existenceOnly = true ∧ field.path = path then .existenceOnly
      else .no

/-- What is left of a field without fields inside: it is kept as it is, dropped,
or gets the zero value of its type. -/
def FieldLeaf.projected (included : FieldIncluded) (field : FieldLeaf) : Bytes :=
  match included with
  | .yes => field.bytes
  | .no => []
  | .existenceOnly => tagBytes field.number field.wireType ++ zeroValue (some field.wireType)

/-- What is left of the fields of a message whose path is given: a submessage or
group is dropped, or stays with what is left of its contents. -/
def FieldTree.projected (included : List Nat → FieldIncluded) : List Nat → FieldTree → Bytes
  | _, .nil => []
  | path, .leaf field rest =>
      field.projected (included (path ++ [field.number])) ++ rest.projected included path
  | path, .submessage number contents rest =>
      let inner := contents.projected included (path ++ [number])
      (if included (path ++ [number]) = .no then []
        else tagBytes number .lengthDelimited ++ (encodeU32 inner.length ++ inner)) ++
        rest.projected included path
  | path, .group number contents rest =>
      let inner := contents.projected included (path ++ [number])
      (if included (path ++ [number]) = .no then []
        else tagBytes number .startGroup ++ (inner ++ tagBytes number .endGroup)) ++
        rest.projected included path

/-- The tags of the fields of a message, where the buffers that are read are
those of the fields that are kept as they are. -/
inductive Placed (included : List Nat → FieldIncluded) (reads : NodeId → Bool) :
    List Nat → List TagOp → FieldTree → Prop where
  | nil {path : List Nat} : Placed included reads path [] .nil
  | leaf {path : List Nat} {ops : List TagOp} {parent : Nat} {field : FieldLeaf}
      {rest : FieldTree} :
      (reads (TagOp.leaf parent field).nodeId = true ↔
        included (path ++ [field.number]) = .yes) →
      Placed included reads path ops rest →
      Placed included reads path (.leaf parent field :: ops) (.leaf field rest)
  | submessage {path : List Nat} {inner ops : List TagOp} {parent number : Nat}
      {contents rest : FieldTree} :
      Placed included reads (path ++ [number]) inner contents →
      Placed included reads path ops rest →
      Placed included reads path
        (.startOfSubmessage parent number :: (inner ++ .endOfSubmessage parent number :: ops))
        (.submessage number contents rest)
  | group {path : List Nat} {inner ops : List TagOp} {parent own number : Nat}
      {contents rest : FieldTree} :
      Placed included reads (path ++ [number]) inner contents →
      Placed included reads path ops rest →
      Placed included reads path
        (.startGroup parent number :: (inner ++ .endGroup own number :: ops))
        (.group number contents rest)

/-! ## Everything included -/

/-- All tags of a message are placed when everything is included. -/
theorem Spells.placed {ops : List TagOp} {tree : FieldTree} (spells : Spells ops tree) :
    ∀ path, Placed (fun _ => .yes) (fun _ => true) path ops tree := by
  induction spells with
  | nil => exact fun _ => .nil
  | leaf _ ih => exact fun path => .leaf ⟨fun _ => rfl, fun _ => rfl⟩ (ih path)
  | submessage _ _ inside after => exact fun path => .submessage (inside _) (after path)
  | group _ _ inside after => exact fun path => .group (inside _) (after path)

/-- With everything included the message stays as it is. -/
theorem FieldTree.projected_all (tree : FieldTree) :
    ∀ path, tree.projected (fun _ => .yes) path = tree.bytes := by
  induction tree with
  | nil => exact fun _ => rfl
  | leaf field rest ih =>
      intro path
      rw [FieldTree.projected, FieldTree.bytes, ih]
      rfl
  | submessage number contents rest inside after =>
      intro path
      rw [FieldTree.projected, FieldTree.bytes, inside, after]
      rfl
  | group number contents rest inside after =>
      intro path
      rw [FieldTree.projected, FieldTree.bytes, inside, after]
      rfl

end Riegeli
