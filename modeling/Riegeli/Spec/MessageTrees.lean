/-
Module: Riegeli.Spec.MessageTrees
Purpose: A message to be written as a tree of fields, the calls that write it,
  and the fields that a reader is to find.
Trusted boundary: none
Main exports: Scalar.field, MessageTree, MessageTree.calls, MessageTree.fields,
  MessageTree.serialized, openScopes
-/
import Riegeli.Core.MessageWriter
import Riegeli.Library.Zigzag
import Riegeli.Proofs.FieldRoundTrip

namespace Riegeli

/-- The field that a scalar is written as.  Negative numbers stand for their
words in two's complement, `sint` numbers for their zigzag numbers. -/
def Scalar.field (number : Nat) : Scalar → ProtoField
  | .uint64 value => ⟨number, .varint, .varint value.toNat⟩
  | .uint32 value => ⟨number, .varint, .varint value.toNat⟩
  | .int64 value => ⟨number, .varint, .varint (value.toInt % 2 ^ 64).toNat⟩
  | .int32 value => ⟨number, .varint, .varint (value.toInt % 2 ^ 64).toNat⟩
  | .sint32 value => ⟨number, .varint, .varint (zigzag value.toInt)⟩
  | .sint64 value => ⟨number, .varint, .varint (zigzag value.toInt)⟩
  | .bool value => ⟨number, .varint, .varint (if value then 1 else 0)⟩
  | .fixed32 value => ⟨number, .fixed32, .fixed32 value.toNat⟩
  | .fixed64 value => ⟨number, .fixed64, .fixed64 value.toNat⟩
  | .sfixed32 value => ⟨number, .fixed32, .fixed32 (value.toInt % 2 ^ 32).toNat⟩
  | .sfixed64 value => ⟨number, .fixed64, .fixed64 (value.toInt % 2 ^ 64).toNat⟩
  | .float bits => ⟨number, .fixed32, .fixed32 bits.toNat⟩
  | .double bits => ⟨number, .fixed64, .fixed64 bits.toNat⟩

/-- The fields to be written, in order. -/
inductive MessageTree where
  | nil
  | scalar (number : Nat) (value : Scalar) (rest : MessageTree)
  | bytes (number : Nat) (data : Bytes) (rest : MessageTree)
  | string (number : Nat) (text : String) (rest : MessageTree)
  | scope (number : Nat) (contents rest : MessageTree)
  | group (number : Nat) (contents rest : MessageTree)
deriving Repr, DecidableEq

namespace MessageTree

/-- The calls that write the tree. -/
def calls : MessageTree → List WriterCall
  | .nil => []
  | .scalar number value rest => .scalar number value :: rest.calls
  | .bytes number data rest => .bytes number data :: rest.calls
  | .string number text rest => .string number text :: rest.calls
  | .scope number contents rest =>
      .openLengthDelimited number :: (contents.calls ++ .closeLengthDelimited :: rest.calls)
  | .group number contents rest =>
      .startGroup number :: (contents.calls ++ .endGroup number :: rest.calls)

/-- The fields that a reader is to find.  A scope is one field that holds the
fields inside it, a group is a start, the fields inside it and an end. -/
def fields : MessageTree → List ProtoField
  | .nil => []
  | .scalar number value rest => value.field number :: rest.fields
  | .bytes number data rest => ⟨number, .lengthDelimited, .lengthDelimited data⟩ :: rest.fields
  | .string number text rest =>
      ⟨number, .lengthDelimited, .lengthDelimited text.toUTF8.toList⟩ :: rest.fields
  | .scope number contents rest =>
      ⟨number, .lengthDelimited, .lengthDelimited (fieldsBytes contents.fields)⟩ :: rest.fields
  | .group number contents rest =>
      ⟨number, .startGroup, .startGroup⟩ ::
        (contents.fields ++ ⟨number, .endGroup, .endGroup⟩ :: rest.fields)

/-- The bytes of the fields. -/
def serialized (tree : MessageTree) : Bytes := fieldsBytes tree.fields

/-- The fields have numbers that a tag can carry. -/
def Numbered : MessageTree → Prop
  | .nil => True
  | .scalar number _ rest => FieldNumber number ∧ rest.Numbered
  | .bytes number _ rest => FieldNumber number ∧ rest.Numbered
  | .string number _ rest => FieldNumber number ∧ rest.Numbered
  | .scope number contents rest => FieldNumber number ∧ contents.Numbered ∧ rest.Numbered
  | .group number contents rest => FieldNumber number ∧ contents.Numbered ∧ rest.Numbered

/-- What is inside each scope stays below the limit of a length. -/
def ScopesFit : MessageTree → Prop
  | .nil => True
  | .scalar _ _ rest => rest.ScopesFit
  | .bytes _ _ rest => rest.ScopesFit
  | .string _ _ rest => rest.ScopesFit
  | .scope _ contents rest =>
      contents.serialized.length < 2 ^ 31 ∧ contents.ScopesFit ∧ rest.ScopesFit
  | .group _ contents rest => contents.ScopesFit ∧ rest.ScopesFit

/-- The byte strings stay below the limit of a length. -/
def StringsFit : MessageTree → Prop
  | .nil => True
  | .scalar _ _ rest => rest.StringsFit
  | .bytes _ data rest => data.length < 2 ^ 31 ∧ rest.StringsFit
  | .string _ text rest => text.toUTF8.toList.length < 2 ^ 31 ∧ rest.StringsFit
  | .scope _ contents rest => contents.StringsFit ∧ rest.StringsFit
  | .group _ contents rest => contents.StringsFit ∧ rest.StringsFit

end MessageTree

/-- The scopes left open by calls with these results, `depth` of them open
before: a scope is closed by a close that succeeds. -/
def openScopes : Nat → List (WriterCall × Except Fault Unit) → Nat
  | depth, [] => depth
  | depth, (.openLengthDelimited _, _) :: rest => openScopes (depth + 1) rest
  | depth, (.closeLengthDelimited, .ok _) :: rest => openScopes (depth - 1) rest
  | depth, _ :: rest => openScopes depth rest

/-- The writer writes the tree: every call succeeds and `finish` hands over a
valid message with the fields of the tree. -/
def WritesTree (tree : MessageTree) : Prop :=
  (∀ result ∈ (SerializedMessageWriter.calls tree.calls .new).1, result = .ok ()) ∧
    (SerializedMessageWriter.calls tree.calls .new).2.finish = .ok tree.serialized ∧
    isProtoMessage tree.serialized = true ∧
    (ProtoFieldIter.new tree.serialized).collect = .ok tree.fields

/-- After these calls, a close fails and changes nothing when no scope is open,
and `finish` fails when one is. -/
def GuardsScopes (calls : List WriterCall) : Prop :=
  let run := SerializedMessageWriter.calls calls .new
  (openScopes 0 (calls.zip run.1) = 0 →
      ∃ error, SerializedMessageWriter.closeLengthDelimited run.2 = (.error (.error error), run.2)) ∧
    (0 < openScopes 0 (calls.zip run.1) → ∃ error, run.2.finish = .error (.error error))

end Riegeli
