/-
Module: Riegeli.Spec.FieldTrees
Purpose: A message as the tree of its fields, and the tags a transposed chunk
  keeps of it with the bytes that each tag puts into a buffer.
Trusted boundary: none
Main exports: FieldLeaf, FieldTree, TagOp, Spells, RecordOps, RecordsOps,
  chunksOf, lengthsOf
-/
import Riegeli.Core.TransposeEncoder
import Riegeli.Spec.WireFields

namespace Riegeli

/-! ## Fields -/

/-- A field without fields inside. -/
inductive FieldLeaf where
  | varint (number value : Nat)
  | fixed32 (number : Nat) (bytes : Bytes)
  | fixed64 (number : Nat) (bytes : Bytes)
  | string (number : Nat) (bytes : Bytes)
deriving Repr, DecidableEq

/-- The fields of a message, in order.  A length-delimited field is a string
or a submessage, as the encoder took it. -/
inductive FieldTree where
  | nil
  | leaf (field : FieldLeaf) (rest : FieldTree)
  | submessage (number : Nat) (contents rest : FieldTree)
  | group (number : Nat) (contents rest : FieldTree)
deriving Repr, DecidableEq

namespace FieldLeaf

/-- The number of the field. -/
def number : FieldLeaf → Nat
  | .varint number _ => number
  | .fixed32 number _ => number
  | .fixed64 number _ => number
  | .string number _ => number

/-- The wire type of the field. -/
def wireType : FieldLeaf → WireType
  | .varint _ _ => .varint
  | .fixed32 _ _ => .fixed32
  | .fixed64 _ _ => .fixed64
  | .string _ _ => .lengthDelimited

/-- The bytes after the tag. -/
def value : FieldLeaf → Bytes
  | .varint _ value => encodeU64 value
  | .fixed32 _ bytes => bytes
  | .fixed64 _ bytes => bytes
  | .string _ bytes => encodeU32 bytes.length ++ bytes

/-- The bytes of the field. -/
def bytes (field : FieldLeaf) : Bytes := tagBytes field.number field.wireType ++ field.value

/-- The field is one that the format can carry. -/
def Canonical : FieldLeaf → Prop
  | .varint number value => FieldNumber number ∧ value ≤ u64Max
  | .fixed32 number bytes => FieldNumber number ∧ bytes.length = 4
  | .fixed64 number bytes => FieldNumber number ∧ bytes.length = 8
  | .string number bytes => FieldNumber number ∧ bytes.length ≤ u32Max

/-- The subtype of the tag: a small varint is part of it, a larger one gives
its length. -/
def subtype : FieldLeaf → Nat
  | .varint _ value =>
      if value ≤ maxVarintInline then Subtype.varintInline0 + value
      else Subtype.varint1 + ((encodeU64 value).length - 1)
  | .fixed32 _ _ => Subtype.trivial
  | .fixed64 _ _ => Subtype.trivial
  | .string _ _ => Subtype.lengthDelimitedString

/-- The bytes that go into the buffer of the field. -/
def chunk : FieldLeaf → Bytes
  | .varint _ value =>
      if value ≤ maxVarintInline then []
      else (encodeU64 value).map fun byte => UInt8.ofNat (byte.toNat % 128)
  | .fixed32 _ bytes => bytes
  | .fixed64 _ bytes => bytes
  | .string _ bytes => encodeU32 bytes.length ++ bytes

end FieldLeaf

namespace FieldTree

/-- The bytes of the fields, one after the other. -/
def bytes : FieldTree → Bytes
  | .nil => []
  | .leaf field rest => field.bytes ++ rest.bytes
  | .submessage number contents rest =>
      tagBytes number .lengthDelimited ++ (encodeU32 contents.bytes.length ++ contents.bytes) ++
        rest.bytes
  | .group number contents rest =>
      tagBytes number .startGroup ++ (contents.bytes ++ tagBytes number .endGroup) ++ rest.bytes

/-- Every field is one that the format can carry. -/
def Canonical : FieldTree → Prop
  | .nil => True
  | .leaf field rest => field.Canonical ∧ rest.Canonical
  | .submessage number contents rest =>
      FieldNumber number ∧ contents.bytes.length ≤ u32Max ∧ contents.Canonical ∧ rest.Canonical
  | .group number contents rest => FieldNumber number ∧ contents.Canonical ∧ rest.Canonical

end FieldTree

/-! ## Tags -/

/-- A tag that the encoder stores, under the message id of its parent. -/
inductive TagOp where
  | startOfMessage
  | nonProto (record : Bytes)
  | leaf (parent : Nat) (field : FieldLeaf)
  | startOfSubmessage (parent number : Nat)
  | endOfSubmessage (parent number : Nat)
  | startGroup (parent number : Nat)
  | endGroup (parent number : Nat)
deriving Repr, DecidableEq

namespace TagOp

/-- The node of the tag. -/
def nodeId : TagOp → NodeId
  | .startOfMessage => TransposeChunkEncoder.startOfMessageNode
  | .nonProto _ => TransposeChunkEncoder.nonProtoNode
  | .leaf parent field =>
      { parentMessageId := parent, tag := field.number * 8 + field.wireType.toNat }
  | .startOfSubmessage parent number =>
      { parentMessageId := parent, tag := number * 8 + WireType.lengthDelimited.toNat }
  | .endOfSubmessage parent number =>
      { parentMessageId := parent, tag := number * 8 + WireType.lengthDelimited.toNat }
  | .startGroup parent number =>
      { parentMessageId := parent, tag := number * 8 + WireType.startGroup.toNat }
  | .endGroup parent number =>
      { parentMessageId := parent, tag := number * 8 + WireType.endGroup.toNat }

/-- The subtype of the tag. -/
def subtype : TagOp → Nat
  | .leaf _ field => field.subtype
  | .startOfSubmessage _ _ => Subtype.lengthDelimitedStartOfSubmessage
  | .endOfSubmessage _ _ => Subtype.lengthDelimitedEndOfSubmessage
  | _ => Subtype.trivial

/-- What the tag puts into the buffer of its node. -/
def chunk : TagOp → Bytes
  | .nonProto record => record
  | .leaf _ field => field.chunk
  | _ => []

/-- The tag is one that the encoder stores. -/
def Canonical : TagOp → Prop
  | .startOfMessage => True
  | .nonProto record => record ≠ [] ∧ record.length ≤ u32Max
  | .leaf _ field => field.Canonical
  | .startOfSubmessage _ number => FieldNumber number
  | .endOfSubmessage _ number => FieldNumber number
  | .startGroup _ number => FieldNumber number
  | .endGroup _ number => FieldNumber number

end TagOp

/-- The tags of a tree, in the order of its bytes. -/
inductive Spells : List TagOp → FieldTree → Prop where
  | nil : Spells [] .nil
  | leaf {ops : List TagOp} {parent : Nat} {field : FieldLeaf} {rest : FieldTree} :
      Spells ops rest → Spells (.leaf parent field :: ops) (.leaf field rest)
  | submessage {inner ops : List TagOp} {parent number : Nat} {contents rest : FieldTree} :
      Spells inner contents → Spells ops rest →
      Spells
        (.startOfSubmessage parent number :: (inner ++ .endOfSubmessage parent number :: ops))
        (.submessage number contents rest)
  | group {inner ops : List TagOp} {parent own number : Nat} {contents rest : FieldTree} :
      Spells inner contents → Spells ops rest →
      Spells (.startGroup parent number :: (inner ++ .endGroup own number :: ops))
        (.group number contents rest)

/-- The tags of a record. -/
inductive RecordOps : List TagOp → Bytes → Prop where
  | proto {ops : List TagOp} {fields : FieldTree} :
      fields.Canonical → Spells ops fields → RecordOps (.startOfMessage :: ops) fields.bytes
  | nonProto {record : Bytes} :
      record ≠ [] → record.length ≤ u32Max → RecordOps [.nonProto record] record

/-- The tags of a sequence of records. -/
inductive RecordsOps : List TagOp → List Bytes → Prop where
  | nil : RecordsOps [] []
  | snoc {before ops : List TagOp} {records : List Bytes} {record : Bytes} :
      RecordsOps before records → RecordOps ops record →
      RecordsOps (before ++ ops) (records ++ [record])

/-! ## Buffers -/

/-- What the tags put into the buffer of a node. -/
def chunksOf (nodeId : NodeId) (ops : List TagOp) : List Bytes :=
  (ops.filter fun op => op.nodeId = nodeId ∧ op.chunk ≠ []).map TagOp.chunk

/-- The lengths of the non-proto records among the tags. -/
def lengthsOf : List TagOp → List Bytes
  | [] => []
  | .nonProto record :: ops => encodeU64 record.length :: lengthsOf ops
  | _ :: ops => lengthsOf ops

/-- The type of the buffer of a node. -/
def bufferTypeOf (nodeId : NodeId) : BufferType :=
  if nodeId.tag = 0 then .nonProto
  else
    match tagWireType nodeId.tag with
    | some .varint => .varint
    | some .fixed32 => .fixed32
    | some .fixed64 => .fixed64
    | some .lengthDelimited => .string
    | _ => .nonProto

end Riegeli
