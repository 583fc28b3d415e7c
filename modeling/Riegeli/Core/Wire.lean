/-
Module: Riegeli.Core.Wire
Purpose: The proto wire primitives of `proto/wire.rs`: tags, canonical
  varints, `is_proto_message` and `is_parseable_proto_message`.
Trusted boundary: none
Main exports: WireType, makeTag, tagWireType, tagFieldNumber, isValidProtoTag,
  readCanonicalVarint32, skipCanonicalVarint64, isProtoMessage,
  isParseableProtoMessage
-/
import Riegeli.Core.Varint

namespace Riegeli

/-- `WireType`. -/
inductive WireType where
  | varint
  | fixed64
  | lengthDelimited
  | startGroup
  | endGroup
  | fixed32
deriving Repr, DecidableEq

/-- The discriminant, `wire_type as u32`. -/
def WireType.toNat : WireType → Nat
  | .varint => 0
  | .fixed64 => 1
  | .lengthDelimited => 2
  | .startGroup => 3
  | .endGroup => 4
  | .fixed32 => 5

/-- `WireType::from_raw`. -/
def WireType.fromRaw : Nat → Option WireType
  | 0 => some .varint
  | 1 => some .fixed64
  | 2 => some .lengthDelimited
  | 3 => some .startGroup
  | 4 => some .endGroup
  | 5 => some .fixed32
  | _ => none

/-- `make_tag`; the shift drops the bits that leave the `u32`. -/
def makeTag (fieldNumber : Nat) (wireType : WireType) : Nat :=
  fieldNumber * 8 % 2 ^ 32 + wireType.toNat

/-- `tag_wire_type`. -/
def tagWireType (tag : Nat) : Option WireType := WireType.fromRaw (tag % 8)

/-- `tag_field_number`. -/
def tagFieldNumber (tag : Nat) : Nat := tag / 8

/-- `is_valid_proto_tag`. -/
def isValidProtoTag (tag : Nat) : Bool :=
  if tag < 8 then false else (tagWireType tag).isSome

/-- The loop shared by the readers of canonical varints: as `decodeVarintLoop`,
and a last byte of zero is refused after the first byte. -/
def canonicalVarintLoop (maxLen lastMax : Nat) : Nat → Nat → Bytes → Option (Nat × Nat)
  | _, _, [] => none
  | index, result, byte :: rest =>
      if index = maxLen then none
      else
        let low7 := byte.toNat % 128
        if index + 1 = maxLen ∧ lastMax < low7 then none
        else
          let result := result + low7 * 2 ^ (7 * index)
          if byte.toNat < 128 then
            if 0 < index ∧ byte = 0 then none else some (result, index + 1)
          else canonicalVarintLoop maxLen lastMax (index + 1) result rest

/-- `read_canonical_varint32`. -/
def readCanonicalVarint32 (data : Bytes) (pos : Nat) : Option (Nat × Nat) :=
  canonicalVarintLoop maxU32VarintLen 15 0 0 (data.drop pos)

/-- The loop of `skip_canonical_varint64`, which builds no value. -/
def skipVarintLoop : Nat → Bytes → Option Nat
  | _, [] => none
  | index, byte :: rest =>
      if index = maxU64VarintLen then none
      else if index = 9 ∧ 1 < byte.toNat % 128 then none
      else if byte.toNat < 128 then
        if 0 < index ∧ byte = 0 then none else some (index + 1)
      else skipVarintLoop (index + 1) rest

/-- `skip_canonical_varint64`: only the length of the varint is wanted. -/
def skipCanonicalVarint64 (data : Bytes) (pos : Nat) : Option Nat :=
  skipVarintLoop 0 (data.drop pos)

/-- `read_canonical_varint64`. -/
def readCanonicalVarint64 (data : Bytes) (pos : Nat) : Option (Nat × Nat) :=
  canonicalVarintLoop maxU64VarintLen 1 0 0 (data.drop pos)

/-- `encode_varint64`. -/
def encodeVarint64 (buf : Bytes) (value : Nat) : Bytes := buf ++ encodeU64 value

/-- `encode_varint32`. -/
def encodeVarint32 (buf : Bytes) (value : Nat) : Bytes := buf ++ encodeU32 value

/-- `encode_tag`. -/
def encodeTag (buf : Bytes) (fieldNumber : Nat) (wireType : WireType) : Bytes :=
  encodeVarint32 buf (makeTag fieldNumber wireType)

/-- The value of one field in `is_proto_message`: the position after it and
the groups open there, or `none` when the message is refused. -/
def skipCanonicalValue (data : Bytes) (tag pos : Nat) (startedGroups : List Nat) :
    Option (Nat × List Nat) :=
  match tagWireType tag with
  | none => none
  | some .varint =>
      match skipCanonicalVarint64 data pos with
      | some length => some (pos + length, startedGroups)
      | none => none
  | some .fixed32 =>
      if data.length < pos + 4 then none else some (pos + 4, startedGroups)
  | some .fixed64 =>
      if data.length < pos + 8 then none else some (pos + 8, startedGroups)
  | some .lengthDelimited =>
      match readCanonicalVarint32 data pos with
      | some (length, consumed) =>
          if pos + consumed + length ≤ data.length then
            some (pos + consumed + length, startedGroups)
          else none
      | none => none
  | some .startGroup => some (pos, tagFieldNumber tag :: startedGroups)
  | some .endGroup =>
      match startedGroups with
      | [] => none
      | innermost :: outer =>
          if innermost = tagFieldNumber tag then some (pos, outer) else none

/-- The loop of `is_proto_message`.  The innermost open group comes first. -/
def isProtoMessageLoop (data : Bytes) : Nat → Nat → List Nat → Bool
  | 0, _, _ => false
  | fuel + 1, pos, startedGroups =>
      if pos < data.length then
        match readCanonicalVarint32 data pos with
        | none => false
        | some (tag, consumed) =>
            if tagFieldNumber tag = 0 then false
            else
              match skipCanonicalValue data tag (pos + consumed) startedGroups with
              | none => false
              | some (next, groups) => isProtoMessageLoop data fuel next groups
      else startedGroups.isEmpty

/-- `is_proto_message`.  Every pass consumes at least the byte of a tag. -/
def isProtoMessage (data : Bytes) : Bool :=
  isProtoMessageLoop data (data.length + 1) 0 []

/-- The value of one field in `is_parseable_proto_message`. -/
def skipParseableValue (data : Bytes) (tag pos : Nat) (startedGroups : List Nat) :
    Option (Nat × List Nat) :=
  match tagWireType tag with
  | none => none
  | some .varint =>
      match decodeU64 (data.drop pos) with
      | .ok (_, consumed) => some (pos + consumed, startedGroups)
      | .error _ => none
  | some .fixed32 =>
      if data.length - pos < 4 then none else some (pos + 4, startedGroups)
  | some .fixed64 =>
      if data.length - pos < 8 then none else some (pos + 8, startedGroups)
  | some .lengthDelimited =>
      match decodeU64 (data.drop pos) with
      | .ok (length, consumed) =>
          if data.length - (pos + consumed) < length then none
          else some (pos + consumed + length, startedGroups)
      | .error _ => none
  | some .startGroup => some (pos, tagFieldNumber tag :: startedGroups)
  | some .endGroup =>
      match startedGroups with
      | [] => none
      | innermost :: outer =>
          if innermost = tagFieldNumber tag then some (pos, outer) else none

/-- The loop of `is_parseable_proto_message`. -/
def isParseableProtoMessageLoop (data : Bytes) : Nat → Nat → List Nat → Bool
  | 0, _, _ => false
  | fuel + 1, pos, startedGroups =>
      if pos < data.length then
        match decodeU64 (data.drop pos) with
        | .error _ => false
        | .ok (tag, consumed) =>
            if u32Max < tag then false
            else if tagFieldNumber tag = 0 then false
            else
              match skipParseableValue data tag (pos + consumed) startedGroups with
              | none => false
              | some (next, groups) => isParseableProtoMessageLoop data fuel next groups
      else startedGroups.isEmpty

/-- `is_parseable_proto_message`. -/
def isParseableProtoMessage (data : Bytes) : Bool :=
  isParseableProtoMessageLoop data (data.length + 1) 0 []

/-! ## Reserved identifiers of the transposed format

`transpose/internal.rs`. -/

/-- `message_id`. -/
def MessageId.noOp : Nat := 0
def MessageId.nonProto : Nat := 1
def MessageId.startOfSubmessage : Nat := 2
def MessageId.startOfMessage : Nat := 3
def MessageId.root : Nat := 4

/-- `subtype`. -/
def Subtype.trivial : Nat := 0
def Subtype.varint1 : Nat := 0
def Subtype.varintInline0 : Nat := 10
def Subtype.varintInlineMax : Nat := 137
def Subtype.lengthDelimitedString : Nat := 0
def Subtype.lengthDelimitedStartOfSubmessage : Nat := 1
def Subtype.lengthDelimitedEndOfSubmessage : Nat := 2

/-- `SUBMESSAGE_WIRE_TYPE`. -/
def submessageWireType : Nat := 6

/-- `MAX_RECURSION_DEPTH`. -/
def maxRecursionDepth : Nat := 100

/-- `MAX_VARINT_INLINE`. -/
def maxVarintInline : Nat := 3

/-- `has_subtype`. -/
def hasSubtype (tag : Nat) : Bool := tagWireType tag == some .varint

/-- `has_data_buffer`. -/
def hasDataBuffer (tag subtype : Nat) : Bool :=
  match tagWireType tag with
  | some .varint => decide (subtype < Subtype.varintInline0)
  | some .fixed32 => true
  | some .fixed64 => true
  | some .lengthDelimited => decide (subtype = Subtype.lengthDelimitedString)
  | some .startGroup => false
  | some .endGroup => false
  | none => false

end Riegeli
