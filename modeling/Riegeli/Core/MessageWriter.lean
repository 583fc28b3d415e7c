/-
Module: Riegeli.Core.MessageWriter
Purpose: The calls of `SerializedMessageWriter` in `proto/writer.rs` and the
  zigzag encoding of `proto/wire.rs`.
Trusted boundary: none
Main exports: zigzagEncodeI32, zigzagEncodeI64, Scalar, WriterCall,
  SerializedMessageWriter.call, SerializedMessageWriter.calls
-/
import Riegeli.Core.FieldIteration

namespace Riegeli

/-- `zigzag_encode_i32`. -/
def zigzagEncodeI32 (value : Int32) : UInt32 := ((value <<< 1) ^^^ (value >>> 31)).toUInt32

/-- `zigzag_encode_i64`. -/
def zigzagEncodeI64 (value : Int64) : UInt64 := ((value <<< 1) ^^^ (value >>> 63)).toUInt64

/-- `MAX_LENGTH_DELIMITED`. -/
def maxLengthDelimited : Nat := 2 ^ 31 - 1

namespace SerializedMessageWriter

/-- A method of the writer. -/
abbrev Method := Act SerializedMessageWriter Fault Unit

/-- `encode_tag` and `encode_varint64`, which the varint writers share. -/
def writeVarint (fieldNumber value : Nat) : Method :=
  Act.modify fun self =>
    { self with buf := encodeVarint64 (encodeTag self.buf fieldNumber .varint) value }

/-- `write_uint64`. -/
def writeUint64 (fieldNumber : Nat) (value : UInt64) : Method :=
  writeVarint fieldNumber value.toNat

/-- `write_uint32`. -/
def writeUint32 (fieldNumber : Nat) (value : UInt32) : Method :=
  writeVarint fieldNumber value.toUInt64.toNat

/-- `write_int64`. -/
def writeInt64 (fieldNumber : Nat) (value : Int64) : Method :=
  writeVarint fieldNumber value.toUInt64.toNat

/-- `write_int32`. -/
def writeInt32 (fieldNumber : Nat) (value : Int32) : Method :=
  writeVarint fieldNumber value.toInt64.toUInt64.toNat

/-- `write_sint32`. -/
def writeSint32 (fieldNumber : Nat) (value : Int32) : Method :=
  writeVarint fieldNumber (zigzagEncodeI32 value).toUInt64.toNat

/-- `write_sint64`. -/
def writeSint64 (fieldNumber : Nat) (value : Int64) : Method :=
  writeVarint fieldNumber (zigzagEncodeI64 value).toNat

/-- `write_bool`. -/
def writeBool (fieldNumber : Nat) (value : Bool) : Method :=
  writeVarint fieldNumber (if value then 1 else 0)

/-- `encode_tag` and `to_le_bytes`, which the 32-bit writers share. -/
def writeLeBytes32 (fieldNumber : Nat) (bits : UInt32) : Method :=
  Act.modify fun self =>
    { self with buf := encodeTag self.buf fieldNumber .fixed32 ++ toLeBytes 4 bits.toNat }

/-- `encode_tag` and `to_le_bytes`, which the 64-bit writers share. -/
def writeLeBytes64 (fieldNumber : Nat) (bits : UInt64) : Method :=
  Act.modify fun self =>
    { self with buf := encodeTag self.buf fieldNumber .fixed64 ++ toLeBytes 8 bits.toNat }

/-- `write_fixed32`. -/
def writeFixed32 (fieldNumber : Nat) (value : UInt32) : Method := writeLeBytes32 fieldNumber value

/-- `write_fixed64`. -/
def writeFixed64 (fieldNumber : Nat) (value : UInt64) : Method := writeLeBytes64 fieldNumber value

/-- `write_sfixed32`. -/
def writeSfixed32 (fieldNumber : Nat) (value : Int32) : Method :=
  writeLeBytes32 fieldNumber value.toUInt32

/-- `write_sfixed64`. -/
def writeSfixed64 (fieldNumber : Nat) (value : Int64) : Method :=
  writeLeBytes64 fieldNumber value.toUInt64

/-- `write_float` of the float with these bits. -/
def writeFloat (fieldNumber : Nat) (bits : UInt32) : Method := writeLeBytes32 fieldNumber bits

/-- `write_double` of the double with these bits. -/
def writeDouble (fieldNumber : Nat) (bits : UInt64) : Method := writeLeBytes64 fieldNumber bits

/-- The error of a length-delimited field that is too long. -/
def tooLong (length : Nat) : Fault :=
  malformed ("length-delimited field length " ++ toString length ++ " exceeds 2 GiB limit")

/-- `write_bytes`. -/
def writeBytes (fieldNumber : Nat) (data : Bytes) : Method :=
  if maxLengthDelimited < data.length then Act.fail (tooLong data.length)
  else
    Act.modify fun self =>
      { self with
        buf :=
          encodeVarint32 (encodeTag self.buf fieldNumber .lengthDelimited)
            (data.length % 2 ^ 32) ++ data }

/-- `write_string`. -/
def writeString (fieldNumber : Nat) (text : String) : Method :=
  writeBytes fieldNumber text.toUTF8.toList

/-- `open_length_delimited`. -/
def openLengthDelimited (fieldNumber : Nat) : Method :=
  Act.modify fun self =>
    let buf := encodeTag self.buf fieldNumber .lengthDelimited
    { buf := buf, scopeStack := buf.length :: self.scopeStack }

/-- `close_length_delimited`. -/
def closeLengthDelimited : Method := fun self =>
  match self.scopeStack with
  | [] =>
      (.error (malformed "close_length_delimited() called without matching open"), self)
  | contentStart :: outer =>
      match subWord self.buf.length contentStart with
      | .error fault => (.error fault, self)
      | .ok contentLen =>
          if maxLengthDelimited < contentLen then (.error (tooLong contentLen), self)
          else
            (.ok (),
              { buf :=
                  self.buf.take contentStart ++ encodeVarint32 [] (contentLen % 2 ^ 32) ++
                    self.buf.drop contentStart
                scopeStack := outer })

/-- `write_start_group`. -/
def writeStartGroup (fieldNumber : Nat) : Method :=
  Act.modify fun self => { self with buf := encodeTag self.buf fieldNumber .startGroup }

/-- `write_end_group`. -/
def writeEndGroup (fieldNumber : Nat) : Method :=
  Act.modify fun self => { self with buf := encodeTag self.buf fieldNumber .endGroup }

end SerializedMessageWriter

/-! ## Calls -/

/-- A scalar with the kind of call that writes it. -/
inductive Scalar where
  | uint64 (value : UInt64)
  | uint32 (value : UInt32)
  | int64 (value : Int64)
  | int32 (value : Int32)
  | sint32 (value : Int32)
  | sint64 (value : Int64)
  | bool (value : Bool)
  | fixed32 (value : UInt32)
  | fixed64 (value : UInt64)
  | sfixed32 (value : Int32)
  | sfixed64 (value : Int64)
  | float (bits : UInt32)
  | double (bits : UInt64)
deriving Repr, DecidableEq

/-- A call on the writer. -/
inductive WriterCall where
  | scalar (fieldNumber : Nat) (value : Scalar)
  | bytes (fieldNumber : Nat) (data : Bytes)
  | string (fieldNumber : Nat) (text : String)
  | openLengthDelimited (fieldNumber : Nat)
  | closeLengthDelimited
  | startGroup (fieldNumber : Nat)
  | endGroup (fieldNumber : Nat)
  | field (field : ProtoField)
deriving Repr, DecidableEq

namespace SerializedMessageWriter

/-- The call that writes a scalar. -/
def writeScalar (fieldNumber : Nat) : Scalar → Method
  | .uint64 value => writeUint64 fieldNumber value
  | .uint32 value => writeUint32 fieldNumber value
  | .int64 value => writeInt64 fieldNumber value
  | .int32 value => writeInt32 fieldNumber value
  | .sint32 value => writeSint32 fieldNumber value
  | .sint64 value => writeSint64 fieldNumber value
  | .bool value => writeBool fieldNumber value
  | .fixed32 value => writeFixed32 fieldNumber value
  | .fixed64 value => writeFixed64 fieldNumber value
  | .sfixed32 value => writeSfixed32 fieldNumber value
  | .sfixed64 value => writeSfixed64 fieldNumber value
  | .float bits => writeFloat fieldNumber bits
  | .double bits => writeDouble fieldNumber bits

/-- Run one call. -/
def call : WriterCall → Method
  | .scalar fieldNumber value => writeScalar fieldNumber value
  | .bytes fieldNumber data => writeBytes fieldNumber data
  | .string fieldNumber text => writeString fieldNumber text
  | .openLengthDelimited fieldNumber => openLengthDelimited fieldNumber
  | .closeLengthDelimited => closeLengthDelimited
  | .startGroup fieldNumber => writeStartGroup fieldNumber
  | .endGroup fieldNumber => writeEndGroup fieldNumber
  | .field field => writeField field

/-- Run calls one after the other, whether or not they succeed: what each one
returned and the writer after them. -/
def calls : List WriterCall → SerializedMessageWriter →
    List (Except Fault Unit) × SerializedMessageWriter
  | [], self => ([], self)
  | first :: rest, self =>
      let (result, self) := call first self
      let (results, self) := calls rest self
      (result :: results, self)

end SerializedMessageWriter

end Riegeli
