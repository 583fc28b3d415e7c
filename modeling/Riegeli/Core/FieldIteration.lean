/-
Module: Riegeli.Core.FieldIteration
Purpose: The field iterators of `proto/field_iter.rs` and the part of
  `proto/writer.rs` that copies fields.
Trusted boundary: none
Main exports: FieldValue, ProtoField, ProtoFieldIter, ProtoFieldIter.collect,
  serializeField, FilteredFieldIter, SerializedMessageWriter, copyFields
-/
import Riegeli.Core.Wire

namespace Riegeli

/-- `FieldValue`. -/
inductive FieldValue where
  | varint (value : Nat)
  | fixed32 (value : Nat)
  | fixed64 (value : Nat)
  | lengthDelimited (bytes : Bytes)
  | startGroup
  | endGroup
deriving Repr, DecidableEq

/-- `ProtoField`. -/
structure ProtoField where
  fieldNumber : Nat
  wireType : WireType
  value : FieldValue
deriving Repr, DecidableEq

/-- `ProtoFieldIter`. -/
structure ProtoFieldIter where
  data : Bytes
  pos : Nat
  errored : Bool
deriving Repr, DecidableEq

namespace ProtoFieldIter

/-- `ProtoFieldIter::new`. -/
def new (data : Bytes) : ProtoFieldIter := { data := data, pos := 0, errored := false }

/-- `self.errored = true; return Some(Err(..))`. -/
def failed (self : ProtoFieldIter) (message : String) :
    Option (Except RiegeliError ProtoField) × ProtoFieldIter :=
  (some (.error (.malformedData message)), { self with errored := true })

/-- `Some(Ok(ProtoField { .. }))` at the position after the value. -/
def yielded (self : ProtoFieldIter) (fieldNumber : Nat) (wireType : WireType)
    (value : FieldValue) (next : Nat) :
    Option (Except RiegeliError ProtoField) × ProtoFieldIter :=
  (some (.ok { fieldNumber := fieldNumber, wireType := wireType, value := value }),
    { self with pos := next })

/-- The value of a field whose tag has been read. -/
def nextValue (self : ProtoFieldIter) (fieldNumber : Nat) (wireType : WireType) :
    Option (Except RiegeliError ProtoField) × ProtoFieldIter :=
  match wireType with
  | .varint =>
      match readCanonicalVarint64 self.data self.pos with
      | some (value, consumed) =>
          self.yielded fieldNumber .varint (.varint value) (self.pos + consumed)
      | none =>
          self.failed ("invalid or truncated varint value at offset " ++ toString self.pos)
  | .fixed32 =>
      if self.data.length < self.pos + 4 then
        self.failed ("truncated fixed32 at offset " ++ toString self.pos)
      else
        self.yielded fieldNumber .fixed32
          (.fixed32 (fromLeBytes ((self.data.drop self.pos).take 4))) (self.pos + 4)
  | .fixed64 =>
      if self.data.length < self.pos + 8 then
        self.failed ("truncated fixed64 at offset " ++ toString self.pos)
      else
        self.yielded fieldNumber .fixed64
          (.fixed64 (fromLeBytes ((self.data.drop self.pos).take 8))) (self.pos + 8)
  | .lengthDelimited =>
      match readCanonicalVarint32 self.data self.pos with
      | some (length, consumed) =>
          let begun := self.pos + consumed
          if begun + length ≤ self.data.length then
            self.yielded fieldNumber .lengthDelimited
              (.lengthDelimited ((self.data.drop begun).take length)) (begun + length)
          else
            { self with pos := begun }.failed
              ("length-delimited field at offset " ++ toString self.pos ++ " declares length " ++
                toString length ++ " but only " ++ toString (self.data.length - begun) ++
                " bytes remain")
      | none =>
          self.failed ("invalid or truncated length prefix at offset " ++ toString self.pos)
  | .startGroup => self.yielded fieldNumber .startGroup .startGroup self.pos
  | .endGroup => self.yielded fieldNumber .endGroup .endGroup self.pos

/-- `ProtoFieldIter::next`. -/
def next (self : ProtoFieldIter) :
    Option (Except RiegeliError ProtoField) × ProtoFieldIter :=
  if self.errored = true ∨ self.data.length ≤ self.pos then (none, self)
  else
    match readCanonicalVarint32 self.data self.pos with
    | none => self.failed ("invalid or truncated tag at offset " ++ toString self.pos)
    | some (tag, tagLen) =>
        if tagFieldNumber tag = 0 then
          self.failed ("field number 0 at offset " ++ toString self.pos)
        else
          match tagWireType tag with
          | none =>
              self.failed
                ("invalid wire type " ++ toString (tag % 8) ++ " at offset " ++ toString self.pos)
          | some wireType =>
              { self with pos := self.pos + tagLen }.nextValue (tagFieldNumber tag) wireType

/-- The loop of `collect`. -/
def collectLoop : Nat → ProtoFieldIter → Rust (List ProtoField)
  | 0, _ => .error .outOfFuel
  | fuel + 1, self =>
      match self.next with
      | (none, _) => .ok []
      | (some (.error error), _) => .error (.error error)
      | (some (.ok field), self) => do
          let rest ← collectLoop fuel self
          .ok (field :: rest)

/-- `collect::<Result<Vec<_>, _>>()`: the fields, or the first error.  Every
field takes at least the byte of its tag. -/
def collect (self : ProtoFieldIter) : Rust (List ProtoField) :=
  collectLoop (self.data.length + 1) self

end ProtoFieldIter

/-- `serialize_field`. -/
def serializeField (buf : Bytes) (field : ProtoField) : Bytes :=
  let buf := encodeTag buf field.fieldNumber field.wireType
  match field.value with
  | .varint value => encodeVarint64 buf value
  | .fixed32 value => buf ++ toLeBytes 4 value
  | .fixed64 value => buf ++ toLeBytes 8 value
  | .lengthDelimited bytes => encodeVarint32 buf (bytes.length % 2 ^ 32) ++ bytes
  | .startGroup => buf
  | .endGroup => buf

/-- `FilteredFieldIter`. -/
structure FilteredFieldIter where
  inner : ProtoFieldIter
  allowed : List Nat
  groupDepth : Nat
  keepingGroup : Bool
  errored : Bool
deriving Repr, DecidableEq

namespace FilteredFieldIter

/-- `FilteredFieldIter::new`. -/
def new (data : Bytes) (allowed : List Nat) : FilteredFieldIter :=
  { inner := ProtoFieldIter.new data, allowed := allowed, groupDepth := 0
    keepingGroup := false, errored := false }

/-- `self.group_depth` past a field inside a group. -/
def depthAfter (depth : Nat) : WireType → Nat
  | .startGroup => depth + 1
  | .endGroup => depth - 1
  | _ => depth

/-- The loop of `FilteredFieldIter::next`. -/
def nextLoop : Nat → FilteredFieldIter →
    Rust (Option (Except RiegeliError ProtoField) × FilteredFieldIter)
  | 0, _ => .error .outOfFuel
  | fuel + 1, self =>
      match self.inner.next with
      | (none, inner) => .ok (none, { self with inner := inner })
      | (some (.error error), inner) => .ok (some (.error error), { self with inner := inner })
      | (some (.ok field), inner) =>
          let self := { self with inner := inner }
          if 0 < self.groupDepth then
            let self := { self with groupDepth := depthAfter self.groupDepth field.wireType }
            if self.keepingGroup then .ok (some (.ok field), self) else nextLoop fuel self
          else if field.wireType = .startGroup then
            let self :=
              { self with
                groupDepth := 1
                keepingGroup := self.allowed.contains field.fieldNumber }
            if self.keepingGroup then .ok (some (.ok field), self) else nextLoop fuel self
          else if field.wireType = .endGroup then
            .ok (some (.error (.malformedData ("end-group tag for field " ++
                toString field.fieldNumber ++ " without matching start-group"))),
              { self with errored := true })
          else if self.allowed.contains field.fieldNumber then .ok (some (.ok field), self)
          else nextLoop fuel self

/-- `FilteredFieldIter::next`.  Every pass consumes at least the byte of a
tag. -/
def next (self : FilteredFieldIter) :
    Rust (Option (Except RiegeliError ProtoField) × FilteredFieldIter) :=
  if self.errored then .ok (none, self) else nextLoop (self.inner.data.length + 1) self

end FilteredFieldIter

/-- `SerializedMessageWriter`. -/
structure SerializedMessageWriter where
  buf : Bytes
  scopeStack : List Nat
deriving Repr, DecidableEq

namespace SerializedMessageWriter

/-- `SerializedMessageWriter::new`. -/
def new : SerializedMessageWriter := { buf := [], scopeStack := [] }

/-- `SerializedMessageWriter::finish`. -/
def finish (self : SerializedMessageWriter) : Rust Bytes :=
  if self.scopeStack ≠ [] then
    .error (malformed ("finish() called with " ++ toString self.scopeStack.length ++
      " unclosed length-delimited scope(s)"))
  else .ok self.buf

/-- `SerializedMessageWriter::write_field`. -/
def writeField (field : ProtoField) : Act SerializedMessageWriter Fault Unit :=
  Act.modify fun self => { self with buf := serializeField self.buf field }

end SerializedMessageWriter

/-- The loop of `copy_fields`. -/
def copyFieldsLoop : Nat → FilteredFieldIter → Act SerializedMessageWriter Fault Unit
  | 0, _ => Act.fail .outOfFuel
  | fuel + 1, iter => do
      let (result, iter) ← Act.lift iter.next
      match result with
      | none => pure ()
      | some (.error error) => Act.fail (.error error)
      | some (.ok field) => do
          SerializedMessageWriter.writeField field
          copyFieldsLoop fuel iter

/-- `copy_fields`. -/
def copyFields (source : Bytes) (fieldNumbers : List Nat) :
    Act SerializedMessageWriter Fault Unit :=
  copyFieldsLoop (source.length + 1) (FilteredFieldIter.new source fieldNumbers)

end Riegeli
