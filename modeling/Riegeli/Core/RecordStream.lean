/-
Module: Riegeli.Core.RecordStream
Purpose: The field filter, the column extraction and the field delivery of
  `proto/stream.rs`, which go through the records of a reader.
Trusted boundary: the hash, the codecs, the sink and the handlers
Main exports: StreamError, StreamFault, filterFieldsToWriter,
  extractVarintColumn, forEachProtoRecord
-/
import Riegeli.Core.FieldHandlers
import Riegeli.Core.FieldIteration
import Riegeli.Core.RecordReader
import Riegeli.Core.RecordWriter

namespace Riegeli

variable (ext : Externals)

/-- `StreamError`. -/
structure StreamError where
  recordIndex : Nat
  source : RiegeliError
deriving Repr, DecidableEq

/-- The ways a call over a stream of records fails to return a value. -/
inductive StreamFault where
  | error (error : StreamError)
  | panic (kind : PanicKind)
  | outOfFuel
deriving Repr, DecidableEq

/-- `map_err(|e| StreamError { record_index, source: e })`. -/
def StreamFault.at (recordIndex : Nat) : Fault → StreamFault
  | .error source => .error { recordIndex := recordIndex, source := source }
  | .panic kind => .panic kind
  | .outOfFuel => .outOfFuel

namespace RecordStream

/-- A reader and a writer, both borrowed. -/
abbrev Streams := RecordReader × RecordWriter

/-- A call that may fail at a record. -/
abbrev Call (Value : Type) := Act Streams StreamFault Value

variable {Value : Type}

/-- A method of the reader, for the record at this index. -/
def onReader (recordIndex : Nat) (method : RecordReader.Method Value) : Call Value :=
  fun streams =>
    match method streams.1 with
    | (.ok value, reader) => (.ok value, (reader, streams.2))
    | (.error fault, reader) => (.error (.at recordIndex fault), (reader, streams.2))

/-- A method of the writer, for the record at this index. -/
def onWriter (recordIndex : Nat) (method : RecordWriter.Method Value) : Call Value :=
  fun streams =>
    match method streams.2 with
    | (.ok value, writer) => (.ok value, (streams.1, writer))
    | (.error fault, writer) => (.error (.at recordIndex fault), (streams.1, writer))

/-- A computation on the record at this index. -/
def onRecord (recordIndex : Nat) (result : Rust Value) : Call Value :=
  Act.lift (result.mapError (StreamFault.at recordIndex))

/-- The error for a record that is encoded non-canonically. -/
def nonCanonical : RiegeliError :=
  .malformedData ("record parses as a proto message but uses non-canonical varint " ++
    "encoding; refusing to pass it through unfiltered")

/-- `copy_fields` into a new writer, and its bytes. -/
def filterFields (record : Bytes) (fieldNumbers : List Nat) : Rust Bytes := do
  let (result, msgWriter) := copyFields record fieldNumbers SerializedMessageWriter.new
  result
  msgWriter.finish

/-- What `filter_fields_to_writer` does with one record. -/
def filterRecord (fieldNumbers : List Nat) (recordIndex : Nat) (record : Bytes) : Call Unit :=
  if isProtoMessage record then do
    let filtered ← onRecord recordIndex (filterFields record fieldNumbers)
    onWriter recordIndex (RecordWriter.writeRecord ext filtered)
  else if isParseableProtoMessage record then
    Act.fail (.error { recordIndex := recordIndex, source := nonCanonical })
  else onWriter recordIndex (RecordWriter.writeRecord ext record)

/-- The loop of `filter_fields_to_writer`. -/
def filterFieldsLoop (fieldNumbers : List Nat) : Nat → Nat → Call Unit
  | 0, _ => Act.fail .outOfFuel
  | fuel + 1, recordIndex => do
      match ← onReader recordIndex (RecordReader.readRecord ext) with
      | none => pure ()
      | some record => do
          filterRecord ext fieldNumbers recordIndex record
          filterFieldsLoop fieldNumbers fuel (recordIndex + 1)

/-- `filter_fields_to_writer`, with enough passes for `fuel - 1` records. -/
def filterFieldsToWriter (fuel : Nat) (fieldNumbers : List Nat) : Call Unit :=
  filterFieldsLoop ext fieldNumbers fuel 0

/-! ## Columns -/

/-- The loop of `extract_varint_column` over the fields of a record. -/
def columnLoop (fieldNumber : Nat) :
    Nat → ProtoFieldIter → Nat → List Nat → Rust (List Nat)
  | 0, _, _, _ => .error .outOfFuel
  | fuel + 1, iter, groupDepth, values =>
      match iter.next with
      | (none, _) => .ok values
      | (some (.error error), _) => .error (.error error)
      | (some (.ok field), iter) =>
          match field.wireType with
          | .startGroup => columnLoop fieldNumber fuel iter (groupDepth + 1) values
          | .endGroup => columnLoop fieldNumber fuel iter (groupDepth - 1) values
          | _ =>
              if groupDepth = 0 ∧ field.fieldNumber = fieldNumber then
                match field.value with
                | .varint value => columnLoop fieldNumber fuel iter groupDepth (values ++ [value])
                | _ => columnLoop fieldNumber fuel iter groupDepth values
              else columnLoop fieldNumber fuel iter groupDepth values

/-- What `extract_varint_column` does with one record.  Every pass over its
fields consumes at least the byte of a tag. -/
def recordColumn (fieldNumber : Nat) (record : Bytes) (values : List Nat) : Rust (List Nat) :=
  if isProtoMessage record then
    columnLoop fieldNumber (record.length + 1) (ProtoFieldIter.new record) 0 values
  else .ok values

/-- `reader.read_record()`, for the record at this index. -/
def readRecordAt (recordIndex : Nat) : Act RecordReader StreamFault (Option Bytes) :=
  fun reader =>
    match RecordReader.readRecord ext reader with
    | (.ok record, reader) => (.ok record, reader)
    | (.error fault, reader) => (.error (.at recordIndex fault), reader)

/-- The loop of `extract_varint_column`. -/
def extractVarintLoop (fieldNumber : Nat) :
    Nat → Nat → List Nat → Act RecordReader StreamFault (List Nat)
  | 0, _, _ => Act.fail .outOfFuel
  | fuel + 1, recordIndex, values => do
      match ← readRecordAt ext recordIndex with
      | none => pure values
      | some record => do
          let values ←
            Act.lift ((recordColumn fieldNumber record values).mapError (StreamFault.at recordIndex))
          extractVarintLoop fieldNumber fuel (recordIndex + 1) values

/-- `extract_varint_column`, with enough passes for `fuel - 1` records. -/
def extractVarintColumn (fuel fieldNumber : Nat) : Act RecordReader StreamFault (List Nat) :=
  extractVarintLoop ext fieldNumber fuel 0 []

/-! ## Handlers -/

/-- A reader and a handler set, both borrowed, and what the fallback has
captured. -/
structure HandledRecords (Handlers World : Type) where
  reader : RecordReader
  handlers : Handlers
  world : World

variable {Handlers World : Type}

/-- The next record, for the record at this index. -/
def HandledRecords.read (recordIndex : Nat) :
    Act (HandledRecords Handlers World) StreamFault (Option Bytes) :=
  fun streams =>
    match RecordReader.readRecord ext streams.reader with
    | (.ok record, reader) => (.ok record, { streams with reader := reader })
    | (.error fault, reader) => (.error (.at recordIndex fault), { streams with reader := reader })

/-- `read_message`, for the record at this index. -/
def HandledRecords.hand [HandleField Handlers] (recordIndex : Nat) (record : Bytes) :
    Act (HandledRecords Handlers World) StreamFault Unit :=
  fun streams =>
    match readMessage record streams.handlers with
    | (.ok _, handlers) => (.ok (), { streams with handlers := handlers })
    | (.error fault, handlers) =>
        (.error (.at recordIndex fault), { streams with handlers := handlers })

/-- `if let Some(fb) = fallback.as_deref_mut() { fb(record_index, &record); }`. -/
def callFallback (fallback : Option (Nat → Bytes → World → World)) (recordIndex : Nat)
    (record : Bytes) (world : World) : World :=
  match fallback with
  | some call => call recordIndex record world
  | none => world

/-- What `for_each_proto_record` does with one record. -/
def handRecord [HandleField Handlers] (fallback : Option (Nat → Bytes → World → World))
    (recordIndex : Nat) (record : Bytes) : Act (HandledRecords Handlers World) StreamFault Unit :=
  if isProtoMessage record then HandledRecords.hand recordIndex record
  else Act.modify fun streams =>
    { streams with world := callFallback fallback recordIndex record streams.world }

/-- The loop of `for_each_proto_record`. -/
def forEachLoop [HandleField Handlers] (fallback : Option (Nat → Bytes → World → World)) :
    Nat → Nat → Act (HandledRecords Handlers World) StreamFault Unit
  | 0, _ => Act.fail .outOfFuel
  | fuel + 1, recordIndex => do
      match ← HandledRecords.read ext recordIndex with
      | none => pure ()
      | some record => do
          handRecord fallback recordIndex record
          forEachLoop fallback fuel (recordIndex + 1)

/-- `for_each_proto_record`, with enough passes for `fuel - 1` records. -/
def forEachProtoRecord [HandleField Handlers] (fuel : Nat)
    (fallback : Option (Nat → Bytes → World → World)) :
    Act (HandledRecords Handlers World) StreamFault Unit :=
  forEachLoop ext fallback fuel 0

end RecordStream

end Riegeli
