/-
Module: Riegeli.Core.RecordWriter
Purpose: The file writer of `record_writer.rs` over a sink that records every
  call made on it and may refuse any of them.
Trusted boundary: the hash, the codecs and the sink
Main exports: SinkCall, Sink, WriterOptions, RecordWriter, posAfterPadding,
  RecordWriter.new, RecordWriter.writeRecord, RecordWriter.flush,
  RecordWriter.close, RecordWriter.drop
-/
import Riegeli.Core.SimpleChunk
import Riegeli.Core.TransposeChunk

namespace Riegeli

variable (ext : Externals)

/-- A call on the sink: `write_all(bytes)` or `flush()`. -/
inductive SinkCall where
  | write (bytes : Bytes)
  | flush
deriving Repr, DecidableEq

/-- The bytes a call hands over. -/
def SinkCall.bytes : SinkCall → Bytes
  | .write bytes => bytes
  | .flush => []

/-- An underlying `Write`.  `respond` answers the last call of a history, so
it may fail at any point and in any pattern. -/
structure Sink where
  respond : List SinkCall → Option IoError
  calls : List SinkCall

/-- The bytes handed to a sink. -/
def Sink.bytes (sink : Sink) : Bytes := sink.calls.flatMap SinkCall.bytes

/-- Make a call.  The history keeps it whatever the answer. -/
def Sink.call (sink : Sink) (call : SinkCall) : Rust Unit × Sink :=
  let calls := sink.calls ++ [call]
  let next := { sink with calls := calls }
  match sink.respond calls with
  | none => (.ok (), next)
  | some error => (.error (.error (.ioError error)), next)

/-- `WriterOptions`.  `bucketSizeRounded` is the rounded product of the chunk
size and the bucket fraction, a floating-point computation of the source. -/
structure WriterOptions where
  compression : CompressionType
  chunkSize : Nat
  initialPadding : Nat
  finalPadding : Nat
  transpose : Bool
  bucketSizeRounded : Nat
  compressionLevel : Option Int
  windowLog : Option Nat
  metadata : Option Bytes
deriving Repr, DecidableEq

/-- `ActiveEncoder`. -/
inductive ActiveEncoder where
  | simple (encoder : SimpleChunkEncoder)
  | transpose (encoder : TransposeChunkEncoder)

/-- `ActiveEncoder::add_record`. -/
def ActiveEncoder.addRecord (data : Bytes) : ActiveEncoder → Rust ActiveEncoder
  | .simple encoder => .ok (.simple (encoder.addRecord data))
  | .transpose encoder => do
      let encoder ← encoder.addRecord data
      .ok (.transpose encoder)

/-- `ActiveEncoder::encode`. -/
def ActiveEncoder.encode : ActiveEncoder → Rust Chunk
  | .simple encoder => encoder.encode ext
  | .transpose encoder => encoder.encode ext

/-- `RecordWriter`. -/
structure RecordWriter where
  sink : Sink
  compression : CompressionType
  chunkSize : Nat
  initialPadding : Nat
  finalPadding : Nat
  transpose : Bool
  transposeBucketSize : Nat
  compressOpts : CompressOptions
  filePos : Nat
  lastChunkStart : Nat
  encoder : ActiveEncoder
  accumulatedBytes : Nat
  pendingRecordCount : Nat
  closed : Bool
  failed : Option String

/-! ## Padding positions -/

/-- Enough passes for a loop over a word: one that goes on longer comes back to
a word it has been at, and never ends. -/
def wordPasses : Nat := 2 ^ 64

/-- Add to a word until it will do. -/
def growUntil (step : Nat) (done : Nat → Bool) : Nat → Nat → Rust Nat
  | 0, _ => .error .outOfFuel
  | fuel + 1, value =>
      if done value then .ok value else growUntil step done fuel (wrapAdd value step)

/-- The first loop of `pos_after_padding`: room for a chunk header. -/
def paddingLengthLoop (padding length : Nat) : Rust Nat :=
  growUntil padding (fun length => ¬ length < chunkHeaderSize) wordPasses length

/-- The second loop of `pos_after_padding`: a possible chunk boundary with the
header's worth of usable bytes before it. -/
def paddingEndLoop (pos padding endPos : Nat) : Rust Nat :=
  growUntil padding
    (fun endPos => remainingInBlock endPos < blockSize - blockHeaderSize ∧
      chunkHeaderSize ≤ distanceWithoutOverhead pos endPos) wordPasses endPos

/-- `pos_after_padding`. -/
def posAfterPadding (pos padding : Nat) : Rust Nat :=
  if padding ≤ 1 then .ok pos
  else
    let remainder := pos % padding
    if remainder = 0 then .ok pos
    else do
      let length ← paddingLengthLoop padding (padding - remainder)
      paddingEndLoop pos padding (wrapAdd pos length)

namespace RecordWriter

/-- A method of the writer. -/
abbrev Method (Value : Type) := Act RecordWriter Fault Value

/-- `self.writer.write_all(bytes)?` or `self.writer.flush()?`. -/
def callSink (call : SinkCall) : Method Unit := fun self =>
  let (result, sink) := self.sink.call call
  (result, { self with sink := sink })

/-- `self.file_pos += count`. -/
def advance (count : Nat) : Method Unit :=
  Act.modify fun self => { self with filePos := self.filePos + count }

/-- Write the block header of the boundary at `filePos`. -/
def writeBlockHeader (chunkBegin chunkStop : Nat) : Method Unit := do
  let self ← Act.get
  let blockPos := self.filePos
  let prev ← Act.lift (subWord blockPos chunkBegin)
  let next ← Act.lift (subWord chunkStop blockPos)
  callSink (.write (BlockHeader.fromParts ext prev next).toBytes)
  advance blockHeaderSize

/-- The loop of `write_bytes_with_block_headers` on the bytes still to be
written.  Every pass writes at least one of them. -/
def writeBytesLoop (chunkBegin chunkStop : Nat) : Nat → Bytes → Method Unit
  | 0, _ => Act.fail .outOfFuel
  | fuel + 1, bytes =>
      if bytes.isEmpty then pure ()
      else do
        let self ← Act.get
        Act.whenever (self.filePos % blockSize = 0) (writeBlockHeader ext chunkBegin chunkStop)
        let self ← Act.get
        let posInBlock := self.filePos % blockSize
        let spaceInBlock := blockSize - posInBlock
        let toWrite := min bytes.length spaceInBlock
        callSink (.write (bytes.take toWrite))
        advance toWrite
        writeBytesLoop chunkBegin chunkStop fuel (bytes.drop toWrite)

/-- `write_bytes_with_block_headers`. -/
def writeBytesWithBlockHeaders (bytes : Bytes) (chunkBegin chunkStop : Nat) : Method Unit :=
  writeBytesLoop ext chunkBegin chunkStop (bytes.length + 1) bytes

/-- The zero-padding loop of `write_chunk_raw`.  Every pass moves `filePos`. -/
def zeroPaddingLoop (chunkStart chunkEndPos : Nat) : Nat → Method Unit
  | 0 => Act.fail .outOfFuel
  | fuel + 1 => do
      let self ← Act.get
      if self.filePos < chunkEndPos then
        if self.filePos % blockSize = 0 then do
          writeBlockHeader ext chunkStart chunkEndPos
          zeroPaddingLoop chunkStart chunkEndPos fuel
        else do
          let posInBlock := self.filePos % blockSize
          let spaceInBlock := blockSize - posInBlock
          let toWrite := min (chunkEndPos - self.filePos) spaceInBlock
          callSink (.write (List.replicate toWrite 0))
          advance toWrite
          zeroPaddingLoop chunkStart chunkEndPos fuel
      else pure ()

/-- `write_chunk_raw`. -/
def writeChunkRaw (header : ChunkHeader) (data : Bytes) : Method Unit := do
  let self ← Act.get
  let chunkStart := self.filePos
  let chunkEndPos := chunkEnd chunkStart header.dataSize header.numRecords
  let allBytes ← Act.lift (collectVec (header.toBytes ++ data))
  Act.modify fun self => { self with lastChunkStart := chunkStart }
  writeBytesWithBlockHeaders ext allBytes chunkStart chunkEndPos
  let self ← Act.get
  zeroPaddingLoop ext chunkStart chunkEndPos (chunkEndPos - self.filePos + 1)

/-- The encoder of a new chunk. -/
def freshEncoder (self : RecordWriter) : ActiveEncoder :=
  if self.transpose then
    .transpose
      (((TransposeChunkEncoder.new self.compression).withCompressOpts
        self.compressOpts).withBucketSize self.transposeBucketSize)
  else .simple (SimpleChunkEncoder.withOptions self.compression self.compressOpts)

/-- `flush_chunk`. -/
def flushChunk : Method Unit := do
  let self ← Act.get
  let encoder := self.encoder
  Act.modify fun self =>
    { self with
      encoder := self.freshEncoder
      accumulatedBytes := 0
      pendingRecordCount := 0 }
  let chunk ← Act.lift (encoder.encode ext)
  writeChunkRaw ext chunk.header chunk.data

/-- `write_padding_to_multiple`. -/
def writePaddingToMultiple (alignment : Nat) : Method Unit := do
  let self ← Act.get
  let current := self.filePos
  let endPos ← Act.lift (posAfterPadding current alignment)
  if endPos = current then pure ()
  else do
    let dataSize ← Act.lift (subWord (distanceWithoutOverhead current endPos) chunkHeaderSize)
    let paddingData : Bytes := List.replicate dataSize 0
    writeChunkRaw ext (ChunkHeader.fromParts ext paddingData .padding 0 0) paddingData

/-- `check_not_failed`. -/
def checkNotFailed : Method Unit := do
  let self ← Act.get
  match self.failed with
  | some message => Act.fail (.error (.writerFailed message))
  | none => pure ()

/-- Run the body of an operation and keep the text of its first failure,
`latch_failure(self.body())`. -/
def latchFailure (body : Method Unit) : Method Unit := fun self =>
  match body self with
  | (.error (.error error), next) =>
      (.error (.error error),
        if next.failed.isNone then { next with failed := some error.toText } else next)
  | outcome => outcome

/-- `write_record_impl`. -/
def writeRecordImpl (data : Bytes) : Method Unit := do
  let addedSize := data.length + 8
  let self ← Act.get
  Act.whenever (self.chunkSize < self.accumulatedBytes + addedSize ∧ 0 < self.accumulatedBytes)
    (flushChunk ext)
  Act.modify fun self =>
    { self with
      accumulatedBytes := self.accumulatedBytes + addedSize
      pendingRecordCount := self.pendingRecordCount + 1 }
  let self ← Act.get
  let encoder ← Act.lift (self.encoder.addRecord data)
  Act.modify fun self => { self with encoder := encoder }
  let self ← Act.get
  Act.whenever (self.chunkSize < self.accumulatedBytes + 8) (flushChunk ext)

/-- `write_record`. -/
def writeRecord (data : Bytes) : Method Unit := do
  let self ← Act.get
  if self.closed then Act.fail (.error .writerClosed)
  else do
    checkNotFailed
    latchFailure (writeRecordImpl ext data)

/-- `flush_impl` and `flush_internal_impl`, which are the same. -/
def flushImpl : Method Unit := do
  let self ← Act.get
  Act.whenever (0 < self.pendingRecordCount) (flushChunk ext)
  let self ← Act.get
  Act.whenever (0 < self.finalPadding) (writePaddingToMultiple ext self.finalPadding)
  callSink .flush

/-- `flush`. -/
def flush : Method Unit := do
  let self ← Act.get
  if self.closed then pure ()
  else do
    checkNotFailed
    latchFailure (flushImpl ext)

/-- `flush_internal`. -/
def flushInternal : Method Unit := do
  let self ← Act.get
  if self.closed then pure ()
  else do
    Act.modify fun self => { self with closed := true }
    checkNotFailed
    latchFailure (flushImpl ext)

/-- `close`, before the value is dropped. -/
def close : Method Unit := flushInternal ext

/-- `impl Drop for RecordWriter`: what is left of the writer is its sink. -/
def drop (self : RecordWriter) : Sink := (flushInternal ext self).2.sink

/-! ## Construction -/

/-- The validation of the tuning options. -/
def validateOptions (options : WriterOptions) : Rust Unit :=
  match options.compression with
  | .none =>
      if options.windowLog.isSome then
        .error (malformed "window_log is not applicable to compression type None")
      else .ok ()
  | .snappy =>
      if options.windowLog.isSome then
        .error (malformed "window_log is not applicable to compression type Snappy")
      else .ok ()
  | .brotli =>
      match options.compressionLevel.filter (fun level => ¬ (0 ≤ level ∧ level ≤ 11)) with
      | some level =>
          .error
            (malformed
              s!"compression_level out of range for Brotli: {level} (valid: 0..=11)")
      | none =>
          match options.windowLog.filter (fun log => ¬ (10 ≤ log ∧ log ≤ 30)) with
          | some log =>
              .error (malformed s!"window_log out of range for Brotli: {log} (valid: 10..=30)")
          | none => .ok ()
  | .zstd =>
      match options.compressionLevel.filter
          (fun level => ¬ (-131072 ≤ level ∧ level ≤ 22)) with
      | some level =>
          .error
            (malformed
              s!"compression_level out of range for Zstd: {level} (valid: -131072..=22)")
      | none =>
          match options.windowLog.filter (fun log => ¬ (10 ≤ log ∧ log ≤ 31)) with
          | some log =>
              .error (malformed s!"window_log out of range for Zstd: {log} (valid: 10..=31)")
          | none => .ok ()

/-- `MAX_NUM_RECORDS`. -/
def maxNumRecords : Nat := u64Max / 256

/-- The bucket size of the transposed encoder. -/
def bucketSizeOf (rounded : Nat) : Nat :=
  if 2 ^ 64 ≤ rounded then u64Max else if 1 ≤ rounded then rounded else 1

/-- The chunk header of the file signature. -/
def signatureHeader : ChunkHeader := ChunkHeader.fromParts ext [] .fileSignature 0 0

/-- The writer that has written the file signature to `sink`. -/
def initial (sink : Sink) (options : WriterOptions) : RecordWriter :=
  let compressOpts : CompressOptions :=
    { level := options.compressionLevel, windowLog := options.windowLog }
  let bucketSize := bucketSizeOf options.bucketSizeRounded
  { sink := sink
    compression := options.compression
    chunkSize := min options.chunkSize (maxNumRecords * 8)
    initialPadding := options.initialPadding
    finalPadding := options.finalPadding
    transpose := options.transpose
    transposeBucketSize := bucketSize
    compressOpts := compressOpts
    filePos := blockHeaderSize + chunkHeaderSize
    lastChunkStart := 0
    encoder :=
      if options.transpose then
        .transpose
          (((TransposeChunkEncoder.new options.compression).withCompressOpts
            compressOpts).withBucketSize bucketSize)
      else .simple (SimpleChunkEncoder.withOptions options.compression compressOpts)
    accumulatedBytes := 0
    pendingRecordCount := 0
    closed := false
    failed := none }

/-- The metadata chunk: a transposed chunk under a header of its own. -/
def encodeMetadata (compression : CompressionType) (compressOpts : CompressOptions)
    (metadata : Bytes) : Rust Chunk := do
  let encoder := (TransposeChunkEncoder.new compression).withCompressOpts compressOpts
  let encoder ← encoder.addRecord metadata
  let encoded ← encoder.encode ext
  .ok
    { header := ChunkHeader.fromParts ext encoded.data .fileMetadata 0 metadata.length
      data := encoded.data }

/-- Write the metadata chunk, if there is one. -/
def writeMetadata (options : WriterOptions) : Method Unit :=
  match options.metadata with
  | none => pure ()
  | some metadata => do
      let self ← Act.get
      let chunk ←
        Act.lift (encodeMetadata ext options.compression self.compressOpts metadata)
      writeChunkRaw ext chunk.header chunk.data

/-- `RecordWriter::new`.  Until the value exists a failure leaves only the
sink behind; a failure while writing the metadata drops the value. -/
def new (sink : Sink) (options : WriterOptions) : Rust RecordWriter × Sink :=
  match validateOptions options with
  | .error fault => (.error fault, sink)
  | .ok () =>
      let blockHeader := BlockHeader.fromParts ext 0 (blockHeaderSize + chunkHeaderSize)
      match sink.call (.write blockHeader.toBytes) with
      | (.error fault, sink) => (.error fault, sink)
      | (.ok (), sink) =>
          match sink.call (.write (signatureHeader ext).toBytes) with
          | (.error fault, sink) => (.error fault, sink)
          | (.ok (), sink) =>
              match writeMetadata ext options (initial sink options) with
              | (.ok (), self) => (.ok self, self.sink)
              | (.error fault, self) => (.error fault, drop ext self)

end RecordWriter

end Riegeli
