/-
Module: Riegeli.Proofs.WriterLayout
Purpose: The bytes of a writer on a reliable sink are a file: every method
  only appends whole chunks, and every position is accounted for.
Trusted boundary: the hash, the codecs and the sink
Main exports: LaidOut, Extends, writeChunkRaw_laidOut, runWriter_extends,
  WriterLayout, writer_layout
-/
import Riegeli.Proofs.WriterTrace
import Riegeli.Spec.WriterRuns

namespace Riegeli

variable (ext : Externals)

/-- The writer's sink holds exactly these chunks. -/
structure LaidOut (writer : RecordWriter) (chunks : List Chunk) : Prop where
  bytes : writer.sink.bytes = fileBytes ext 0 chunks
  filePos : writer.filePos = fileStop 0 chunks
  wellPlaced : WellPlaced 0 chunks

/-- The sink has refused none of its calls. -/
def Sink.Clean (sink : Sink) : Prop :=
  ∀ count, 0 < count → count ≤ sink.calls.length → sink.respond (sink.calls.take count) = none

/-- The sink has refused its last call and none before it. -/
structure Sink.Stopped (sink : Sink) (error : IoError) : Prop where
  refused : sink.respond sink.calls = some error
  before : ∀ count, 0 < count → count < sink.calls.length →
    sink.respond (sink.calls.take count) = none

/-- What no operation changes. -/
def RecordWriter.settings (self : RecordWriter) :
    CompressionType × Nat × Nat × Bool × Nat × CompressOptions :=
  (self.compression, self.chunkSize, self.finalPadding, self.transpose,
    self.transposeBucketSize, self.compressOpts)

/-- A method keeps the sink's answers and the settings, never moves the
position back, and ends with the first call that the sink refuses. -/
structure Steady (before : RecordWriter) (failure : Option Fault) (after : RecordWriter) :
    Prop where
  respond : after.sink.respond = before.sink.respond
  calls : before.sink.calls <+: after.sink.calls
  filePos : before.filePos ≤ after.filePos
  settings : after.settings = before.settings
  closed : after.closed = before.closed
  clean : before.sink.Clean → after.sink.Clean ∨
    ∃ error, failure = some (.error (.ioError error)) ∧ after.sink.Stopped error

/-- A method only appends whole chunks to a reliable sink. -/
structure Extends (before : RecordWriter) (failure : Option Fault) (after : RecordWriter) :
    Prop where
  steady : Steady before failure after
  appends : before.sink.Reliable → ∀ chunks, LaidOut ext before chunks →
    after.filePos ≤ u64Max → ∃ more, LaidOut ext after (chunks ++ more)

variable {ext}

/-! ## Steadiness -/

theorem Steady.refl (failure : Option Fault) (writer : RecordWriter) :
    Steady writer failure writer :=
  ⟨rfl, List.prefix_rfl, Nat.le_refl _, rfl, rfl, Or.inl⟩

theorem Steady.trans {before middle : RecordWriter} {failure : Option Fault}
    {after : RecordWriter} (first : Steady before none middle)
    (second : Steady middle failure after) : Steady before failure after := by
  refine ⟨second.respond.trans first.respond, first.calls.trans second.calls,
    Nat.le_trans first.filePos second.filePos, second.settings.trans first.settings,
    second.closed.trans first.closed, fun clean => ?_⟩
  rcases first.clean clean with cleanMiddle | ⟨error, failed, _⟩
  · exact second.clean cleanMiddle
  · simp at failed

/-- A method that makes no call is steady. -/
theorem Steady.of_same {before : RecordWriter} {failure : Option Fault} {after : RecordWriter}
    (sink : after.sink = before.sink) (filePos : before.filePos ≤ after.filePos)
    (settings : after.settings = before.settings) (closed : after.closed = before.closed) :
    Steady before failure after :=
  ⟨by rw [sink], sink ▸ List.prefix_rfl, filePos, settings, closed,
    fun clean => Or.inl (by rwa [sink])⟩

theorem callSink_steady (call : SinkCall) : Act.Moves Steady (RecordWriter.callSink call) := by
  intro self
  cases answer : self.sink.respond (self.sink.calls ++ [call]) with
  | none =>
      rw [callSink_ok answer]
      refine ⟨rfl, List.prefix_append _ _, Nat.le_refl _, rfl, rfl, fun clean => Or.inl ?_⟩
      intro count positive within
      simp only [RecordWriter.called, List.length_append, List.length_singleton] at within ⊢
      rcases Nat.lt_or_ge self.sink.calls.length count with all | some
      · rw [List.take_of_length_le (by simp; omega)]
        exact answer
      · rw [List.take_append_of_le_length some]
        exact clean count positive some
  | some error =>
      rw [callSink_error answer]
      refine ⟨rfl, List.prefix_append _ _, Nat.le_refl _, rfl, rfl,
        fun clean => Or.inr ⟨error, rfl, answer, ?_⟩⟩
      intro count positive within
      simp only [RecordWriter.called, List.length_append, List.length_singleton] at within ⊢
      rw [List.take_append_of_le_length (by omega)]
      exact clean count positive (by omega)

theorem advance_steady (count : Nat) : Act.Moves Steady (RecordWriter.advance count) :=
  fun _ => Steady.of_same rfl (Nat.le_add_right _ _) rfl rfl

theorem writeBlockHeader_steady (chunkBegin stop : Nat) :
    Act.Moves Steady (RecordWriter.writeBlockHeader ext chunkBegin stop) := by
  refine Act.Moves.bind Steady.trans (Act.Moves.get (Steady.refl _)) fun _ => ?_
  refine Act.Moves.bind Steady.trans (Act.Moves.lift Steady.refl _) fun _ => ?_
  refine Act.Moves.bind Steady.trans (Act.Moves.lift Steady.refl _) fun _ => ?_
  exact Act.Moves.bind Steady.trans (callSink_steady _) fun _ => advance_steady _

theorem writeBytesLoop_steady (chunkBegin stop fuel : Nat) (bytes : Bytes) :
    Act.Moves Steady (RecordWriter.writeBytesLoop ext chunkBegin stop fuel bytes) := by
  induction fuel generalizing bytes with
  | zero => exact Act.Moves.fail (Steady.refl _)
  | succ fuel ih =>
      rw [RecordWriter.writeBytesLoop]
      split
      · exact Act.Moves.pure (Steady.refl _) _
      · refine Act.Moves.bind Steady.trans (Act.Moves.get (Steady.refl _)) fun _ => ?_
        refine Act.Moves.bind Steady.trans
          (Act.Moves.whenever (Steady.refl _) (writeBlockHeader_steady _ _)) fun _ => ?_
        refine Act.Moves.bind Steady.trans (Act.Moves.get (Steady.refl _)) fun _ => ?_
        refine Act.Moves.bind Steady.trans (callSink_steady _) fun _ => ?_
        exact Act.Moves.bind Steady.trans (advance_steady _) fun _ => ih _

theorem zeroPaddingLoop_steady (chunkBegin stop fuel : Nat) :
    Act.Moves Steady (RecordWriter.zeroPaddingLoop ext chunkBegin stop fuel) := by
  induction fuel with
  | zero => exact Act.Moves.fail (Steady.refl _)
  | succ fuel ih =>
      rw [RecordWriter.zeroPaddingLoop]
      refine Act.Moves.bind Steady.trans (Act.Moves.get (Steady.refl _)) fun _ => ?_
      split
      · split
        · exact Act.Moves.bind Steady.trans (writeBlockHeader_steady _ _) fun _ => ih
        · refine Act.Moves.bind Steady.trans (callSink_steady _) fun _ => ?_
          exact Act.Moves.bind Steady.trans (advance_steady _) fun _ => ih
      · exact Act.Moves.pure (Steady.refl _) _

theorem writeChunkRaw_steady (header : ChunkHeader) (data : Bytes) :
    Act.Moves Steady (RecordWriter.writeChunkRaw ext header data) := by
  refine Act.Moves.bind Steady.trans (Act.Moves.get (Steady.refl _)) fun _ => ?_
  refine Act.Moves.bind Steady.trans (Act.Moves.lift Steady.refl _) fun _ => ?_
  refine Act.Moves.bind Steady.trans
    (Act.Moves.modify fun _ => Steady.of_same rfl (Nat.le_refl _) rfl rfl) fun _ => ?_
  refine Act.Moves.bind Steady.trans (writeBytesLoop_steady _ _ _ _) fun _ => ?_
  refine Act.Moves.bind Steady.trans (Act.Moves.get (Steady.refl _)) fun _ => ?_
  exact zeroPaddingLoop_steady _ _ _

/-! ## Chunks -/

theorem Sink.Reliable.accepts {sink : Sink} (reliable : sink.Reliable) (pieces : List Bytes) :
    sink.Accepts pieces := fun _ _ _ => reliable _

theorem bytes_wrote (self : RecordWriter) (pieces : List Bytes) :
    (self.wrote pieces).sink.bytes = self.sink.bytes ++ pieces.flatten := by
  simp [RecordWriter.wrote, Sink.bytes, SinkCall.bytes, List.flatMap_append, List.flatMap_map]

theorem LaidOut.possible {self : RecordWriter} {chunks : List Chunk}
    (laid : LaidOut ext self chunks) : isPossibleChunkBoundary self.filePos = true := by
  rw [laid.filePos]
  exact laid.wellPlaced.possible_fileStop (by decide)

/-- A chunk written on a reliable sink is appended whole, and the write ends
at the end of the chunk without a fault. -/
theorem writeChunkRaw_laidOut {self : RecordWriter} {chunks : List Chunk} {header : ChunkHeader}
    {data : Bytes} (reliable : self.sink.Reliable) (laid : LaidOut ext self chunks)
    (sized : header.dataSize = data.length)
    (collected : (header.toBytes ++ data).length ≤ isizeMax)
    (within : chunkEnd self.filePos header.dataSize header.numRecords ≤ u64Max) :
    ∃ after, RecordWriter.writeChunkRaw ext header data self = (.ok (), after) ∧
      after.filePos = chunkEnd self.filePos header.dataSize header.numRecords ∧
      LaidOut ext after (chunks ++ [{ header := header, data := data }]) := by
  have possible := laid.possible
  have spec := chunkEnd_spec possible within
  have carries : ¬ (header.toBytes ++ data).isEmpty = true := by
    intro empty
    have := congrArg List.length (List.isEmpty_iff.mp empty)
    simp at this
  have room : bodyStop self.filePos (header.toBytes ++ data) ≤
      chunkEnd self.filePos header.dataSize header.numRecords := by
    have := spec.room
    rw [bodyStop_of_ne carries, List.length_append, ChunkHeader.length_toBytes, ← sized]
    exact this
  have flat := @chunkPieces_flatten ext _ _ _ possible spec.possible room carries
  have ahead := spec.begin_add_le
  refine ⟨_, (writeChunkRaw_eq sized collected possible).trans
    (emitPieces_ok (Sink.Reliable.accepts (by exact reliable) _)), ?_, ?_⟩
  · simp only [RecordWriter.wrote, flat, length_spanBytes]
    omega
  · constructor
    · rw [bytes_wrote, flat, fileBytes_append, ← laid.filePos]
      simp [fileBytes, Chunk.stop, Chunk.payload, laid.bytes]
    · rw [fileStop_append, ← laid.filePos]
      simp only [RecordWriter.wrote, flat, length_spanBytes, fileStop, Chunk.stop]
      omega
    · rw [WellPlaced.append, ← laid.filePos]
      exact ⟨laid.wellPlaced, sized, spec, trivial⟩

/-! ## Methods only append chunks -/

theorem Extends.refl (failure : Option Fault) (writer : RecordWriter) :
    Extends ext writer failure writer :=
  ⟨Steady.refl failure writer, fun _ chunks laid _ => ⟨[], by simpa using laid⟩⟩

theorem Extends.trans {before middle : RecordWriter} {failure : Option Fault}
    {after : RecordWriter} (first : Extends ext before none middle)
    (second : Extends ext middle failure after) : Extends ext before failure after := by
  refine ⟨first.steady.trans second.steady, fun reliable chunks laid within => ?_⟩
  obtain ⟨early, laidMiddle⟩ := first.appends reliable chunks laid
    (Nat.le_trans second.steady.filePos within)
  have reliableMiddle : middle.sink.Reliable := by
    intro calls
    rw [first.steady.respond]
    exact reliable calls
  obtain ⟨late, laidAfter⟩ := second.appends reliableMiddle _ laidMiddle within
  exact ⟨early ++ late, by rwa [← List.append_assoc]⟩

/-- The layout only depends on the sink and the position. -/
theorem LaidOut.of_same {before after : RecordWriter} {chunks : List Chunk}
    (laid : LaidOut ext before chunks) (sink : after.sink = before.sink)
    (filePos : after.filePos = before.filePos) : LaidOut ext after chunks :=
  ⟨by rw [sink, laid.bytes], by rw [filePos, laid.filePos], laid.wellPlaced⟩

/-- A method that writes nothing keeps the layout. -/
theorem Extends.of_same {before : RecordWriter} {failure : Option Fault} {after : RecordWriter}
    (sink : after.sink = before.sink) (filePos : after.filePos = before.filePos)
    (settings : after.settings = before.settings) (closed : after.closed = before.closed) :
    Extends ext before failure after := by
  refine ⟨Steady.of_same sink (by rw [filePos]) settings closed,
    fun _ chunks laid _ => ⟨[], ?_⟩⟩
  rw [List.append_nil]
  exact laid.of_same sink filePos

/-- A flush of the sink hands no bytes over. -/
theorem callSink_flush_extends : Act.Moves (Extends ext) (RecordWriter.callSink .flush) := by
  intro self
  refine ⟨callSink_steady .flush self, fun reliable chunks laid _ => ⟨[], ?_⟩⟩
  rw [callSink_ok (reliable _), List.append_nil]
  refine ⟨?_, laid.filePos, laid.wellPlaced⟩
  rw [← laid.bytes]
  simp [RecordWriter.called, Sink.bytes, SinkCall.bytes, List.flatMap_append]

theorem writeChunkRaw_extends {header : ChunkHeader} {data : Bytes}
    (sized : header.dataSize = data.length) :
    Act.Moves (Extends ext) (RecordWriter.writeChunkRaw ext header data) := by
  intro self
  refine ⟨writeChunkRaw_steady header data self, fun reliable chunks laid within => ?_⟩
  by_cases collected : (header.toBytes ++ data).length ≤ isizeMax
  · have reached : chunkEnd self.filePos header.dataSize header.numRecords ≤ u64Max := by
      rw [writeChunkRaw_eq sized collected laid.possible,
        emitPieces_ok (Sink.Reliable.accepts (by exact reliable) _)] at within
      exact Nat.le_trans (le_chunkPieces_length laid.possible) within
    obtain ⟨after, ran, _, laidAfter⟩ :=
      writeChunkRaw_laidOut reliable laid sized collected reached
    rw [ran]
    exact ⟨_, laidAfter⟩
  · have refused : (Act.lift (collectVec (header.toBytes ++ data)) : RecordWriter.Method Bytes)
        self = (.error (.panic .capacityOverflow), self) := by
      rw [Act.lift_run, collectVec, if_neg collected]
    rw [RecordWriter.writeChunkRaw, Act.bind_run_ok (Act.get_run self),
      Act.bind_run_error refused]
    exact ⟨[], by simpa using laid⟩

theorem SimpleChunkEncoder.encode_header {encoder : SimpleChunkEncoder} {chunk : Chunk}
    (encoded : encoder.encode ext = .ok chunk) :
    chunk.header =
      ChunkHeader.fromParts ext chunk.data .simple encoder.records.length
        (encoder.records.map List.length).sum := by
  obtain ⟨data, _, built⟩ := Except.bind_eq_ok.mp encoded
  cases built
  rfl

theorem TransposeChunkEncoder.encode_header {encoder : TransposeChunkEncoder} {chunk : Chunk}
    (encoded : encoder.encode ext = .ok chunk) :
    chunk.header =
      ChunkHeader.fromParts ext chunk.data .transposed encoder.numRecords
        encoder.decodedDataSize := by
  obtain ⟨sorted, _, encoded⟩ := Except.bind_eq_ok.mp encoded
  obtain ⟨⟨stateMachine, tags⟩, _, encoded⟩ := Except.bind_eq_ok.mp encoded
  obtain ⟨tags, _, encoded⟩ := Except.bind_eq_ok.mp encoded
  obtain ⟨buckets, _, encoded⟩ := Except.bind_eq_ok.mp encoded
  obtain ⟨rawHeader, _, encoded⟩ := Except.bind_eq_ok.mp encoded
  obtain ⟨transitions, _, encoded⟩ := Except.bind_eq_ok.mp encoded
  obtain ⟨compressedTransitions, _, encoded⟩ := Except.bind_eq_ok.mp encoded
  obtain ⟨header, _, built⟩ := Except.bind_eq_ok.mp encoded
  cases built
  rfl

theorem ActiveEncoder.encode_sized {encoder : ActiveEncoder} {chunk : Chunk}
    (encoded : encoder.encode ext = .ok chunk) : chunk.header.dataSize = chunk.data.length := by
  cases encoder with
  | simple encoder =>
      rw [SimpleChunkEncoder.encode_header encoded]
      rfl
  | transpose encoder =>
      rw [TransposeChunkEncoder.encode_header encoded]
      rfl

theorem flushChunk_extends : Act.Moves (Extends ext) (RecordWriter.flushChunk ext) := by
  refine Act.Moves.bind Extends.trans (Act.Moves.get (Extends.refl _)) fun self => ?_
  refine Act.Moves.bind Extends.trans
    (Act.Moves.modify fun _ => Extends.of_same rfl rfl rfl rfl) fun _ => ?_
  refine Act.Moves.bind_of Extends.trans (Act.Moves.lift Extends.refl _) ?_
  intro before chunk after encoded
  exact writeChunkRaw_extends (ActiveEncoder.encode_sized (Prod.mk.inj encoded).1) _

theorem writePaddingToMultiple_extends (alignment : Nat) :
    Act.Moves (Extends ext) (RecordWriter.writePaddingToMultiple ext alignment) := by
  refine Act.Moves.bind Extends.trans (Act.Moves.get (Extends.refl _)) fun self => ?_
  refine Act.Moves.bind Extends.trans (Act.Moves.lift Extends.refl _) fun endPos => ?_
  split
  · exact Act.Moves.pure (Extends.refl _) _
  · refine Act.Moves.bind Extends.trans (Act.Moves.lift Extends.refl _) fun _ => ?_
    exact writeChunkRaw_extends rfl

theorem checkNotFailed_extends : Act.Moves (Extends ext) RecordWriter.checkNotFailed := by
  refine Act.Moves.bind Extends.trans (Act.Moves.get (Extends.refl _)) fun self => ?_
  split
  · exact Act.Moves.fail (Extends.refl _)
  · exact Act.Moves.pure (Extends.refl _) _

/-- What a latched body leaves behind, up to the latch. -/
theorem latchFailure_eq (body : RecordWriter.Method Unit) (self : RecordWriter) :
    ∃ failed, RecordWriter.latchFailure body self =
      ((body self).1, { (body self).2 with failed := failed }) := by
  unfold RecordWriter.latchFailure
  split
  · rename_i error next outcome
    rw [outcome]
    cases next.failed.isNone with
    | true => exact ⟨some error.toText, rfl⟩
    | false => exact ⟨next.failed, rfl⟩
  · exact ⟨(body self).2.failed, rfl⟩

theorem latchFailure_extends {body : RecordWriter.Method Unit}
    (moves : Act.Moves (Extends ext) body) :
    Act.Moves (Extends ext) (RecordWriter.latchFailure body) := by
  intro self
  have moved := moves self
  obtain ⟨failed, latched⟩ := latchFailure_eq body self
  rw [latched]
  refine ⟨⟨moved.steady.respond, moved.steady.calls, moved.steady.filePos,
    moved.steady.settings, moved.steady.closed, moved.steady.clean⟩, fun reliable chunks laid within => ?_⟩
  obtain ⟨more, laidAfter⟩ := moved.appends reliable chunks laid within
  exact ⟨more, laidAfter.of_same rfl rfl⟩

theorem writeRecordImpl_extends (data : Bytes) :
    Act.Moves (Extends ext) (RecordWriter.writeRecordImpl ext data) := by
  refine Act.Moves.bind Extends.trans (Act.Moves.get (Extends.refl _)) fun self => ?_
  refine Act.Moves.bind Extends.trans
    (Act.Moves.whenever (Extends.refl _) flushChunk_extends) fun _ => ?_
  refine Act.Moves.bind Extends.trans
    (Act.Moves.modify fun _ => Extends.of_same rfl rfl rfl rfl) fun _ => ?_
  refine Act.Moves.bind Extends.trans (Act.Moves.get (Extends.refl _)) fun _ => ?_
  refine Act.Moves.bind Extends.trans (Act.Moves.lift Extends.refl _) fun _ => ?_
  refine Act.Moves.bind Extends.trans
    (Act.Moves.modify fun _ => Extends.of_same rfl rfl rfl rfl) fun _ => ?_
  refine Act.Moves.bind Extends.trans (Act.Moves.get (Extends.refl _)) fun _ => ?_
  exact Act.Moves.whenever (Extends.refl _) flushChunk_extends

theorem writeRecord_extends (data : Bytes) :
    Act.Moves (Extends ext) (RecordWriter.writeRecord ext data) := by
  refine Act.Moves.bind Extends.trans (Act.Moves.get (Extends.refl _)) fun self => ?_
  split
  · exact Act.Moves.fail (Extends.refl _)
  · refine Act.Moves.bind Extends.trans checkNotFailed_extends fun _ => ?_
    exact latchFailure_extends (writeRecordImpl_extends data)

theorem flushImpl_extends : Act.Moves (Extends ext) (RecordWriter.flushImpl ext) := by
  refine Act.Moves.bind Extends.trans (Act.Moves.get (Extends.refl _)) fun self => ?_
  refine Act.Moves.bind Extends.trans
    (Act.Moves.whenever (Extends.refl _) flushChunk_extends) fun _ => ?_
  refine Act.Moves.bind Extends.trans (Act.Moves.get (Extends.refl _)) fun _ => ?_
  refine Act.Moves.bind Extends.trans
    (Act.Moves.whenever (Extends.refl _) (writePaddingToMultiple_extends _)) fun _ => ?_
  exact callSink_flush_extends

theorem flush_extends : Act.Moves (Extends ext) (RecordWriter.flush ext) := by
  refine Act.Moves.bind Extends.trans (Act.Moves.get (Extends.refl _)) fun self => ?_
  split
  · exact Act.Moves.pure (Extends.refl _) _
  · refine Act.Moves.bind Extends.trans checkNotFailed_extends fun _ => ?_
    exact latchFailure_extends flushImpl_extends

theorem WriterOp.run_extends (op : WriterOp) : Act.Moves (Extends ext) (op.run ext) := by
  cases op with
  | writeRecord record => exact writeRecord_extends record
  | flush => exact flush_extends

/-- Every run of operations only appends whole chunks. -/
theorem runWriter_extends (ops : List WriterOp) (self : RecordWriter) :
    (runWriter ext ops self).sink.respond = self.sink.respond ∧
      self.filePos ≤ (runWriter ext ops self).filePos ∧
      (self.sink.Reliable → ∀ chunks, LaidOut ext self chunks →
        (runWriter ext ops self).filePos ≤ u64Max →
        ∃ more, LaidOut ext (runWriter ext ops self) (chunks ++ more)) := by
  induction ops generalizing self with
  | nil => exact ⟨rfl, Nat.le_refl _, fun _ chunks laid _ =>
      ⟨[], by simpa [runWriter] using laid⟩⟩
  | cons op rest ih =>
      have first := @WriterOp.run_extends ext op self
      obtain ⟨respond, filePos, appends⟩ := ih (op.run ext self).2
      refine ⟨respond.trans first.steady.respond, Nat.le_trans first.steady.filePos filePos,
        fun reliable chunks laid within => ?_⟩
      obtain ⟨early, laidMiddle⟩ := first.appends reliable chunks laid
        (Nat.le_trans filePos within)
      have reliableMiddle : (op.run ext self).2.sink.Reliable := by
        intro calls
        rw [first.steady.respond]
        exact reliable calls
      obtain ⟨late, laidAfter⟩ := appends reliableMiddle _ laidMiddle within
      exact ⟨early ++ late, by rwa [← List.append_assoc]⟩

/-! ## Construction -/

theorem signatureChunk_stop : (signatureChunk ext).stop 0 = 64 := by
  have none : (signatureChunk ext).header.numRecords = 0 :=
    ChunkHeader.numRecords_fromParts _ _ 0 (by decide)
  rw [Chunk.stop, none]
  rfl

/-- The bytes `RecordWriter::new` writes first are the signature chunk. -/
theorem initial_laidOut (options : WriterOptions) {sink : Sink}
    (bytes : sink.bytes =
      (BlockHeader.fromParts ext 0 (blockHeaderSize + chunkHeaderSize)).toBytes ++
        (RecordWriter.signatureHeader ext).toBytes) :
    LaidOut ext (RecordWriter.initial sink options) [signatureChunk ext] := by
  have stop := @signatureChunk_stop ext
  have data := @spanBytes_data ext 0 64 (signatureChunk ext).payload 24 40 (by decide) (by decide)
    (by decide) (by simp [Chunk.payload, usable, signatureChunk])
  have whole := @spanBytes_add ext 0 64 (signatureChunk ext).payload 0 24 40
  constructor
  · rw [fileBytes, stop, fileBytes, List.append_nil]
    refine bytes.trans (Eq.symm (whole.trans ?_))
    rw [spanBytes_header (by decide), data]
    simp [Chunk.payload, signatureChunk, RecordWriter.signatureHeader, usable, blockHeaderSize,
      chunkHeaderSize, List.take_of_length_le]
  · rw [fileStop, fileStop, stop]
    rfl
  · refine ⟨rfl, ?_, trivial⟩
    exact chunkEnd_spec (by decide) (by rw [Chunk.stop] at stop; rw [stop]; decide)

theorem encodeMetadata_sized {compression : CompressionType} {opts : CompressOptions}
    {metadata : Bytes} {chunk : Chunk}
    (encoded : RecordWriter.encodeMetadata ext compression opts metadata = .ok chunk) :
    chunk.header.dataSize = chunk.data.length := by
  obtain ⟨encoder, _, encoded⟩ := Except.bind_eq_ok.mp encoded
  obtain ⟨data, _, built⟩ := Except.bind_eq_ok.mp encoded
  cases built
  rfl

theorem writeMetadata_extends (options : WriterOptions) :
    Act.Moves (Extends ext) (RecordWriter.writeMetadata ext options) := by
  unfold RecordWriter.writeMetadata
  split
  · exact Act.Moves.pure (Extends.refl _) _
  · refine Act.Moves.bind Extends.trans (Act.Moves.get (Extends.refl _)) fun self => ?_
    refine Act.Moves.bind_of Extends.trans (Act.Moves.lift Extends.refl _) ?_
    intro before chunk after encoded
    exact writeChunkRaw_extends (encodeMetadata_sized (Prod.mk.inj encoded).1) _

/-- The writes of the file signature. -/
def signaturePieces (ext : Externals) : List Bytes :=
  [(BlockHeader.fromParts ext 0 (blockHeaderSize + chunkHeaderSize)).toBytes,
    (RecordWriter.signatureHeader ext).toBytes]

/-- A sink after the signature. -/
def signedSink (ext : Externals) (respond : List SinkCall → Option IoError) : Sink :=
  { respond := respond, calls := (signaturePieces ext).map SinkCall.write }

/-- A writer that opened had its options pass, and what follows the signature
is the writing of the metadata. -/
theorem opened_writes {options : WriterOptions} {self : RecordWriter}
    (opened : Opened ext options self) :
    (match RecordWriter.writeMetadata ext options
        (RecordWriter.initial (signedSink ext fun _ => none) options) with
      | (.ok (), self) => ((.ok self, self.sink) : Rust RecordWriter × Sink)
      | (.error fault, self) => (.error fault, RecordWriter.drop ext self)).1 = .ok self := by
  unfold Opened RecordWriter.new at opened
  cases checked : RecordWriter.validateOptions options with
  | error fault => simp [checked] at opened
  | ok valid =>
      rw [checked] at opened
      exact opened

/-- An opened writer is what writing the metadata leads to. -/
theorem opened_eq {options : WriterOptions} {self : RecordWriter}
    (opened : Opened ext options self) :
    RecordWriter.writeMetadata ext options (RecordWriter.initial (signedSink ext fun _ => none) options) =
      (.ok (), self) := by
  have written := opened_writes opened
  split at written
  · rename_i next outcome
    cases written
    exact outcome
  · simp at written

/-- An opened writer holds the signature and what the metadata adds. -/
theorem opened_laidOut {options : WriterOptions} {self : RecordWriter}
    (opened : Opened ext options self) :
    self.sink.Reliable ∧
      (self.filePos ≤ u64Max → ∃ more, LaidOut ext self (signatureChunk ext :: more)) := by
  have moved := @writeMetadata_extends ext options
    (RecordWriter.initial (signedSink ext fun _ => none) options)
  rw [opened_eq opened] at moved
  have reliable : (RecordWriter.initial (signedSink ext fun _ => none) options).sink.Reliable := fun _ => rfl
  constructor
  · intro calls
    rw [moved.steady.respond]
    rfl
  · intro within
    have first := @initial_laidOut ext options (signedSink ext fun _ => none)
      (by simp [signedSink, signaturePieces, Sink.bytes, SinkCall.bytes])
    exact moved.appends reliable _ first within

/-- Every state a run reaches holds the signature chunk and more chunks. -/
theorem runWriter_laidOut {options : WriterOptions} {self : RecordWriter}
    (opened : Opened ext options self) (ops : List WriterOp)
    (within : (runWriter ext ops self).filePos ≤ u64Max) :
    ∃ more, LaidOut ext (runWriter ext ops self) (signatureChunk ext :: more) := by
  obtain ⟨reliable, laid⟩ := opened_laidOut opened
  obtain ⟨_, filePos, appends⟩ := @runWriter_extends ext ops self
  obtain ⟨first, laidOpened⟩ := laid (Nat.le_trans filePos within)
  obtain ⟨more, laidAfter⟩ := appends reliable _ laidOpened within
  exact ⟨first ++ more, laidAfter⟩

theorem runWriter_reliable {options : WriterOptions} {self : RecordWriter}
    (opened : Opened ext options self) (ops : List WriterOp) :
    (runWriter ext ops self).sink.Reliable := by
  intro calls
  rw [(@runWriter_extends ext ops self).1]
  exact (opened_laidOut opened).1 calls

/-- Whatever operations a writer on a reliable sink has run, its bytes are
laid out as a file up to `file_pos`, and the next chunk is written without a
fault and ends where `chunk_end` says. -/
theorem writer_layout {options : WriterOptions} {self : RecordWriter}
    (opened : Opened ext options self) (ops : List WriterOp)
    (within : (runWriter ext ops self).filePos ≤ u64Max) :
    (∃ chunks,
        FileLayout ext (runWriter ext ops self).sink.bytes (runWriter ext ops self).filePos
          chunks) ∧
      ∀ (header : ChunkHeader) (data : Bytes), header.dataSize = data.length →
        (header.toBytes ++ data).length ≤ isizeMax →
        chunkEnd (runWriter ext ops self).filePos header.dataSize header.numRecords ≤ u64Max →
        ∃ after,
          RecordWriter.writeChunkRaw ext header data (runWriter ext ops self) = (.ok (), after) ∧
            after.filePos =
              chunkEnd (runWriter ext ops self).filePos header.dataSize header.numRecords := by
  obtain ⟨more, laid⟩ := runWriter_laidOut opened ops within
  constructor
  · refine ⟨placedChunks 0 (signatureChunk ext :: more), ?_⟩
    rw [laid.bytes]
    rw [laid.filePos] at within ⊢
    exact laid.wellPlaced.fileLayout signatureChunk_stop within
  · intro header data sized collected fits
    obtain ⟨after, ran, reached, _⟩ :=
      writeChunkRaw_laidOut (runWriter_reliable opened ops) laid sized collected fits
    exact ⟨after, ran, reached⟩

/-- Options without compression and padding. -/
def plainOptions : WriterOptions :=
  { compression := .none
    chunkSize := 1 <<< 20
    initialPadding := 0
    finalPadding := 0
    transpose := false
    bucketSizeRounded := 1 <<< 20
    compressionLevel := none
    windowLog := none
    metadata := none }

/-- The writer these options open. -/
def plainWriter : RecordWriter :=
  RecordWriter.initial (signedSink storingExternals fun _ => none) plainOptions

theorem plainWriter_opened : Opened storingExternals plainOptions plainWriter := rfl

/-- Options for chunks of up to 20 bytes and files of a multiple of 200 bytes. -/
def alignedOptions : WriterOptions := { plainOptions with chunkSize := 20, finalPadding := 200 }

/-- The writer these options open. -/
def alignedWriter : RecordWriter :=
  RecordWriter.initial (signedSink storingExternals fun _ => none) alignedOptions

theorem alignedWriter_opened : Opened storingExternals alignedOptions alignedWriter := rfl

/-- The third record ends the first chunk by its size, the flush ends the second one
and pads, and the last record stays pending. -/
def alignedOps : List WriterOp :=
  [.writeRecord [1, 2, 3], .writeRecord [4], .writeRecord [5, 6], .flush, .writeRecord [7]]

theorem writer_layout_padded :
    (∃ chunks,
        FileLayout storingExternals
          (runWriter storingExternals alignedOps alignedWriter).sink.bytes
          (runWriter storingExternals alignedOps alignedWriter).filePos chunks) ∧
      ∃ after,
        RecordWriter.writeChunkRaw storingExternals
            (ChunkHeader.fromParts storingExternals [0, 1, 1, 7] .simple 1 1) [0, 1, 1, 7]
            (runWriter storingExternals alignedOps alignedWriter) = (.ok (), after) ∧
          after.filePos = 244 := by
  obtain ⟨laid, writes⟩ := writer_layout alignedWriter_opened alignedOps (by decide +kernel)
  obtain ⟨after, ran, reached⟩ :=
    writes (ChunkHeader.fromParts storingExternals [0, 1, 1, 7] .simple 1 1) [0, 1, 1, 7] rfl
      (by decide +kernel) (by decide +kernel)
  exact ⟨laid, after, ran, reached.trans (by decide +kernel)⟩

end Riegeli
