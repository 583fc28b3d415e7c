/-
Module: Riegeli.Proofs.FailedWriter
Purpose: What a writer does after its sink has failed: an open writer stays
  silent and refuses every operation, and the constructor drops a writer that
  may still pad the file.
Trusted boundary: the hash, the codecs and the sink
Main exports: Sink.Quiet, StaysFailed, PadsAfterFailure, runWriter_held,
  staysFailed_iff_not_padsAfterFailure
-/
import Riegeli.Proofs.PaddingEnd
import Riegeli.Proofs.WriterLayout

namespace Riegeli

variable (ext : Externals)

/-- No byte is handed to the sink after a call that it refuses. -/
def Sink.Quiet (sink : Sink) : Prop :=
  ∀ count error, 0 < count → count ≤ sink.calls.length →
    sink.respond (sink.calls.take count) = some error →
    ∀ call ∈ sink.calls.drop count, call.bytes = []

/-- The sink has refused a call. -/
def Sink.Failed (sink : Sink) : Prop :=
  ∃ count error, 0 < count ∧ count ≤ sink.calls.length ∧
    sink.respond (sink.calls.take count) = some error

/-- A call returns an error. -/
def ReturnsError (result : Rust Unit) : Prop := ∃ error, result = .error (.error error)

/-- A failed writer stays failed: when `new` fails, its sink is left alone,
and an open writer, whatever it has run, leaves a failed sink alone when it is
dropped, closed or not, and refuses every operation. -/
structure StaysFailed (respond : List SinkCall → Option IoError) (options : WriterOptions) :
    Prop where
  construction : ∀ fault, (RecordWriter.new ext (Sink.fresh respond) options).1 = .error fault →
    (RecordWriter.new ext (Sink.fresh respond) options).2.Quiet
  dropped : ∀ self, (RecordWriter.new ext (Sink.fresh respond) options).1 = .ok self →
    ∀ ops, (RecordWriter.drop ext (runWriter ext ops self)).Quiet ∧
      (RecordWriter.drop ext (RecordWriter.close ext (runWriter ext ops self)).2).Quiet
  refused : ∀ self, (RecordWriter.new ext (Sink.fresh respond) options).1 = .ok self →
    ∀ ops, (runWriter ext ops self).sink.Failed →
      (∀ op : WriterOp, ReturnsError (op.run ext (runWriter ext ops self)).1) ∧
        ReturnsError (RecordWriter.close ext (runWriter ext ops self)).1

/-- Padding from `pos` is due: the sums of `pos_after_padding` come to an end,
and a vector can hold the padding up to there. -/
structure PaddingDue (pos padding : Nat) : Prop where
  many : 1 < padding
  off : pos % padding ≠ 0
  held : ∃ endPos, posAfterPadding pos padding = .ok endPos ∧
    distanceWithoutOverhead pos endPos ≤ isizeMax

/-- The sink takes the signature and the writes `accepted` of the metadata
chunk, and refuses the next one. -/
structure MetadataRefused (respond : List SinkCall → Option IoError) (options : WriterOptions)
    (accepted : List Bytes) : Prop where
  valid : RecordWriter.validateOptions options = .ok ()
  signed : (Sink.fresh respond).Accepts (signaturePieces ext)
  refused : ∃ metadata chunk piece rest error, options.metadata = some metadata ∧
    RecordWriter.encodeMetadata ext options.compression
      { level := options.compressionLevel, windowLog := options.windowLog } metadata =
        .ok chunk ∧
    (chunk.header.toBytes ++ chunk.data).length ≤ isizeMax ∧
    chunkPieces ext 64 (chunkEnd 64 chunk.header.dataSize chunk.header.numRecords)
      (chunk.header.toBytes ++ chunk.data) = accepted ++ piece :: rest ∧
    (signedSink ext respond).Refuses accepted piece error

/-- The constructor fails on a write of the metadata chunk at a position where
final padding is due. -/
def PadsAfterFailure (respond : List SinkCall → Option IoError) (options : WriterOptions) :
    Prop :=
  ∃ accepted, MetadataRefused ext respond options accepted ∧
    PaddingDue (64 + accepted.flatten.length) options.finalPadding

/-! ## Padding hands bytes over -/

variable {ext}

/-- A method hands over a nonempty byte string. -/
def HandsOver (before after : RecordWriter) : Prop :=
  ∃ bytes, bytes ≠ [] ∧ before.sink.calls ++ [.write bytes] <+: after.sink.calls

theorem HandsOver.of_calls {before after : RecordWriter} {bytes : Bytes} (some : bytes ≠ [])
    (calls : before.sink.calls ++ [.write bytes] <+: after.sink.calls) :
    HandsOver before after := ⟨bytes, some, calls⟩

/-- What the first method hands over, the sequence does. -/
theorem HandsOver.bind {Value Result : Type} {first : RecordWriter.Method Value}
    {second : Value → RecordWriter.Method Result} {before self : RecordWriter}
    (handed : HandsOver before (first self).2)
    (steady : ∀ value, Act.Moves Steady (second value)) :
    HandsOver before ((first >>= second) self).2 := by
  obtain ⟨bytes, some, calls⟩ := handed
  refine ⟨bytes, some, ?_⟩
  rw [Act.bind_run]
  match outcome : first self with
  | (.ok value, next) =>
      rw [outcome] at calls
      exact calls.trans (steady value next).calls
  | (.error fault, next) =>
      rw [outcome] at calls
      exact calls

theorem callSink_handsOver {bytes : Bytes} (some : bytes ≠ []) (self : RecordWriter) :
    HandsOver self (RecordWriter.callSink (.write bytes) self).2 := by
  refine HandsOver.of_calls some ?_
  cases answer : self.sink.respond (self.sink.calls ++ [.write bytes]) with
  | none =>
      rw [callSink_ok answer]
      exact List.prefix_rfl
  | some error =>
      rw [callSink_error answer]
      exact List.prefix_rfl

/-- Writing a chunk starts with a write that is not empty, wherever it is. -/
theorem writeChunkRaw_handsOver {header : ChunkHeader} {data : Bytes} (self : RecordWriter)
    (collected : (header.toBytes ++ data).length ≤ isizeMax) :
    HandsOver self (RecordWriter.writeChunkRaw ext header data self).2 := by
  have reach := lt_chunkEnd self.filePos header.dataSize header.numRecords
  have carries : ¬ (header.toBytes ++ data).isEmpty = true := by
    intro empty
    have := congrArg List.length (List.isEmpty_iff.mp empty)
    simp at this
  have collect : (Act.lift (collectVec (header.toBytes ++ data)) : RecordWriter.Method Bytes)
      self = (.ok (header.toBytes ++ data), self) := by
    rw [Act.lift_run, collectVec_eq_ok.mpr ⟨collected, rfl⟩]
  rw [RecordWriter.writeChunkRaw, Act.bind_run_ok (Act.get_run self), Act.bind_run_ok collect,
    Act.bind_run_ok (Act.modify_run _ _)]
  refine @HandsOver.bind _ _ _ _ _ { self with lastChunkStart := self.filePos } ?_ fun _ =>
    Act.Moves.bind Steady.trans (Act.Moves.get (Steady.refl _)) fun _ =>
      zeroPaddingLoop_steady _ _ _
  rw [RecordWriter.writeBytesWithBlockHeaders, RecordWriter.writeBytesLoop, if_neg carries,
    Act.bind_run_ok (Act.get_run _)]
  by_cases boundary : self.filePos % blockSize = 0
  · rw [Act.whenever_pos boundary]
    refine HandsOver.bind ?_ fun _ => ?_
    · simp only [RecordWriter.writeBlockHeader, Act.bind_run_ok (Act.get_run _)]
      rw [Act.bind_run_ok (by rw [Act.lift_run, subWord_eq (Nat.le_refl _)]),
        Act.bind_run_ok (by rw [Act.lift_run, subWord_eq (by exact Nat.le_of_lt reach)])]
      refine HandsOver.bind ?_ fun _ => advance_steady _
      exact callSink_handsOver (by intro empty; simpa using congrArg List.length empty) _
    · refine Act.Moves.bind Steady.trans (Act.Moves.get (Steady.refl _)) fun _ => ?_
      refine Act.Moves.bind Steady.trans (callSink_steady _) fun _ => ?_
      exact Act.Moves.bind Steady.trans (advance_steady _) fun _ => writeBytesLoop_steady _ _ _ _
  · rw [Act.whenever_neg boundary, Act.bind_run_ok (Act.pure_run () _),
      Act.bind_run_ok (Act.get_run _)]
    refine HandsOver.bind ?_ fun _ => ?_
    · refine callSink_handsOver ?_ _
      intro empty
      have inBlock := Nat.mod_lt self.filePos (show 0 < blockSize by decide)
      have length := congrArg List.length empty
      simp at length
      omega
    · exact Act.Moves.bind Steady.trans (advance_steady _) fun _ => writeBytesLoop_steady _ _ _ _

/-- Padding that is due is written. -/
theorem writePaddingToMultiple_handsOver {self : RecordWriter} {padding : Nat}
    (due : PaddingDue self.filePos padding) :
    HandsOver self (RecordWriter.writePaddingToMultiple ext padding self).2 := by
  have many := due.many
  have off := due.off
  obtain ⟨endPos, ends, held⟩ := due.held
  rcases posAfterPadding_cases ends with ⟨few | aligned, _⟩ | ⟨_, _, stops⟩
  · omega
  · exact absurd aligned off
  have apart : endPos ≠ self.filePos := Nat.ne_of_gt stops.ahead
  have room := stops.2
  rw [RecordWriter.writePaddingToMultiple, Act.bind_run_ok (Act.get_run self)]
  simp only
  rw [ends, Act.bind_run_ok (Act.lift_run _ _), if_neg apart,
    Act.bind_run_ok (by rw [Act.lift_run, subWord_eq room])]
  refine writeChunkRaw_handsOver self ?_
  simp only [List.length_append, ChunkHeader.length_toBytes, List.length_replicate]
  unfold chunkHeaderSize at *
  omega

/-- Padding that is not due makes no call. -/
theorem writePaddingToMultiple_still {self : RecordWriter} {padding : Nat}
    (notDue : ¬ PaddingDue self.filePos padding) :
    (RecordWriter.writePaddingToMultiple ext padding self).2.sink = self.sink := by
  rw [RecordWriter.writePaddingToMultiple, Act.bind_run_ok (Act.get_run self)]
  simp only
  cases ends : posAfterPadding self.filePos padding with
  | error fault =>
      rw [Act.bind_run_error (Act.lift_run _ _)]
  | ok endPos =>
      rw [Act.bind_run_ok (Act.lift_run _ _)]
      rcases posAfterPadding_cases ends with ⟨_, rfl⟩ | ⟨many, off, stops⟩
      · rw [if_pos rfl]
        rfl
      · have apart : endPos ≠ self.filePos := Nat.ne_of_gt stops.ahead
        have room := stops.2
        rw [if_neg apart, Act.bind_run_ok (by rw [Act.lift_run, subWord_eq room]),
          RecordWriter.writeChunkRaw, Act.bind_run_ok (Act.get_run self), Act.bind_run_error]
        rw [Act.lift_run, collectVec, if_neg]
        intro held
        simp only [List.length_append, ChunkHeader.length_toBytes, List.length_replicate] at held
        unfold chunkHeaderSize at *
        exact notDue ⟨many, off, endPos, ends, by omega⟩

/-! ## Open writers -/

/-- The sink has refused nothing, or its last call, and the failure is latched. -/
def Latched (writer : RecordWriter) : Prop :=
  writer.sink.Clean ∨ (∃ error, writer.sink.Stopped error) ∧ writer.failed.isSome = true

/-- An open writer that keeps its failure. -/
structure Held (writer : RecordWriter) : Prop where
  isOpen : writer.closed = false
  latched : Latched writer

theorem Sink.Clean.quiet {sink : Sink} (clean : sink.Clean) : sink.Quiet := by
  intro count error positive within refused
  rw [clean count positive within] at refused
  simp at refused

theorem Sink.Clean.not_failed {sink : Sink} (clean : sink.Clean) : ¬ sink.Failed := by
  rintro ⟨count, error, positive, within, refused⟩
  rw [clean count positive within] at refused
  simp at refused

/-- After the refused call only calls without bytes may follow. -/
theorem Sink.Stopped.quiet_of_prefix {sink : Sink} {error : IoError}
    (stopped : sink.Stopped error) {more : List SinkCall}
    (silent : ∀ call ∈ more, call.bytes = []) :
    ({ sink with calls := sink.calls ++ more } : Sink).Quiet := by
  intro count refusal positive within refused call later
  rcases Nat.lt_or_ge count sink.calls.length with early | late
  · rw [List.take_append_of_le_length (Nat.le_of_lt early)] at refused
    rw [stopped.before count positive early] at refused
    simp at refused
  · rw [List.drop_append, List.drop_eq_nil_of_le late, List.nil_append] at later
    exact silent call (List.mem_of_mem_drop later)

theorem Sink.Stopped.quiet {sink : Sink} {error : IoError} (stopped : sink.Stopped error) :
    sink.Quiet := by
  have quiet := @Sink.Stopped.quiet_of_prefix _ _ stopped [] (by simp)
  rwa [List.append_nil] at quiet

theorem checkNotFailed_ok {self : RecordWriter} (whole : self.failed.isSome = false) :
    RecordWriter.checkNotFailed self = (.ok (), self) := by
  unfold RecordWriter.checkNotFailed
  rw [Act.bind_run_ok (Act.get_run self)]
  cases latched : self.failed with
  | none => rfl
  | some message => simp [latched] at whole

theorem checkNotFailed_error {self : RecordWriter} (latched : self.failed.isSome = true) :
    ∃ error, RecordWriter.checkNotFailed self = (.error (.error error), self) := by
  unfold RecordWriter.checkNotFailed
  rw [Act.bind_run_ok (Act.get_run self)]
  cases message : self.failed with
  | none => simp [message] at latched
  | some message => exact ⟨_, rfl⟩

/-- A failing body leaves the latch set. -/
theorem latchFailure_latched {body : RecordWriter.Method Unit} {self : RecordWriter}
    {error : RiegeliError} (failed : Act.failureOf (body self).1 = some (.error error)) :
    (RecordWriter.latchFailure body self).2.failed.isSome = true := by
  unfold RecordWriter.latchFailure
  split
  · rename_i error next outcome
    cases latched : next.failed <;> simp [latched]
  · rename_i succeeded
    match outcome : body self with
    | (.ok (), next) => simp [outcome, Act.failureOf] at failed
    | (.error (.error error), next) => exact absurd outcome (succeeded error next)
    | (.error (.panic kind), next) => simp [outcome, Act.failureOf] at failed
    | (.error .outOfFuel, next) => simp [outcome, Act.failureOf] at failed

/-- The guarded body of an operation. -/
def guarded (body : RecordWriter.Method Unit) : RecordWriter.Method Unit := do
  RecordWriter.checkNotFailed
  RecordWriter.latchFailure body

/-- A guarded body keeps a refused call the last one, and latches it. -/
theorem guarded_latched {body : RecordWriter.Method Unit} (steady : Act.Moves Steady body)
    {self : RecordWriter}
    (latched : Latched self) :
    (guarded body self).2.closed = self.closed ∧ Latched (guarded body self).2 := by
  cases whole : self.failed.isSome with
  | true =>
      obtain ⟨error, failed⟩ := checkNotFailed_error whole
      rw [guarded, Act.bind_run_error failed]
      exact ⟨rfl, latched.imp_right fun stopped => ⟨stopped.1, whole⟩⟩
  | false =>
      have clean : self.sink.Clean := latched.resolve_right (by simp [whole])
      rw [guarded, Act.bind_run_ok (checkNotFailed_ok whole)]
      have moved := steady self
      obtain ⟨failed, ran⟩ := latchFailure_eq body self
      have latch := fun error =>
        @latchFailure_latched body self (.ioError error)
      rw [ran] at latch ⊢
      refine ⟨moved.closed, (moved.clean clean).imp_right ?_⟩
      rintro ⟨error, failure, stopped⟩
      exact ⟨⟨error, stopped⟩, latch error failure⟩

theorem guarded_refused {body : RecordWriter.Method Unit} {self : RecordWriter}
    (latched : self.failed.isSome = true) : ReturnsError (guarded body self).1 := by
  obtain ⟨error, failed⟩ := checkNotFailed_error latched
  rw [guarded, Act.bind_run_error failed]
  exact ⟨error, rfl⟩

theorem writeRecord_open {self : RecordWriter} (isOpen : self.closed = false) (data : Bytes) :
    RecordWriter.writeRecord ext data self =
      guarded (RecordWriter.writeRecordImpl ext data) self := by
  rw [RecordWriter.writeRecord, Act.bind_run_ok (Act.get_run self)]
  simp only [isOpen, Bool.false_eq_true, ↓reduceIte]
  rfl

theorem flush_open {self : RecordWriter} (isOpen : self.closed = false) :
    RecordWriter.flush ext self = guarded (RecordWriter.flushImpl ext) self := by
  rw [RecordWriter.flush, Act.bind_run_ok (Act.get_run self)]
  simp only [isOpen, Bool.false_eq_true, ↓reduceIte]
  rfl

theorem flushInternal_open {self : RecordWriter} (isOpen : self.closed = false) :
    RecordWriter.flushInternal ext self =
      guarded (RecordWriter.flushImpl ext) { self with closed := true } := by
  rw [RecordWriter.flushInternal, Act.bind_run_ok (Act.get_run self)]
  simp only [isOpen, Bool.false_eq_true, ↓reduceIte]
  rfl

theorem flushInternal_closed {self : RecordWriter} (closed : self.closed = true) :
    RecordWriter.flushInternal ext self = (.ok (), self) := by
  rw [RecordWriter.flushInternal, Act.bind_run_ok (Act.get_run self)]
  simp only [closed, ↓reduceIte]
  rfl

theorem flushImpl_steady : Act.Moves Steady (RecordWriter.flushImpl ext) :=
  fun self => (flushImpl_extends self).steady

/-- An operation of an open writer is a guarded body. -/
theorem WriterOp.run_open (op : WriterOp) : ∃ body : RecordWriter.Method Unit,
    Act.Moves Steady body ∧
      ∀ self : RecordWriter, self.closed = false → op.run ext self = guarded body self := by
  cases op with
  | writeRecord record =>
      exact ⟨_, fun self => (writeRecordImpl_extends record self).steady,
        fun self isOpen => writeRecord_open isOpen record⟩
  | flush => exact ⟨_, flushImpl_steady, fun self isOpen => flush_open isOpen⟩

/-- One operation keeps a writer open and its failure latched. -/
theorem WriterOp.run_held (op : WriterOp) {self : RecordWriter} (held : Held self) :
    Held (op.run ext self).2 := by
  obtain ⟨body, steady, ran⟩ := @WriterOp.run_open ext op
  obtain ⟨closed, latched⟩ := guarded_latched steady held.latched
  rw [ran self held.isOpen]
  exact ⟨closed.trans held.isOpen, latched⟩

/-- So does every run. -/
theorem runWriter_held (ops : List WriterOp) {self : RecordWriter} (held : Held self) :
    Held (runWriter ext ops self) := by
  induction ops generalizing self with
  | nil => exact held
  | cons op rest ih => exact ih (op.run_held held)

theorem Held.failed {self : RecordWriter} (held : Held self) (failed : self.sink.Failed) :
    self.failed.isSome = true := by
  rcases held.latched with clean | ⟨_, latched⟩
  · exact absurd failed clean.not_failed
  · exact latched

/-- Closing or dropping an open writer ends its calls with the first refused
one, and leaves nothing to the later drop. -/
theorem flushInternal_held {self : RecordWriter} (held : Held self) :
    (RecordWriter.flushInternal ext self).2.closed = true ∧
      (RecordWriter.flushInternal ext self).2.sink.Quiet := by
  have latched := @guarded_latched _ (@flushImpl_steady ext) { self with closed := true }
    (by exact held.latched)
  rw [flushInternal_open held.isOpen]
  refine ⟨latched.1, ?_⟩
  rcases latched.2 with clean | ⟨⟨error, stopped⟩, _⟩
  · exact clean.quiet
  · exact stopped.quiet

/-! ## Construction -/

variable {respond : List SinkCall → Option IoError} {options : WriterOptions}

/-- On a sink that takes the signature, `new` writes the metadata. -/
theorem new_signed (valid : RecordWriter.validateOptions options = .ok ())
    (signed : (Sink.fresh respond).Accepts (signaturePieces ext)) :
    RecordWriter.new ext (Sink.fresh respond) options =
      match RecordWriter.writeMetadata ext options
        (RecordWriter.initial (signedSink ext respond) options) with
      | (.ok (), self) => (.ok self, self.sink)
      | (.error fault, self) => (.error fault, RecordWriter.drop ext self) := by
  have first := signed 1 (by omega) (by simp [signaturePieces])
  have second := signed 2 (by omega) (by simp [signaturePieces])
  simp only [signaturePieces, List.take_succ_cons, List.take_zero, List.map_cons, List.map_nil,
    Sink.fresh, List.nil_append] at first second
  simp only [RecordWriter.new, valid, Sink.call, Sink.fresh, List.nil_append, first,
    List.cons_append, second]
  rfl

/-- Otherwise it returns the error with no further call. -/
theorem new_unsigned (valid : RecordWriter.validateOptions options = .ok ())
    (unsigned : ¬ (Sink.fresh respond).Accepts (signaturePieces ext)) :
    ∃ fault sink, RecordWriter.new ext (Sink.fresh respond) options = (.error fault, sink) ∧
      sink.Quiet := by
  cases first : respond [.write (BlockHeader.fromParts ext 0
      (blockHeaderSize + chunkHeaderSize)).toBytes] with
  | some error =>
      refine ⟨.error (.ioError error), { respond := respond, calls := [.write (BlockHeader.fromParts ext 0
      (blockHeaderSize + chunkHeaderSize)).toBytes] }, ?_, ?_⟩
      · simp only [RecordWriter.new, valid, Sink.call, Sink.fresh, List.nil_append, first]
      · refine @Sink.Stopped.quiet _ error ⟨first, fun count positive within => ?_⟩
        simp at within
        omega
  | none =>
      cases second : respond ((signaturePieces ext).map SinkCall.write) with
      | some error =>
          refine ⟨.error (.ioError error), signedSink ext respond, ?_, ?_⟩
          · simp only [signaturePieces, List.map_cons, List.map_nil] at second
            simp only [RecordWriter.new, valid, Sink.call, Sink.fresh, List.nil_append, first,
              List.cons_append, second]
            rfl
          · refine @Sink.Stopped.quiet _ error ⟨second, fun count positive within => ?_⟩
            simp [signedSink, signaturePieces] at within
            have one : count = 1 := by omega
            subst one
            exact first
      | none =>
          refine absurd (fun count positive within => ?_) unsigned
          simp [signaturePieces] at within
          rcases (show count = 1 ∨ count = 2 by omega) with rfl | rfl
          · exact first
          · exact second

/-- Writing the metadata chunk. -/
theorem writeMetadata_eq {metadata : Bytes} {chunk : Chunk}
    (given : options.metadata = some metadata)
    (encoded : RecordWriter.encodeMetadata ext options.compression
      { level := options.compressionLevel, windowLog := options.windowLog } metadata = .ok chunk)
    (collected : (chunk.header.toBytes ++ chunk.data).length ≤ isizeMax) :
    RecordWriter.writeMetadata ext options
        (RecordWriter.initial (signedSink ext respond) options) =
      emitPieces
        (chunkPieces ext 64 (chunkEnd 64 chunk.header.dataSize chunk.header.numRecords)
          (chunk.header.toBytes ++ chunk.data))
        { RecordWriter.initial (signedSink ext respond) options with lastChunkStart := 64 } := by
  simp only [RecordWriter.writeMetadata, given]
  rw [Act.bind_run_ok (Act.get_run _), Act.bind_run_ok (by rw [Act.lift_run]; exact congrArg (·, _) encoded)]
  exact writeChunkRaw_eq (encodeMetadata_sized encoded) collected (by rfl)

/-- A writer whose last write failed at `pos`, with nothing latched. -/
structure FailedAt (writer : RecordWriter) (pos padding : Nat) : Prop where
  stopped : ∃ error, writer.sink.Stopped error
  called : writer.sink.calls ≠ []
  filePos : writer.filePos = pos
  padding : writer.finalPadding = padding
  idle : writer.pendingRecordCount = 0
  isOpen : writer.closed = false
  whole : writer.failed = none

theorem signedSink_clean (signed : (Sink.fresh respond).Accepts (signaturePieces ext)) :
    (signedSink ext respond).Clean := by
  intro count positive within
  simp only [signedSink, List.length_map] at within
  have accepted := signed count positive within
  simpa [signedSink, Sink.fresh, List.map_take] using accepted

/-- A refused write comes after accepted ones. -/
theorem Sink.Refuses.stopped {sink : Sink} {accepted : List Bytes} {piece : Bytes}
    {error : IoError} (refuses : sink.Refuses accepted piece error) (clean : sink.Clean) :
    ({ sink with calls := sink.calls ++ accepted.map SinkCall.write ++ [.write piece] } :
      Sink).Stopped error := by
  constructor
  · have refused := refuses.refuses
    simp only [List.map_append, List.map_cons, List.map_nil, ← List.append_assoc] at refused
    exact refused
  · intro count positive within
    simp only [List.length_append, List.length_map, List.length_singleton] at within ⊢
    rw [List.take_append_of_le_length (by simp; omega)]
    rcases Nat.lt_or_ge sink.calls.length count with later | early
    · have accepts := refuses.accepts (count - sink.calls.length) (by omega) (by omega)
      rw [List.take_append, List.take_of_length_le (by omega), ← List.map_take]
      exact accepts
    · rw [List.take_append_of_le_length early]
      exact clean count positive early

/-- A refused write of the metadata chunk ends the construction there. -/
theorem MetadataRefused.failedAt {accepted : List Bytes}
    (refused : MetadataRefused ext respond options accepted) :
    ∃ fault self, RecordWriter.writeMetadata ext options
        (RecordWriter.initial (signedSink ext respond) options) = (.error fault, self) ∧
      FailedAt self (64 + accepted.flatten.length) options.finalPadding := by
  obtain ⟨metadata, chunk, piece, rest, error, given, encoded, collected, split, refuses⟩ :=
    refused.refused
  have ran := @writeMetadata_eq _ respond _ _ _ given encoded collected
  rw [split, emitPieces_error (by exact refuses)] at ran
  refine ⟨_, _, ran, ⟨error, ?_⟩, ?_, rfl, rfl, rfl, rfl, rfl⟩
  · exact refuses.stopped (signedSink_clean refused.signed)
  · simp [RecordWriter.called]

/-- When writing the metadata ends with a refused call, this is the only way. -/
theorem metadataRefused_of_stopped (valid : RecordWriter.validateOptions options = .ok ())
    (signed : (Sink.fresh respond).Accepts (signaturePieces ext)) {error : IoError}
    (stopped : (RecordWriter.writeMetadata ext options
      (RecordWriter.initial (signedSink ext respond) options)).2.sink.Stopped error) :
    ∃ accepted, MetadataRefused ext respond options accepted := by
  have clean := signedSink_clean signed
  have untouched : ¬ (signedSink ext respond).Stopped error := by
    intro wrong
    have accepted := clean (signedSink ext respond).calls.length
      (by simp [signedSink, signaturePieces]) (Nat.le_refl _)
    rw [List.take_length, wrong.refused] at accepted
    simp at accepted
  cases given : options.metadata with
  | none =>
      simp only [RecordWriter.writeMetadata, given] at stopped
      exact absurd stopped untouched
  | some metadata =>
      cases encoded : RecordWriter.encodeMetadata ext options.compression
          { level := options.compressionLevel, windowLog := options.windowLog } metadata with
      | error fault =>
          simp only [RecordWriter.writeMetadata, given] at stopped
          rw [Act.bind_run_ok (Act.get_run _), Act.bind_run_error
            (by rw [Act.lift_run]; exact congrArg (·, _) encoded)] at stopped
          exact absurd stopped untouched
      | ok chunk =>
          by_cases collected : (chunk.header.toBytes ++ chunk.data).length ≤ isizeMax
          · rcases Sink.accepts_or_refuses (signedSink ext respond)
              (chunkPieces ext 64 (chunkEnd 64 chunk.header.dataSize chunk.header.numRecords)
                (chunk.header.toBytes ++ chunk.data)) with
              accepts | ⟨accepted, piece, rest, refusal, split, refuses⟩
            · have ran := @writeMetadata_eq _ respond _ _ _ given encoded collected
              rw [emitPieces_ok (by exact accepts)] at ran
              have moved := (@writeMetadata_extends ext options
                (RecordWriter.initial (signedSink ext respond) options)).steady.clean clean
              rw [ran] at moved stopped
              rcases moved with cleanAfter | ⟨_, failed, _⟩
              · have accepted := cleanAfter _ (by simp [RecordWriter.wrote, signedSink,
                  RecordWriter.initial, signaturePieces]) (Nat.le_refl _)
                rw [List.take_length, stopped.refused] at accepted
                simp at accepted
              · simp [Act.failureOf] at failed
            · exact ⟨accepted, valid, signed, metadata, chunk, piece, rest, refusal, given,
                encoded, collected, split, refuses⟩
          · simp only [RecordWriter.writeMetadata, given] at stopped
            rw [Act.bind_run_ok (Act.get_run _), Act.bind_run_ok
              (by rw [Act.lift_run]; exact congrArg (·, _) encoded), RecordWriter.writeChunkRaw,
              Act.bind_run_ok (Act.get_run _),
              Act.bind_run_error (by rw [Act.lift_run, collectVec, if_neg collected])] at stopped
            exact absurd stopped untouched

/-! ## The failing constructor -/

theorem drop_failedAt {self : RecordWriter} {pos padding : Nat}
    (failed : FailedAt self pos padding) :
    (RecordWriter.drop ext self) =
      (RecordWriter.flushImpl ext { self with closed := true }).2.sink := by
  obtain ⟨latch, ran⟩ :=
    latchFailure_eq (RecordWriter.flushImpl ext) { self with closed := true }
  have whole : ({ self with closed := true } : RecordWriter).failed.isSome = false := by
    simp [failed.whole]
  rw [RecordWriter.drop, flushInternal_open failed.isOpen, guarded,
    Act.bind_run_ok (checkNotFailed_ok whole), ran]

/-- An idle writer flushes its padding and then its sink. -/
theorem flushImpl_idle {self : RecordWriter} (idle : self.pendingRecordCount = 0) :
    RecordWriter.flushImpl ext self =
      (do
        Act.whenever (0 < self.finalPadding)
          (RecordWriter.writePaddingToMultiple ext self.finalPadding)
        RecordWriter.callSink .flush : RecordWriter.Method Unit) self := by
  rw [RecordWriter.flushImpl, Act.bind_run_ok (Act.get_run self),
    Act.whenever_neg (by omega), Act.bind_run_ok (Act.pure_run () self),
    Act.bind_run_ok (Act.get_run self)]

theorem flush_calls (self : RecordWriter) :
    (RecordWriter.callSink .flush self).2.sink =
      { self.sink with calls := self.sink.calls ++ [.flush] } := by
  cases answer : self.sink.respond (self.sink.calls ++ [.flush]) with
  | none => rw [callSink_ok answer]; rfl
  | some error => rw [callSink_error answer]; rfl

/-- Dropping the failed writer is silent when no padding is due. -/
theorem FailedAt.quiet {self : RecordWriter} {pos padding : Nat}
    (failed : FailedAt self pos padding) (notDue : ¬ PaddingDue pos padding) :
    (RecordWriter.drop ext self).Quiet := by
  obtain ⟨error, stopped⟩ := failed.stopped
  rw [drop_failedAt failed, flushImpl_idle (by exact failed.idle), Act.bind_run]
  have still : (Act.whenever (0 < self.finalPadding)
      (RecordWriter.writePaddingToMultiple ext self.finalPadding)
        { self with closed := true }).2.sink = self.sink := by
    rw [Act.whenever_run]
    split
    · refine @writePaddingToMultiple_still _ { self with closed := true } _ ?_
      rw [failed.padding]
      simp only [failed.filePos]
      exact notDue
    · rfl
  match outcome : Act.whenever (0 < self.finalPadding)
      (RecordWriter.writePaddingToMultiple ext self.finalPadding)
        { self with closed := true } with
  | (.ok (), next) =>
      rw [outcome] at still
      simp only at still ⊢
      rw [flush_calls, still]
      exact stopped.quiet_of_prefix (by simp [SinkCall.bytes])
  | (.error fault, next) =>
      rw [outcome] at still
      simp only at still ⊢
      rw [still]
      exact stopped.quiet

/-- Dropping the failed writer pads the file when padding is due. -/
theorem FailedAt.not_quiet {self : RecordWriter} {pos padding : Nat}
    (failed : FailedAt self pos padding) (due : PaddingDue pos padding) :
    ¬ (RecordWriter.drop ext self).Quiet := by
  obtain ⟨error, stopped⟩ := failed.stopped
  have steady := @flushImpl_steady ext { self with closed := true }
  have handed : HandsOver { self with closed := true }
      (RecordWriter.flushImpl ext { self with closed := true }).2 := by
    rw [flushImpl_idle (by exact failed.idle)]
    refine HandsOver.bind ?_ fun _ => callSink_steady .flush
    have some : 0 < self.finalPadding := by
      have := due.many
      rw [failed.padding]
      omega
    rw [Act.whenever_pos some]
    refine @writePaddingToMultiple_handsOver _ { self with closed := true } _ ?_
    rw [failed.padding]
    simp only [failed.filePos]
    exact due
  rw [drop_failedAt failed]
  obtain ⟨bytes, some, later, calls⟩ := handed
  intro quiet
  simp only [List.append_assoc] at calls
  refine some (quiet self.sink.calls.length error (List.length_pos_iff.mpr failed.called) ?_ ?_
    (.write bytes) ?_)
  · rw [← calls]
    simp
  · rw [steady.respond, ← calls, List.take_left']
    · exact stopped.refused
    · rfl
  · rw [← calls, List.drop_left']
    · simp
    · rfl

/-- The outcomes of `new` outside the defect: an error that leaves the sink
alone, or an open writer. -/
theorem new_outcome (notPads : ¬ PadsAfterFailure ext respond options) :
    (∃ fault, (RecordWriter.new ext (Sink.fresh respond) options).1 = .error fault ∧
        (RecordWriter.new ext (Sink.fresh respond) options).2.Quiet) ∨
      ∃ self, (RecordWriter.new ext (Sink.fresh respond) options).1 = .ok self ∧ Held self := by
  cases valid : RecordWriter.validateOptions options with
  | error fault =>
      refine Or.inl ⟨fault, by simp only [RecordWriter.new, valid], ?_⟩
      intro count error positive within
      simp only [RecordWriter.new, valid, Sink.fresh, List.length_nil] at within
      omega
  | ok value =>
      by_cases signed : (Sink.fresh respond).Accepts (signaturePieces ext)
      · have moved := (@writeMetadata_extends ext options
          (RecordWriter.initial (signedSink ext respond) options)).steady
        have clean := moved.clean (signedSink_clean signed)
        have isOpen : (RecordWriter.writeMetadata ext options
            (RecordWriter.initial (signedSink ext respond) options)).2.closed = false :=
          moved.closed
        have origin := fun error => @metadataRefused_of_stopped _ _ _ valid signed error
        rw [new_signed valid signed]
        match outcome : RecordWriter.writeMetadata ext options
            (RecordWriter.initial (signedSink ext respond) options) with
        | (.ok (), self) =>
            rw [outcome] at clean isOpen
            refine Or.inr ⟨self, rfl, isOpen, clean.imp_right ?_⟩
            rintro ⟨error, failed, _⟩
            simp [Act.failureOf] at failed
        | (.error fault, self) =>
            rw [outcome] at clean isOpen
            refine Or.inl ⟨fault, rfl, ?_⟩
            rcases clean with cleanAfter | ⟨error, _, stopped⟩
            · exact (flushInternal_held ⟨isOpen, Or.inl cleanAfter⟩).2
            · obtain ⟨accepted, refused⟩ := origin error (by rw [outcome]; exact stopped)
              obtain ⟨fault, halted, ran, failed⟩ := refused.failedAt
              rw [outcome] at ran
              cases ran
              exact failed.quiet fun due => notPads ⟨accepted, refused, due⟩
      · obtain ⟨fault, sink, outcome, quiet⟩ := new_unsigned valid signed
        rw [outcome]
        exact Or.inl ⟨fault, rfl, quiet⟩

theorem Held.dropped {self : RecordWriter} (held : Held self) :
    (RecordWriter.drop ext self).Quiet ∧
      (RecordWriter.drop ext (RecordWriter.close ext self).2).Quiet := by
  obtain ⟨closed, quiet⟩ := @flushInternal_held ext _ held
  refine ⟨quiet, ?_⟩
  rw [RecordWriter.drop, RecordWriter.close, flushInternal_closed closed]
  exact quiet

theorem Held.refused {self : RecordWriter} (held : Held self) (failed : self.sink.Failed) :
    (∀ op : WriterOp, ReturnsError (op.run ext self).1) ∧
      ReturnsError (RecordWriter.close ext self).1 := by
  have latched := held.failed failed
  constructor
  · intro op
    obtain ⟨body, _, ran⟩ := @WriterOp.run_open ext op
    rw [ran self held.isOpen]
    exact guarded_refused latched
  · rw [RecordWriter.close, flushInternal_open held.isOpen]
    exact guarded_refused latched

/-- A failed writer stays failed unless its constructor failed on the metadata
chunk where final padding is due. -/
theorem staysFailed_iff_not_padsAfterFailure (respond : List SinkCall → Option IoError)
    (options : WriterOptions) :
    StaysFailed ext respond options ↔ ¬ PadsAfterFailure ext respond options := by
  constructor
  · rintro stays ⟨accepted, refused, due⟩
    obtain ⟨fault, self, ran, failed⟩ := refused.failedAt
    have outcome := new_signed refused.valid refused.signed
    rw [ran] at outcome
    have quiet := stays.construction fault (by rw [outcome])
    rw [outcome] at quiet
    exact failed.not_quiet due quiet
  · intro notPads
    rcases new_outcome notPads with ⟨fault, failed, quiet⟩ | ⟨opened, succeeded, held⟩
    · exact ⟨fun _ _ => quiet, by simp [failed], by simp [failed]⟩
    · constructor
      · simp [succeeded]
      · intro self isSelf ops
        rw [succeeded] at isSelf
        cases isSelf
        exact (runWriter_held ops held).dropped
      · intro self isSelf ops
        rw [succeeded] at isSelf
        cases isSelf
        exact (runWriter_held ops held).refused

/-- A sink that refuses its third write only. -/
def thirdWriteRefused (calls : List SinkCall) : Option IoError :=
  if calls.length = 3 then some { kind := .other 0, message := "refused" } else none

/-- Options with a metadata chunk and padding. -/
def paddedOptions : WriterOptions :=
  { plainOptions with finalPadding := 100, metadata := some [1, 2, 3] }

/-- The constructor pads the file after the sink has refused the metadata. -/
theorem new_pads_after_failure :
    ¬ StaysFailed storingExternals thirdWriteRefused paddedOptions := by
  intro stays
  have failed : (RecordWriter.new storingExternals (Sink.fresh thirdWriteRefused)
      paddedOptions).1.isOk = false := by decide +kernel
  have padded : ¬ ∀ call ∈ (RecordWriter.new storingExternals (Sink.fresh thirdWriteRefused)
      paddedOptions).2.calls.drop 3, call.bytes = [] := by decide +kernel
  cases outcome : (RecordWriter.new storingExternals (Sink.fresh thirdWriteRefused)
      paddedOptions).1 with
  | ok self => simp [outcome, Except.isOk, Except.toBool] at failed
  | error fault =>
      exact padded (stays.construction fault outcome 3
        { kind := .other 0, message := "refused" } (by decide) (by decide +kernel)
        (by decide +kernel))

end Riegeli
