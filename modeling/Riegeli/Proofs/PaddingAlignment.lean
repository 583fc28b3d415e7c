/-
Module: Riegeli.Proofs.PaddingAlignment
Purpose: Final padding lands exactly on the alignment, and makes no difference
  to what a reader returns.
Trusted boundary: the hash, the codecs and the sink
Main exports: PaddingPosition, PaddingAligns, padding_aligns
-/
import Riegeli.Proofs.WrittenFiles

namespace Riegeli

variable (ext : Externals)

/-- Where padding from a position ends: right there when that is a multiple of
the padding, else at the least multiple that will do, if it is a word. -/
structure PaddingPosition (pos padding : Nat) : Prop where
  aligned : pos % padding = 0 → posAfterPadding pos padding = .ok pos
  due : pos % padding ≠ 0 → ∃ least, IsLeast {target | PaddingTarget pos padding target} least ∧
    (least ≤ u64Max → posAfterPadding pos padding = .ok least)

/-- The chunks of a file without its padding. -/
def withoutPadding (chunks : List Chunk) : List Chunk :=
  chunks.filter fun chunk => chunk.header.chunkType.toOption ≠ some .padding

/-- What padding does for a writer after some operations. -/
structure PaddingAligns (options : WriterOptions) (self : RecordWriter) (ops : List WriterOp) :
    Prop where
  position : ∀ padding, 1 < padding → PaddingPosition (runWriter ext ops self).filePos padding
  written : ∀ padding target, 1 < padding →
    posAfterPadding (runWriter ext ops self).filePos padding = .ok target →
    distanceWithoutOverhead (runWriter ext ops self).filePos target ≤ isizeMax →
    ∃ after, RecordWriter.writePaddingToMultiple ext padding (runWriter ext ops self) =
        (.ok (), after) ∧
      after.filePos = target
  flushed : ∀ after, RecordWriter.flush ext (runWriter ext ops self) = (.ok (), after) →
    after.filePos ≤ u64Max → 1 ≤ options.finalPadding →
    PadsInWord (paddingStart ext (runWriter ext ops self)) options.finalPadding →
    after.sink.bytes.length % options.finalPadding = 0
  closed : ∀ after, RecordWriter.close ext (runWriter ext ops self) = (.ok (), after) →
    after.filePos ≤ u64Max → 1 ≤ options.finalPadding →
    PadsInWord (paddingStart ext { runWriter ext ops self with closed := true })
      options.finalPadding →
    after.sink.bytes.length % options.finalPadding = 0
  read : ∀ writer, WriterEnds ext self ops writer → writer.filePos < u64Max →
    ∃ chunks, writer.sink.bytes = fileBytes ext 0 chunks ∧
      ∀ readerOptions : ReaderOptions, Unwavering readerOptions.recovery →
        ReadsSame ext readerOptions writer.sink.bytes (fileBytes ext 0 (withoutPadding chunks))

variable {ext} {options : WriterOptions} {self : RecordWriter} {ops : List WriterOp}

theorem paddingPosition {padding : Nat} (many : 1 < padding) (pos : Nat) :
    PaddingPosition pos padding := by
  refine ⟨posAfterPadding_aligned, fun due => ?_⟩
  obtain ⟨least, isLeast⟩ := @exists_least_target pos padding many
  exact ⟨least, isLeast, posAfterPadding_least many due isLeast⟩

/-! ## Padding chunks -/

/-- A padding chunk that fits ends where padding should. -/
theorem chunkEnd_padding_fits {pos stop : Nat} (starts : isPossibleChunkBoundary pos = true)
    (ends : isPossibleChunkBoundary stop = true)
    (room : chunkHeaderSize ≤ distanceWithoutOverhead pos stop) (within : stop ≤ u64Max) :
    chunkEnd pos (distanceWithoutOverhead pos stop - chunkHeaderSize) 0 = stop := by
  refine chunkEnd_padding starts ends room ?_
  have ahead : pos < stop := by
    by_contra behind
    rw [distanceWithoutOverhead_eq,
      Nat.sub_eq_zero_of_le (usable_mono (Nat.le_of_not_lt behind))] at room
    exact absurd room (by decide)
  have reached := @place_usable stop ends (by omega)
  have below : satAdd pos 0 = pos := satAdd_eq (by omega)
  unfold chunkEnd
  simp only [canonicalChunkAddress_eq starts, below, roundUp_eq_self starts (by omega : pos ≤ u64Max)]
  rw [addWithOverhead_eq_place (by unfold satAdd chunkHeaderSize u64Max; omega)]
  apply Nat.max_le.mpr
  constructor
  · refine Nat.le_trans (place_le_place ?_) (reached.trans_le within)
    rw [distanceWithoutOverhead_eq] at room ⊢
    unfold satAdd chunkHeaderSize at *
    omega
  · omega

/-- A writer on a reliable sink pads to the position when a vector can hold the
padding. -/
theorem HoldsFile.pads {fresh : ActiveEncoder} {chunkSize : Nat} {chunks : List Chunk}
    {pending : List Bytes} (holds : HoldsFile ext fresh chunkSize chunks pending self)
    {padding target : Nat} (fits : self.filePos ≤ u64Max)
    (ends : posAfterPadding self.filePos padding = .ok target)
    (held : distanceWithoutOverhead self.filePos target ≤ isizeMax) :
    ∃ after, RecordWriter.writePaddingToMultiple ext padding self = (.ok (), after) ∧
      after.filePos = target := by
  have word := posAfterPadding_le fits ends
  rw [RecordWriter.writePaddingToMultiple, Act.bind_run_ok (Act.get_run self)]
  simp only
  rw [ends, Act.bind_run_ok (Act.lift_run _ _)]
  rcases posAfterPadding_cases ends with ⟨_, rfl⟩ | ⟨_, _, possible, room⟩
  · rw [if_pos rfl]
    exact ⟨self, rfl, rfl⟩
  have apart : target ≠ self.filePos := Nat.ne_of_gt (StopsAt.ahead ⟨possible, room⟩)
  have stop := chunkEnd_padding_fits holds.laid.possible possible room word
  rw [if_neg apart, Act.bind_run_ok (by rw [Act.lift_run, subWord_eq room])]
  have length : (List.replicate (distanceWithoutOverhead self.filePos target - chunkHeaderSize)
      (0 : UInt8)).length = distanceWithoutOverhead self.filePos target - chunkHeaderSize :=
    List.length_replicate
  generalize List.replicate (distanceWithoutOverhead self.filePos target - chunkHeaderSize)
    (0 : UInt8) = zeros at length ⊢
  have placed : chunkEnd self.filePos (ChunkHeader.fromParts ext zeros .padding 0 0).dataSize
      (ChunkHeader.fromParts ext zeros .padding 0 0).numRecords = target := by
    rw [ChunkHeader.numRecords_fromParts _ _ _ (by decide)]
    change chunkEnd _ zeros.length 0 = _
    rw [length]
    exact stop
  obtain ⟨after, ran, filePos, _⟩ := @writeChunkRaw_laidOut ext self chunks
    (ChunkHeader.fromParts ext zeros .padding 0 0) zeros holds.reliable holds.laid rfl
    (by
      rw [List.length_append, ChunkHeader.length_toBytes, length]
      unfold chunkHeaderSize at *
      omega)
    (by rw [placed]; exact word)
  exact ⟨after, ran, filePos.trans placed⟩

/-! ## Runs -/

/-- No operation changes the settings. -/
theorem runWriter_settings (ops : List WriterOp) (self : RecordWriter) :
    (runWriter ext ops self).settings = self.settings := by
  induction ops generalizing self with
  | nil => rfl
  | cons op rest ih => exact (ih _).trans (@WriterOp.run_extends ext op self).steady.settings

theorem finalPadding_of_settings {before after : RecordWriter}
    (same : after.settings = before.settings) : after.finalPadding = before.finalPadding := by
  unfold RecordWriter.settings at same
  simp only [Prod.mk.injEq] at same
  exact same.2.2.1

theorem opened_finalPadding (opened : Opened ext options self) :
    self.finalPadding = options.finalPadding := by
  have moved := @writeMetadata_extends ext options
    (RecordWriter.initial (signedSink ext fun _ => none) options)
  rw [opened_eq opened] at moved
  exact finalPadding_of_settings moved.steady.settings

/-- The file of a flush that succeeds is as long as a multiple of the padding, if
that is a word. -/
theorem HoldsFile.flush_length {fresh : ActiveEncoder} {chunkSize : Nat} {chunks : List Chunk}
    {pending : List Bytes} {writer after : RecordWriter}
    (holds : HoldsFile ext fresh chunkSize chunks pending writer)
    (bounded : pending = [] ∨ accountedSize pending + 8 ≤ chunkSize)
    (ran : guarded (RecordWriter.flushImpl ext) writer = (.ok (), after))
    (within : after.filePos ≤ u64Max) (pads : 0 < writer.finalPadding)
    (words : PadsInWord (paddingStart ext writer) writer.finalPadding) :
    after.sink.bytes.length % writer.finalPadding = 0 := by
  cases latch : writer.failed.isSome with
  | true =>
      obtain ⟨error, refused⟩ := @guarded_refused (RecordWriter.flushImpl ext) _ latch
      rw [ran] at refused
      cases refused
  | false =>
      rw [guarded, Act.bind_run_ok (checkNotFailed_ok latch)] at ran
      obtain ⟨failed, latched⟩ := latchFailure_eq (RecordWriter.flushImpl ext) writer
      rw [latched, Prod.mk.injEq] at ran
      obtain ⟨ok, rfl⟩ := ran
      obtain ⟨⟨added, accounts⟩, _, aligned⟩ := holds.flush bounded within
      have laid := accounts.file.laid
      have length : (RecordWriter.flushImpl ext writer).2.sink.bytes.length =
          (RecordWriter.flushImpl ext writer).2.filePos := by
        rw [laid.bytes, laid.wellPlaced.length_fileBytes, Nat.sub_zero, ← laid.filePos]
      change (RecordWriter.flushImpl ext writer).2.sink.bytes.length % writer.finalPadding = 0
      rw [length]
      exact aligned ok pads words

/-! ## Reading -/

/-- A chunk to read from is not padding. -/
theorem withoutPadding_data (chunks : List Chunk) :
    (withoutPadding chunks).filter isDataChunk = chunks.filter isDataChunk := by
  rw [withoutPadding, List.filter_filter]
  refine List.filter_congr fun chunk _ => ?_
  unfold isDataChunk
  rcases chunk.header.chunkType with error | chunkType
  · rfl
  · cases chunkType <;> rfl

/-- Padding aligns the files of a writer on a sink that never fails, and a
reader does not notice. -/
theorem padding_aligns (opened : Opened ext options self) (words : HandsWords options ops)
    (within : (runWriter ext ops self).filePos ≤ u64Max) : PaddingAligns ext options self ops := by
  obtain ⟨_, ahead, _⟩ := @runWriter_extends ext ops self
  obtain ⟨head, _, opening⟩ := opened_balanced opened (ahead.trans within)
  obtain ⟨entries, pending, balanced, _⟩ := opening.reaches ops words.records within
  have padding : (runWriter ext ops self).finalPadding = options.finalPadding :=
    (finalPadding_of_settings (runWriter_settings ops self)).trans (opened_finalPadding opened)
  refine ⟨fun _ many => paddingPosition many _,
    fun _ _ _ ends held => balanced.file.pads within ends held, ?_, ?_, ?_⟩
  · intro after ran fits pads words
    rw [flush_open balanced.isOpen] at ran
    rw [← padding] at pads words ⊢
    exact balanced.file.flush_length balanced.bounded ran fits pads words
  · intro after ran fits pads words
    rw [RecordWriter.close, flushInternal_open balanced.isOpen] at ran
    rw [← padding] at pads words ⊢
    have marked := balanced.file.mark (runWriter ext ops self).failed true
    exact marked.flush_length balanced.bounded ran fits pads words
  · intro writer ends fits
    obtain ⟨rest, laid, file⟩ := writerEnds_wholeFile opened words ends fits
    refine ⟨_, laid.bytes, fun readerOptions unwavering => ?_⟩
    rw [laid.bytes]
    have signed : withoutPadding (signatureChunk ext :: rest) =
        signatureChunk ext :: withoutPadding rest := by
      rw [withoutPadding, List.filter_cons_of_pos]
      · rfl
      · have typed : (signatureChunk ext).header.chunkType = .ok .fileSignature :=
          ChunkHeader.chunkType_fromParts _ _ _ _
        rw [typed]
        rfl
    rw [signed]
    exact file.reads_same (file.filter _) (withoutPadding_data rest).symm readerOptions unwavering

/-- The flush and the close put a padding chunk behind the pending record. -/
theorem padding_aligns_padded :
    PaddingAligns storingExternals alignedOptions alignedWriter alignedOps ∧
      (RecordWriter.flush storingExternals
        (runWriter storingExternals alignedOps alignedWriter)).2.sink.bytes.length %
          alignedOptions.finalPadding = 0 ∧
      (RecordWriter.close storingExternals
        (runWriter storingExternals alignedOps alignedWriter)).2.sink.bytes.length %
          alignedOptions.finalPadding = 0 := by
  have aligns := padding_aligns alignedWriter_opened
    ⟨(fun _ given => by cases given), alignedOps_small⟩
    (show (runWriter storingExternals alignedOps alignedWriter).filePos ≤ u64Max by decide +kernel)
  have target : PaddingTarget 244 200 400 := ⟨by decide, by decide, by decide +kernel⟩
  have flushed : (RecordWriter.flush storingExternals
      (runWriter storingExternals alignedOps alignedWriter)).1 = .ok () := by
    decide +kernel
  have closed : (RecordWriter.close storingExternals
      (runWriter storingExternals alignedOps alignedWriter)).1 = .ok () := by
    decide +kernel
  have flushStart :
      paddingStart storingExternals (runWriter storingExternals alignedOps alignedWriter) = 244 := by
    decide +kernel
  have closeStart :
      paddingStart storingExternals
        { runWriter storingExternals alignedOps alignedWriter with closed := true } = 244 := by
    decide +kernel
  have pads : PadsInWord 244 200 := fun _ => ⟨400, by decide, target⟩
  have ⟨_, _, flushes, closes, _⟩ := aligns
  exact ⟨aligns,
    flushes _ (Prod.fst_eq_iff.mp flushed) (by decide +kernel) (by decide) (flushStart ▸ pads),
    closes _ (Prod.fst_eq_iff.mp closed) (by decide +kernel) (by decide) (closeStart ▸ pads)⟩

end Riegeli
