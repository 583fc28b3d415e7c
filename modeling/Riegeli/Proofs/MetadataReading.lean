/-
Module: Riegeli.Proofs.MetadataReading
Purpose: The metadata of a complete file is read back as it was given, from a
  reader in any state.
Trusted boundary: the hash, the codecs and the sink
Main exports: encodeMetadata_decodes, readSerializedMetadata_held,
  metadata_roundTrip, metadata_kept
-/
import Riegeli.Proofs.CompleteFiles
import Riegeli.Proofs.PositionedReads

namespace Riegeli

open RecordReader

variable {ext : Externals} {source : Bytes} {reader : RecordReader} {chunk : Chunk}

/-! ## The metadata chunk -/

/-- The data of a metadata chunk decodes under the header that the reader makes
up for it. -/
theorem encodeMetadata_decodes (lawful : ext.Lawful) {options : WriterOptions} {metadata : Bytes}
    (fits : MetadataFits ext options metadata)
    (encoded : RecordWriter.encodeMetadata ext options.compression
      { level := options.compressionLevel, windowLog := options.windowLog } metadata = .ok chunk) :
    chunk.header = ChunkHeader.fromParts ext chunk.data .fileMetadata 0 metadata.length ∧
      decodeMetadata ext chunk.data chunk.header.decodedDataSize = .ok metadata := by
  obtain ⟨encoder, added, encoded⟩ := Except.bind_eq_ok.mp encoded
  obtain ⟨made, encodedRan, built⟩ := Except.bind_eq_ok.mp encoded
  cases built
  refine ⟨rfl, ?_⟩
  have short : ∀ record ∈ [metadata], record.length ≤ u32Max := by
    intro record member
    rw [List.mem_singleton.mp member]
    exact fits.short
  -- one bucket whatever the size, as without a bucket size
  have start := TransposeChunkEncoder.new_took options.compression
    { level := options.compressionLevel, windowLog := options.windowLog } u64Max
  rw [TransposeChunkEncoder.withBucketSize, ite_self] at start
  obtain ⟨last, ops, ran, took, _⟩ := TransposeChunkEncoder.addRecords_took [metadata] short start
  have same : encoder = last := by
    have taken : [metadata].foldlM TransposeChunkEncoder.addRecord
        ((TransposeChunkEncoder.new options.compression).withCompressOpts
          { level := options.compressionLevel, windowLog := options.windowLog }) = .ok encoder := by
      rw [List.foldlM_cons, added, Except.ok_bind, List.foldlM_nil]
      rfl
    exact Except.ok.inj (taken.symm.trans ran)
  rw [← same, List.nil_append] at took
  obtain ⟨decoder, opened, yields⟩ :=
    transposed_encoded lawful took short (fits.sizes encoder added) encodedRan
  have header := TransposeChunkEncoder.encode_header encodedRan
  rw [took.numRecords, took.decodedDataSize, List.flatten_singleton, List.length_singleton] at header
  have whole : ({ header := ChunkHeader.fromParts ext made.data .transposed 1 metadata.length
                  data := made.data } : Chunk) = made := by
    rw [← header]
  obtain ⟨next, read, _⟩ := yields
  obtain ⟨⟨first, after⟩, handed, same⟩ := Except.bind_eq_ok.mp read
  cases same
  change decodeMetadata ext made.data metadata.length = .ok metadata
  unfold decodeMetadata
  rw [whole, opened, Except.ok_bind, handed]
  rfl

/-! ## Reading it -/

theorem peekChunkHeader_held (known : Known reader) {place : Nat}
    (holds : HoldsAt ext reader.source place chunk) :
    peekChunkHeader ext place reader = (.ok (some chunk.header), reader) := by
  unfold peekChunkHeader
  rw [Act.bind_run, readChunkHeaderAt_static known, headerAt_held holds]
  simp only
  rw [if_neg (by rw [holds.made.headerValid]; decide)]
  rfl

/-- The whole data of a chunk is read behind its header. -/
theorem HoldsAt.dataRead {place : Nat} (holds : HoldsAt ext source place chunk) :
    readChunkData ext source place (chunk.stop place) (headerStop place) chunk.header.dataSize =
      .ok chunk.data := by
  have room := holds.standing.room
  have payload : chunk.payload = chunk.header.toBytes ++ chunk.data := rfl
  have length : chunk.payload.length = 40 + chunk.header.dataSize := by
    rw [payload, List.length_append, ChunkHeader.length_toBytes, holds.sized]
  have read := readChunkData_whole holds.standing holds.shows (Nat.le_of_eq length.symm)
    (by
      rw [length] at room
      exact room.trans holds.whole)
  rw [read, payload, List.drop_left' (by rw [ChunkHeader.length_toBytes]), holds.sized,
    List.take_length]

/-- A metadata chunk behind the signature is read and decoded. -/
theorem readSerializedMetadata_held (known : Known reader)
    (holds : HoldsAt ext reader.source firstDataChunk chunk) {metadata : Bytes}
    (typed : chunk.header.chunkType = .ok .fileMetadata)
    (decoded : decodeMetadata ext chunk.data chunk.header.decodedDataSize = .ok metadata) :
    (readSerializedMetadata ext reader).1 = .ok (some metadata) := by
  have cleared : Known { reader with pendingTrustedEnd := none } := known
  have header := @peekChunkHeader_held ext { reader with pendingTrustedEnd := none } chunk cleared
    firstDataChunk holds
  have special : ∀ place, validateSpecialChunk chunk.header place .fileMetadata = .ok () := by
    obtain ⟨chunkType, same, valid⟩ := holds.made.typed
    rw [typed] at same
    cases same
    exact valid
  have payload : ∃ after, readMetadataPayload ext firstDataChunk chunk.header
      { reader with pendingTrustedEnd := none } = (.ok metadata, after) := by
    have data := holds.dataRead
    have begins : headerStop firstDataChunk = firstDataChunk + chunkHeaderSize := by decide
    rw [Chunk.stop, begins] at data
    refine ⟨{ reader with
      pendingTrustedEnd := some (chunkEnd firstDataChunk chunk.header.dataSize chunk.header.numRecords) },
      ?_⟩
    unfold readMetadataPayload
    rw [Act.bind_run, Act.lift_run, special]
    simp only
    rw [Act.bind_run_ok (Act.get_run _), Act.bind_run, Act.lift_run, data]
    simp only
    rw [setTrustedEnd, Act.bind_run_ok (Act.modify_run _ _),
      if_neg (by rw [holds.made.dataValid]; decide), Act.lift_run, decoded]
  obtain ⟨after, payload⟩ := payload
  unfold readSerializedMetadata
  rw [setTrustedEnd, Act.bind_run_ok (Act.modify_run _ _),
    Act.bind_run_ok (attempt_run_ok header)]
  simp only
  rw [if_neg (by rw [typed]; simp [Except.toOption]), Act.bind_run_ok (attempt_run_ok payload)]
  rfl

/-- A chunk of another type behind the signature is no metadata. -/
theorem readSerializedMetadata_other (known : Known reader)
    (holds : HoldsAt ext reader.source firstDataChunk chunk) {chunkType : ChunkType}
    (typed : chunk.header.chunkType = .ok chunkType) (other : chunkType ≠ .fileMetadata) :
    (readSerializedMetadata ext reader).1 = .ok none := by
  have cleared : Known { reader with pendingTrustedEnd := none } := known
  have header := @peekChunkHeader_held ext { reader with pendingTrustedEnd := none } chunk cleared
    firstDataChunk holds
  unfold readSerializedMetadata
  rw [setTrustedEnd, Act.bind_run_ok (Act.modify_run _ _),
    Act.bind_run_ok (attempt_run_ok header)]
  simp only
  rw [if_pos (by rw [typed]; simp [Except.toOption, other])]
  rfl

/-- Nor is the end of the file. -/
theorem readSerializedMetadata_end (known : Known reader)
    (absent : reader.source.length ≤ firstDataChunk) :
    (readSerializedMetadata ext reader).1 = .ok none := by
  have cleared : Known { reader with pendingTrustedEnd := none } := known
  have none : headerAt ext reader.source firstDataChunk = .ok none := by
    unfold headerAt
    rw [show canonicalChunkAddress firstDataChunk = firstDataChunk by decide]
    dsimp only
    rw [readHeaderBytes_absent absent]
  have header : peekChunkHeader ext firstDataChunk { reader with pendingTrustedEnd := Option.none } =
      (.ok Option.none, { reader with pendingTrustedEnd := Option.none }) := by
    unfold peekChunkHeader
    rw [Act.bind_run, readChunkHeaderAt_static cleared, none]
    rfl
  unfold readSerializedMetadata
  rw [setTrustedEnd, Act.bind_run_ok (Act.modify_run _ _),
    Act.bind_run_ok (attempt_run_ok header)]
  rfl

/-! ## The round trip -/

/-- The chunk of an entry is of a type of its own. -/
theorem Entered.notMetadata {self : RecordWriter} {options : WriterOptions} {entry : LedgerEntry}
    (entered : Entered ext self options entry) :
    ∃ chunkType, entry.chunk.header.chunkType = .ok chunkType ∧ chunkType ≠ .fileMetadata := by
  obtain ⟨op, pending, added, left, result, row, member⟩ := entered
  cases entry with
  | data records chunk =>
      obtain ⟨chunkType, kind, header⟩ := (row.data records chunk member).1.header
      refine ⟨chunkType, (congrArg ChunkHeader.chunkType header).trans
        (ChunkHeader.chunkType_fromParts _ _ _ _), ?_⟩
      rcases kind with rfl | rfl <;> decide
  | padding chunk =>
      obtain ⟨size, data, header⟩ := row.padding chunk member
      exact ⟨.padding, (congrArg ChunkHeader.chunkType header).trans
        (ChunkHeader.chunkType_fromParts _ _ _ _), by decide⟩

/-- The metadata behind the signature of a file is what the chunks that open it
were made of. -/
theorem LaidOut.readsMetadata (lawful : ext.Lawful) {written : WriterOptions} {ops : List WriterOp}
    {writer left : RecordWriter} (words : HandsWords written ops) {head : List Chunk}
    {entries : List LedgerEntry} (starts : StartsWith ext written head)
    (entered : ∀ entry ∈ entries, Entered ext writer written entry)
    (laid : LaidOut ext left (signatureChunk ext :: (head ++ entries.map LedgerEntry.chunk)))
    (within : left.filePos < u64Max)
    (fits : ∀ metadata, written.metadata = some metadata → MetadataFits ext written metadata)
    {options : ReaderOptions} (reached : ReaderReached ext left.sink.bytes options reader) :
    (readSerializedMetadata ext reader).1 = .ok written.metadata := by
  have known : Known reader := reached.measured.streamLen
  have file := laid.wholeFile words starts.isHead entered within
  have holds := file.holdsFrom
  rw [← laid.bytes, ← reached.measured.source] at holds
  cases starts with
  | metadata given encoded =>
      obtain ⟨header, decoded⟩ := encodeMetadata_decodes lawful (fits _ given) encoded
      rw [given]
      exact readSerializedMetadata_held known holds.1
        ((congrArg ChunkHeader.chunkType header).trans (ChunkHeader.chunkType_fromParts _ _ _ _))
        decoded
  | bare given =>
      rw [given]
      cases entries with
      | nil => exact readSerializedMetadata_end known (Nat.le_of_eq holds.2.symm)
      | cons entry rest =>
          obtain ⟨chunkType, typed, other⟩ := (entered entry List.mem_cons_self).notMetadata
          exact readSerializedMetadata_other known holds.1 typed other

/-- The metadata of a complete file is what was given to its writer, if
anything, for every reader that some operations lead to. -/
theorem metadata_roundTrip (lawful : ext.Lawful) {written : WriterOptions} {ops : List WriterOp}
    {writer flushed : RecordWriter}
    (complete : CompleteFile ext written ops source writer flushed)
    (fits : ∀ metadata, written.metadata = some metadata → MetadataFits ext written metadata)
    {options : ReaderOptions} (reached : ReaderReached ext source options reader) :
    (readSerializedMetadata ext reader).1 = .ok written.metadata := by
  have within := Nat.le_of_lt complete.within
  obtain ⟨head, starts, balanced⟩ :=
    opened_starts complete.opened (opened_within complete.synced within)
  obtain ⟨entries, entered, laid, _⟩ :=
    balanced.entries complete.words complete.returns complete.synced within
  rw [complete.source_eq] at reached
  exact laid.readsMetadata lawful complete.words starts entered complete.within fits reached

/-- Wherever a writer on a reliable sink ends, its file opens with the chunk of
its metadata and goes on with entries of its operations. -/
theorem writerEnds_starts {written : WriterOptions} {ops : List WriterOp}
    {writer left : RecordWriter} (opened : Opened ext written writer)
    (words : HandsWords written ops) (ends : WriterEnds ext writer ops left)
    (within : left.filePos ≤ u64Max) :
    ∃ head, ∃ entries : List LedgerEntry, StartsWith ext written head ∧
      (∀ entry ∈ entries, Entered ext writer written entry) ∧
      LaidOut ext left (signatureChunk ext :: (head ++ entries.map LedgerEntry.chunk)) := by
  have ran : (runWriter ext ops writer).filePos ≤ left.filePos := by
    cases ends with
    | run => exact Nat.le_refl _
    | closed => exact close_ahead _
  obtain ⟨_, ahead, _⟩ := @runWriter_extends ext ops writer
  obtain ⟨head, starts, balanced⟩ := opened_starts opened ((ahead.trans ran).trans within)
  obtain ⟨entries, pending, final, entered, _⟩ :=
    balanced.reaches ops words.records (ran.trans within)
  cases ends with
  | run => exact ⟨head, entries, starts, entered, final.file.laid⟩
  | closed =>
      obtain ⟨added, row, laid⟩ := final.closes within
      rw [List.append_assoc, ← List.map_append, List.cons_append] at laid
      refine ⟨head, entries ++ added, starts, fun entry member => ?_, laid⟩
      rcases List.mem_append.mp member with before | last
      · exact entered entry before
      · exact ⟨_, _, _, _, _, row, last⟩

/-- Whatever is written behind it, flushed or not, the metadata is read back as
it was given, and none where none was. -/
theorem metadata_kept (lawful : ext.Lawful) {written : WriterOptions} {ops : List WriterOp}
    {writer left : RecordWriter} (opened : Opened ext written writer)
    (words : HandsWords written ops) (ends : WriterEnds ext writer ops left)
    (within : left.filePos < u64Max)
    (fits : ∀ metadata, written.metadata = some metadata → MetadataFits ext written metadata)
    {options : ReaderOptions} (reached : ReaderReached ext left.sink.bytes options reader) :
    (readSerializedMetadata ext reader).1 = .ok written.metadata := by
  obtain ⟨head, entries, starts, entered, laid⟩ :=
    writerEnds_starts opened words ends (Nat.le_of_lt within)
  exact laid.readsMetadata lawful words starts entered within fits reached

/-! ## A file with metadata -/

/-- Options with metadata. -/
def describedOptions : WriterOptions := { plainOptions with metadata := some [255] }

/-- The writer these options open. -/
def describedWriter : RecordWriter :=
  ((RecordWriter.new storingExternals reliableSink describedOptions).1.toOption).getD plainWriter

/-- What it has stored behind one record and a flush. -/
def describedFile : Bytes :=
  (RecordWriter.flush storingExternals
    (runWriter storingExternals [.writeRecord [4]] describedWriter)).2.sink.bytes

theorem describedWriter_opened : Opened storingExternals describedOptions describedWriter := by
  have opens : (RecordWriter.new storingExternals reliableSink describedOptions).1.isOk = true := by
    decide +kernel
  unfold Opened describedWriter
  cases opened : (RecordWriter.new storingExternals reliableSink describedOptions).1 with
  | ok writer => rfl
  | error fault =>
      rw [opened] at opens
      cases opens

theorem describedFile_complete :
    CompleteFile storingExternals describedOptions [.writeRecord [4]] describedFile describedWriter
      (RecordWriter.flush storingExternals
        (runWriter storingExternals [.writeRecord [4]] describedWriter)).2 where
  opened := describedWriter_opened
  words := by
    refine ⟨fun metadata given => ?_, fun record member => ?_⟩
    · cases given
      decide
    · cases List.mem_singleton.mp member
      decide
  returns := by
    intro result member
    have all : ∀ result ∈ runResults storingExternals [.writeRecord [4]] describedWriter,
        result = .ok () := by
      decide +kernel
    exact .inl ⟨(), all result member⟩
  synced := .flushed (Prod.ext (by decide +kernel) rfl)
  within := by decide +kernel
  source_eq := rfl
  fits := fun transposed => by cases transposed

theorem metadata_roundTrip_described :
    (readSerializedMetadata storingExternals
      (RecordReader.readRecord storingExternals
        (RecordReader.initial describedFile ReaderOptions.new)).2).1 = .ok (some [255]) := by
  have fits : ∀ metadata, describedOptions.metadata = some metadata →
      MetadataFits storingExternals describedOptions metadata := by
    intro metadata given
    cases given
    exact ⟨by decide, by decide +kernel⟩
  exact metadata_roundTrip storingExternals_lawful describedFile_complete fits
    ⟨_, [.readRecord], describedFile_complete.opens storingExternals_lawful ReaderOptions.new, rfl⟩

/-- What is in the sink when the second of two records has not been flushed. -/
def halfWritten : Bytes :=
  (runWriter storingExternals [.writeRecord [4], .flush, .writeRecord [5, 6]]
    describedWriter).sink.bytes

theorem halfWritten_opens :
    RecordReader.new storingExternals halfWritten ReaderOptions.new =
      .ok (RecordReader.initial halfWritten ReaderOptions.new) :=
  new_valid _ (by decide +kernel)

theorem metadata_kept_halfWritten :
    (readSerializedMetadata storingExternals
      (runReader storingExternals [.readRecord, .seekNumeric 200, .readRecord]
        (RecordReader.initial halfWritten ReaderOptions.new))).1 = .ok (some [255]) := by
  have words : HandsWords describedOptions [.writeRecord [4], .flush, .writeRecord [5, 6]] := by
    refine ⟨fun metadata given => ?_, fun record member => ?_⟩
    · cases given
      decide
    · have short : ∀ record ∈ writtenRecords [.writeRecord [4], .flush, .writeRecord [5, 6]],
          record.length ≤ u64Max := by
        decide
      exact short record (mem_writtenRecords.mpr member)
  have fits : ∀ metadata, describedOptions.metadata = some metadata →
      MetadataFits storingExternals describedOptions metadata := by
    intro metadata given
    cases given
    exact ⟨by decide, by decide +kernel⟩
  exact metadata_kept storingExternals_lawful describedWriter_opened words .run (by decide +kernel)
    fits ⟨_, _, halfWritten_opens, rfl⟩

end Riegeli
