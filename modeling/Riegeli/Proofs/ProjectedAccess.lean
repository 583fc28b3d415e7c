/-
Module: Riegeli.Proofs.ProjectedAccess
Purpose: Whatever projection a reader of a complete file has, its records are
  those that were written, each as the projection has it, and random access and
  search are exact on them.
Trusted boundary: the hash, the codecs and the sink
Main exports: PathsFit, ReadsAs, CompleteFile.readsUnder,
  random_access_projected, search_exact_projected
-/
import Riegeli.Proofs.EmptyPathProjection
import Riegeli.Proofs.NumericSeeks
import Riegeli.Proofs.ProjectedFiles
import Riegeli.Proofs.RecordSearch

namespace Riegeli

variable {ext : Externals} {options : WriterOptions} {ops : List WriterOp} {source : Bytes}
  {writer after : RecordWriter} {projection : Option FieldProjection}

/-- The field numbers of all paths of the projection together fit the 32-bit
identifiers of the include map. -/
def PathsFit (projection : Option FieldProjection) : Prop :=
  ∀ asked fields, projection = some asked → asked.fields = some fields →
    (fields.map fun field => field.path.length).sum < 2 ^ 32

theorem PathsFit.unprojected : PathsFit none := fun _ _ given => nomatch given

/-- What a record written with these options is read as: without a projection,
and under one that lists no fields or an empty path, as it was written. -/
inductive ReadsAs (options : WriterOptions) : Option FieldProjection → Bytes → Bytes → Prop where
  | plain {record : Bytes} : ReadsAs options none record record
  | kept {projection : FieldProjection} {record : Bytes} :
      projection.KeepsAll → ReadsAs options (some projection) record record
  | named {projection : FieldProjection} {fields : List Field} {written read : Bytes} :
      projection.Named fields → ReadAs options projection written read →
      ReadsAs options (some projection) written read

/-- Without a projection records are read as they were written. -/
theorem readsAs_plain {written left : List Bytes}
    (read : List.Forall₂ (ReadsAs options none) written left) : left = written := by
  induction read with
  | nil => rfl
  | cons first _ ih =>
      cases first
      rw [ih]

/-- A projection keeps everything or names what it keeps. -/
theorem PathsFit.cases (fit : PathsFit projection) :
    projection = none ∨
      ∃ asked, projection = some asked ∧ (asked.KeepsAll ∨ ∃ fields, asked.Named fields) := by
  cases projection with
  | none => exact .inl rfl
  | some asked =>
      refine .inr ⟨asked, rfl, ?_⟩
      cases listed : asked.fields with
      | none => exact .inl fun _ some => nomatch listed.symm.trans some
      | some fields =>
          by_cases empty : ∃ field ∈ fields, field.path = []
          · exact .inl fun _ some => Option.some.inj (listed.symm.trans some) ▸ empty
          · exact .inr ⟨fields, listed, fun field member none => empty ⟨field, member, none⟩,
              fit asked fields rfl listed⟩

/-- With simple chunks every record is read as it was written. -/
theorem PathsFit.readsWhole (fit : PathsFit projection) (simple : options.transpose = false)
    (record : Bytes) : ReadsAs options projection record record := by
  rcases fit.cases with rfl | ⟨asked, rfl, keeps | ⟨fields, named⟩⟩
  · exact .plain
  · exact .kept keeps
  · refine .named named ?_
    rw [ReadAs, if_neg (Bool.eq_false_iff.mp simple)]

/-- A chunk that the writer made of records opens, under every projection, to
what they are read as. -/
theorem CompleteFile.opensUnder (lawful : ext.Lawful)
    (complete : CompleteFile ext options ops source writer after) (fit : PathsFit projection)
    {op : WriterOp} {pending records : List Bytes} {chunk : Chunk}
    (encodes : EncodesRecords ext writer.freshEncoder records chunk)
    (rule : DataChunkRule (cappedChunkSize options) pending op records)
    (part : records <:+: writtenRecords ops) (fits : chunk.data.length ≤ u64Max) :
    ∃ left, Opens ext projection chunk left ∧
      List.Forall₂ (ReadsAs options projection) records left := by
  have kind := opened_transpose complete.opened
  cases transposed : options.transpose with
  | false =>
      exact ⟨records,
        simple_decodes lawful (kind.trans transposed) _ op pending records chunk encodes rule fits,
        List.forall₂_same.mpr fun record _ => fit.readsWhole transposed record⟩
  | true =>
      have taken := complete.fits transposed op pending records rule part
      obtain ⟨encoder, tagOps, took, fit', encoded⟩ :=
        transposed_took (kind.trans transposed) taken encodes
      rcases fit.cases with rfl | ⟨asked, rfl, keeps | ⟨fields, named⟩⟩
      · exact ⟨records, transposed_opens lawful (kind.trans transposed) taken encodes,
          List.forall₂_same.mpr fun _ _ => .plain⟩
      · obtain ⟨decoder, opened, yields⟩ :=
          keepsAll_encoded lawful took taken.short fit' encoded keeps
        exact ⟨records, transposed_opensAs took fit' encoded opened yields rfl,
          List.forall₂_same.mpr fun _ _ => .kept keeps⟩
      · obtain ⟨decoder, left, opened, yields, projected⟩ :=
          projected_encoded lawful took taken.short fit' encoded named
        refine ⟨left, transposed_opensAs took fit' encoded opened yields projected.length_eq,
          projected.imp fun _ _ rewritten => .named named ?_⟩
        rw [ReadAs, if_pos transposed]
        exact rewritten

/-- The chunks of a complete file, which under every projection open to what the
written records are read as. -/
theorem CompleteFile.readsUnder (lawful : ext.Lawful)
    (complete : CompleteFile ext options ops source writer after) :
    ∃ chunks : List Chunk, ∀ projection, PathsFit projection →
      ∃ held, held.map HeldChunk.chunk = chunks ∧ HoldsRecords ext projection source held ∧
        List.Forall₂ (ReadsAs options projection) (writtenRecords ops) (heldRecords held) := by
  obtain ⟨head, entries, opens, entered, laid, records⟩ :=
    synced_entries complete.opened complete.words complete.returns complete.synced complete.within
  refine ⟨head ++ entries.map LedgerEntry.chunk, fun projection fit => ?_⟩
  rw [complete.source_eq, ← records]
  exact laid.opensAs complete.words opens entered complete.within
    fun op pending part chunk encodes rule within fits =>
      complete.opensUnder lawful fit encodes rule (records ▸ within) fits

/-- A reader that some operations lead to faces chunks that hold what the written
records are read as under its projection. -/
theorem CompleteFile.facesUnder (lawful : ext.Lawful)
    (complete : CompleteFile ext options ops source writer after) {reader : RecordReader}
    {reading : ReaderOptions} (reached : ReaderReached ext source reading reader)
    (fit : PathsFit reader.fieldProjection) :
    ∃ file, FileChunks ext reader.fieldProjection source file ∧
      Facing source reader.fieldProjection reader ∧
      List.Forall₂ (ReadsAs options reader.fieldProjection) (writtenRecords ops)
        (heldRecords file) := by
  obtain ⟨_, under⟩ := complete.readsUnder lawful
  obtain ⟨held, _, holds, read⟩ := under _ fit
  refine ⟨_, holds.fileChunks,
    ⟨reached.measured.streamLen, reached.measured.source, rfl⟩, ?_⟩
  rw [heldRecords_cons]
  exact read

/-- Random access to a complete file under any projection, by the positions of a
sequential read under any projection. -/
theorem random_access_projected (lawful : ext.Lawful)
    (complete : CompleteFile ext options ops source writer after)
    {sequential : ReaderOptions} {opened : RecordReader}
    (fitOpened : PathsFit sequential.fieldProjection)
    (isNew : RecordReader.new ext source sequential = .ok opened)
    {reading : ReaderOptions} {reader : RecordReader}
    (reached : ReaderReached ext source reading reader) (fit : PathsFit reader.fieldProjection) :
    ∃ left,
      List.Forall₂ (ReadsAs options reader.fieldProjection) (writtenRecords ops) left ∧
        RandomAccess ext left opened reader := by
  obtain ⟨chunks, under⟩ := complete.readsUnder lawful
  obtain ⟨first, sameFirst, holdsFirst, _⟩ := under _ fitOpened
  obtain ⟨held, same, holds, read⟩ := under _ fit
  obtain ⟨facingOpened, start⟩ := holdsFirst.opened_at isNew
  have facing : Facing source reader.fieldProjection reader :=
    ⟨reached.measured.streamLen, reached.measured.source, rfl⟩
  refine ⟨heldRecords ((signatureChunk ext).bare :: held), ?_,
    holds.fileChunks.randomAccess holdsFirst.fileChunks ?_ facingOpened start facing⟩
  · rw [heldRecords_cons]
    exact read
  · rw [List.map_cons, List.map_cons, same, sameFirst]

/-- A reader that has been given a projection in the middle of the file. -/
def projectedReader : RecordReader :=
  runReader storingExternals
    [.readRecord, .setFieldProjection nestedProjection, .seekNumeric 150, .readRecord, .seekBack]
    (RecordReader.initial columnFlushed.sink.bytes ReaderOptions.new)

theorem projectedReader_reached :
    ReaderReached storingExternals columnFlushed.sink.bytes ReaderOptions.new projectedReader :=
  ⟨_, _, columnFile_complete.opens storingExternals_lawful ReaderOptions.new, rfl⟩

theorem projectedReader_projection :
    projectedReader.fieldProjection = some nestedProjection := by
  have given : ReaderReached storingExternals columnFlushed.sink.bytes ReaderOptions.new
      (runReader storingExternals [.readRecord, .setFieldProjection nestedProjection]
        (RecordReader.initial columnFlushed.sink.bytes ReaderOptions.new)) :=
    ⟨_, _, columnFile_complete.opens storingExternals_lawful ReaderOptions.new, rfl⟩
  have kept := @runReader_keeps storingExternals _ facingFrame_repositions
    [.seekNumeric 150, .readRecord, .seekBack] _ (by
      intro op member
      simp only [List.mem_cons, List.not_mem_nil, or_false] at member
      rcases member with rfl | rfl | rfl <;> trivial)
    ⟨given.measured.streamLen, given.measured.source, rfl⟩
  rw [← runReader_append] at kept
  exact kept.fieldProjection

theorem nestedProjection_fits : PathsFit (some nestedProjection) := by
  intro asked fields given listed
  cases given
  cases listed
  decide

theorem random_access_projected_column :
    ∃ left, List.Forall₂ (ReadsAs columnOptions (some nestedProjection))
        [[10, 4, 8, 1, 16, 2, 16, 150, 1], [255], [16, 7]] left ∧
      RandomAccess storingExternals left
        (RecordReader.initial columnFlushed.sink.bytes ReaderOptions.new) projectedReader := by
  have access := random_access_projected storingExternals_lawful columnFile_complete
    .unprojected
    (columnFile_complete.opens storingExternals_lawful ReaderOptions.new) projectedReader_reached
    (by rw [projectedReader_projection]; exact nestedProjection_fits)
  rw [projectedReader_projection] at access
  exact access

/-- On a complete file a search is exact under any projection for which the
records, as they are read, are sorted for the comparison. -/
theorem search_exact_projected (lawful : ext.Lawful)
    (complete : CompleteFile ext options ops source writer after)
    {reading : ReaderOptions} {reader : RecordReader}
    (reached : ReaderReached ext source reading reader) (fit : PathsFit reader.fieldProjection) :
    ∃ left,
      List.Forall₂ (ReadsAs options reader.fieldProjection) (writtenRecords ops) left ∧
        ∀ test, SortedFor test left →
          SearchExact ext test left (RecordReader.search ext test reader) := by
  obtain ⟨file, chunks, facing, read⟩ := complete.facesUnder lawful reached fit
  exact ⟨_, read, fun _ sorted => chunks.searchExact facing sorted⟩

/-- How the records of the transposed file compare in a search for the second. -/
def secondOfColumn (record : Bytes) : Ordering :=
  if record = [255] then .eq else if record.length = 9 then .lt else .gt

/-- A search from a reader that is past the record it is after. -/
theorem search_exact_projected_column :
    SearchExact storingExternals secondOfColumn
      [[10, 4, 8, 1, 16, 2, 16, 150, 1], [255], [16, 7]]
      (RecordReader.search storingExternals secondOfColumn
        (runReader storingExternals [.readRecord, .readRecord, .readRecord]
          (RecordReader.initial columnFlushed.sink.bytes ReaderOptions.new))) := by
  have facing : Facing columnFlushed.sink.bytes none
      (RecordReader.initial columnFlushed.sink.bytes ReaderOptions.new) :=
    ⟨initial_known _ _, rfl, rfl⟩
  have plain := (@runReader_keeps storingExternals _ facingFrame_repositions
    [.readRecord, .readRecord, .readRecord] _ (by
      intro op member
      simp only [List.mem_cons, List.not_mem_nil, or_false] at member
      rcases member with rfl | rfl | rfl <;> trivial) facing).fieldProjection
  obtain ⟨left, read, searched⟩ := search_exact_projected storingExternals_lawful columnFile_complete
    ⟨_, _, columnFile_complete.opens storingExternals_lawful ReaderOptions.new, rfl⟩
    (by rw [plain]; exact .unprojected)
  rw [plain] at read
  obtain rfl := readsAs_plain read
  refine searched _ ⟨[[10, 4, 8, 1, 16, 2, 16, 150, 1]], [[255]], [[16, 7]], rfl, ?_, ?_, ?_⟩
  · decide
  · decide
  · decide

end Riegeli
