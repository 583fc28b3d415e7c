/-
Module: Riegeli.Proofs.CompleteFiles
Purpose: The chunks of a complete file open to the records that were written.
Trusted boundary: the hash, the codecs and the sink
Main exports: CompleteFile.holds, CompleteFile.opens, plainFile_complete
-/
import Riegeli.Spec.CompleteFiles
import Riegeli.Proofs.FileRoundTrip

namespace Riegeli

variable {ext : Externals} {options : WriterOptions} {ops : List WriterOp} {source : Bytes}
  {writer after : RecordWriter}

/-- The transposed encoder takes records one after the other. -/
theorem filled_transpose {records : List Bytes} :
    ∀ {fresh : TransposeChunkEncoder} {encoder : ActiveEncoder},
      Filled (.transpose fresh) records encoder →
      ∃ taken, encoder = .transpose taken ∧
        records.foldlM TransposeChunkEncoder.addRecord fresh = .ok taken := by
  induction records with
  | nil =>
      intro fresh encoder filled
      exact ⟨fresh, (Except.ok.inj filled).symm, rfl⟩
  | cons record rest ih =>
      intro fresh encoder filled
      unfold Filled at filled
      rw [List.foldlM_cons] at filled
      obtain ⟨next, added, filled⟩ := Except.bind_eq_ok.mp filled
      obtain ⟨taken, addedTo, built⟩ := Except.bind_eq_ok.mp added
      cases built
      obtain ⟨last, same, filledRest⟩ := ih filled
      refine ⟨last, same, ?_⟩
      rw [List.foldlM_cons, addedTo, Except.ok_bind, filledRest]

/-- Behind a transposed chunk there is an encoder that took its records. -/
theorem transposed_took (transposed : writer.transpose = true) {records : List Bytes} {chunk : Chunk}
    (fits : TransposedFits ext writer.freshEncoder records)
    (encodes : EncodesRecords ext writer.freshEncoder records chunk) :
    ∃ (encoder : TransposeChunkEncoder) (tagOps : List TagOp), encoder.Took tagOps records ∧ encoder.SizesFit ext records ∧
      encoder.encode ext = .ok chunk := by
  obtain ⟨_, encoder, filled, encoded⟩ := encodes
  have sizes := fits.sizes
  unfold RecordWriter.freshEncoder at filled sizes
  rw [if_pos transposed] at filled sizes
  obtain ⟨taken, rfl, added⟩ := filled_transpose filled
  obtain ⟨last, tagOps, ran, took, _⟩ := TransposeChunkEncoder.addRecords_took records fits.short
    (TransposeChunkEncoder.new_took writer.compression writer.compressOpts writer.transposeBucketSize)
  rw [added] at ran
  cases ran
  rw [List.nil_append] at took
  exact ⟨taken, tagOps, took, sizes taken filled, encoded⟩

/-- A transposed chunk opens to what its decoder hands over, as much as it
took. -/
theorem transposed_opensAs {encoder : TransposeChunkEncoder} {tagOps : List TagOp}
    {records left : List Bytes} {chunk : Chunk} (took : encoder.Took tagOps records)
    (fit : encoder.SizesFit ext records) (encoded : encoder.encode ext = .ok chunk)
    {projection : Option FieldProjection} {decoder : TransposeChunkDecoder}
    (opened : TransposeChunkDecoder.newWithProjection ext chunk projection = .ok decoder)
    (yields : (ActiveDecoder.transposed decoder).Yields left)
    (counted : records.length = left.length) : Opens ext projection chunk left := by
  have header := TransposeChunkEncoder.encode_header encoded
  refine .transposed ?_ ?_ yields ?_
  · rw [header, ChunkHeader.chunkType_fromParts]
  · unfold RecordReader.transposedDecoder
    rw [opened]
    rfl
  · rw [← counted, header, took.numRecords]
    exact ChunkHeader.numRecords_fromParts _ _ _ fit.counted

/-- A transposed chunk opens to the records it was made of. -/
theorem transposed_opens (lawful : ext.Lawful) (transposed : writer.transpose = true)
    {records : List Bytes} {chunk : Chunk} (fits : TransposedFits ext writer.freshEncoder records)
    (encodes : EncodesRecords ext writer.freshEncoder records chunk) :
    Opens ext none chunk records := by
  obtain ⟨encoder, tagOps, took, fit, encoded⟩ := transposed_took transposed fits encodes
  obtain ⟨decoder, opened, yields⟩ := transposed_encoded lawful took fits.short fit encoded
  exact transposed_opensAs took fit encoded opened yields rfl

/-- A complete file is made of chunks that open to what was written, record by
record and in order. -/
theorem CompleteFile.holds (lawful : ext.Lawful)
    (complete : CompleteFile ext options ops source writer after) :
    ∃ held, HoldsRecords ext none source held ∧ heldRecords held = writtenRecords ops := by
  have kind := opened_transpose complete.opened
  rw [complete.source_eq]
  refine synced_opens complete.opened complete.words complete.returns complete.synced
    complete.within fun op pending records chunk encodes rule within fits => ?_
  cases plain : options.transpose with
  | false =>
      exact simple_decodes lawful (kind.trans plain) none op pending records chunk encodes rule fits
  | true =>
      exact transposed_opens lawful (kind.trans plain)
        (complete.fits plain op pending records rule within) encodes

/-- A complete file is opened without a look beyond its preamble. -/
theorem CompleteFile.opens (lawful : ext.Lawful)
    (complete : CompleteFile ext options ops source writer after) (reading : ReaderOptions) :
    RecordReader.new ext source reading = .ok (RecordReader.initial source reading) := by
  obtain ⟨held, holds, _⟩ := complete.holds lawful
  rw [holds.source_eq]
  exact holds.whole.opened reading

/-! ## A file of two records -/

/-- The operations that write two records and push them out. -/
def plainOps : List WriterOp := [.writeRecord [1, 2, 3], .writeRecord [4]]

/-- The writer behind them. -/
def plainFlushed : RecordWriter :=
  (RecordWriter.flush storingExternals (runWriter storingExternals plainOps plainWriter)).2

/-- The bytes in its sink. -/
def plainFile : Bytes := plainFlushed.sink.bytes

/-- It is a complete file. -/
theorem plainFile_complete :
    CompleteFile storingExternals plainOptions plainOps plainFile plainWriter plainFlushed where
  opened := plainWriter_opened
  words := by
    refine ⟨(fun _ given => by cases given), fun record member => ?_⟩
    simp only [plainOps, List.mem_cons, WriterOp.writeRecord.injEq, List.not_mem_nil, or_false]
      at member
    rcases member with rfl | rfl <;> decide
  returns := by
    intro result member
    have all : ∀ result ∈ runResults storingExternals plainOps plainWriter, result = .ok () := by
      decide
    exact .inl ⟨(), all result member⟩
  synced := .flushed (Prod.ext (by decide) rfl)
  within := by decide
  source_eq := rfl
  fits := fun transposed => by cases transposed

/-! ## A file of three chunks of records -/

/-- The writer that has flushed two chunks of records, padding and a third chunk. -/
def alignedFlushed : RecordWriter :=
  (RecordWriter.flush storingExternals (runWriter storingExternals alignedOps alignedWriter)).2

/-- The bytes in its sink. -/
def alignedFile : Bytes := alignedFlushed.sink.bytes

/-- It is a complete file. -/
theorem alignedFile_complete :
    CompleteFile storingExternals alignedOptions alignedOps alignedFile alignedWriter
      alignedFlushed where
  opened := alignedWriter_opened
  words := ⟨(fun _ given => by cases given), alignedOps_small⟩
  returns := by
    intro result member
    have all : ∀ result ∈ runResults storingExternals alignedOps alignedWriter, result = .ok () := by
      decide +kernel
    exact .inl ⟨(), all result member⟩
  synced := by
    have flushed : (RecordWriter.flush storingExternals
        (runWriter storingExternals alignedOps alignedWriter)).1 = .ok () := by
      decide +kernel
    exact .flushed (Prod.fst_eq_iff.mp flushed)
  within := by decide +kernel
  source_eq := rfl
  fits := fun transposed => by cases transposed

end Riegeli
