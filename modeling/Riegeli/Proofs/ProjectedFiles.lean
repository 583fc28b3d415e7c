/-
Module: Riegeli.Proofs.ProjectedFiles
Purpose: A complete file is read back in full, and under a projection every
  record of a transposed file is read as the projection rewrites it.
Trusted boundary: the hash, the codecs and the sink
Main exports: complete_reads, ReadAs, CompleteFile.holdsAs, projected_reads
-/
import Riegeli.Proofs.CompleteFiles
import Riegeli.Proofs.ProjectedDecode

namespace Riegeli

variable {ext : Externals} {options : WriterOptions} {ops : List WriterOp} {source : Bytes}
  {writer after : RecordWriter}

/-- A complete file, simple or transposed, is read back record by record. -/
theorem complete_reads (lawful : ext.Lawful)
    (complete : CompleteFile ext options ops source writer after) {reading : ReaderOptions}
    (unwavering : Unwavering reading.recovery) (whole : reading.fieldProjection = none) :
    ReadsBack ext reading source (writtenRecords ops) := by
  obtain ⟨held, holds, same⟩ := complete.holds lawful
  rw [← whole] at holds
  rw [← same]
  exact holds.reads unwavering

/-! ## Under a projection -/

/-- What a record written with these options is read as under a projection: only
transposed chunks can leave fields out. -/
def ReadAs (options : WriterOptions) (projection : FieldProjection) (written read : Bytes) : Prop :=
  if options.transpose then ProjectedRecord projection written read else written = read

/-- A complete file is made of chunks that open to what was written as the
projection has it. -/
theorem CompleteFile.holdsAs (lawful : ext.Lawful)
    (complete : CompleteFile ext options ops source writer after) {projection : FieldProjection}
    {fields : List Field} (named : projection.Named fields) :
    ∃ held, HoldsRecords ext (some projection) source held ∧
      List.Forall₂ (ReadAs options projection) (writtenRecords ops) (heldRecords held) := by
  have kind := opened_transpose complete.opened
  rw [complete.source_eq]
  refine synced_opensAs complete.opened complete.words complete.returns complete.synced
    complete.within fun op pending records chunk encodes rule part fits => ?_
  cases plain : options.transpose with
  | false =>
      refine ⟨records, simple_decodes lawful (kind.trans plain) _ op pending records chunk encodes
        rule fits, List.forall₂_same.mpr fun _ _ => ?_⟩
      rw [ReadAs, if_neg (Bool.eq_false_iff.mp plain)]
  | true =>
      have taken := complete.fits plain op pending records rule part
      obtain ⟨encoder, tagOps, took, fit, encoded⟩ :=
        transposed_took (kind.trans plain) taken encodes
      obtain ⟨decoder, left, opened, yields, projected⟩ :=
        projected_encoded lawful took taken.short fit encoded named
      refine ⟨left, transposed_opensAs took fit encoded opened yields projected.length_eq,
        projected.imp fun _ _ rewritten => ?_⟩
      rw [ReadAs, if_pos plain]
      exact rewritten

/-- A reader with a projection returns every record of a complete file, in order,
as the projection has it. -/
theorem projected_reads (lawful : ext.Lawful)
    (complete : CompleteFile ext options ops source writer after) {reading : ReaderOptions}
    (unwavering : Unwavering reading.recovery) {projection : FieldProjection} {fields : List Field}
    (asked : reading.fieldProjection = some projection) (named : projection.Named fields) :
    ∃ left, List.Forall₂ (ReadAs options projection) (writtenRecords ops) left ∧
      ReadsBack ext reading source left := by
  obtain ⟨held, holds, projected⟩ := complete.holdsAs lawful named
  rw [← asked] at holds
  exact ⟨heldRecords held, projected, holds.reads unwavering⟩

/-! ## A transposed file -/

/-- Options for transposed chunks in files of a multiple of 300 bytes. -/
def columnOptions : WriterOptions := { plainOptions with transpose := true, finalPadding := 300 }

/-- The writer these options open. -/
def columnWriter : RecordWriter :=
  RecordWriter.initial (signedSink storingExternals fun _ => none) columnOptions

/-- A message and bytes that are none, and behind a flush another message. -/
def columnOps : List WriterOp :=
  [.writeRecord [10, 4, 8, 1, 16, 2, 16, 150, 1], .writeRecord [255], .flush,
    .writeRecord [16, 7]]

/-- The writer behind it. -/
def columnFlushed : RecordWriter :=
  (RecordWriter.flush storingExternals (runWriter storingExternals columnOps columnWriter)).2

/-- The parts of a list. -/
def partsOf {Item : Type} (items : List Item) : List (List Item) :=
  items.tails.flatMap List.inits

theorem mem_partsOf {Item : Type} {part items : List Item} (within : part <:+: items) :
    part ∈ partsOf items := by
  obtain ⟨tail, starts, ends⟩ := List.infix_iff_prefix_suffix.mp within
  exact List.mem_flatMap.mpr ⟨tail, (List.mem_tails _ _).mpr ends, (List.mem_inits _ _).mpr starts⟩

theorem columnWriter_fits (records : List Bytes) (part : records <:+: writtenRecords columnOps) :
    TransposedFits storingExternals columnWriter.freshEncoder records := by
  have sizes : ∀ records ∈ partsOf (writtenRecords columnOps), ∀ encoder,
      records.foldlM TransposeChunkEncoder.addRecord
        (((TransposeChunkEncoder.new columnWriter.compression).withCompressOpts
          columnWriter.compressOpts).withBucketSize columnWriter.transposeBucketSize) = .ok encoder →
      encoder.SizesFit storingExternals records := by
    decide +kernel
  have short : ∀ records ∈ partsOf (writtenRecords columnOps), ∀ record ∈ records,
      record.length ≤ u32Max := by
    decide +kernel
  refine ⟨short records (mem_partsOf part), fun encoder filled => ?_⟩
  obtain ⟨taken, same, added⟩ := filled_transpose filled
  cases same
  exact sizes records (mem_partsOf part) encoder added

theorem columnFile_complete :
    CompleteFile storingExternals columnOptions columnOps columnFlushed.sink.bytes columnWriter
      columnFlushed where
  opened := rfl
  words := by
    have short : ∀ record ∈ writtenRecords columnOps, record.length ≤ u64Max := by
      decide +kernel
    exact ⟨(fun _ given => by cases given), fun record member =>
      short record (mem_writtenRecords.mpr member)⟩
  returns := by
    intro result member
    have all : ∀ result ∈ runResults storingExternals columnOps columnWriter, result = .ok () := by
      decide +kernel
    exact .inl ⟨(), all result member⟩
  synced := .flushed (Prod.ext (by decide +kernel) rfl)
  within := by decide +kernel
  source_eq := rfl
  fits := fun _ _ _ records _ part => columnWriter_fits records part

theorem complete_reads_column :
    ReadsBack storingExternals ReaderOptions.new columnFlushed.sink.bytes
      [[10, 4, 8, 1, 16, 2, 16, 150, 1], [255], [16, 7]] :=
  complete_reads storingExternals_lawful columnFile_complete (fun _ given => by cases given) rfl

theorem projected_reads_column :
    ∃ left, List.Forall₂ (ReadAs columnOptions nestedProjection)
        [[10, 4, 8, 1, 16, 2, 16, 150, 1], [255], [16, 7]] left ∧
      ReadsBack storingExternals { ReaderOptions.new with fieldProjection := some nestedProjection }
        columnFlushed.sink.bytes left :=
  @projected_reads storingExternals _ _ _ _ _ storingExternals_lawful columnFile_complete
    { ReaderOptions.new with fieldProjection := some nestedProjection }
    (fun _ given => by cases given) nestedProjection _ rfl ⟨rfl, by decide, by decide⟩

end Riegeli
