/-
Module: Riegeli.Proofs.FilteredFiles
Purpose: A complete file goes through the field filter into a new file, which is
  read back as the filtered records.
Trusted boundary: the hash, the codecs and the sink
Main exports: ReadsBack.reads, Writes.run, CompleteFile.handsOver, filtered_file
-/
import Riegeli.Proofs.ProjectedFiles
import Riegeli.Proofs.ColumnExtraction

namespace Riegeli

open RecordReader

variable {ext : Externals} {numbers : List Nat}

/-! ## Reading -/

/-- One read more than there are records returns them all, and then nothing. -/
theorem readsOf_all (records : List Bytes) :
    readsOf records (records.length + 1) = (records.map some ++ [none]).map .ok := by
  induction records with
  | nil => rfl
  | cons record rest ih =>
      rw [List.length_cons, readsOf_succ, List.tail_cons, ih]
      rfl

theorem ReadsBack.reads {options : ReaderOptions} {source : Bytes} {records : List Bytes}
    (back : ReadsBack ext options source records) {reader : RecordReader}
    (isNew : RecordReader.new ext source options = .ok reader) :
    ∃ last, Reads ext reader records last ∧ (readRecord ext last).1 = .ok none := by
  obtain ⟨opened, same, shows⟩ := back
  obtain rfl := Except.ok.inj (same.symm.trans isNew)
  refine reads_of_seen records ?_
  rw [shows, readsOf_all, List.map_map]
  rfl

/-! ## The new file -/

/-- Nothing that is kept of a record is longer than the record. -/
theorem Filtered.length_le {record output : Bytes} (filtered : Filtered numbers record output) :
    output.length ≤ record.length := by
  rcases filtered with ⟨_, ⟨fields, splits⟩, keeps⟩ | ⟨_, rfl⟩
  · rw [keeps fields splits, ← splits.2]
    exact joined_filter_length _ fields
  · exact Nat.le_refl _

/-- The operations of a writer that takes these records. -/
def writesOf (records : List Bytes) : List WriterOp := records.map WriterOp.writeRecord

theorem writtenRecords_writesOf (records : List Bytes) : writtenRecords (writesOf records) = records := by
  induction records with
  | nil => rfl
  | cons record rest ih =>
      change record :: writtenRecords (writesOf rest) = _
      rw [ih]

theorem Writes.run {records : List Bytes} {writer after : RecordWriter}
    (writes : Writes ext writer records after) :
    runWriter ext (writesOf records) writer = after ∧ CallsReturn ext writer (writesOf records) := by
  induction writes with
  | stop writer => exact ⟨rfl, fun _ impossible => absurd impossible List.not_mem_nil⟩
  | @more writer next after record records wrote _ ih =>
      have taken : (WriterOp.writeRecord record).run ext writer = (.ok (), next) := wrote
      constructor
      · change runWriter ext (writesOf records) ((WriterOp.writeRecord record).run ext writer).2 = _
        rw [taken]
        exact ih.1
      · change ∀ result ∈ ((WriterOp.writeRecord record).run ext writer).1 ::
          runResults ext (writesOf records) ((WriterOp.writeRecord record).run ext writer).2,
            Rust.Safe result
        rw [taken]
        exact List.forall_mem_cons.mpr ⟨Rust.safe_ok _, ih.2⟩

theorem filtered_short {limit : Nat} {records outputs : List Bytes}
    (filtered : List.Forall₂ (Filtered numbers) records outputs)
    (short : ∀ record ∈ records, record.length ≤ limit) :
    ∀ output ∈ outputs, output.length ≤ limit := by
  induction filtered with
  | nil => exact fun _ impossible => absurd impossible List.not_mem_nil
  | cons here _ ih =>
      obtain ⟨first, rest⟩ := List.forall_mem_cons.mp short
      exact List.forall_mem_cons.mpr ⟨here.length_le.trans first, ih rest⟩

/-- What the target of a filter needs: options that are words, and a transposed
chunk's sizes within their integer types, whatever the records are filtered to. -/
structure FilterTarget (ext : Externals) (target : WriterOptions) (numbers : List Nat)
    (records : List Bytes) (fresh : RecordWriter) : Prop where
  opened : Opened ext target fresh
  metadata : ∀ metadata, target.metadata = some metadata → metadata.length ≤ u64Max
  fits : target.transpose = true → ∀ outputs, List.Forall₂ (Filtered numbers) records outputs →
    ∀ op pending part, DataChunkRule (cappedChunkSize target) pending op part →
      part <:+: outputs → TransposedFits ext fresh.freshEncoder part

/-- Reading a complete file hands over its records one by one. -/
theorem CompleteFile.handsOver (lawful : ext.Lawful) {options : WriterOptions} {ops : List WriterOp}
    {source : Bytes} {writer after : RecordWriter}
    (complete : CompleteFile ext options ops source writer after) {reading : ReaderOptions}
    (unwavering : Unwavering reading.recovery) (whole : reading.fieldProjection = none)
    {reader : RecordReader} (isNew : RecordReader.new ext source reading = .ok reader) :
    ∃ last, Reads ext reader (writtenRecords ops) last ∧ (readRecord ext last).1 = .ok none := by
  obtain ⟨held, holds, same⟩ := complete.holds lawful
  rw [← whole] at holds
  rw [← same]
  exact (holds.reads unwavering).reads isNew

/-- A complete file goes through the field filter into a new file.  Once that has
been flushed or closed, reading it returns each record of the first file with
exactly its wanted top-level fields, in order, and nothing more. -/
theorem filtered_file (lawful : ext.Lawful) {written target : WriterOptions} {ops : List WriterOp}
    {source : Bytes} {writer after fresh filled done : RecordWriter}
    (complete : CompleteFile ext written ops source writer after)
    {reading : ReaderOptions} (unwavering : Unwavering reading.recovery)
    (whole : reading.fieldProjection = none) {reader ended : RecordReader}
    (isNew : RecordReader.new ext source reading = .ok reader)
    (able : FilterTarget ext target numbers (writtenRecords ops) fresh) {fuel : Nat}
    (ran : RecordStream.filterFieldsToWriter ext fuel numbers (reader, fresh) =
      (.ok (), (ended, filled)))
    (stored : RecordWriter.flush ext filled = (.ok (), done) ∨
      RecordWriter.close ext filled = (.ok (), done))
    (within : done.filePos < u64Max) :
    ∃ outputs, List.Forall₂ (Filtered numbers) (writtenRecords ops) outputs ∧
      ∀ options : ReaderOptions, Unwavering options.recovery → options.fieldProjection = none →
        ReadsBack ext options done.sink.bytes outputs := by
  obtain ⟨last, reads, finished⟩ := complete.handsOver lawful unwavering whole isNew
  obtain ⟨outputs, filtered, writes⟩ := filterFieldsLoop_writes reads finished ran
  obtain ⟨taken, returns⟩ := writes.run
  have same := writtenRecords_writesOf outputs
  have short : ∀ record ∈ writtenRecords ops, record.length ≤ u64Max := by
    intro record member
    exact complete.words.records record (mem_writtenRecords.mp member)
  have copied : CompleteFile ext target (writesOf outputs) done.sink.bytes fresh done :=
    { opened := able.opened
      words :=
        ⟨able.metadata, fun record member => filtered_short filtered short record (by
          rw [← same]
          exact mem_writtenRecords.mpr member)⟩
      returns := returns
      synced := by
        rcases stored with flushed | closed
        · exact .flushed (by rw [taken]; exact flushed)
        · exact .closed (by rw [taken]; exact closed)
      within := within
      source_eq := rfl
      fits := fun transposed op pending part rule inside =>
        able.fits transposed outputs filtered op pending part rule (by rw [← same]; exact inside) }
  obtain ⟨held, holds, all⟩ := copied.holds lawful
  refine ⟨outputs, filtered, fun options steady plain => ?_⟩
  rw [← plain] at holds
  rw [← same, ← all]
  exact holds.reads steady

/-- A message and a record that is none. -/
def mixedOps : List WriterOp := [.writeRecord [8, 7, 16, 1], .writeRecord [15, 255, 0]]

/-- The writer after them, and after a flush. -/
def mixedFlushed : RecordWriter :=
  (RecordWriter.flush storingExternals (runWriter storingExternals mixedOps plainWriter)).2

theorem mixedFile_complete :
    CompleteFile storingExternals plainOptions mixedOps mixedFlushed.sink.bytes plainWriter
      mixedFlushed where
  opened := plainWriter_opened
  words := by
    refine ⟨(fun _ given => by cases given), fun record member => ?_⟩
    simp only [mixedOps, List.mem_cons, WriterOp.writeRecord.injEq, List.not_mem_nil, or_false]
      at member
    rcases member with rfl | rfl <;> decide
  returns := by
    intro result member
    have all : ∀ result ∈ runResults storingExternals mixedOps plainWriter, result = .ok () := by
      decide
    exact .inl ⟨(), all result member⟩
  synced := .flushed (Prod.ext (by decide) rfl)
  within := by decide
  source_eq := rfl
  fits := fun transposed => by cases transposed

/-- The writer of the new file, with field 1 kept. -/
def mixedFiltered : RecordStream.Streams :=
  (RecordStream.filterFieldsToWriter storingExternals 3 [1]
    (initial mixedFlushed.sink.bytes ReaderOptions.new, plainWriter)).2

theorem filtered_file_mixed :
    ∃ outputs, List.Forall₂ (Filtered [1]) [[8, 7, 16, 1], [15, 255, 0]] outputs ∧
      ∀ options : ReaderOptions, Unwavering options.recovery → options.fieldProjection = none →
        ReadsBack storingExternals options
          (RecordWriter.close storingExternals mixedFiltered.2).2.sink.bytes outputs :=
  @filtered_file storingExternals _ storingExternals_lawful _ _ _ _ _ _ plainWriter
    mixedFiltered.2 _ mixedFile_complete ReaderOptions.new
    (fun _ impossible => by cases impossible) rfl _ mixedFiltered.1
    (mixedFile_complete.opens storingExternals_lawful _)
    ⟨plainWriter_opened, (fun _ given => by cases given), fun transposed => by cases transposed⟩
    3 (Prod.ext (by decide) rfl) (.inr (Prod.ext (by decide) rfl)) (by decide)

end Riegeli
