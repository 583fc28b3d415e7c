/-
Module: Riegeli.Proofs.FileRoundTrip
Purpose: A reader of a file hands over the records of its chunks, each once and
  in order; with simple chunks these are the records that were written.
Trusted boundary: the hash, the codecs and the sink
Main exports: HoldsRecords.reads, simple_decodes, simple_file_roundTrip
-/
import Riegeli.Proofs.SyncedFiles
import Riegeli.Proofs.SimpleRoundTrip

namespace Riegeli

open RecordReader

variable {ext : Externals} {projection : Option FieldProjection} {lenient : Bool}

/-! ## Reading the records of chunks -/

/-- The open decoder, if there is one, still holds these records. -/
def LeftIn : Option ActiveDecoder → List Bytes → Prop
  | none, records => records = []
  | some decoder, records => decoder.Yields records

/-- The open decoder and the chunks after it hold these records. -/
def Awaits (decoder : Option ActiveDecoder) (chunks : List HeldChunk)
    (records : List Bytes) : Prop :=
  ∃ own, LeftIn decoder own ∧ records = own ++ heldRecords chunks

/-- A chunk opens to a decoder of its records, or has none. -/
theorem Opens.openedAs {chunk : Chunk} {records : List Bytes}
    (opens : Opens ext projection chunk records) :
    ∃ decoder, Riegeli.openedAs ext projection chunk = .ok decoder ∧ LeftIn decoder records := by
  cases opens with
  | @simple decoder typed opened yields _ =>
      refine ⟨some decoder, ?_, yields⟩
      simp only [Riegeli.openedAs, typed, openAt, opened, Except.ok_bind]
  | @transposed decoder typed opened yields _ =>
      refine ⟨some decoder, ?_, yields⟩
      simp only [Riegeli.openedAs, typed, openAt, opened, Except.ok_bind]
  | @special chunkType typed notSimple notTransposed valid empty _ =>
      refine ⟨none, ?_, empty⟩
      have here := valid 0
      unfold Riegeli.openedAs
      rw [typed]
      cases chunkType with
      | simple => exact absurd rfl notSimple
      | transposed => exact absurd rfl notTransposed
      | fileSignature => simp only [openAt, here, Except.ok_bind]
      | fileMetadata => simp only [openAt, here, Except.ok_bind]
      | padding => simp only [openAt, here, Except.ok_bind]

theorem handOver_yields {decoder : ActiveDecoder} {record : Bytes} {records : List Bytes}
    (yields : decoder.Yields (record :: records)) :
    ∃ next, handOver (some decoder) = .ok (some (record, next)) ∧ next.Yields records := by
  obtain ⟨next, read, later⟩ := yields
  refine ⟨next, ?_, later⟩
  simp only [handOver, read]

theorem handOver_drained {decoder : Option ActiveDecoder} (drained : LeftIn decoder []) :
    handOver decoder = .ok none := by
  cases decoder with
  | none => rfl
  | some decoder =>
      have read : decoder.readRecord = .ok (none, decoder) := drained
      simp only [handOver, read]

/-- One read hands over the next of the records, or says that there is none.
The induction is on the chunks; the decoder of each comes to hold its records. -/
theorem readAlong_awaits (chunks : List HeldChunk) :
    ∀ {decoder : Option ActiveDecoder} {records : List Bytes},
      (∀ chunk ∈ chunks, Opens ext projection chunk.chunk chunk.records) →
      Awaits decoder chunks records →
      ∃ next left, readAlong ext projection lenient (chunks.map HeldChunk.chunk) decoder =
          (.ok records[0]?, next, left.map HeldChunk.chunk) ∧
        (∀ chunk ∈ left, chunk ∈ chunks) ∧ Awaits next left records.tail := by
  induction chunks with
  | nil =>
      intro decoder records _ awaits
      obtain ⟨own, holds, rfl⟩ := awaits
      cases own with
      | nil =>
          refine ⟨none, [], ?_, fun _ member => member, [], rfl, rfl⟩
          rw [List.map_nil, readAlong, handOver_drained holds]
          rfl
      | cons record own =>
          cases decoder with
          | none => cases holds
          | some decoder =>
              obtain ⟨next, handed, later⟩ := handOver_yields holds
              exact ⟨some next, [], readAlong_record _ handed, fun _ member => member, own, later,
                rfl⟩
  | cons first rest ih =>
      intro decoder records opens awaits
      obtain ⟨own, holds, rfl⟩ := awaits
      cases own with
      | nil =>
          obtain ⟨opened, ran, yields⟩ := (opens first (List.mem_cons_self ..)).openedAs
          have along : readAlong ext projection lenient ((first :: rest).map HeldChunk.chunk) decoder =
              readAlong ext projection lenient (rest.map HeldChunk.chunk) opened := by
            rw [List.map_cons, readAlong, handOver_drained holds]
            simp only [ran]
          obtain ⟨next, left, read, kept, later⟩ := @ih opened (first.records ++ heldRecords rest)
            (fun chunk member => opens chunk (List.mem_cons_of_mem _ member))
            ⟨first.records, yields, rfl⟩
          refine ⟨next, left, along.trans read, ?_, later⟩
          exact fun chunk member => List.mem_cons_of_mem _ (kept chunk member)
      | cons record own =>
          cases decoder with
          | none => cases holds
          | some decoder =>
              obtain ⟨next, handed, later⟩ := handOver_yields holds
              exact ⟨some next, first :: rest, readAlong_record _ handed, fun _ member => member,
                own, later, rfl⟩

theorem readsOf_succ (records : List Bytes) (count : Nat) :
    readsOf records (count + 1) = .ok records[0]? :: readsOf records.tail count := by
  unfold readsOf
  rw [List.range_succ_eq_map, List.map_cons, List.map_map]
  congr 1
  refine List.map_congr_left fun index _ => ?_
  simp [List.getElem?_tail]

/-- Any number of reads hand over the records. -/
theorem readsAlong_awaits (count : Nat) :
    ∀ {decoder : Option ActiveDecoder} {chunks : List HeldChunk} {records : List Bytes},
      (∀ chunk ∈ chunks, Opens ext projection chunk.chunk chunk.records) →
      Awaits decoder chunks records →
      readsAlong ext projection lenient count (chunks.map HeldChunk.chunk) decoder =
        readsOf records count := by
  induction count with
  | zero => exact fun _ _ => rfl
  | succ count ih =>
      intro decoder chunks records opens awaits
      obtain ⟨next, left, read, kept, later⟩ :=
        @readAlong_awaits ext projection lenient chunks decoder records opens awaits
      rw [readsAlong, read, readsOf_succ]
      exact congrArg _ (ih (fun chunk member => opens chunk (kept chunk member)) later)

/-- A reader opens the source, and any number of reads hand over these records,
each once and in order, and then nothing more. -/
def ReadsBack (ext : Externals) (options : ReaderOptions) (source : Bytes)
    (records : List Bytes) : Prop :=
  ∃ reader, RecordReader.new ext source options = .ok reader ∧
    ∀ count, observe ext (List.replicate count .readRecord) reader =
      (readsOf records count).map Seen.record

/-- A file reads back as the records of its chunks. -/
theorem HoldsRecords.reads {source : Bytes} {held : List HeldChunk} {options : ReaderOptions}
    (holds : HoldsRecords ext options.fieldProjection source held)
    (unwavering : Unwavering options.recovery) :
    ReadsBack ext options source (heldRecords held) := by
  obtain ⟨reader, opened, stands⟩ := holds.whole.new_stands options unwavering
  rw [← holds.source_eq] at opened
  have awaits : Awaits none held (heldRecords held) := ⟨[], rfl, rfl⟩
  refine ⟨reader, opened, fun count => ?_⟩
  rw [observe_along count stands, readsAlong_awaits count holds.opens awaits]

/-! ## Simple chunks -/

/-- The simple encoder keeps what it takes. -/
theorem filled_simple {compression : CompressionType} {opts : CompressOptions}
    {records : List Bytes} {encoder : ActiveEncoder}
    (filled : Filled (.simple (SimpleChunkEncoder.withOptions compression opts)) records encoder) :
    encoder = .simple { records := records, compression := compression, compressOpts := opts } := by
  have step : ∀ (records taken : List Bytes),
      records.foldlM (fun (encoder : ActiveEncoder) record => encoder.addRecord record)
          (.simple { records := taken, compression := compression, compressOpts := opts }) =
        (.ok (.simple
          { records := taken ++ records, compression := compression, compressOpts := opts }) :
            Rust ActiveEncoder) := by
    intro records
    induction records with
    | nil => intro taken; rw [List.append_nil]; rfl
    | cons record rest ih =>
        intro taken
        rw [List.foldlM_cons]
        have next := ih (taken ++ [record])
        rw [List.append_assoc, List.singleton_append] at next
        exact next
  unfold Filled at filled
  rw [SimpleChunkEncoder.withOptions, step records []] at filled
  exact (Except.ok.inj filled).symm

/-- The records of a chunk total no more than a word counts. -/
theorem DataChunkRule.total_le {options : WriterOptions} {pending records : List Bytes}
    {op : WriterOp} (rule : DataChunkRule (cappedChunkSize options) pending op records)
    (countable : Countable records) : (records.map List.length).sum ≤ u64Max := by
  rcases rule.sized with one | small
  · obtain ⟨record, rfl⟩ := List.length_eq_one_iff.mp one
    simpa using countable record (List.mem_singleton_self _)
  · have counted := sum_length_le records
    have capped : accountedSize records ≤ RecordWriter.maxNumRecords * 8 :=
      small.trans (Nat.min_le_right _ _)
    unfold RecordWriter.maxNumRecords u64Max at *
    omega

/-- The simple chunks of a writer decode. -/
theorem simple_decodes (lawful : ext.Lawful) {options : WriterOptions} {self : RecordWriter}
    (plain : self.transpose = false) (projection : Option FieldProjection) :
    DecodesChunks ext projection options self.freshEncoder := by
  intro op pending records chunk encodes rule fits
  obtain ⟨countable, encoder, filled, encoded⟩ := encodes
  unfold RecordWriter.freshEncoder at filled
  rw [if_neg (by simp [plain])] at filled
  rw [filled_simple filled] at encoded
  have few := rule.length_le
  refine SimpleChunkEncoder.encode_opens lawful encoded (by simp only; omega) ?_ fits projection
  rw [List.length_flatten]
  exact rule.total_le countable

theorem opened_transpose {options : WriterOptions} {self : RecordWriter}
    (opened : Opened ext options self) : self.transpose = options.transpose := by
  have moved := @writeMetadata_extends ext options
    (RecordWriter.initial (signedSink ext fun _ => none) options)
  rw [opened_eq opened] at moved
  have same := moved.steady.settings
  unfold RecordWriter.settings at same
  simp only [Prod.mk.injEq] at same
  exact same.2.2.2.1

/-- With simple chunks a file reads back, right after a flush or a close that
succeeded, as the records handed to the writer. -/
theorem simple_file_roundTrip (lawful : ext.Lawful) {options : WriterOptions}
    {self after : RecordWriter} (plain : options.transpose = false)
    (opened : Opened ext options self) {ops : List WriterOp} (words : HandsWords options ops)
    (returns : CallsReturn ext self ops) (synced : Synced ext self ops after)
    (within : after.filePos < u64Max) :
    ReadsBack ext ReaderOptions.new after.sink.bytes (writtenRecords ops) := by
  have decodes := @simple_decodes ext lawful options self ((opened_transpose opened).trans plain)
    ReaderOptions.new.fieldProjection
  obtain ⟨held, holds, same⟩ := synced_holds opened words returns synced within decodes
  rw [← same]
  exact holds.reads fun _ impossible => nomatch impossible

theorem simple_file_roundTrip_padded :
    ReadsBack storingExternals ReaderOptions.new
      (RecordWriter.flush storingExternals
        (runWriter storingExternals alignedOps alignedWriter)).2.sink.bytes
      [[1, 2, 3], [4], [5, 6], [7]] := by
  have all : ∀ result ∈ runResults storingExternals alignedOps alignedWriter, result = .ok () := by
    decide +kernel
  have flushed : (RecordWriter.flush storingExternals
      (runWriter storingExternals alignedOps alignedWriter)).1 = .ok () := by
    decide +kernel
  exact simple_file_roundTrip storingExternals_lawful rfl alignedWriter_opened
    ⟨(fun _ given => by cases given), alignedOps_small⟩ (fun result member => .inl ⟨(), all result member⟩) (.flushed (Prod.fst_eq_iff.mp flushed))
    (by decide +kernel)

end Riegeli
