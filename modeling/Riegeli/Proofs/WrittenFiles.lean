/-
Module: Riegeli.Proofs.WrittenFiles
Purpose: What a writer on a sink that never fails leaves behind is a whole
  file: its chunks, after the signature, are as a reader wants them.
Trusted boundary: the hash, the codecs and the sink
Main exports: WriterEnds, writerEnds_wholeFile
-/
import Riegeli.Proofs.ChunkingPolicy
import Riegeli.Proofs.WholeFiles

namespace Riegeli

variable (ext : Externals)

/-- A run of operations, closed or not, ends with this writer. -/
inductive WriterEnds (self : RecordWriter) (ops : List WriterOp) : RecordWriter → Prop where
  | run : WriterEnds self ops (runWriter ext ops self)
  | closed : WriterEnds self ops (RecordWriter.close ext (runWriter ext ops self)).2

/-- What a caller hands over is no longer than a word counts. -/
structure HandsWords (options : WriterOptions) (ops : List WriterOp) : Prop where
  metadata : ∀ metadata, options.metadata = some metadata → metadata.length ≤ u64Max
  records : ∀ record, .writeRecord record ∈ ops → record.length ≤ u64Max

variable {ext} {options : WriterOptions} {self : RecordWriter}

/-! ## Chunks of the ledger -/

theorem sum_length_le (records : List Bytes) :
    (records.map List.length).sum ≤ accountedSize records := by
  induction records with
  | nil => exact Nat.zero_le _
  | cons record rest ih =>
      have step : accountedSize (record :: rest) = record.length + 8 + accountedSize rest := rfl
      rw [List.map_cons, List.sum_cons, step]
      omega

/-- A chunk that opens the file is as a writer makes it. -/
theorem IsHead.made {chunk : Chunk} (opens : IsHead ext options chunk)
    (small : ∀ metadata, options.metadata = some metadata → metadata.length ≤ u64Max)
    (dataFits : chunk.data.length ≤ u64Max) : MadeChunk ext chunk := by
  cases opens with
  | signature =>
      refine MadeChunk.ofParts rfl dataFits (by decide) fun chunkBegin => ?_
      have none : (signatureChunk ext).header.numRecords = 0 :=
        ChunkHeader.numRecords_fromParts _ _ _ (by decide)
      have empty : (signatureChunk ext).header.dataSize = 0 := rfl
      have nothing : (signatureChunk ext).header.decodedDataSize = 0 := rfl
      simp [validateSpecialChunk, none, empty, nothing]
  | metadata given =>
      refine MadeChunk.ofParts rfl dataFits (small _ given) fun chunkBegin => ?_
      simp [validateSpecialChunk, ChunkHeader.numRecords_fromParts]

/-- So is every chunk that an operation writes. -/
theorem LedgerRow.made {op : WriterOp} {pending left : List Bytes} {added : List LedgerEntry}
    {result : Rust Unit}
    (row : LedgerRow ext self.freshEncoder (cappedChunkSize options) op pending added left result) :
    ∀ entry ∈ added, entry.chunk.data.length ≤ u64Max → MadeChunk ext entry.chunk := by
  intro entry member dataFits
  cases entry with
  | padding chunk =>
      obtain ⟨size, data, header⟩ := row.padding chunk member
      have none : chunk.header.numRecords = 0 := by
        rw [header]
        exact ChunkHeader.numRecords_fromParts _ _ _ (by decide)
      have nothing : chunk.header.decodedDataSize = 0 := by rw [header]; rfl
      rw [← data] at header
      refine MadeChunk.ofParts header dataFits (by decide) fun chunkBegin => ?_
      simp [validateSpecialChunk, LedgerEntry.chunk, none, nothing]
  | data records chunk =>
      obtain ⟨encodes, rule⟩ := row.data records chunk member
      obtain ⟨chunkType, kind, header⟩ := encodes.header
      have sizes : (records.map List.length).sum ≤ u64Max := by
        rcases rule.sized with one | small
        · obtain ⟨record, rfl⟩ := List.length_eq_one_iff.mp one
          simpa using encodes.1 record (List.mem_singleton_self _)
        · have counted := sum_length_le records
          have capped : accountedSize records ≤ RecordWriter.maxNumRecords * 8 :=
            small.trans (Nat.min_le_right _ _)
          unfold RecordWriter.maxNumRecords u64Max at *
          omega
      refine MadeChunk.ofParts header dataFits sizes fun chunkBegin => ?_
      rcases kind with rfl | rfl <;> rfl

/-- Every run ends with a balanced ledger, of rows for its operations; the
records handed over are in it when every operation succeeded. -/
theorem LedgerBalanced.reaches {fresh : ActiveEncoder} {chunkSize : Nat} {chunks : List Chunk}
    {pending : List Bytes} {writer : RecordWriter} (ops : List WriterOp)
    (balanced : LedgerBalanced ext fresh chunkSize chunks pending writer)
    (small : ∀ record, .writeRecord record ∈ ops → record.length ≤ u64Max)
    (within : (runWriter ext ops writer).filePos ≤ u64Max) :
    ∃ entries left,
      LedgerBalanced ext fresh chunkSize (chunks ++ entries.map LedgerEntry.chunk) left
        (runWriter ext ops writer) ∧
      (∀ entry ∈ entries, ∃ op pending added left result,
        LedgerRow ext fresh chunkSize op pending added left result ∧ entry ∈ added) ∧
      ((∀ result ∈ runResults ext ops writer, result = .ok ()) →
        ledgerRecords entries ++ left = pending ++ writtenRecords ops) := by
  induction ops generalizing chunks pending writer with
  | nil =>
      refine ⟨[], pending, by simpa [runWriter] using balanced, (fun _ member => (nomatch member)), fun _ => ?_⟩
      rw [ledgerRecords, List.map_nil, List.flatten_nil, List.nil_append, writtenRecords,
        List.append_nil]
  | cons op rest ih =>
      obtain ⟨_, ahead, _⟩ := @runWriter_extends ext rest (op.run ext writer).2
      obtain ⟨added, between, next, row⟩ := op.run_balanced balanced
        (fun record same => small record (by rw [same]; exact List.mem_cons_self ..))
        (ahead.trans within)
      obtain ⟨entries, left, final, rows, whole⟩ := ih next
        (fun record member => small record (List.mem_cons_of_mem _ member)) within
      refine ⟨added ++ entries, left, ?_, ?_, fun succeeded => ?_⟩
      · rw [List.map_append, ← List.append_assoc]
        exact final
      · intro entry member
        rcases List.mem_append.mp member with here | later
        · exact ⟨_, _, _, _, _, row, here⟩
        · exact rows entry later
      · have here := row.whole (succeeded _ (List.mem_cons_self ..))
        have later := whole fun result member => succeeded result (List.mem_cons_of_mem _ member)
        have split : writtenRecords (op :: rest) = writtenRecords [op] ++ writtenRecords rest :=
          writtenRecords_append [op] rest
        rw [ledgerRecords_append, List.append_assoc, later, ← List.append_assoc, here, split,
          List.append_assoc]

/-- A chunk in a file is no longer than the file. -/
theorem WellPlaced.data_le {chunks : List Chunk} {chunkBegin : Nat}
    (placed : WellPlaced chunkBegin chunks) {chunk : Chunk} (member : chunk ∈ chunks) :
    chunk.data.length ≤ fileStop chunkBegin chunks := by
  induction chunks generalizing chunkBegin with
  | nil => cases member
  | cons first rest ih =>
      obtain ⟨sized, spec, restPlaced⟩ := placed
      rcases List.mem_cons.mp member with rfl | later
      · have counted := spec.usable_le
        have reached := le_fileStop rest (chunk.stop chunkBegin)
        rw [← sized, fileStop]
        unfold usable at counted
        omega
      · exact ih restPlaced later

/-! ## Whole files -/

/-- Closing never moves the position back. -/
theorem close_ahead (writer : RecordWriter) :
    writer.filePos ≤ (RecordWriter.close ext writer).2.filePos := by
  rw [RecordWriter.close]
  cases closed : writer.closed with
  | true =>
      rw [flushInternal_closed closed]
  | false =>
      have moves : Act.Moves (Extends ext) (guarded (RecordWriter.flushImpl ext)) :=
        Act.Moves.bind Extends.trans checkNotFailed_extends fun _ =>
          latchFailure_extends flushImpl_extends
      rw [flushInternal_open closed]
      exact (moves { writer with closed := true }).steady.filePos

/-- An entry that some operation of the writer made. -/
def Entered (ext : Externals) (self : RecordWriter) (options : WriterOptions)
    (entry : LedgerEntry) : Prop :=
  ∃ op pending added left result,
    LedgerRow ext self.freshEncoder (cappedChunkSize options) op pending added left result ∧
      entry ∈ added

/-- A file of chunks that open it and of entries is a whole file. -/
theorem LaidOut.wholeFile {ops : List WriterOp} (words : HandsWords options ops)
    {writer : RecordWriter} {head : List Chunk} {entries : List LedgerEntry}
    (laid : LaidOut ext writer (signatureChunk ext :: (head ++ entries.map LedgerEntry.chunk)))
    (opens : ∀ chunk ∈ head, IsHead ext options chunk)
    (entered : ∀ entry ∈ entries, Entered ext self options entry)
    (within : writer.filePos < u64Max) :
    WholeFile ext (head ++ entries.map LedgerEntry.chunk) := by
  refine ⟨?_, laid.wellPlaced, lt_of_eq_of_lt laid.filePos.symm within⟩
  intro chunk member
  have small := laid.wellPlaced.data_le (List.mem_cons_of_mem _ member)
  rw [← laid.filePos] at small
  rcases List.mem_append.mp member with early | late
  · exact (opens chunk early).made words.metadata (by omega)
  · obtain ⟨entry, listed, rfl⟩ := List.mem_map.mp late
    obtain ⟨_, _, _, _, _, row, added⟩ := entered entry listed
    exact row.made entry added (by omega)

/-- What a run leaves: chunks that open the file, entries of the operations,
and a balanced ledger of both. -/
theorem opened_reaches (opened : Opened ext options self) {ops : List WriterOp}
    (words : HandsWords options ops) (within : (runWriter ext ops self).filePos ≤ u64Max) :
    ∃ head entries left, (∀ chunk ∈ head, IsHead ext options chunk) ∧
      (∀ entry ∈ entries, Entered ext self options entry) ∧
      LedgerBalanced ext self.freshEncoder (cappedChunkSize options)
        (signatureChunk ext :: (head ++ entries.map LedgerEntry.chunk)) left
        (runWriter ext ops self) ∧
      ((∀ result ∈ runResults ext ops self, result = .ok ()) →
        ledgerRecords entries ++ left = writtenRecords ops) := by
  obtain ⟨_, ahead, _⟩ := @runWriter_extends ext ops self
  obtain ⟨head, opens, balanced⟩ := opened_balanced opened (ahead.trans within)
  obtain ⟨entries, left, final, entered, whole⟩ := balanced.reaches ops words.records within
  exact ⟨head, entries, left, opens, entered, final, whole⟩

/-- Wherever a writer on a reliable sink ends, its bytes are those of a whole
file. -/
theorem writerEnds_wholeFile (opened : Opened ext options self) {ops : List WriterOp}
    (words : HandsWords options ops) {writer : RecordWriter} (ends : WriterEnds ext self ops writer)
    (within : writer.filePos < u64Max) :
    ∃ rest, LaidOut ext writer (signatureChunk ext :: rest) ∧ WholeFile ext rest := by
  have ran : (runWriter ext ops self).filePos ≤ writer.filePos := by
    cases ends with
    | run => exact Nat.le_refl _
    | closed => exact close_ahead _
  obtain ⟨head, entries, left, opens, entered, final, _⟩ :=
    opened_reaches opened words (ran.trans (Nat.le_of_lt within))
  cases ends with
  | run => exact ⟨_, final.file.laid, final.file.laid.wholeFile words opens entered within⟩
  | closed =>
      obtain ⟨added, row, laid⟩ := final.closes (Nat.le_of_lt within)
      rw [List.cons_append, List.append_assoc, ← List.map_append] at laid
      have all : ∀ entry ∈ entries ++ added, Entered ext self options entry := by
        intro entry member
        rcases List.mem_append.mp member with before | after
        · exact entered entry before
        · exact ⟨_, _, _, _, _, row, after⟩
      exact ⟨_, laid, laid.wholeFile words opens all within⟩

end Riegeli
