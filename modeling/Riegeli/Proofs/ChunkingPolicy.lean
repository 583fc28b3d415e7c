/-
Module: Riegeli.Proofs.ChunkingPolicy
Purpose: The chunking policy of the writer: how many records a chunk takes,
  when it ends, what stays pending, and why record counts pack into headers.
Trusted boundary: the hash, the codecs and the sink
Main exports: PacksCount, ChunkingPolicy, chunking_policy
-/
import Riegeli.Proofs.WriterLedger

namespace Riegeli

variable (ext : Externals)

/-- The count of an entry's records fits beside the chunk type: the header gives
both back. -/
structure PacksCount (entry : LedgerEntry) : Prop where
  fits : entry.records.length ≤ 2 ^ 56 - 1
  packed : ∃ data chunkType size,
    entry.chunk.header =
        ChunkHeader.fromParts ext data chunkType entry.records.length size ∧
      entry.chunk.header.chunkType = .ok chunkType ∧
      entry.chunk.header.numRecords = entry.records.length

/-- The policy over a whole run: the chunks that open the file hold no records,
every operation writes a row of the ledger by the rules, and the counts of every
row pack. -/
structure ChunkingPolicy (options : WriterOptions) (self : RecordWriter) (ops : List WriterOp)
    (head : List Chunk) (rows : List (List LedgerEntry)) : Prop where
  opening : ∀ chunk ∈ head, IsHead ext options chunk ∧ chunk.header.numRecords = 0
  run : LedgerRun ext self.freshEncoder (cappedChunkSize options) head [] self ops rows
  packed : ∀ op pending added left result,
    LedgerRow ext self.freshEncoder (cappedChunkSize options) op pending added left result →
    ∀ entry ∈ added, PacksCount ext entry

/-- The records an encoder has taken, and the size of all of them. -/
def ActiveEncoder.counts : ActiveEncoder → Nat × Nat
  | .simple encoder => (encoder.records.length, (encoder.records.map List.length).sum)
  | .transpose encoder => (encoder.numRecords, encoder.decodedDataSize)

variable {ext}

/-! ## Counts -/

theorem freshEncoder_counts (self : RecordWriter) : self.freshEncoder.counts = (0, 0) := by
  unfold RecordWriter.freshEncoder
  split <;> rfl

/-- A record counts once, with its size. -/
theorem ActiveEncoder.addRecord_counts {encoder next : ActiveEncoder} {record : Bytes}
    (fits : record.length ≤ u64Max) (added : encoder.addRecord record = .ok next) :
    next.counts = (encoder.counts.1 + 1, encoder.counts.2 + record.length) := by
  cases encoder with
  | simple encoder =>
      cases added
      simp [ActiveEncoder.counts, SimpleChunkEncoder.addRecord]
  | transpose encoder =>
      obtain ⟨after, ran, counts, _⟩ := TransposeChunkEncoder.addRecord_collected encoder fits
      rw [ActiveEncoder.addRecord, ran, Except.ok_bind] at added
      cases added
      exact Prod.ext counts.numRecords counts.decodedDataSize

theorem Filled.counts {fresh encoder : ActiveEncoder} {records : List Bytes}
    (countable : Countable records) (filled : Filled fresh records encoder) :
    encoder.counts =
      (fresh.counts.1 + records.length, fresh.counts.2 + (records.map List.length).sum) := by
  induction records generalizing fresh with
  | nil =>
      cases filled
      rfl
  | cons record rest ih =>
      unfold Filled at filled
      rw [List.foldlM_cons] at filled
      obtain ⟨next, added, filled⟩ := Except.bind_eq_ok.mp filled
      have one := ActiveEncoder.addRecord_counts (countable record (List.mem_cons_self ..)) added
      have more := ih (fun other member => countable other (List.mem_cons_of_mem _ member)) filled
      rw [more, one, List.length_cons, List.map_cons, List.sum_cons]
      refine Prod.ext ?_ ?_
      · simp only
        omega
      · simp only
        omega

/-- The header of an encoded chunk gives the counts of its encoder. -/
theorem ActiveEncoder.encode_header {encoder : ActiveEncoder} {chunk : Chunk}
    (encoded : encoder.encode ext = .ok chunk) :
    ∃ chunkType, (chunkType = .simple ∨ chunkType = .transposed) ∧
      chunk.header = ChunkHeader.fromParts ext chunk.data chunkType encoder.counts.1
        encoder.counts.2 := by
  cases encoder with
  | simple encoder => exact ⟨_, .inl rfl, SimpleChunkEncoder.encode_header encoded⟩
  | transpose encoder => exact ⟨_, .inr rfl, TransposeChunkEncoder.encode_header encoded⟩

/-- The header of a chunk in the file gives the counts of its records. -/
theorem EncodesRecords.header {self : RecordWriter} {records : List Bytes} {chunk : Chunk}
    (encodes : EncodesRecords ext self.freshEncoder records chunk) :
    ∃ chunkType, (chunkType = .simple ∨ chunkType = .transposed) ∧
      chunk.header = ChunkHeader.fromParts ext chunk.data chunkType records.length
        (records.map List.length).sum := by
  obtain ⟨countable, encoder, filled, encoded⟩ := encodes
  obtain ⟨chunkType, kind, header⟩ := ActiveEncoder.encode_header encoded
  rw [filled.counts countable, freshEncoder_counts, Nat.zero_add, Nat.zero_add] at header
  exact ⟨chunkType, kind, header⟩

/-- Eight bytes for each record keep the count of a chunk within its field. -/
theorem DataChunkRule.length_le {options : WriterOptions} {pending records : List Bytes}
    {op : WriterOp} (rule : DataChunkRule (cappedChunkSize options) pending op records) :
    records.length ≤ 2 ^ 56 - 1 := by
  rcases rule.sized with one | small
  · rw [one]
    decide
  · have counted := Nat.le_trans (le_accountedSize records) small
    have capped : records.length * 8 ≤ RecordWriter.maxNumRecords * 8 :=
      Nat.le_trans counted (Nat.min_le_right _ _)
    unfold RecordWriter.maxNumRecords u64Max at capped
    omega

theorem IsHead.numRecords {options : WriterOptions} {chunk : Chunk}
    (opens : IsHead ext options chunk) : chunk.header.numRecords = 0 := by
  cases opens with
  | signature => exact ChunkHeader.numRecords_fromParts _ _ _ (by decide)
  | metadata given => exact ChunkHeader.numRecords_fromParts _ _ _ (by decide)

/-- The counts of a row pack. -/
theorem LedgerRow.packsCount {options : WriterOptions} {self : RecordWriter} {op : WriterOp}
    {pending left : List Bytes} {added : List LedgerEntry} {result : Rust Unit}
    (row : LedgerRow ext self.freshEncoder (cappedChunkSize options) op pending added left result) :
    ∀ entry ∈ added, PacksCount ext entry := by
  intro entry member
  cases entry with
  | data records chunk =>
      obtain ⟨encodes, rule⟩ := row.data records chunk member
      obtain ⟨chunkType, _, header⟩ := encodes.header
      have fits := rule.length_le
      refine ⟨fits, chunk.data, chunkType, _, header, ?_, ?_⟩
      · exact (congrArg ChunkHeader.chunkType header).trans
          (ChunkHeader.chunkType_fromParts _ _ _ _)
      · exact (congrArg ChunkHeader.numRecords header).trans
          (ChunkHeader.numRecords_fromParts _ _ _ (by omega))
  | padding chunk =>
      obtain ⟨size, _, header⟩ := row.padding chunk member
      refine ⟨by exact Nat.zero_le _, _, .padding, 0, header, ?_, ?_⟩
      · exact (congrArg ChunkHeader.chunkType header).trans
          (ChunkHeader.chunkType_fromParts _ _ _ _)
      · exact (congrArg ChunkHeader.numRecords header).trans
          (ChunkHeader.numRecords_fromParts _ _ _ (by decide))

/-! ## The policy -/

/-- Every run of a writer on a sink that never fails follows the policy. -/
theorem chunking_policy {options : WriterOptions} {self : RecordWriter}
    (opened : Opened ext options self) (ops : List WriterOp)
    (small : ∀ record, .writeRecord record ∈ ops → record.length ≤ u64Max)
    (within : (runWriter ext ops self).filePos ≤ u64Max) :
    ∃ head rows, ChunkingPolicy ext options self ops head rows := by
  obtain ⟨_, ahead, _⟩ := @runWriter_extends ext ops self
  obtain ⟨rest, opens, balanced⟩ := opened_balanced opened (ahead.trans within)
  obtain ⟨rows, run⟩ := balanced.runs ops small within
  refine ⟨_, rows, ?_, run, fun op pending added left result row => row.packsCount⟩
  intro chunk member
  have heads : IsHead ext options chunk := by
    rcases List.mem_cons.mp member with rfl | later
    · exact .signature
    · exact opens chunk later
  exact ⟨heads, heads.numRecords⟩

theorem alignedOps_small (record : Bytes) (member : .writeRecord record ∈ alignedOps) :
    record.length ≤ u64Max := by
  have small : ∀ record ∈ writtenRecords alignedOps, record.length ≤ u64Max := by
    decide +kernel
  exact small record (mem_writtenRecords.mpr member)

theorem chunking_policy_padded :
    ∃ head rows, ChunkingPolicy storingExternals alignedOptions alignedWriter alignedOps head
      rows :=
  chunking_policy alignedWriter_opened alignedOps alignedOps_small (by decide +kernel)

end Riegeli
