/-
Module: Riegeli.Spec.WriterLedger
Purpose: The ledger of a writer: which chunk of the file holds which records,
  what ended each of them, and which records are still pending.
Trusted boundary: the hash, the codecs and the sink
Main exports: accountedSize, Filled, EncodesRecords, LedgerEntry, EndedBy,
  DataChunkRule, HoldsFile, LedgerRow, LedgerRun
-/
import Riegeli.Proofs.WriterLayout

namespace Riegeli

variable (ext : Externals)

/-- What the writer accounts for the records of a chunk: 8 bytes for each in
addition to its own. -/
def accountedSize (records : List Bytes) : Nat :=
  (records.map fun record => record.length + 8).sum

/-- The encoder has taken these records since it was fresh. -/
def Filled (fresh : ActiveEncoder) (records : List Bytes) (encoder : ActiveEncoder) : Prop :=
  records.foldlM (fun encoder record => encoder.addRecord record) fresh = .ok encoder

/-- A slice is no longer than a word counts. -/
def Countable (records : List Bytes) : Prop := ∀ record ∈ records, record.length ≤ u64Max

/-- The chunk is what the encoder makes of the records. -/
def EncodesRecords (fresh : ActiveEncoder) (records : List Bytes) (chunk : Chunk) : Prop :=
  Countable records ∧ ∃ encoder, Filled fresh records encoder ∧ encoder.encode ext = .ok chunk

/-- A chunk that the operations on an open writer have written. -/
inductive LedgerEntry where
  | data (records : List Bytes) (chunk : Chunk)
  | padding (chunk : Chunk)
deriving Repr, DecidableEq

/-- The chunk of an entry. -/
def LedgerEntry.chunk : LedgerEntry → Chunk
  | .data _ chunk => chunk
  | .padding chunk => chunk

/-- The records of an entry. -/
def LedgerEntry.records : LedgerEntry → List Bytes
  | .data records _ => records
  | .padding _ => []

/-- The records of a ledger, in the order of the file. -/
def ledgerRecords (entries : List LedgerEntry) : List Bytes :=
  (entries.map LedgerEntry.records).flatten

/-- The operation ended a chunk with these records: a flush of what was
pending; a record that no longer fits; or the last of the records itself, after
which not even an empty one fits. -/
inductive EndedBy (chunkSize : Nat) (pending : List Bytes) : WriterOp → List Bytes → Prop where
  | flushed : EndedBy chunkSize pending .flush pending
  | overfull {next : Bytes} (exceeds : chunkSize < accountedSize pending + (next.length + 8)) :
      EndedBy chunkSize pending (.writeRecord next) pending
  | full {earlier : List Bytes} {last : Bytes} (start : earlier = pending ∨ earlier = [])
      (exceeds : chunkSize < accountedSize (earlier ++ [last]) + 8) :
      EndedBy chunkSize pending (.writeRecord last) (earlier ++ [last])

/-- The policy for one data chunk: no larger than the chunk size unless it is
one record, and ended for a reason. -/
structure DataChunkRule (chunkSize : Nat) (pending : List Bytes) (op : WriterOp)
    (records : List Bytes) : Prop where
  present : records ≠ []
  sized : records.length = 1 ∨ accountedSize records ≤ chunkSize
  ended : EndedBy chunkSize pending op records

/-- A chunk that opens the file: the signature, or the metadata when there is
some.  It holds no records. -/
inductive IsHead (options : WriterOptions) : Chunk → Prop where
  | signature : IsHead options (signatureChunk ext)
  | metadata {metadata data : Bytes} (given : options.metadata = some metadata) :
      IsHead options
        { header := ChunkHeader.fromParts ext data .fileMetadata 0 metadata.length, data := data }

/-- A chunk of padding: zeros under a header without records. -/
def IsPadding (chunk : Chunk) : Prop :=
  ∃ size, chunk.data = List.replicate size 0 ∧
    chunk.header = ChunkHeader.fromParts ext (List.replicate size 0) .padding 0 0

/-- The file of a writer on a reliable sink, and the records still pending. -/
structure HoldsFile (fresh : ActiveEncoder) (chunkSize : Nat) (chunks : List Chunk)
    (pending : List Bytes) (writer : RecordWriter) : Prop where
  reliable : writer.sink.Reliable
  laid : LaidOut ext writer chunks
  chunkSize_eq : writer.chunkSize = chunkSize
  fresh_eq : writer.freshEncoder = fresh
  countable : Countable pending
  filled : Filled fresh pending writer.encoder
  accumulated : writer.accumulatedBytes = accountedSize pending
  counted : writer.pendingRecordCount = pending.length

/-- What one operation adds to the ledger, from what was pending before it to
what is left. -/
structure LedgerRow (fresh : ActiveEncoder) (chunkSize : Nat) (op : WriterOp)
    (pending : List Bytes) (added : List LedgerEntry) (left : List Bytes) (result : Rust Unit) :
    Prop where
  data : ∀ records chunk, .data records chunk ∈ added →
    EncodesRecords ext fresh records chunk ∧ DataChunkRule chunkSize pending op records
  padding : ∀ chunk, .padding chunk ∈ added → IsPadding ext chunk
  bounded : left = [] ∨ accountedSize left + 8 ≤ chunkSize
  whole : result = .ok () → ledgerRecords added ++ left = pending ++ writtenRecords [op]

/-- Closing the writer flushes what is pending. -/
def ClosesLedger (fresh : ActiveEncoder) (chunkSize : Nat) (chunks : List Chunk)
    (pending : List Bytes) (writer : RecordWriter) : Prop :=
  (RecordWriter.close ext writer).2.filePos ≤ u64Max →
    ∃ added, LedgerRow ext fresh chunkSize .flush pending added []
        (RecordWriter.close ext writer).1 ∧
      LaidOut ext (RecordWriter.close ext writer).2 (chunks ++ added.map LedgerEntry.chunk)

/-- The ledger of a run: a row for every operation, and the file that they
make.  Where the run stops, the writer may be closed. -/
inductive LedgerRun (fresh : ActiveEncoder) (chunkSize : Nat) :
    List Chunk → List Bytes → RecordWriter → List WriterOp → List (List LedgerEntry) → Prop where
  | stop {chunks : List Chunk} {pending : List Bytes} {writer : RecordWriter}
      (file : HoldsFile ext fresh chunkSize chunks pending writer)
      (closing : ClosesLedger ext fresh chunkSize chunks pending writer) :
      LedgerRun fresh chunkSize chunks pending writer [] []
  | step {chunks : List Chunk} {pending left : List Bytes} {writer : RecordWriter}
      {op : WriterOp} {ops : List WriterOp} {added : List LedgerEntry}
      {rows : List (List LedgerEntry)}
      (file : HoldsFile ext fresh chunkSize chunks pending writer)
      (row : LedgerRow ext fresh chunkSize op pending added left (op.run ext writer).1)
      (rest : LedgerRun fresh chunkSize (chunks ++ added.map LedgerEntry.chunk) left
        (op.run ext writer).2 ops rows) :
      LedgerRun fresh chunkSize chunks pending writer (op :: ops) (added :: rows)

end Riegeli
