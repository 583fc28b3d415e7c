/-
Module: Riegeli.Spec.HeldRecords
Purpose: What a chunk holds for a reader: the records its decoder hands over,
  and what of the chunk a source must show before it is handed over.
Trusted boundary: the hash and the codecs
Main exports: ActiveDecoder.Yields, Opens, HeldChunk, HeldChunk.Readable,
  Visible, heldRecords
-/
import Riegeli.Core.RecordReader
import Riegeli.Proofs.ChunkScan

namespace Riegeli

variable (ext : Externals)

/-- The decoder hands over these records and then nothing. -/
def ActiveDecoder.Yields : ActiveDecoder → List Bytes → Prop
  | decoder, [] => decoder.readRecord = .ok (none, decoder)
  | decoder, record :: rest =>
      ∃ next : ActiveDecoder, decoder.readRecord = .ok (some record, next) ∧ next.Yields rest

/-- A reader under this projection gets these records from the chunk. -/
inductive Opens (projection : Option FieldProjection) (chunk : Chunk) : List Bytes → Prop where
  | simple {records : List Bytes} {decoder : ActiveDecoder} :
      chunk.header.chunkType = .ok .simple →
      RecordReader.simpleDecoder ext chunk = .ok decoder → decoder.Yields records →
      chunk.header.numRecords = records.length → Opens projection chunk records
  | transposed {records : List Bytes} {decoder : ActiveDecoder} :
      chunk.header.chunkType = .ok .transposed →
      RecordReader.transposedDecoder ext chunk projection = .ok decoder →
      decoder.Yields records → chunk.header.numRecords = records.length →
      Opens projection chunk records
  | special {records : List Bytes} {chunkType : ChunkType} :
      chunk.header.chunkType = .ok chunkType → chunkType ≠ .simple → chunkType ≠ .transposed →
      (∀ chunkBegin, validateSpecialChunk chunk.header chunkBegin chunkType = .ok ()) →
      records = [] → chunk.header.numRecords = records.length → Opens projection chunk records

/-- A chunk with the records it holds. -/
structure HeldChunk where
  chunk : Chunk
  records : List Bytes
deriving Repr, DecidableEq

/-- The chunk is what a writer stores for its records. -/
structure HeldChunk.Readable (projection : Option FieldProjection) (held : HeldChunk) : Prop where
  fits : held.chunk.header.Fits
  headerValid : held.chunk.header.isHeaderValid ext = true
  dataValid : held.chunk.header.isDataValid ext held.chunk.data = true
  opens : Opens ext projection held.chunk held.records

/-- The records of a file. -/
def heldRecords (chunks : List HeldChunk) : List Bytes := chunks.flatMap HeldChunk.records

/-- The bytes before `seen` hold the chunk's header and data, and one byte a
record. -/
def Visible (seen chunkBegin : Nat) (header : ChunkHeader) : Prop :=
  dataStop chunkBegin header.dataSize ≤ seen ∧ chunkBegin + header.numRecords ≤ seen

instance (seen chunkBegin : Nat) (header : ChunkHeader) :
    Decidable (Visible seen chunkBegin header) :=
  inferInstanceAs (Decidable (_ ∧ _))

variable {ext} {projection : Option FieldProjection} {chunk : Chunk} {records : List Bytes}

/-- A chunk's header counts the records it holds. -/
theorem Opens.numRecords (opens : Opens ext projection chunk records) :
    chunk.header.numRecords = records.length := by
  cases opens with
  | simple _ _ _ counted => exact counted
  | transposed _ _ _ counted => exact counted
  | special _ _ _ _ _ counted => exact counted

end Riegeli
