/-
Module: Riegeli.Spec.FilePositions
Purpose: The places of a complete file, counted in records: what a position
  names, and where between the records a reader of the file is.
Trusted boundary: the hash and the codecs
Main exports: FileChunks, Points, StepsTo, NamesRecord, ReaderAt
-/
import Riegeli.Proofs.FileRoundTrip

namespace Riegeli

variable (ext : Externals)

/-- Where the chunk behind these begins. -/
def chunkPlace (earlier : List HeldChunk) : Nat := fileStop 0 (earlier.map HeldChunk.chunk)

/-- The records of the first of these chunks. -/
def headRecords : List HeldChunk → List Bytes
  | [] => []
  | chunk :: _ => chunk.records

/-- The source is a file of these chunks, the signature among them, and they
open to their records. -/
structure FileChunks (projection : Option FieldProjection) (source : Bytes)
    (file : List HeldChunk) : Prop where
  source_eq : source = fileBytes ext 0 (file.map HeldChunk.chunk)
  made : ∀ chunk ∈ file, MadeChunk ext chunk.chunk
  opens : ∀ chunk ∈ file, Opens ext projection chunk.chunk chunk.records
  placed : WellPlaced 0 (file.map HeldChunk.chunk)
  within : chunkPlace file < u64Max
  signed : ∃ rest, file = (signatureChunk ext).bare :: rest

variable (file : List HeldChunk)

/-- The position leads behind the first `before` records: into the chunk that
it names, and no further than that chunk has records. -/
def Points (position : RecordPosition) (before : Nat) : Prop :=
  ∃ earlier later, file = earlier ++ later ∧
    canonicalChunkAddress position.chunkBegin = chunkPlace earlier ∧
    before = (heldRecords earlier).length +
      min position.recordIndex (headRecords later).length

/-- The position counts the first `before` records without going past its
chunk.  A reader that has not read is at the signature chunk, by the address
behind its block header. -/
def StepsTo (position : RecordPosition) (before : Nat) : Prop :=
  ∃ earlier later, file = earlier ++ later ∧
    (position.chunkBegin = chunkPlace earlier ∨
      earlier = [] ∧ position.chunkBegin = blockHeaderSize) ∧
    position.recordIndex ≤ (headRecords later).length ∧
    before = (heldRecords earlier).length + position.recordIndex

/-- The position is that of the record at `index`. -/
def NamesRecord (position : RecordPosition) (index : Nat) : Prop :=
  ∃ earlier chunk later, file = earlier ++ chunk :: later ∧
    position.chunkBegin = chunkPlace earlier ∧
    position.recordIndex < chunk.records.length ∧
    index = (heldRecords earlier).length + position.recordIndex

/-- The reader is behind the first `before` records of the file: inside a
chunk whose decoder is open, or in front of a chunk. -/
inductive ReaderAt (reader : RecordReader) : Nat → Prop where
  | inside {earlier later : List HeldChunk} {chunk : HeldChunk} {decoder : ActiveDecoder} :
      file = earlier ++ chunk :: later → reader.currentDecoder = some decoder →
      reader.currentChunkBegin = chunkPlace earlier →
      reader.nextChunkFilePos = chunkPlace (earlier ++ [chunk]) →
      reader.currentRecordIndex ≤ chunk.records.length →
      decoder.Yields (chunk.records.drop reader.currentRecordIndex) →
      ReaderAt reader ((heldRecords earlier).length + reader.currentRecordIndex)
  | between {earlier later : List HeldChunk} :
      file = earlier ++ later → reader.currentDecoder = none →
      reader.nextChunkFilePos = chunkPlace earlier →
      StepsTo file { chunkBegin := reader.currentChunkBegin, recordIndex := reader.currentRecordIndex }
        (heldRecords earlier).length →
      ReaderAt reader (heldRecords earlier).length

end Riegeli
