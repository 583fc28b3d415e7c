/-
Module: Riegeli.Spec.ReadCursor
Purpose: What a sequential reader is for, stated without the reader: a cursor
  over the chunks of a file that hands over the next record once enough of the
  file is there.
Trusted boundary: the hash and the codecs
Main exports: numbered, positionedRecords, Cursor, ReadOutcome, Cursor.read,
  Cursor.remaining, Stored
-/
import Riegeli.Spec.HeldRecords

namespace Riegeli

/-- The records of a chunk with their positions, counted from `index`. -/
def numbered (chunkBegin : Nat) : Nat → List Bytes → List (RecordPosition × Bytes)
  | _, [] => []
  | index, record :: rest =>
      ({ chunkBegin := chunkBegin, recordIndex := index }, record) ::
        numbered chunkBegin (index + 1) rest

/-- The records of consecutive chunks with their positions. -/
def positionedRecords : Nat → List HeldChunk → List (RecordPosition × Bytes)
  | _, [] => []
  | chunkBegin, held :: rest =>
      numbered chunkBegin 0 held.records ++ positionedRecords (held.chunk.stop chunkBegin) rest

/-- A place between two records of a file: the records of the current chunk
still to come, and the chunks after it, the first of which begins at
`chunkBegin`. -/
structure Cursor where
  chunkBegin : Nat
  pending : List (RecordPosition × Bytes)
  chunks : List HeldChunk
deriving Repr, DecidableEq

/-- What one read comes to. -/
inductive ReadOutcome where
  | record (position : RecordPosition) (record : Bytes)
  | finished
  | refused
deriving Repr, DecidableEq

/-- Read the next record of a file of which the first `seen` bytes are there,
from a place in the chunk before `chunks`. -/
def readFrom (seen : Nat) :
    List HeldChunk → Nat → List (RecordPosition × Bytes) → ReadOutcome × Cursor
  | chunks, chunkBegin, (position, record) :: pending =>
      (.record position record,
        { chunkBegin := chunkBegin, pending := pending, chunks := chunks })
  | [], chunkBegin, [] =>
      (.finished, { chunkBegin := chunkBegin, pending := [], chunks := [] })
  | held :: rest, chunkBegin, [] =>
      if Visible seen chunkBegin held.chunk.header then
        readFrom seen rest (held.chunk.stop chunkBegin) (numbered chunkBegin 0 held.records)
      else
        (if seen ≤ chunkBegin then .finished else .refused,
          { chunkBegin := chunkBegin, pending := [], chunks := held :: rest })

/-- Read the next record. -/
def Cursor.read (seen : Nat) (cursor : Cursor) : ReadOutcome × Cursor :=
  readFrom seen cursor.chunks cursor.chunkBegin cursor.pending

/-- The records after a cursor. -/
def Cursor.remaining (cursor : Cursor) : List (RecordPosition × Bytes) :=
  cursor.pending ++ positionedRecords cursor.chunkBegin cursor.chunks

/-- Where the file ends. -/
def Cursor.stop (cursor : Cursor) : Nat :=
  fileStop cursor.chunkBegin (cursor.chunks.map HeldChunk.chunk)

variable (ext : Externals)

/-- The source shows this chunk where it begins. -/
structure StoredAt (projection : Option FieldProjection) (source : Bytes) (chunkBegin : Nat)
    (held : HeldChunk) : Prop where
  possible : isPossibleChunkBoundary chunkBegin = true
  spec :
    ChunkEndSpec chunkBegin held.chunk.header.dataSize held.chunk.header.numRecords
      (held.chunk.stop chunkBegin)
  within : held.chunk.stop chunkBegin ≤ u64Max
  sized : held.chunk.header.dataSize = held.chunk.data.length
  readable : held.Readable ext projection
  shows :
    Shows ext source chunkBegin (held.chunk.stop chunkBegin) held.chunk.payload
      (held.chunk.stop chunkBegin)

/-- The source shows these chunks one after the other, as far as it goes. -/
def Stored (projection : Option FieldProjection) (source : Bytes) :
    Nat → List HeldChunk → Prop
  | chunkBegin, [] => isPossibleChunkBoundary chunkBegin = true
  | chunkBegin, held :: rest =>
      StoredAt ext projection source chunkBegin held ∧
        Stored projection source (held.chunk.stop chunkBegin) rest

variable {ext}

theorem Stored.possible {projection : Option FieldProjection} {source : Bytes} {chunkBegin : Nat}
    {chunks : List HeldChunk} (stored : Stored ext projection source chunkBegin chunks) :
    isPossibleChunkBoundary chunkBegin = true := by
  cases chunks with
  | nil => exact stored
  | cons held rest => exact stored.1.possible

/-- A visible chunk begins well before the end of what is there. -/
theorem Visible.lt {seen chunkBegin : Nat} {header : ChunkHeader}
    (visible : Visible seen chunkBegin header) : chunkBegin + 40 ≤ seen := by
  have ahead := le_reach chunkBegin (40 + header.dataSize)
  have whole := visible.1
  unfold dataStop at whole
  omega

end Riegeli
