/-
Module: Riegeli.Spec.ChunkWalk
Purpose: Reading a whole file chunk by chunk, stated without positions: what a
  chunk opens as, and a reader that goes along a list of chunks.
Trusted boundary: the hash and the codecs
Main exports: MadeChunk, openedAs, HoldsAt, HoldsFrom, isDataChunk, readAlong,
  readsAlong
-/
import Riegeli.Proofs.ChunkSteps
import Riegeli.Spec.ChunkFinding

namespace Riegeli

variable (ext : Externals)

/-- A chunk as a writer makes it: its hashes are right, its type is known, and
a chunk of a special type is a valid one wherever it stands. -/
structure MadeChunk (chunk : Chunk) : Prop where
  fits : chunk.header.Fits
  headerValid : chunk.header.isHeaderValid ext = true
  dataValid : chunk.header.isDataValid ext chunk.data = true
  typed : ∃ chunkType, chunk.header.chunkType = .ok chunkType ∧
    ∀ chunkBegin, validateSpecialChunk chunk.header chunkBegin chunkType = .ok ()

/-- What such a chunk is opened as: a decoder, or nothing to read. -/
def openedAs (projection : Option FieldProjection) (chunk : Chunk) :
    Rust (Option ActiveDecoder) :=
  match chunk.header.chunkType with
  | .ok chunkType => openAt ext projection 0 chunk chunkType
  | .error error => .error (.error error)

/-- Only chunks of two types have something to read. -/
def isDataChunk (chunk : Chunk) : Bool :=
  match chunk.header.chunkType with
  | .ok .simple => true
  | .ok .transposed => true
  | _ => false

/-- The source holds this chunk, all of it, at `chunkBegin`. -/
structure HoldsAt (source : Bytes) (chunkBegin : Nat) (chunk : Chunk) : Prop where
  standing : Standing chunkBegin (chunk.stop chunkBegin) chunk.payload
  shows : Shows ext source chunkBegin (chunk.stop chunkBegin) chunk.payload
    (chunk.stop chunkBegin)
  spec : ChunkEndSpec chunkBegin chunk.header.dataSize chunk.header.numRecords
    (chunk.stop chunkBegin)
  records : chunkBegin + chunk.header.numRecords ≤ chunk.stop chunkBegin
  whole : chunk.stop chunkBegin ≤ source.length
  sized : chunk.header.dataSize = chunk.data.length
  made : MadeChunk ext chunk

/-- From `chunkBegin` on the source holds these chunks and ends. -/
def HoldsFrom (source : Bytes) : Nat → List Chunk → Prop
  | chunkBegin, [] => isPossibleChunkBoundary chunkBegin = true ∧ chunkBegin = source.length
  | chunkBegin, chunk :: rest =>
      HoldsAt ext source chunkBegin chunk ∧ HoldsFrom source (chunk.stop chunkBegin) rest

/-- What the open decoder hands over, with the decoder after that. -/
def handOver : Option ActiveDecoder → Rust (Option (Bytes × ActiveDecoder))
  | none => .ok none
  | some decoder =>
      match decoder.readRecord with
      | .ok (some record, next) => .ok (some (record, next))
      | .ok (none, _) => .ok none
      | .error fault => .error fault

/-- Read the next record, along these chunks once the open decoder has no more.
A lenient reader goes on past a chunk that it cannot open; another one fails on
it, and stays in front of it unless that was a panic. -/
def readAlong (projection : Option FieldProjection) (lenient : Bool) :
    List Chunk → Option ActiveDecoder →
      Rust (Option Bytes) × Option ActiveDecoder × List Chunk
  | [], decoder =>
      match handOver decoder with
      | .ok (some (record, next)) => (.ok (some record), some next, [])
      | .ok none => (.ok none, none, [])
      | .error fault => (.error fault, decoder, [])
  | chunk :: rest, decoder =>
      match handOver decoder with
      | .ok (some (record, next)) => (.ok (some record), some next, chunk :: rest)
      | .error fault => (.error fault, decoder, chunk :: rest)
      | .ok none =>
          match openedAs ext projection chunk with
          | .ok opened => readAlong projection lenient rest opened
          | .error (.error error) =>
              if lenient then readAlong projection lenient rest none
              else (.error (.error error), none, chunk :: rest)
          | .error fault => (.error fault, none, rest)

/-- What a number of reads return. -/
def readsAlong (projection : Option FieldProjection) (lenient : Bool) :
    Nat → List Chunk → Option ActiveDecoder → List (Rust (Option Bytes))
  | 0, _, _ => []
  | count + 1, chunks, decoder =>
      let (result, next, left) := readAlong ext projection lenient chunks decoder
      result :: readsAlong projection lenient count left next

end Riegeli
