/-
Module: Riegeli.Spec.Tailing
Purpose: What a reader at the tail of a growing file is for, stated without the
  reader: how many records have been returned and how much of the file is there
  decide what the next read returns.
Trusted boundary: the hash and the codecs
Main exports: TailStep, tail, arrived, CaughtUp, TailRead, recordOf, tailRead, tailed,
  tailEnd, seenAfter, TailCall
-/
import Riegeli.Spec.FilePositions
import Riegeli.Spec.ReadCursor

namespace Riegeli

open RecordReader

/-- A step at the tail of a file: more bytes of it are there, by whatever count,
or the reader is asked for a record. -/
inductive TailStep where
  | grow (count : Nat)
  | readRecord
deriving Repr, DecidableEq

/-- The reader with more bytes of the same file in its source. -/
def RecordReader.grown (file : Bytes) (count : Nat) (reader : RecordReader) : RecordReader :=
  { reader with source := file.take (reader.source.length + count) }

/-- What the reads of a schedule return. -/
def tail (ext : Externals) (file : Bytes) :
    List TailStep → RecordReader → List (Rust (Option Bytes))
  | [], _ => []
  | .grow count :: rest, reader => tail ext file rest (reader.grown file count)
  | .readRecord :: rest, reader =>
      (RecordReader.readRecord ext reader).1 ::
        tail ext file rest (RecordReader.readRecord ext reader).2

/-- The records of the chunks that are visible, up to the first that is not. -/
def arrived (seen : Nat) : Nat → List HeldChunk → List Bytes
  | _, [] => []
  | chunkBegin, held :: rest =>
      if Visible seen chunkBegin held.chunk.header then
        held.records ++ arrived seen (held.chunk.stop chunkBegin) rest
      else []

/-- Every chunk that has begun to arrive is visible. -/
def CaughtUp (seen : Nat) : Nat → List HeldChunk → Prop
  | _, [] => True
  | chunkBegin, held :: rest =>
      (chunkBegin < seen → Visible seen chunkBegin held.chunk.header) ∧
        CaughtUp seen (held.chunk.stop chunkBegin) rest

instance decidableCaughtUp (seen : Nat) :
    ∀ (chunkBegin : Nat) (chunks : List HeldChunk), Decidable (CaughtUp seen chunkBegin chunks)
  | _, [] => inferInstanceAs (Decidable True)
  | chunkBegin, held :: rest =>
      have := decidableCaughtUp seen (held.chunk.stop chunkBegin) rest
      inferInstanceAs (Decidable ((chunkBegin < seen → Visible seen chunkBegin held.chunk.header) ∧
        CaughtUp seen (held.chunk.stop chunkBegin) rest))

/-- What a caller sees of one read. -/
inductive TailRead where
  | record (bytes : Bytes)
  | caughtUp
  | waiting
deriving Repr, DecidableEq

/-- The result of the call that it stands for. -/
def TailRead.Shown : TailRead → Rust (Option Bytes) → Prop
  | .record bytes, result => result = .ok (some bytes)
  | .caughtUp, result => result = .ok none
  | .waiting, result => ∃ error : RiegeliError, result = .error (.error error)

/-- How many records it hands over. -/
def TailRead.count : TailRead → Nat
  | .record _ => 1
  | .caughtUp => 0
  | .waiting => 0

/-- The record that it hands over. -/
def TailRead.record? : TailRead → Option Bytes
  | .record bytes => some bytes
  | .caughtUp => none
  | .waiting => none

/-- The record that a call returns. -/
def recordOf : Rust (Option Bytes) → Option Bytes
  | .ok record => record
  | .error _ => none

/-- One read, once `returned` records have been returned and the first `seen`
bytes of the file are there. -/
def tailRead (chunks : List HeldChunk) (seen returned : Nat) : TailRead :=
  match (arrived seen firstDataChunk chunks)[returned]? with
  | some record => .record record
  | none => if CaughtUp seen firstDataChunk chunks then .caughtUp else .waiting

/-- The reads of a schedule. -/
def tailed (chunks : List HeldChunk) (length : Nat) : List TailStep → Nat → Nat → List TailRead
  | [], _, _ => []
  | .grow count :: rest, seen, returned =>
      tailed chunks length rest (min (seen + count) length) returned
  | .readRecord :: rest, seen, returned =>
      tailRead chunks seen returned ::
        tailed chunks length rest seen (returned + (tailRead chunks seen returned).count)

/-! ## One call of a schedule -/

/-- The reader behind a schedule. -/
def tailEnd (ext : Externals) (file : Bytes) : List TailStep → RecordReader → RecordReader
  | [], reader => reader
  | .grow count :: rest, reader => tailEnd ext file rest (reader.grown file count)
  | .readRecord :: rest, reader => tailEnd ext file rest (RecordReader.readRecord ext reader).2

/-- How much of a file of this length is there behind a schedule. -/
def seenAfter (length : Nat) : List TailStep → Nat → Nat
  | [], seen => seen
  | .grow count :: rest, seen => seenAfter length rest (min (seen + count) length)
  | .readRecord :: rest, seen => seenAfter length rest seen

/-- All of these first chunks of a file are visible. -/
def AllThere (seen : Nat) (chunks : List HeldChunk) : Prop :=
  ∀ front chunk back, chunks = front ++ chunk :: back →
    Visible seen (chunkPlace front) chunk.chunk.header

/-- What one call returns once `returned` records have been returned and the first
`seen` bytes of the file are there.  It returns the next record exactly when the
chunk of that record and all in front of it are visible.  It says that there is
none only if every chunk that has begun to arrive is there and has been read.
Otherwise it fails. -/
structure TailCall (file : List HeldChunk) (seen returned : Nat) (result : Rust (Option Bytes)) :
    Prop where
  record : (∃ record, result = .ok (some record)) ↔
    ∃ earlier chunk later, file = earlier ++ chunk :: later ∧
      (heldRecords earlier).length ≤ returned ∧
      returned < (heldRecords (earlier ++ [chunk])).length ∧ AllThere seen (earlier ++ [chunk])
  next : ∀ record, result = .ok (some record) → (heldRecords file)[returned]? = some record
  caughtUp : result = .ok none → ∀ earlier chunk later, file = earlier ++ chunk :: later →
    firstDataChunk ≤ chunkPlace earlier → chunkPlace earlier < seen →
      dataStop (chunkPlace earlier) chunk.chunk.header.dataSize ≤ seen ∧
        (heldRecords (earlier ++ [chunk])).length ≤ returned
  answers : (∃ record, result = .ok record) ∨ ∃ error : RiegeliError, result = .error (.error error)

end Riegeli
