/-
Module: Riegeli.Spec.RandomAccess
Purpose: What a caller who keeps positions of a complete file may rely on: the
  order of the numeric positions, and where seeks to them lead.
Trusted boundary: the hash and the codecs
Main exports: Arrives, positionRead, Addresses, RandomAccess
-/
import Riegeli.Spec.ReaderRuns

namespace Riegeli

variable (ext : Externals)

/-- A seek succeeded, and the next read returns this. -/
structure Arrives (outcome : Except Fault Unit × RecordReader) (record : Option Bytes) : Prop where
  succeeds : outcome.1 = .ok ()
  reads : (RecordReader.readRecord ext outcome.2).1 = .ok record

/-- The last position of a reader behind `index` records and the read of the
next. -/
def positionRead (opened : RecordReader) (index : Nat) : RecordPosition :=
  (runReader ext (List.replicate (index + 1) .readRecord) opened).lastPos

/-- The target is the position, or the same with the address of its chunk given
behind the block header there. -/
def Addresses (target position : RecordPosition) : Prop :=
  target = position ∨
    isBlockBoundary position.chunkBegin = true ∧
      target = { position with chunkBegin := position.chunkBegin + blockHeaderSize }

/-- Random access to these records, from a reader in any state; the positions
are those of a sequential read. -/
structure RandomAccess (records : List Bytes) (opened reader : RecordReader) : Prop where
  increases : ∀ {first second : Nat}, first < second → second < records.length →
    (positionRead ext opened first).numeric < (positionRead ext opened second).numeric
  seeks : ∀ {index : Nat} {target : RecordPosition}, index < records.length →
    Addresses target (positionRead ext opened index) →
      Arrives ext (RecordReader.seek ext target reader) records[index]?
  seeksNumeric : ∀ numeric, ∃ index, index ≤ records.length ∧
    (∀ other, other < records.length →
      ((positionRead ext opened other).numeric < numeric ↔ other < index)) ∧
    Arrives ext (RecordReader.seekNumeric ext numeric reader) records[index]?

end Riegeli
