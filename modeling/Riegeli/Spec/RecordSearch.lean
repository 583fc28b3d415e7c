/-
Module: Riegeli.Spec.RecordSearch
Purpose: The chunks a search goes through, and the comparisons of the records
  that it makes.
Trusted boundary: the hash and the codecs
Main exports: ListsChunks, comparisonAt, SortedFor, SearchExact
-/
import Riegeli.Library.Bisection
import Riegeli.Spec.FilePositions

namespace Riegeli

variable (ext : Externals)

/-- The chunks with records behind the first `before` records, by their places
and counts. -/
inductive ListsChunks (file : List HeldChunk) : Nat → List (Nat × Nat) → Prop where
  | nil : ListsChunks file (heldRecords file).length []
  | cons {earlier later : List HeldChunk} {chunk : HeldChunk} {entries : List (Nat × Nat)} :
      file = earlier ++ chunk :: later → 0 < chunk.records.length →
      ListsChunks file ((heldRecords earlier).length + chunk.records.length) entries →
      ListsChunks file (heldRecords earlier).length
        ((chunkPlace earlier, chunk.records.length) :: entries)

/-- How the record at an index compares. -/
def comparisonAt (test : Bytes → Ordering) (records : List Bytes) (index : Nat) : Ordering :=
  test (records.getD index [])

/-- The records that compare less come first, then those that compare equal,
then those that compare greater. -/
def SortedFor (test : Bytes → Ordering) (records : List Bytes) : Prop :=
  ∃ less equal greater, records = less ++ equal ++ greater ∧ (∀ record ∈ less, test record = .lt) ∧
    (∀ record ∈ equal, test record = .eq) ∧ ∀ record ∈ greater, test record = .gt

/-- A search of these records finds one that compares equal when there is one,
and otherwise ends behind the last record. -/
structure SearchExact (test : Bytes → Ordering) (records : List Bytes)
    (outcome : Except Fault Bool × RecordReader) : Prop where
  result : ∃ found, outcome.1 = .ok found ∧
    (found = true ↔ ∃ record ∈ records, test record = .eq)
  found : outcome.1 = .ok true → ∃ record ∈ records, test record = .eq ∧
    (RecordReader.readRecord ext outcome.2).1 = .ok (some record)
  missed : outcome.1 = .ok false → (RecordReader.readRecord ext outcome.2).1 = .ok none

end Riegeli
