/-
Module: Riegeli.Spec.ReaderWalks
Purpose: Walks of a reader over a file, which seek to positions that it has
  returned or anywhere, and what a caller may rely on anywhere in such a walk.
Trusted boundary: the hash and the codecs
Main exports: ReaderOp.Succeeds, Walkable, Walks, Remaining, StepsBack,
  LeadsTo, NamesPlace, KeepsPlace, Wanders, Namable, Checkpoint
-/
import Riegeli.Spec.FileRecords
import Riegeli.Spec.ReaderRuns
import Riegeli.Spec.RecordSearch

namespace Riegeli

variable (ext : Externals)

/-- The operation returns a value. -/
def ReaderOp.Succeeds : ReaderOp → RecordReader → Prop
  | .readRecord, reader => ∃ record, (RecordReader.readRecord ext reader).1 = .ok record
  | .seek target, reader => (RecordReader.seek ext target reader).1 = .ok ()
  | .seekNumeric numeric, reader => (RecordReader.seekNumeric ext numeric reader).1 = .ok ()
  | .seekBack, reader => ∃ stepped, (RecordReader.seekBack ext reader).1 = .ok stepped
  | .search test, reader => ∃ found, (RecordReader.search ext test reader).1 = .ok found
  | .size, reader => ∃ size, (RecordReader.size ext reader).1 = .ok size
  | .checkFileFormat, reader => (RecordReader.checkFileFormat ext reader).1 = .ok ()
  | .readSerializedMetadata, reader =>
      ∃ metadata, (RecordReader.readSerializedMetadata ext reader).1 = .ok metadata
  | .setFieldProjection _, _ => True

/-- The operation keeps to the positions that were returned before, and to the
projection. -/
def Walkable (positions : List RecordPosition) (_ : RecordReader) : ReaderOp → Prop
  | .seek target => target ∈ positions
  | .setFieldProjection _ => False
  | _ => True

/-- The reader is one that operations lead to, each of them allowed where it is
made; the positions are all that it has returned. -/
inductive Walks (allowed : List RecordPosition → RecordReader → ReaderOp → Prop)
    (opened : RecordReader) : RecordReader → List RecordPosition → Prop where
  | opened : Walks allowed opened opened [opened.pos, opened.lastPos]
  | step {reader : RecordReader} {positions : List RecordPosition} {op : ReaderOp} :
      Walks allowed opened reader positions → allowed positions reader op →
      Walks allowed opened (op.after ext reader)
        (positions ++ [(op.after ext reader).pos, (op.after ext reader).lastPos])

/-- Any number of reads return these records, each once and in order, and then
nothing more. -/
def Remaining (reader : RecordReader) (records : List Bytes) : Prop :=
  ∀ count, observe ext (List.replicate count .readRecord) reader =
    (readsOf records count).map Seen.record

/-- The reader is behind the first `before` of the records, and steps back over
them one by one. -/
structure StepsBack (records : List Bytes) (reader : RecordReader) (before : Nat) : Prop where
  within : before ≤ records.length
  remaining : Remaining ext reader (records.drop before)
  result : (RecordReader.seekBack ext reader).1 = .ok (decide (0 < before))
  previous : 0 < before →
    (RecordReader.readRecord ext (RecordReader.seekBack ext reader).2).1 =
      .ok records[before - 1]?
  further : ∀ steps,
    Remaining ext (runReader ext (List.replicate steps .seekBack) reader)
      (records.drop (before - steps))

/-! ## Positions as checkpoints -/

/-- A seek to the reader's position succeeds, and then a read returns this. -/
def LeadsTo (reader : RecordReader) (record : Option Bytes) : Prop :=
  (RecordReader.seek ext reader.pos reader).1 = .ok () ∧
    (RecordReader.readRecord ext (RecordReader.seek ext reader.pos reader).2).1 = .ok record

/-- The reader's position is where it reads on: what a read returns it returns
behind a seek to the position too. -/
def NamesPlace (reader : RecordReader) : Prop :=
  ∀ record, (RecordReader.readRecord ext reader).1 = .ok record → LeadsTo ext reader record

/-- A search of a reader of these records leaves the position where the reader
is: it finds a record, or the last record that it compares is the last of them
all, or there is none to compare and the position is at the end already. -/
def KeepsPlace (records : List Bytes) (reader : RecordReader) (op : ReaderOp) : Prop :=
  ∀ test, op = .search test →
    ∃ chunks, (RecordReader.collectDataChunks ext reader).1 = .ok chunks ∧
      ((bisectGroups (comparisonAt test records) (chunks.map Prod.snd)).isSome = true ∨
        lastProbe (comparisonAt test records) (chunks.map Prod.snd) = some (records.length - 1) ∨
        records = [] ∧ LeadsTo ext reader none)

/-- The operation succeeds and keeps the projection.  It seeks anywhere if the
recovery callback, where there is one, never refuses, and otherwise only to
positions that were returned. -/
def Wanders (positions : List RecordPosition) (reader : RecordReader) (op : ReaderOp) : Prop :=
  op.Succeeds ext reader ∧ (∀ projection, op ≠ .setFieldProjection projection) ∧
    ((∀ callback, reader.recovery = some callback → ∀ regions, callback regions = true) ∨
      Walkable positions reader op)

/-- The operation is one behind which the position is to name the reader's
place. -/
def Namable (records : List Bytes) (positions : List RecordPosition) (reader : RecordReader)
    (op : ReaderOp) : Prop :=
  Wanders ext positions reader op ∧ KeepsPlace ext records reader op

end Riegeli
