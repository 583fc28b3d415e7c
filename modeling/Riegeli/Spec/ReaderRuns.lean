/-
Module: Riegeli.Spec.ReaderRuns
Purpose: Runs of the reader: the operations a caller may make, in any order,
  and the readers they lead to.
Trusted boundary: the hash and the codecs
Main exports: ReaderOp, ReaderOp.after, ReaderOp.Inspection, Seen, observe,
  runReader, ReaderReached
-/
import Riegeli.Core.RecordReader

namespace Riegeli

variable (ext : Externals)

/-- An operation on an open reader. -/
inductive ReaderOp where
  | readRecord
  | seek (target : RecordPosition)
  | seekNumeric (numeric : Nat)
  | seekBack
  | search (test : Bytes → Ordering)
  | size
  | checkFileFormat
  | readSerializedMetadata
  | setFieldProjection (projection : FieldProjection)

/-- The reader that an operation leaves behind, whatever it returns. -/
def ReaderOp.after : ReaderOp → RecordReader → RecordReader
  | .readRecord, reader => (RecordReader.readRecord ext reader).2
  | .seek target, reader => (RecordReader.seek ext target reader).2
  | .seekNumeric numeric, reader => (RecordReader.seekNumeric ext numeric reader).2
  | .seekBack, reader => (RecordReader.seekBack ext reader).2
  | .search test, reader => (RecordReader.search ext test reader).2
  | .size, reader => (RecordReader.size ext reader).2
  | .checkFileFormat, reader => (RecordReader.checkFileFormat ext reader).2
  | .readSerializedMetadata, reader => (RecordReader.readSerializedMetadata ext reader).2
  | .setFieldProjection projection, reader =>
      (RecordReader.setFieldProjection projection reader).2

/-- The operation looks at the file without moving the reader. -/
def ReaderOp.Inspection : ReaderOp → Prop
  | .size => True
  | .checkFileFormat => True
  | .readSerializedMetadata => True
  | _ => False

instance : DecidablePred ReaderOp.Inspection
  | .size => isTrue trivial
  | .checkFileFormat => isTrue trivial
  | .readSerializedMetadata => isTrue trivial
  | .readRecord => isFalse id
  | .seek _ => isFalse id
  | .seekNumeric _ => isFalse id
  | .seekBack => isFalse id
  | .search _ => isFalse id
  | .setFieldProjection _ => isFalse id

/-- What a read or a seek returns. -/
inductive Seen where
  | record (result : Except Fault (Option Bytes))
  | sought (result : Except Fault Unit)
deriving DecidableEq

/-- What the reads and seeks of a run return, one after the other. -/
def observe : List ReaderOp → RecordReader → List Seen
  | [], _ => []
  | .readRecord :: rest, reader =>
      .record (RecordReader.readRecord ext reader).1 ::
        observe rest (ReaderOp.readRecord.after ext reader)
  | .seek target :: rest, reader =>
      .sought (RecordReader.seek ext target reader).1 ::
        observe rest ((ReaderOp.seek target).after ext reader)
  | op :: rest, reader => observe rest (op.after ext reader)

/-- Run operations one after the other. -/
def runReader : List ReaderOp → RecordReader → RecordReader
  | [], reader => reader
  | op :: rest, reader => runReader rest (op.after ext reader)

/-- The reader is one that some operations lead to on this source. -/
def ReaderReached (source : Bytes) (options : ReaderOptions) (reader : RecordReader) : Prop :=
  ∃ opened ops, RecordReader.new ext source options = .ok opened ∧ runReader ext ops opened = reader

end Riegeli
