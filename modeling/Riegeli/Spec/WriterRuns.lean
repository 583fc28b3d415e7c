/-
Module: Riegeli.Spec.WriterRuns
Purpose: Runs of the writer: the operations a caller may make, in any order,
  and the writers they lead to.
Trusted boundary: the hash, the codecs and the sink
Main exports: WriterOp, WriterOp.run, runWriter, runResults, CallsReturn, Synced,
  Sink.Reliable, Sink.fresh, Opened
-/
import Riegeli.Core.RecordWriter

namespace Riegeli

variable (ext : Externals)

/-- An operation on an open writer. -/
inductive WriterOp where
  | writeRecord (record : Bytes)
  | flush
deriving Repr, DecidableEq

/-- The method behind an operation. -/
def WriterOp.run : WriterOp → RecordWriter.Method Unit
  | .writeRecord record => RecordWriter.writeRecord ext record
  | .flush => RecordWriter.flush ext

/-- Run operations one after the other, whatever each returns. -/
def runWriter : List WriterOp → RecordWriter → RecordWriter
  | [], self => self
  | op :: rest, self => runWriter rest (op.run ext self).2

/-- What each operation of a run returned. -/
def runResults : List WriterOp → RecordWriter → List (Rust Unit)
  | [], _ => []
  | op :: rest, self => (op.run ext self).1 :: runResults rest (op.run ext self).2

/-- Every operation came back, with a value or an error; none panicked. -/
def CallsReturn (self : RecordWriter) (ops : List WriterOp) : Prop :=
  ∀ result ∈ runResults ext ops self, result.Safe

/-- After the operations a flush or a close has just succeeded. -/
inductive Synced (self : RecordWriter) (ops : List WriterOp) : RecordWriter → Prop where
  | flushed {after : RecordWriter}
      (ran : RecordWriter.flush ext (runWriter ext ops self) = (.ok (), after)) :
      Synced self ops after
  | closed {after : RecordWriter}
      (ran : RecordWriter.close ext (runWriter ext ops self) = (.ok (), after)) :
      Synced self ops after

/-- The records that a list of operations hands to the writer. -/
def writtenRecords : List WriterOp → List Bytes
  | [] => []
  | .writeRecord record :: rest => record :: writtenRecords rest
  | .flush :: rest => writtenRecords rest

theorem mem_writtenRecords {record : Bytes} {ops : List WriterOp} :
    record ∈ writtenRecords ops ↔ .writeRecord record ∈ ops := by
  induction ops with
  | nil => simp [writtenRecords]
  | cons op rest ih => cases op <;> simp [writtenRecords, ih]

/-- A sink that never fails. -/
def Sink.Reliable (sink : Sink) : Prop := ∀ calls, sink.respond calls = none

/-- A sink that has not been written to. -/
def Sink.fresh (respond : List SinkCall → Option IoError) : Sink :=
  { respond := respond, calls := [] }

/-- A new empty sink that never fails. -/
def reliableSink : Sink := Sink.fresh fun _ => none

/-- The writer that `RecordWriter::new` returns on a reliable sink. -/
def Opened (options : WriterOptions) (self : RecordWriter) : Prop :=
  (RecordWriter.new ext reliableSink options).1 = .ok self

end Riegeli
