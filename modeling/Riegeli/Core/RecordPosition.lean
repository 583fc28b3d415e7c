/-
Module: Riegeli.Core.RecordPosition
Purpose: The text of a record position, `record_position.rs`.
Trusted boundary: none
Main exports: RecordPosition.new, RecordPosition.display, RecordPosition.fromStr
-/
import Riegeli.Core.RecordReader
import Riegeli.Library.Text

namespace Riegeli

namespace RecordPosition

/-- `RecordPosition::new`. -/
def new (chunkBegin recordIndex : Nat) : RecordPosition :=
  { chunkBegin := chunkBegin, recordIndex := recordIndex }

/-- `fmt::Display`. -/
def display (self : RecordPosition) : String :=
  toString self.chunkBegin ++ "/" ++ toString self.recordIndex

/-- The error for a position whose numeric value is no 64-bit number. -/
def overflow (chunkBegin recordIndex : Nat) : RiegeliError :=
  .malformedData ("RecordPosition overflow: chunk_begin " ++ toString chunkBegin ++
    " + record_index " ++ toString recordIndex ++ " exceeds u64::MAX")

/-- `FromStr::from_str`. -/
def fromStr (s : String) : Except RiegeliError RecordPosition := do
  match splitOnce '/' s.toList with
  | none =>
      .error (.malformedData ("invalid RecordPosition format (expected 'chunk/index'): " ++ s))
  | some (chunkStr, indexStr) => do
      let chunkBegin ← (parseUnsigned u64Max chunkStr).mapError fun e =>
        .malformedData ("invalid chunk_begin in RecordPosition: " ++ e.text)
      let recordIndex ← (parseUnsigned u64Max indexStr).mapError fun e =>
        .malformedData ("invalid record_index in RecordPosition: " ++ e.text)
      if recordIndex > u64Max - chunkBegin then .error (overflow chunkBegin recordIndex)
      else .ok (new chunkBegin recordIndex)

end RecordPosition

end Riegeli
