/-
Module: Riegeli.Spec.SoundReaders
Purpose: What every reader of any bytes keeps true of itself, and what no call of
  it may end in.
Trusted boundary: the hash and the codecs
Main exports: SoundReader, Secured, NeverPanics
-/
import Riegeli.Library.Ending
import Riegeli.Proofs.ChunkSafety

namespace Riegeli

/-- The reader has measured its source, and its open decoder, if there is one, has
records to hand over and nothing else to do. -/
structure SoundReader (source : Bytes) (reader : RecordReader) : Prop where
  source : reader.source = source
  known : Known reader
  decoder : ∀ decoder, reader.currentDecoder = some decoder → decoder.Sound

/-- The call returns, with a value or with an error, and leaves a sound reader
behind. -/
def Secured {Value : Type} (source : Bytes) (run : Except Fault Value × RecordReader)
    (after : Value → RecordReader → Prop) : Prop :=
  Ends (fun fault next => fault.Returned ∧ SoundReader source next) run
    fun value next => SoundReader source next ∧ after value next

/-- Every call that the reader offers returns, with a value or with an error. -/
structure NeverPanics (ext : Externals) (reader : RecordReader) : Prop where
  readRecord : Rust.Safe (RecordReader.readRecord ext reader).1
  seek : ∀ target, Rust.Safe (RecordReader.seek ext target reader).1
  seekNumeric : ∀ numeric, Rust.Safe (RecordReader.seekNumeric ext numeric reader).1
  seekBack : Rust.Safe (RecordReader.seekBack ext reader).1
  search : ∀ test, Rust.Safe (RecordReader.search ext test reader).1
  size : Rust.Safe (RecordReader.size ext reader).1
  checkFileFormat : Rust.Safe (RecordReader.checkFileFormat ext reader).1
  readSerializedMetadata : Rust.Safe (RecordReader.readSerializedMetadata ext reader).1

end Riegeli
