/-
Module: Riegeli.Spec.SequentialReads
Purpose: The states that a sequential read of a source passes through, inside
  and between its calls.
Trusted boundary: the hash and the codecs
Main exports: Sequential
-/
import Riegeli.Core.RecordReader

namespace Riegeli

open RecordReader

variable (ext : Externals)

/-- The reader is in the middle of a sequential read: just opened, after a
record, with its chunk drained, past a chunk without records, or after a load
that ended in any way. -/
inductive Sequential (source : Bytes) (options : ReaderOptions) : RecordReader → Prop where
  | opened {reader : RecordReader} :
      RecordReader.new ext source options = .ok reader → Sequential source options reader
  | handed {reader next : RecordReader} {record : Option Bytes} :
      Sequential source options reader → readFromDecoder reader = (.ok record, next) →
      Sequential source options next
  | passed {reader read next : RecordReader} {header : ChunkHeader} {chunkBegin dataBegin : Nat} :
      Sequential source options reader → reader.currentDecoder = none →
      readChunkHeaderAt ext reader.nextChunkFilePos { reader with pendingTrustedEnd := none } =
        (.ok (some (header, chunkBegin, dataBegin)), read) →
      loadChunkBody ext header chunkBegin dataBegin read = (.ok false, next) →
      Sequential source options next
  | advanced {reader next : RecordReader} {result : Except Fault Bool} :
      Sequential source options reader → reader.currentDecoder = none →
      advanceChunk ext reader = (result, next) → Sequential source options next

end Riegeli
