/-
Module: Riegeli.Spec.CompleteFiles
Purpose: The complete files of a writer: what it has stored on a reliable sink
  right after a flush or a close.
Trusted boundary: the hash, the codecs and the sink
Main exports: TransposedFits, CompleteFile, MetadataFits
-/
import Riegeli.Proofs.TransposeRoundTrip
import Riegeli.Proofs.SyncedFiles

namespace Riegeli

variable (ext : Externals)

/-- The lengths of these records are 32-bit numbers, and the sizes and counts
of a transposed chunk of them fit in their integer types. -/
structure TransposedFits (fresh : ActiveEncoder) (records : List Bytes) : Prop where
  short : ∀ record ∈ records, record.length ≤ u32Max
  sizes : ∀ encoder, Filled fresh records (.transpose encoder) → encoder.SizesFit ext records

/-- The source is the file of a writer with these options, right after a flush
or a close that succeeded behind these operations. -/
structure CompleteFile (options : WriterOptions) (ops : List WriterOp) (source : Bytes)
    (writer after : RecordWriter) : Prop where
  opened : Opened ext options writer
  words : HandsWords options ops
  returns : CallsReturn ext writer ops
  synced : Synced ext writer ops after
  within : after.filePos < u64Max
  source_eq : source = after.sink.bytes
  fits : options.transpose = true → ∀ op pending records,
    DataChunkRule (cappedChunkSize options) pending op records →
      records <:+: writtenRecords ops → TransposedFits ext writer.freshEncoder records

/-- The length of the metadata is a 32-bit number, and the sizes and counts of a
chunk of it fit in their integer types. -/
structure MetadataFits (options : WriterOptions) (metadata : Bytes) : Prop where
  short : metadata.length ≤ u32Max
  sizes : ∀ encoder,
    ((TransposeChunkEncoder.new options.compression).withCompressOpts
      { level := options.compressionLevel, windowLog := options.windowLog }).addRecord metadata =
        .ok encoder →
      encoder.SizesFit ext [metadata]

end Riegeli
