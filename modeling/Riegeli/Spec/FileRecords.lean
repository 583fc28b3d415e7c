/-
Module: Riegeli.Spec.FileRecords
Purpose: Files of chunks that hold records for a reader, and what reading all
  of them returns.
Trusted boundary: the hash, the codecs and the sink
Main exports: HoldsRecords, DecodesChunks, readsOf
-/
import Riegeli.Proofs.WrittenFiles
import Riegeli.Spec.ReadCursor

namespace Riegeli

variable (ext : Externals)

/-- The source is a whole file, and its chunks after the signature open to
these records. -/
structure HoldsRecords (projection : Option FieldProjection) (source : Bytes)
    (held : List HeldChunk) : Prop where
  source_eq : source = fileBytes ext 0 (signatureChunk ext :: held.map HeldChunk.chunk)
  whole : WholeFile ext (held.map HeldChunk.chunk)
  opens : ∀ chunk ∈ held, Opens ext projection chunk.chunk chunk.records

/-- Every chunk that the writer may make of its records opens to them. -/
def DecodesChunks (projection : Option FieldProjection) (options : WriterOptions)
    (fresh : ActiveEncoder) : Prop :=
  ∀ op pending records chunk, EncodesRecords ext fresh records chunk →
    DataChunkRule (cappedChunkSize options) pending op records →
    chunk.data.length ≤ u64Max → Opens ext projection chunk records

/-- What a number of reads of these records return: each record once, in
order, and then nothing more. -/
def readsOf (records : List Bytes) (count : Nat) : List (Rust (Option Bytes)) :=
  (List.range count).map fun index => .ok records[index]?

end Riegeli
