/-
Module: Riegeli.Spec.PrunedBuffers
Purpose: What pruning buffers is measured against: the same decode with every
  buffer decompressed, and with stubs that no read survives.
Trusted boundary: the hash and the codecs
Main exports: FieldProjection.ExistenceOnly, decodeParsed,
  TransposeChunkDecoder.newUnpruned, BufferCursor.unreadable,
  TransposeChunkDecoder.newGuarded
-/
import Riegeli.Core.TransposeDecoder

namespace Riegeli

variable (ext : Externals)

/-- The projection lists fields, and only their existence is asked for. -/
def FieldProjection.ExistenceOnly (projection : FieldProjection) : Prop :=
  ∃ fields, projection.fields = some fields ∧ ∀ field ∈ fields, field.existenceOnly = true

/-- The decode of a chunk whose header and buckets have been parsed. -/
def decodeParsed (chunk : Chunk) (projection : Option FieldProjection) (parsed : ParsedHeader) :
    Rust TransposeChunkDecoder := do
  let includeMap := (activeProjectionOf projection).bind IncludeFieldMap.fromProjection
  let built ← buildStateMachineNodes parsed includeMap.isSome
  let nonprotoLengthsIndex ← nonprotoLengthsIndexOf built.hasNonprotoOp parsed.numBuffers
  let transitionsData ←
    decompressWithPrefix ext parsed.transitionsCompressed parsed.compression
  let (data, limits) ←
    decodeAllRecords
      { nodes := built.nodes
        numRecords := chunk.header.numRecords
        nonprotoLengthsIndex := nonprotoLengthsIndex
        nodeTemplates := built.nodeTemplates
        includeMap := includeMap }
      chunk.header.decodedDataSize parsed.buffers (BufferCursor.new transitionsData)
      built.firstNode
  .ok { data := data, limits := limits, nextYield := 0 }

namespace TransposeChunkDecoder

/-- Decoding under a projection with all buffers decompressed. -/
def newUnpruned (chunk : Chunk) (projection : Option FieldProjection) :
    Rust TransposeChunkDecoder := do
  let parsed ← parseHeaderAndBuckets ext chunk.data none
  decodeParsed ext chunk projection parsed

end TransposeChunkDecoder

/-! ## Stubs that cannot be read -/

namespace BufferCursor

/-- A cursor past the end of no bytes. -/
def unreadable : BufferCursor := { data := [], pos := 1, pruned := false }

/-- A cursor that fails where a pruned one would yield zeros. -/
def guarded (cursor : BufferCursor) : BufferCursor := if cursor.pruned then unreadable else cursor

/-- Every read of such a cursor fails. -/
theorem unreadable_fails :
    (∀ count, ∃ fault, unreadable.readExact count = .error fault) ∧
      (∃ fault, unreadable.readVarint32 = .error fault) ∧
      (∃ fault, unreadable.readVarint64 = .error fault) ∧
      (∃ fault, unreadable.readByte = .error fault) ∧
      ∃ fault, readString unreadable = .error fault := by
  refine ⟨fun count => ?_, ⟨_, rfl⟩, ⟨_, rfl⟩, ⟨_, rfl⟩, ⟨_, rfl⟩⟩
  rw [readExact, if_neg (by decide)]
  cases checkedAdd unreadable.pos count with
  | none => exact ⟨_, rfl⟩
  | some stop =>
      by_cases past : unreadable.data.length < stop
      · exact ⟨_, if_pos past⟩
      · obtain rfl : stop = 0 := by
          have none : unreadable.data.length = 0 := rfl
          omega
        exact ⟨_, rfl⟩

end BufferCursor

/-- Decoding under a projection where touching a pruned buffer fails. -/
def TransposeChunkDecoder.newGuarded (chunk : Chunk) (projection : Option FieldProjection) :
    Rust TransposeChunkDecoder := do
  let parsed ← parseHeaderAndBuckets ext chunk.data (activeProjectionOf projection)
  decodeParsed ext chunk projection
    { parsed with buffers := parsed.buffers.map BufferCursor.guarded }

variable {ext}

theorem TransposeChunkDecoder.newWithProjection_eq (chunk : Chunk)
    (projection : Option FieldProjection) :
    TransposeChunkDecoder.newWithProjection ext chunk projection = (do
      let parsed ← parseHeaderAndBuckets ext chunk.data (activeProjectionOf projection)
      decodeParsed ext chunk projection parsed) := rfl

end Riegeli
