/-
Module: Riegeli.Spec.CollectedTags
Purpose: What the transposed encoder holds after it has taken records apart:
  an index for every tag and a buffer for every node with data.
Trusted boundary: none
Main exports: Encoder.BackwardBuffer.ofChunks, TransposeChunkEncoder.Indexed,
  TransposeChunkEncoder.Collected, SameSettings
-/
import Riegeli.Spec.FieldTrees

namespace Riegeli

/-- A buffer that the chunks have been pushed to. -/
def Encoder.BackwardBuffer.ofChunks (chunks : List Bytes) : Encoder.BackwardBuffer :=
  { data := chunks.flatten, sizes := chunks.map List.length }

/-- The entry of the tags list that a tag is stored under. -/
def TagOp.info (op : TagOp) : EncodedTagInfo := EncodedTagInfo.new op.nodeId op.subtype

namespace TransposeChunkEncoder

/-- The node map leads to the entries of the tags list. -/
def Indexed (encoder : TransposeChunkEncoder) : Prop :=
  ∀ nodeId node subtype pos, encoder.messageNodes nodeId = some node →
    node.encodedTagPos subtype = some pos →
      encoder.tagsList[pos]? = some (EncodedTagInfo.new nodeId subtype)

/-- One list of buffers holds what the tags put into the nodes of its type. -/
structure HoldsChunks (bufType : BufferType) (ops : List TagOp)
    (buffers : List BufferWithMetadata) : Prop where
  distinct : (buffers.map BufferWithMetadata.nodeId).Nodup
  holds : ∀ buffer ∈ buffers, bufferTypeOf buffer.nodeId = bufType ∧
    chunksOf buffer.nodeId ops ≠ [] ∧
      buffer.data = Encoder.BackwardBuffer.ofChunks (chunksOf buffer.nodeId ops)
  complete : ∀ op ∈ ops, op.chunk ≠ [] → bufferTypeOf op.nodeId = bufType →
    op.nodeId ∈ buffers.map BufferWithMetadata.nodeId

/-- The encoder holds these tags and nothing else. -/
structure Collected (encoder : TransposeChunkEncoder) (ops : List TagOp) : Prop where
  canonical : ∀ op ∈ ops, op.Canonical
  indexed : encoder.Indexed
  known : ∀ info ∈ encoder.tagsList, ∃ op : TagOp, op.Canonical ∧ info = op.info ∧
    (op.chunk = [] ∨ op ∈ ops)
  tags : List.Forall₂ (fun index op => encoder.tagsList[index]? = some (TagOp.info op))
    encoder.encodedTags ops
  chunks : ∀ bufType, HoldsChunks bufType ops (encoder.data bufType)
  lengths : encoder.nonprotoLengths = Encoder.BackwardBuffer.ofChunks (lengthsOf ops)

/-- The settings and the counts are the same, and no tag is forgotten. -/
structure SameSettings (before after : TransposeChunkEncoder) : Prop where
  compression : after.compression = before.compression
  compressOpts : after.compressOpts = before.compressOpts
  bucketSize : after.bucketSize = before.bucketSize
  numRecords : after.numRecords = before.numRecords
  decodedDataSize : after.decodedDataSize = before.decodedDataSize
  tagsList : before.tagsList <+: after.tagsList

theorem SameSettings.refl (encoder : TransposeChunkEncoder) : SameSettings encoder encoder :=
  ⟨rfl, rfl, rfl, rfl, rfl, List.prefix_rfl⟩

theorem SameSettings.trans {first second third : TransposeChunkEncoder}
    (here : SameSettings first second) (later : SameSettings second third) :
    SameSettings first third :=
  ⟨later.compression.trans here.compression, later.compressOpts.trans here.compressOpts,
    later.bucketSize.trans here.bucketSize, later.numRecords.trans here.numRecords,
    later.decodedDataSize.trans here.decodedDataSize, here.tagsList.trans later.tagsList⟩

end TransposeChunkEncoder

end Riegeli
