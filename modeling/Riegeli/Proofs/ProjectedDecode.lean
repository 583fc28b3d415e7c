/-
Module: Riegeli.Proofs.ProjectedDecode
Purpose: Decoding an encoded chunk under a projection leaves of every record
  what the projected paths say.
Trusted boundary: the hash and the codecs
Main exports: nodeReads, SpelledRecords.placed, projected_encoded,
  projection_rewrites
-/
import Riegeli.Proofs.TransposeRoundTrip
import Riegeli.Proofs.FieldRewriting
import Riegeli.Proofs.BufferPruning

namespace Riegeli

variable {ext : Externals} {encoder : TransposeChunkEncoder} {ops : List TagOp}
  {records left : List Bytes} {included : List Nat → FieldIncluded}

/-! ## Buffers that are read -/

/-- A projected decode reads the buffer of the node: it holds whole records, or a
field whose path is included. -/
def NodeIncluded (encoder : TransposeChunkEncoder) (included : List Nat → FieldIncluded)
    (nodeId : NodeId) : Prop :=
  nodeId = TransposeChunkEncoder.nonProtoNode ∨
    ∃ path, encoder.PathOf nodeId.parentMessageId path ∧
      included (path ++ [tagFieldNumber nodeId.tag]) = .yes

open Classical in
/-- The nodes whose buffers are read. -/
noncomputable def nodeReads (encoder : TransposeChunkEncoder)
    (included : List Nat → FieldIncluded) (nodeId : NodeId) : Bool :=
  decide (NodeIncluded encoder included nodeId)

open Classical in
theorem nodeReads_iff {nodeId : NodeId} :
    nodeReads encoder included nodeId = true ↔ NodeIncluded encoder included nodeId := by
  rw [nodeReads, decide_eq_true_iff]

/-- The buffer of a field is read where its path is included. -/
theorem nodeReads_leaf (numbered : encoder.Numbered) {parent : Nat} {path : List Nat}
    (named : encoder.PathOf parent path) {field : FieldLeaf} (canonical : field.Canonical) :
    nodeReads encoder included (TagOp.leaf parent field).nodeId = true ↔
      included (path ++ [field.number]) = .yes := by
  have valid : FieldNumber field.number := by
    cases field <;> exact canonical.1
  have number : tagFieldNumber (TagOp.leaf parent field).nodeId.tag = field.number :=
    tagFieldNumber_tag _ _
  rw [nodeReads_iff]
  constructor
  · rintro (whole | ⟨other, named', included'⟩)
    · have tag : field.number * 8 + field.wireType.toNat = 0 := congrArg NodeId.tag whole
      have positive := valid.1
      omega
    · rw [number, ← numbered.path_unique named named'] at included'
      exact included'
  · intro included'
    exact .inr ⟨path, named, by rw [number]; exact included'⟩

/-- The tags of a message are placed where its parents have paths. -/
theorem SpelledAt.placed (numbered : encoder.Numbered) {path : List Nat} {tree : FieldTree}
    (spelled : SpelledAt encoder.PathOf path ops tree) (canonical : tree.Canonical) :
    Placed included (nodeReads encoder included) path ops tree := by
  induction spelled with
  | nil => exact .nil
  | leaf named _ ih => exact .leaf (nodeReads_leaf numbered named canonical.1) (ih canonical.2)
  | submessage _ _ inside after =>
      exact .submessage (inside canonical.2.2.1) (after canonical.2.2.2)
  | group _ _ inside after => exact .group (inside canonical.2.1) (after canonical.2.2)

/-- The tags of records that were taken apart are placed, and leave of each
record what the projection says. -/
theorem SpelledRecords.placed {projection : FieldProjection} {fields : List Field}
    (listed : projection.fields = some fields) (numbered : encoder.Numbered)
    (spelled : SpelledRecords encoder.PathOf ops records)
    (short : ∀ record ∈ records, record.length ≤ u32Max) :
    ∃ left, PlacedRecords projection.included (nodeReads encoder projection.included) ops records
        left ∧ List.Forall₂ (ProjectedRecord projection) records left := by
  induction spelled with
  | nil => exact ⟨[], .nil, .nil⟩
  | @snoc before ops records record _ last ih =>
      obtain ⟨early, late⟩ := List.forall_mem_append.mp short
      have here := late record List.mem_cons_self
      obtain ⟨left, placed, projected⟩ := ih early
      cases last with
      | @proto ops fields valid canonical decomposed spelled =>
          have leaves := FieldTree.rewritten_eq listed fields []
          refine ⟨left ++ [fields.rewritten projection []], placed.snoc ?_,
            List.rel_append projected (.cons (.proto valid canonical decomposed) .nil)⟩
          rw [leaves]
          exact .proto canonical here (spelled.placed numbered canonical)
      | nonProto invalid filled =>
          refine ⟨left ++ [record], placed.snoc (.nonProto filled here ?_),
            List.rel_append projected (.cons (.nonProto invalid) .nil)⟩
          exact nodeReads_iff.mpr (.inl rfl)

/-! ## The decode -/

/-- The paths of a projection: none is empty, and their field numbers fit the
32-bit identifiers of the include map. -/
structure FieldProjection.Named (projection : FieldProjection) (fields : List Field) : Prop where
  listed : projection.fields = some fields
  named : ∀ field ∈ fields, field.path ≠ []
  small : (fields.map fun field => field.path.length).sum < 2 ^ 32

theorem FieldProjection.Named.isAll {projection : FieldProjection} {fields : List Field}
    (named : projection.Named fields) : projection.isAll = false := by
  rw [FieldProjection.isAll, named.listed]
  refine List.any_eq_false.mpr fun field member => ?_
  rw [List.isEmpty_eq_false_iff.mpr (named.named field member), Bool.false_and]
  exact Bool.false_ne_true

theorem activeProjectionOf_some {projection : FieldProjection} (active : projection.isAll = false) :
    activeProjectionOf (some projection) = some projection := by
  rw [activeProjectionOf, Option.filter, active]
  rfl

/-- The decoder of an encoded chunk yields what the projection leaves of the
records. -/
theorem projected_encoded (lawful : ext.Lawful) (took : encoder.Took ops records)
    (short : ∀ record ∈ records, record.length ≤ u32Max) (sizes : encoder.SizesFit ext records)
    {chunk : Chunk} (encoded : encoder.encode ext = .ok chunk) {projection : FieldProjection}
    {fields : List Field} (named : projection.Named fields) :
    ∃ decoder left, TransposeChunkDecoder.newWithProjection ext chunk (some projection) =
        .ok decoder ∧
      (ActiveDecoder.transposed decoder).Yields left ∧
      List.Forall₂ (ProjectedRecord projection) records left := by
  obtain ⟨left, placed, projected⟩ := took.spelled.placed named.listed took.numbered short
  obtain ⟨includeMap, built, includes⟩ :=
    IncludeFieldMap.includes_fromProjection named.listed named.named (Nat.le_of_lt_succ named.small)
  have mapped : (activeProjectionOf (some projection)).bind IncludeFieldMap.fromProjection =
      some includeMap := by
    rw [activeProjectionOf_some named.isAll, Option.bind_some, built]
  have decoded := @newUnpruned_encoded ext encoder ops records left lawful took sizes chunk encoded
    (some projection) projection.included (nodeReads encoder projection.included)
    (by rw [mapped]; exact includes) projection.included_hereditary placed
    (by rw [mapped]; exact (nomatch ·))
  exact ⟨_, left, newWithProjection_of_unpruned named.listed named.isAll decoded,
    recordEnds_yields left, projected⟩

/-- Decoding under a projection rewrites every record by the projected paths. -/
theorem projection_rewrites (lawful : ext.Lawful) (compression : CompressionType)
    (opts : CompressOptions) (bucketSize : Nat) (records : List Bytes)
    (short : ∀ record ∈ records, record.length < 2 ^ 32) (encoder : TransposeChunkEncoder)
    (added : records.foldlM TransposeChunkEncoder.addRecord
      (((TransposeChunkEncoder.new compression).withCompressOpts opts).withBucketSize bucketSize) =
        .ok encoder)
    (sizes : encoder.SizesFit ext records) (chunk : Chunk)
    (encoded : encoder.encode ext = .ok chunk) (projection : FieldProjection) (fields : List Field)
    (named : projection.Named fields) :
    ∃ decoder left, TransposeChunkDecoder.newWithProjection ext chunk (some projection) =
        .ok decoder ∧
      (ActiveDecoder.transposed decoder).Yields left ∧
      List.Forall₂ (ProjectedRecord projection) records left := by
  have short : ∀ record ∈ records, record.length ≤ u32Max :=
    fun record member => Nat.le_of_lt_succ (short record member)
  obtain ⟨after, ops, ran, took, _⟩ :=
    TransposeChunkEncoder.addRecords_took records short
      (TransposeChunkEncoder.new_took compression opts bucketSize)
  cases ran.symm.trans added
  rw [List.nil_append] at took
  exact projected_encoded lawful took short sizes encoded named

/-- The first field of a submessage, and the existence of the first field. -/
def nestedProjection : FieldProjection :=
  { fields := some [{ path := [1, 1], existenceOnly := false },
      { path := [2], existenceOnly := true }] }

/-- A message with a submessage and a varint, and bytes that are no message. -/
def nestedRecords : List Bytes := [[10, 4, 8, 1, 16, 2, 16, 150, 1], [255]]

theorem projection_rewrites_nested :
    ∃ encoder chunk decoder left, nestedRecords.foldlM TransposeChunkEncoder.addRecord
        (((TransposeChunkEncoder.new .none).withCompressOpts .default).withBucketSize 2) =
          .ok encoder ∧
      encoder.encode storingExternals = .ok chunk ∧
      TransposeChunkDecoder.newWithProjection storingExternals chunk (some nestedProjection) =
        .ok decoder ∧
      (ActiveDecoder.transposed decoder).Yields left ∧
      List.Forall₂ (ProjectedRecord nestedProjection) nestedRecords left := by
  have short : ∀ record ∈ nestedRecords, record.length < 2 ^ 32 := by decide
  have sizes : ∀ encoder, nestedRecords.foldlM TransposeChunkEncoder.addRecord
      (((TransposeChunkEncoder.new .none).withCompressOpts .default).withBucketSize 2) =
        .ok encoder → encoder.SizesFit storingExternals nestedRecords := by
    decide +kernel
  obtain ⟨encoder, ops, added, took, compression, _⟩ :=
    TransposeChunkEncoder.addRecords_took nestedRecords
      (fun record member => Nat.le_of_lt_succ (short record member))
      (TransposeChunkEncoder.new_took .none .default 2)
  obtain ⟨chunk, encoded⟩ := @encode_succeeds storingExternals encoder ops took.collected
    (sizes encoder added).few fun _ _ data _ => by
      rw [compression]
      exact ⟨data, rfl⟩
  obtain ⟨decoder, left, opened, yields, projected⟩ := projection_rewrites storingExternals_lawful
    .none .default 2 nestedRecords short encoder added (sizes encoder added) chunk encoded
    nestedProjection _ ⟨rfl, by decide, by decide⟩
  exact ⟨encoder, chunk, decoder, left, added, encoded, opened, yields, projected⟩

end Riegeli
