/-
Module: Riegeli.Proofs.EmptyPathProjection
Purpose: A field with an empty path that asks for existence only is not
  ignored: it makes the decoder include everything.
Trusted boundary: the hash and the codecs
Main exports: FieldProjection.KeepsAll, ProjectsTo, keepsAll_encoded,
  emptyPath_ignored_iff
-/
import Riegeli.Proofs.ProjectedDecode
import Riegeli.Proofs.FieldParsing

namespace Riegeli

variable {ext : Externals} {encoder : TransposeChunkEncoder} {ops : List TagOp}
  {records left : List Bytes} {before after : List Field}

/-- The projection of these fields. -/
def FieldProjection.ofFields (fields : List Field) : FieldProjection := { fields := some fields }

/-- The projection with a field of empty path between its fields, of which only
the existence is asked for. -/
def FieldProjection.withEmptyPath (before after : List Field) : FieldProjection :=
  .ofFields (before ++ { path := [], existenceOnly := true } :: after)

/-- An empty path anywhere disables the include map. -/
theorem insertFields_emptyPath {fields : List Field} (empty : ∃ field ∈ fields, field.path = []) :
    ∀ map, IncludeFieldMap.insertFields fields map = none := by
  induction fields with
  | nil =>
      obtain ⟨_, impossible, _⟩ := empty
      exact absurd impossible List.not_mem_nil
  | cons field rest ih =>
      intro map
      rw [IncludeFieldMap.insertFields]
      split
      · rfl
      · rename_i filled
        refine ih ?_ _
        obtain ⟨other, member, none⟩ := empty
        rcases List.mem_cons.mp member with rfl | later
        · rw [none] at filled
          exact absurd rfl filled
        · exact ⟨other, later, none⟩

/-- The projection leaves nothing out: it lists no fields, or an empty path. -/
def FieldProjection.KeepsAll (projection : FieldProjection) : Prop :=
  ∀ fields, projection.fields = some fields → ∃ field ∈ fields, field.path = []

theorem FieldProjection.KeepsAll.fromProjection {projection : FieldProjection}
    (keeps : projection.KeepsAll) : IncludeFieldMap.fromProjection projection = none := by
  unfold IncludeFieldMap.fromProjection
  cases listed : projection.fields with
  | none => rfl
  | some fields =>
      rw [Option.bind_eq_bind, Option.bind_some, insertFields_emptyPath (keeps fields listed)]
      rfl

theorem keepsAll_withEmptyPath (before after : List Field) :
    (FieldProjection.withEmptyPath before after).KeepsAll := by
  intro fields listed
  cases listed
  exact ⟨_, List.mem_append_right _ List.mem_cons_self, rfl⟩

/-- Decoding the chunk under the projection hands over these records. -/
def ProjectsTo (ext : Externals) (chunk : Chunk) (projection : FieldProjection)
    (records : List Bytes) : Prop :=
  ∃ decoder, TransposeChunkDecoder.newWithProjection ext chunk (some projection) = .ok decoder ∧
    (ActiveDecoder.transposed decoder).Yields records

theorem ProjectsTo.unique {chunk : Chunk} {projection : FieldProjection}
    (decodes : ProjectsTo ext chunk projection records)
    (decodes' : ProjectsTo ext chunk projection left) : left = records := by
  obtain ⟨decoder, opened, yields⟩ := decodes
  obtain ⟨decoder', opened', yields'⟩ := decodes'
  cases opened.symm.trans opened'
  exact yields.unique yields'

/-- Records that a projection leaves as they are come out as they are. -/
theorem untouched_eq {projection : FieldProjection}
    (projected : List.Forall₂ (ProjectedRecord projection) records left)
    (untouched : ∀ record ∈ records, ProjectedRecord projection record record) :
    left = records := by
  induction projected with
  | nil => rfl
  | cons here _ ih =>
      obtain ⟨first, rest⟩ := List.forall_mem_cons.mp untouched
      rw [here.unique first, ih rest]

/-- With such a projection nothing is left out. -/
theorem keepsAll_encoded (lawful : ext.Lawful) (took : encoder.Took ops records)
    (short : ∀ record ∈ records, record.length ≤ u32Max) (sizes : encoder.SizesFit ext records)
    {chunk : Chunk} (encoded : encoder.encode ext = .ok chunk) {projection : FieldProjection}
    (keeps : projection.KeepsAll) : ProjectsTo ext chunk projection records := by
  cases active : projection.isAll with
  | true =>
      have unfiltered : activeProjectionOf (some projection) = none := by
        rw [activeProjectionOf, Option.filter, active]
        rfl
      obtain ⟨decoder, opened, yields⟩ := transposed_encoded lawful took short sizes encoded
      refine ⟨decoder, ?_, yields⟩
      unfold TransposeChunkDecoder.newWithProjection
      rw [unfiltered]
      exact opened
  | false =>
      have mapped : (activeProjectionOf (some projection)).bind
          IncludeFieldMap.fromProjection = none := by
        rw [activeProjectionOf_some active, Option.bind_some, keeps.fromProjection]
      have hereditary : Hereditary fun _ => .yes := fun _ _ _ impossible => by cases impossible
      have decoded := @newUnpruned_encoded ext encoder ops records records lawful took sizes chunk
        encoded (some projection) _ _ (by rw [mapped]; rfl) hereditary
        (took.recordsOps.placed short) fun _ => rfl
      obtain ⟨fields, listed⟩ : ∃ fields, projection.fields = some fields := by
        cases listed : projection.fields with
        | some fields => exact ⟨fields, rfl⟩
        | none =>
            rw [FieldProjection.isAll, listed] at active
            cases active
      exact ⟨_, newWithProjection_of_unpruned listed active decoded, recordEnds_yields records⟩

/-- The field of empty path changes nothing just where the projection leaves
every record as it is. -/
theorem emptyPath_ignored_iff (lawful : ext.Lawful) (compression : CompressionType)
    (opts : CompressOptions) (bucketSize : Nat) (records : List Bytes)
    (short : ∀ record ∈ records, record.length < 2 ^ 32) (encoder : TransposeChunkEncoder)
    (added : records.foldlM TransposeChunkEncoder.addRecord
      (((TransposeChunkEncoder.new compression).withCompressOpts opts).withBucketSize bucketSize) =
        .ok encoder)
    (sizes : encoder.SizesFit ext records) (chunk : Chunk)
    (encoded : encoder.encode ext = .ok chunk) (before after : List Field)
    (named : (FieldProjection.ofFields (before ++ after)).Named (before ++ after)) :
    (∀ left, ProjectsTo ext chunk (.withEmptyPath before after) left ↔
        ProjectsTo ext chunk (.ofFields (before ++ after)) left) ↔
      ∀ record ∈ records, ProjectedRecord (.ofFields (before ++ after)) record record := by
  have short : ∀ record ∈ records, record.length ≤ u32Max :=
    fun record member => Nat.le_of_lt_succ (short record member)
  obtain ⟨last, ops, ran, took, _⟩ :=
    TransposeChunkEncoder.addRecords_took records short
      (TransposeChunkEncoder.new_took compression opts bucketSize)
  cases ran.symm.trans added
  rw [List.nil_append] at took
  have all := keepsAll_encoded lawful took short sizes encoded (keepsAll_withEmptyPath before after)
  obtain ⟨decoder, left, opened, yields, projected⟩ :=
    projected_encoded lawful took short sizes encoded named
  have decodes : ProjectsTo ext chunk (.ofFields (before ++ after)) left := ⟨decoder, opened, yields⟩
  constructor
  · intro same record member
    obtain rfl := decodes.unique ((same records).mp all)
    exact List.forall₂_same.mp projected record member
  · intro untouched other
    obtain rfl := untouched_eq projected untouched
    constructor
    · intro decodes'
      obtain rfl := all.unique decodes'
      exact decodes
    · intro decodes'
      obtain rfl := decodes.unique decodes'
      exact all

/-- The chunk of one record, with the two fields in a buffer each. -/
def twoFieldsChunk : Chunk :=
  { header :=
      ChunkHeader.fromParts storingExternals
        [0, 17, 2, 2, 2, 2, 2, 2, 3, 3, 8, 18, 0, 3, 4, 1, 0, 1, 2, 22, 1, 1, 66] .transposed 1 6
    data := [0, 17, 2, 2, 2, 2, 2, 2, 3, 3, 8, 18, 0, 3, 4, 1, 0, 1, 2, 22, 1, 1, 66] }

theorem twoFieldsChunk_encoded :
    (do let encoder ← [[8, 150, 1, 18, 1, 66]].foldlM TransposeChunkEncoder.addRecord
          (((TransposeChunkEncoder.new .none).withCompressOpts .default).withBucketSize 2)
        encoder.encode storingExternals) = .ok twoFieldsChunk := by
  decide +kernel

theorem emptyPath_ignored_iff_twoFields :
    (∀ left, ProjectsTo storingExternals twoFieldsChunk
          (.withEmptyPath [{ path := [1], existenceOnly := false }] []) left ↔
        ProjectsTo storingExternals twoFieldsChunk
          (.ofFields ([{ path := [1], existenceOnly := false }] ++ [])) left) ↔
      ∀ record ∈ [[8, 150, 1, 18, 1, 66]],
        ProjectedRecord (.ofFields ([{ path := [1], existenceOnly := false }] ++ [])) record
          record := by
  have sizes : ∀ encoder, [[8, 150, 1, 18, 1, 66]].foldlM TransposeChunkEncoder.addRecord
      (((TransposeChunkEncoder.new .none).withCompressOpts .default).withBucketSize 2) =
        .ok encoder → encoder.SizesFit storingExternals [[8, 150, 1, 18, 1, 66]] := by
    decide +kernel
  obtain ⟨encoder, added, encoded⟩ := Except.bind_eq_ok.mp twoFieldsChunk_encoded
  exact emptyPath_ignored_iff storingExternals_lawful .none .default 2 [[8, 150, 1, 18, 1, 66]]
    (by decide) encoder added (sizes encoder added) twoFieldsChunk encoded
    [{ path := [1], existenceOnly := false }] [] ⟨rfl, by decide, by decide⟩

/-- The field of empty path brings back the field that was left out. -/
theorem emptyPath_ignored_fails :
    (do let encoder ← [[8, 150, 1, 18, 1, 66]].foldlM TransposeChunkEncoder.addRecord
          (((TransposeChunkEncoder.new .none).withCompressOpts .default).withBucketSize 2)
        encoder.encode storingExternals) = .ok twoFieldsChunk ∧
      ¬ ∀ left, ProjectsTo storingExternals twoFieldsChunk
          (.withEmptyPath [{ path := [1], existenceOnly := false }] []) left ↔
        ProjectsTo storingExternals twoFieldsChunk
          (.ofFields [{ path := [1], existenceOnly := false }]) left := by
  refine ⟨twoFieldsChunk_encoded, fun ignored => ?_⟩
  have projected : ProjectsTo storingExternals twoFieldsChunk
      (.ofFields [{ path := [1], existenceOnly := false }]) [[8, 150, 1]] :=
    ⟨{ data := [8, 150, 1], limits := [3], nextYield := 0 }, by decide +kernel, _, rfl, rfl⟩
  have whole : ProjectsTo storingExternals twoFieldsChunk
      (.withEmptyPath [{ path := [1], existenceOnly := false }] []) [[8, 150, 1, 18, 1, 66]] :=
    ⟨{ data := [8, 150, 1, 18, 1, 66], limits := [6], nextYield := 0 }, by decide +kernel, _, rfl,
      rfl⟩
  exact absurd (whole.unique ((ignored _).mpr projected)) (by decide)

end Riegeli
