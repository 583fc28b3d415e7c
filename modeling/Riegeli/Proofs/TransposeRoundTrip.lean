/-
Module: Riegeli.Proofs.TransposeRoundTrip
Purpose: The decoder of a transposed chunk hands over the records that were
  added to its encoder.
Trusted boundary: the hash and the codecs
Main exports: TransposeChunkEncoder.SizesFit, addRecords_collected,
  newUnpruned_encoded, transpose_roundTrip
-/
import Riegeli.Proofs.ChunkReplay
import Riegeli.Spec.PrunedBuffers

namespace Riegeli

variable {ext : Externals} {encoder : TransposeChunkEncoder} {ops : List TagOp}
  {records left : List Bytes}

namespace TransposeChunkEncoder

/-- The transitions of the machine for the tags of an encoder. -/
def transitionBytes (encoder : TransposeChunkEncoder) : Rust Bytes := do
  let (stateMachine, built) ← createStateMachine encoder.tagsList encoder.encodedTags
  let tags ← ensureLastStateExplicit built encoder.encodedTags
  buildTransitions tags encoder.encodedTags stateMachine

variable (ext) in
/-- The sizes and counts on the way from an encoder to its chunk fit in their
integer types. -/
structure SizesFit (encoder : TransposeChunkEncoder) (records : List Bytes) : Prop where
  total : (records.map List.length).sum + 10 * records.length ≤ u64Max
  counted : records.length < 2 ^ 56
  few : encoder.FewTags
  transitions : ∀ transitions, encoder.transitionBytes = .ok transitions →
    transitions.length ≤ u64Max
  data : ∀ chunk, encoder.encode ext = .ok chunk → chunk.data.length ≤ u64Max

/-- What a result must satisfy when it succeeds can be computed. -/
instance decidableOfOk {Value : Type} {result : Rust Value} {property : Value → Prop}
    [DecidablePred property] : Decidable (∀ value, result = .ok value → property value) :=
  match result with
  | .ok value => decidable_of_iff (property value)
      ⟨fun holds _ same => Except.ok.inj same ▸ holds, fun all => all value rfl⟩
  | .error _ => isTrue fun _ same => nomatch same

instance (encoder : TransposeChunkEncoder) : Decidable encoder.FewTags :=
  inferInstanceAs (Decidable (_ ≤ u32Max))

instance (encoder : TransposeChunkEncoder) (records : List Bytes) :
    Decidable (encoder.SizesFit ext records) :=
  decidable_of_iff
    ((records.map List.length).sum + 10 * records.length ≤ u64Max ∧ records.length < 2 ^ 56 ∧
      encoder.FewTags ∧
      (∀ transitions, encoder.transitionBytes = .ok transitions → transitions.length ≤ u64Max) ∧
      ∀ chunk, encoder.encode ext = .ok chunk → chunk.data.length ≤ u64Max)
    ⟨fun ⟨total, counted, few, transitions, data⟩ => ⟨total, counted, few, transitions, data⟩,
      fun sizes => ⟨sizes.total, sizes.counted, sizes.few, sizes.transitions, sizes.data⟩⟩

/-- The encoder has taken these records and nothing else. -/
structure Took (encoder : TransposeChunkEncoder) (ops : List TagOp) (records : List Bytes) :
    Prop where
  collected : encoder.Collected ops
  recordsOps : RecordsOps ops records
  numbered : encoder.Numbered
  spelled : SpelledRecords encoder.PathOf ops records
  numRecords : encoder.numRecords = records.length
  decodedDataSize : encoder.decodedDataSize = records.flatten.length

/-- Adding records succeeds, and keeps the settings. -/
theorem addRecords_took (records : List Bytes) :
    ∀ {encoder : TransposeChunkEncoder} {ops : List TagOp} {before : List Bytes},
      (∀ record ∈ records, record.length ≤ u32Max) → encoder.Took ops before →
      ∃ after ops', records.foldlM addRecord encoder = .ok after ∧
        after.Took ops' (before ++ records) ∧ after.compression = encoder.compression ∧
        after.compressOpts = encoder.compressOpts ∧ after.bucketSize = encoder.bucketSize := by
  induction records with
  | nil =>
      intro encoder ops before _ took
      rw [List.append_nil]
      exact ⟨encoder, ops, rfl, took, rfl, rfl, rfl⟩
  | cons record rest ih =>
      intro encoder ops before short took
      obtain ⟨here, later⟩ := List.forall_mem_cons.mp short
      obtain ⟨next, added, counts, stores⟩ := encoder.addRecord_collected
        (here.trans (show u32Max ≤ u64Max by decide))
      obtain ⟨more, recordOps, spelled, keeps, collects⟩ := stores here
      have tookNext : next.Took (ops ++ more) (before ++ [record]) := by
        refine ⟨collects ops took.collected, took.recordsOps.snoc recordOps,
          keeps.numbered took.numbered,
          (took.spelled.mono fun named => named.mono keeps).snoc spelled, ?_, ?_⟩
        · rw [counts.numRecords, took.numRecords, List.length_append, List.length_singleton]
        · rw [counts.decodedDataSize, took.decodedDataSize, List.flatten_append,
            List.flatten_singleton, List.length_append]
      obtain ⟨after, ops', ran, tookAfter, compression, compressOpts, bucketSize⟩ :=
        ih later tookNext
      refine ⟨after, ops', ?_, ?_, compression.trans counts.compression,
        compressOpts.trans counts.compressOpts, bucketSize.trans counts.bucketSize⟩
      · rw [List.foldlM_cons, added, Except.ok_bind, ran]
      · rw [List.append_cons]
        exact tookAfter

theorem new_took (compression : CompressionType) (opts : CompressOptions) (size : Nat) :
    (((new compression).withCompressOpts opts).withBucketSize size).Took [] [] :=
  ⟨new_collected compression opts size, .nil,
    ⟨Nat.lt_succ_self _, fun found => (nomatch found), fun found => (nomatch found)⟩, .nil, rfl, rfl⟩

end TransposeChunkEncoder

/-! ## What is decoded -/

theorem ChunkParts.transitionBytes (parts : ChunkParts ext encoder ops) :
    encoder.transitionBytes = .ok parts.transitions := by
  unfold TransposeChunkEncoder.transitionBytes
  rw [parts.machine.created, Except.ok_bind]
  simp only
  rw [parts.machine.explicit, Except.ok_bind, parts.machine.packed]

/-- Without pruning the decoder of a chunk holds what its projection leaves of the
records. -/
theorem newUnpruned_encoded (lawful : ext.Lawful) (took : encoder.Took ops records)
    (sizes : encoder.SizesFit ext records) {chunk : Chunk} (encoded : encoder.encode ext = .ok chunk)
    {projection : Option FieldProjection} {included : List Nat → FieldIncluded}
    {reads : NodeId → Bool}
    (includes : Includes ((activeProjectionOf projection).bind IncludeFieldMap.fromProjection)
      included) (hereditary : Hereditary included)
    (placed : PlacedRecords included reads ops records left)
    (whole : (activeProjectionOf projection).bind IncludeFieldMap.fromProjection = none →
      left.flatten.length = records.flatten.length) :
    TransposeChunkDecoder.newUnpruned ext chunk projection =
      .ok { data := left.flatten, limits := recordEnds 0 left, nextYield := 0 } := by
  obtain ⟨parts, rfl⟩ := encode_parts took.collected sizes.few encoded
  have fits : parts.Fits records :=
    ⟨took.recordsOps, sizes.total, sizes.data _ encoded, sizes.transitions _ parts.transitionBytes⟩
  obtain ⟨hdr, before, parsed⟩ := parts.parsed lawful took.collected sizes.few fits
  obtain ⟨nodes, built, buildRan, builds⟩ := parts.builds took.collected sizes.few
    ((activeProjectionOf projection).bind IncludeFieldMap.fromProjection).isSome before
  have lengthsIndex := builds.lengthsIndex parts took.collected
  have unpacked := decompressWithPrefix_compressWithPrefix lawful fits.transitions parts.packedRan
  have numRecords : parts.chunk.header.numRecords = records.length := by
    rw [← took.numRecords]
    exact ChunkHeader.numRecords_fromParts _ _ _ (by rw [took.numRecords]; exact sizes.counted)
  have decodedDataSize : parts.chunk.header.decodedDataSize = records.flatten.length :=
    took.decodedDataSize
  have decoded := parts.decodes took.collected fits builds includes hereditary placed
    placed.length_le whole
  unfold TransposeChunkDecoder.newUnpruned
  rw [show parseHeaderAndBuckets ext parts.chunk.data none = _ from parsed, Except.ok_bind]
  unfold decodeParsed
  simp only
  rw [buildRan, Except.ok_bind,
    show nonprotoLengthsIndexOf built.hasNonprotoOp (parts.header hdr).numBuffers = _
      from lengthsIndex, Except.ok_bind,
    show decompressWithPrefix ext (parts.header hdr).transitionsCompressed
      (parts.header hdr).compression = _ from unpacked, Except.ok_bind, numRecords, decodedDataSize]
  exact Except.bind_eq_ok.mpr ⟨_, decoded, rfl⟩

/-- A decoder over records that follow each other yields them. -/
theorem recordEnds_yields (records : List Bytes) :
    (ActiveDecoder.transposed
      { data := records.flatten, limits := recordEnds 0 records, nextYield := 0 }).Yields
        records := by
  have yields := transposed_yields records.flatten (recordEnds 0 records) []
    (recordEnds_ordered records (Nat.zero_add _).le)
  have slices : slicesBetween records.flatten 0 (recordEnds 0 records) = records :=
    slicesBetween_recordEnds records []
  rw [List.getLastD_nil, slices] at yields
  exact yields

/-! ## The round trip -/

/-- The tags of records leave everything when everything is included. -/
theorem RecordsOps.placed (recordsOps : RecordsOps ops records)
    (short : ∀ record ∈ records, record.length ≤ u32Max) :
    PlacedRecords (fun _ => .yes) (fun _ => true) ops records records := by
  induction recordsOps with
  | nil => exact .nil
  | @snoc before ops records record _ last ih =>
      obtain ⟨early, late⟩ := List.forall_mem_append.mp short
      refine (ih early).snoc ?_
      have here := late record List.mem_cons_self
      cases last with
      | @proto ops fields canonical spells =>
          have placed := PlacedRecord.proto canonical here (spells.placed [])
          rw [FieldTree.projected_all] at placed
          exact placed
      | nonProto filled _ => exact .nonProto filled here rfl

/-- The decoder of an encoded chunk yields the records of the encoder. -/
theorem transposed_encoded (lawful : ext.Lawful) (took : encoder.Took ops records)
    (short : ∀ record ∈ records, record.length ≤ u32Max) (sizes : encoder.SizesFit ext records)
    {chunk : Chunk} (encoded : encoder.encode ext = .ok chunk) :
    ∃ decoder, TransposeChunkDecoder.new ext chunk = .ok decoder ∧
      (ActiveDecoder.transposed decoder).Yields records := by
  have hereditary : Hereditary fun _ => .yes := fun _ _ _ none => nomatch none
  have decoded := @newUnpruned_encoded ext encoder ops records records lawful took sizes chunk
    encoded none _ _ rfl hereditary (took.recordsOps.placed short) fun _ => rfl
  exact ⟨_, decoded, recordEnds_yields records⟩

/-- What is added to the encoder of a transposed chunk is what its decoder hands
over, record by record and in order.  `encode` fails only where the codec refuses
something it is handed. -/
theorem transpose_roundTrip (lawful : ext.Lawful) (compression : CompressionType)
    (opts : CompressOptions) (bucketSize : Nat) (records : List Bytes)
    (short : ∀ record ∈ records, record.length < 2 ^ 32) :
    ∃ encoder, records.foldlM TransposeChunkEncoder.addRecord
        (((TransposeChunkEncoder.new compression).withCompressOpts opts).withBucketSize
          bucketSize) = .ok encoder ∧
      (encoder.SizesFit ext records →
        (∀ fault, encoder.encode ext = .error fault →
          ∃ inputs data, encoder.codecInputs ext = .ok inputs ∧ data ∈ inputs ∧
            compressData ext data compression opts = .error fault) ∧
        ∀ chunk, encoder.encode ext = .ok chunk →
          ∃ decoder, TransposeChunkDecoder.new ext chunk = .ok decoder ∧
            (ActiveDecoder.transposed decoder).Yields records) := by
  have short : ∀ record ∈ records, record.length ≤ u32Max :=
    fun record member => Nat.le_of_lt_succ (short record member)
  obtain ⟨encoder, ops, added, took, sameCompression, sameOpts, _⟩ :=
    TransposeChunkEncoder.addRecords_took records short
      (TransposeChunkEncoder.new_took compression opts bucketSize)
  rw [List.nil_append] at took
  refine ⟨encoder, added, fun sizes => ⟨fun fault failed => ?_, fun chunk encoded => ?_⟩⟩
  · obtain ⟨inputs, data, handed, member, refused⟩ :=
      encode_fails took.collected sizes.few failed
    rw [sameCompression, sameOpts] at refused
    exact ⟨inputs, data, handed, member, refused⟩
  · exact transposed_encoded lawful took short sizes encoded

/-- A message with a varint, one with a submessage, and bytes that are no message. -/
def mixedRecords : List Bytes := [[8, 150, 1], [10, 2, 8, 1], [255]]

/-- The encoder of `mixedRecords` with Snappy and buckets of two bytes. -/
def mixedEncoder : Rust TransposeChunkEncoder :=
  mixedRecords.foldlM TransposeChunkEncoder.addRecord
    (((TransposeChunkEncoder.new .snappy).withCompressOpts .default).withBucketSize 2)

theorem transpose_roundTrip_mixed :
    ∃ encoder chunk decoder, mixedEncoder = .ok encoder ∧
      encoder.encode snappyExternals = .ok chunk ∧
      TransposeChunkDecoder.new snappyExternals chunk = .ok decoder ∧
      (ActiveDecoder.transposed decoder).Yields mixedRecords := by
  have sizes : ∀ encoder, mixedEncoder = .ok encoder →
      encoder.SizesFit snappyExternals mixedRecords := by
    decide +kernel
  -- Everything the encoder hands over is within the codec's 60 bytes.
  have takes : ∀ encoder, mixedEncoder = .ok encoder →
      ∀ inputs, encoder.codecInputs snappyExternals = .ok inputs →
        ∀ data ∈ inputs, data.length ≤ 60 := by
    decide +kernel
  obtain ⟨encoder, added, roundTrip⟩ := transpose_roundTrip snappyExternals_lawful .snappy .default
    2 mixedRecords (by decide)
  obtain ⟨fails, decodes⟩ := roundTrip (sizes encoder added)
  cases encoded : encoder.encode snappyExternals with
  | error fault =>
      obtain ⟨inputs, data, handed, member, refused⟩ := fails fault encoded
      have compressed : compressData snappyExternals data .snappy .default =
          .ok (snappyLiteral data) :=
        congrArg ofResult (if_neg (Nat.not_lt.mpr (takes encoder added inputs handed data member)))
      cases compressed.symm.trans refused
  | ok chunk =>
      obtain ⟨decoder, opened, yields⟩ := decodes chunk encoded
      exact ⟨encoder, chunk, decoder, added, encoded, opened, yields⟩

end Riegeli
