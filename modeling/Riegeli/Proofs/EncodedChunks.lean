/-
Module: Riegeli.Proofs.EncodedChunks
Purpose: The chunk of an encoder, taken apart into what it was put together
  from: the buffers, the machine and the header.
Trusted boundary: the hash and the codecs
Main exports: ChunkParts, encode_parts, codecInputs, encode_fails,
  encode_succeeds
-/
import Riegeli.Proofs.HeaderParse
import Riegeli.Proofs.BufferOrder
import Riegeli.Proofs.StateMachineReplay

namespace Riegeli

variable {ext : Externals} {encoder : TransposeChunkEncoder} {ops : List TagOp}

variable (ext encoder ops) in
/-- What a chunk with these tags is put together from. -/
structure ChunkParts where
  ids : List NodeId
  sorted : SortedBuffers
  stateMachine : List StateInfo
  built : List EncodedTagInfo
  tags : List EncodedTagInfo
  entries : List StateEntry
  transitions : Bytes
  buckets : List Bytes
  lengthPrefixed : Bytes
  packed : Bytes
  filed : AllFiled ops ids sorted
  machine : MachineFor encoder.tagsList encoder.encodedTags sorted.bufferPos stateMachine built
    tags entries transitions
  bucketsRan : createCompressedBuckets ext encoder.compression encoder.compressOpts
    encoder.bucketSize sorted.groups = .ok buckets
  headerRan : compressLengthPrefixed ext
    (rawHeader buckets sorted.bufferSizes entries
      (firstTagPos encoder.encodedTags stateMachine)) encoder.compression encoder.compressOpts =
      .ok lengthPrefixed
  packedRan : compressWithPrefix ext transitions encoder.compression encoder.compressOpts =
    .ok packed

namespace ChunkParts

/-- The data of the chunk. -/
def data (parts : ChunkParts ext encoder ops) : Bytes :=
  [encoder.compression.toByte] ++ parts.lengthPrefixed ++ parts.buckets.flatten ++ parts.packed

/-- The chunk. -/
def chunk (parts : ChunkParts ext encoder ops) : Chunk :=
  { header := ChunkHeader.fromParts ext parts.data .transposed encoder.numRecords
      encoder.decodedDataSize
    data := parts.data }

end ChunkParts

/-- The counts of tags and transitions fit in the 32-bit indices of the format. -/
def TransposeChunkEncoder.FewTags (encoder : TransposeChunkEncoder) : Prop :=
  4 * (encoder.tagsList.length + distinctTransitions encoder.encodedTags) ≤ u32Max

theorem TransposeChunkEncoder.Collected.room (collected : encoder.Collected ops)
    (few : encoder.FewTags) : Room encoder.tagsList encoder.encodedTags where
  fresh := by
    intro info member
    obtain ⟨op, _, rfl, _⟩ := collected.known info member
    exact ⟨rfl, rfl, rfl, rfl, rfl⟩
  inside := by
    intro tag member
    obtain ⟨index, found⟩ := List.getElem?_of_mem member
    obtain ⟨op, _, there⟩ := forall₂_get collected.tags found
    exact (List.getElem?_eq_some_iff.mp there).1
  fits := few

section machine

variable {bufferPos : NodeId → Option Nat} {stateMachine : List StateInfo}
  {built tags : List EncodedTagInfo} {entries : List StateEntry} {transitions : Bytes}

/-- The tags of the machine are those of the encoder. -/
theorem MachineFor.sameLabels (machine : MachineFor encoder.tagsList encoder.encodedTags bufferPos
    stateMachine built tags entries transitions) : SameLabels tags encoder.tagsList :=
  (ensureLastStateExplicit_labels machine.explicit).trans
    (createStateMachine_labels machine.created)

/-- Every tag of the machine is one that the encoder has stored. -/
theorem MachineFor.known (machine : MachineFor encoder.tagsList encoder.encodedTags bufferPos
    stateMachine built tags entries transitions) (collected : encoder.Collected ops) :
    ∀ info ∈ tags, ∃ op : TagOp, op.Canonical ∧ info.label = (op.nodeId, op.subtype) ∧
      (op.chunk = [] ∨ op ∈ ops) := by
  intro info member
  obtain ⟨index, found⟩ := List.getElem?_of_mem member
  obtain ⟨other, there, sameNode, sameSubtype⟩ := machine.sameLabels.get found
  obtain ⟨op, canonical, rfl, stored⟩ := collected.known other (List.mem_of_getElem? there)
  exact ⟨op, canonical, Prod.ext sameNode.symm sameSubtype.symm, stored⟩

theorem MachineFor.entriesFor (machine : MachineFor encoder.tagsList encoder.encodedTags bufferPos
    stateMachine built tags entries transitions) (collected : encoder.Collected ops) :
    List.Forall₂ (fun state entry => EntryFor bufferPos (labelAt tags state) entry) stateMachine
      entries := by
  refine stateEntries_entryFor (fun info member => ?_) _ machine.written
  obtain ⟨op, canonical, same, _⟩ := machine.known collected info member
  obtain ⟨sameNode, sameSubtype⟩ := Prod.mk.inj same
  rw [show info.nodeId = op.nodeId from sameNode, show info.subtype = op.subtype from sameSubtype]
  exact TagOp.labelled canonical

end machine

variable (ext) in
/-- What `encode` hands to the codec: the data of the buckets, the transitions, and
the header once the buckets are compressed. -/
def TransposeChunkEncoder.codecInputs (self : TransposeChunkEncoder) : Rust (List Bytes) := do
  let sorted ← self.collectAndSortBuffers
  let (stateMachine, tags) ← createStateMachine self.tagsList self.encodedTags
  let tags ← ensureLastStateExplicit tags self.encodedTags
  let contents ←
    createCompressedBuckets ext .none self.compressOpts self.bucketSize sorted.groups
  let transitions ← buildTransitions tags self.encodedTags stateMachine
  match createCompressedBuckets ext self.compression self.compressOpts self.bucketSize
      sorted.groups with
  | .error _ => .ok (contents ++ [transitions])
  | .ok compressedBuckets => do
      let rawHeader ←
        buildHeader tags self.encodedTags compressedBuckets sorted.bufferSizes sorted.bufferPos
          stateMachine
      .ok (contents ++ [transitions, rawHeader])

variable (ext) in
/-- `encode` and what it hands to the codec, up to what the codecs do. -/
theorem encode_eq (collected : encoder.Collected ops) (few : encoder.FewTags) :
    ∃ ids sorted stateMachine built tags entries transitions,
      AllFiled ops ids sorted ∧
      MachineFor encoder.tagsList encoder.encodedTags sorted.bufferPos stateMachine built tags
        entries transitions ∧
      encoder.encode ext = (do
        let buckets ← createCompressedBuckets ext encoder.compression encoder.compressOpts
          encoder.bucketSize sorted.groups
        let packed ← compressWithPrefix ext transitions encoder.compression encoder.compressOpts
        let lengthPrefixed ← compressLengthPrefixed ext
          (rawHeader buckets sorted.bufferSizes entries
            (firstTagPos encoder.encodedTags stateMachine)) encoder.compression
          encoder.compressOpts
        let data := [encoder.compression.toByte] ++ lengthPrefixed ++ buckets.flatten ++ packed
        .ok
          { header := ChunkHeader.fromParts ext data .transposed encoder.numRecords
              encoder.decodedDataSize
            data := data }) ∧
      encoder.codecInputs ext = (do
        let contents ← createCompressedBuckets ext .none encoder.compressOpts encoder.bucketSize
          sorted.groups
        match createCompressedBuckets ext encoder.compression encoder.compressOpts
            encoder.bucketSize sorted.groups with
        | .error _ => .ok (contents ++ [transitions])
        | .ok buckets =>
            .ok (contents ++ [transitions, rawHeader buckets sorted.bufferSizes entries
              (firstTagPos encoder.encodedTags stateMachine)])) := by
  obtain ⟨sorted, ids, collectedRan, filed⟩ := collectAndSortBuffers_files collected
  obtain ⟨stateMachine, built, tags, entries, transitions, machine⟩ :=
    machine_for (collected.room few) sorted.bufferPos
  have counted := (machine.entriesFor collected).length_eq
  refine ⟨ids, sorted, stateMachine, built, tags, entries, transitions, filed, machine, ?_, ?_⟩
  · unfold TransposeChunkEncoder.encode
    rw [collectedRan, Except.ok_bind, machine.created, Except.ok_bind]
    simp only
    rw [machine.explicit, Except.ok_bind]
    refine bind_congr fun buckets => ?_
    rw [buildHeader_eq machine.written counted.symm, Except.ok_bind, machine.packed,
      Except.ok_bind]
  · unfold TransposeChunkEncoder.codecInputs
    rw [collectedRan, Except.ok_bind, machine.created, Except.ok_bind]
    simp only
    rw [machine.explicit, Except.ok_bind]
    refine bind_congr fun contents => ?_
    rw [machine.packed, Except.ok_bind]
    cases createCompressedBuckets ext encoder.compression encoder.compressOpts encoder.bucketSize
      sorted.groups with
    | error fault => rfl
    | ok buckets =>
        simp only
        rw [buildHeader_eq machine.written counted.symm, Except.ok_bind]

/-- A chunk that is encoded has its parts. -/
theorem encode_parts (collected : encoder.Collected ops) (few : encoder.FewTags) {chunk : Chunk}
    (encoded : encoder.encode ext = .ok chunk) :
    ∃ parts : ChunkParts ext encoder ops, chunk = parts.chunk := by
  obtain ⟨ids, sorted, stateMachine, built, tags, entries, transitions, filed, machine, same, _⟩ :=
    encode_eq ext collected few
  rw [same] at encoded
  obtain ⟨buckets, bucketsRan, encoded⟩ := Except.bind_eq_ok.mp encoded
  obtain ⟨packed, packedRan, encoded⟩ := Except.bind_eq_ok.mp encoded
  obtain ⟨lengthPrefixed, headerRan, encoded⟩ := Except.bind_eq_ok.mp encoded
  cases encoded
  exact ⟨⟨ids, sorted, stateMachine, built, tags, entries, transitions, buckets, lengthPrefixed,
    packed, filed, machine, bucketsRan, headerRan, packedRan⟩, rfl⟩

/-! ## Where encoding can fail -/

theorem compressWithPrefix_error {data : Bytes} {compression : CompressionType}
    {opts : CompressOptions} {fault : Fault}
    (failed : compressWithPrefix ext data compression opts = .error fault) :
    compressData ext data compression opts = .error fault := by
  unfold compressWithPrefix at failed
  cases ran : compressData ext data compression opts with
  | error other =>
      rw [ran] at failed
      cases failed
      rfl
  | ok compressed =>
      rw [ran, Except.ok_bind] at failed
      split at failed
      · cases failed
      · cases failed

theorem compressLengthPrefixed_error {data : Bytes} {compression : CompressionType}
    {opts : CompressOptions} {fault : Fault}
    (failed : compressLengthPrefixed ext data compression opts = .error fault) :
    compressData ext data compression opts = .error fault := by
  unfold compressLengthPrefixed at failed
  cases ran : compressData ext data compression opts with
  | error other =>
      rw [ran] at failed
      cases failed
      rfl
  | ok compressed =>
      rw [ran, Except.ok_bind] at failed
      split at failed
      · cases failed
      · cases failed

/-- Without compression the buckets are the data of the runs. -/
theorem compressRuns_none {opts : CompressOptions} (runs : List (List Bytes)) :
    runs.mapM (compressRun ext .none opts) = .ok (runs.map List.flatten) := by
  induction runs with
  | nil => rfl
  | cons run rest ih =>
      rw [List.mapM_cons, ih]
      rfl

/-- Encoding fails only where the codec refuses something it is handed. -/
theorem encode_fails (collected : encoder.Collected ops) (few : encoder.FewTags) {fault : Fault}
    (failed : encoder.encode ext = .error fault) :
    ∃ inputs data, encoder.codecInputs ext = .ok inputs ∧ data ∈ inputs ∧
      compressData ext data encoder.compression encoder.compressOpts = .error fault := by
  obtain ⟨ids, sorted, stateMachine, built, tags, entries, transitions, filed, machine, same,
    handed⟩ := encode_eq ext collected few
  obtain ⟨runs, _, created⟩ := @createCompressedBuckets_runs ext encoder.bucketSize sorted.groups
    fun group listed buffer member => filed.filled buffer (by
      rw [← filed.grouped]
      exact List.mem_flatten.mpr ⟨group, listed, member⟩)
  rw [created, compressRuns_none, Except.ok_bind] at handed
  rw [same] at failed
  cases bucketsRan : createCompressedBuckets ext encoder.compression encoder.compressOpts
      encoder.bucketSize sorted.groups with
  | error other =>
      rw [bucketsRan] at failed handed
      cases failed
      rw [created] at bucketsRan
      obtain ⟨run, member, refused⟩ := mapM_error bucketsRan
      exact ⟨_, run.flatten, handed, List.mem_append_left _ (List.mem_map_of_mem member),
        compressWithPrefix_error refused⟩
  | ok buckets =>
      rw [bucketsRan] at handed
      rw [bucketsRan, Except.ok_bind] at failed
      cases packedRan : compressWithPrefix ext transitions encoder.compression
          encoder.compressOpts with
      | error other =>
          rw [packedRan] at failed
          cases failed
          exact ⟨_, transitions, handed, List.mem_append_right _ List.mem_cons_self,
            compressWithPrefix_error packedRan⟩
      | ok packed =>
          rw [packedRan, Except.ok_bind] at failed
          cases headerRan : compressLengthPrefixed ext (rawHeader buckets sorted.bufferSizes entries
              (firstTagPos encoder.encodedTags stateMachine)) encoder.compression
              encoder.compressOpts with
          | error other =>
              rw [headerRan] at failed
              cases failed
              exact ⟨_, _, handed,
                List.mem_append_right _ (List.mem_cons_of_mem _ List.mem_cons_self),
                compressLengthPrefixed_error headerRan⟩
          | ok lengthPrefixed =>
              rw [headerRan] at failed
              cases failed

/-- Encoding succeeds when the codec takes what it is handed. -/
theorem encode_succeeds (collected : encoder.Collected ops) (few : encoder.FewTags)
    (takes : ∀ inputs, encoder.codecInputs ext = .ok inputs → ∀ data ∈ inputs,
      ∃ compressed, compressData ext data encoder.compression encoder.compressOpts =
        .ok compressed) :
    ∃ chunk, encoder.encode ext = .ok chunk := by
  cases encoded : encoder.encode ext with
  | ok chunk => exact ⟨chunk, rfl⟩
  | error fault =>
      obtain ⟨inputs, data, handed, member, refused⟩ := encode_fails collected few encoded
      obtain ⟨compressed, ran⟩ := takes inputs handed data member
      cases ran.symm.trans refused

end Riegeli
