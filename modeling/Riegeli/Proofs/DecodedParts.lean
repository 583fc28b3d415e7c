/-
Module: Riegeli.Proofs.DecodedParts
Purpose: The decoder builds from a chunk the machine that its encoder stored,
  and sets it on the buffers that hold the values of its tags.
Trusted boundary: the hash and the codecs
Main exports: ChunkParts.parsed, ChunkParts.builds, ChunkParts.decodes
-/
import Riegeli.Proofs.EncodedChunks
import Riegeli.Proofs.RecordLimits

namespace Riegeli

variable {ext : Externals} {encoder : TransposeChunkEncoder} {ops : List TagOp}
  {records : List Bytes}

/-- The tags hold the records, and the sizes on the way to a chunk fit in 64 bits. -/
structure ChunkParts.Fits (parts : ChunkParts ext encoder ops) (records : List Bytes) : Prop where
  recordsOps : RecordsOps ops records
  total : (records.map List.length).sum + 10 * records.length ≤ u64Max
  data : parts.data.length ≤ u64Max
  transitions : parts.transitions.length ≤ u64Max

/-- What the decoder parses, with the header read up to the buffer indices. -/
def ChunkParts.header (parts : ChunkParts ext encoder ops) (hdr : BufferCursor) : ParsedHeader where
  buffers := parts.sorted.allBuffers.map BufferCursor.new
  numStates := parts.entries.length
  tags := parts.entries.map StateEntry.tag
  nextNodeIndices := parts.entries.map StateEntry.base
  subtypesBytes := (parts.entries.filterMap StateEntry.subtype).map UInt8.ofNat
  hdr := hdr
  numBuffers := parts.sorted.allBuffers.length
  compression := encoder.compression
  transitionsCompressed := parts.packed

/-- The bytes of the header from the buffer indices on. -/
def ChunkParts.indices (parts : ChunkParts ext encoder ops) : Bytes :=
  (parts.entries.filterMap StateEntry.bufferIndex).flatMap encodeU32

/-- The position of the first node. -/
def ChunkParts.firstNode (parts : ChunkParts ext encoder ops) : Nat :=
  firstTagPos encoder.encodedTags parts.stateMachine

variable (parts : ChunkParts ext encoder ops)

theorem ChunkParts.length_entries (collected : encoder.Collected ops) :
    parts.entries.length = parts.stateMachine.length :=
  (parts.machine.entriesFor collected).length_eq.symm

theorem ChunkParts.few_buffers (collected : encoder.Collected ops) (few : encoder.FewTags) :
    parts.sorted.allBuffers.length ≤ u32Max := by
  have buffers := parts.filed.length_le collected
  unfold TransposeChunkEncoder.FewTags at few
  unfold u32Max at few ⊢
  omega

/-- The decoder finds the parts in the data of the chunk. -/
theorem ChunkParts.parsed (lawful : ext.Lawful) (collected : encoder.Collected ops)
    (few : encoder.FewTags) (fits : parts.Fits records) :
    ∃ hdr : BufferCursor, hdr.Before (parts.indices ++ encodeU32 parts.firstNode) ∧
      parseHeaderAndBuckets ext parts.data none = .ok (parts.header hdr) := by
  have grouped := parts.filed.grouped
  have entriesFor := List.forall₂_map_left_iff.mpr (parts.machine.entriesFor collected)
  have sizes := parts.filed.sizes
  have headerRan := parts.headerRan
  rw [sizes, ← grouped] at headerRan
  obtain ⟨hdr, before, parsed⟩ := @parseHeaderAndBuckets_data ext parts.sorted.bufferPos lawful
    encoder.compression encoder.compressOpts encoder.bucketSize parts.sorted.groups parts.buckets
    (parts.stateMachine.map (labelAt parts.tags)) parts.entries parts.firstNode
    parts.lengthPrefixed parts.packed
    (by rw [grouped]; exact parts.filed.filled)
    (by rw [grouped]; exact (parts.filed.total_le fits.recordsOps).trans fits.total)
    (by rw [grouped]; exact parts.few_buffers collected few) parts.bucketsRan entriesFor
    (by rw [parts.length_entries collected]; exact parts.machine.size) parts.machine.based headerRan
    fits.data
  rw [grouped] at parsed
  exact ⟨hdr, before, parsed⟩

/-! ## Buffers of labels -/

/-- A tag whose node has a buffer stores something. -/
theorem TagOp.chunk_of_hasDataBuffer {op : TagOp} (canonical : op.Canonical)
    (label : FieldLabel op.nodeId.tag op.subtype)
    (buffered : hasDataBuffer op.nodeId.tag op.subtype = true) : op.chunk ≠ [] := by
  have least := label.tag_ge
  have typed {number : Nat} {wireType : WireType} :=
    tagWireType_tag number wireType
  unfold hasDataBuffer at buffered
  cases op with
  | startOfMessage => exact absurd least (by decide)
  | nonProto record => exact absurd least (show ¬ 8 ≤ 0 by decide)
  | leaf parent field =>
      cases field with
      | varint number value =>
          rw [show tagWireType (TagOp.leaf parent (.varint number value)).nodeId.tag = some .varint
            from typed] at buffered
          have stored := of_decide_eq_true buffered
          have large : ¬ value ≤ maxVarintInline := by
            intro small
            rw [show (TagOp.leaf parent (.varint number value)).subtype =
              Subtype.varintInline0 + value from if_pos small] at stored
            omega
          rw [show (TagOp.leaf parent (.varint number value)).chunk =
            (encodeU64 value).map stripped from if_neg large]
          exact List.ne_nil_of_length_pos (by rw [List.length_map]; exact encodeU64_length_pos _)
      | fixed32 number bytes =>
          refine List.ne_nil_of_length_pos ?_
          rw [show (TagOp.leaf parent (.fixed32 number bytes)).chunk.length = 4 from canonical.2]
          decide
      | fixed64 number bytes =>
          refine List.ne_nil_of_length_pos ?_
          rw [show (TagOp.leaf parent (.fixed64 number bytes)).chunk.length = 8 from canonical.2]
          decide
      | string number bytes =>
          refine List.ne_nil_of_length_pos ?_
          change 0 < (encodeU32 bytes.length ++ bytes).length
          rw [List.length_append]
          exact Nat.add_pos_left (encodeU64_length_pos _) _
  | startOfSubmessage parent number =>
      rw [show tagWireType (TagOp.startOfSubmessage parent number).nodeId.tag = _ from typed]
        at buffered
      cases buffered
  | endOfSubmessage parent number =>
      rw [show tagWireType (TagOp.endOfSubmessage parent number).nodeId.tag = _ from typed]
        at buffered
      cases buffered
  | startGroup parent number =>
      rw [show tagWireType (TagOp.startGroup parent number).nodeId.tag = _ from typed] at buffered
      cases buffered
  | endGroup parent number =>
      rw [show tagWireType (TagOp.endGroup parent number).nodeId.tag = _ from typed] at buffered
      cases buffered

/-- Only records that are no messages have their node. -/
theorem TagOp.nonProto_of_node {op : TagOp} (canonical : op.Canonical)
    (same : op.nodeId = TransposeChunkEncoder.nonProtoNode) : ∃ record, op = .nonProto record := by
  have tag : op.nodeId.tag = 0 := congrArg NodeId.tag same
  cases op with
  | startOfMessage => cases same
  | nonProto record => exact ⟨record, rfl⟩
  | leaf parent field =>
      have least := (FieldLeaf.labelled canonical).tag_ge
      change field.number * 8 + field.wireType.toNat = 0 at tag
      omega
  | startOfSubmessage parent number | endOfSubmessage parent number =>
      change number * 8 + 2 = 0 at tag
      omega
  | startGroup parent number =>
      change number * 8 + 3 = 0 at tag
      omega
  | endGroup parent number =>
      change number * 8 + 4 = 0 at tag
      omega

/-- The buffer of a tag is at its place. -/
theorem ChunkParts.placedAt {op : TagOp} (member : op ∈ ops) :
    PlacedAt parts.sorted.bufferPos parts.ids op := by
  intro filled
  have listed := parts.filed.complete op member filled
  refine ⟨listed, ?_⟩
  rw [parts.filed.places, if_pos listed]
  rfl

theorem ChunkParts.place_lt {op : TagOp} (member : op ∈ ops) (filled : op.chunk ≠ []) :
    (parts.sorted.bufferPos op.nodeId).getD 0 < parts.sorted.allBuffers.length := by
  obtain ⟨listed, place⟩ := parts.placedAt member filled
  have inside := List.idxOf_lt_length_iff.mpr listed
  rw [place, parts.filed.length]
  omega

/-- The label of an entry is that of a tag, and the tag is stored if it has a
chunk. -/
theorem ChunkParts.entry_label (collected : encoder.Collected ops) {entry : StateEntry}
    (member : entry ∈ parts.entries) :
    ∃ label, EntryFor parts.sorted.bufferPos label entry ∧
      ∀ nodeId subtype, label = some (nodeId, subtype) → ∃ op : TagOp, op.Canonical ∧
        op.nodeId = nodeId ∧ op.subtype = subtype ∧ (op.chunk = [] ∨ op ∈ ops) := by
  obtain ⟨state, _, entryFor⟩ := forall₂_left (parts.machine.entriesFor collected) member
  refine ⟨_, entryFor, fun nodeId subtype labelled => ?_⟩
  unfold labelAt at labelled
  split at labelled
  · cases labelled
  · obtain ⟨info, found, same⟩ := Option.map_eq_some_iff.mp labelled
    obtain ⟨op, canonical, label, stored⟩ :=
      parts.machine.known collected info (List.mem_of_getElem? found)
    obtain ⟨sameNode, sameSubtype⟩ := Prod.mk.inj (label.symm.trans same)
    exact ⟨op, canonical, sameNode, sameSubtype, stored⟩

/-- Every buffer index in the header is one of a buffer. -/
theorem ChunkParts.bufferIndex_lt (collected : encoder.Collected ops) {entry : StateEntry}
    (member : entry ∈ parts.entries) {place : Nat} (indexed : entry.bufferIndex = some place) :
    place < parts.sorted.allBuffers.length := by
  obtain ⟨label, entryFor, known⟩ := parts.entry_label collected member
  cases entryFor with
  | noOp base => cases indexed
  | startOfMessage base => cases indexed
  | nonProto base =>
      obtain ⟨op, canonical, sameNode, _, stored⟩ := known _ _ rfl
      obtain ⟨record, rfl⟩ := TagOp.nonProto_of_node canonical sameNode
      obtain rfl := Option.some.inj indexed
      exact parts.place_lt (stored.resolve_left canonical.1) canonical.1
  | startOfSubmessage base valid => cases indexed
  | @field parent tag subtype base label =>
      obtain ⟨op, canonical, sameNode, rfl, stored⟩ := known _ _ rfl
      obtain rfl : op.nodeId.tag = tag := congrArg NodeId.tag sameNode
      by_cases buffered : hasDataBuffer op.nodeId.tag op.subtype = true
      · have filled := TagOp.chunk_of_hasDataBuffer canonical label buffered
        rw [if_pos buffered] at indexed
        obtain rfl := Option.some.inj indexed
        rw [← sameNode]
        exact parts.place_lt (stored.resolve_left filled) filled
      · rw [if_neg buffered] at indexed
        cases indexed

/-! ## The machine -/

/-- What the decoder builds: the nodes of the states, and the failure nodes after
them. -/
structure ChunkParts.Builds (projecting : Bool) (nodes : List StateMachineNode)
    (built : BuiltStateMachine) : Prop where
  appended : built.nodes = nodes ++ failureNodes
  leads : NodesOf parts.entries nodes
  stateNodes : List.Forall₂
    (fun state => StateNode parts.sorted.bufferPos projecting built.nodeTemplates
      (labelAt parts.tags state)) parts.stateMachine nodes
  firstNode : built.firstNode = parts.firstNode
  nonProto : built.hasNonprotoOp =
    parts.entries.any fun entry => decide (entry.tag = MessageId.nonProto)

theorem ChunkParts.builds (collected : encoder.Collected ops) (few : encoder.FewTags)
    (projecting : Bool) {hdr : BufferCursor}
    (before : hdr.Before (parts.indices ++ encodeU32 parts.firstNode)) :
    ∃ nodes built, buildStateMachineNodes (parts.header hdr) projecting = .ok built ∧
      parts.Builds projecting nodes built := by
  have entriesFor := List.forall₂_map_left_iff.mpr (parts.machine.entriesFor collected)
  obtain ⟨sample, sampled⟩ := parts.machine.nodes
  have splits : ∀ entry ∈ parts.entries, ∃ isImplicit next,
      splitNextNode entry.base parts.entries.length = .ok (isImplicit, next) := by
    intro entry member
    obtain ⟨index, found⟩ := List.getElem?_of_mem member
    obtain ⟨node, _, split⟩ := forall₂_get sampled found
    exact ⟨_, _, split⟩
  obtain ⟨nodes, after, loop, leads, stateNodes, _, nonProto, pending⟩ :=
    @buildNodesLoop_entries parts.sorted.bufferPos projecting (encodeU32 parts.firstNode)
      (parts.header hdr) (parts.few_buffers collected few) _ _ entriesFor 0
      { hdr := hdr, subtypeIdx := 0, hasNonprotoOp := false, nodeTemplates := [] }
      rfl rfl splits (fun entry member place indexed => parts.bufferIndex_lt collected member indexed)
      ⟨before, rfl⟩
  obtain ⟨path, drives, _⟩ := parts.machine.drives nodes leads
  have ending : after.hdr.Before (encodeU32 parts.firstNode ++ []) := by
    rw [List.append_nil]
    exact pending.hdr
  have inside : parts.firstNode < parts.entries.length := by
    rw [parts.length_entries collected]
    exact parts.machine.start
  have small : parts.firstNode ≤ u32Max := by
    have size := parts.machine.size
    rw [← parts.length_entries collected] at size
    omega
  refine ⟨nodes, BuiltStateMachine.mk (nodes ++ failureNodes) parts.firstNode after.hasNonprotoOp
    after.nodeTemplates, ?_, ⟨rfl, leads, List.forall₂_map_left_iff.mp stateNodes, rfl, ?_⟩⟩
  · unfold buildStateMachineNodes
    change (buildNodesLoop (parts.header hdr) projecting parts.entries.length 0
      { hdr := hdr, subtypeIdx := 0, hasNonprotoOp := false, nodeTemplates := [] } >>= _) = _
    rw [loop, Except.ok_bind]
    simp only
    rw [ending.readVarint32 small, Except.ok_bind]
    change (if parts.entries.length ≤ parts.firstNode then _ else _) = _
    rw [if_neg (by omega)]
    simp only
    rw [drives.looping, Except.ok_bind, ending.skip.isEmpty]
    rfl
  · rw [nonProto]
    exact Bool.false_or _

/-- The header has a node for records that are no messages when there are any. -/
theorem ChunkParts.nonProto_iff (collected : encoder.Collected ops) :
    (parts.entries.any fun entry => decide (entry.tag = MessageId.nonProto)) = true ↔
      ∃ record, TagOp.nonProto record ∈ ops := by
  rw [List.any_eq_true]
  constructor
  · rintro ⟨entry, member, tagged⟩
    have tag := of_decide_eq_true tagged
    obtain ⟨label, entryFor, known⟩ := parts.entry_label collected member
    cases entryFor with
    | noOp base => exact absurd tag (show ¬ MessageId.noOp = MessageId.nonProto by decide)
    | startOfMessage base =>
        exact absurd tag (show ¬ MessageId.startOfMessage = MessageId.nonProto by decide)
    | nonProto base =>
        obtain ⟨op, canonical, sameNode, _, stored⟩ := known _ _ rfl
        obtain ⟨record, rfl⟩ := TagOp.nonProto_of_node canonical sameNode
        exact ⟨record, stored.resolve_left canonical.1⟩
    | startOfSubmessage base valid =>
        exact absurd tag (show ¬ MessageId.startOfSubmessage = MessageId.nonProto by decide)
    | @field parent tag' subtype base label =>
        have least := headerTag_ge label
        have reserved : MessageId.nonProto < 8 := by decide
        change headerTag tag' subtype = MessageId.nonProto at tag
        omega
  · rintro ⟨record, member⟩
    obtain ⟨place, found⟩ := List.getElem?_of_mem member
    obtain ⟨index, listed, named⟩ := forall₂_get collected.tags.flip found
    obtain ⟨sample, sampled⟩ := parts.machine.nodes
    obtain ⟨path, drives, _⟩ := parts.machine.drives sample sampled
    have visited : index ∈ path.filterMap (tagAt parts.stateMachine) := by
      rw [drives.tagged]
      exact List.mem_reverse.mpr (List.mem_of_getElem? listed)
    obtain ⟨pos, _, tagged⟩ := List.mem_filterMap.mp visited
    unfold tagAt at tagged
    split at tagged
    · cases tagged
    rename_i state there
    split at tagged
    · cases tagged
    rename_i live
    obtain rfl := Option.some.inj tagged
    obtain ⟨entry, entered, entryFor⟩ := forall₂_get (parts.machine.entriesFor collected) there
    have same : SameLabels encoder.tagsList parts.tags := parts.machine.sameLabels.symm
    obtain ⟨info, tag, sameNode, sameSubtype⟩ := same.get named
    have label : labelAt parts.tags state =
        some (TransposeChunkEncoder.nonProtoNode, Subtype.trivial) := by
      rw [labelAt, if_neg live, tag]
      exact congrArg some (Prod.ext sameNode sameSubtype)
    rw [label] at entryFor
    refine ⟨entry, List.mem_of_getElem? entered, decide_eq_true ?_⟩
    generalize labelled : some (TransposeChunkEncoder.nonProtoNode, Subtype.trivial) = wanted
      at entryFor
    cases entryFor with
    | noOp base => cases labelled
    | startOfMessage base => cases labelled
    | nonProto base => rfl
    | @startOfSubmessage parent number base valid =>
        have tag := congrArg (fun label => label.map fun pair => pair.1.tag) labelled
        have zero : 0 = number * 8 + 2 := Option.some.inj tag
        omega
    | @field parent tag' subtype base label' =>
        have tag := congrArg (fun label => label.map fun pair => pair.1.tag) labelled
        have least := label'.tag_ge
        obtain rfl : 0 = tag' := Option.some.inj tag
        exact absurd least (by decide)

end Riegeli
