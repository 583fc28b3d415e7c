/-
Module: Riegeli.Proofs.ChunkReplay
Purpose: The decoder's run over the chunk of an encoder writes what its
  projection leaves of the records.
Trusted boundary: the hash and the codecs
Main exports: ChunkParts.context, ChunkParts.buffersHold, ChunkParts.decodes
-/
import Riegeli.Proofs.DecodedParts

namespace Riegeli

variable {ext : Externals} {encoder : TransposeChunkEncoder} {ops : List TagOp}
  {records left : List Bytes} {included : List Nat → FieldIncluded} {reads : NodeId → Bool}
  {nodes : List StateMachineNode} {built : BuiltStateMachine}

variable (parts : ChunkParts ext encoder ops)

/-- What the decoder's run is given besides the data. -/
def ChunkParts.context (built : BuiltStateMachine) (includeMap : Option IncludeFieldMap)
    (records : List Bytes) : DecodeContext where
  nodes := built.nodes
  numRecords := records.length
  nonprotoLengthsIndex := if built.hasNonprotoOp then some parts.ids.length else none
  nodeTemplates := built.nodeTemplates
  includeMap := includeMap

theorem lengthsOf_ne_nil {record : Bytes} (member : TagOp.nonProto record ∈ ops) :
    lengthsOf ops ≠ [] := by
  obtain ⟨before, after, rfl⟩ := List.append_of_mem member
  rw [TransposeChunkEncoder.lengthsOf_append]
  exact List.append_ne_nil_of_right_ne_nil _ (List.cons_ne_nil _ _)

/-- The machine has a node for records that are no messages when there are any. -/
theorem ChunkParts.Builds.nonProto_iff {projecting : Bool} (collected : encoder.Collected ops)
    (builds : parts.Builds projecting nodes built) :
    built.hasNonprotoOp = true ↔ ∃ record, TagOp.nonProto record ∈ ops := by
  rw [builds.nonProto]
  exact parts.nonProto_iff collected

/-- The record lengths are in the last buffer. -/
theorem ChunkParts.Builds.lengthsIndex {projecting : Bool} (collected : encoder.Collected ops)
    (builds : parts.Builds projecting nodes built) :
    nonprotoLengthsIndexOf built.hasNonprotoOp parts.sorted.allBuffers.length =
      .ok (if built.hasNonprotoOp then some parts.ids.length else none) := by
  unfold nonprotoLengthsIndexOf
  by_cases flagged : built.hasNonprotoOp = true
  · obtain ⟨record, member⟩ := (builds.nonProto_iff parts collected).mp flagged
    rw [if_pos flagged, if_pos flagged, parts.filed.length, if_neg (lengthsOf_ne_nil member),
      if_neg (Nat.succ_ne_zero _), Nat.add_sub_cancel]
  · rw [if_neg flagged, if_neg flagged]

/-- The cursors of the parsed buffers stand before all that the tags have stored. -/
theorem ChunkParts.buffersHold {projecting : Bool} (collected : encoder.Collected ops)
    (fits : parts.Fits records) (builds : parts.Builds projecting nodes built)
    (reads : NodeId → Bool) :
    BuffersHold parts.ids reads built.hasNonprotoOp ops ops
      (parts.sorted.allBuffers.map BufferCursor.new) := by
  have short : ∀ buffer ∈ parts.sorted.allBuffers, buffer.length ≤ u64Max := by
    intro buffer member
    have inside := (List.sublist_flatten_of_mem member).length_le
    exact inside.trans ((parts.filed.total_le fits.recordsOps).trans fits.total)
  have opens : ∀ {place : Nat} {buffer : Bytes}, parts.sorted.allBuffers[place]? = some buffer →
      ∃ cursor : BufferCursor, (parts.sorted.allBuffers.map BufferCursor.new)[place]? = some cursor ∧
        cursor.Before buffer := by
    intro place buffer found
    refine ⟨BufferCursor.new buffer, ?_, BufferCursor.new_before
      (short buffer (List.mem_of_getElem? found)) rfl⟩
    rw [List.getElem?_map, found]
    rfl
  constructor
  · intro id member _
    apply opens
    have inside := List.idxOf_lt_length_iff.mpr member
    rw [parts.filed.buffers, List.getElem?_append_left (by rw [List.length_map]; exact inside),
      List.getElem?_map, List.getElem?_eq_getElem inside, List.getElem_idxOf]
    rfl
  · intro flagged
    apply opens
    obtain ⟨record, member⟩ := (builds.nonProto_iff parts collected).mp flagged
    rw [parts.filed.buffers, if_neg (lengthsOf_ne_nil member),
      List.getElem?_append_right (by rw [List.length_map]), List.length_map, Nat.sub_self]
    rfl

/-- Every state has its node in the run. -/
theorem ChunkParts.Builds.stands {includeMap : Option IncludeFieldMap}
    (builds : parts.Builds includeMap.isSome nodes built) {pos : Nat} {state : StateInfo}
    (found : parts.stateMachine[pos]? = some state) :
    ∃ node, (parts.context built includeMap records).nodes[pos]? = some node ∧
      StateNode parts.sorted.bufferPos includeMap.isSome built.nodeTemplates
        (labelAt parts.tags state) node := by
  obtain ⟨node, there, stateNode⟩ := forall₂_get builds.stateNodes found
  refine ⟨node, ?_, stateNode⟩
  change built.nodes[pos]? = some node
  rw [builds.appended, List.getElem?_append_left (List.getElem?_eq_some_iff.mp there).1, there]

/-- The tags of the machine name those that the encoder took. -/
theorem ChunkParts.names (collected : encoder.Collected ops) :
    List.Forall₂ (Names parts.tags) encoder.encodedTags.reverse ops.reverse := by
  have same : SameLabels encoder.tagsList parts.tags := parts.machine.sameLabels.symm
  refine List.forall₂_reverse_iff.mpr (collected.tags.imp fun index op found => ?_)
  obtain ⟨info, there, sameNode, sameSubtype⟩ := same.get found
  rw [Names, there]
  exact congrArg some (Prod.ext sameNode sameSubtype)

/-! ## The run -/

/-- The state before the first step. -/
def DecodeState.start (decodedDataSize : Nat) (buffers : List BufferCursor) : DecodeState where
  dest := Decoder.BackwardBuffer.new decodedDataSize
  buffers := buffers
  submessageStack := []
  limits := []
  skippedSubmessageLevel := 0

/-- A run that ends after it has written records decodes them. -/
theorem decodeAllRecords_finished {context : DecodeContext} {decodedDataSize firstNode : Nat}
    {buffers buffers' : List BufferCursor} {transitions : BufferCursor} {first : StateMachineNode}
    (entered : context.nodes[firstNode]? = some first)
    (looped : runLoop context (runFuel context.nodes transitions) firstNode (implicitCount first)
      transitions (DecodeState.start decodedDataSize buffers) =
        .ok ((DecodeState.start decodedDataSize buffers').finishAll left))
    (counted : left.length = context.numRecords)
    (whole : context.includeMap = none → left.flatten.length = decodedDataSize) :
    decodeAllRecords context decodedDataSize buffers transitions firstNode =
      .ok (left.flatten, recordEnds 0 left) := by
  have written : ((DecodeState.start decodedDataSize buffers').finishAll left).dest.data =
      left.flatten.reverse := DecodeState.finishAll_data _ left
  have marked : ((DecodeState.start decodedDataSize buffers').finishAll left).limits =
      markedLimits left := DecodeState.finishAll_limits rfl left
  have closed : ((DecodeState.start decodedDataSize buffers').finishAll left).submessageStack = [] :=
    (DecodeState.finishAll_frame _ left).1
  have level : ((DecodeState.start decodedDataSize buffers').finishAll
      left).skippedSubmessageLevel = 0 := (DecodeState.finishAll_frame _ left).2
  have machine : runStateMachine context decodedDataSize buffers transitions firstNode =
      .ok (((DecodeState.start decodedDataSize buffers').finishAll left).dest,
        markedLimits left) := by
    unfold runStateMachine
    rw [indexAt_eq_ok.mpr entered, Except.ok_bind]
    change (runLoop _ _ _ _ _ (DecodeState.start decodedDataSize buffers) >>= _) = _
    rw [looped, Except.ok_bind, if_neg (by rw [closed]; decide),
      if_neg (by rw [level]; decide), marked, length_markedLimits,
      if_neg (fun differs => differs counted)]
  unfold decodeAllRecords
  rw [machine, Except.ok_bind]
  simp only
  rw [if_neg ?_, finalizeRecords_finished written]
  rintro ⟨unprojected, differs⟩
  apply differs
  rw [Decoder.BackwardBuffer.pos, written, List.length_reverse]
  exact whole (Option.isNone_iff_eq_none.mp unprojected)

/-- The run over the parts writes what the projection leaves of the records. -/
theorem ChunkParts.decodes (collected : encoder.Collected ops) (fits : parts.Fits records)
    {includeMap : Option IncludeFieldMap} (builds : parts.Builds includeMap.isSome nodes built)
    (includes : Includes includeMap included) (hereditary : Hereditary included)
    (placed : PlacedRecords included reads ops records left) {decodedDataSize : Nat}
    (size : left.flatten.length ≤ decodedDataSize)
    (whole : includeMap = none → left.flatten.length = decodedDataSize) :
    decodeAllRecords (parts.context built includeMap records) decodedDataSize
      (parts.sorted.allBuffers.map BufferCursor.new) (BufferCursor.new parts.transitions)
      built.firstNode = .ok (left.flatten, recordEnds 0 left) := by
  obtain ⟨path, drives, _⟩ := parts.machine.drives nodes builds.leads
  obtain ⟨first, entered, visited⟩ := drives.visited
  rw [← builds.appended] at entered visited
  obtain ⟨positions, stand, same⟩ := @path_stands (parts.context built includeMap records)
    parts.sorted.bufferPos parts.stateMachine parts.tags (fun pos state => builds.stands parts) path
    _ _ drives.inside drives.tagged (parts.names collected)
  have lengthsAt : LengthsAt (parts.context built includeMap records) parts.ids
      built.hasNonprotoOp ops := by
    intro record member
    have flagged := (builds.nonProto_iff parts collected).mpr ⟨record, member⟩
    exact ⟨flagged, if_pos flagged⟩
  have few : ([] : List Nat).length + left.length ≤
      (parts.context built includeMap records).numRecords := by
    rw [List.length_nil, Nat.zero_add]
    exact placed.length_eq.le
  have room : (DecodeState.start decodedDataSize
      (parts.sorted.allBuffers.map BufferCursor.new)).Room left.flatten.length := by
    change 0 + _ ≤ decodedDataSize
    rw [Nat.zero_add]
    exact size
  obtain ⟨buffers, ran, _⟩ := @PlacedRecords.replayed (parts.context built includeMap records)
    parts.sorted.bufferPos parts.ids reads built.hasNonprotoOp included ops records left includes
    hereditary placed [] [] positions (.start decodedDataSize _)
    (fun op member => parts.placedAt member) lengthsAt stand rfl rfl few room
    (parts.buffersHold collected fits builds reads)
  rw [← same] at ran
  have looped := @runLoop_of_visits (parts.context built includeMap records) _ _ _ _ _ _ _ visited ran
  rw [builds.firstNode]
  exact decodeAllRecords_finished entered looped placed.length_eq whole

end Riegeli
