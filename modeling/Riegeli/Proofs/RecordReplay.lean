/-
Module: Riegeli.Proofs.RecordReplay
Purpose: Replaying the tags of a sequence of records, last one first, writes
  what the projection leaves of the records, and marks where each begins.
Trusted boundary: none
Main exports: PlacedRecord, PlacedRecords, DecodeState.finish,
  PlacedRecord.replayed, PlacedRecords.replayed
-/
import Riegeli.Proofs.FieldReplay

namespace Riegeli

/-- The tags of a record and what the projection leaves of it. -/
inductive PlacedRecord (included : List Nat → FieldIncluded) (reads : NodeId → Bool) :
    List TagOp → Bytes → Bytes → Prop where
  | proto {ops : List TagOp} {fields : FieldTree} :
      fields.Canonical → fields.bytes.length ≤ u32Max → Placed included reads [] ops fields →
      PlacedRecord included reads (.startOfMessage :: ops) fields.bytes
        (fields.projected included [])
  | nonProto {record : Bytes} :
      record ≠ [] → record.length ≤ u32Max → reads TransposeChunkEncoder.nonProtoNode = true →
      PlacedRecord included reads [.nonProto record] record record

/-- The tags of a sequence of records and what the projection leaves of them. -/
inductive PlacedRecords (included : List Nat → FieldIncluded) (reads : NodeId → Bool) :
    List TagOp → List Bytes → List Bytes → Prop where
  | nil : PlacedRecords included reads [] [] []
  | snoc {before ops : List TagOp} {records left : List Bytes} {record kept : Bytes} :
      PlacedRecords included reads before records left →
      PlacedRecord included reads ops record kept →
      PlacedRecords included reads (before ++ ops) (records ++ [record]) (left ++ [kept])

/-- The state after a record is written: its beginning is a limit. -/
def DecodeState.finish (state : DecodeState) (record : Bytes) : DecodeState :=
  { state.emit record with limits := state.limits ++ [(state.emit record).dest.pos] }

/-- The state after the records are written, last one first. -/
def DecodeState.finishAll (state : DecodeState) (records : List Bytes) : DecodeState :=
  records.foldr (fun record state => state.finish record) state

variable {context : DecodeContext} {bufferPos : NodeId → Option Nat} {ids : List NodeId}
  {reads : NodeId → Bool} {lengths : Bool} {included : List Nat → FieldIncluded}
  {stored counted ops : List TagOp} {records left : List Bytes} {record kept : Bytes}
  {positions : List Nat} {state : DecodeState}

theorem Placed.spells {path : List Nat} {tree : FieldTree}
    (placed : Placed included reads path ops tree) : Spells ops tree := by
  induction placed with
  | nil => exact .nil
  | leaf _ _ ih => exact .leaf ih
  | submessage _ _ inside after => exact .submessage inside after
  | group _ _ inside after => exact .group inside after

theorem PlacedRecord.length_le (placed : PlacedRecord included reads ops record kept) :
    kept.length ≤ record.length := by
  cases placed with
  | proto canonical _ _ => exact FieldTree.projected_length_le canonical
  | nonProto _ _ _ => exact Nat.le_refl _

theorem PlacedRecords.length_eq (placed : PlacedRecords included reads ops records left) :
    left.length = records.length := by
  induction placed with
  | nil => rfl
  | snoc _ _ ih => rw [List.length_append, List.length_append, ih]; rfl

theorem PlacedRecords.length_le (placed : PlacedRecords included reads ops records left) :
    left.flatten.length ≤ records.flatten.length := by
  induction placed with
  | nil => exact Nat.le_refl _
  | snoc _ last ih =>
      have small := last.length_le
      rw [List.flatten_append, List.flatten_append, List.length_append, List.length_append,
        List.flatten_singleton, List.flatten_singleton]
      omega

/-- The decoder knows the place of the record lengths when it needs it. -/
def LengthsAt (context : DecodeContext) (ids : List NodeId) (lengths : Bool) (ops : List TagOp) :
    Prop :=
  ∀ record, TagOp.nonProto record ∈ ops →
    lengths = true ∧ context.nonprotoLengthsIndex = some ids.length

theorem pushLimit_finish (few : state.limits.length < context.numRecords) :
    pushLimit context (state.emit record) = .ok (state.finish record) := by
  unfold pushLimit
  exact if_neg (Nat.ne_of_lt few)

/-- The start of a message marks where its fields begin. -/
theorem runCallback_startOfMessage {node : StateMachineNode} {pos : Nat}
    (closed : state.submessageStack = []) (few : state.limits.length < context.numRecords) :
    runCallback context node pos .messageStart (state.emit record) = .ok (state.finish record) := by
  change (if state.submessageStack.isEmpty = false then _ else _) = _
  rw [closed, if_neg (by decide)]
  exact pushLimit_finish few

/-- A record that is no message is copied from its buffer. -/
theorem writeNonprotoRecord_replayed {node : StateMachineNode} (filled : record ≠ [])
    (short : record.length ≤ u32Max) (wanted : reads TransposeChunkEncoder.nonProtoNode = true)
    (placed : PlacedAt bufferPos ids (.nonProto record))
    (indexed : node.bufferIndex = some ((bufferPos TransposeChunkEncoder.nonProtoNode).getD 0))
    (flagged : lengths = true) (lengthsAt : context.nonprotoLengthsIndex = some ids.length)
    (closed : state.submessageStack = []) (few : state.limits.length < context.numRecords)
    (room : state.Room record.length)
    (hold : BuffersHold ids reads lengths (stored ++ [.nonProto record])
      (counted ++ [.nonProto record]) state.buffers) :
    ∃ buffers', writeNonprotoRecord context node state =
        .ok ({ state with buffers := buffers' }.finish record) ∧
      BuffersHold ids reads lengths stored counted buffers' := by
  obtain ⟨listed, place⟩ := placed filled
  obtain ⟨buffers, readLength, hold⟩ := readBuffer_length short hold flagged
  obtain ⟨buffers', readRecord, hold'⟩ := @readBuffer_stored ids reads lengths stored counted buffers
    (.nonProto record) Bytes record (fun cursor => cursor.readExact record.length) hold listed wanted
    fun before => before.readExact
  refine ⟨buffers', ?_, hold'⟩
  rw [writeNonprotoRecord, lengthsAt]
  simp only
  rw [readLength, Except.ok_bind, indexed]
  simp only
  rw [show (bufferPos TransposeChunkEncoder.nonProtoNode).getD 0 = _ from place]
  rw [show readBuffer buffers (ids.idxOf (TagOp.nonProto record).nodeId) _ = _ from readRecord,
    Except.ok_bind]
  simp only
  rw [writeDest_emit (show ({ state with buffers := buffers' } : DecodeState).Room _ from room),
    Except.ok_bind]
  change (if state.submessageStack.isEmpty = false then _ else _) = _
  rw [if_neg (by rw [closed]; decide)]
  exact @pushLimit_finish context record { state with buffers := buffers' } few

/-- The tags of a record write what is left of it. -/
theorem PlacedRecord.replayed (includes : Includes context.includeMap included)
    (hereditary : Hereditary included) (placed : PlacedRecord included reads ops record kept)
    (listed : ∀ op ∈ ops, PlacedAt bufferPos ids op)
    (lengthsAt : LengthsAt context ids lengths ops)
    (nodes : List.Forall₂ (NodeAt context bufferPos) positions ops.reverse)
    (closed : state.submessageStack = []) (level : state.skippedSubmessageLevel = 0)
    (few : state.limits.length < context.numRecords) (room : state.Room kept.length)
    (hold : BuffersHold ids reads lengths (stored ++ ops) (counted ++ ops) state.buffers) :
    ∃ buffers', runPath context positions state =
        .ok ({ state with buffers := buffers' }.finish kept) ∧
      BuffersHold ids reads lengths stored counted buffers' := by
  cases placed with
  | @proto ops fields canonical small placed =>
      obtain ⟨first, pos, second, rfl, along, ⟨node, found, labelNode⟩, none⟩ :=
        @nodeAt_split context bufferPos positions .startOfMessage [] ops nodes
      cases none
      obtain ⟨_, listed⟩ := List.forall_mem_cons.mp listed
      have uncounted : lengthsOf (.startOfMessage :: ops) = [] := placed.spells.lengthsOf_nil
      have hold := hold.uncounted uncounted
      rw [List.append_cons] at hold
      have sees : Sees context state.submessageStack [] := by
        intro _
        rw [closed]
        exact .nil
      obtain ⟨buffers', ran, hold'⟩ := placed.emits includes hereditary canonical small listed
        (stored ++ [.startOfMessage]) counted first state along sees level room hold
      have plain : node.callbackType = .messageStart := labelNode.startOfMessage rfl
      have called : effectiveCallback context node
          ({ state with buffers := buffers' }.emit (fields.projected included [])) =
            .ok .messageStart := by
        rw [effectiveCallback, plain, if_neg (by decide)]
      refine ⟨buffers', ?_, hold'.skip (.inl rfl)⟩
      rw [runPath_append, ran, Except.ok_bind, List.append_nil, runPath_single found called]
      exact runCallback_startOfMessage closed few
  | nonProto filled short wanted =>
      obtain ⟨flagged, index⟩ := lengthsAt record List.mem_cons_self
      obtain ⟨pos, rest, ⟨node, found, labelNode⟩, none, rfl⟩ :=
        List.forall₂_cons_right_iff.mp nodes
      cases none
      obtain ⟨plain, indexed⟩ := labelNode.nonProto rfl
      have called : effectiveCallback context node state = .ok .nonProto := by
        rw [effectiveCallback, plain, if_neg (by decide)]
      rw [runPath_single found called]
      exact writeNonprotoRecord_replayed filled short wanted (listed _ List.mem_cons_self) indexed
        flagged index closed few room hold

@[simp] theorem DecodeState.finish_limits (state : DecodeState) (record : Bytes) :
    (state.finish record).limits = state.limits ++ [(state.emit record).dest.pos] := rfl

theorem DecodeState.finishAll_snoc (state : DecodeState) (records : List Bytes) (record : Bytes) :
    state.finishAll (records ++ [record]) = (state.finish record).finishAll records := by
  rw [DecodeState.finishAll, List.foldr_append]
  rfl

/-- The tags of the records write what is left of them. -/
theorem PlacedRecords.replayed (includes : Includes context.includeMap included)
    (hereditary : Hereditary included) (placed : PlacedRecords included reads ops records left) :
    ∀ {stored counted : List TagOp} {positions : List Nat} {state : DecodeState},
      (∀ op ∈ ops, PlacedAt bufferPos ids op) → LengthsAt context ids lengths ops →
      List.Forall₂ (NodeAt context bufferPos) positions ops.reverse →
      state.submessageStack = [] → state.skippedSubmessageLevel = 0 →
      state.limits.length + left.length ≤ context.numRecords → state.Room left.flatten.length →
      BuffersHold ids reads lengths (stored ++ ops) (counted ++ ops) state.buffers →
      ∃ buffers', runPath context positions state =
          .ok ({ state with buffers := buffers' }.finishAll left) ∧
        BuffersHold ids reads lengths stored counted buffers' := by
  induction placed with
  | nil =>
      intro stored counted positions state _ _ nodes _ _ _ _ hold
      cases nodes
      rw [List.append_nil, List.append_nil] at hold
      exact ⟨state.buffers, rfl, hold⟩
  | @snoc before ops records left record kept _ last ih =>
      intro stored counted positions state listed lengthsAt nodes closed level few room hold
      obtain ⟨listedBefore, listedLast⟩ := List.forall_mem_append.mp listed
      rw [List.reverse_append] at nodes
      have along := List.forall₂_take_append positions ops.reverse before.reverse nodes
      have behind := List.forall₂_drop_append positions ops.reverse before.reverse nodes
      rw [List.length_append, List.length_singleton] at few
      rw [List.flatten_append, List.flatten_singleton, List.length_append] at room
      rw [← List.append_assoc, ← List.append_assoc] at hold
      obtain ⟨buffers, ran, hold⟩ := last.replayed includes hereditary listedLast
        (fun record member => lengthsAt record (List.mem_append_right _ member)) along closed level
        (by omega) (room.mono (by omega)) hold
      have written : ({ state with buffers := buffers }.finish kept).Room left.flatten.length :=
        @DecodeState.Room.emit { state with buffers := buffers } kept _ _ room (by omega)
      obtain ⟨buffers', ran', hold'⟩ := @ih stored counted _
        ({ state with buffers := buffers }.finish kept) listedBefore
        (fun record member => lengthsAt record (List.mem_append_left _ member)) behind closed level
        (by
          rw [DecodeState.finish_limits, List.length_append, List.length_singleton]
          change state.limits.length + 1 + _ ≤ _
          omega) written hold
      refine ⟨buffers', ?_, hold'⟩
      rw [← List.take_append_drop ops.reverse.length positions, runPath_append, ran, Except.ok_bind,
        ran', DecodeState.finishAll_snoc]
      rfl

end Riegeli
