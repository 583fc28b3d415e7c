/-
Module: Riegeli.Proofs.BufferAgreement
Purpose: A run of the decoder looks at no buffer beyond those that its nodes
  can read, so it comes to the same over buffers that agree there.
Trusted boundary: the hash and the codecs
Main exports: Agree, ReadsOnly, ReadsCovered, runCallback_readsOnly,
  decodeAllRecords_agree
-/
import Riegeli.Spec.PrunedBuffers

namespace Riegeli

variable {ext : Externals}

/-! ## Buffers that agree where it matters -/

/-- The two lists have the same cursors at the indices that are needed. -/
structure Agree (needed : Nat → Prop) (first second : List BufferCursor) : Prop where
  length : second.length = first.length
  same : ∀ index, needed index → second[index]? = first[index]?

/-- The state over other buffers. -/
def DecodeState.over (state : DecodeState) (buffers : List BufferCursor) : DecodeState :=
  { state with buffers := buffers }

variable {needed : Nat → Prop}

/-- Reading a needed buffer comes to the same. -/
theorem readBuffer_agree {Item : Type} {first second after : List BufferCursor} {index : Nat}
    {read : BufferCursor → Rust (Item × BufferCursor)} {item : Item} (wanted : needed index)
    (agree : Agree needed first second) (ran : readBuffer first index read = .ok (item, after)) :
    ∃ after', readBuffer second index read = .ok (item, after') ∧ Agree needed after after' := by
  obtain ⟨cursor, found, ran⟩ := Except.bind_eq_ok.mp ran
  obtain ⟨⟨value, moved⟩, readRan, ran⟩ := Except.bind_eq_ok.mp ran
  simp only at ran
  obtain ⟨updated, set, ran⟩ := Except.bind_eq_ok.mp ran
  cases ran
  have foundToo : indexAt second index = .ok cursor := by
    rw [indexAt_eq_ok, agree.same index wanted, indexAt_eq_ok.mp found]
  have inside : index < first.length :=
    (List.getElem?_eq_some_iff.mp (indexAt_eq_ok.mp found)).1
  rw [setAt_eq inside] at set
  cases set
  refine ⟨second.set index moved, ?_, ?_, ?_⟩
  · rw [readBuffer, foundToo, Except.ok_bind, readRan, Except.ok_bind]
    simp only
    rw [setAt_eq (by rw [agree.length]; exact inside), Except.ok_bind]
  · rw [List.length_set, List.length_set, agree.length]
  · intro other otherWanted
    rw [List.getElem?_set, List.getElem?_set, agree.length, agree.same other otherWanted]

/-- The call does not look at the buffers and leaves them as they are. -/
def Bufferless (call : DecodeState → Rust DecodeState) : Prop :=
  ∀ state after, call state = .ok after →
    after.buffers = state.buffers ∧
      ∀ buffers, call (state.over buffers) = .ok (after.over buffers)

/-- The call comes to the same over buffers that agree. -/
def ReadsOnly (needed : Nat → Prop) (call : DecodeState → Rust DecodeState) : Prop :=
  ∀ state after buffers, call state = .ok after → Agree needed state.buffers buffers →
    ∃ buffers', call (state.over buffers) = .ok (after.over buffers') ∧
      Agree needed after.buffers buffers'

theorem Bufferless.readsOnly {call : DecodeState → Rust DecodeState} (less : Bufferless call) :
    ReadsOnly needed call := by
  intro state after buffers ran agree
  obtain ⟨same, other⟩ := less state after ran
  exact ⟨buffers, other buffers, by rwa [same]⟩

theorem Bufferless.ok {step : DecodeState → DecodeState}
    (kept : ∀ state : DecodeState, (step state).buffers = state.buffers)
    (commutes : ∀ (state : DecodeState) (buffers : List BufferCursor),
      step (state.over buffers) = (step state).over buffers) :
    Bufferless fun state => .ok (step state) := by
  intro state after ran
  cases ran
  exact ⟨kept state, fun buffers => congrArg Except.ok (commutes state buffers)⟩

theorem Bufferless.bind {first second : DecodeState → Rust DecodeState}
    (firstLess : Bufferless first) (secondLess : Bufferless second) :
    Bufferless fun state => first state >>= second := by
  intro state after ran
  obtain ⟨middle, firstRan, secondRan⟩ := Except.bind_eq_ok.mp ran
  obtain ⟨firstSame, firstOther⟩ := firstLess state middle firstRan
  obtain ⟨secondSame, secondOther⟩ := secondLess middle after secondRan
  refine ⟨secondSame.trans firstSame, fun buffers => ?_⟩
  exact Except.bind_eq_ok.mpr ⟨middle.over buffers, firstOther buffers, secondOther buffers⟩

/-! ## The writers that read no buffer -/

theorem writeDest_bufferless (bytes : Bytes) :
    Bufferless fun state => writeDest state bytes := by
  intro state after ran
  obtain ⟨dest, written, ran⟩ := Except.bind_eq_ok.mp ran
  cases ran
  refine ⟨rfl, fun buffers => ?_⟩
  exact Except.bind_eq_ok.mpr ⟨dest, written, rfl⟩

theorem writeTag_bufferless (node : StateMachineNode) : Bufferless (writeTag node) := by
  intro state after ran
  obtain ⟨bytes, sliced, ran⟩ := Except.bind_eq_ok.mp ran
  obtain ⟨same, other⟩ := writeDest_bufferless bytes state after ran
  refine ⟨same, fun buffers => ?_⟩
  rw [writeTag, sliced, Except.ok_bind]
  exact other buffers

theorem pushLimit_bufferless (context : DecodeContext) : Bufferless (pushLimit context) := by
  intro state after ran
  unfold pushLimit at ran
  split at ran
  · cases ran
  · rename_i room
    cases ran
    exact ⟨rfl, fun buffers => by rw [pushLimit]; exact if_neg room⟩

theorem writeSubmessageHeader_bufferless (context : DecodeContext) :
    Bufferless (writeSubmessageHeader context) := by
  intro state after ran
  unfold writeSubmessageHeader at ran
  cases stack : state.submessageStack with
  | nil =>
      rw [stack] at ran
      cases ran
  | cons frame rest =>
      rw [stack] at ran
      simp only at ran
      by_cases decreased : state.dest.pos < frame.endPos
      · rw [if_pos decreased] at ran
        cases ran
      rw [if_neg decreased] at ran
      by_cases large : u32Max < state.dest.pos - frame.endPos
      · rw [if_pos large] at ran
        cases ran
      rw [if_neg large] at ran
      obtain ⟨node, found, ran⟩ := Except.bind_eq_ok.mp ran
      obtain ⟨bytes, sliced, ran⟩ := Except.bind_eq_ok.mp ran
      obtain ⟨same, other⟩ := writeDest_bufferless _ _ _ ran
      refine ⟨same, fun buffers => ?_⟩
      rw [writeSubmessageHeader, show (state.over buffers).submessageStack = frame :: rest from
        stack]
      simp only
      rw [if_neg (show ¬ (state.over buffers).dest.pos < frame.endPos from decreased),
        if_neg (show ¬ u32Max < (state.over buffers).dest.pos - frame.endPos from large), found,
        Except.ok_bind, sliced, Except.ok_bind]
      exact other buffers

theorem writeExistenceOnlyField_bufferless (context : DecodeContext) (node : StateMachineNode) :
    Bufferless (writeExistenceOnlyField context node) := by
  intro state after ran
  obtain ⟨tagOf, found, ran⟩ := Except.bind_eq_ok.mp ran
  unfold writeExistenceOnlyField
  rw [found]
  cases tagOf with
  | none =>
      cases ran
      exact ⟨rfl, fun _ => rfl⟩
  | some tagged =>
      obtain ⟨tag, tagLength⟩ := tagged
      simp only at ran
      by_cases long : 13 < ((node.tagData.take node.tagDataSize).take tagLength ++
          zeroValue (tagWireType tag)).length
      · rw [if_pos long] at ran
        cases ran
      · rw [if_neg long] at ran
        obtain ⟨same, other⟩ := writeDest_bufferless _ _ _ ran
        refine ⟨same, fun buffers => ?_⟩
        rw [Except.ok_bind]
        simp only
        rw [if_neg long]
        exact other buffers

theorem startProjectionGroup_bufferless (context : DecodeContext) (node : StateMachineNode) :
    Bufferless (startProjectionGroup context node) := by
  intro state after ran
  unfold startProjectionGroup at ran
  cases stack : state.submessageStack with
  | nil =>
      rw [stack] at ran
      cases ran
  | cons frame rest =>
      rw [stack] at ran
      obtain ⟨_, checked, ran⟩ := Except.bind_eq_ok.mp ran
      obtain ⟨same, other⟩ := writeTag_bufferless node _ _ ran
      refine ⟨same, fun buffers => ?_⟩
      rw [startProjectionGroup, show (state.over buffers).submessageStack = frame :: rest from
        stack]
      simp only
      rw [checked, Except.ok_bind]
      exact other buffers

/-! ## The writers that read a buffer -/

/-- The fields that are copied from one buffer. -/
theorem copyField_readsOnly {node : StateMachineNode} {index : Nat} (wanted : needed index)
    (read : BufferCursor → Rust (Bytes × BufferCursor)) (shape : Bytes → Bytes) :
    ReadsOnly needed fun state => (do
      let (raw, buffers) ← readBuffer state.buffers index read
      let tagBytes ← nodeTagBytes node
      writeDest { state with buffers := buffers } (tagBytes ++ shape raw)) := by
  intro state after buffers ran agree
  obtain ⟨⟨raw, moved⟩, readRan, ran⟩ := Except.bind_eq_ok.mp ran
  obtain ⟨tagBytes, sliced, ran⟩ := Except.bind_eq_ok.mp ran
  obtain ⟨moved', readToo, agree'⟩ := readBuffer_agree wanted agree readRan
  obtain ⟨same, other⟩ := writeDest_bufferless _ _ _ ran
  refine ⟨moved', ?_, ?_⟩
  · refine Except.bind_eq_ok.mpr ⟨(raw, moved'), readToo, ?_⟩
    exact Except.bind_eq_ok.mpr ⟨tagBytes, sliced, other moved'⟩
  · rw [same]
    exact agree'

theorem writeNonprotoRecord_readsOnly (context : DecodeContext) (node : StateMachineNode)
    (lengths : ∀ index, context.nonprotoLengthsIndex = some index → needed index)
    (data : ∀ index, node.bufferIndex = some index → needed index) :
    ReadsOnly needed (writeNonprotoRecord context node) := by
  intro state after buffers ran agree
  unfold writeNonprotoRecord at ran ⊢
  cases lengthsAt : context.nonprotoLengthsIndex with
  | none =>
      rw [lengthsAt] at ran
      cases ran
  | some lengthsIndex =>
      rw [lengthsAt] at ran
      obtain ⟨⟨length, moved⟩, lengthRan, ran⟩ := Except.bind_eq_ok.mp ran
      obtain ⟨moved', lengthToo, agree'⟩ :=
        readBuffer_agree (lengths lengthsIndex lengthsAt) agree lengthRan
      cases dataAt : node.bufferIndex with
      | none =>
          rw [dataAt] at ran
          cases ran
      | some dataIndex =>
          rw [dataAt] at ran
          obtain ⟨⟨record, filled⟩, recordRan, ran⟩ := Except.bind_eq_ok.mp ran
          obtain ⟨filled', recordToo, agree''⟩ :=
            readBuffer_agree (data dataIndex dataAt) agree' recordRan
          obtain ⟨written, wrote, ran⟩ := Except.bind_eq_ok.mp ran
          obtain ⟨wroteSame, wroteOther⟩ := writeDest_bufferless _ _ _ wrote
          by_cases pending : written.submessageStack.isEmpty = false
          · rw [if_pos pending] at ran
            cases ran
          rw [if_neg pending] at ran
          obtain ⟨pushSame, pushOther⟩ := pushLimit_bufferless context _ _ ran
          refine ⟨filled', ?_, ?_⟩
          · refine Except.bind_eq_ok.mpr ⟨(length, moved'), lengthToo, ?_⟩
            refine Except.bind_eq_ok.mpr ⟨(record, filled'), recordToo, ?_⟩
            refine Except.bind_eq_ok.mpr ⟨written.over filled', wroteOther filled', ?_⟩
            rw [if_neg (show ¬ (written.over filled').submessageStack.isEmpty = false from pending)]
            exact pushOther filled'
          · rw [pushSame, wroteSame]
            exact agree''

/-! ## One node -/

/-- The callbacks that read the buffer of their node. -/
def CallbackType.readsBuffer : CallbackType → Prop
  | .nonProto => True
  | .varint _ => True
  | .fixed32 => True
  | .fixed64 => True
  | .stringField => True
  | _ => False

/-- Whatever a run of these nodes can read is needed. -/
structure ReadsCovered (needed : Nat → Prop) (context : DecodeContext) : Prop where
  lengths : ∀ index, context.nonprotoLengthsIndex = some index → needed index
  node : ∀ node ∈ context.nodes, ∀ state callback, effectiveCallback context node state = .ok callback →
    callback.readsBuffer → ∀ index, node.bufferIndex = some index → needed index

theorem writeFixedField_readsOnly (node : StateMachineNode) (count : Nat)
    (data : ∀ index, node.bufferIndex = some index → needed index) :
    ReadsOnly needed (writeFixedField node count) := by
  intro state after buffers ran agree
  unfold writeFixedField at ran ⊢
  cases found : node.bufferIndex with
  | none =>
      rw [found] at ran
      cases ran
  | some index =>
      rw [found] at ran
      exact copyField_readsOnly (data index found) (fun cursor => cursor.readExact count)
        (fun raw => raw) state after buffers ran agree

/-- One case a callback: it reads no buffer, or that of its node. -/
theorem runCallback_readsOnly (context : DecodeContext) (node : StateMachineNode)
    (nodeIndex : Nat) (callback : CallbackType)
    (lengths : ∀ index, context.nonprotoLengthsIndex = some index → needed index)
    (data : callback.readsBuffer → ∀ index, node.bufferIndex = some index → needed index) :
    ReadsOnly needed (runCallback context node nodeIndex callback) := by
  cases callback with
  | noOp => exact (@Bufferless.ok id (fun _ => rfl) fun _ _ => rfl).readsOnly
  | messageStart =>
      refine Bufferless.readsOnly ?_
      intro state after ran
      change (if state.submessageStack.isEmpty = false then _ else _) = _ at ran
      by_cases pending : state.submessageStack.isEmpty = false
      · rw [if_pos pending] at ran
        cases ran
      · rw [if_neg pending] at ran
        obtain ⟨same, other⟩ := pushLimit_bufferless context _ _ ran
        exact ⟨same, fun buffers => (if_neg pending).trans (other buffers)⟩
  | submessageStart => exact (writeSubmessageHeader_bufferless context).readsOnly
  | submessageEnd =>
      exact (@Bufferless.ok (pushFrame nodeIndex) (fun _ => rfl) fun _ _ => rfl).readsOnly
  | nonProto => exact writeNonprotoRecord_readsOnly context node lengths (data trivial)
  | copyTag => exact (writeTag_bufferless node).readsOnly
  | varint dataLength =>
      intro state after buffers ran agree
      change writeVarintField node dataLength state = .ok after at ran
      change ∃ buffers', writeVarintField node dataLength (state.over buffers) = _ ∧ _
      unfold writeVarintField at ran ⊢
      cases found : node.bufferIndex with
      | none =>
          rw [found] at ran
          cases ran
      | some index =>
          rw [found] at ran
          exact copyField_readsOnly (data trivial index found) _ restoreHighBits
            state after buffers ran agree
  | fixed32 =>
      intro state after buffers ran agree
      exact writeFixedField_readsOnly node 4 (data trivial) state after buffers ran agree
  | fixed64 =>
      intro state after buffers ran agree
      exact writeFixedField_readsOnly node 8 (data trivial) state after buffers ran agree
  | stringField =>
      intro state after buffers ran agree
      change writeStringField node state = .ok after at ran
      change ∃ buffers', writeStringField node (state.over buffers) = _ ∧ _
      unfold writeStringField at ran ⊢
      cases found : node.bufferIndex with
      | none =>
          rw [found] at ran
          cases ran
      | some index =>
          rw [found] at ran
          exact copyField_readsOnly (data trivial index found) readString (fun raw => raw)
            state after buffers ran agree
  | existenceOnly => exact (writeExistenceOnlyField_bufferless context node).readsOnly
  | failure => exact fun _ _ _ ran _ => nomatch ran
  | selectCallback => exact fun _ _ _ ran _ => nomatch ran
  | skippedSubmessageEnd =>
      refine Bufferless.readsOnly ?_
      intro state after ran
      cases ran
      exact ⟨rfl, fun _ => rfl⟩
  | endProjectionGroup =>
      refine Bufferless.readsOnly ?_
      intro state after ran
      obtain ⟨same, other⟩ := writeTag_bufferless node (pushFrame nodeIndex state) after ran
      exact ⟨same, other⟩
  | startProjectionGroup => exact (startProjectionGroup_bufferless context node).readsOnly
  | skippedSubmessageStart =>
      refine Bufferless.readsOnly ?_
      intro state after ran
      change (if state.skippedSubmessageLevel ≤ 0 then _ else _) = _ at ran
      by_cases balanced : state.skippedSubmessageLevel ≤ 0
      · rw [if_pos balanced] at ran
        cases ran
      · rw [if_neg balanced] at ran
        cases ran
        exact ⟨rfl, fun _ => if_neg balanced⟩

theorem executeNodeAction_readsOnly {context : DecodeContext}
    (covered : ReadsCovered needed context) {node : StateMachineNode}
    (member : node ∈ context.nodes) (nodeIndex : Nat) :
    ReadsOnly needed (executeNodeAction context node nodeIndex) := by
  intro state after buffers ran agree
  obtain ⟨callback, chosen, ran⟩ := Except.bind_eq_ok.mp ran
  obtain ⟨buffers', ranToo, agree'⟩ :=
    runCallback_readsOnly context node nodeIndex callback covered.lengths
      (covered.node node member state callback chosen) state after buffers ran agree
  refine ⟨buffers', Except.bind_eq_ok.mpr ⟨callback, ?_, ranToo⟩, agree'⟩
  -- the choice of the callback does not look at the buffers
  exact chosen

/-! ## The run -/

theorem runLoop_readsOnly {context : DecodeContext} (covered : ReadsCovered needed context)
    (fuel : Nat) :
    ∀ current numIters transitions,
      ReadsOnly needed (runLoop context fuel current numIters transitions) := by
  induction fuel with
  | zero => exact fun _ _ _ _ _ _ ran _ => nomatch ran
  | succ fuel ih =>
      intro current numIters transitions state after buffers ran agree
      obtain ⟨node, found, ran⟩ := Except.bind_eq_ok.mp ran
      obtain ⟨acted, actedRan, ran⟩ := Except.bind_eq_ok.mp ran
      obtain ⟨advanced, advancedRan, ran⟩ := Except.bind_eq_ok.mp ran
      have member : node ∈ context.nodes :=
        List.mem_of_getElem? (indexAt_eq_ok.mp found)
      obtain ⟨middle, actedToo, agree'⟩ :=
        executeNodeAction_readsOnly covered member current state acted buffers actedRan agree
      cases advanced with
      | none =>
          cases ran
          refine ⟨middle, ?_, agree'⟩
          refine Except.bind_eq_ok.mpr ⟨node, found, ?_⟩
          refine Except.bind_eq_ok.mpr ⟨after.over middle, actedToo, ?_⟩
          exact Except.bind_eq_ok.mpr ⟨none, advancedRan, rfl⟩
      | some step =>
          obtain ⟨next, iters, rest⟩ := step
          obtain ⟨buffers', continued, agree''⟩ := ih next iters rest acted after middle ran agree'
          refine ⟨buffers', ?_, agree''⟩
          refine Except.bind_eq_ok.mpr ⟨node, found, ?_⟩
          refine Except.bind_eq_ok.mpr ⟨acted.over middle, actedToo, ?_⟩
          exact Except.bind_eq_ok.mpr ⟨some (next, iters, rest), advancedRan, continued⟩

/-- Over buffers that agree where it reads, the decoder writes the same. -/
theorem decodeAllRecords_agree {context : DecodeContext} (covered : ReadsCovered needed context)
    {decodedDataSize firstNode : Nat} {first second : List BufferCursor}
    {transitions : BufferCursor} {result : Bytes × List Nat}
    (agree : Agree needed first second)
    (ran : decodeAllRecords context decodedDataSize first transitions firstNode = .ok result) :
    decodeAllRecords context decodedDataSize second transitions firstNode = .ok result := by
  obtain ⟨⟨dest, limits⟩, machineRan, ran⟩ := Except.bind_eq_ok.mp ran
  obtain ⟨entry, found, machineRan⟩ := Except.bind_eq_ok.mp machineRan
  obtain ⟨state, loopRan, machineRan⟩ := Except.bind_eq_ok.mp machineRan
  obtain ⟨buffers', loopToo, -⟩ :=
    runLoop_readsOnly covered _ _ _ _ _ _ second loopRan agree
  refine Except.bind_eq_ok.mpr ⟨(dest, limits), ?_, ran⟩
  refine Except.bind_eq_ok.mpr ⟨entry, found, ?_⟩
  exact Except.bind_eq_ok.mpr ⟨state.over buffers', loopToo, machineRan⟩

end Riegeli
