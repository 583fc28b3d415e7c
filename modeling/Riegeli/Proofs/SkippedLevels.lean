/-
Module: Riegeli.Proofs.SkippedLevels
Purpose: The level of skipped submessages along the passes of the state machine:
  it stays between zero and the number of passes, and only very long decodes
  come near the end of its type.
Trusted boundary: none
Main exports: executeNodeAction_level, Reached.level, skippedLevel_bounded
-/
import Riegeli.Proofs.DecoderSafety

namespace Riegeli

variable {Item : Type} {context : DecodeContext} {node : StateMachineNode} {state : DecodeState}

/-! ## What keeps the level -/

/-- The call leaves the level as it is. -/
def KeepsLevel (state : DecodeState) (call : Rust DecodeState) : Prop :=
  Meets (fun _ => True) call fun next =>
    next.skippedSubmessageLevel = state.skippedSubmessageLevel

theorem writeDest_level (state : DecodeState) (bytes : Bytes) :
    KeepsLevel state (writeDest state bytes) := by
  unfold writeDest
  exact Meets.bind (.any _) fun _ _ => rfl

theorem writeTag_level (node : StateMachineNode) (state : DecodeState) :
    KeepsLevel state (writeTag node state) := by
  unfold writeTag
  exact Meets.bind (.any _) fun tagBytes _ => writeDest_level state tagBytes

theorem pushLimit_level (context : DecodeContext) (state : DecodeState) :
    KeepsLevel state (pushLimit context state) := by
  unfold pushLimit
  exact Meets.ite (fun _ => trivial) fun _ => rfl

theorem writeSubmessageHeader_level : KeepsLevel state (writeSubmessageHeader context state) := by
  unfold writeSubmessageHeader
  split
  · trivial
  · rename_i frame rest _
    refine Meets.ite (fun _ => trivial) fun _ => Meets.ite (fun _ => trivial) fun _ => ?_
    refine Meets.bind (.any _) fun submessageNode _ => Meets.bind (.any _) fun tagBytes _ => ?_
    exact writeDest_level { state with submessageStack := rest } _

/-- A field that is read from a buffer and written. -/
theorem readThenWrite_level {index : Nat} {read : BufferCursor → Rust (Item × BufferCursor)}
    (render : Item → Bytes) :
    KeepsLevel state (do
      let (item, buffers) ← readBuffer state.buffers index read
      let tagBytes ← nodeTagBytes node
      writeDest { state with buffers := buffers } (tagBytes ++ render item)) :=
  Meets.bind (.any _) fun read _ => Meets.bind (.any _) fun tagBytes _ =>
    writeDest_level { state with buffers := read.2 } (tagBytes ++ render read.1)

theorem writeVarintField_level (dataLength : Nat) :
    KeepsLevel state (writeVarintField node dataLength state) := by
  unfold writeVarintField
  split
  · trivial
  · exact readThenWrite_level restoreHighBits

theorem writeFixedField_level (count : Nat) :
    KeepsLevel state (writeFixedField node count state) := by
  unfold writeFixedField
  split
  · trivial
  · exact readThenWrite_level id

theorem writeStringField_level : KeepsLevel state (writeStringField node state) := by
  unfold writeStringField
  split
  · trivial
  · exact readThenWrite_level id

theorem writeNonprotoRecord_level : KeepsLevel state (writeNonprotoRecord context node state) := by
  unfold writeNonprotoRecord
  split
  · trivial
  · refine Meets.bind (.any _) fun lengths _ => ?_
    obtain ⟨length, buffers⟩ := lengths
    dsimp only
    split
    · trivial
    · refine Meets.bind (.any _) fun record _ => ?_
      refine Meets.bind (writeDest_level { state with buffers := record.2 } record.1)
        fun after same => Meets.ite (fun _ => trivial) fun _ => ?_
      exact (pushLimit_level context after).mono fun _ later => later.trans same

theorem writeExistenceOnlyField_level :
    KeepsLevel state (writeExistenceOnlyField context node state) := by
  unfold writeExistenceOnlyField
  refine Meets.bind (.any _) fun tagOf _ => ?_
  cases tagOf with
  | none => rfl
  | some tag => exact Meets.ite (fun _ => trivial) fun _ => writeDest_level state _

theorem startProjectionGroup_level :
    KeepsLevel state (startProjectionGroup context node state) := by
  unfold startProjectionGroup
  split
  · trivial
  · rename_i frame rest _
    exact Meets.bind (.any _) fun _ _ => writeTag_level node { state with submessageStack := rest }

/-! ## One pass -/

/-- The level stays, or goes one down where it is positive, or one up. -/
theorem executeNodeAction_level (nodeIndex : Nat) (low : 0 ≤ state.skippedSubmessageLevel)
    (high : state.skippedSubmessageLevel + 1 < 2 ^ 31) :
    Meets (fun _ => True) (executeNodeAction context node nodeIndex state) fun next =>
      0 ≤ next.skippedSubmessageLevel ∧
        next.skippedSubmessageLevel ≤ state.skippedSubmessageLevel + 1 := by
  have kept : ∀ {call : Rust DecodeState}, KeepsLevel state call →
      Meets (fun _ => True) call fun next => 0 ≤ next.skippedSubmessageLevel ∧
        next.skippedSubmessageLevel ≤ state.skippedSubmessageLevel + 1 := by
    intro call keeps
    refine keeps.mono fun next same => ?_
    rw [same]
    omega
  unfold executeNodeAction
  refine .bind (.any _) fun callback _ => ?_
  cases callback with
  | noOp => exact kept rfl
  | messageStart => exact .ite (fun _ => trivial) fun _ => kept (pushLimit_level context state)
  | submessageStart => exact kept writeSubmessageHeader_level
  | submessageEnd => exact kept rfl
  | nonProto => exact kept writeNonprotoRecord_level
  | copyTag => exact kept (writeTag_level node state)
  | varint dataLength => exact kept (writeVarintField_level dataLength)
  | fixed32 => exact kept (writeFixedField_level 4)
  | fixed64 => exact kept (writeFixedField_level 8)
  | stringField => exact kept writeStringField_level
  | existenceOnly => exact kept writeExistenceOnlyField_level
  | failure => trivial
  | selectCallback => trivial
  | skippedSubmessageEnd =>
      change 0 ≤ wrapI32 _ ∧ wrapI32 _ ≤ _
      unfold wrapI32
      omega
  | endProjectionGroup => exact kept (writeTag_level node (pushFrame nodeIndex state))
  | startProjectionGroup => exact kept startProjectionGroup_level
  | skippedSubmessageStart =>
      refine .ite (fun _ => trivial) fun positive => ?_
      change 0 ≤ state.skippedSubmessageLevel - 1 ∧ state.skippedSubmessageLevel - 1 ≤ _
      omega

/-! ## All passes -/

/-- After so many passes the level is at most their number. -/
theorem Reached.level {start here : LoopState} {count : Nat}
    (level : start.state.skippedSubmessageLevel = 0) (reached : Reached context start count here)
    (few : count < 2 ^ 31) :
    0 ≤ here.state.skippedSubmessageLevel ∧ here.state.skippedSubmessageLevel ≤ count := by
  induction reached with
  | start => rw [level]; exact ⟨Int.le_refl _, Int.le_refl _⟩
  | @pass count here next node _ _ acts _ ih =>
      obtain ⟨low, high⟩ := ih (Nat.lt_of_succ_lt few)
      obtain ⟨lowNext, highNext⟩ :=
        (@executeNodeAction_level context _ _ here.current low (by omega)).of_ok acts
      exact ⟨lowNext, by omega⟩

end Riegeli
