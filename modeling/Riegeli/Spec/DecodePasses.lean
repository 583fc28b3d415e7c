/-
Module: Riegeli.Spec.DecodePasses
Purpose: The passes of the decoder's state machine one by one, and the loops
  that it must not be given.
Trusted boundary: none
Main exports: ImplicitStep, ImplicitCycle, RunLength, LoopState, Reached
-/
import Riegeli.Core.TransposeDecoder
import Mathlib.Logic.Relation

namespace Riegeli

/-! ## Implicit transitions -/

/-- An implicit transition leads from one node to the other. -/
def ImplicitStep (nodes : List StateMachineNode) (index next : Nat) : Prop :=
  ∃ node, nodes[index]? = some node ∧ node.isImplicit = true ∧ node.nextNodeIndex = next

/-- Implicit transitions lead from a node back to itself. -/
def ImplicitCycle (nodes : List StateMachineNode) : Prop :=
  ∃ index, Relation.TransGen (ImplicitStep nodes) index index

/-- The number of nodes that are met from one on, up to the first whose
transition is explicit. -/
inductive RunLength (nodes : List StateMachineNode) : Nat → Nat → Prop where
  | outside {index : Nat} : nodes[index]? = none → RunLength nodes index 0
  | explicit {index : Nat} {node : StateMachineNode} :
      nodes[index]? = some node → node.isImplicit = false → RunLength nodes index 1
  | implicit {index length : Nat} {node : StateMachineNode} :
      nodes[index]? = some node → node.isImplicit = true →
      RunLength nodes node.nextNodeIndex length → RunLength nodes index (length + 1)

/-! ## Passes -/

/-- Where the loop of `run_state_machine` stands before a pass. -/
structure LoopState where
  current : Nat
  numIters : Nat
  transitions : BufferCursor
  state : DecodeState

/-- What the loop reaches after so many passes, each of them a node action and a
transition.  The action at a state that is reached is the next one. -/
inductive Reached (context : DecodeContext) (start : LoopState) : Nat → LoopState → Prop where
  | start : Reached context start 0 start
  | pass {count : Nat} {here next : LoopState} {node : StateMachineNode} :
      Reached context start count here → context.nodes[here.current]? = some node →
      executeNodeAction context node here.current here.state = .ok next.state →
      advanceStateMachine context.nodes here.current here.numIters here.transitions =
        .ok (some (next.current, next.numIters, next.transitions)) →
      Reached context start (count + 1) next

/-- The loop at its start. -/
def LoopState.first (firstNode : Nat) (node : StateMachineNode) (transitions : BufferCursor)
    (state : DecodeState) : LoopState where
  current := firstNode
  numIters := implicitCount node
  transitions := transitions
  state := state

end Riegeli
