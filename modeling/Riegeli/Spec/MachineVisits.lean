/-
Module: Riegeli.Spec.MachineVisits
Purpose: The nodes that the decoder's state machine visits, told apart from
  what it does there, and the offsets that drive it.
Trusted boundary: none
Main exports: visits, NodeWalk, Descends, NodesOf, tagAt, Drives, Replays
-/
import Riegeli.Spec.EmittedOffsets
import Riegeli.Core.TransposeChunk
import Riegeli.Core.TransposeDecoder
import Mathlib.Data.List.Dedup

namespace Riegeli

/-- The nodes that `run_state_machine` visits, in order. -/
def visits (nodes : List StateMachineNode) : Nat → Nat → Nat → BufferCursor → Rust (List Nat)
  | 0, _, _, _ => .error .outOfFuel
  | fuel + 1, current, numIters, transitions => do
      let advanced ← advanceStateMachine nodes current numIters transitions
      match advanced with
      | none => .ok [current]
      | some (next, iters, transitions) => do
          let visited ← visits nodes fuel next iters transitions
          .ok (current :: visited)

/-- Offsets lead through the nodes of a path: an implicit node is left without
one, any other by the next one, and the path ends with the offsets. -/
inductive NodeWalk (nodes : List StateMachineNode) : Nat → List Nat → List Nat → Prop where
  | stop {current : Nat} {node : StateMachineNode} :
      nodes[current]? = some node → node.isImplicit = false → NodeWalk nodes current [] [current]
  | implicit {current : Nat} {node : StateMachineNode} {offsets path : List Nat} :
      nodes[current]? = some node → node.isImplicit = true →
      NodeWalk nodes node.nextNodeIndex offsets path →
      NodeWalk nodes current offsets (current :: path)
  | hop {current offset : Nat} {node : StateMachineNode} {offsets path : List Nat} :
      nodes[current]? = some node → node.isImplicit = false →
      NodeWalk nodes (node.nextNodeIndex + offset) offsets path →
      NodeWalk nodes current (offset :: offsets) (current :: path)

/-- A rank that goes down along every implicit transition. -/
def Descends (nodes : List StateMachineNode) (rank : Nat → Nat) : Prop :=
  ∀ index node, nodes[index]? = some node → node.isImplicit = true →
    rank node.nextNodeIndex < rank index

/-- The nodes that the decoder makes of the states in a header: the base of a
state is the index of the next node, with the number of states added when the
transition is implicit. -/
def NodesOf (entries : List StateEntry) (nodes : List StateMachineNode) : Prop :=
  List.Forall₂
    (fun entry node =>
      splitNextNode entry.base entries.length = .ok (node.isImplicit, node.nextNodeIndex))
    entries nodes

/-- The tag of the state at a position, unless it is a NoOp. -/
def tagAt (stateMachine : List StateInfo) (pos : Nat) : Option Nat :=
  match stateMachine[pos]? with
  | none => none
  | some state => if state.etagIndex = invalidPos then none else some state.etagIndex

/-- The nodes have no implicit loop and lead the decoder along a path of
states with these tags, last one first, and no further. -/
structure Drives (nodes : List StateMachineNode) (stateMachine : List StateInfo)
    (encodedTags : List Nat) (transitions : Bytes) (path : List Nat) : Prop where
  looping : containsImplicitLoop nodes = .ok false
  visited : ∃ first, nodes[firstTagPos encodedTags stateMachine]? = some first ∧
    visits nodes (runFuel nodes (BufferCursor.new transitions))
      (firstTagPos encodedTags stateMachine) (implicitCount first)
      (BufferCursor.new transitions) = .ok path
  inside : ∀ pos ∈ path, pos < stateMachine.length
  tagged : path.filterMap (tagAt stateMachine) = encodedTags.reverse

/-- The number of different transitions in a sequence of tags. -/
def distinctTransitions (encodedTags : List Nat) : Nat :=
  (encodedTags.reverse.zip encodedTags.reverse.tail).dedup.length

/-- The machine built for a sequence of tags is complete: every step of the
construction succeeds, the bytes of the transitions stand for offsets of at most
63, and whatever nodes the decoder makes of the states have no implicit loop and
lead it through the tags, last one first, and no further. -/
def Replays (tags : List EncodedTagInfo) (encodedTags : List Nat)
    (bufferPos : NodeId → Option Nat) : Prop :=
  ∃ stateMachine built tags' entries offsets transitions,
    createStateMachine tags encodedTags = .ok (stateMachine, built) ∧
    ensureLastStateExplicit built encodedTags = .ok tags' ∧
    stateEntries tags' bufferPos stateMachine.length stateMachine = .ok entries ∧
    (∀ entry ∈ entries, entry.base ≤ u32Max) ∧
    buildTransitions tags' encodedTags stateMachine = .ok transitions ∧
    emittedOffsets tags' encodedTags stateMachine = .ok offsets ∧
    (∀ offset ∈ offsets, offset ≤ maxTransition) ∧ expandBytes transitions = offsets ∧
    (∃ nodes, NodesOf entries nodes) ∧
    ∀ nodes, NodesOf entries nodes →
      containsImplicitLoop (nodes ++ failureNodes) = .ok false ∧
      ∃ first path,
        (nodes ++ failureNodes)[firstTagPos encodedTags stateMachine]? = some first ∧
        visits (nodes ++ failureNodes)
            (runFuel (nodes ++ failureNodes) (BufferCursor.new transitions))
            (firstTagPos encodedTags stateMachine) (implicitCount first)
            (BufferCursor.new transitions) = .ok path ∧
        path.filterMap (tagAt stateMachine) = encodedTags.reverse ∧
        path.getLast?.bind (tagAt stateMachine) = encodedTags.head?

end Riegeli
