/-
Module: Riegeli.Proofs.PathRuns
Purpose: A run of the decoder's state machine is the actions of the nodes it
  visits, and only those that stand for tags count.
Trusted boundary: none
Main exports: runPath, runLoop_of_visits, NodeAt, path_stands
-/
import Riegeli.Proofs.BuiltNodes

namespace Riegeli

/-- The actions of the nodes on a path, one after the other. -/
def runPath (context : DecodeContext) : List Nat → DecodeState → Rust DecodeState
  | [], state => .ok state
  | pos :: rest, state => do
      let node ← indexAt context.nodes pos
      let state ← executeNodeAction context node pos state
      runPath context rest state

variable {context : DecodeContext}

theorem runPath_append (first second : List Nat) :
    ∀ state, runPath context (first ++ second) state =
      (do let between ← runPath context first state; runPath context second between) := by
  induction first with
  | nil => exact fun _ => rfl
  | cons pos rest ih =>
      intro state
      rw [List.cons_append, runPath, runPath, bind_assoc]
      refine bind_congr fun node => ?_
      rw [bind_assoc]
      exact bind_congr fun between => ih between

/-- The loop of the state machine runs the nodes that it visits. -/
theorem runLoop_of_visits (fuel : Nat) :
    ∀ {current numIters : Nat} {transitions : BufferCursor} {path : List Nat}
      {state final : DecodeState},
      visits context.nodes fuel current numIters transitions = .ok path →
      runPath context path state = .ok final →
      runLoop context fuel current numIters transitions state = .ok final := by
  induction fuel with
  | zero =>
      intro current numIters transitions path state final visited
      cases visited
  | succ fuel ih =>
      intro current numIters transitions path state final visited ran
      obtain ⟨advanced, moves, visited⟩ := Except.bind_eq_ok.mp visited
      rw [runLoop]
      cases advanced with
      | none =>
          cases visited
          obtain ⟨node, found, ran⟩ := Except.bind_eq_ok.mp ran
          obtain ⟨after, acted, ran⟩ := Except.bind_eq_ok.mp ran
          cases ran
          rw [found, Except.ok_bind, acted, Except.ok_bind, moves, Except.ok_bind]
      | some step =>
          obtain ⟨next, iters, unread⟩ := step
          obtain ⟨rest, later, same⟩ := Except.bind_eq_ok.mp visited
          cases same
          obtain ⟨node, found, ran⟩ := Except.bind_eq_ok.mp ran
          obtain ⟨after, acted, ran⟩ := Except.bind_eq_ok.mp ran
          rw [found, Except.ok_bind, acted, Except.ok_bind, moves, Except.ok_bind]
          exact ih later ran

/-! ## Positions that stand for tags -/

variable (context) (bufferPos : NodeId → Option Nat)

/-- The node at a position is that of the tag. -/
def NodeAt (pos : Nat) (op : TagOp) : Prop :=
  ∃ node, context.nodes[pos]? = some node ∧
    LabelNode bufferPos context.includeMap.isSome context.nodeTemplates op.nodeId op.subtype node

/-- The tag at an index of the tags list. -/
def Names (tags : List EncodedTagInfo) (tag : Nat) (op : TagOp) : Prop :=
  tags[tag]?.map EncodedTagInfo.label = some (op.nodeId, op.subtype)

variable {context bufferPos}

/-- A NoOp does nothing. -/
theorem executeNodeAction_noOp {node : StateMachineNode} {pos : Nat} {state : DecodeState}
    (idle : node.callbackType = .noOp) :
    executeNodeAction context node pos state = .ok state := by
  rw [executeNodeAction, effectiveCallback, idle]
  rfl

/-- The positions on a path that stand for tags, in order, do all that the path
does. -/
theorem path_stands {stateMachine : List StateInfo} {tags : List EncodedTagInfo}
    (nodes : ∀ (pos : Nat) (state : StateInfo), stateMachine[pos]? = some state → ∃ node,
      context.nodes[pos]? = some node ∧
        StateNode bufferPos context.includeMap.isSome context.nodeTemplates (labelAt tags state) node)
    (path : List Nat) :
    ∀ {tagged : List Nat} {ops : List TagOp}, (∀ pos ∈ path, pos < stateMachine.length) →
      path.filterMap (tagAt stateMachine) = tagged → List.Forall₂ (Names tags) tagged ops →
      ∃ positions, List.Forall₂ (NodeAt context bufferPos) positions ops ∧
        ∀ state, runPath context path state = runPath context positions state := by
  induction path with
  | nil =>
      intro tagged ops _ filtered names
      cases filtered
      cases names
      exact ⟨[], .nil, fun _ => rfl⟩
  | cons pos rest ih =>
      intro tagged ops inside filtered names
      obtain ⟨here, inside⟩ := List.forall_mem_cons.mp inside
      obtain ⟨node, found, stateNode⟩ := nodes pos _ (List.getElem?_eq_getElem here)
      by_cases isNoop : stateMachine[pos].etagIndex = invalidPos
      · have untagged : tagAt stateMachine pos = none := by
          rw [tagAt, List.getElem?_eq_getElem here]
          exact if_pos isNoop
        rw [List.filterMap_cons_none untagged] at filtered
        obtain ⟨positions, stand, same⟩ := ih inside filtered names
        have idle : node.callbackType = .noOp := by
          rw [labelAt, if_pos isNoop] at stateNode
          exact stateNode
        refine ⟨positions, stand, fun state => ?_⟩
        rw [runPath, indexAt_eq_ok.mpr found, Except.ok_bind, executeNodeAction_noOp idle,
          Except.ok_bind, same]
      · have tag : tagAt stateMachine pos = some stateMachine[pos].etagIndex := by
          rw [tagAt, List.getElem?_eq_getElem here]
          exact if_neg isNoop
        rw [List.filterMap_cons_some tag] at filtered
        subst filtered
        cases names with
        | @cons _ op _ ops name names =>
        obtain ⟨positions, stand, same⟩ := ih inside rfl names
        rw [labelAt, if_neg isNoop, show tags[_]?.map _ = _ from name] at stateNode
        refine ⟨pos :: positions, .cons ⟨node, found, stateNode⟩ stand, fun state => ?_⟩
        rw [runPath, runPath]
        refine bind_congr fun node => bind_congr fun between => same between

end Riegeli
