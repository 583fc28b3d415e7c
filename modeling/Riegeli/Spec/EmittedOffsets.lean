/-
Module: Riegeli.Spec.EmittedOffsets
Purpose: The offsets that `build_transitions` emits, as numbers, before each is
  cut down to a byte and packed.
Trusted boundary: none
Main exports: offsetsTo, transitionOffsets, emittedOffsets, expandBytes
-/
import Riegeli.Core.StateMachine

namespace Riegeli

/-- `canonicalWalk` with the offsets it computes. -/
def walkOffsets (stateMachine : List StateInfo) (checked : Bool) (currentBase : Nat) :
    Nat → Nat → List Nat → Rust (Nat × List Nat)
  | 0, _, _ => .error .outOfFuel
  | fuel + 1, target, offsets =>
      if target < currentBase ∨
          (currentBase ≠ invalidPos ∧ maxTransition < target - currentBase) then do
        let state ← indexAt stateMachine target
        let cs := state.canonicalSource
        if checked && decide (cs = invalidPos ∨ stateMachine.length ≤ cs) then
          .ok (target, offsets)
        else do
          let source ← indexAt stateMachine cs
          let offset ← subWord target source.base
          walkOffsets stateMachine checked currentBase fuel cs (offset :: offsets)
      else .ok (target, offsets)

/-- The offsets from `currentBase` to `target`. -/
def offsetsTo (stateMachine : List StateInfo) (checked : Bool) (currentBase target : Nat) :
    Rust (List Nat) := do
  let (target, offsets) ←
    walkOffsets stateMachine checked currentBase (target + 2) target []
  let offset ← subWord target currentBase
  .ok (offset :: offsets)

/-- The position that a tag keeps for a destination of its private list. -/
def EncodedTagInfo.privatePos (info : EncodedTagInfo) (tag : Nat) : Nat :=
  ((info.destInfo.lookup tag).map DestInfo.pos).getD invalidPos

/-- The offsets from a base to a state, none when one of them is missing. -/
def offsetsIfAny (stateMachine : List StateInfo) (currentBase pos : Nat) : Rust (List Nat) :=
  if currentBase = invalidPos ∨ pos = invalidPos then .ok []
  else offsetsTo stateMachine true currentBase pos

/-- The offsets of the transition from one tag to the next. -/
def transitionOffsets (stateMachine : List StateInfo) (prev next : EncodedTagInfo) (tag : Nat) :
    Rust (List Nat) :=
  if prev.destInfo.length = 1 then .ok []
  else if prev.privatePos tag ≠ invalidPos then
    offsetsIfAny stateMachine prev.base (prev.privatePos tag)
  else if prev.publicListNoopPos ≠ invalidPos then do
    let first ← offsetsTo stateMachine false prev.base prev.publicListNoopPos
    let noop ← indexAt stateMachine prev.publicListNoopPos
    let second ← offsetsIfAny stateMachine noop.base next.stateMachinePos
    .ok (first ++ second)
  else offsetsIfAny stateMachine prev.base next.stateMachinePos

/-- The offsets of all transitions, from a tag on. -/
def offsetsFrom (tags : List EncodedTagInfo) (stateMachine : List StateInfo) :
    Nat → List Nat → Rust (List Nat)
  | _, [] => .ok []
  | from', tag :: rest => do
      let prev ← indexAt tags from'
      let next ← indexAt tags tag
      let here ← transitionOffsets stateMachine prev next tag
      let later ← offsetsFrom tags stateMachine tag rest
      .ok (here ++ later)

/-- The offsets that `build_transitions` emits. -/
def emittedOffsets (tags : List EncodedTagInfo) (encodedTags : List Nat)
    (stateMachine : List StateInfo) : Rust (List Nat) :=
  match encodedTags.reverse with
  | [] => .ok []
  | last :: rest => offsetsFrom tags stateMachine last rest

/-- The offsets that a transition byte stands for: its own, and a zero for each
repetition. -/
def expandByte (byte : UInt8) : List Nat :=
  byte.toNat / 4 :: List.replicate (byte.toNat % 4) 0

/-- The offsets that transition bytes stand for. -/
def expandBytes (bytes : Bytes) : List Nat := bytes.flatMap expandByte

end Riegeli
