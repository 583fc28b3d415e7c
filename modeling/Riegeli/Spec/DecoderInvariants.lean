/-
Module: Riegeli.Spec.DecoderInvariants
Purpose: What holds of a transposed decoder's data between its steps, whatever
  chunk it was given.
Trusted boundary: the codecs
Main exports: Fault.Returned, BufferCursor.Inside, ParsedHeader.Sound,
  NodeTemplate.Short, StateMachineNode.Sound, BuiltStateMachine.Sound,
  DecodeContext.Sound, DecodeState.Sound
-/
import Riegeli.Core.TransposeDecoder
import Riegeli.Library.Contract

namespace Riegeli

/-- The fault is an `Err` that the call returns, neither a panic nor a loop
without end. -/
def Fault.Returned (fault : Fault) : Prop := ∃ error, fault = .error error

/-- A cursor stands inside its data. -/
def BufferCursor.Inside (self : BufferCursor) : Prop := self.pos ≤ self.data.length

/-- What the header parser hands on. -/
structure ParsedHeader.Sound (parsed : ParsedHeader) : Prop where
  tags : parsed.tags.length = parsed.numStates
  nextNodes : parsed.nextNodeIndices.length = parsed.numStates
  words : ∀ tag ∈ parsed.tags, tag ≤ u32Max
  subtypes : parsed.subtypesBytes.length = countSubtypes parsed.tags
  hdr : parsed.hdr.Inside
  buffers : parsed.buffers.length = parsed.numBuffers
  inside : ∀ buffer ∈ parsed.buffers, buffer.Inside

/-- The tag of a template is that of a `u32`. -/
def NodeTemplate.Short (template : NodeTemplate) : Prop := template.tagLength ≤ 5

/-- A node refers to nodes, buffers and templates that are there. -/
structure StateMachineNode.Sound (numNodes numBuffers numTemplates : Nat)
    (node : StateMachineNode) : Prop where
  sized : node.tagDataSize ≤ node.tagData.length
  next : node.nextNodeIndex < numNodes
  buffer : ∀ index, node.bufferIndex = some index → index < numBuffers
  template : ∀ index, node.nodeTemplateIndex = some index → index < numTemplates

/-- What the nodes are built to. -/
structure BuiltStateMachine.Sound (numBuffers : Nat) (built : BuiltStateMachine) : Prop where
  nodes : ∀ node ∈ built.nodes,
    node.Sound built.nodes.length numBuffers built.nodeTemplates.length
  templates : ∀ template ∈ built.nodeTemplates, template.Short
  first : built.firstNode < built.nodes.length
  loopless : containsImplicitLoop built.nodes = .ok false

/-- What the decoding of a chunk refers to. -/
structure DecodeContext.Sound (numBuffers : Nat) (context : DecodeContext) : Prop where
  nodes : ∀ node ∈ context.nodes,
    node.Sound context.nodes.length numBuffers context.nodeTemplates.length
  templates : ∀ template ∈ context.nodeTemplates, template.Short
  lengths : ∀ index, context.nonprotoLengthsIndex = some index → index < numBuffers

/-- What the decoding of a chunk leaves behind after each of its steps. -/
structure DecodeState.Sound (numNodes numBuffers size : Nat) (state : DecodeState) : Prop where
  limit : state.dest.limit = size
  room : state.dest.data.length ≤ size
  buffers : state.buffers.length = numBuffers
  inside : ∀ buffer ∈ state.buffers, buffer.Inside
  frames : ∀ frame ∈ state.submessageStack, frame.nodeIndex < numNodes
  limits : ∀ limit ∈ state.limits, limit ≤ state.dest.pos

end Riegeli
