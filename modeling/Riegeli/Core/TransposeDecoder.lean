/-
Module: Riegeli.Core.TransposeDecoder
Purpose: The decoder of `transpose/decoder.rs`: the state machine that writes
  the records backward, with field projection, and what is read from it.
Trusted boundary: the hash and the codecs
Main exports: Decoder.BackwardBuffer, DecodeState, executeNodeAction,
  advanceStateMachine, runStateMachine, finalizeRecords,
  TransposeChunkDecoder.newWithProjection, TransposeChunkDecoder.readRecord
-/
import Riegeli.Core.TransposeHeader

namespace Riegeli

variable (ext : Externals)

/-- The decoder's `BackwardBuffer`: bytes in reverse order, up to a limit. -/
structure Decoder.BackwardBuffer where
  data : Bytes
  limit : Nat
deriving Repr, DecidableEq

namespace Decoder.BackwardBuffer

/-- `BackwardBuffer::new`. -/
def new (limit : Nat) : BackwardBuffer := { data := [], limit := limit }

/-- `BackwardBuffer::pos`. -/
def pos (self : BackwardBuffer) : Nat := self.data.length

/-- `BackwardBuffer::write`. -/
def write (self : BackwardBuffer) (bytes : Bytes) : Rust BackwardBuffer := do
  let room ← subWord self.limit self.data.length
  if room < bytes.length then .error (malformed "decoded data size larger than expected")
  else .ok { self with data := self.data ++ bytes.reverse }

/-- `BackwardBuffer::into_forward`. -/
def intoForward (self : BackwardBuffer) : Bytes := self.data.reverse

end Decoder.BackwardBuffer

/-- `SubmessageFrame`. -/
structure SubmessageFrame where
  endPos : Nat
  nodeIndex : Nat
deriving Repr, DecidableEq

/-- `FieldIncluded`. -/
inductive FieldIncluded where
  | yes
  | no
  | existenceOnly
deriving Repr, DecidableEq

/-- `DecodeState`.  The top of the submessage stack is its head.  What the
decoding does not change is in `DecodeContext`. -/
structure DecodeState where
  dest : Decoder.BackwardBuffer
  buffers : List BufferCursor
  submessageStack : List SubmessageFrame
  limits : List Nat
  skippedSubmessageLevel : Int
deriving Repr, DecidableEq

/-- The fields of `DecodeState` that stay as they are, and the nodes. -/
structure DecodeContext where
  nodes : List StateMachineNode
  numRecords : Nat
  nonprotoLengthsIndex : Option Nat
  nodeTemplates : List NodeTemplate
  includeMap : Option IncludeFieldMap
deriving Repr, DecidableEq

/-- An `i32` sum in a build without overflow checks, where it wraps. -/
def wrapI32 (value : Int) : Int := (value + 2 ^ 31) % 2 ^ 32 - 2 ^ 31

/-! ## Inclusion -/

/-- The walk of `resolve_select_callback` over the frames, outermost first:
the inclusion decided on the way and the parent reached. -/
def walkFrames (nodes : List StateMachineNode) (includeMap : IncludeFieldMap) :
    List SubmessageFrame → Nat → Rust (FieldIncluded × Nat)
  | [], currentParentId => .ok (.existenceOnly, currentParentId)
  | frame :: rest, currentParentId => do
      let frameNode ← indexAt nodes frame.nodeIndex
      if frameNode.tagData.isEmpty then .ok (.no, currentParentId)
      else
        match decodeU32 frameNode.tagData with
        | .error error => .error (malformed s!"decoding frame tag: {error.toText}")
        | .ok (frameTag, _) =>
            match includeMap.get currentParentId (tagFieldNumber frameTag) with
            | none => .ok (.no, currentParentId)
            | some entry =>
                if entry.includeType = .includeFully then .ok (.yes, currentParentId)
                else walkFrames nodes includeMap rest entry.fieldId

/-- The inclusion of the field itself, where the walk has not decided it. -/
def fieldIncludedBelow (includeMap : IncludeFieldMap) (tag : Nat) :
    FieldIncluded × Nat → FieldIncluded
  | (.existenceOnly, currentParentId) =>
      match includeMap.get currentParentId (tagFieldNumber tag) with
      | none => .no
      | some entry =>
          if entry.includeType = .includeFully ∨ entry.includeType = .includeChild then .yes
          else .existenceOnly
  | (decided, _) => decided

/-- `callback_for_field_included`. -/
def callbackForFieldIncluded (included : FieldIncluded) (tag subtype : Nat) :
    Rust CallbackType :=
  let wireType := tagWireType tag
  match included with
  | .yes =>
      match wireType with
      | some .endGroup => .ok .endProjectionGroup
      | some .startGroup => .ok .startProjectionGroup
      | _ => callbackForWireType wireType subtype
  | .no =>
      match wireType with
      | some .varint => .ok .noOp
      | some .fixed32 => .ok .noOp
      | some .fixed64 => .ok .noOp
      | some .lengthDelimited =>
          if subtype = Subtype.lengthDelimitedString then .ok .noOp
          else if subtype = Subtype.lengthDelimitedEndOfSubmessage then
            .ok .skippedSubmessageEnd
          else
            .error (malformed s!"unknown LengthDelimited subtype {subtype} in excluded field")
      | some .startGroup => .ok .skippedSubmessageStart
      | some .endGroup => .ok .skippedSubmessageEnd
      | none => .error (malformed "invalid wire type in excluded field")
  | .existenceOnly =>
      if wireType = some .lengthDelimited ∧
          subtype = Subtype.lengthDelimitedEndOfSubmessage then .ok .submessageEnd
      else if wireType = some .endGroup then .ok .endProjectionGroup
      else if wireType = some .startGroup then .ok .startProjectionGroup
      else .ok .existenceOnly

/-- The inclusion of a field in the frames around it. -/
def resolveInclusion (nodes : List StateMachineNode) (includeMap : IncludeFieldMap)
    (submessageStack : List SubmessageFrame) (skippedSubmessageLevel : Int) (tag : Nat) :
    Rust FieldIncluded :=
  if skippedSubmessageLevel = 0 then do
    -- a group's start finds the frame of the group itself on the stack
    let frames :=
      if tagWireType tag = some .startGroup then submessageStack.tail else submessageStack
    let walked ← walkFrames nodes includeMap frames.reverse IncludeFieldMap.invalidPos
    .ok (fieldIncludedBelow includeMap tag walked)
  else .ok .no

/-- `resolve_select_callback`. -/
def resolveSelectCallback (context : DecodeContext) (includeMap : IncludeFieldMap)
    (node : StateMachineNode) (submessageStack : List SubmessageFrame)
    (skippedSubmessageLevel : Int) : Rust CallbackType :=
  match node.nodeTemplateIndex with
  | none => .error (malformed "SelectCallback node missing template index")
  | some index => do
      let template ← indexAt context.nodeTemplates index
      if template.tag = MessageId.startOfSubmessage then
        if 0 < skippedSubmessageLevel then .ok .skippedSubmessageStart
        else .ok .submessageStart
      else do
        let included ←
          resolveInclusion context.nodes includeMap submessageStack skippedSubmessageLevel
            template.tag
        callbackForFieldIncluded included template.tag template.subtype

/-- The callback that a node runs, the first half of `execute_node_action`. -/
def effectiveCallback (context : DecodeContext) (node : StateMachineNode)
    (state : DecodeState) : Rust CallbackType :=
  if node.callbackType = .selectCallback then
    match context.includeMap with
    | some includeMap =>
        resolveSelectCallback context includeMap node state.submessageStack
          state.skippedSubmessageLevel
    | none =>
        match node.nodeTemplateIndex with
        | none => .error (malformed "SelectCallback missing template")
        | some index => do
            let template ← indexAt context.nodeTemplates index
            if template.tag = MessageId.startOfSubmessage then .ok .submessageStart
            else callbackForWireType (tagWireType template.tag) template.subtype
  else .ok node.callbackType

/-! ## Writers -/

/-- Read from one of the buffers. -/
def readBuffer {Item : Type} (buffers : List BufferCursor) (index : Nat)
    (read : BufferCursor → Rust (Item × BufferCursor)) : Rust (Item × List BufferCursor) := do
  let cursor ← indexAt buffers index
  let (item, cursor) ← read cursor
  let buffers ← setAt buffers index cursor
  .ok (item, buffers)

/-- The tag bytes of a node, `&node.tag_data[..node.tag_data_size]`. -/
def nodeTagBytes (node : StateMachineNode) : Rust Bytes :=
  sliceRange node.tagData 0 node.tagDataSize

/-- Prepend bytes to the output. -/
def writeDest (state : DecodeState) (bytes : Bytes) : Rust DecodeState := do
  let dest ← state.dest.write bytes
  .ok { state with dest := dest }

/-- Prepend the tag bytes of a node. -/
def writeTag (node : StateMachineNode) (state : DecodeState) : Rust DecodeState := do
  let tagBytes ← nodeTagBytes node
  writeDest state tagBytes

/-- Push a record boundary. -/
def pushLimit (context : DecodeContext) (state : DecodeState) : Rust DecodeState :=
  if state.limits.length = context.numRecords then .error (malformed "too many records")
  else .ok { state with limits := state.limits ++ [state.dest.pos] }

/-- Push a submessage frame of the current node. -/
def pushFrame (nodeIndex : Nat) (state : DecodeState) : DecodeState :=
  { state with
    submessageStack :=
      { endPos := state.dest.pos, nodeIndex := nodeIndex } :: state.submessageStack }

/-- `write_submessage_header`. -/
def writeSubmessageHeader (context : DecodeContext) (state : DecodeState) : Rust DecodeState :=
  match state.submessageStack with
  | [] => .error (malformed "submessage stack underflow")
  | frame :: rest =>
      if state.dest.pos < frame.endPos then
        .error (malformed "destination position decreased")
      else
        let length := state.dest.pos - frame.endPos
        if u32Max < length then .error (malformed "submessage too large")
        else do
          let submessageNode ← indexAt context.nodes frame.nodeIndex
          let tagBytes ← nodeTagBytes submessageNode
          writeDest { state with submessageStack := rest } (tagBytes ++ encodeU32 length)

/-- `write_nonproto_record`. -/
def writeNonprotoRecord (context : DecodeContext) (node : StateMachineNode)
    (state : DecodeState) : Rust DecodeState :=
  match context.nonprotoLengthsIndex with
  | none => .error (malformed "nonproto op but no lengths buffer")
  | some lengthsIndex => do
      let (length, buffers) ← readBuffer state.buffers lengthsIndex BufferCursor.readVarint32
      match node.bufferIndex with
      | none => .error (malformed "nonproto node missing buffer index")
      | some dataIndex => do
          let (record, buffers) ←
            readBuffer buffers dataIndex fun cursor => cursor.readExact length
          let state ← writeDest { state with buffers := buffers } record
          if state.submessageStack.isEmpty = false then
            .error (malformed "submessages still open at nonproto record")
          else pushLimit context state

/-- Set the high bit of every byte but the last. -/
def restoreHighBits : Bytes → Bytes
  | [] => []
  | [last] => [last]
  | byte :: next :: rest => (byte ||| 0x80) :: restoreHighBits (next :: rest)

/-- `write_varint_field`. -/
def writeVarintField (node : StateMachineNode) (dataLength : Nat) (state : DecodeState) :
    Rust DecodeState :=
  match node.bufferIndex with
  | none => .error (malformed "varint node missing buffer index")
  | some index => do
      let (raw, buffers) ←
        readBuffer state.buffers index fun cursor => cursor.readExact dataLength
      let tagBytes ← nodeTagBytes node
      writeDest { state with buffers := buffers } (tagBytes ++ restoreHighBits raw)

/-- `write_fixed_field`. -/
def writeFixedField (node : StateMachineNode) (count : Nat) (state : DecodeState) :
    Rust DecodeState :=
  match node.bufferIndex with
  | none => .error (malformed "fixed field node missing buffer index")
  | some index => do
      let (data, buffers) ← readBuffer state.buffers index fun cursor => cursor.readExact count
      let tagBytes ← nodeTagBytes node
      writeDest { state with buffers := buffers } (tagBytes ++ data)

/-- The length and the payload of a string, verbatim. -/
def readString (cursor : BufferCursor) : Rust (Bytes × BufferCursor) :=
  if cursor.pruned then .ok ([0], cursor)
  else do
    let start := cursor.pos
    let (length, cursor) ← cursor.readVarint32
    let (_, cursor) ← cursor.readExact length
    let bytes ← sliceRange cursor.data start cursor.pos
    .ok (bytes, cursor)

/-- `write_string_field`. -/
def writeStringField (node : StateMachineNode) (state : DecodeState) : Rust DecodeState :=
  match node.bufferIndex with
  | none => .error (malformed "string node missing buffer index")
  | some index => do
      let (bytes, buffers) ← readBuffer state.buffers index readString
      let tagBytes ← nodeTagBytes node
      writeDest { state with buffers := buffers } (tagBytes ++ bytes)

/-- The zero value of a wire type. -/
def zeroValue : Option WireType → Bytes
  | some .varint => [0]
  | some .fixed32 => [0, 0, 0, 0]
  | some .fixed64 => [0, 0, 0, 0, 0, 0, 0, 0]
  | some .lengthDelimited => [0]
  | _ => []

/-- The tag of an existence-only node and the length of its encoding, or
`none` for a node with neither a template nor tag bytes. -/
def existenceOnlyTag (context : DecodeContext) (node : StateMachineNode) :
    Rust (Option (Nat × Nat)) :=
  match node.nodeTemplateIndex with
  | some index => do
      let template ← indexAt context.nodeTemplates index
      .ok (some (template.tag, template.tagLength))
  | none =>
      if node.tagData.isEmpty then .ok none
      else
        match decodeU32 node.tagData with
        | .error error => .error (malformed s!"decoding tag: {error.toText}")
        | .ok (tag, _) => .ok (some (tag, (encodeU32 tag).length))

/-- `write_existence_only_field`.  The bytes go through a 13-byte array. -/
def writeExistenceOnlyField (context : DecodeContext) (node : StateMachineNode)
    (state : DecodeState) : Rust DecodeState := do
  let tagOf ← existenceOnlyTag context node
  match tagOf with
  | none => .ok state
  | some (tag, tagLength) =>
      let tagBytes := node.tagData.take node.tagDataSize
      let bytes := tagBytes.take tagLength ++ zeroValue (tagWireType tag)
      if 13 < bytes.length then .error (.panic .sliceOutOfRange)
      else writeDest state bytes

/-- A popped frame must be that of a group. -/
def checkGroupFrame (context : DecodeContext) (frame : SubmessageFrame) : Rust Unit := do
  let frameNode ← indexAt context.nodes frame.nodeIndex
  let wireType :=
    match decodeU32 frameNode.tagData with
    | .error _ => none
    | .ok (tag, _) => tagWireType tag
  if frameNode.tagData.isEmpty = false ∧ wireType = some .endGroup then .ok ()
  else .error (malformed "group start paired with a non-group frame")

/-- `StartProjectionGroup`. -/
def startProjectionGroup (context : DecodeContext) (node : StateMachineNode)
    (state : DecodeState) : Rust DecodeState :=
  match state.submessageStack with
  | [] => .error (malformed "group frame stack underflow")
  | frame :: rest => do
      checkGroupFrame context frame
      writeTag node { state with submessageStack := rest }

/-- The `match` on the callback in `execute_node_action`. -/
def runCallback (context : DecodeContext) (node : StateMachineNode) (nodeIndex : Nat)
    (callback : CallbackType) (state : DecodeState) : Rust DecodeState :=
  match callback with
  | .noOp => .ok state
  | .messageStart =>
      if state.submessageStack.isEmpty = false then
        .error (malformed "submessages still open at record boundary")
      else pushLimit context state
  | .submessageEnd => .ok (pushFrame nodeIndex state)
  | .submessageStart => writeSubmessageHeader context state
  | .nonProto => writeNonprotoRecord context node state
  | .copyTag => writeTag node state
  | .varint dataLength => writeVarintField node dataLength state
  | .fixed32 => writeFixedField node 4 state
  | .fixed64 => writeFixedField node 8 state
  | .stringField => writeStringField node state
  | .existenceOnly => writeExistenceOnlyField context node state
  | .failure => .error (malformed "hit failure node in state machine")
  | .skippedSubmessageEnd =>
      .ok { state with skippedSubmessageLevel := wrapI32 (state.skippedSubmessageLevel + 1) }
  | .endProjectionGroup => writeTag node (pushFrame nodeIndex state)
  | .startProjectionGroup => startProjectionGroup context node state
  | .skippedSubmessageStart =>
      if state.skippedSubmessageLevel ≤ 0 then
        .error (malformed "skipped submessage stack underflow")
      else .ok { state with skippedSubmessageLevel := state.skippedSubmessageLevel - 1 }
  | .selectCallback => .error (malformed "unresolved SelectCallback in decode loop")

/-- `execute_node_action`. -/
def executeNodeAction (context : DecodeContext) (node : StateMachineNode) (nodeIndex : Nat)
    (state : DecodeState) : Rust DecodeState := do
  let callback ← effectiveCallback context node state
  runCallback context node nodeIndex callback state

/-! ## The state machine -/

/-- What one implicit node adds to the iterations. -/
def implicitCount (node : StateMachineNode) : Nat := if node.isImplicit then 1 else 0

/-- `advance_state_machine`: the next node, the iterations and the rest of the
transitions, or `none` at the end. -/
def advanceStateMachine (nodes : List StateMachineNode) (current numIters : Nat)
    (transitions : BufferCursor) : Rust (Option (Nat × Nat × BufferCursor)) := do
  let node ← indexAt nodes current
  let next := node.nextNodeIndex
  if numIters = 0 then
    if transitions.isEmpty then .ok none
    else do
      let (byte, transitions) ← transitions.readByte
      let index := next + byte.toNat / 4
      if nodes.length ≤ index then .error (malformed "transition offset overflow")
      else do
        let target ← indexAt nodes index
        .ok (some (index, byte.toNat % 4 + implicitCount target, transitions))
  else do
    let target ← indexAt nodes next
    let iters ← subWord numIters (1 - implicitCount target)
    .ok (some (next, iters, transitions))

/-- The loop of `run_state_machine`. -/
def runLoop (context : DecodeContext) :
    Nat → Nat → Nat → BufferCursor → DecodeState → Rust DecodeState
  | 0, _, _, _, _ => .error .outOfFuel
  | fuel + 1, current, numIters, transitions, state => do
      let node ← indexAt context.nodes current
      let state ← executeNodeAction context node current state
      let advanced ← advanceStateMachine context.nodes current numIters transitions
      match advanced with
      | none => .ok state
      | some (next, iters, transitions) =>
          runLoop context fuel next iters transitions state

/-- Enough passes for any state machine without an implicit loop: each
transition byte pays for at most four explicit steps, and a run of implicit
ones meets no node twice. -/
def runFuel (nodes : List StateMachineNode) (transitions : BufferCursor) : Nat :=
  (1 + 4 * transitions.data.length) * nodes.length

/-- `run_state_machine`. -/
def runStateMachine (context : DecodeContext) (decodedDataSize : Nat)
    (buffers : List BufferCursor) (transitions : BufferCursor) (firstNode : Nat) :
    Rust (Decoder.BackwardBuffer × List Nat) := do
  let first ← indexAt context.nodes firstNode
  let state ←
    runLoop context (runFuel context.nodes transitions) firstNode (implicitCount first)
      transitions
      { dest := Decoder.BackwardBuffer.new decodedDataSize
        buffers := buffers
        submessageStack := []
        limits := []
        skippedSubmessageLevel := 0 }
  if state.submessageStack.isEmpty = false then
    .error (malformed "submessages still open after decode")
  else if state.skippedSubmessageLevel ≠ 0 then
    .error (malformed "skipped submessages still open after decode")
  else if state.limits.length ≠ context.numRecords then
    .error (malformed s!"expected {context.numRecords} records, got {state.limits.length}")
  else .ok (state.dest, state.limits)

/-! ## Record boundaries -/

/-- The loop that reverses and complements the limits, from both ends. -/
def complementLoop (size : Nat) : Nat → Nat → Nat → List Nat → Rust (List Nat)
  | 0, _, _, _ => .error .outOfFuel
  | fuel + 1, first, last, limits =>
      if first < last then do
        let last := last - 1
        let low ← indexAt limits first
        let high ← indexAt limits last
        let tmp ← subWord size low
        let flipped ← subWord size high
        let limits ← setAt limits first flipped
        let limits ← setAt limits last tmp
        complementLoop size fuel (first + 1) last limits
      else .ok limits

/-- The limits reversed and complemented. -/
def complementLimits (size : Nat) (limits : List Nat) : Rust (List Nat) :=
  if limits.length = 0 then .ok limits
  else complementLoop size (limits.length + 1) 0 (limits.length - 1) limits

/-- The boundaries are ordered and inside the data. -/
def boundariesOrdered (totalSize : Nat) : Nat → List Nat → Bool
  | _, [] => true
  | prev, stop :: rest =>
      if totalSize < stop ∨ stop < prev then false else boundariesOrdered totalSize stop rest

/-- `finalize_records`. -/
def finalizeRecords (dest : Decoder.BackwardBuffer) (limits : List Nat) :
    Rust (Bytes × List Nat) :=
  let totalSize := dest.pos
  let lastLimit := limits.getLastD 0
  if lastLimit ≠ totalSize then
    .error (malformed s!"last limit {lastLimit} != total size {totalSize}")
  else do
    let limits ← complementLimits totalSize limits
    if boundariesOrdered totalSize 0 limits = false then
      .error (malformed "record boundary out of range")
    else .ok (dest.intoForward, limits)

/-- `decode_all_records`. -/
def decodeAllRecords (context : DecodeContext) (decodedDataSize : Nat)
    (buffers : List BufferCursor) (transitions : BufferCursor) (firstNode : Nat) :
    Rust (Bytes × List Nat) := do
  let (dest, limits) ←
    runStateMachine context decodedDataSize buffers transitions firstNode
  if context.includeMap.isNone ∧ dest.pos ≠ decodedDataSize then
    .error (malformed "decoded data size smaller than expected")
  else finalizeRecords dest limits

/-- `TransposeChunkDecoder`. -/
structure TransposeChunkDecoder where
  data : Bytes
  limits : List Nat
  nextYield : Nat
deriving Repr, DecidableEq

/-- The index of the nonproto lengths, always the last buffer. -/
def nonprotoLengthsIndexOf (hasNonprotoOp : Bool) (numBuffers : Nat) : Rust (Option Nat) :=
  if hasNonprotoOp then
    if numBuffers = 0 then .error (malformed "nonproto op but no buffers")
    else .ok (some (numBuffers - 1))
  else .ok none

/-- A projection that filters, `Some(p) if !p.is_all()`. -/
def activeProjectionOf (projection : Option FieldProjection) : Option FieldProjection :=
  projection.filter fun projection => !projection.isAll

namespace TransposeChunkDecoder

/-- `TransposeChunkDecoder::new_with_projection`. -/
def newWithProjection (chunk : Chunk) (projection : Option FieldProjection) :
    Rust TransposeChunkDecoder := do
  let activeProjection := activeProjectionOf projection
  let parsed ← parseHeaderAndBuckets ext chunk.data activeProjection
  let includeMap := activeProjection.bind IncludeFieldMap.fromProjection
  let built ← buildStateMachineNodes parsed includeMap.isSome
  let nonprotoLengthsIndex ← nonprotoLengthsIndexOf built.hasNonprotoOp parsed.numBuffers
  let transitionsData ←
    decompressWithPrefix ext parsed.transitionsCompressed parsed.compression
  let (data, limits) ←
    decodeAllRecords
      { nodes := built.nodes
        numRecords := chunk.header.numRecords
        nonprotoLengthsIndex := nonprotoLengthsIndex
        nodeTemplates := built.nodeTemplates
        includeMap := includeMap }
      chunk.header.decodedDataSize parsed.buffers (BufferCursor.new transitionsData)
      built.firstNode
  .ok { data := data, limits := limits, nextYield := 0 }

/-- `TransposeChunkDecoder::new`. -/
def new (chunk : Chunk) : Rust TransposeChunkDecoder := newWithProjection ext chunk none

/-- The start of the next record. -/
def nextStart (self : TransposeChunkDecoder) : Rust Nat :=
  if self.nextYield = 0 then .ok 0 else indexAt self.limits (self.nextYield - 1)

/-- `TransposeChunkDecoder::read_record`. -/
def readRecord (self : TransposeChunkDecoder) : Rust (Option Bytes × TransposeChunkDecoder) :=
  if self.limits.length ≤ self.nextYield then .ok (none, self)
  else do
    let start ← self.nextStart
    let stop ← indexAt self.limits self.nextYield
    let record ← sliceRange self.data start stop
    .ok (some record, { self with nextYield := self.nextYield + 1 })

end TransposeChunkDecoder

end Riegeli
