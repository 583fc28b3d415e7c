/-
Module: Riegeli.Core.TransposeHeader
Purpose: The header of a transposed chunk in `transpose/decoder.rs`: the
  buffer cursor, the buckets and buffers, and the state machine nodes.
Trusted boundary: the codecs
Main exports: BufferCursor, ParsedHeader, parseHeaderAndBuckets,
  CallbackType, StateMachineNode, BuiltStateMachine, buildStateMachineNodes,
  containsImplicitLoop
-/
import Riegeli.Core.FieldProjection
import Riegeli.Core.Headers

namespace Riegeli

variable (ext : Externals)

/-- `BufferCursor`.  A pruned cursor yields zeros without end. -/
structure BufferCursor where
  data : Bytes
  pos : Nat
  pruned : Bool
deriving Repr, DecidableEq

namespace BufferCursor

/-- `BufferCursor::new`. -/
def new (data : Bytes) : BufferCursor := { data := data, pos := 0, pruned := false }

/-- `BufferCursor::pruned`. -/
def prunedCursor : BufferCursor := { data := [], pos := 0, pruned := true }

/-- `BufferCursor::read_exact`. -/
def readExact (self : BufferCursor) (count : Nat) : Rust (Bytes × BufferCursor) :=
  if self.pruned then .ok (List.replicate count 0, self)
  else
    match checkedAdd self.pos count with
    | none => .error (malformed "buffer underflow in transpose chunk")
    | some stop =>
        if self.data.length < stop then
          .error (malformed "buffer underflow in transpose chunk")
        else do
          let slice ← sliceRange self.data self.pos stop
          .ok (slice, { self with pos := stop })

/-- `BufferCursor::read_varint32`. -/
def readVarint32 (self : BufferCursor) : Rust (Nat × BufferCursor) :=
  if self.pruned then .ok (0, self)
  else do
    let remaining ← sliceRange self.data self.pos self.data.length
    match decodeU32 remaining with
    | .error error =>
        .error (malformed s!"varint32 decode error in buffer: {error.toText}")
    | .ok (value, consumed) => .ok (value, { self with pos := self.pos + consumed })

/-- `BufferCursor::read_varint64`. -/
def readVarint64 (self : BufferCursor) : Rust (Nat × BufferCursor) :=
  if self.pruned then .ok (0, self)
  else do
    let remaining ← sliceRange self.data self.pos self.data.length
    match decodeU64 remaining with
    | .error error =>
        .error (malformed s!"varint64 decode error in buffer: {error.toText}")
    | .ok (value, consumed) => .ok (value, { self with pos := self.pos + consumed })

/-- `BufferCursor::read_byte`. -/
def readByte (self : BufferCursor) : Rust (UInt8 × BufferCursor) :=
  if self.pruned then .ok (0, self)
  else if self.data.length ≤ self.pos then .error (malformed "buffer underflow reading byte")
  else do
    let byte ← indexAt self.data self.pos
    .ok (byte, { self with pos := self.pos + 1 })

/-- `BufferCursor::is_empty`. -/
def isEmpty (self : BufferCursor) : Bool :=
  if self.pruned then true else decide (self.data.length ≤ self.pos)

/-- A loop that pushes what `read` yields onto a vector. -/
def readMany {Item : Type} (read : BufferCursor → Rust (Item × BufferCursor)) :
    Nat → BufferCursor → Rust (List Item × BufferCursor)
  | 0, cursor => .ok ([], cursor)
  | count + 1, cursor => do
      let (item, cursor) ← read cursor
      let (rest, cursor) ← readMany read count cursor
      .ok (item :: rest, cursor)

end BufferCursor

/-! ## State machine metadata -/

/-- `StateMetadata`. -/
structure StateMetadata where
  tags : List Nat
  nextNodeIndices : List Nat
  subtypesBytes : Bytes
  numStates : Nat
deriving Repr, DecidableEq

/-- The number of tags that a subtype byte follows. -/
def countSubtypes (tags : List Nat) : Nat :=
  tags.countP fun tag => isValidProtoTag tag && hasSubtype tag

/-- `parse_state_metadata`. -/
def parseStateMetadata (hdr : BufferCursor) : Rust (StateMetadata × BufferCursor) := do
  let (numStates, hdr) ← hdr.readVarint32
  let (tags, hdr) ← BufferCursor.readMany BufferCursor.readVarint32 numStates hdr
  let (nextNodeIndices, hdr) ← BufferCursor.readMany BufferCursor.readVarint32 numStates hdr
  let (subtypesBytes, hdr) ←
    BufferCursor.readMany BufferCursor.readByte (countSubtypes tags) hdr
  .ok
    ({ tags := tags
       nextNodeIndices := nextNodeIndices
       subtypesBytes := subtypesBytes
       numStates := numStates }, hdr)

/-! ## Needed buffers -/

/-- A tag whose submessage wire type is mapped to `LengthDelimited`.  Such a
tag is at least 6. -/
def unmapSubmessage (tag : Nat) : Nat := tag - submessageWireType + WireType.lengthDelimited.toNat

/-- What one state of the scan reads: nothing, a nonproto buffer (always
needed), or the buffer of a field. -/
inductive ScanRead where
  | nothing
  | nonProto
  | field (fieldNumber : Nat)
deriving Repr, DecidableEq

/-- The `match` on a raw tag in the scan, with the next subtype index. -/
def scanState (subtypesBytes : Bytes) (subtypeIdx rawTag : Nat) : ScanRead × Nat :=
  if rawTag = MessageId.noOp ∨ rawTag = MessageId.startOfMessage ∨
      rawTag = MessageId.startOfSubmessage then (.nothing, subtypeIdx)
  else if rawTag = MessageId.nonProto then (.nonProto, subtypeIdx)
  else
    let (tag, subtype, subtypeIdx) :=
      if rawTag % 8 = submessageWireType then
        (unmapSubmessage rawTag, Subtype.lengthDelimitedEndOfSubmessage, subtypeIdx)
      else if isValidProtoTag rawTag && hasSubtype rawTag then
        (rawTag, (subtypesBytes.getD subtypeIdx 0).toNat, subtypeIdx + 1)
      else (rawTag, Subtype.trivial, subtypeIdx)
    if isValidProtoTag tag && hasDataBuffer tag subtype then
      (.field (tagFieldNumber tag), subtypeIdx)
    else (.nothing, subtypeIdx)

/-- The variables of the scan. -/
structure ScanState where
  snap : BufferCursor
  needed : List Bool
  subtypeIdx : Nat
  hasNonproto : Bool
deriving Repr, DecidableEq

/-- Read a buffer index, if the snapshot still holds one, and mark it. -/
def markNeeded (numBuffers : Nat) (needed : Bool) (state : ScanState) : Rust ScanState := do
  let remaining ← sliceRange state.snap.data state.snap.pos state.snap.data.length
  match decodeU32 remaining with
  | .error _ => .ok state
  | .ok (bufIdx, consumed) =>
      let snap := { state.snap with pos := state.snap.pos + consumed }
      if bufIdx < numBuffers ∧ needed = true then do
        let marked ← setAt state.needed bufIdx true
        .ok { state with snap := snap, needed := marked }
      else .ok { state with snap := snap }

/-- One pass of the scan. -/
def scanStep (subtypesBytes : Bytes) (numBuffers : Nat) (projection : FieldProjection)
    (state : ScanState) (rawTag : Nat) : Rust ScanState :=
  let (reads, subtypeIdx) := scanState subtypesBytes state.subtypeIdx rawTag
  let state := { state with subtypeIdx := subtypeIdx }
  match reads with
  | .nothing => .ok state
  | .nonProto => markNeeded numBuffers true { state with hasNonproto := true }
  | .field fieldNumber => markNeeded numBuffers (projection.mentionsField fieldNumber) state

/-- The loop of the scan over the tags. -/
def scanLoop (subtypesBytes : Bytes) (numBuffers : Nat) (projection : FieldProjection) :
    List Nat → ScanState → Rust ScanState
  | [], state => .ok state
  | rawTag :: rest, state => do
      let state ← scanStep subtypesBytes numBuffers projection state rawTag
      scanLoop subtypesBytes numBuffers projection rest state

/-- `compute_needed_buffers_from_scan`. -/
def computeNeededBuffers (tags : List Nat) (subtypesBytes : Bytes) (snap : BufferCursor)
    (numBuffers : Nat) (projection : FieldProjection) : Rust (List Bool) :=
  if numBuffers = 0 then .ok []
  else if projection.hasFullInclude then .ok (List.replicate numBuffers true)
  else do
    let state ←
      scanLoop subtypesBytes numBuffers projection tags
        { snap := snap
          needed := List.replicate numBuffers false
          subtypeIdx := 0
          hasNonproto := false }
    if state.hasNonproto then setAt state.needed (numBuffers - 1) true else .ok state.needed

/-! ## Buckets -/

/-- `read_bucket_data`. -/
def readBucketData (data : Bytes) : List Nat → Nat → Rust (List Bytes × Nat)
  | [], pos => .ok ([], pos)
  | size :: rest, pos =>
      match checkedAdd pos size with
      | none => .error (malformed "bucket size overflows")
      | some stop =>
          if data.length < stop then
            .error (malformed "bucket data extends past chunk data")
          else do
            let bucket ← sliceRange data pos stop
            let (buckets, pos) ← readBucketData data rest stop
            .ok (bucket :: buckets, pos)

/-- `bucket_decompressed_size`. -/
def bucketDecompressedSize (compressed : Bytes) (compression : CompressionType) : Rust Nat :=
  if compression = .none then .ok compressed.length
  else
    match decodeU64 compressed with
    | .error error =>
        .error (malformed s!"reading bucket uncompressed_size prefix: {error.toText}")
    | .ok (size, _) => .ok size

/-- The loop past exhausted buckets, which stops at the last bucket. -/
def skipExhausted (sizes : List Nat) : Nat → Nat → Nat → Rust (Nat × Nat)
  | 0, _, _ => .error .outOfFuel
  | fuel + 1, bucketIndex, bucketRemaining =>
      if bucketRemaining = 0 ∧ bucketIndex + 1 < sizes.length then do
        let remaining ← indexAt sizes (bucketIndex + 1)
        skipExhausted sizes fuel (bucketIndex + 1) remaining
      else .ok (bucketIndex, bucketRemaining)

/-- The loop over the buffers: the bucket of each, and the bucket at the end. -/
def assignBuffers (sizes : List Nat) :
    List Nat → Nat → Nat → Nat → Rust (List Nat × Nat × Nat)
  | [], _, bucketIndex, bucketRemaining => .ok ([], bucketIndex, bucketRemaining)
  | bufSize :: rest, index, bucketIndex, bucketRemaining =>
      if bucketRemaining < bufSize then
        .error
          (malformed
            s!"buffer {index} (size {bufSize}) exceeds remaining bucket {bucketIndex} capacity ({bucketRemaining})")
      else do
        let remaining ← subWord bucketRemaining bufSize
        let (nextIndex, nextRemaining) ←
          skipExhausted sizes (sizes.length + 1) bucketIndex remaining
        let (assigned, last) ← assignBuffers sizes rest (index + 1) nextIndex nextRemaining
        .ok (bucketIndex :: assigned, last)

/-- `compute_buffer_to_bucket`. -/
def computeBufferToBucket (buckets : List Bytes) (bufferSizes : List Nat)
    (compression : CompressionType) : Rust (List Nat) :=
  if buckets.length = 0 then
    if bufferSizes.length ≠ 0 then .error (malformed "too few buckets") else .ok []
  else do
    let sizes ← buckets.mapM fun compressed => bucketDecompressedSize compressed compression
    let first ← indexAt sizes 0
    let (assigned, bucketIndex, bucketRemaining) ← assignBuffers sizes bufferSizes 0 0 first
    if bucketIndex + 1 < buckets.length then .error (malformed "too few buckets")
    else if 0 < bucketRemaining then .error (malformed "end of bucket data expected")
    else .ok assigned

/-- The loop that marks the buckets with a needed buffer. -/
def markBuckets : List Bool → List Nat → List Bool → Rust (List Bool)
  | needed :: rest, bucket :: buckets, bucketNeeded =>
      if needed then do
        let bucketNeeded ← setAt bucketNeeded bucket true
        markBuckets rest buckets bucketNeeded
      else markBuckets rest buckets bucketNeeded
  | _, _, bucketNeeded => .ok bucketNeeded

/-- One pass of the loop that decompresses the needed buckets. -/
def decompressBucket (compression : CompressionType) (index : Nat) (needed : Bool)
    (compressed : Bytes) : Rust (Option Bytes) :=
  if needed then do
    let decompressed ← decompressWithPrefix ext compressed compression
    let claimed ← bucketDecompressedSize compressed compression
    if decompressed.length ≠ claimed then
      .error
        (malformed
          s!"bucket {index} decompressed to {decompressed.length} bytes, expected {claimed}")
    else .ok (some decompressed)
  else .ok none

/-- The loop that decompresses the needed buckets. -/
def decompressBuckets (compression : CompressionType) (bucketNeeded : List Bool) :
    List Bytes → Nat → Rust (List (Option Bytes))
  | [], _ => .ok []
  | compressed :: rest, index => do
      let needed ← indexAt bucketNeeded index
      let bucket ← decompressBucket ext compression index needed compressed
      let buckets ← decompressBuckets compression bucketNeeded rest (index + 1)
      .ok (bucket :: buckets)

/-- The cursor of one buffer, at an offset of its bucket. -/
def extractBuffer (decompressed : List (Option Bytes)) (index bufSize bucket offset : Nat)
    (needed : Bool) : Rust BufferCursor :=
  if needed then do
    let entry ← indexAt decompressed bucket
    match entry with
    | none =>
        .error (malformed s!"needed buffer {index} in undecompressed bucket {bucket}")
    | some bytes =>
        let stop := offset + bufSize
        if bytes.length < stop then
          .error
            (malformed
              s!"buffer {index} (size {bufSize}) exceeds bucket {bucket} data (len {bytes.length})")
        else do
          let slice ← sliceRange bytes offset stop
          .ok (BufferCursor.new slice)
  else .ok BufferCursor.prunedCursor

/-- The loop that extracts the buffers.  `offsets` tracks the place reached in
each bucket. -/
def extractBuffers (bufferToBucket : List Nat) (neededBuffers : List Bool)
    (decompressed : List (Option Bytes)) : List Nat → Nat → List Nat → Rust (List BufferCursor)
  | [], _, _ => .ok []
  | bufSize :: rest, index, offsets => do
      let bucket ← indexAt bufferToBucket index
      let offset ← indexAt offsets bucket
      let cursor ←
        extractBuffer decompressed index bufSize bucket offset (neededBuffers.getD index true)
      let offsets ← setAt offsets bucket (offset + bufSize)
      let cursors ← extractBuffers bufferToBucket neededBuffers decompressed rest (index + 1)
        offsets
      .ok (cursor :: cursors)

/-- `decompress_into_buffers_with_pruning`. -/
def decompressIntoBuffers (buckets : List Bytes) (bufferSizes : List Nat)
    (compression : CompressionType) (neededBuffers : List Bool) : Rust (List BufferCursor) := do
  let bufferToBucket ← computeBufferToBucket buckets bufferSizes compression
  if bufferSizes.length = 0 then .ok []
  else do
    let bucketNeeded ←
      markBuckets neededBuffers bufferToBucket (List.replicate buckets.length false)
    let decompressed ← decompressBuckets ext compression bucketNeeded buckets 0
    extractBuffers bufferToBucket neededBuffers decompressed bufferSizes 0
      (List.replicate buckets.length 0)

/-! ## The header -/

/-- `ParsedHeader`. -/
structure ParsedHeader where
  buffers : List BufferCursor
  numStates : Nat
  tags : List Nat
  nextNodeIndices : List Nat
  subtypesBytes : Bytes
  hdr : BufferCursor
  numBuffers : Nat
  compression : CompressionType
  transitionsCompressed : Bytes
deriving Repr, DecidableEq

/-- The compression type and the compressed header, with the position after
them. -/
def splitHeader (data : Bytes) : Rust (CompressionType × Bytes × Nat) :=
  match data with
  | [] => .error (malformed "transpose chunk data is empty")
  | compressionByte :: _ => do
      let compression ← CompressionType.tryFrom compressionByte
      let remaining ← sliceRange data 1 data.length
      match decodeU64 remaining with
      | .error error => .error (malformed s!"reading header_length: {error.toText}")
      | .ok (headerLength, consumed) =>
          let pos := 1 + consumed
          match checkedAdd pos headerLength with
          | none => .error (malformed "transpose header length overflows")
          | some headerEnd =>
              if data.length < headerEnd then
                .error (malformed "transpose header extends past chunk data")
              else do
                let headerCompressed ← sliceRange data pos headerEnd
                .ok (compression, headerCompressed, headerEnd)

/-- The buffers that the decoder will read. -/
def neededBuffersOf (projection : Option FieldProjection) (metadata : StateMetadata)
    (hdr : BufferCursor) (numBuffers : Nat) : Rust (List Bool) :=
  match projection with
  | some projection =>
      computeNeededBuffers metadata.tags metadata.subtypesBytes hdr numBuffers projection
  | none => .ok (List.replicate numBuffers true)

/-- `parse_header_and_buckets_with_projection`. -/
def parseHeaderAndBuckets (data : Bytes) (projection : Option FieldProjection) :
    Rust ParsedHeader := do
  let (compression, headerCompressed, pos) ← splitHeader data
  let headerData ← decompressWithPrefix ext headerCompressed compression
  let hdr := BufferCursor.new headerData
  let (numBuckets, hdr) ← hdr.readVarint32
  let (numBuffers, hdr) ← hdr.readVarint32
  let (bucketSizes, hdr) ← BufferCursor.readMany BufferCursor.readVarint64 numBuckets hdr
  let (bufferSizes, hdr) ← BufferCursor.readMany BufferCursor.readVarint64 numBuffers hdr
  let (metadata, hdr) ← parseStateMetadata hdr
  let (buckets, newPos) ← readBucketData data bucketSizes pos
  let transitionsCompressed ← sliceRange data newPos data.length
  let neededBuffers ← neededBuffersOf projection metadata hdr numBuffers
  let buffers ← decompressIntoBuffers ext buckets bufferSizes compression neededBuffers
  .ok
    { buffers := buffers
      numStates := metadata.numStates
      tags := metadata.tags
      nextNodeIndices := metadata.nextNodeIndices
      subtypesBytes := metadata.subtypesBytes
      hdr := hdr
      numBuffers := numBuffers
      compression := compression
      transitionsCompressed := transitionsCompressed }

/-! ## State machine nodes -/

/-- `CallbackType`. -/
inductive CallbackType where
  | noOp
  | messageStart
  | submessageStart
  | submessageEnd
  | nonProto
  | copyTag
  | varint (dataLength : Nat)
  | fixed32
  | fixed64
  | stringField
  | existenceOnly
  | failure
  | selectCallback
  | skippedSubmessageEnd
  | endProjectionGroup
  | startProjectionGroup
  | skippedSubmessageStart
deriving Repr, DecidableEq

/-- `NodeTemplate`. -/
structure NodeTemplate where
  tag : Nat
  subtype : Nat
  tagLength : Nat
deriving Repr, DecidableEq

/-- `StateMachineNode`. -/
structure StateMachineNode where
  tagData : Bytes
  tagDataSize : Nat
  callbackType : CallbackType
  bufferIndex : Option Nat
  nextNodeIndex : Nat
  isImplicit : Bool
  nodeTemplateIndex : Option Nat
deriving Repr, DecidableEq

/-- `callback_for_wire_type`. -/
def callbackForWireType (wireType : Option WireType) (subtype : Nat) : Rust CallbackType :=
  match wireType with
  | some .varint =>
      if Subtype.varintInlineMax < subtype then
        .error (malformed s!"invalid varint subtype {subtype}")
      else if Subtype.varintInline0 ≤ subtype then .ok .copyTag
      else .ok (.varint (subtype + 1))
  | some .fixed32 => .ok .fixed32
  | some .fixed64 => .ok .fixed64
  | some .lengthDelimited =>
      if subtype = Subtype.lengthDelimitedString then .ok .stringField
      else if subtype = Subtype.lengthDelimitedEndOfSubmessage then .ok .submessageEnd
      else .error (malformed s!"unknown LengthDelimited subtype {subtype}")
  | some .startGroup => .ok .copyTag
  | some .endGroup => .ok .copyTag
  | none => .error (malformed "invalid wire type in tag")

/-- The variables that building the nodes threads through. -/
structure BuildState where
  hdr : BufferCursor
  subtypeIdx : Nat
  hasNonprotoOp : Bool
  nodeTemplates : List NodeTemplate
deriving Repr, DecidableEq

/-- A node without tag bytes. -/
def plainNode (callbackType : CallbackType) (nextNodeIndex : Nat) (isImplicit : Bool) :
    StateMachineNode :=
  { tagData := []
    tagDataSize := 0
    callbackType := callbackType
    bufferIndex := none
    nextNodeIndex := nextNodeIndex
    isImplicit := isImplicit
    nodeTemplateIndex := none }

/-- The subtype of a state and the next subtype index. -/
def readSubtype (subtypesBytes : Bytes) (tag structural subtypeIdx : Nat) : Rust (Nat × Nat) :=
  if hasSubtype tag then do
    let byte ← indexAt subtypesBytes subtypeIdx
    .ok (byte.toNat, subtypeIdx + 1)
  else .ok (structural, subtypeIdx)

/-- The buffer index of a state that reads a buffer. -/
def readBufferIndex (hdr : BufferCursor) (numBuffers tag subtype : Nat) :
    Rust (Option Nat × BufferCursor) :=
  if hasDataBuffer tag subtype then do
    let (index, hdr) ← hdr.readVarint32
    if numBuffers ≤ index then .error (malformed "buffer index too large")
    else .ok (some index, hdr)
  else .ok (none, hdr)

/-- The tag bytes of a state, with the inline value of a varint after them. -/
def tagDataOf (tag subtype : Nat) : Bytes × Nat :=
  let tagBytes := encodeU32 tag
  if tagWireType tag = some .varint ∧ Subtype.varintInline0 ≤ subtype then
    (tagBytes ++ [UInt8.ofNat (subtype - Subtype.varintInline0)], tagBytes.length + 1)
  else (tagBytes, tagBytes.length)

/-- `build_proto_tag_node`. -/
def buildProtoTagNode (rawTag nextNodeIdx : Nat) (isImplicit : Bool)
    (stateIndex numBuffers : Nat) (subtypesBytes : Bytes) (projectionEnabled : Bool)
    (state : BuildState) : Rust (StateMachineNode × BuildState) := do
  let (tag, structural) :=
    if rawTag % 8 = submessageWireType then
      (unmapSubmessage rawTag, Subtype.lengthDelimitedEndOfSubmessage)
    else (rawTag, Subtype.trivial)
  if isValidProtoTag tag = false then
    .error (malformed s!"invalid tag {tag} in state {stateIndex}")
  else do
    let (subtype, subtypeIdx) ← readSubtype subtypesBytes tag structural state.subtypeIdx
    let (bufferIndex, hdr) ← readBufferIndex state.hdr numBuffers tag subtype
    let (tagData, tagDataSize) := tagDataOf tag subtype
    if projectionEnabled then
      .ok
        ({ tagData := tagData
           tagDataSize := tagDataSize
           callbackType := .selectCallback
           bufferIndex := bufferIndex
           nextNodeIndex := nextNodeIdx
           isImplicit := isImplicit
           nodeTemplateIndex := some state.nodeTemplates.length },
          { state with
            hdr := hdr
            subtypeIdx := subtypeIdx
            nodeTemplates :=
              state.nodeTemplates ++
                [{ tag := tag, subtype := subtype, tagLength := (encodeU32 tag).length }] })
    else do
      let callbackType ← callbackForWireType (tagWireType tag) subtype
      .ok
        ({ tagData := tagData
           tagDataSize := tagDataSize
           callbackType := callbackType
           bufferIndex := bufferIndex
           nextNodeIndex := nextNodeIdx
           isImplicit := isImplicit
           nodeTemplateIndex := none },
          { state with hdr := hdr, subtypeIdx := subtypeIdx })

/-- `build_single_node`. -/
def buildSingleNode (rawTag nextNodeIdx : Nat) (isImplicit : Bool)
    (stateIndex numBuffers : Nat) (subtypesBytes : Bytes) (projectionEnabled : Bool)
    (state : BuildState) : Rust (StateMachineNode × BuildState) :=
  if rawTag = MessageId.noOp then .ok (plainNode .noOp nextNodeIdx isImplicit, state)
  else if rawTag = MessageId.nonProto then do
    let (index, hdr) ← state.hdr.readVarint32
    if numBuffers ≤ index then .error (malformed "nonproto buffer index too large")
    else
      .ok
        ({ plainNode .nonProto nextNodeIdx isImplicit with bufferIndex := some index },
          { state with hdr := hdr, hasNonprotoOp := true })
  else if rawTag = MessageId.startOfMessage then
    .ok (plainNode .messageStart nextNodeIdx isImplicit, state)
  else if rawTag = MessageId.startOfSubmessage then
    if projectionEnabled then
      .ok
        ({ plainNode .selectCallback nextNodeIdx isImplicit with
            nodeTemplateIndex := some state.nodeTemplates.length },
          { state with
            nodeTemplates :=
              state.nodeTemplates ++
                [{ tag := MessageId.startOfSubmessage, subtype := 0, tagLength := 0 }] })
    else .ok (plainNode .submessageStart nextNodeIdx isImplicit, state)
  else
    buildProtoTagNode rawTag nextNodeIdx isImplicit stateIndex numBuffers subtypesBytes
      projectionEnabled state

/-- Split a stored next-node index into its implicit flag and the index. -/
def splitNextNode (nextRaw numStates : Nat) : Rust (Bool × Nat) :=
  if numStates ≤ nextRaw then
    if numStates ≤ nextRaw - numStates then
      .error
        (malformed s!"node index {nextRaw - numStates} too large (num_states={numStates})")
    else .ok (true, nextRaw - numStates)
  else .ok (false, nextRaw)

/-- The loop over the states.  The first argument counts the states left. -/
def buildNodesLoop (parsed : ParsedHeader) (projectionEnabled : Bool) :
    Nat → Nat → BuildState → Rust (List StateMachineNode × BuildState)
  | 0, _, state => .ok ([], state)
  | left + 1, index, state => do
      let rawTag ← indexAt parsed.tags index
      let nextRaw ← indexAt parsed.nextNodeIndices index
      let (isImplicit, nextNodeIdx) ← splitNextNode nextRaw parsed.numStates
      let (node, state) ←
        buildSingleNode rawTag nextNodeIdx isImplicit index parsed.numBuffers
          parsed.subtypesBytes projectionEnabled state
      let (nodes, state) ← buildNodesLoop parsed projectionEnabled left (index + 1) state
      .ok (node :: nodes, state)

/-- The inner loop of `contains_implicit_loop`: follow implicit transitions
from `idx` and mark the nodes met. -/
def followImplicit (nodes : List StateMachineNode) (nextId : Nat) :
    Nat → Nat → List Nat → Rust (Bool × List Nat)
  | 0, _, _ => .error .outOfFuel
  | fuel + 1, idx, loopIds => do
      let node ← indexAt nodes idx
      if node.isImplicit then
        let idx := node.nextNodeIndex
        if nodes.length ≤ idx then .ok (false, loopIds)
        else do
          let loopId ← indexAt loopIds idx
          if loopId = nextId then .ok (true, loopIds)
          else if loopId ≠ 0 then .ok (false, loopIds)
          else do
            let loopIds ← setAt loopIds idx nextId
            followImplicit nodes nextId fuel idx loopIds
      else .ok (false, loopIds)

/-- The outer loop of `contains_implicit_loop`.  The first argument counts the
nodes left. -/
def implicitLoopFrom (nodes : List StateMachineNode) :
    Nat → Nat → Nat → List Nat → Rust Bool
  | 0, _, _, _ => .ok false
  | left + 1, index, nextId, loopIds => do
      let loopId ← indexAt loopIds index
      if loopId ≠ 0 then implicitLoopFrom nodes left (index + 1) nextId loopIds
      else do
        let loopIds ← setAt loopIds index nextId
        let (found, loopIds) ← followImplicit nodes nextId (nodes.length + 1) index loopIds
        if found then .ok true
        else implicitLoopFrom nodes left (index + 1) (nextId + 1) loopIds

/-- `contains_implicit_loop`. -/
def containsImplicitLoop (nodes : List StateMachineNode) : Rust Bool :=
  implicitLoopFrom nodes nodes.length 0 1 (List.replicate nodes.length 0)

/-- `BuiltStateMachine`. -/
structure BuiltStateMachine where
  nodes : List StateMachineNode
  firstNode : Nat
  hasNonprotoOp : Bool
  nodeTemplates : List NodeTemplate
deriving Repr, DecidableEq

/-- The failure sentinels after the states. -/
def failureNodes : List StateMachineNode := List.replicate 255 (plainNode .failure 0 false)

/-- `build_state_machine_nodes`. -/
def buildStateMachineNodes (parsed : ParsedHeader) (projectionEnabled : Bool) :
    Rust BuiltStateMachine := do
  let (nodes, state) ←
    buildNodesLoop parsed projectionEnabled parsed.numStates 0
      { hdr := parsed.hdr, subtypeIdx := 0, hasNonprotoOp := false, nodeTemplates := [] }
  let (firstNode, hdr) ← state.hdr.readVarint32
  if parsed.numStates ≤ firstNode then
    .error (malformed s!"first_node {firstNode} >= num_states {parsed.numStates}")
  else do
    let nodes := nodes ++ failureNodes
    let looping ← containsImplicitLoop nodes
    if looping then .error (malformed "state machine contains an implicit loop")
    else if hdr.isEmpty = false then .error (malformed "trailing data in transpose header")
    else
      .ok
        { nodes := nodes
          firstNode := firstNode
          hasNonprotoOp := state.hasNonprotoOp
          nodeTemplates := state.nodeTemplates }

end Riegeli
