/-
Module: Riegeli.Core.TransposeEncoder
Purpose: The first half of `transpose/encoder.rs`: how `add_record` takes a
  record apart into encoded tags and per-field data buffers.
Trusted boundary: none
Main exports: NodeId, BufferType, EncodedTagInfo, Encoder.BackwardBuffer,
  TransposeChunkEncoder, TransposeChunkEncoder.addRecord
-/
import Riegeli.Core.Wire
import Riegeli.Core.Headers

namespace Riegeli

/-- `INVALID_POS`. -/
def invalidPos : Nat := u32Max

/-- `NodeId`. -/
structure NodeId where
  parentMessageId : Nat
  tag : Nat
deriving Repr, DecidableEq

/-- `BufferType`. -/
inductive BufferType where
  | varint
  | fixed32
  | fixed64
  | string
  | nonProto
deriving Repr, DecidableEq

/-- `ALL_BUFFER_TYPES`. -/
def allBufferTypes : List BufferType := [.varint, .fixed32, .fixed64, .string, .nonProto]

/-- `DestInfo`. -/
structure DestInfo where
  pos : Nat
  numTransitions : Nat
deriving Repr, DecidableEq

/-- `DestInfo::new`. -/
def DestInfo.new : DestInfo := { pos := invalidPos, numTransitions := 0 }

/-- `EncodedTagInfo`.  The destinations are kept in the order of their keys,
the iteration order of the source's `BTreeMap`. -/
structure EncodedTagInfo where
  nodeId : NodeId
  subtype : Nat
  destInfo : List (Nat × DestInfo)
  numIncomingTransitions : Nat
  stateMachinePos : Nat
  publicListNoopPos : Nat
  base : Nat
deriving Repr, DecidableEq

/-- `EncodedTagInfo::new`. -/
def EncodedTagInfo.new (nodeId : NodeId) (subtype : Nat) : EncodedTagInfo :=
  { nodeId := nodeId
    subtype := subtype
    destInfo := []
    numIncomingTransitions := 0
    stateMachinePos := invalidPos
    publicListNoopPos := invalidPos
    base := invalidPos }

/-- The encoder's `BackwardBuffer`: values in record order with their sizes. -/
structure Encoder.BackwardBuffer where
  data : Bytes
  sizes : List Nat
deriving Repr, DecidableEq

namespace Encoder.BackwardBuffer

/-- `BackwardBuffer::default`. -/
def empty : BackwardBuffer := { data := [], sizes := [] }

/-- `BackwardBuffer::push_chunk`. -/
def pushChunk (self : BackwardBuffer) (chunk : Bytes) : BackwardBuffer :=
  { data := self.data ++ chunk, sizes := self.sizes ++ [chunk.length] }

/-- The loop of `write_to` over the sizes, last one first. -/
def writeToLoop (data : Bytes) : List Nat → Nat → Rust Bytes
  | [], _ => .ok []
  | size :: sizes, stop => do
      let start ← subWord stop size
      let chunk ← sliceRange data start stop
      let rest ← writeToLoop data sizes start
      .ok (chunk ++ rest)

/-- `BackwardBuffer::write_to`. -/
def writeTo (self : BackwardBuffer) : Rust Bytes :=
  writeToLoop self.data self.sizes.reverse self.data.length

end Encoder.BackwardBuffer

/-- `BufferWithMetadata`. -/
structure BufferWithMetadata where
  nodeId : NodeId
  data : Encoder.BackwardBuffer
deriving Repr, DecidableEq

/-- `MessageNode`.  `encodedTagPos` is the source's vector indexed by subtype,
with `none` where that holds `u32::MAX` or ends. -/
structure MessageNode where
  messageId : Nat
  encodedTagPos : Nat → Option Nat

/-- `MessageFrame`. -/
structure MessageFrame where
  endSubTagIdx : Nat
  parentMessageId : Nat
  parentEndPos : Nat
deriving Repr, DecidableEq

/-- `TransposeChunkEncoder`.  The node map is a partial function. -/
structure TransposeChunkEncoder where
  compression : CompressionType
  compressOpts : CompressOptions
  messageNodes : NodeId → Option MessageNode
  nextMessageId : Nat
  tagsList : List EncodedTagInfo
  encodedTags : List Nat
  data : BufferType → List BufferWithMetadata
  nonprotoLengths : Encoder.BackwardBuffer
  numRecords : Nat
  decodedDataSize : Nat
  bucketSize : Nat

namespace TransposeChunkEncoder

/-- `TransposeChunkEncoder::new`. -/
def new (compression : CompressionType) : TransposeChunkEncoder :=
  { compression := compression
    compressOpts := CompressOptions.default
    messageNodes := fun _ => none
    nextMessageId := MessageId.root + 1
    tagsList := []
    encodedTags := []
    data := fun _ => []
    nonprotoLengths := Encoder.BackwardBuffer.empty
    numRecords := 0
    decodedDataSize := 0
    bucketSize := u64Max }

/-- `TransposeChunkEncoder::compress_opts`. -/
def withCompressOpts (self : TransposeChunkEncoder) (opts : CompressOptions) :
    TransposeChunkEncoder :=
  { self with compressOpts := opts }

/-- `TransposeChunkEncoder::bucket_size`. -/
def withBucketSize (self : TransposeChunkEncoder) (size : Nat) : TransposeChunkEncoder :=
  { self with bucketSize := if self.compression = .none then u64Max else size }

/-- `get_or_create_node`. -/
def getOrCreateNode (self : TransposeChunkEncoder) (nodeId : NodeId) :
    Nat × TransposeChunkEncoder :=
  match self.messageNodes nodeId with
  | some node => (node.messageId, self)
  | none =>
      (self.nextMessageId,
        { self with
          nextMessageId := self.nextMessageId + 1
          messageNodes := fun id =>
            if id = nodeId then
              some { messageId := self.nextMessageId, encodedTagPos := fun _ => none }
            else self.messageNodes id })

/-- `get_pos_in_tags_list`. -/
def getPosInTagsList (self : TransposeChunkEncoder) (nodeId : NodeId) (subtype : Nat) :
    Nat × TransposeChunkEncoder :=
  let self := (self.getOrCreateNode nodeId).2
  match self.messageNodes nodeId with
  | none => (u32Max, self)
  | some node =>
      match node.encodedTagPos subtype with
      | some pos => (pos, self)
      | none =>
          let pos := self.tagsList.length
          (pos,
            { self with
              messageNodes := fun id =>
                if id = nodeId then
                  some
                    { node with
                      encodedTagPos := fun other =>
                        if other = subtype then some pos else node.encodedTagPos other }
                else self.messageNodes id
              tagsList := self.tagsList ++ [EncodedTagInfo.new nodeId subtype] })

/-- `encoded_tags.push(get_pos_in_tags_list(..))`. -/
def pushEncodedTag (self : TransposeChunkEncoder) (nodeId : NodeId) (subtype : Nat) :
    TransposeChunkEncoder :=
  let (idx, self) := self.getPosInTagsList nodeId subtype
  { self with encodedTags := self.encodedTags ++ [idx] }

/-- Append to the buffer of `nodeId`, which `get_buffer` adds at the end of
the list when there is none yet. -/
def pushChunkAt (nodeId : NodeId) (chunk : Bytes) :
    List BufferWithMetadata → List BufferWithMetadata
  | [] => [{ nodeId := nodeId, data := Encoder.BackwardBuffer.empty.pushChunk chunk }]
  | buffer :: rest =>
      if buffer.nodeId = nodeId then { buffer with data := buffer.data.pushChunk chunk } :: rest
      else buffer :: pushChunkAt nodeId chunk rest

/-- `get_buffer(node_id, buf_type).push_chunk(chunk)`. -/
def pushChunk (self : TransposeChunkEncoder) (nodeId : NodeId) (bufType : BufferType)
    (chunk : Bytes) : TransposeChunkEncoder :=
  { self with
    data := fun other =>
      if other = bufType then pushChunkAt nodeId chunk (self.data bufType)
      else self.data other }

/-! ## Taking a message apart -/

/-- The variables of `add_message`.  Both stacks have their top first. -/
structure AddMessageState where
  encoder : TransposeChunkEncoder
  pos : Nat
  messageStack : List MessageFrame
  groupStack : List Nat
  currentParent : Nat
  currentEnd : Nat

/-- A varint decoding failure under the words of its caller. -/
def varintFault (what : String) (error : VarintError) : Fault :=
  malformed (what ++ ": " ++ error.toText)

/-- `encode_varint_field`: the encoder and the position after the value. -/
def encodeVarintField (self : TransposeChunkEncoder) (data : Bytes) (pos : Nat)
    (nodeId : NodeId) : Rust (TransposeChunkEncoder × Nat) :=
  match decodeU64 (data.drop pos) with
  | .error error => .error (varintFault "varint value" error)
  | .ok (_, vlen) => do
      let varintBytes ← sliceRange data pos (pos + vlen)
      let first ← indexAt varintBytes 0
      if vlen = 1 ∧ first.toNat ≤ maxVarintInline then
        .ok (self.pushEncodedTag nodeId (Subtype.varintInline0 + first.toNat), pos + vlen)
      else
        let self := self.pushEncodedTag nodeId (Subtype.varint1 + (vlen - 1))
        -- `b & 0x7F`
        let stripped := varintBytes.map fun byte => UInt8.ofNat (byte.toNat % 128)
        .ok (self.pushChunk nodeId .varint stripped, pos + vlen)

/-- `encode_fixed32_field` and `encode_fixed64_field`: `width` bytes into the
buffer of the given type. -/
def encodeFixedField (width : Nat) (bufType : BufferType) (what : String)
    (self : TransposeChunkEncoder) (data : Bytes) (pos : Nat) (nodeId : NodeId) :
    Rust (TransposeChunkEncoder × Nat) :=
  if data.length < pos + width then .error (malformed what)
  else do
    let self := self.pushEncodedTag nodeId Subtype.trivial
    let bytes ← sliceRange data pos (pos + width)
    .ok (self.pushChunk nodeId bufType bytes, pos + width)

/-- `encode_fixed32_field`. -/
def encodeFixed32Field := encodeFixedField 4 .fixed32 "truncated fixed32"

/-- `encode_fixed64_field`. -/
def encodeFixed64Field := encodeFixedField 8 .fixed64 "truncated fixed64"

/-- `encode_length_delimited_field`.  A submessage leaves a frame and moves
the position to its first byte; a string moves it past its last. -/
def encodeLengthDelimitedField (data : Bytes) (nodeId : NodeId) (nodeMid depth : Nat)
    (state : AddMessageState) : Rust (AddMessageState × Bool) :=
  match decodeU32 (data.drop state.pos) with
  | .error error => .error (varintFault "length" error)
  | .ok (length, llen) => do
      let valuePos := state.pos + llen
      let valueEnd := valuePos + length
      if u64Max < valueEnd then .error (malformed "length-delimited field overflow")
      else if state.currentEnd < valueEnd then
        .error (malformed "length-delimited field overflow")
      else
        let value ← sliceRange data valuePos valueEnd
        if 0 < length ∧ depth + state.messageStack.length < maxRecursionDepth ∧
            isProtoMessage value = true then
          let encoder :=
            state.encoder.pushEncodedTag nodeId Subtype.lengthDelimitedStartOfSubmessage
          let (endSubIdx, encoder) :=
            encoder.getPosInTagsList nodeId Subtype.lengthDelimitedEndOfSubmessage
          let frame : MessageFrame :=
            { endSubTagIdx := endSubIdx
              parentMessageId := state.currentParent
              parentEndPos := state.currentEnd }
          .ok
            ({ state with
               encoder := encoder
               pos := valuePos
               messageStack := frame :: state.messageStack
               currentParent := nodeMid
               currentEnd := valueEnd }, true)
        else
          let encoder := state.encoder.pushEncodedTag nodeId Subtype.lengthDelimitedString
          let stringBytes ← sliceRange data state.pos valueEnd
          .ok
            ({ state with
               encoder := encoder.pushChunk nodeId .string stringBytes
               pos := valueEnd }, false)

/-- One pass of `add_message` up to the end-of-submessage loop.  The flag says
that a submessage was entered, which skips that loop. -/
def addField (data : Bytes) (depth : Nat) (state : AddMessageState) :
    Rust (AddMessageState × Bool) :=
  match decodeU32 (data.drop state.pos) with
  | .error error => .error (varintFault "tag decode" error)
  | .ok (tag, consumed) => do
      let state := { state with pos := state.pos + consumed }
      if tagFieldNumber tag = 0 then .error (malformed "field number 0 in proto")
      else
        let nodeId : NodeId := { parentMessageId := state.currentParent, tag := tag }
        let (nodeMid, encoder) := state.encoder.getOrCreateNode nodeId
        let state := { state with encoder := encoder }
        match tagWireType tag with
        | some .varint => do
            let (encoder, pos) ← encodeVarintField encoder data state.pos nodeId
            .ok ({ state with encoder := encoder, pos := pos }, false)
        | some .fixed32 => do
            let (encoder, pos) ← encodeFixed32Field encoder data state.pos nodeId
            .ok ({ state with encoder := encoder, pos := pos }, false)
        | some .fixed64 => do
            let (encoder, pos) ← encodeFixed64Field encoder data state.pos nodeId
            .ok ({ state with encoder := encoder, pos := pos }, false)
        | some .lengthDelimited =>
            encodeLengthDelimitedField data nodeId nodeMid
              (depth + state.groupStack.length) state
        | some .startGroup =>
            .ok
              ({ state with
                 encoder := encoder.pushEncodedTag nodeId Subtype.trivial
                 groupStack := state.currentParent :: state.groupStack
                 currentParent := nodeMid }, false)
        | some .endGroup =>
            match state.groupStack with
            | [] => .error (malformed "unmatched end-group tag")
            | parent :: groups =>
                .ok
                  ({ state with
                     encoder := encoder.pushEncodedTag nodeId Subtype.trivial
                     groupStack := groups
                     currentParent := parent }, false)
        | none => .error (malformed s!"invalid wire type in tag {tag}")

/-- The end-of-submessage loop: pop every frame whose bytes are used up. -/
def popFrames (pos : Nat) : AddMessageState → List MessageFrame → AddMessageState
  | state, [] => { state with messageStack := [] }
  | state, frame :: frames =>
      if state.currentEnd ≤ pos then
        popFrames pos
          { state with
            encoder :=
              { state.encoder with
                encodedTags := state.encoder.encodedTags ++ [frame.endSubTagIdx] }
            currentParent := frame.parentMessageId
            currentEnd := frame.parentEndPos }
          frames
      else { state with messageStack := frame :: frames }

/-- The loop of `add_message`. -/
def addMessageLoop (data : Bytes) (depth : Nat) : Nat → AddMessageState → Rust AddMessageState
  | 0, _ => .error .outOfFuel
  | fuel + 1, state =>
      if state.pos < state.currentEnd then do
        let (state, entered) ← addField data depth state
        if entered then addMessageLoop data depth fuel state
        else addMessageLoop data depth fuel (popFrames state.pos state state.messageStack)
      else .ok state

/-- `add_message`.  Every pass consumes at least the byte of a tag. -/
def addMessage (self : TransposeChunkEncoder) (data : Bytes) (parentMessageId depth : Nat) :
    Rust TransposeChunkEncoder := do
  let state ←
    addMessageLoop data depth (data.length + 1)
      { encoder := self
        pos := 0
        messageStack := []
        groupStack := []
        currentParent := parentMessageId
        currentEnd := data.length }
  .ok state.encoder

/-- The node of a non-proto record. -/
def nonProtoNode : NodeId := { parentMessageId := MessageId.nonProto, tag := 0 }

/-- The node of the start of a proto record. -/
def startOfMessageNode : NodeId := { parentMessageId := MessageId.startOfMessage, tag := 0 }

/-- `TransposeChunkEncoder::add_record`. -/
def addRecord (self : TransposeChunkEncoder) (data : Bytes) : Rust TransposeChunkEncoder :=
  let self :=
    { self with
      numRecords := self.numRecords + 1
      decodedDataSize := self.decodedDataSize + data.length }
  if isProtoMessage data then
    (self.pushEncodedTag startOfMessageNode Subtype.trivial).addMessage data MessageId.root 0
  else
    let self := self.pushEncodedTag nonProtoNode Subtype.trivial
    let self := self.pushChunk nonProtoNode .nonProto data
    .ok { self with nonprotoLengths := self.nonprotoLengths.pushChunk (encodeU64 data.length) }

end TransposeChunkEncoder

end Riegeli
