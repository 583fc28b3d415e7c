/-
Module: Riegeli.Core.TransposeChunk
Purpose: `TransposeChunkEncoder::encode`: the order of the buffers, their
  split into buckets, the header and the assembled chunk.
Trusted boundary: none
Main exports: SortedBuffers, collectAndSortBuffers, createCompressedBuckets,
  buildHeader, TransposeChunkEncoder.encode
-/
import Riegeli.Core.StateMachine

namespace Riegeli

variable (ext : Externals)

/-- What `collect_and_sort_buffers` returns.  `groups` holds the buffers of
each non-empty group, the slices the source's index ranges stand for. -/
structure SortedBuffers where
  allBuffers : List Bytes
  bufferSizes : List Nat
  bufferPos : NodeId → Option Nat
  groups : List (List Bytes)

/-- The order of `sort_by`: size, then parent message, then tag. -/
def BufferWithMetadata.le (first second : BufferWithMetadata) : Bool :=
  if first.data.data.length ≠ second.data.data.length then
    decide (first.data.data.length < second.data.data.length)
  else if first.nodeId.parentMessageId ≠ second.nodeId.parentMessageId then
    decide (first.nodeId.parentMessageId < second.nodeId.parentMessageId)
  else decide (first.nodeId.tag ≤ second.nodeId.tag)

/-- The loop over the sorted buffers of one type. -/
def collectBuffers : List BufferWithMetadata → SortedBuffers → Rust (SortedBuffers × List Bytes)
  | [], sorted => .ok (sorted, [])
  | buffer :: rest, sorted => do
      let reversed ← buffer.data.writeTo
      let index := sorted.allBuffers.length
      let (sorted, group) ←
        collectBuffers rest
          { sorted with
            allBuffers := sorted.allBuffers ++ [reversed]
            bufferSizes := sorted.bufferSizes ++ [buffer.data.data.length]
            bufferPos := fun id => if id = buffer.nodeId then some index else sorted.bufferPos id }
      .ok (sorted, reversed :: group)

/-- The loop over the buffer types. -/
def collectGroups (data : BufferType → List BufferWithMetadata) :
    List BufferType → SortedBuffers → Rust SortedBuffers
  | [], sorted => .ok sorted
  | bufType :: rest, sorted => do
      let (sorted, group) ←
        collectBuffers ((data bufType).mergeSort BufferWithMetadata.le) sorted
      collectGroups data rest
        (if group.isEmpty then sorted else { sorted with groups := sorted.groups ++ [group] })

/-- The split of a group's buffers into bucket sizes, the largest buffer
first.  `sizes` collects the finished buckets, last one first. -/
def planBuckets (bucketSize : Nat) : List Bytes → Nat → Nat → List Nat → Rust (List Nat)
  | [], _, current, sizes => .ok (if 0 < current then current :: sizes else sizes)
  | buffer :: rest, remaining, current, sizes => do
      let full := 0 < current ∧ bucketSize ≤ current + buffer.length / 2
      let sizes := if full then current :: sizes else sizes
      let current := (if full then 0 else current) + buffer.length
      let remaining ← subWord remaining buffer.length
      if remaining ≤ bucketSize / 2 then
        let current := current + remaining
        .ok (if 0 < current then current :: sizes else sizes)
      else planBuckets bucketSize rest remaining current sizes

/-- The error of a bucket plan that does not fit the buffers. -/
def bucketMismatch : Fault :=
  malformed "internal: bucket sizes and buffer sizes do not match"

/-- The room left in the current bucket, which is the next planned one when the
last is full. -/
def nextBucket (bucketRemaining : Nat) (sizes : List Nat) : Rust (Nat × List Nat) :=
  if bucketRemaining = 0 then
    match sizes with
    | [] => .error bucketMismatch
    | size :: sizes => .ok (size, sizes)
  else .ok (bucketRemaining, sizes)

/-- Fill the buckets in forward order.  `sizes` are the planned sizes, the one
to use next first. -/
def fillBuckets (compression : CompressionType) (opts : CompressOptions) :
    List Bytes → List Nat → Bytes → Nat → Rust (List Bytes)
  | [], _, _, _ => .ok []
  | buffer :: rest, sizes, currentBucket, bucketRemaining => do
      let (bucketRemaining, sizes) ← nextBucket bucketRemaining sizes
      if bucketRemaining < buffer.length then .error bucketMismatch
      else
        let bucketRemaining := bucketRemaining - buffer.length
        let currentBucket := currentBucket ++ buffer
        if bucketRemaining = 0 then do
          let compressed ← compressWithPrefix ext currentBucket compression opts
          let buckets ← fillBuckets compression opts rest sizes [] 0
          .ok (compressed :: buckets)
        else fillBuckets compression opts rest sizes currentBucket bucketRemaining

/-- `create_compressed_buckets`, for the groups listed. -/
def createCompressedBuckets (compression : CompressionType) (opts : CompressOptions)
    (bucketSize : Nat) : List (List Bytes) → Rust (List Bytes)
  | [] => .ok []
  | buffers :: groups => do
      let sizes ← planBuckets bucketSize buffers.reverse (buffers.map List.length).sum 0 []
      let buckets ← fillBuckets ext compression opts buffers sizes [] 0
      let rest ← createCompressedBuckets compression opts bucketSize groups
      .ok (buckets ++ rest)

/-! ## Header -/

/-- What one state adds to the header. -/
structure StateEntry where
  tag : Nat
  base : Nat
  subtype : Option Nat
  bufferIndex : Option Nat
deriving Repr, DecidableEq

/-- The body of the loop of `write_states_and_data`.  `numStates` is the
number of states. -/
def stateEntry (tags : List EncodedTagInfo) (bufferPos : NodeId → Option Nat) (numStates : Nat)
    (state : StateInfo) : Rust StateEntry :=
  if state.etagIndex = invalidPos then
    .ok { tag := MessageId.noOp, base := state.base, subtype := none, bufferIndex := none }
  else do
    let etag ← indexAt tags state.etagIndex
    let nodeId := etag.nodeId
    let base :=
      if etag.base ≠ invalidPos then
        etag.base + (if etag.destInfo.length = 1 then numStates else 0)
      else 0
    if nodeId.tag ≠ 0 then
      let isString := tagWireType nodeId.tag = some .lengthDelimited
      if isString ∧ etag.subtype = Subtype.lengthDelimitedStartOfSubmessage then
        .ok
          { tag := MessageId.startOfSubmessage
            base := base
            subtype := none
            bufferIndex := none }
      else if isString ∧ etag.subtype = Subtype.lengthDelimitedEndOfSubmessage then
        .ok
          { tag := nodeId.tag + submessageWireType - WireType.lengthDelimited.toNat
            base := base
            subtype := none
            bufferIndex := none }
      else
        .ok
          { tag := nodeId.tag
            base := base
            subtype := if hasSubtype nodeId.tag then some etag.subtype else none
            bufferIndex :=
              if hasDataBuffer nodeId.tag etag.subtype then some ((bufferPos nodeId).getD 0)
              else none }
    else
      .ok
        { tag := nodeId.parentMessageId
          base := base
          subtype := none
          bufferIndex :=
            if nodeId.parentMessageId = MessageId.nonProto then
              some ((bufferPos TransposeChunkEncoder.nonProtoNode).getD 0)
            else none }

/-- The entries of all states. -/
def stateEntries (tags : List EncodedTagInfo) (bufferPos : NodeId → Option Nat)
    (numStates : Nat) : List StateInfo → Rust (List StateEntry)
  | [] => .ok []
  | state :: rest => do
      let entry ← stateEntry tags bufferPos numStates state
      let entries ← stateEntries tags bufferPos numStates rest
      .ok (entry :: entries)

/-- `first_node`: the first state of the last encoded tag. -/
def firstTagPos (encodedTags : List Nat) (stateMachine : List StateInfo) : Nat :=
  match encodedTags.getLast? with
  | none => 0
  | some last => (stateMachine.findIdx? fun state => state.etagIndex == last).getD 0

/-- `write_states_and_data`. -/
def writeStatesAndData (tags : List EncodedTagInfo) (encodedTags : List Nat)
    (bufferPos : NodeId → Option Nat) (stateMachine : List StateInfo) : Rust Bytes := do
  let entries ← stateEntries tags bufferPos stateMachine.length stateMachine
  .ok
    (encodeU32 stateMachine.length ++
      entries.flatMap (fun entry => encodeU32 entry.tag) ++
      entries.flatMap (fun entry => encodeU32 entry.base) ++
      (entries.filterMap StateEntry.subtype).map UInt8.ofNat ++
      (entries.filterMap StateEntry.bufferIndex).flatMap encodeU32 ++
      encodeU32 (firstTagPos encodedTags stateMachine))

/-- `build_header`. -/
def buildHeader (tags : List EncodedTagInfo) (encodedTags : List Nat)
    (compressedBuckets : List Bytes) (bufferSizes : List Nat)
    (bufferPos : NodeId → Option Nat) (stateMachine : List StateInfo) : Rust Bytes := do
  let states ← writeStatesAndData tags encodedTags bufferPos stateMachine
  .ok
    (encodeU32 compressedBuckets.length ++ encodeU32 bufferSizes.length ++
      compressedBuckets.flatMap (fun bucket => encodeU64 bucket.length) ++
      bufferSizes.flatMap encodeU64 ++ states)

namespace TransposeChunkEncoder

/-- `collect_and_sort_buffers`. -/
def collectAndSortBuffers (self : TransposeChunkEncoder) : Rust SortedBuffers := do
  let sorted ←
    collectGroups self.data allBufferTypes
      { allBuffers := [], bufferSizes := [], bufferPos := fun _ => none, groups := [] }
  if self.nonprotoLengths.data.isEmpty then .ok sorted
  else do
    let reversed ← self.nonprotoLengths.writeTo
    .ok
      { sorted with
        allBuffers := sorted.allBuffers ++ [reversed]
        bufferSizes := sorted.bufferSizes ++ [self.nonprotoLengths.data.length]
        groups := sorted.groups ++ [[reversed]] }

/-- `TransposeChunkEncoder::encode`. -/
def encode (self : TransposeChunkEncoder) : Rust Chunk := do
  let sorted ← self.collectAndSortBuffers
  let (stateMachine, tags) ← createStateMachine self.tagsList self.encodedTags
  let tags ← ensureLastStateExplicit tags self.encodedTags
  let compressedBuckets ←
    createCompressedBuckets ext self.compression self.compressOpts self.bucketSize sorted.groups
  let rawHeader ←
    buildHeader tags self.encodedTags compressedBuckets sorted.bufferSizes sorted.bufferPos
      stateMachine
  let transitions ← buildTransitions tags self.encodedTags stateMachine
  let compressedTransitions ←
    compressWithPrefix ext transitions self.compression self.compressOpts
  let lengthPrefixedHeader ←
    compressLengthPrefixed ext rawHeader self.compression self.compressOpts
  let data :=
    [self.compression.toByte] ++ lengthPrefixedHeader ++ compressedBuckets.flatten ++
      compressedTransitions
  .ok
    { header :=
        ChunkHeader.fromParts ext data .transposed self.numRecords self.decodedDataSize
      data := data }

end TransposeChunkEncoder

end Riegeli
