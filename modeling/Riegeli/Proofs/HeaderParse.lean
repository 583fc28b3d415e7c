/-
Module: Riegeli.Proofs.HeaderParse
Purpose: The decoder takes the data of a transposed chunk apart into what the
  encoder put together.
Trusted boundary: the codecs
Main exports: compressLengthPrefixed_eq, splitHeader_data,
  readBucketData_buckets, parseStateMetadata_states, parseHeaderAndBuckets_data
-/
import Riegeli.Proofs.BuiltNodes
import Riegeli.Proofs.BucketSplit
import Riegeli.Proofs.SimpleRoundTrip

namespace Riegeli

variable {ext : Externals}

/-! ## The compressed header -/

/-- A length-prefixed text is its length and the text with its own prefix. -/
theorem compressLengthPrefixed_eq {data encoded : Bytes} {compression : CompressionType}
    {options : CompressOptions} (fits : data.length ≤ u64Max)
    (ran : compressLengthPrefixed ext data compression options = .ok encoded) :
    ∃ payload, compressWithPrefix ext data compression options = .ok payload ∧
      encoded = encodeU64 payload.length ++ payload := by
  obtain ⟨compressed, compressedRan, ran⟩ := Except.bind_eq_ok.mp ran
  rw [compressWithPrefix, compressedRan, Except.ok_bind]
  by_cases plain : compression = .none
  · rw [if_pos plain] at ran ⊢
    cases ran
    exact ⟨_, rfl, rfl⟩
  · rw [if_neg plain, lengthVarintU64_eq fits] at ran
    rw [if_neg plain]
    cases ran
    refine ⟨_, rfl, ?_⟩
    rw [List.length_append, Nat.add_comm, List.append_assoc]

theorem splitHeader_data {compression : CompressionType} {payload rest : Bytes}
    (fits : ([compression.toByte] ++ (encodeU64 payload.length ++ payload) ++ rest).length ≤
      u64Max) :
    splitHeader ([compression.toByte] ++ (encodeU64 payload.length ++ payload) ++ rest) =
      .ok (compression, payload,
        ([compression.toByte] ++ (encodeU64 payload.length ++ payload)).length) := by
  have lengths := fits
  simp only [List.length_append, List.length_singleton] at lengths
  have decoded := @decodeU64_encodeU64 payload.length (by omega) (payload ++ rest)
  rw [← List.append_assoc] at decoded
  have remaining : sliceRange ([compression.toByte] ++ (encodeU64 payload.length ++ payload) ++ rest)
      1 ([compression.toByte] ++ (encodeU64 payload.length ++ payload) ++ rest).length =
        .ok (encodeU64 payload.length ++ payload ++ rest) := by
    rw [List.append_assoc]
    exact sliceRange_suffix rfl rfl
  have headed : sliceRange ([compression.toByte] ++ (encodeU64 payload.length ++ payload) ++ rest)
      (1 + (encodeU64 payload.length).length)
      (1 + (encodeU64 payload.length).length + payload.length) = .ok payload := by
    rw [← List.append_assoc [compression.toByte]]
    refine sliceRange_middle ?_ ?_
    · rw [List.length_append, List.length_singleton]
    · rw [List.length_append, List.length_singleton]
  have added : checkedAdd (1 + (encodeU64 payload.length).length) payload.length =
      some (1 + (encodeU64 payload.length).length + payload.length) := by
    unfold checkedAdd
    rw [if_pos (by omega)]
  have first : ([compression.toByte] ++ (encodeU64 payload.length ++ payload) ++ rest).head? =
      some compression.toByte := rfl
  generalize data : [compression.toByte] ++ (encodeU64 payload.length ++ payload) ++ rest = whole
    at remaining headed first
  cases whole with
  | nil => cases first
  | cons byte tail =>
  obtain rfl : byte = compression.toByte := Option.some.inj first
  have long := congrArg List.length data
  simp only [List.length_append, List.length_singleton] at long
  unfold splitHeader
  simp only
  rw [CompressionType.tryFrom_toByte, Except.ok_bind, remaining, Except.ok_bind, decoded]
  simp only
  rw [added]
  simp only
  rw [if_neg (by omega), headed, Except.ok_bind]
  simp only [List.length_append, List.length_singleton, Nat.add_assoc]

/-- The buckets are found by their lengths. -/
theorem readBucketData_buckets (rest : Bytes) (buckets : List Bytes) :
    ∀ {first : Bytes}, (first ++ buckets.flatten ++ rest).length ≤ u64Max →
      readBucketData (first ++ buckets.flatten ++ rest) (buckets.map List.length) first.length =
        .ok (buckets, (first ++ buckets.flatten).length) := by
  induction buckets with
  | nil =>
      intro first _
      rw [List.flatten_nil, List.append_nil]
      rfl
  | cons bucket buckets ih =>
      intro first fits
      have whole : first ++ (bucket :: buckets).flatten ++ rest =
          (first ++ bucket) ++ buckets.flatten ++ rest := by
        rw [List.flatten_cons, List.append_assoc first bucket]
      rw [whole] at fits ⊢
      have later := ih fits
      simp only [List.length_append] at fits
      have added : checkedAdd first.length bucket.length =
          some (first.length + bucket.length) := by
        unfold checkedAdd
        rw [if_pos (by omega)]
      have here : sliceRange ((first ++ bucket) ++ buckets.flatten ++ rest) first.length
          (first.length + bucket.length) = .ok bucket := by
        rw [List.append_assoc (first ++ bucket)]
        exact sliceRange_middle rfl rfl
      rw [List.map_cons, readBucketData, added]
      simp only
      rw [if_neg (by simp only [List.length_append]; omega), here, Except.ok_bind,
        ← List.length_append, later, Except.ok_bind, List.flatten_cons, List.append_assoc first]

/-! ## The states -/

variable {bufferPos : NodeId → Option Nat}

theorem EntryFor.tag_le {label : Option (NodeId × Nat)} {entry : StateEntry}
    (entryFor : EntryFor bufferPos label entry) : entry.tag ≤ u32Max := by
  cases entryFor with
  | noOp base => exact Nat.zero_le _
  | startOfMessage base => exact (show MessageId.startOfMessage ≤ u32Max by decide)
  | nonProto base => exact (show MessageId.nonProto ≤ u32Max by decide)
  | startOfSubmessage base valid => exact (show MessageId.startOfSubmessage ≤ u32Max by decide)
  | @field parent tag subtype base label =>
      change headerTag tag subtype ≤ u32Max
      rcases headerTag_cases tag subtype with ⟨same, _, low⟩ | same
      · have small := label.small
        change (tag + 4) % 8 = 6 at low
        unfold u32Max at small ⊢
        omega
      · rw [same]
        exact label.small

/-- The decoder expects a subtype byte where there is one. -/
theorem EntryFor.counted {label : Option (NodeId × Nat)} {entry : StateEntry}
    (entryFor : EntryFor bufferPos label entry) :
    (isValidProtoTag entry.tag && hasSubtype entry.tag) = entry.subtype.isSome := by
  cases entryFor with
  | noOp base => rfl
  | startOfMessage base => rfl
  | nonProto base => rfl
  | startOfSubmessage base valid => rfl
  | @field parent tag subtype base label =>
      change (isValidProtoTag (headerTag tag subtype) && hasSubtype (headerTag tag subtype)) =
        (if hasSubtype tag then some subtype else none).isSome
      rcases headerTag_cases tag subtype with ⟨same, delimited, low⟩ | same
      · have mapped : tagWireType (headerTag tag subtype) = none := by
          rw [same, tagWireType, low]
          rfl
        have typed : hasSubtype tag = false := by
          rw [hasSubtype, delimited]
          rfl
        rw [hasSubtype, mapped, typed, Bool.and_comm]
        rfl
      · rw [same, label.valid, Bool.true_and]
        cases hasSubtype tag <;> rfl

theorem countSubtypes_entries {labels : List (Option (NodeId × Nat))} {entries : List StateEntry}
    (entriesFor : List.Forall₂ (EntryFor bufferPos) labels entries) :
    countSubtypes (entries.map StateEntry.tag) = (entries.filterMap StateEntry.subtype).length := by
  induction entriesFor with
  | nil => rfl
  | @cons label entry labels rest entryFor _ ih =>
      have counted := entryFor.counted
      unfold countSubtypes at ih ⊢
      rw [List.map_cons, List.countP_cons, ih, counted]
      cases typed : entry.subtype with
      | none =>
          rw [List.filterMap_cons_none typed]
          rfl
      | some subtype =>
          rw [List.filterMap_cons_some typed]
          rfl

/-- What the header says of the states before it says which buffers they read. -/
def stateColumns (entries : List StateEntry) : Bytes :=
  encodeU32 entries.length ++ entries.flatMap (fun entry => encodeU32 entry.tag) ++
    entries.flatMap (fun entry => encodeU32 entry.base) ++
    (entries.filterMap StateEntry.subtype).map UInt8.ofNat

theorem parseStateMetadata_states {labels : List (Option (NodeId × Nat))}
    {entries : List StateEntry} (entriesFor : List.Forall₂ (EntryFor bufferPos) labels entries)
    (few : entries.length ≤ u32Max) (based : ∀ entry ∈ entries, entry.base ≤ u32Max)
    {hdr : BufferCursor} {rest : Bytes} (before : hdr.Before (stateColumns entries ++ rest)) :
    ∃ after : BufferCursor, parseStateMetadata hdr = .ok
        ({ tags := entries.map StateEntry.tag
           nextNodeIndices := entries.map StateEntry.base
           subtypesBytes := (entries.filterMap StateEntry.subtype).map UInt8.ofNat
           numStates := entries.length }, after) ∧ after.Before rest := by
  have tagged : ∀ tag ∈ entries.map StateEntry.tag, tag ≤ u32Max := by
    intro tag member
    obtain ⟨entry, listed, rfl⟩ := List.mem_map.mp member
    obtain ⟨index, found⟩ := List.getElem?_of_mem listed
    obtain ⟨label, _, entryFor⟩ := forall₂_get entriesFor.flip found
    exact entryFor.tag_le
  have based' : ∀ base ∈ entries.map StateEntry.base, base ≤ u32Max := by
    intro base member
    obtain ⟨entry, listed, rfl⟩ := List.mem_map.mp member
    exact based entry listed
  have words {hdr : BufferCursor} {rest : Bytes} (values : List Nat)
      (fit : ∀ value ∈ values, value ≤ u32Max)
      (before : hdr.Before (values.flatMap encodeU32 ++ rest)) :=
    @BufferCursor.Before.readMany rest Nat encodeU32 BufferCursor.readVarint32 values hdr
      (fun value member _ _ before => before.readVarint32 (fit value member)) before
  unfold stateColumns at before
  simp only [List.append_assoc] at before
  rw [← List.flatMap_map StateEntry.tag encodeU32, ← List.flatMap_map StateEntry.base encodeU32]
    at before
  have afterCount := before.skip
  have afterTags := afterCount.skip
  have afterBases := afterTags.skip
  have tagsRan := words _ tagged afterCount
  have basesRan := words _ based' afterTags
  have bytesRan := @BufferCursor.Before.readMany rest UInt8 (fun byte => [byte])
    BufferCursor.readByte ((entries.filterMap StateEntry.subtype).map UInt8.ofNat) _
    (fun byte _ _ _ before => before.readByte) (by rw [List.flatMap_singleton']; exact afterBases)
  rw [List.length_map] at tagsRan basesRan bytesRan
  refine ⟨_, ?_, afterBases.skip⟩
  unfold parseStateMetadata
  rw [before.readVarint32 few, Except.ok_bind]
  simp only
  rw [tagsRan, Except.ok_bind]
  simp only
  rw [basesRan, Except.ok_bind]
  simp only
  rw [countSubtypes_entries entriesFor, bytesRan, Except.ok_bind, List.flatMap_singleton']

/-! ## The header -/

/-- The header with the bucket sizes, the buffer sizes and the states. -/
def rawHeader (buckets : List Bytes) (bufferSizes : List Nat) (entries : List StateEntry)
    (firstNode : Nat) : Bytes :=
  encodeU32 buckets.length ++ encodeU32 bufferSizes.length ++
    buckets.flatMap (fun bucket => encodeU64 bucket.length) ++ bufferSizes.flatMap encodeU64 ++
    (stateColumns entries ++ (entries.filterMap StateEntry.bufferIndex).flatMap encodeU32 ++
      encodeU32 firstNode)

theorem buildHeader_eq {tags : List EncodedTagInfo} {encodedTags : List Nat}
    {buckets : List Bytes} {bufferSizes : List Nat} {stateMachine : List StateInfo}
    {entries : List StateEntry}
    (written : stateEntries tags bufferPos stateMachine.length stateMachine = .ok entries)
    (counted : entries.length = stateMachine.length) :
    buildHeader tags encodedTags buckets bufferSizes bufferPos stateMachine =
      .ok (rawHeader buckets bufferSizes entries (firstTagPos encodedTags stateMachine)) := by
  unfold buildHeader writeStatesAndData rawHeader stateColumns
  rw [written, Except.ok_bind, Except.ok_bind, counted]

/-- Encodings of bounded length. -/
theorem length_flatMap_le {Item : Type} {encode : Item → Bytes} {bound : Nat}
    (short : ∀ item, (encode item).length ≤ bound) (items : List Item) :
    (items.flatMap encode).length ≤ items.length * bound := by
  induction items with
  | nil => exact Nat.zero_le _
  | cons item rest ih =>
      have here := short item
      rw [List.flatMap_cons, List.length_append, List.length_cons, Nat.add_mul, Nat.one_mul]
      omega

theorem length_rawHeader_le {buckets : List Bytes} {bufferSizes : List Nat}
    {entries : List StateEntry} {firstNode : Nat} (fewBuckets : buckets.length ≤ u32Max)
    (fewBuffers : bufferSizes.length ≤ u32Max) (fewStates : entries.length ≤ u32Max) :
    (rawHeader buckets bufferSizes entries firstNode).length ≤ u64Max := by
  have words := fun value => encodeU64_length_le value
  have subtypes := List.length_filterMap_le StateEntry.subtype entries
  have indices := List.length_filterMap_le StateEntry.bufferIndex entries
  have buckets' := length_flatMap_le (fun bucket : Bytes => words bucket.length) buckets
  have buffers' := length_flatMap_le words bufferSizes
  have tags' := length_flatMap_le (fun entry : StateEntry => words entry.tag) entries
  have bases' := length_flatMap_le (fun entry : StateEntry => words entry.base) entries
  have indices' := @length_flatMap_le Nat encodeU32 10 words
    (entries.filterMap StateEntry.bufferIndex)
  have first := words firstNode
  have counts := words buckets.length
  have counts' := words bufferSizes.length
  have counts'' := words entries.length
  unfold rawHeader stateColumns
  simp only [List.length_append, List.length_map, encodeU32]
  unfold u32Max at fewBuckets fewBuffers fewStates
  unfold u64Max
  omega

/-- The decoder gets the buffers and the states that the encoder had. -/
theorem parseHeaderAndBuckets_data (lawful : ext.Lawful) {compression : CompressionType}
    {opts : CompressOptions} {bucketSize : Nat} {groups : List (List Bytes)}
    {buckets : List Bytes} {labels : List (Option (NodeId × Nat))} {entries : List StateEntry}
    {firstNode : Nat} {lengthPrefixed transitions : Bytes}
    (filled : ∀ buffer ∈ groups.flatten, buffer ≠ [])
    (total : groups.flatten.flatten.length ≤ u64Max)
    (fewBuffers : groups.flatten.length ≤ u32Max)
    (bucketsRan : createCompressedBuckets ext compression opts bucketSize groups = .ok buckets)
    (entriesFor : List.Forall₂ (EntryFor bufferPos) labels entries)
    (fewStates : entries.length ≤ u32Max) (based : ∀ entry ∈ entries, entry.base ≤ u32Max)
    (headerRan : compressLengthPrefixed ext
      (rawHeader buckets (groups.flatten.map List.length) entries firstNode) compression opts =
        .ok lengthPrefixed)
    (fits : ([compression.toByte] ++ lengthPrefixed ++ buckets.flatten ++ transitions).length ≤
      u64Max) :
    ∃ hdr : BufferCursor, hdr.Before
        ((entries.filterMap StateEntry.bufferIndex).flatMap encodeU32 ++ encodeU32 firstNode) ∧
      parseHeaderAndBuckets ext
          ([compression.toByte] ++ lengthPrefixed ++ buckets.flatten ++ transitions) none = .ok
        { buffers := groups.flatten.map BufferCursor.new
          numStates := entries.length
          tags := entries.map StateEntry.tag
          nextNodeIndices := entries.map StateEntry.base
          subtypesBytes := (entries.filterMap StateEntry.subtype).map UInt8.ofNat
          hdr := hdr
          numBuffers := groups.flatten.length
          compression := compression
          transitionsCompressed := transitions } := by
  obtain ⟨fewer, opened⟩ := createCompressedBuckets_opens lawful filled total bucketsRan
  have headerFits := @length_rawHeader_le buckets (groups.flatten.map List.length) entries firstNode
    (fewer.trans fewBuffers) (by rw [List.length_map]; exact fewBuffers) fewStates
  obtain ⟨payload, payloadRan, rfl⟩ := compressLengthPrefixed_eq headerFits headerRan
  have restored := decompressWithPrefix_compressWithPrefix lawful headerFits payloadRan
  have located := @readBucketData_buckets transitions buckets
    ([compression.toByte] ++ (encodeU64 payload.length ++ payload)) fits
  rw [List.append_assoc _ buckets.flatten] at fits
  have split := splitHeader_data fits
  rw [← List.append_assoc _ buckets.flatten] at fits split
  have lengths := fits
  simp only [List.length_append, List.length_singleton] at lengths
  have sized : ∀ size ∈ buckets.map List.length, size ≤ u64Max := by
    intro size member
    obtain ⟨bucket, listed, rfl⟩ := List.mem_map.mp member
    have small := (List.sublist_flatten_of_mem listed).length_le
    omega
  have sized' : ∀ size ∈ groups.flatten.map List.length, size ≤ u64Max := by
    intro size member
    obtain ⟨buffer, listed, rfl⟩ := List.mem_map.mp member
    exact (List.sublist_flatten_of_mem listed).length_le.trans total
  have words {hdr : BufferCursor} {rest : Bytes} (values : List Nat)
      (fit : ∀ value ∈ values, value ≤ u64Max)
      (before : hdr.Before (values.flatMap encodeU64 ++ rest)) :=
    @BufferCursor.Before.readMany rest Nat encodeU64 BufferCursor.readVarint64 values hdr
      (fun value member _ _ before => before.readVarint64 (fit value member)) before
  -- the header from its start, section by section
  have counts := BufferCursor.new_before headerFits (show _ = encodeU32 buckets.length ++
      (encodeU32 groups.flatten.length ++
        ((buckets.map List.length).flatMap encodeU64 ++
          ((groups.flatten.map List.length).flatMap encodeU64 ++ (stateColumns entries ++
            ((entries.filterMap StateEntry.bufferIndex).flatMap encodeU32 ++
              encodeU32 firstNode))))) by
    simp only [rawHeader, List.append_assoc, List.flatMap_map, List.length_map])
  have afterBuckets := counts.skip
  have bucketSizes := afterBuckets.skip
  have bufferSizes := bucketSizes.skip
  have states := bufferSizes.skip
  have bucketsRead := words _ sized bucketSizes
  have buffersRead := words _ sized' bufferSizes
  rw [List.length_map] at bucketsRead buffersRead
  obtain ⟨hdr, statesRead, before⟩ := parseStateMetadata_states entriesFor fewStates based states
  refine ⟨hdr, before, ?_⟩
  unfold parseHeaderAndBuckets
  rw [split, Except.ok_bind]
  simp only
  rw [restored, Except.ok_bind, counts.readVarint32 (fewer.trans fewBuffers), Except.ok_bind]
  simp only
  rw [afterBuckets.readVarint32 fewBuffers, Except.ok_bind]
  simp only
  rw [bucketsRead, Except.ok_bind]
  simp only
  rw [buffersRead, Except.ok_bind]
  simp only
  rw [statesRead, Except.ok_bind]
  simp only
  rw [located, Except.ok_bind]
  simp only
  rw [sliceRange_suffix rfl rfl, Except.ok_bind, neededBuffersOf, Except.ok_bind,
    opened (List.length_replicate ..), Except.ok_bind, cursorsOf_all]

end Riegeli
