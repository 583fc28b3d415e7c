/-
Module: Riegeli.Proofs.LeafReads
Purpose: The decoder restores a field without fields inside from its tag and
  its chunk.
Trusted boundary: none
Main exports: restoreHighBits_stripped, TagOp.tagData, DecodeState.emit,
  runCallback_leaf, writeExistenceOnlyField_leaf
-/
import Riegeli.Proofs.PathRuns
import Riegeli.Proofs.HeldBuffers
import Riegeli.Spec.ProjectedFields

namespace Riegeli

/-! ## Varints -/

/-- A byte with its high bit cleared. -/
def stripped (byte : UInt8) : UInt8 := UInt8.ofNat (byte.toNat % 128)

theorem stripped_low : ∀ value < 128, stripped (UInt8.ofNat value) = UInt8.ofNat value := by decide

theorem stripped_high : ∀ value < 128,
    stripped (UInt8.ofNat (value + 128)) ||| 0x80 = UInt8.ofNat (value + 128) := by decide

/-- The high bits of a varint can be left out. -/
theorem restoreHighBits_loop (fuel : Nat) :
    ∀ value, value < 2 ^ (7 * (fuel + 1)) →
      restoreHighBits ((encodeVarintLoop (fuel + 1) value).map stripped) =
        encodeVarintLoop (fuel + 1) value := by
  induction fuel with
  | zero =>
      intro value small
      have final : value / 128 = 0 := by omega
      rw [encodeVarintLoop, if_pos final, List.map_singleton, restoreHighBits,
        stripped_low _ (Nat.mod_lt _ (by omega))]
  | succ fuel ih =>
      intro value bound
      have small : value % 128 < 128 := Nat.mod_lt _ (by omega)
      rw [encodeVarintLoop]
      by_cases final : value / 128 = 0
      · rw [if_pos final, List.map_singleton, restoreHighBits, stripped_low _ small]
      · have shrunk : value / 128 < 2 ^ (7 * (fuel + 1)) := by
          rw [Nat.div_lt_iff_lt_mul (by omega)]
          calc
            value < 2 ^ (7 * (fuel + 1 + 1)) := bound
            _ = 2 ^ (7 * (fuel + 1)) * 128 := by
              rw [show 7 * (fuel + 1 + 1) = 7 * (fuel + 1) + 7 by omega, Nat.pow_add]
        have later := ih (value / 128) shrunk
        obtain ⟨next, rest, more⟩ :=
          List.exists_cons_of_ne_nil (encodeVarintLoop_ne_nil fuel (value / 128))
        rw [if_neg final]
        rw [more, List.map_cons] at later ⊢
        rw [List.map_cons, restoreHighBits, later, stripped_high _ small]

theorem restoreHighBits_stripped {value : Nat} (fits : value ≤ u64Max) :
    restoreHighBits ((encodeU64 value).map stripped) = encodeU64 value := by
  unfold u64Max at fits
  exact restoreHighBits_loop 9 value (by omega)

/-! ## Tags -/

/-- The bytes that the node of a tag holds. -/
def TagOp.tagData (op : TagOp) : Bytes := (tagDataOf op.nodeId.tag op.subtype).1

theorem tagDataOf_length (tag subtype : Nat) :
    (tagDataOf tag subtype).2 = (tagDataOf tag subtype).1.length := by
  unfold tagDataOf
  simp only
  split
  · rw [List.length_append, List.length_singleton]
  · rfl

variable {bufferPos : NodeId → Option Nat} {projecting : Bool} {templates : List NodeTemplate}
  {node : StateMachineNode} {op : TagOp}

theorem FieldNode.nodeTagBytes
    (fieldNode : FieldNode bufferPos projecting templates op.nodeId op.subtype node) :
    nodeTagBytes node = .ok op.tagData := by
  have both := fieldNode.tagData
  have data : node.tagData = op.tagData := congrArg Prod.fst both
  have size : node.tagDataSize = op.tagData.length :=
    (congrArg Prod.snd both).trans (tagDataOf_length _ _)
  rw [Riegeli.nodeTagBytes, data, size, sliceRange_eq (Nat.zero_le _) (Nat.le_refl _),
    Nat.sub_zero, List.drop_zero, List.take_length]

/-- The tag data of a field that is no inlined varint. -/
theorem tagDataOf_plain {number subtype : Nat} {wireType : WireType}
    (plain : wireType = .varint → subtype < Subtype.varintInline0) :
    (tagDataOf (number * 8 + wireType.toNat) subtype).1 = tagBytes number wireType := by
  unfold tagDataOf
  simp only
  rw [tagWireType_tag, if_neg]
  · rfl
  · rintro ⟨varint, inlined⟩
    have below := plain (Option.some.inj varint)
    omega

/-! ## Writing -/

/-- The state with bytes put before those written so far. -/
def DecodeState.emit (state : DecodeState) (bytes : Bytes) : DecodeState :=
  { state with dest := { state.dest with data := state.dest.data ++ bytes.reverse } }

/-- The output has room for so many more bytes. -/
def DecodeState.Room (state : DecodeState) (count : Nat) : Prop :=
  state.dest.data.length + count ≤ state.dest.limit

theorem writeDest_emit {state : DecodeState} {bytes : Bytes} (room : state.Room bytes.length) :
    writeDest state bytes = .ok (state.emit bytes) := by
  unfold DecodeState.Room at room
  rw [writeDest, Decoder.BackwardBuffer.write, subWord_eq (by omega), Except.ok_bind,
    if_neg (by omega), Except.ok_bind]
  rfl

theorem writeTag_emit {state : DecodeState}
    (fieldNode : FieldNode bufferPos projecting templates op.nodeId op.subtype node)
    (room : state.Room op.tagData.length) :
    writeTag node state = .ok (state.emit op.tagData) := by
  rw [writeTag, fieldNode.nodeTagBytes, Except.ok_bind, writeDest_emit room]

/-! ## Leaves -/

variable {context : DecodeContext} {ids : List NodeId} {reads : NodeId → Bool} {lengths : Bool}
  {stored counted : List TagOp}

/-- The buffer of a tag is found at its place. -/
def PlacedAt (bufferPos : NodeId → Option Nat) (ids : List NodeId) (op : TagOp) : Prop :=
  op.chunk ≠ [] → op.nodeId ∈ ids ∧ (bufferPos op.nodeId).getD 0 = ids.idxOf op.nodeId

/-- A field with a chunk has a buffer. -/
theorem hasDataBuffer_leaf {field : FieldLeaf} (filled : field.chunk ≠ []) :
    hasDataBuffer (field.number * 8 + field.wireType.toNat) field.subtype = true := by
  unfold hasDataBuffer
  rw [tagWireType_tag]
  cases field with
  | varint number value =>
      have large : ¬ value ≤ maxVarintInline := by
        intro small
        exact filled (if_pos small)
      have short := encodeU64_length_le value
      have positive := encodeU64_length_pos value
      change decide (FieldLeaf.subtype (.varint number value) < Subtype.varintInline0) = true
      rw [FieldLeaf.subtype, if_neg large]
      refine decide_eq_true ?_
      change 0 + ((encodeU64 value).length - 1) < 10
      omega
  | fixed32 number bytes => rfl
  | fixed64 number bytes => rfl
  | string number bytes => rfl

variable {parent pos : Nat} {field : FieldLeaf} {state : DecodeState}

/-- A node reads the chunk of its field. -/
theorem FieldNode.readBuffer {Item : Type} {item : Item}
    {read : BufferCursor → Rust (Item × BufferCursor)} {buffers : List BufferCursor}
    (fieldNode : FieldNode bufferPos projecting templates (TagOp.leaf parent field).nodeId
      field.subtype node)
    (placed : PlacedAt bufferPos ids (.leaf parent field)) (filled : field.chunk ≠ [])
    (wanted : reads (TagOp.leaf parent field).nodeId = true)
    (hold : BuffersHold ids reads lengths (stored ++ [.leaf parent field]) counted buffers)
    (readsChunk : ∀ {cursor : BufferCursor} {rest : Bytes}, cursor.Before (field.chunk ++ rest) →
      read cursor = .ok (item, cursor.skip field.chunk.length)) :
    ∃ index buffers', node.bufferIndex = some index ∧
      Riegeli.readBuffer buffers index read = .ok (item, buffers') ∧
      BuffersHold ids reads lengths stored counted buffers' := by
  obtain ⟨listed, place⟩ := placed filled
  have indexed := fieldNode.bufferIndex
  rw [show hasDataBuffer (TagOp.leaf parent field).nodeId.tag field.subtype = true from
    hasDataBuffer_leaf filled, if_pos rfl, place] at indexed
  obtain ⟨buffers', ran, hold'⟩ := readBuffer_stored hold listed wanted readsChunk
  exact ⟨_, buffers', indexed, ran, hold'⟩

theorem encodeU64_inline {value : Nat} (small : value ≤ maxVarintInline) :
    encodeU64 value = [UInt8.ofNat value] := by
  change value ≤ 3 at small
  change encodeVarintLoop (9 + 1) value = _
  rw [encodeVarintLoop, if_pos (by omega), Nat.mod_eq_of_lt (by omega)]

/-- The tag of an inlined varint is all of the field. -/
theorem tagData_inline {number value : Nat} (small : value ≤ maxVarintInline) :
    (TagOp.leaf parent (.varint number value)).tagData = (FieldLeaf.varint number value).bytes := by
  have subtype : FieldLeaf.subtype (.varint number value) = Subtype.varintInline0 + value :=
    if_pos small
  have inlined : tagWireType (number * 8 + WireType.varint.toNat) = some .varint ∧
      Subtype.varintInline0 ≤ Subtype.varintInline0 + value :=
    ⟨tagWireType_tag number .varint, Nat.le_add_right _ _⟩
  change (tagDataOf (number * 8 + WireType.varint.toNat)
    (FieldLeaf.subtype (.varint number value))).1 = tagBytes number .varint ++ encodeU64 value
  rw [subtype, tagDataOf, if_pos inlined, Nat.add_sub_cancel_left, encodeU64_inline small]
  rfl

/-- The tag of any other field is all that its node holds. -/
theorem tagData_leaf (filled : field.chunk ≠ []) :
    (TagOp.leaf parent field).tagData = tagBytes field.number field.wireType := by
  refine tagDataOf_plain fun varint => ?_
  have data := hasDataBuffer_leaf filled
  rw [varint, hasDataBuffer, tagWireType_tag] at data
  exact of_decide_eq_true data

/-- A field with a chunk is written as its tag and its value. -/
theorem writeDest_leaf (filled : field.chunk ≠ [])
    (tags : Riegeli.nodeTagBytes node = .ok (TagOp.leaf parent field).tagData)
    (room : state.Room field.bytes.length) :
    (do let tagBytes ← nodeTagBytes node
        writeDest state (tagBytes ++ field.value)) = .ok (state.emit field.bytes) := by
  rw [tags, Except.ok_bind, tagData_leaf filled]
  exact writeDest_emit room

/-- A field of fixed width is read as a whole. -/
theorem writeFixedField_leaf {width : Nat} (chunk : field.chunk = field.value)
    (sized : field.value.length = width) (positive : 0 < width)
    (fieldNode : FieldNode bufferPos projecting templates (TagOp.leaf parent field).nodeId
      field.subtype node)
    (placed : PlacedAt bufferPos ids (.leaf parent field))
    (wanted : reads (TagOp.leaf parent field).nodeId = true)
    (hold : BuffersHold ids reads lengths (stored ++ [.leaf parent field]) counted state.buffers)
    (room : state.Room field.bytes.length) :
    ∃ buffers', writeFixedField node width state =
        .ok ({ state with buffers := buffers' }.emit field.bytes) ∧
      BuffersHold ids reads lengths stored counted buffers' := by
  have tags : nodeTagBytes node = .ok (TagOp.leaf parent field).tagData :=
    @FieldNode.nodeTagBytes bufferPos projecting templates node (.leaf parent field) fieldNode
  have filled : field.chunk ≠ [] := by
    rw [chunk]
    exact List.ne_nil_of_length_pos (by omega)
  obtain ⟨index, buffers', indexed, ran, hold'⟩ := fieldNode.readBuffer placed filled wanted
    hold fun before => before.readExact
  rw [chunk, sized] at ran
  refine ⟨buffers', ?_, hold'⟩
  rw [writeFixedField, indexed]
  simp only
  rw [ran, Except.ok_bind]
  exact writeDest_leaf filled tags room

/-- What the decoder does at the tag of a leaf puts the field before what is
written. -/
theorem runCallback_leaf {callback : CallbackType} (canonical : field.Canonical)
    (fieldNode : FieldNode bufferPos projecting templates (TagOp.leaf parent field).nodeId
      field.subtype node)
    (called : callbackForWireType (some field.wireType) field.subtype = .ok callback)
    (placed : PlacedAt bufferPos ids (.leaf parent field))
    (wanted : reads (TagOp.leaf parent field).nodeId = true)
    (hold : BuffersHold ids reads lengths (stored ++ [.leaf parent field]) counted state.buffers)
    (room : state.Room field.bytes.length) :
    ∃ buffers', runCallback context node pos callback state =
        .ok ({ state with buffers := buffers' }.emit field.bytes) ∧
      BuffersHold ids reads lengths stored counted buffers' := by
  have tags : nodeTagBytes node = .ok (TagOp.leaf parent field).tagData :=
    @FieldNode.nodeTagBytes bufferPos projecting templates node (.leaf parent field) fieldNode
  cases field with
  | varint number value =>
      obtain ⟨valid, fits⟩ := canonical
      have positive := encodeU64_length_pos value
      have short := encodeU64_length_le value
      by_cases small : value ≤ maxVarintInline
      · have subtype : FieldLeaf.subtype (.varint number value) = Subtype.varintInline0 + value :=
          if_pos small
        have inlined : callback = .copyTag := by
          rw [subtype] at called
          change (if 137 < 10 + value then _ else if 10 ≤ 10 + value then _ else _) = _ at called
          change value ≤ 3 at small
          rw [if_neg (by omega), if_pos (by omega)] at called
          exact (Except.ok.inj called).symm
        subst inlined
        have empty : (FieldLeaf.varint number value).chunk = [] := if_pos small
        refine ⟨state.buffers, ?_, hold.skip (.inl empty)⟩
        change writeTag node state = _
        rw [writeTag, tags, Except.ok_bind, tagData_inline small]
        exact writeDest_emit room
      · have chunk : (FieldLeaf.varint number value).chunk = (encodeU64 value).map stripped :=
          if_neg small
        have filled : (FieldLeaf.varint number value).chunk ≠ [] := by
          rw [chunk]
          exact List.ne_nil_of_length_pos (by rw [List.length_map]; exact positive)
        have subtype : FieldLeaf.subtype (.varint number value) =
            Subtype.varint1 + ((encodeU64 value).length - 1) := if_neg small
        have stored' : callback = .varint (encodeU64 value).length := by
          rw [subtype] at called
          change (if 137 < 0 + ((encodeU64 value).length - 1) then _
            else if 10 ≤ 0 + ((encodeU64 value).length - 1) then _
            else Except.ok (CallbackType.varint (0 + ((encodeU64 value).length - 1) + 1))) = _
            at called
          rw [if_neg (by omega), if_neg (by omega)] at called
          rw [← Except.ok.inj called]
          congr 1
          omega
        subst stored'
        obtain ⟨index, buffers', indexed, ran, hold'⟩ := fieldNode.readBuffer placed filled wanted
          hold fun before => before.readExact
        rw [chunk, List.length_map] at ran
        refine ⟨buffers', ?_, hold'⟩
        change writeVarintField node (encodeU64 value).length state = _
        rw [writeVarintField, indexed]
        simp only
        rw [ran, Except.ok_bind]
        simp only
        rw [restoreHighBits_stripped fits]
        exact writeDest_leaf filled tags room
  | fixed32 number bytes =>
      cases called
      exact writeFixedField_leaf rfl canonical.2 (by decide) fieldNode placed wanted hold room
  | fixed64 number bytes =>
      cases called
      exact writeFixedField_leaf rfl canonical.2 (by decide) fieldNode placed wanted hold room
  | string number bytes =>
      obtain ⟨valid, fits⟩ := canonical
      cases called
      have filled : encodeU32 bytes.length ++ bytes ≠ [] := by
        refine List.ne_nil_of_length_pos ?_
        rw [List.length_append]
        exact Nat.add_pos_left (encodeU64_length_pos _) _
      obtain ⟨index, buffers', indexed, ran, hold'⟩ := fieldNode.readBuffer placed filled wanted
        hold fun before => before.readString fits
      refine ⟨buffers', ?_, hold'⟩
      change writeStringField node state = _
      rw [writeStringField, indexed]
      simp only
      rw [ran, Except.ok_bind]
      exact @writeDest_leaf node parent (.string number bytes) _ filled tags room

/-! ## Existence -/

theorem tagDataOf_prefix (tag subtype : Nat) : encodeU32 tag <+: (tagDataOf tag subtype).1 := by
  unfold tagDataOf
  simp only
  split
  · exact List.prefix_append _ _
  · exact List.prefix_rfl

theorem zeroValue_length_le (wireType : WireType) : (zeroValue (some wireType)).length ≤ 8 := by
  cases wireType <;> decide

/-- What the decoder does for the existence of a leaf puts its tag and a zero
before what is written. -/
theorem writeExistenceOnlyField_leaf (valid : FieldNumber field.number)
    (fieldNode : FieldNode bufferPos true context.nodeTemplates
      (TagOp.leaf parent field).nodeId field.subtype node)
    (room : state.Room (field.projected .existenceOnly).length) :
    writeExistenceOnlyField context node state =
      .ok (state.emit (field.projected .existenceOnly)) := by
  obtain ⟨_, index, indexed, found⟩ := fieldNode.selects rfl
  have both := fieldNode.tagData
  have data : node.tagData = (tagDataOf (TagOp.leaf parent field).nodeId.tag field.subtype).1 :=
    congrArg Prod.fst both
  have size : node.tagDataSize = node.tagData.length := by
    rw [data]
    exact (congrArg Prod.snd both).trans (tagDataOf_length _ _)
  have known : existenceOnlyTag context node = .ok (some
      (field.number * 8 + field.wireType.toNat, (tagBytes field.number field.wireType).length)) := by
    rw [existenceOnlyTag, indexed]
    simp only
    rw [indexAt_eq_ok.mpr found, Except.ok_bind]
    rfl
  have tag : node.tagData.take (tagBytes field.number field.wireType).length =
      tagBytes field.number field.wireType := by
    obtain ⟨rest, same⟩ := tagDataOf_prefix (TagOp.leaf parent field).nodeId.tag field.subtype
    rw [data, ← same]
    exact List.take_left
  have shortTag : (tagBytes field.number field.wireType).length ≤ 5 :=
    encodeU32_length_le (tag_fits valid field.wireType)
  have shortZero := zeroValue_length_le field.wireType
  rw [writeExistenceOnlyField, known, Except.ok_bind]
  simp only
  rw [size, List.take_length, tag, tagWireType_tag,
    if_neg (by rw [List.length_append]; omega)]
  exact writeDest_emit room

end Riegeli
