/-
Module: Riegeli.Proofs.BuiltNodes
Purpose: The decoder builds the nodes of the states from the header that the
  encoder writes.
Trusted boundary: none
Main exports: SelectsBy, FieldNode, LabelNode, StateNode, Pending,
  buildSingleNode_entry, buildNodesLoop_entries
-/
import Riegeli.Proofs.StateEntries
import Riegeli.Proofs.CursorReads

namespace Riegeli

/-! ## Nodes -/

section nodes

variable (bufferPos : NodeId → Option Nat) (projecting : Bool) (templates : List NodeTemplate)

/-- The node asks for its callback, under this template. -/
def SelectsBy (template : NodeTemplate) (node : StateMachineNode) : Prop :=
  node.callbackType = .selectCallback ∧
    ∃ index, node.nodeTemplateIndex = some index ∧ templates[index]? = some template

/-- The template of a field. -/
def fieldTemplate (tag subtype : Nat) : NodeTemplate :=
  { tag := tag, subtype := subtype, tagLength := (encodeU32 tag).length }

/-- The template of the start of a submessage. -/
def startTemplate : NodeTemplate := { tag := MessageId.startOfSubmessage, subtype := 0, tagLength := 0 }

/-- The node of a field, with its tag and the buffer of its values. -/
structure FieldNode (nodeId : NodeId) (subtype : Nat) (node : StateMachineNode) : Prop where
  tagData : (node.tagData, node.tagDataSize) = tagDataOf nodeId.tag subtype
  bufferIndex : node.bufferIndex =
    if hasDataBuffer nodeId.tag subtype then some ((bufferPos nodeId).getD 0) else none
  plain : projecting = false →
    callbackForWireType (tagWireType nodeId.tag) subtype = .ok node.callbackType
  selects : projecting = true → SelectsBy templates (fieldTemplate nodeId.tag subtype) node

/-- The node of a label, whichever of the kinds of labels it is. -/
structure LabelNode (nodeId : NodeId) (subtype : Nat) (node : StateMachineNode) : Prop where
  startOfMessage : nodeId = TransposeChunkEncoder.startOfMessageNode →
    node.callbackType = .messageStart
  nonProto : nodeId = TransposeChunkEncoder.nonProtoNode → node.callbackType = .nonProto ∧
    node.bufferIndex = some ((bufferPos TransposeChunkEncoder.nonProtoNode).getD 0)
  startOfSubmessage : tagWireType nodeId.tag = some .lengthDelimited →
    subtype = Subtype.lengthDelimitedStartOfSubmessage →
      (projecting = false → node.callbackType = .submessageStart) ∧
      (projecting = true → SelectsBy templates startTemplate node)
  field : FieldLabel nodeId.tag subtype →
    FieldNode bufferPos projecting templates nodeId subtype node

/-- The node of a state with this label, `none` for a NoOp. -/
def StateNode (label : Option (NodeId × Nat)) (node : StateMachineNode) : Prop :=
  match label with
  | none => node.callbackType = .noOp
  | some (nodeId, subtype) => LabelNode bufferPos projecting templates nodeId subtype node

end nodes

variable {bufferPos : NodeId → Option Nat} {projecting : Bool} {templates : List NodeTemplate}

theorem SelectsBy.more {template : NodeTemplate} {node : StateMachineNode}
    (selects : SelectsBy templates template node) (more : List NodeTemplate) :
    SelectsBy (templates ++ more) template node := by
  obtain ⟨selected, index, indexed, found⟩ := selects
  refine ⟨selected, index, indexed, ?_⟩
  rw [List.getElem?_append_left (List.getElem?_eq_some_iff.mp found).1, found]

/-- Later templates leave a node as it is. -/
theorem StateNode.more {label : Option (NodeId × Nat)} {node : StateMachineNode}
    (stateNode : StateNode bufferPos projecting templates label node) (more : List NodeTemplate) :
    StateNode bufferPos projecting (templates ++ more) label node := by
  match label, stateNode with
  | none, noOp => exact noOp
  | some (nodeId, subtype), labelNode =>
      refine ⟨labelNode.startOfMessage, labelNode.nonProto, fun delimited start => ?_, fun label => ?_⟩
      · obtain ⟨plain, selects⟩ := labelNode.startOfSubmessage delimited start
        exact ⟨plain, fun on => (selects on).more more⟩
      · obtain ⟨tagData, bufferIndex, plain, selects⟩ := labelNode.field label
        exact ⟨tagData, bufferIndex, plain, fun on => (selects on).more more⟩

theorem FieldLabel.tag_ge {tag subtype : Nat} (label : FieldLabel tag subtype) : 8 ≤ tag := by
  have valid := label.valid
  unfold isValidProtoTag at valid
  by_contra small
  rw [if_pos (by omega)] at valid
  cases valid

theorem FieldLabel.wireType {tag subtype : Nat} (label : FieldLabel tag subtype) :
    ∃ wireType, tagWireType tag = some wireType := by
  have valid := label.valid
  unfold isValidProtoTag at valid
  split at valid
  · cases valid
  · exact Option.isSome_iff_exists.mp valid

/-! ## One state -/

/-- What is left to read of the header, with these states to come. -/
structure Pending (subtypesBytes : Bytes) (entries : List StateEntry) (tail : Bytes)
    (state : BuildState) : Prop where
  hdr : state.hdr.Before ((entries.filterMap StateEntry.bufferIndex).flatMap encodeU32 ++ tail)
  subtypes : subtypesBytes.drop state.subtypeIdx =
    (entries.filterMap StateEntry.subtype).map UInt8.ofNat

/-- What building the node of a state comes to. -/
structure Builds (bufferPos : NodeId → Option Nat) (projecting : Bool) (subtypesBytes : Bytes)
    (label : Option (NodeId × Nat)) (entry : StateEntry) (rest : List StateEntry) (tail : Bytes)
    (next : Nat) (isImplicit : Bool) (state state' : BuildState) (node : StateMachineNode) :
    Prop where
  leads : (node.isImplicit, node.nextNodeIndex) = (isImplicit, next)
  stateNode : StateNode bufferPos projecting state'.nodeTemplates label node
  templates : ∃ more, state'.nodeTemplates = state.nodeTemplates ++ more
  nonProto : state'.hasNonprotoOp = (state.hasNonprotoOp || decide (entry.tag = MessageId.nonProto))
  pending : Pending subtypesBytes rest tail state'

variable {subtypesBytes tail : Bytes} {numBuffers next stateIndex : Nat} {isImplicit : Bool}
  {rest : List StateEntry} {state : BuildState}

/-- The header tag of the end of a submessage has a wire type that no tag has, and
any other is the tag itself. -/
theorem headerTag_cases (tag subtype : Nat) :
    (headerTag tag subtype = tag + 4 ∧ tagWireType tag = some .lengthDelimited ∧
        (tag + 4) % 8 = submessageWireType) ∨
      headerTag tag subtype = tag := by
  unfold headerTag
  split
  · rename_i ending
    have whole := tag_eq ending.1
    change tag = tagFieldNumber tag * 8 + 2 at whole
    refine .inl ⟨?_, ending.1, ?_⟩
    · change tag + 6 - 2 = tag + 4
      omega
    · change (tag + 4) % 8 = 6
      omega
  · exact .inr rfl

/-- The tag and the structural subtype that the decoder makes of a header tag. -/
theorem headerTag_reads {tag subtype : Nat} (label : FieldLabel tag subtype) :
    (if headerTag tag subtype % 8 = submessageWireType then
      (unmapSubmessage (headerTag tag subtype), Subtype.lengthDelimitedEndOfSubmessage)
    else (headerTag tag subtype, Subtype.trivial)) =
      (tag, if hasSubtype tag then Subtype.trivial else subtype) := by
  obtain ⟨wireType, typed⟩ := label.wireType
  have whole := tag_eq typed
  by_cases ending : tagWireType tag = some .lengthDelimited ∧
      subtype = Subtype.lengthDelimitedEndOfSubmessage
  · obtain ⟨delimited, rfl⟩ := ending
    obtain rfl : wireType = .lengthDelimited := Option.some.inj (typed.symm.trans delimited)
    have mapped : headerTag tag Subtype.lengthDelimitedEndOfSubmessage = tag + 4 := by
      rw [headerTag, if_pos ⟨delimited, rfl⟩]
      change tag + 6 - 2 = tag + 4
      omega
    have low : (tag + 4) % 8 = submessageWireType := by
      change tag = tagFieldNumber tag * 8 + 2 at whole
      change (tag + 4) % 8 = 6
      omega
    have back : unmapSubmessage (tag + 4) = tag := by
      change tag + 4 - 6 + 2 = tag
      change tag = tagFieldNumber tag * 8 + 2 at whole
      omega
    rw [mapped, if_pos low, back, hasSubtype, delimited]
    rfl
  · have high : tag % 8 ≠ submessageWireType := by
      change tag % 8 ≠ 6
      cases wireType <;> simp only [WireType.toNat] at whole <;> omega
    rw [headerTag, if_neg ending, if_neg high]
    cases wireType with
    | varint =>
        rw [hasSubtype, typed]
        rfl
    | lengthDelimited =>
        have string := (label.delimited typed).resolve_right fun end' => ending ⟨typed, end'⟩
        rw [hasSubtype, typed, string]
        rfl
    | fixed32 | fixed64 | startGroup | endGroup =>
        have plain : subtype = Subtype.trivial := label.trivial
          (by rw [typed]; decide)
          (by rw [typed]; decide)
        rw [hasSubtype, typed, plain]
        rfl

/-- The subtype byte of a state is read when it has one. -/
theorem readSubtype_pending {tag subtype base : Nat} {bufferIndex : Option Nat}
    (label : FieldLabel tag subtype)
    (pending : Pending subtypesBytes
      ({ tag := headerTag tag subtype
         base := base
         subtype := if hasSubtype tag then some subtype else none
         bufferIndex := bufferIndex } :: rest) tail state) :
    ∃ subtypeIdx, readSubtype subtypesBytes tag
        (if hasSubtype tag then Subtype.trivial else subtype) state.subtypeIdx =
          .ok (subtype, subtypeIdx) ∧
      subtypesBytes.drop subtypeIdx = (rest.filterMap StateEntry.subtype).map UInt8.ofNat := by
  have later := pending.subtypes
  unfold readSubtype
  cases typed : hasSubtype tag with
  | false =>
      rw [typed] at later
      exact ⟨_, rfl, later⟩
  | true =>
      rw [typed] at later
      have here : subtypesBytes[state.subtypeIdx]? = some (UInt8.ofNat subtype) := by
        rw [← List.head?_drop, later]
        rfl
      have small := label.varint (beq_iff_eq.mp typed)
      have byte : (UInt8.ofNat subtype).toNat = subtype := by
        change subtype ≤ 137 at small
        rw [UInt8.toNat_ofNat']
        omega
      refine ⟨state.subtypeIdx + 1, ?_, ?_⟩
      · rw [if_pos rfl, indexAt_eq_ok.mpr here, Except.ok_bind, byte]
      · rw [← List.drop_drop, later]
        rfl

/-- The buffer index of a state is read when it has one. -/
theorem readBufferIndex_pending {tag subtype header base index : Nat} {subtypeByte : Option Nat}
    (inside : hasDataBuffer tag subtype = true → index < numBuffers) (few : numBuffers ≤ u32Max)
    (pending : Pending subtypesBytes
      ({ tag := header
         base := base
         subtype := subtypeByte
         bufferIndex := if hasDataBuffer tag subtype then some index else none } :: rest)
      tail state) :
    ∃ hdr : BufferCursor, readBufferIndex state.hdr numBuffers tag subtype =
        .ok (if hasDataBuffer tag subtype then some index else none, hdr) ∧
      hdr.Before ((rest.filterMap StateEntry.bufferIndex).flatMap encodeU32 ++ tail) := by
  have before := pending.hdr
  unfold readBufferIndex
  cases stored : hasDataBuffer tag subtype with
  | false =>
      rw [stored] at before
      exact ⟨_, rfl, before⟩
  | true =>
      have small := inside stored
      rw [stored] at before
      change state.hdr.Before (encodeU32 index ++
        (rest.filterMap StateEntry.bufferIndex).flatMap encodeU32 ++ tail) at before
      rw [List.append_assoc] at before
      refine ⟨_, ?_, before.skip⟩
      rw [if_pos rfl, before.readVarint32 (by omega), Except.ok_bind]
      simp only
      rw [if_neg (by omega)]
      rfl

/-- Every field has a callback. -/
theorem FieldLabel.callback {tag subtype : Nat} (label : FieldLabel tag subtype) :
    ∃ callback, callbackForWireType (tagWireType tag) subtype = .ok callback := by
  obtain ⟨wireType, typed⟩ := label.wireType
  rw [typed]
  cases wireType with
  | varint =>
      have small := label.varint typed
      unfold callbackForWireType
      simp only
      rw [if_neg (by omega)]
      split
      · exact ⟨_, rfl⟩
      · exact ⟨_, rfl⟩
  | lengthDelimited =>
      rcases label.delimited typed with rfl | rfl
      · exact ⟨_, rfl⟩
      · exact ⟨_, rfl⟩
  | fixed32 | fixed64 | startGroup | endGroup => exact ⟨_, rfl⟩

theorem buildProtoTagNode_entry {parent tag subtype base : Nat} (label : FieldLabel tag subtype)
    (few : numBuffers ≤ u32Max)
    (inside : hasDataBuffer tag subtype = true →
      (bufferPos { parentMessageId := parent, tag := tag }).getD 0 < numBuffers)
    (pending : Pending subtypesBytes
      ({ tag := headerTag tag subtype
         base := base
         subtype := if hasSubtype tag then some subtype else none
         bufferIndex := if hasDataBuffer tag subtype then
             some ((bufferPos { parentMessageId := parent, tag := tag }).getD 0)
           else none } :: rest) tail state) :
    ∃ node state', buildProtoTagNode (headerTag tag subtype) next isImplicit stateIndex numBuffers
        subtypesBytes projecting state = .ok (node, state') ∧
      (node.isImplicit, node.nextNodeIndex) = (isImplicit, next) ∧
      FieldNode bufferPos projecting state'.nodeTemplates
        { parentMessageId := parent, tag := tag } subtype node ∧
      (∃ more, state'.nodeTemplates = state.nodeTemplates ++ more) ∧
      state'.hasNonprotoOp = state.hasNonprotoOp ∧ Pending subtypesBytes rest tail state' := by
  obtain ⟨subtypeIdx, subtypeRan, subtypes⟩ := readSubtype_pending label pending
  obtain ⟨hdr, bufferRan, before⟩ := readBufferIndex_pending inside few pending
  unfold buildProtoTagNode
  rw [headerTag_reads label]
  simp only
  rw [if_neg (by rw [label.valid]; exact fun never => nomatch never), subtypeRan, Except.ok_bind]
  simp only
  rw [bufferRan, Except.ok_bind]
  simp only
  cases projecting with
  | true =>
      refine ⟨_, _, rfl, rfl, ⟨rfl, rfl, (nomatch ·), fun _ => ⟨rfl, _, rfl, ?_⟩⟩,
        ⟨_, rfl⟩, rfl, before, subtypes⟩
      exact List.getElem?_concat_length
  | false =>
      obtain ⟨callback, called⟩ := label.callback
      rw [if_neg Bool.false_ne_true, called, Except.ok_bind]
      exact ⟨_, _, rfl, rfl, ⟨rfl, rfl, fun _ => called, (nomatch ·)⟩,
        ⟨[], (List.append_nil _).symm⟩, rfl, before, subtypes⟩

/-- A header tag of a field is none of the reserved ones. -/
theorem headerTag_ge {tag subtype : Nat} (label : FieldLabel tag subtype) :
    8 ≤ headerTag tag subtype := by
  have least := label.tag_ge
  unfold headerTag
  split
  · change 8 ≤ tag + 6 - 2
    omega
  · exact least

/-- The node of a label that names no field. -/
theorem labelNode_apart {nodeId : NodeId} {subtype : Nat} {node : StateMachineNode}
    (small : nodeId.tag < 8) (startOfMessage : nodeId = TransposeChunkEncoder.startOfMessageNode →
      node.callbackType = .messageStart)
    (nonProto : nodeId = TransposeChunkEncoder.nonProtoNode → node.callbackType = .nonProto ∧
      node.bufferIndex = some ((bufferPos TransposeChunkEncoder.nonProtoNode).getD 0))
    (plain : subtype = Subtype.trivial) :
    LabelNode bufferPos projecting templates nodeId subtype node where
  startOfMessage := startOfMessage
  nonProto := nonProto
  startOfSubmessage := fun _ start => by
    rw [plain] at start
    cases start
  field := fun label => by
    have least := label.tag_ge
    omega

/-- Building the node of a state reads what its entry put into the header. -/
theorem buildSingleNode_entry {label : Option (NodeId × Nat)} {entry : StateEntry}
    (entryFor : EntryFor bufferPos label entry) (few : numBuffers ≤ u32Max)
    (inside : ∀ index, entry.bufferIndex = some index → index < numBuffers)
    (pending : Pending subtypesBytes (entry :: rest) tail state) :
    ∃ node state', buildSingleNode entry.tag next isImplicit stateIndex numBuffers subtypesBytes
        projecting state = .ok (node, state') ∧
      Builds bufferPos projecting subtypesBytes label entry rest tail next isImplicit state state'
        node := by
  cases entryFor with
  | noOp base =>
      exact ⟨_, _, rfl, rfl, rfl, ⟨[], (List.append_nil _).symm⟩, (Bool.or_false _).symm,
        pending.hdr, pending.subtypes⟩
  | startOfMessage base =>
      refine ⟨_, _, rfl, rfl, labelNode_apart (by decide) (fun _ => rfl) (fun same => nomatch same)
        rfl, ⟨[], (List.append_nil _).symm⟩, (Bool.or_false _).symm, pending.hdr,
        pending.subtypes⟩
  | nonProto base =>
      have small := inside _ rfl
      have before : state.hdr.Before
          (encodeU32 ((bufferPos TransposeChunkEncoder.nonProtoNode).getD 0) ++
            (rest.filterMap StateEntry.bufferIndex).flatMap encodeU32 ++ tail) := pending.hdr
      rw [List.append_assoc] at before
      unfold buildSingleNode
      rw [if_neg (show ¬ MessageId.nonProto = MessageId.noOp by decide), if_pos rfl, before.readVarint32 (by omega), Except.ok_bind]
      simp only
      rw [if_neg (by omega)]
      exact ⟨_, _, rfl, rfl, labelNode_apart (by decide) (fun same => nomatch same)
        (fun _ => ⟨rfl, rfl⟩) rfl, ⟨[], (List.append_nil _).symm⟩, (Bool.or_true _).symm,
        before.skip, pending.subtypes⟩
  | @startOfSubmessage parent number base valid =>
      have tagged : 8 ≤ number * 8 + WireType.lengthDelimited.toNat := by
        have positive := valid.1
        omega
      have apart {nodeId : NodeId} (small : nodeId.tag < 8)
          (same : ({ parentMessageId := parent, tag := number * 8 + WireType.lengthDelimited.toNat }
            : NodeId) = nodeId) : False := by
        rw [← same] at small
        exact Nat.lt_irrefl _ (Nat.lt_of_lt_of_le small tagged)
      have noField : ¬ FieldLabel (number * 8 + WireType.lengthDelimited.toNat)
          Subtype.lengthDelimitedStartOfSubmessage := by
        intro label
        rcases label.delimited (tagWireType_tag number .lengthDelimited) with never | never
        · cases never
        · cases never
      cases projecting with
      | true =>
          refine ⟨_, _, rfl, rfl, ⟨fun same => (apart (by decide) same).elim,
            fun same => (apart (by decide) same).elim,
            fun _ _ => ⟨(nomatch ·), fun _ => ⟨rfl, _, rfl, ?_⟩⟩,
            fun label => absurd label noField⟩, ⟨_, rfl⟩, (Bool.or_false _).symm, pending.hdr,
            pending.subtypes⟩
          exact List.getElem?_concat_length
      | false =>
          exact ⟨_, _, rfl, rfl, ⟨fun same => (apart (by decide) same).elim,
            fun same => (apart (by decide) same).elim,
            fun _ _ => ⟨fun _ => rfl, fun never => nomatch never⟩,
            fun label => absurd label noField⟩, ⟨[], (List.append_nil _).symm⟩,
            (Bool.or_false _).symm, pending.hdr, pending.subtypes⟩
  | @field parent tag subtype base label =>
      have least := headerTag_ge label
      have own := label.tag_ge
      obtain ⟨node, state', ran, leads, fieldNode, templates, nonProto, pending'⟩ :=
        @buildProtoTagNode_entry bufferPos projecting subtypesBytes tail numBuffers next stateIndex
          isImplicit rest state parent tag subtype base label few
          (fun stored => inside _ (if_pos stored)) pending
      have reserved {id : Nat} (small : id < 8) : headerTag tag subtype ≠ id := by omega
      refine ⟨node, state', ?_, leads, ⟨fun same => ?_, fun same => ?_, fun delimited start => ?_,
        fun _ => fieldNode⟩, templates, ?_, pending'⟩
      · unfold buildSingleNode
        rw [if_neg (reserved (by decide)), if_neg (reserved (by decide)),
          if_neg (reserved (by decide)), if_neg (reserved (by decide)), ran]
      · cases same
        exact absurd own (by decide)
      · cases same
        exact absurd own (by decide)
      · rw [start] at label
        rcases label.delimited delimited with never | never
        · cases never
        · cases never
      · rw [nonProto, decide_eq_false (reserved (by decide)), Bool.or_false]

/-! ## All states -/

/-- The loop over the states builds the node of each. -/
theorem buildNodesLoop_entries {parsed : ParsedHeader} (few : parsed.numBuffers ≤ u32Max)
    {labels : List (Option (NodeId × Nat))} {entries : List StateEntry}
    (entriesFor : List.Forall₂ (EntryFor bufferPos) labels entries) :
    ∀ {index : Nat} {state : BuildState},
      parsed.tags.drop index = entries.map StateEntry.tag →
      parsed.nextNodeIndices.drop index = entries.map StateEntry.base →
      (∀ entry ∈ entries, ∃ isImplicit next,
        splitNextNode entry.base parsed.numStates = .ok (isImplicit, next)) →
      (∀ entry ∈ entries, ∀ place, entry.bufferIndex = some place → place < parsed.numBuffers) →
      Pending parsed.subtypesBytes entries tail state →
      ∃ nodes state', buildNodesLoop parsed projecting entries.length index state =
          .ok (nodes, state') ∧
        List.Forall₂ (fun entry node => splitNextNode entry.base parsed.numStates =
          .ok (node.isImplicit, node.nextNodeIndex)) entries nodes ∧
        List.Forall₂ (StateNode bufferPos projecting state'.nodeTemplates) labels nodes ∧
        (∃ more, state'.nodeTemplates = state.nodeTemplates ++ more) ∧
        state'.hasNonprotoOp = (state.hasNonprotoOp ||
          entries.any fun entry => decide (entry.tag = MessageId.nonProto)) ∧
        Pending parsed.subtypesBytes [] tail state' := by
  induction entriesFor with
  | nil =>
      intro index state _ _ _ _ pending
      exact ⟨[], state, rfl, .nil, .nil, ⟨[], (List.append_nil _).symm⟩, (Bool.or_false _).symm,
        pending⟩
  | @cons label entry labels rest entryFor _ ih =>
      intro index state tags nexts splits inside pending
      obtain ⟨⟨isImplicit, next, split⟩, splits⟩ := List.forall_mem_cons.mp splits
      obtain ⟨insideHere, inside⟩ := List.forall_mem_cons.mp inside
      have tagHere : parsed.tags[index]? = some entry.tag := by
        rw [← List.head?_drop, tags]
        rfl
      have nextHere : parsed.nextNodeIndices[index]? = some entry.base := by
        rw [← List.head?_drop, nexts]
        rfl
      obtain ⟨node, between, built, builds⟩ :=
        @buildSingleNode_entry bufferPos projecting parsed.subtypesBytes tail parsed.numBuffers next
          index isImplicit rest state label entry entryFor few insideHere pending
      obtain ⟨nodes, state', loop, leads, stateNodes, ⟨more, templates⟩, nonProto, pending⟩ :=
        @ih (index + 1) between (by rw [← List.drop_drop, tags]; rfl)
          (by rw [← List.drop_drop, nexts]; rfl) splits inside builds.pending
      obtain ⟨before, templatesHere⟩ := builds.templates
      refine ⟨node :: nodes, state', ?_, .cons ?_ leads, .cons ?_ stateNodes, ⟨before ++ more, ?_⟩, ?_,
        pending⟩
      · rw [List.length_cons, buildNodesLoop, indexAt_eq_ok.mpr tagHere, Except.ok_bind,
          indexAt_eq_ok.mpr nextHere, Except.ok_bind, split, Except.ok_bind]
        simp only
        rw [built, Except.ok_bind]
        simp only
        rw [loop, Except.ok_bind]
      · rw [split, builds.leads]
      · rw [templates]
        exact builds.stateNode.more more
      · rw [templates, templatesHere, List.append_assoc]
      · rw [nonProto, builds.nonProto, List.any_cons, Bool.or_assoc]

end Riegeli
