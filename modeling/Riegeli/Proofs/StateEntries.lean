/-
Module: Riegeli.Proofs.StateEntries
Purpose: What the header says of a state: the entry of its tag, and that no
  entry is mistaken for another.
Trusted boundary: none
Main exports: FieldLabel, Labelled, TagOp.labelled, EntryFor,
  stateEntries_entryFor
-/
import Riegeli.Proofs.MachineLabels
import Riegeli.Proofs.FieldCopies
import Riegeli.Spec.FieldTrees
import Riegeli.Core.TransposeChunk
import Riegeli.Library.Related

namespace Riegeli

/-! ## Labels -/

/-- The tag of a field and a subtype that the encoder gives it. -/
structure FieldLabel (tag subtype : Nat) : Prop where
  valid : isValidProtoTag tag = true
  small : tag ≤ u32Max
  varint : tagWireType tag = some .varint → subtype ≤ Subtype.varintInlineMax
  delimited : tagWireType tag = some .lengthDelimited →
    subtype = Subtype.lengthDelimitedString ∨ subtype = Subtype.lengthDelimitedEndOfSubmessage
  trivial : tagWireType tag ≠ some .varint → tagWireType tag ≠ some .lengthDelimited →
    subtype = Subtype.trivial

/-- The nodes and subtypes that the encoder stores. -/
inductive Labelled : NodeId → Nat → Prop where
  | startOfMessage : Labelled TransposeChunkEncoder.startOfMessageNode Subtype.trivial
  | nonProto : Labelled TransposeChunkEncoder.nonProtoNode Subtype.trivial
  | startOfSubmessage {parent number : Nat} : FieldNumber number →
      Labelled { parentMessageId := parent, tag := number * 8 + WireType.lengthDelimited.toNat }
        Subtype.lengthDelimitedStartOfSubmessage
  | field {parent tag subtype : Nat} : FieldLabel tag subtype →
      Labelled { parentMessageId := parent, tag := tag } subtype

theorem isValidProtoTag_tag {number : Nat} (valid : FieldNumber number) (wireType : WireType) :
    isValidProtoTag (number * 8 + wireType.toNat) = true := by
  have positive := valid.1
  unfold isValidProtoTag
  rw [if_neg (by omega), tagWireType_tag]
  rfl

theorem fieldLabel_tag {number subtype : Nat} {wireType : WireType} (valid : FieldNumber number)
    (varint : wireType = .varint → subtype ≤ Subtype.varintInlineMax)
    (delimited : wireType = .lengthDelimited → subtype = Subtype.lengthDelimitedString ∨
      subtype = Subtype.lengthDelimitedEndOfSubmessage)
    (trivial : wireType ≠ .varint → wireType ≠ .lengthDelimited → subtype = Subtype.trivial) :
    FieldLabel (number * 8 + wireType.toNat) subtype where
  valid := isValidProtoTag_tag valid wireType
  small := tag_fits valid wireType
  varint := fun same => varint (Option.some.inj ((tagWireType_tag _ _).symm.trans same))
  delimited := fun same => delimited (Option.some.inj ((tagWireType_tag _ _).symm.trans same))
  trivial := fun other apart =>
    trivial (fun same => other (by rw [tagWireType_tag, same]))
      (fun same => apart (by rw [tagWireType_tag, same]))

/-- The subtype of a varint is its length or a small value. -/
theorem FieldLeaf.subtype_varint_le (number value : Nat) :
    (FieldLeaf.varint number value).subtype ≤ Subtype.varintInlineMax := by
  have short := encodeU64_length_le value
  rw [FieldLeaf.subtype]
  by_cases small : value ≤ maxVarintInline
  · rw [if_pos small]
    change value ≤ 3 at small
    change 10 + value ≤ 137
    omega
  · rw [if_neg small]
    change 0 + ((encodeU64 value).length - 1) ≤ 137
    omega

theorem FieldLeaf.labelled {field : FieldLeaf} (canonical : field.Canonical) :
    FieldLabel (field.number * 8 + field.wireType.toNat) field.subtype := by
  cases field with
  | varint number value =>
      exact fieldLabel_tag canonical.1 (fun _ => FieldLeaf.subtype_varint_le number value)
        (fun never => nomatch never) (fun other => absurd rfl other)
  | fixed32 number bytes =>
      exact fieldLabel_tag canonical.1 (fun never => nomatch never) (fun never => nomatch never)
        (fun _ _ => rfl)
  | fixed64 number bytes =>
      exact fieldLabel_tag canonical.1 (fun never => nomatch never) (fun never => nomatch never)
        (fun _ _ => rfl)
  | string number bytes =>
      exact fieldLabel_tag canonical.1 (fun never => nomatch never) (fun _ => .inl rfl)
        (fun _ other => absurd rfl other)

theorem label_end {number : Nat} (valid : FieldNumber number) :
    FieldLabel (number * 8 + WireType.lengthDelimited.toNat)
      Subtype.lengthDelimitedEndOfSubmessage :=
  fieldLabel_tag valid (fun never => nomatch never) (fun _ => .inr rfl)
    (fun _ other => absurd rfl other)

theorem label_group {number : Nat} {wireType : WireType} (valid : FieldNumber number)
    (other : wireType ≠ .varint) (apart : wireType ≠ .lengthDelimited) :
    FieldLabel (number * 8 + wireType.toNat) Subtype.trivial :=
  fieldLabel_tag valid (fun same => absurd same other) (fun same => absurd same apart)
    (fun _ _ => rfl)

/-- The label of every tag that the encoder stores. -/
theorem TagOp.labelled {op : TagOp} (canonical : op.Canonical) : Labelled op.nodeId op.subtype := by
  cases op with
  | startOfMessage => exact .startOfMessage
  | nonProto record => exact .nonProto
  | leaf parent field => exact .field (FieldLeaf.labelled canonical)
  | startOfSubmessage parent number => exact .startOfSubmessage canonical
  | endOfSubmessage parent number => exact .field (label_end canonical)
  | startGroup parent number => exact .field (label_group canonical (by decide) (by decide))
  | endGroup parent number => exact .field (label_group canonical (by decide) (by decide))

/-! ## Entries -/

/-- The tag in the header, where the end of a submessage has a wire type of its
own. -/
def headerTag (tag subtype : Nat) : Nat :=
  if tagWireType tag = some .lengthDelimited ∧ subtype = Subtype.lengthDelimitedEndOfSubmessage then
    tag + submessageWireType - WireType.lengthDelimited.toNat
  else tag

variable (bufferPos : NodeId → Option Nat)

/-- The entry of a state with this label, `none` for a NoOp. -/
inductive EntryFor : Option (NodeId × Nat) → StateEntry → Prop where
  | noOp (base : Nat) :
      EntryFor none
        { tag := MessageId.noOp, base := base, subtype := none, bufferIndex := none }
  | startOfMessage (base : Nat) :
      EntryFor (some (TransposeChunkEncoder.startOfMessageNode, Subtype.trivial))
        { tag := MessageId.startOfMessage, base := base, subtype := none, bufferIndex := none }
  | nonProto (base : Nat) :
      EntryFor (some (TransposeChunkEncoder.nonProtoNode, Subtype.trivial))
        { tag := MessageId.nonProto
          base := base
          subtype := none
          bufferIndex := some ((bufferPos TransposeChunkEncoder.nonProtoNode).getD 0) }
  | startOfSubmessage {parent number : Nat} (base : Nat) : FieldNumber number →
      EntryFor
        (some ({ parentMessageId := parent, tag := number * 8 + WireType.lengthDelimited.toNat },
          Subtype.lengthDelimitedStartOfSubmessage))
        { tag := MessageId.startOfSubmessage, base := base, subtype := none, bufferIndex := none }
  | field {parent tag subtype : Nat} (base : Nat) : FieldLabel tag subtype →
      EntryFor (some ({ parentMessageId := parent, tag := tag }, subtype))
        { tag := headerTag tag subtype
          base := base
          subtype := if hasSubtype tag then some subtype else none
          bufferIndex :=
            if hasDataBuffer tag subtype then
              some ((bufferPos { parentMessageId := parent, tag := tag }).getD 0)
            else none }

/-- The label of a state. -/
def labelAt (tags : List EncodedTagInfo) (state : StateInfo) : Option (NodeId × Nat) :=
  if state.etagIndex = invalidPos then none else tags[state.etagIndex]?.map EncodedTagInfo.label

variable {bufferPos}

theorem stateEntry_entryFor {tags : List EncodedTagInfo} {numStates : Nat} {state : StateInfo}
    {entry : StateEntry}
    (labelled : ∀ info ∈ tags, Labelled info.nodeId info.subtype)
    (ran : stateEntry tags bufferPos numStates state = .ok entry) :
    EntryFor bufferPos (labelAt tags state) entry := by
  unfold stateEntry at ran
  unfold labelAt
  by_cases isNoop : state.etagIndex = invalidPos
  · rw [if_pos isNoop] at ran ⊢
    cases ran
    exact .noOp _
  · rw [if_neg isNoop] at ran ⊢
    obtain ⟨info, found, ran⟩ := Except.bind_eq_ok.mp ran
    rw [indexAt_eq_ok] at found
    rw [found, Option.map_some]
    have own := labelled info (List.mem_of_getElem? found)
    obtain ⟨nodeId, subtype, destInfo, numIncoming, pos, noopPos, base⟩ := info
    simp only at ran own
    change EntryFor bufferPos (some (nodeId, subtype)) entry
    cases own with
    | startOfMessage =>
        cases ran
        exact .startOfMessage _
    | nonProto =>
        cases ran
        exact .nonProto _
    | @startOfSubmessage parent number valid =>
        have tagged : number * 8 + WireType.lengthDelimited.toNat ≠ 0 := by
          change number * 8 + 2 ≠ 0
          omega
        simp only at ran
        rw [if_pos tagged, if_pos ⟨tagWireType_tag number .lengthDelimited, trivial⟩] at ran
        cases ran
        exact .startOfSubmessage _ valid
    | @field parent tag subtype label =>
        have tagged : tag ≠ 0 := by
          rintro rfl
          cases label.valid
        have apart : ¬ (tagWireType tag = some .lengthDelimited ∧
            subtype = Subtype.lengthDelimitedStartOfSubmessage) := by
          rintro ⟨delimited, start⟩
          rw [start] at label
          rcases label.delimited delimited with never | never <;> cases never
        simp only at ran
        rw [if_pos tagged, if_neg apart] at ran
        by_cases ending : tagWireType tag = some .lengthDelimited ∧
            subtype = Subtype.lengthDelimitedEndOfSubmessage
        · rw [if_pos ending] at ran
          cases ran
          have entry := @EntryFor.field bufferPos parent tag subtype
            (if base ≠ invalidPos then base + (if destInfo.length = 1 then numStates else 0) else 0)
            label
          rw [headerTag, if_pos ending, hasSubtype, hasDataBuffer, ending.1] at entry
          obtain ⟨_, rfl⟩ := ending
          exact entry
        · rw [if_neg ending] at ran
          cases ran
          have entry := @EntryFor.field bufferPos parent tag subtype
            (if base ≠ invalidPos then base + (if destInfo.length = 1 then numStates else 0) else 0)
            label
          rwa [headerTag, if_neg ending] at entry

/-- Every entry of the header is that of its state. -/
theorem stateEntries_entryFor {tags : List EncodedTagInfo} {numStates : Nat}
    (labelled : ∀ info ∈ tags, Labelled info.nodeId info.subtype) (states : List StateInfo) :
    ∀ {entries : List StateEntry}, stateEntries tags bufferPos numStates states = .ok entries →
      List.Forall₂ (fun state entry => EntryFor bufferPos (labelAt tags state) entry) states
        entries := by
  induction states with
  | nil =>
      intro entries ran
      cases ran
      exact .nil
  | cons state rest ih =>
      intro entries ran
      obtain ⟨entry, first, ran⟩ := Except.bind_eq_ok.mp ran
      obtain ⟨later, others, ran⟩ := Except.bind_eq_ok.mp ran
      cases ran
      exact .cons (stateEntry_entryFor labelled first) (ih others)

end Riegeli
