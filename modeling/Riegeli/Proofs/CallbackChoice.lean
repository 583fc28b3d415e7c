/-
Module: Riegeli.Proofs.CallbackChoice
Purpose: Which callback a node runs: that of its field when nothing is left
  out, and else the one for the inclusion of the path of the field.
Trusted boundary: none
Main exports: IncludeFieldMap.walk, Includes, Sees, fieldCallback,
  effectiveCallback_field, effectiveCallback_skipped, effectiveCallback_start
-/
import Riegeli.Proofs.LeafReads

namespace Riegeli

/-! ## Paths -/

/-- The walk of the decoder along the field numbers of a path. -/
def IncludeFieldMap.walk (includeMap : IncludeFieldMap) : List Nat → Nat → FieldIncluded × Nat
  | [], parentId => (.existenceOnly, parentId)
  | number :: rest, parentId =>
      match includeMap.get parentId number with
      | none => (.no, parentId)
      | some entry =>
          if entry.includeType = .includeFully then (.yes, parentId)
          else includeMap.walk rest entry.fieldId

/-- The include map says what the paths of fields say. -/
def Includes (includeMap : Option IncludeFieldMap) (included : List Nat → FieldIncluded) : Prop :=
  match includeMap with
  | none => included = fun _ => .yes
  | some includeMap => ∀ path tag,
      fieldIncludedBelow includeMap tag (includeMap.walk path IncludeFieldMap.invalidPos) =
        included (path ++ [tagFieldNumber tag])

/-- The frame is one of the field with this number. -/
def FrameOf (context : DecodeContext) (frame : SubmessageFrame) (number : Nat) : Prop :=
  FieldNumber number ∧ ∃ node wireType, context.nodes[frame.nodeIndex]? = some node ∧
    node.tagData = tagBytes number wireType

/-- In a projected decode the frames, the innermost one first, follow a path. -/
def Sees (context : DecodeContext) (frames : List SubmessageFrame) (path : List Nat) : Prop :=
  context.includeMap.isSome = true → List.Forall₂ (FrameOf context) frames.reverse path

variable {context : DecodeContext} {includeMap : IncludeFieldMap}

theorem Sees.push {frames : List SubmessageFrame} {path : List Nat} {frame : SubmessageFrame}
    {number : Nat} (sees : Sees context frames path) (frameOf : FrameOf context frame number) :
    Sees context (frame :: frames) (path ++ [number]) := by
  intro projecting
  rw [List.reverse_cons]
  exact List.rel_append (sees projecting) (.cons frameOf .nil)

theorem decodeU32_tagBytes {number : Nat} (valid : FieldNumber number) (wireType : WireType) :
    decodeU32 (tagBytes number wireType) =
      .ok (number * 8 + wireType.toNat, (tagBytes number wireType).length) := by
  have decoded := decodeU32_encodeU32 (tag_fits valid wireType) []
  rwa [List.append_nil] at decoded

theorem walkFrames_walk {frames : List SubmessageFrame} {path : List Nat}
    (along : List.Forall₂ (FrameOf context) frames path) :
    ∀ parentId, walkFrames context.nodes includeMap frames parentId =
      .ok (includeMap.walk path parentId) := by
  induction along with
  | nil => exact fun _ => rfl
  | @cons frame number frames path frameOf _ ih =>
      intro parentId
      obtain ⟨valid, node, wireType, found, data⟩ := frameOf
      have filled : node.tagData.isEmpty = false := by
        rw [data, List.isEmpty_eq_false_iff]
        exact List.ne_nil_of_length_pos (encodeU64_length_pos _)
      rw [walkFrames, indexAt_eq_ok.mpr found, Except.ok_bind, filled,
        if_neg Bool.false_ne_true, data, decodeU32_tagBytes valid]
      simp only
      rw [tagFieldNumber_tag, IncludeFieldMap.walk]
      cases includeMap.get parentId number with
      | none => rfl
      | some entry =>
          simp only
          split
          · rfl
          · exact ih entry.fieldId

/-! ## Fields -/

/-- The callback of a field, by its type alone or by its inclusion. -/
def fieldCallback (projecting : Bool) (included : FieldIncluded) (tag subtype : Nat) :
    Rust CallbackType :=
  if projecting then callbackForFieldIncluded included tag subtype
  else callbackForWireType (tagWireType tag) subtype

variable {bufferPos : NodeId → Option Nat} {included : List Nat → FieldIncluded}
  {nodeId : NodeId} {subtype : Nat} {node : StateMachineNode} {state : DecodeState}

theorem callbackForWireType_selects {wireType : Option WireType} {subtype : Nat}
    {callback : CallbackType} (called : callbackForWireType wireType subtype = .ok callback) :
    callback ≠ .selectCallback := by
  rintro rfl
  unfold callbackForWireType at called
  repeat' split at called
  all_goals cases called

/-- The frames around a field: the start of a group finds its own on top. -/
def framesAround (tag : Nat) (frames : List SubmessageFrame) : List SubmessageFrame :=
  if tagWireType tag = some .startGroup then frames.tail else frames

/-- Where nothing is skipped, the path decides on a field. -/
theorem effectiveCallback_field {path : List Nat} (includes : Includes context.includeMap included)
    (label : FieldLabel nodeId.tag subtype)
    (fieldNode : FieldNode bufferPos context.includeMap.isSome context.nodeTemplates nodeId subtype
      node)
    (level : state.skippedSubmessageLevel = 0)
    (sees : Sees context (framesAround nodeId.tag state.submessageStack) path) :
    effectiveCallback context node state =
      fieldCallback context.includeMap.isSome (included (path ++ [tagFieldNumber nodeId.tag]))
        nodeId.tag subtype := by
  cases selected : context.includeMap with
  | none =>
      rw [selected] at fieldNode
      have called := fieldNode.plain rfl
      rw [effectiveCallback, if_neg (callbackForWireType_selects called)]
      exact called.symm
  | some includeMap =>
      rw [selected] at fieldNode includes
      obtain ⟨selects, index, indexed, found⟩ := fieldNode.selects rfl
      have along := sees (by rw [selected]; rfl)
      have walked := @walkFrames_walk context includeMap _ _ along IncludeFieldMap.invalidPos
      have least := label.tag_ge
      have reserved : (fieldTemplate nodeId.tag subtype).tag ≠ MessageId.startOfSubmessage := by
        change nodeId.tag ≠ 2
        omega
      rw [effectiveCallback, if_pos selects, selected]
      simp only
      rw [resolveSelectCallback, indexed]
      simp only
      rw [indexAt_eq_ok.mpr found, Except.ok_bind, if_neg reserved, resolveInclusion, level,
        if_pos rfl]
      change (walkFrames context.nodes includeMap
        (framesAround nodeId.tag state.submessageStack).reverse IncludeFieldMap.invalidPos >>= _)
          >>= _ = _
      rw [walked, Except.ok_bind, Except.ok_bind]
      rw [show fieldIncludedBelow includeMap (fieldTemplate nodeId.tag subtype).tag _ = _ from
        includes path nodeId.tag]
      rfl

/-- Where something is skipped, every field is. -/
theorem effectiveCallback_skipped (selected : context.includeMap = some includeMap)
    (label : FieldLabel nodeId.tag subtype)
    (fieldNode : FieldNode bufferPos context.includeMap.isSome context.nodeTemplates nodeId subtype
      node)
    (level : state.skippedSubmessageLevel ≠ 0) :
    effectiveCallback context node state =
      callbackForFieldIncluded .no nodeId.tag subtype := by
  rw [selected] at fieldNode
  obtain ⟨selects, index, indexed, found⟩ := fieldNode.selects rfl
  have least := label.tag_ge
  have reserved : (fieldTemplate nodeId.tag subtype).tag ≠ MessageId.startOfSubmessage := by
    change nodeId.tag ≠ 2
    omega
  rw [effectiveCallback, if_pos selects, selected]
  simp only
  rw [resolveSelectCallback, indexed]
  simp only
  rw [indexAt_eq_ok.mpr found, Except.ok_bind, if_neg reserved, resolveInclusion, if_neg level,
    Except.ok_bind]
  rfl

/-- The start of a submessage is skipped with the submessage. -/
theorem effectiveCallback_start
    (delimited : tagWireType nodeId.tag = some .lengthDelimited)
    (labelNode : LabelNode bufferPos context.includeMap.isSome context.nodeTemplates nodeId
      Subtype.lengthDelimitedStartOfSubmessage node)
    (level : context.includeMap = none → state.skippedSubmessageLevel ≤ 0) :
    effectiveCallback context node state =
      .ok (if 0 < state.skippedSubmessageLevel then .skippedSubmessageStart
        else .submessageStart) := by
  obtain ⟨plain, selects⟩ := labelNode.startOfSubmessage delimited rfl
  cases selected : context.includeMap with
  | none =>
      rw [selected] at plain
      have callback := plain rfl
      have shallow := level selected
      rw [effectiveCallback, callback, if_neg (by decide), if_neg (by omega)]
  | some includeMap =>
      rw [selected] at selects
      obtain ⟨select, index, indexed, found⟩ := selects rfl
      rw [effectiveCallback, if_pos select, selected]
      simp only
      rw [resolveSelectCallback, indexed]
      simp only
      rw [indexAt_eq_ok.mpr found, Except.ok_bind,
        if_pos (show startTemplate.tag = MessageId.startOfSubmessage from rfl)]
      split <;> rfl

end Riegeli
