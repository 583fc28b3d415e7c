/-
Module: Riegeli.Proofs.FieldReplay
Purpose: Replaying the tags of a message, last one first, writes what the
  projection leaves of it before what is written.
Trusted boundary: none
Main exports: replay_hidden, replay_fields
-/
import Riegeli.Proofs.CallbackChoice
import Riegeli.Proofs.SimpleRoundTrip

namespace Riegeli

variable {context : DecodeContext} {bufferPos : NodeId → Option Nat} {ids : List NodeId}
  {reads : NodeId → Bool} {lengths : Bool} {included : List Nat → FieldIncluded}
  {stored counted : List TagOp}

/-! ## Single nodes -/

theorem runPath_single {pos : Nat} {node : StateMachineNode} {callback : CallbackType}
    {state : DecodeState} (found : context.nodes[pos]? = some node)
    (called : effectiveCallback context node state = .ok callback) :
    runPath context [pos] state = runCallback context node pos callback state := by
  rw [runPath, indexAt_eq_ok.mpr found, Except.ok_bind, executeNodeAction, called, Except.ok_bind]
  cases runCallback context node pos callback state <;> rfl

@[simp] theorem DecodeState.emit_nil (state : DecodeState) : state.emit [] = state := by
  rw [DecodeState.emit, List.reverse_nil, List.append_nil]

@[simp] theorem DecodeState.emit_emit (state : DecodeState) (first second : Bytes) :
    (state.emit first).emit second = state.emit (second ++ first) := by
  simp only [DecodeState.emit, List.reverse_append, List.append_assoc]

@[simp] theorem DecodeState.emit_buffers (state : DecodeState) (bytes : Bytes) :
    (state.emit bytes).buffers = state.buffers := rfl

@[simp] theorem DecodeState.emit_submessageStack (state : DecodeState) (bytes : Bytes) :
    (state.emit bytes).submessageStack = state.submessageStack := rfl

@[simp] theorem DecodeState.emit_skippedSubmessageLevel (state : DecodeState) (bytes : Bytes) :
    (state.emit bytes).skippedSubmessageLevel = state.skippedSubmessageLevel := rfl

theorem DecodeState.Room.emit {state : DecodeState} {first : Bytes} {total count : Nat}
    (room : state.Room total) (fits : first.length + count ≤ total) :
    (state.emit first).Room count := by
  unfold DecodeState.Room at room ⊢
  change (state.dest.data ++ first.reverse).length + count ≤ state.dest.limit
  rw [List.length_append, List.length_reverse]
  omega

theorem DecodeState.Room.mono {state : DecodeState} {total count : Nat} (room : state.Room total)
    (fits : count ≤ total) : state.Room count := by
  unfold DecodeState.Room at room ⊢
  omega

/-- The positions for tags split where one of the tags stands: those after it are
visited first. -/
theorem nodeAt_split {positions : List Nat} {op : TagOp} {before after : List TagOp}
    (nodes : List.Forall₂ (NodeAt context bufferPos) positions (before ++ op :: after).reverse) :
    ∃ first pos second, positions = first ++ ([pos] ++ second) ∧
      List.Forall₂ (NodeAt context bufferPos) first after.reverse ∧
      NodeAt context bufferPos pos op ∧
      List.Forall₂ (NodeAt context bufferPos) second before.reverse := by
  rw [List.reverse_append, List.reverse_cons, List.append_assoc] at nodes
  obtain ⟨first, pos, second, same, along, here, later⟩ := forall₂_append_cons nodes
  exact ⟨first, pos, second, same, along, here, later⟩

/-! ## What is left out -/

theorem leftOut_leaf (field : FieldLeaf) :
    callbackForFieldIncluded .no (field.number * 8 + field.wireType.toNat) field.subtype =
      .ok .noOp := by
  unfold callbackForFieldIncluded
  rw [tagWireType_tag]
  cases field <;> rfl

theorem leftOut_end (number : Nat) :
    callbackForFieldIncluded .no (number * 8 + WireType.lengthDelimited.toNat)
      Subtype.lengthDelimitedEndOfSubmessage = .ok .skippedSubmessageEnd := by
  unfold callbackForFieldIncluded
  rw [tagWireType_tag]
  rfl

theorem leftOut_startGroup (number : Nat) :
    callbackForFieldIncluded .no (number * 8 + WireType.startGroup.toNat) Subtype.trivial =
      .ok .skippedSubmessageStart := by
  unfold callbackForFieldIncluded
  rw [tagWireType_tag]

theorem leftOut_endGroup (number : Nat) :
    callbackForFieldIncluded .no (number * 8 + WireType.endGroup.toNat) Subtype.trivial =
      .ok .skippedSubmessageEnd := by
  unfold callbackForFieldIncluded
  rw [tagWireType_tag]

/-- The end of something left out is one level down. -/
theorem runCallback_skippedEnd {node : StateMachineNode} {pos level : Nat} {state : DecodeState}
    (skipping : state.skippedSubmessageLevel = level) (room : 2 * (level + 1) ≤ u32Max) :
    runCallback context node pos .skippedSubmessageEnd state =
      .ok { state with skippedSubmessageLevel := (level + 1 : Nat) } := by
  unfold u32Max at room
  have wraps : wrapI32 (state.skippedSubmessageLevel + 1) = (level + 1 : Nat) := by
    rw [wrapI32, skipping]
    omega
  change Except.ok { state with skippedSubmessageLevel := _ } = _
  rw [wraps]

/-- The start of something left out is one level up. -/
theorem runCallback_skippedStart {node : StateMachineNode} {pos level : Nat} {state : DecodeState}
    (skipping : state.skippedSubmessageLevel = (level + 1 : Nat)) :
    runCallback context node pos .skippedSubmessageStart state =
      .ok { state with skippedSubmessageLevel := level } := by
  change (if state.skippedSubmessageLevel ≤ 0 then _
    else Except.ok { state with skippedSubmessageLevel := state.skippedSubmessageLevel - 1 }) = _
  rw [if_neg (by omega), skipping]
  congr 2
  omega

variable (context bufferPos ids reads lengths) in
/-- Where something is skipped, the tags of a message of this size are passed
over: nothing is written and nothing is read. -/
def PassesOver (ops : List TagOp) (size : Nat) : Prop :=
  ∀ (stored counted : List TagOp) (positions : List Nat) (state : DecodeState) (level : Nat),
    List.Forall₂ (NodeAt context bufferPos) positions ops.reverse →
    state.skippedSubmessageLevel = (level + 1 : Nat) → 2 * (level + 1) + size ≤ u32Max →
    BuffersHold ids reads lengths (stored ++ ops) counted state.buffers →
    runPath context positions state = .ok state ∧
      BuffersHold ids reads lengths stored counted state.buffers

variable (context bufferPos) in
/-- Where something is skipped, the node of the tag has this callback. -/
def SkippedBy (op : TagOp) (callback : CallbackType) : Prop :=
  ∀ (pos level : Nat) (state : DecodeState), NodeAt context bufferPos pos op →
    state.skippedSubmessageLevel = (level + 1 : Nat) →
    ∃ node, context.nodes[pos]? = some node ∧ effectiveCallback context node state = .ok callback

theorem PassesOver.mono {ops : List TagOp} {size total : Nat}
    (passes : PassesOver context bufferPos ids reads lengths ops size) (fits : size ≤ total) :
    PassesOver context bufferPos ids reads lengths ops total :=
  fun stored counted positions state level nodes skipping room hold =>
    passes stored counted positions state level nodes skipping (by omega) hold

theorem PassesOver.leaf {parent size : Nat} {field : FieldLeaf} {ops : List TagOp}
    (skipped : SkippedBy context bufferPos (.leaf parent field) .noOp)
    (closed : reads (TagOp.leaf parent field).nodeId = false)
    (later : PassesOver context bufferPos ids reads lengths ops size) :
    PassesOver context bufferPos ids reads lengths (.leaf parent field :: ops)
      (field.bytes.length + size) := by
  intro stored counted positions state level nodes skipping room hold
  obtain ⟨first, pos, second, rfl, along, here, last⟩ :=
    @nodeAt_split context bufferPos positions (.leaf parent field) [] ops nodes
  cases last
  rw [List.append_cons] at hold
  obtain ⟨before, hold⟩ := later _ _ _ _ _ along skipping (by omega) hold
  obtain ⟨node, found, called⟩ := skipped _ _ _ here skipping
  refine ⟨?_, hold.skip (.inr closed)⟩
  rw [runPath_append, before, Except.ok_bind, List.append_nil, runPath_single found called]
  rfl

/-- What is nested in something skipped is skipped one level further down. -/
theorem PassesOver.nested {start stop : TagOp} {inner ops : List TagOp} {size size' : Nat}
    (starts : SkippedBy context bufferPos start .skippedSubmessageStart)
    (stops : SkippedBy context bufferPos stop .skippedSubmessageEnd)
    (bare : start.chunk = [] ∧ stop.chunk = [])
    (inside : PassesOver context bufferPos ids reads lengths inner size)
    (later : PassesOver context bufferPos ids reads lengths ops size') :
    PassesOver context bufferPos ids reads lengths (start :: (inner ++ stop :: ops))
      (size + 2 + size') := by
  intro stored counted positions state level nodes skipping room hold
  obtain ⟨first, pos, second, rfl, along, here, nodes⟩ :=
    @nodeAt_split context bufferPos positions stop (start :: inner) ops nodes
  obtain ⟨third, place, fourth, rfl, within, there, last⟩ :=
    @nodeAt_split context bufferPos second start [] inner nodes
  cases last
  rw [show stored ++ start :: (inner ++ stop :: ops) = (stored ++ [start]) ++ inner ++ [stop] ++ ops
    by simp] at hold
  obtain ⟨before, hold⟩ := later _ _ _ _ _ along skipping (by omega) hold
  obtain ⟨node, found, called⟩ := stops _ _ _ here skipping
  have entered : runPath context [pos] state =
      .ok { state with skippedSubmessageLevel := (level + 1 + 1 : Nat) } := by
    rw [runPath_single found called]
    exact runCallback_skippedEnd skipping (by omega)
  obtain ⟨between, hold⟩ := inside (stored ++ [start]) counted third
    { state with skippedSubmessageLevel := (level + 1 + 1 : Nat) } (level + 1) within rfl (by omega)
    (hold.skip (.inl bare.2))
  obtain ⟨node', found', called'⟩ := starts place (level + 1)
    { state with skippedSubmessageLevel := (level + 1 + 1 : Nat) } there rfl
  have left : runPath context [place]
      { state with skippedSubmessageLevel := (level + 1 + 1 : Nat) } = .ok state := by
    rw [runPath_single found' called', @runCallback_skippedStart context node' place (level + 1) _ rfl]
    rw [← skipping]
  refine ⟨?_, hold.skip (.inl bare.1)⟩
  rw [runPath_append, before, Except.ok_bind, runPath_append, entered, Except.ok_bind,
    runPath_append, between, Except.ok_bind, List.append_nil, left]

theorem skippedBy_field {includeMap : IncludeFieldMap} {op : TagOp} {callback : CallbackType}
    (selected : context.includeMap = some includeMap) (label : FieldLabel op.nodeId.tag op.subtype)
    (leftOut : callbackForFieldIncluded .no op.nodeId.tag op.subtype = .ok callback) :
    SkippedBy context bufferPos op callback := by
  rintro pos level state ⟨node, found, labelNode⟩ skipping
  refine ⟨node, found, ?_⟩
  rw [effectiveCallback_skipped selected label (labelNode.field label) (by omega), leftOut]

theorem skippedBy_start {includeMap : IncludeFieldMap} {parent number : Nat}
    (selected : context.includeMap = some includeMap) :
    SkippedBy context bufferPos (.startOfSubmessage parent number) .skippedSubmessageStart := by
  rintro pos level state ⟨node, found, labelNode⟩ skipping
  refine ⟨node, found, ?_⟩
  rw [effectiveCallback_start (tagWireType_tag number .lengthDelimited) labelNode
    (fun none => by rw [selected] at none; cases none), if_pos (by omega)]

/-- The tags of fields that are left out are passed over. -/
theorem Placed.passesOver {includeMap : IncludeFieldMap}
    (selected : context.includeMap = some includeMap) {path : List Nat} {ops : List TagOp}
    {tree : FieldTree} (placed : Placed included reads path ops tree) (canonical : tree.Canonical)
    (hidden : ∀ more, more ≠ [] → included (path ++ more) = .no) :
    PassesOver context bufferPos ids reads lengths ops tree.bytes.length := by
  induction placed with
  | nil =>
      intro stored counted positions state level nodes _ _ hold
      cases nodes
      rw [List.append_nil] at hold
      exact ⟨rfl, hold⟩
  | @leaf path ops parent field rest kept _ ih =>
      have closed : reads (TagOp.leaf parent field).nodeId = false := by
        cases wanted : reads (TagOp.leaf parent field).nodeId with
        | false => rfl
        | true =>
            rw [hidden [field.number] (List.cons_ne_nil _ _)] at kept
            cases kept.mp wanted
      rw [FieldTree.bytes, List.length_append]
      exact .leaf (@skippedBy_field context bufferPos includeMap (.leaf parent field) _ selected
        (FieldLeaf.labelled canonical.1) (leftOut_leaf field)) closed (ih canonical.2 hidden)
  | @submessage path inner ops parent number contents rest _ _ inside after =>
      obtain ⟨valid, _, canonical, canonical'⟩ := canonical
      have tagged : 0 < (tagBytes number .lengthDelimited).length := encodeU64_length_pos _
      have counted : 0 < (encodeU32 contents.bytes.length).length := encodeU64_length_pos _
      refine (PassesOver.nested (skippedBy_start selected)
        (@skippedBy_field context bufferPos includeMap (.endOfSubmessage parent number) _ selected
          (label_end valid) (leftOut_end number)) ⟨rfl, rfl⟩
        (inside canonical fun more filled => ?_) (after canonical' hidden)).mono ?_
      · rw [List.append_assoc]
        exact hidden _ (List.cons_ne_nil _ _)
      · rw [FieldTree.bytes]
        simp only [List.length_append]
        omega
  | @group path inner ops parent own number contents rest _ _ inside after =>
      obtain ⟨valid, canonical, canonical'⟩ := canonical
      have tagged : 0 < (tagBytes number .startGroup).length := encodeU64_length_pos _
      have tagged' : 0 < (tagBytes number .endGroup).length := encodeU64_length_pos _
      refine (PassesOver.nested
        (@skippedBy_field context bufferPos includeMap (.startGroup parent number) _ selected
          (label_group valid (by decide) (by decide)) (leftOut_startGroup number))
        (@skippedBy_field context bufferPos includeMap (.endGroup own number) _ selected
          (label_group valid (by decide) (by decide)) (leftOut_endGroup number)) ⟨rfl, rfl⟩
        (inside canonical fun more filled => ?_) (after canonical' hidden)).mono ?_
      · rw [List.append_assoc]
        exact hidden _ (List.cons_ne_nil _ _)
      · rw [FieldTree.bytes]
        simp only [List.length_append]
        omega

/-! ## What is written -/

theorem encodeU64_length_mono {first second : Nat} (ordered : first ≤ second)
    (fits : second ≤ u64Max) : (encodeU64 first).length ≤ (encodeU64 second).length := by
  rw [← lengthVarintU64_eq (ordered.trans fits), ← lengthVarintU64_eq fits]
  unfold lengthVarintU64 bitLength
  by_cases zero : first = 0
  · rw [if_pos zero]
    split <;> omega
  · have logs : Nat.log2 first ≤ Nat.log2 second :=
      (Nat.le_log2 (by omega)).mpr ((Nat.log2_self_le zero).trans ordered)
    rw [if_neg zero, if_neg zero, if_neg (by omega), if_neg (by omega)]
    omega

/-- What is left of a field is no longer than the field. -/
theorem FieldLeaf.projected_length_le {field : FieldLeaf} (canonical : field.Canonical)
    (inclusion : FieldIncluded) : (field.projected inclusion).length ≤ field.bytes.length := by
  cases inclusion with
  | yes => exact Nat.le_refl _
  | no => exact Nat.zero_le _
  | existenceOnly =>
      rw [FieldLeaf.projected, FieldLeaf.bytes, List.length_append, List.length_append]
      apply Nat.add_le_add_left
      cases field with
      | varint number value => exact encodeU64_length_pos value
      | fixed32 number bytes => exact canonical.2.ge
      | fixed64 number bytes => exact canonical.2.ge
      | string number bytes =>
          change 1 ≤ (encodeU32 bytes.length ++ bytes).length
          rw [List.length_append]
          exact Nat.le_add_right_of_le (encodeU64_length_pos _)

/-- What is left of a message is no longer than the message. -/
theorem FieldTree.projected_length_le {tree : FieldTree} :
    ∀ {path : List Nat}, tree.Canonical →
      (tree.projected included path).length ≤ tree.bytes.length := by
  induction tree with
  | nil => exact fun _ => Nat.le_refl _
  | leaf field rest ih =>
      intro path canonical
      have here := FieldLeaf.projected_length_le canonical.1 (included (path ++ [field.number]))
      have later := @ih path canonical.2
      rw [FieldTree.projected, FieldTree.bytes, List.length_append, List.length_append]
      exact Nat.add_le_add here later
  | submessage number contents rest inside after =>
      intro path canonical
      obtain ⟨_, small, within, later⟩ := canonical
      have inner := @inside (path ++ [number]) within
      have counted := encodeU64_length_mono inner (small.trans (by decide))
      have behind := @after path later
      rw [FieldTree.projected, FieldTree.bytes]
      simp only [List.length_append]
      split
      · rw [List.length_nil]
        omega
      · simp only [List.length_append]
        unfold encodeU32
        omega
  | group number contents rest inside after =>
      intro path canonical
      obtain ⟨_, within, later⟩ := canonical
      have inner := @inside (path ++ [number]) within
      have behind := @after path later
      rw [FieldTree.projected, FieldTree.bytes]
      simp only [List.length_append]
      split
      · rw [List.length_nil]
        omega
      · simp only [List.length_append]
        omega

/-! ## What is replayed -/

variable (context bufferPos ids reads lengths) in
/-- Inside the fields of a path, the tags write these bytes before what is
written. -/
def Emits (path : List Nat) (ops : List TagOp) (bytes : Bytes) : Prop :=
  ∀ (stored counted : List TagOp) (positions : List Nat) (state : DecodeState),
    List.Forall₂ (NodeAt context bufferPos) positions ops.reverse →
    Sees context state.submessageStack path → state.skippedSubmessageLevel = 0 →
    state.Room bytes.length → BuffersHold ids reads lengths (stored ++ ops) counted state.buffers →
    ∃ buffers', runPath context positions state =
        .ok ({ state with buffers := buffers' }.emit bytes) ∧
      BuffersHold ids reads lengths stored counted buffers'

theorem emits_nil (path : List Nat) : Emits context bufferPos ids reads lengths path [] [] := by
  intro stored counted positions state nodes _ _ _ hold
  cases nodes
  rw [List.append_nil] at hold
  exact ⟨state.buffers, by rw [DecodeState.emit_nil]; rfl, hold⟩

/-- Tags after each other write their bytes after each other. -/
theorem Emits.append {path : List Nat} {first second : List TagOp} {front back : Bytes}
    (earlier : Emits context bufferPos ids reads lengths path first front)
    (later : Emits context bufferPos ids reads lengths path second back) :
    Emits context bufferPos ids reads lengths path (first ++ second) (front ++ back) := by
  intro stored counted positions state nodes sees level room hold
  rw [List.length_append] at room
  rw [List.reverse_append] at nodes
  have along := List.forall₂_take_append positions second.reverse first.reverse nodes
  have behind := List.forall₂_drop_append positions second.reverse first.reverse nodes
  rw [← List.append_assoc] at hold
  obtain ⟨buffers, ran, hold⟩ := later _ _ _ _ along sees level (room.mono (by omega)) hold
  obtain ⟨buffers', ran', hold'⟩ := earlier stored counted _ ({ state with buffers := buffers }.emit back)
    behind sees level (DecodeState.Room.emit room (by omega)) hold
  refine ⟨buffers', ?_, hold'⟩
  rw [← List.take_append_drop second.reverse.length positions, runPath_append, ran, Except.ok_bind,
    ran']
  exact congrArg _ (DecodeState.emit_emit { state with buffers := buffers' } back front)

/-- Only a projection leaves something out. -/
theorem Includes.projecting {path : List Nat} (includes : Includes context.includeMap included)
    (partly : included path ≠ .yes) : context.includeMap.isSome = true := by
  cases selected : context.includeMap with
  | none =>
      rw [selected] at includes
      rw [show included = fun _ => .yes from includes] at partly
      exact absurd rfl partly
  | some includeMap => rfl

theorem fieldCallback_leaf (projecting : Bool) (field : FieldLeaf) :
    fieldCallback projecting .yes (field.number * 8 + field.wireType.toNat) field.subtype =
      callbackForWireType (some field.wireType) field.subtype := by
  unfold fieldCallback callbackForFieldIncluded
  rw [tagWireType_tag]
  cases projecting <;> cases field <;> rfl

theorem existence_leaf (field : FieldLeaf) :
    callbackForFieldIncluded .existenceOnly (field.number * 8 + field.wireType.toNat)
      field.subtype = .ok .existenceOnly := by
  unfold callbackForFieldIncluded
  rw [tagWireType_tag]
  cases field <;> rfl

theorem framesAround_leaf (parent : Nat) (field : FieldLeaf) (frames : List SubmessageFrame) :
    framesAround (TagOp.leaf parent field).nodeId.tag frames = frames := by
  unfold framesAround
  rw [show tagWireType (TagOp.leaf parent field).nodeId.tag = some field.wireType from
    tagWireType_tag _ _]
  cases field <;> rfl

theorem emits_leaf {path : List Nat} {parent : Nat} {field : FieldLeaf}
    (includes : Includes context.includeMap included) (canonical : field.Canonical)
    (placed : PlacedAt bufferPos ids (.leaf parent field))
    (kept : reads (TagOp.leaf parent field).nodeId = true ↔
      included (path ++ [field.number]) = .yes) :
    Emits context bufferPos ids reads lengths path [.leaf parent field]
      (field.projected (included (path ++ [field.number]))) := by
  intro stored counted positions state nodes sees level room hold
  obtain ⟨pos, rest, ⟨node, found, labelNode⟩, none, rfl⟩ := List.forall₂_cons_right_iff.mp nodes
  cases none
  have label := FieldLeaf.labelled canonical
  have fieldNode := labelNode.field label
  have chosen := @effectiveCallback_field context bufferPos included
    (TagOp.leaf parent field).nodeId field.subtype node state path includes label fieldNode level
    (by rw [framesAround_leaf]; exact sees)
  rw [show tagFieldNumber (TagOp.leaf parent field).nodeId.tag = field.number from
    tagFieldNumber_tag _ _] at chosen
  cases inclusion : included (path ++ [field.number]) with
  | yes =>
      rw [inclusion] at chosen kept room
      obtain ⟨callback, called⟩ := label.callback
      rw [tagWireType_tag] at called
      rw [show fieldCallback _ .yes (TagOp.leaf parent field).nodeId.tag field.subtype = _ from
        fieldCallback_leaf _ field, called] at chosen
      rw [runPath_single found chosen]
      exact runCallback_leaf canonical fieldNode called placed (kept.mpr rfl) hold room
  | no =>
      have projecting := @Includes.projecting context included _ includes (by rw [inclusion]; decide)
      rw [inclusion, fieldCallback, if_pos projecting] at chosen
      rw [show callbackForFieldIncluded .no (TagOp.leaf parent field).nodeId.tag field.subtype = _ from
        leftOut_leaf field] at chosen
      have closed : reads (TagOp.leaf parent field).nodeId = false := by
        rw [inclusion] at kept
        exact Bool.eq_false_iff.mpr fun wanted => nomatch kept.mp wanted
      refine ⟨state.buffers, ?_, hold.skip (.inr closed)⟩
      rw [runPath_single found chosen]
      exact congrArg _ (DecodeState.emit_nil state).symm
  | existenceOnly =>
      have projecting := @Includes.projecting context included _ includes (by rw [inclusion]; decide)
      rw [inclusion, fieldCallback, if_pos projecting] at chosen
      rw [show callbackForFieldIncluded .existenceOnly (TagOp.leaf parent field).nodeId.tag
        field.subtype = _ from existence_leaf field] at chosen
      rw [inclusion] at room
      rw [projecting] at fieldNode
      have closed : reads (TagOp.leaf parent field).nodeId = false := by
        rw [inclusion] at kept
        exact Bool.eq_false_iff.mpr fun wanted => nomatch kept.mp wanted
      refine ⟨state.buffers, ?_, hold.skip (.inr closed)⟩
      rw [runPath_single found chosen]
      have number : FieldNumber field.number := by
        cases field <;> exact canonical.1
      exact writeExistenceOnlyField_leaf number fieldNode room

/-- What is written around the tags inside a field, whose own two tags write
`front` and `back`. -/
theorem emits_nested {path deeper : List Nat} {inner : List TagOp} {start stop : TagOp}
    {front bytes back : Bytes} (bare : start.chunk = [] ∧ stop.chunk = [])
    (inside : Emits context bufferPos ids reads lengths deeper inner bytes)
    (around : ∀ (pos : Nat) (state : DecodeState), NodeAt context bufferPos pos stop →
      Sees context state.submessageStack path → state.skippedSubmessageLevel = 0 →
      state.Room (front ++ (bytes ++ back)).length →
      ∃ entered : DecodeState, runPath context [pos] state = .ok entered ∧
        entered.buffers = state.buffers ∧ Sees context entered.submessageStack deeper ∧
        entered.skippedSubmessageLevel = 0 ∧ entered.Room bytes.length ∧
        ∀ (place : Nat) (buffers : List BufferCursor), NodeAt context bufferPos place start →
          runPath context [place] ({ entered with buffers := buffers }.emit bytes) =
            .ok ({ state with buffers := buffers }.emit (front ++ (bytes ++ back)))) :
    Emits context bufferPos ids reads lengths path (start :: (inner ++ [stop]))
      (front ++ (bytes ++ back)) := by
  intro stored counted positions state nodes sees level room hold
  obtain ⟨first, pos, second, rfl, along, here, nodes⟩ :=
    @nodeAt_split context bufferPos positions stop (start :: inner) [] nodes
  obtain ⟨third, place, fourth, rfl, within, there, last⟩ :=
    @nodeAt_split context bufferPos second start [] inner nodes
  cases along
  cases last
  obtain ⟨entered, ran, kept, sees', level', room', leaves⟩ := around pos state here sees level room
  rw [show stored ++ start :: (inner ++ [stop]) = (stored ++ [start]) ++ inner ++ [stop] by simp,
    ← kept] at hold
  obtain ⟨buffers', between, hold'⟩ :=
    inside _ _ _ _ within sees' level' room' (hold.skip (.inl bare.2))
  refine ⟨buffers', ?_, hold'.skip (.inl bare.1)⟩
  rw [List.nil_append, runPath_append, ran, Except.ok_bind, List.append_nil, runPath_append,
    between, Except.ok_bind]
  exact leaves place buffers' there

/-- The bytes of a tag that stands for both ends of a field. -/
theorem tagData_plain {op : TagOp} {number : Nat} {wireType : WireType}
    (tagged : op.nodeId.tag = number * 8 + wireType.toNat) (other : wireType ≠ .varint) :
    op.tagData = tagBytes number wireType := by
  rw [TagOp.tagData, tagged]
  exact tagDataOf_plain fun varint => absurd varint other

/-- A submessage that stays gets its length anew. -/
theorem emits_submessage {path : List Nat} {inner : List TagOp} {parent number : Nat}
    {bytes : Bytes} (includes : Includes context.includeMap included) (valid : FieldNumber number)
    (small : bytes.length ≤ u32Max) (kept : included (path ++ [number]) ≠ .no)
    (inside : Emits context bufferPos ids reads lengths (path ++ [number]) inner bytes) :
    Emits context bufferPos ids reads lengths path
      (.startOfSubmessage parent number :: (inner ++ [.endOfSubmessage parent number]))
      (tagBytes number .lengthDelimited ++ (encodeU32 bytes.length ++ bytes)) := by
  have split : tagBytes number .lengthDelimited ++ (encodeU32 bytes.length ++ bytes) =
      (tagBytes number .lengthDelimited ++ encodeU32 bytes.length) ++ (bytes ++ []) := by simp
  rw [split]
  refine emits_nested ⟨rfl, rfl⟩ inside ?_
  rintro pos state ⟨node, found, labelNode⟩ sees level room
  have label : FieldLabel (TagOp.endOfSubmessage parent number).nodeId.tag
      Subtype.lengthDelimitedEndOfSubmessage := label_end valid
  have fieldNode := labelNode.field label
  have delimited : tagWireType (TagOp.endOfSubmessage parent number).nodeId.tag =
      some .lengthDelimited := tagWireType_tag _ _
  have chosen := @effectiveCallback_field context bufferPos included
    (TagOp.endOfSubmessage parent number).nodeId _ node state path includes label fieldNode level
    (by unfold framesAround; rw [delimited, if_neg (by decide)]; exact sees)
  have called : effectiveCallback context node state = .ok .submessageEnd := by
    rw [chosen, show tagFieldNumber (TagOp.endOfSubmessage parent number).nodeId.tag = number from
      tagFieldNumber_tag _ _]
    unfold fieldCallback callbackForFieldIncluded
    rw [delimited]
    cases inclusion : included (path ++ [number]) with
    | yes => split <;> rfl
    | no => exact absurd inclusion kept
    | existenceOnly => split <;> rfl
  have tags : nodeTagBytes node = .ok (tagBytes number .lengthDelimited) := by
    rw [← tagData_plain (show (TagOp.endOfSubmessage parent number).nodeId.tag = _ from rfl)
      (by decide)]
    exact fieldNode.nodeTagBytes
  have data : node.tagData = tagBytes number .lengthDelimited :=
    (congrArg Prod.fst fieldNode.tagData).trans
      (tagData_plain (show (TagOp.endOfSubmessage parent number).nodeId.tag = _ from rfl) (by decide))
  rw [List.append_nil, List.length_append] at room
  refine ⟨pushFrame pos state, ?_, rfl, sees.push ⟨valid, node, .lengthDelimited, found, data⟩, level,
    room.mono (by omega), ?_⟩
  · rw [runPath_single found called]
    rfl
  rintro place buffers ⟨node', found', labelNode'⟩
  have delimited' : tagWireType (TagOp.startOfSubmessage parent number).nodeId.tag =
      some .lengthDelimited := tagWireType_tag _ _
  have called' := @effectiveCallback_start context bufferPos
    (TagOp.startOfSubmessage parent number).nodeId node'
    ({ pushFrame pos state with buffers := buffers }.emit bytes) delimited' labelNode'
    (fun _ => level.le)
  rw [if_neg (by exact level.not_gt)] at called'
  have written : ({ pushFrame pos state with buffers := buffers }.emit bytes).dest.pos =
      state.dest.pos + bytes.length := by
    change (state.dest.data ++ bytes.reverse).length = state.dest.data.length + bytes.length
    rw [List.length_append, List.length_reverse]
  rw [runPath_single found' called']
  change writeSubmessageHeader context ({ pushFrame pos state with buffers := buffers }.emit bytes) = _
  unfold writeSubmessageHeader
  change (if ({ pushFrame pos state with buffers := buffers }.emit bytes).dest.pos < state.dest.pos
    then _ else if u32Max < ({ pushFrame pos state with buffers := buffers }.emit bytes).dest.pos -
      state.dest.pos then _ else _) = _
  rw [written, Nat.add_sub_cancel_left, if_neg (by omega), if_neg (by omega)]
  change (indexAt context.nodes pos >>= _) = _
  rw [indexAt_eq_ok.mpr found, Except.ok_bind, tags, Except.ok_bind]
  have left : ({ state with buffers := buffers } : DecodeState).Room
      (bytes.length + (tagBytes number .lengthDelimited ++ encodeU32 bytes.length).length) := by
    refine DecodeState.Room.mono (show ({ state with buffers := buffers } : DecodeState).Room _
      from room) ?_
    rw [List.length_append, Nat.add_comm]
  change writeDest (({ state with buffers := buffers } : DecodeState).emit bytes) _ = _
  rw [writeDest_emit (left.emit (Nat.le_refl _)), DecodeState.emit_emit, List.append_nil]

/-- A submessage or a group that is left out writes nothing. -/
theorem emits_skipped {path : List Nat} {inner : List TagOp} {start stop : TagOp} {size : Nat}
    (bare : start.chunk = [] ∧ stop.chunk = [])
    (starts : SkippedBy context bufferPos start .skippedSubmessageStart)
    (stops : ∀ (pos : Nat) (state : DecodeState), NodeAt context bufferPos pos stop →
      Sees context state.submessageStack path → state.skippedSubmessageLevel = 0 →
      ∃ node, context.nodes[pos]? = some node ∧
        effectiveCallback context node state = .ok .skippedSubmessageEnd)
    (inside : PassesOver context bufferPos ids reads lengths inner size)
    (fits : 2 + size ≤ u32Max) :
    Emits context bufferPos ids reads lengths path (start :: (inner ++ [stop])) [] := by
  intro stored counted positions state nodes sees level room hold
  obtain ⟨first, pos, second, rfl, along, here, nodes⟩ :=
    @nodeAt_split context bufferPos positions stop (start :: inner) [] nodes
  obtain ⟨third, place, fourth, rfl, within, there, last⟩ :=
    @nodeAt_split context bufferPos second start [] inner nodes
  cases along
  cases last
  obtain ⟨node, found, called⟩ := stops pos state here sees level
  have entered : runPath context [pos] state =
      .ok { state with skippedSubmessageLevel := (0 + 1 : Nat) } := by
    rw [runPath_single found called]
    exact runCallback_skippedEnd level (by decide)
  rw [show stored ++ start :: (inner ++ [stop]) = (stored ++ [start]) ++ inner ++ [stop] by simp]
    at hold
  obtain ⟨between, hold⟩ := inside (stored ++ [start]) counted third
    { state with skippedSubmessageLevel := (0 + 1 : Nat) } 0 within rfl (by omega)
    (hold.skip (.inl bare.2))
  obtain ⟨node', found', called'⟩ := starts place 0
    { state with skippedSubmessageLevel := (0 + 1 : Nat) } there rfl
  have left : runPath context [place]
      { state with skippedSubmessageLevel := (0 + 1 : Nat) } = .ok state := by
    rw [runPath_single found' called', @runCallback_skippedStart context node' place 0 _ rfl]
    rw [show ((0 : Nat) : Int) = state.skippedSubmessageLevel from level.symm]
  refine ⟨state.buffers, ?_, hold.skip (.inl bare.1)⟩
  rw [List.nil_append, runPath_append, entered, Except.ok_bind, List.append_nil, runPath_append,
    between, Except.ok_bind, left]
  exact congrArg _ (DecodeState.emit_nil state).symm

/-- The callback of a group's tag, whether or not there is a projection. -/
def groupCallback (projecting : Bool) (start : Bool) : CallbackType :=
  if projecting then if start then .startProjectionGroup else .endProjectionGroup else .copyTag

theorem fieldCallback_group {projecting start : Bool} {included : FieldIncluded} {number : Nat}
    (kept : included ≠ .no) :
    fieldCallback projecting included
        (number * 8 + (if start then WireType.startGroup else WireType.endGroup).toNat)
        Subtype.trivial = .ok (groupCallback projecting start) := by
  unfold fieldCallback callbackForFieldIncluded
  rw [tagWireType_tag]
  cases included with
  | yes => cases projecting <;> cases start <;> rfl
  | no => exact absurd rfl kept
  | existenceOnly => cases projecting <;> cases start <;> rfl

/-- The frame of a group's end is known for one. -/
theorem checkGroupFrame_group {frame : SubmessageFrame} {node : StateMachineNode} {number : Nat}
    (valid : FieldNumber number) (found : context.nodes[frame.nodeIndex]? = some node)
    (data : node.tagData = tagBytes number .endGroup) :
    checkGroupFrame context frame = .ok () := by
  have filled : (tagBytes number .endGroup).isEmpty = false := by
    rw [List.isEmpty_eq_false_iff]
    exact List.ne_nil_of_length_pos (encodeU64_length_pos _)
  rw [checkGroupFrame, indexAt_eq_ok.mpr found, Except.ok_bind, data, decodeU32_tagBytes valid]
  exact if_pos ⟨filled, tagWireType_tag _ _⟩

theorem startProjectionGroup_group {state : DecodeState} {frame : SubmessageFrame}
    {rest : List SubmessageFrame} {node node' : StateMachineNode} {number : Nat}
    (valid : FieldNumber number) (found : context.nodes[frame.nodeIndex]? = some node)
    (data : node.tagData = tagBytes number .endGroup)
    (stack : state.submessageStack = frame :: rest) :
    startProjectionGroup context node' state =
      writeTag node' { state with submessageStack := rest } := by
  rw [startProjectionGroup, stack]
  simp only
  rw [checkGroupFrame_group valid found data, Except.ok_bind]

/-- A group that stays keeps its two tags. -/
theorem emits_group {path : List Nat} {inner : List TagOp} {parent own number : Nat}
    {bytes : Bytes} (includes : Includes context.includeMap included) (valid : FieldNumber number)
    (kept : included (path ++ [number]) ≠ .no)
    (inside : Emits context bufferPos ids reads lengths (path ++ [number]) inner bytes) :
    Emits context bufferPos ids reads lengths path
      (.startGroup parent number :: (inner ++ [.endGroup own number]))
      (tagBytes number .startGroup ++ (bytes ++ tagBytes number .endGroup)) := by
  refine emits_nested ⟨rfl, rfl⟩ inside ?_
  rintro pos state ⟨node, found, labelNode⟩ sees level room
  have label : FieldLabel (TagOp.endGroup own number).nodeId.tag Subtype.trivial :=
    label_group valid (by decide) (by decide)
  have fieldNode := labelNode.field label
  have ended : tagWireType (TagOp.endGroup own number).nodeId.tag = some .endGroup :=
    tagWireType_tag _ _
  have chosen := @effectiveCallback_field context bufferPos included
    (TagOp.endGroup own number).nodeId _ node state path includes label fieldNode level
    (by unfold framesAround; rw [ended, if_neg (by decide)]; exact sees)
  have called : effectiveCallback context node state =
      .ok (groupCallback context.includeMap.isSome false) := by
    rw [chosen, show tagFieldNumber (TagOp.endGroup own number).nodeId.tag = number from
      tagFieldNumber_tag _ _]
    exact @fieldCallback_group _ false _ number kept
  have data : (TagOp.endGroup own number).tagData = tagBytes number .endGroup :=
    tagData_plain (show (TagOp.endGroup own number).nodeId.tag = _ from rfl) (by decide)
  simp only [List.length_append] at room
  -- the start of the group, where the frames are those of its end
  have starts : ∀ (place : Nat) (after : DecodeState),
      NodeAt context bufferPos place (.startGroup parent number) →
      Sees context after.submessageStack.tail path → after.skippedSubmessageLevel = 0 →
      after.Room (tagBytes number .startGroup).length → ∃ node',
        context.nodes[place]? = some node' ∧
        effectiveCallback context node' after =
          .ok (groupCallback context.includeMap.isSome true) ∧
        ∀ frames, writeTag node' { after with submessageStack := frames } =
          .ok ({ after with submessageStack := frames }.emit (tagBytes number .startGroup)) := by
    rintro place after ⟨node', found', labelNode'⟩ sees' level' room'
    have label' : FieldLabel (TagOp.startGroup parent number).nodeId.tag Subtype.trivial :=
      label_group valid (by decide) (by decide)
    have fieldNode' := labelNode'.field label'
    have started : tagWireType (TagOp.startGroup parent number).nodeId.tag = some .startGroup :=
      tagWireType_tag _ _
    have data' : (TagOp.startGroup parent number).tagData = tagBytes number .startGroup :=
      tagData_plain (show (TagOp.startGroup parent number).nodeId.tag = _ from rfl) (by decide)
    have chosen' := @effectiveCallback_field context bufferPos included
      (TagOp.startGroup parent number).nodeId _ node' after path includes label' fieldNode' level'
      (by unfold framesAround; rw [started, if_pos rfl]; exact sees')
    refine ⟨node', found', ?_, fun frames => ?_⟩
    · rw [chosen', show tagFieldNumber (TagOp.startGroup parent number).nodeId.tag = number from
        tagFieldNumber_tag _ _]
      exact @fieldCallback_group _ true _ number kept
    · rw [← data']
      refine writeTag_emit fieldNode' ?_
      rw [data']
      exact room'
  cases projecting : context.includeMap.isSome with
  | false =>
      have blind : ∀ {frames path}, Sees context frames path := by
        intro frames path some
        rw [projecting] at some
        cases some
      have wrote : writeTag node state = .ok (state.emit (tagBytes number .endGroup)) := by
        rw [← data]
        refine writeTag_emit fieldNode ?_
        rw [data]
        exact room.mono (by omega)
      refine ⟨state.emit (tagBytes number .endGroup), ?_, rfl, blind, level,
        room.emit (by omega), fun place buffers here => ?_⟩
      · rw [runPath_single found called, projecting]
        exact wrote
      · have left : ({ state with buffers := buffers } : DecodeState).Room _ := room
        obtain ⟨node', found', called', wrote'⟩ := starts place
          (({ state with buffers := buffers } : DecodeState).emit
            (bytes ++ tagBytes number .endGroup)) here blind level
          (left.emit (by rw [List.length_append]; omega))
        rw [show ({ state.emit (tagBytes number .endGroup) with buffers := buffers } :
          DecodeState).emit bytes = ({ state with buffers := buffers } : DecodeState).emit
            (bytes ++ tagBytes number .endGroup) from
          DecodeState.emit_emit { state with buffers := buffers } _ _,
          runPath_single found' called', projecting]
        exact (wrote' state.submessageStack).trans
          (congrArg _ (DecodeState.emit_emit { state with buffers := buffers } _ _))
  | true =>
      have frameData : node.tagData = tagBytes number .endGroup :=
        (congrArg Prod.fst fieldNode.tagData).trans data
      have wrote : writeTag node (pushFrame pos state) =
          .ok ((pushFrame pos state).emit (tagBytes number .endGroup)) := by
        rw [← data]
        refine writeTag_emit fieldNode ?_
        rw [data]
        exact DecodeState.Room.mono room (by omega)
      have inFrame : FrameOf context { endPos := state.dest.pos, nodeIndex := pos } number :=
        ⟨valid, node, .endGroup, found, frameData⟩
      refine ⟨(pushFrame pos state).emit (tagBytes number .endGroup), ?_, rfl,
        sees.push inFrame, level,
        DecodeState.Room.emit (show (pushFrame pos state).Room _ from room) (by omega),
        fun place buffers here => ?_⟩
      · rw [runPath_single found called, projecting]
        exact wrote
      · have left : ({ pushFrame pos state with buffers := buffers } : DecodeState).Room _ := room
        obtain ⟨node', found', called', wrote'⟩ := starts place
          (({ pushFrame pos state with buffers := buffers } : DecodeState).emit
            (bytes ++ tagBytes number .endGroup)) here sees level
          (left.emit (by rw [List.length_append]; omega))
        rw [show ({ (pushFrame pos state).emit (tagBytes number .endGroup) with
          buffers := buffers } : DecodeState).emit bytes =
            ({ pushFrame pos state with buffers := buffers } : DecodeState).emit
              (bytes ++ tagBytes number .endGroup) from
          DecodeState.emit_emit { pushFrame pos state with buffers := buffers } _ _,
          runPath_single found' called', projecting]
        have opened := @startProjectionGroup_group context
          (({ pushFrame pos state with buffers := buffers } : DecodeState).emit
            (bytes ++ tagBytes number .endGroup)) { endPos := state.dest.pos, nodeIndex := pos }
          state.submessageStack node node' number valid found frameData rfl
        exact opened.trans ((wrote' state.submessageStack).trans
          (congrArg _ (DecodeState.emit_emit { state with buffers := buffers } _ _)))

/-- Where a field is left out, so are the fields inside it. -/
def Hereditary (included : List Nat → FieldIncluded) : Prop :=
  ∀ (path more : List Nat), path ≠ [] → included path = .no → included (path ++ more) = .no

/-- The end of a submessage or a group that is left out. -/
theorem skippedEnd_called {op : TagOp} {path : List Nat} {number pos : Nat} {state : DecodeState}
    (includes : Includes context.includeMap included) (label : FieldLabel op.nodeId.tag op.subtype)
    (numbered : tagFieldNumber op.nodeId.tag = number)
    (inner : tagWireType op.nodeId.tag ≠ some .startGroup)
    (leftOut : callbackForFieldIncluded .no op.nodeId.tag op.subtype = .ok .skippedSubmessageEnd)
    (closed : included (path ++ [number]) = .no) (here : NodeAt context bufferPos pos op)
    (sees : Sees context state.submessageStack path) (level : state.skippedSubmessageLevel = 0) :
    ∃ node, context.nodes[pos]? = some node ∧
      effectiveCallback context node state = .ok .skippedSubmessageEnd := by
  obtain ⟨node, found, labelNode⟩ := here
  have projecting := @Includes.projecting context included _ includes
    (by rw [closed]; decide : included (path ++ [number]) ≠ .yes)
  refine ⟨node, found, ?_⟩
  rw [@effectiveCallback_field context bufferPos included op.nodeId op.subtype node state path
    includes label (labelNode.field label) level
    (by unfold framesAround; rw [if_neg inner]; exact sees), numbered, closed, fieldCallback,
    if_pos projecting, leftOut]

/-- The tags of a message write what the projection leaves of it. -/
theorem Placed.emits (includes : Includes context.includeMap included)
    (hereditary : Hereditary included) {path : List Nat} {ops : List TagOp} {tree : FieldTree}
    (placed : Placed included reads path ops tree) (canonical : tree.Canonical)
    (small : tree.bytes.length ≤ u32Max) (listed : ∀ op ∈ ops, PlacedAt bufferPos ids op) :
    Emits context bufferPos ids reads lengths path ops (tree.projected included path) := by
  induction placed with
  | nil => exact emits_nil _
  | @leaf path ops parent field rest kept _ ih =>
      obtain ⟨here, later⟩ := List.forall_mem_cons.mp listed
      rw [FieldTree.bytes, List.length_append] at small
      exact (emits_leaf includes canonical.1 here kept).append
        (ih canonical.2 (by omega) later)
  | @submessage path inner ops parent number contents rest within _ inside after =>
      obtain ⟨valid, _, contentsCanonical, restCanonical⟩ := canonical
      rw [FieldTree.bytes] at small
      simp only [List.length_append] at small
      have tagged : 0 < (tagBytes number .lengthDelimited).length := encodeU64_length_pos _
      have counted : 0 < (encodeU32 contents.bytes.length).length := encodeU64_length_pos _
      have parts : TagOp.startOfSubmessage parent number :: (inner ++
          .endOfSubmessage parent number :: ops) =
          (.startOfSubmessage parent number :: (inner ++ [.endOfSubmessage parent number])) ++ ops := by
        simp
      have later := after restCanonical (by omega) fun op member => listed op (by
        rw [parts]
        exact List.mem_append_right _ member)
      rw [parts, FieldTree.projected]
      by_cases closed : included (path ++ [number]) = .no
      · have partly : included (path ++ [number]) ≠ .yes := by rw [closed]; decide
        obtain ⟨includeMap, selected⟩ := Option.isSome_iff_exists.mp (includes.projecting partly)
        have passes : PassesOver context bufferPos ids reads lengths inner contents.bytes.length :=
          within.passesOver selected contentsCanonical
            fun more _ => hereditary _ more (by simp) closed
        rw [if_pos closed]
        refine (emits_skipped ⟨rfl, rfl⟩ (skippedBy_start selected) (fun pos state here sees level =>
          ?_) passes (by omega)).append later
        exact @skippedEnd_called context bufferPos included (.endOfSubmessage parent number) path
          number pos state includes (label_end valid) (tagFieldNumber_tag _ _)
          (by rw [show tagWireType (TagOp.endOfSubmessage parent number).nodeId.tag = _ from
            tagWireType_tag _ _]; decide) (leftOut_end number) closed here sees level
      · have kept := inside contentsCanonical (by omega) fun op member => listed op (by simp [member])
        have shorter := @FieldTree.projected_length_le included contents (path ++ [number])
          contentsCanonical
        rw [if_neg closed]
        exact (emits_submessage includes valid (by omega) closed kept).append later
  | @group path inner ops parent own number contents rest within _ inside after =>
      obtain ⟨valid, contentsCanonical, restCanonical⟩ := canonical
      rw [FieldTree.bytes] at small
      simp only [List.length_append] at small
      have tagged : 0 < (tagBytes number .startGroup).length := encodeU64_length_pos _
      have counted : 0 < (tagBytes number .endGroup).length := encodeU64_length_pos _
      have parts : TagOp.startGroup parent number :: (inner ++ .endGroup own number :: ops) =
          (.startGroup parent number :: (inner ++ [.endGroup own number])) ++ ops := by
        simp
      have later := after restCanonical (by omega) fun op member => listed op (by
        rw [parts]
        exact List.mem_append_right _ member)
      rw [parts, FieldTree.projected]
      by_cases closed : included (path ++ [number]) = .no
      · have partly : included (path ++ [number]) ≠ .yes := by rw [closed]; decide
        obtain ⟨includeMap, selected⟩ := Option.isSome_iff_exists.mp (includes.projecting partly)
        have passes : PassesOver context bufferPos ids reads lengths inner contents.bytes.length :=
          within.passesOver selected contentsCanonical
            fun more _ => hereditary _ more (by simp) closed
        rw [if_pos closed]
        refine (emits_skipped ⟨rfl, rfl⟩ (@skippedBy_field context bufferPos includeMap
          (.startGroup parent number) _ selected (label_group valid (by decide) (by decide))
          (leftOut_startGroup number)) (fun pos state here sees level => ?_) passes
          (by omega)).append later
        exact @skippedEnd_called context bufferPos included (.endGroup own number) path number pos
          state includes (label_group valid (by decide) (by decide)) (tagFieldNumber_tag _ _)
          (by rw [show tagWireType (TagOp.endGroup own number).nodeId.tag = _ from
            tagWireType_tag _ _]; decide) (leftOut_endGroup number) closed here sees level
      · have kept := inside contentsCanonical (by omega) fun op member => listed op (by simp [member])
        rw [if_neg closed]
        exact (emits_group includes valid closed kept).append later

end Riegeli
