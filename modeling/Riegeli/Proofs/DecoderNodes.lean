/-
Module: Riegeli.Proofs.DecoderNodes
Purpose: Whatever states a header lists, the nodes of the state machine are built
  without a panic and refer to nodes, buffers and templates that are there.
Trusted boundary: the codecs
Main exports: buildSingleNode_meets, buildNodesLoop_meets,
  buildStateMachineNodes_meets
-/
import Riegeli.Proofs.DecoderInputs
import Riegeli.Proofs.ImplicitLoops

namespace Riegeli

variable {numNodes numBuffers rawTag tag : Nat} {subtypesBytes : Bytes} {rest : List Nat}
  {state : BuildState}

/-! ## Tags -/

theorem unmapSubmessage_le (submessage : rawTag % 8 = submessageWireType) :
    unmapSubmessage rawTag ≤ rawTag := by
  unfold submessageWireType at submessage
  have value : WireType.lengthDelimited.toNat = 2 := rfl
  unfold unmapSubmessage submessageWireType
  omega

/-- No subtype is stored for the end of a submessage. -/
theorem hasSubtype_unmapSubmessage (submessage : rawTag % 8 = submessageWireType) :
    hasSubtype (unmapSubmessage rawTag) = false := by
  unfold submessageWireType at submessage
  have value : WireType.lengthDelimited.toNat = 2 := rfl
  have wire : unmapSubmessage rawTag % 8 = 2 := by
    unfold unmapSubmessage submessageWireType
    omega
  unfold hasSubtype tagWireType
  rw [wire]
  rfl

theorem tagDataOf_sized (tag subtype : Nat) :
    (tagDataOf tag subtype).2 ≤ (tagDataOf tag subtype).1.length := by
  unfold tagDataOf
  simp only
  split
  · rw [List.length_append]
    exact Nat.le_refl _
  · exact Nat.le_refl _

/-! ## One state -/

/-- What building the nodes keeps, with these tags still to come. -/
structure BuildState.Sound (subtypesBytes : Bytes) (left : List Nat) (state : BuildState) : Prop where
  hdr : state.hdr.Inside
  subtypes : state.subtypeIdx + countSubtypes left ≤ subtypesBytes.length
  templates : ∀ template ∈ state.nodeTemplates, template.Short

theorem countSubtypes_cons (rawTag : Nat) (rest : List Nat) :
    countSubtypes (rawTag :: rest) =
      countSubtypes rest + if isValidProtoTag rawTag && hasSubtype rawTag then 1 else 0 :=
  List.countP_cons

theorem BuildState.Sound.next (sound : state.Sound subtypesBytes (rawTag :: rest)) :
    state.Sound subtypesBytes rest := by
  have fewer := sound.subtypes
  rw [countSubtypes_cons] at fewer
  exact ⟨sound.hdr, by omega, sound.templates⟩

theorem StateMachineNode.Sound.mono {node : StateMachineNode} {few many : Nat}
    (sound : node.Sound numNodes numBuffers few) (more : few ≤ many) :
    node.Sound numNodes numBuffers many :=
  ⟨sound.sized, sound.next, sound.buffer,
    fun index given => Nat.lt_of_lt_of_le (sound.template index given) more⟩

theorem plainNode_sound (callbackType : CallbackType) {nextNodeIndex : Nat} (isImplicit : Bool)
    (numTemplates : Nat) (inside : nextNodeIndex < numNodes) :
    (plainNode callbackType nextNodeIndex isImplicit).Sound numNodes numBuffers numTemplates where
  sized := Nat.le_refl _
  next := inside
  buffer := by
    intro index given
    cases given
  template := by
    intro index given
    cases given

/-- A state that is read as one node. -/
def NodeBuilt (numNodes numBuffers : Nat) (subtypesBytes : Bytes) (rest : List Nat)
    (before : BuildState) (built : StateMachineNode × BuildState) : Prop :=
  built.1.Sound numNodes numBuffers built.2.nodeTemplates.length ∧
    built.2.Sound subtypesBytes rest ∧
    before.nodeTemplates.length ≤ built.2.nodeTemplates.length

/-- A subtype is there for every tag that has one. -/
theorem readSubtype_meets (structural : Nat)
    (sound : state.Sound subtypesBytes (rawTag :: rest))
    (counted : hasSubtype tag = true → isValidProtoTag rawTag = true ∧ hasSubtype rawTag = true) :
    Meets Fault.Returned (readSubtype subtypesBytes tag structural state.subtypeIdx)
      fun read => read.2 + countSubtypes rest ≤ subtypesBytes.length := by
  unfold readSubtype
  refine .ite (fun has => ?_) fun _ => sound.next.subtypes
  obtain ⟨valid, stored⟩ := counted has
  have more := sound.subtypes
  rw [countSubtypes_cons, valid, stored, Bool.and_self, if_pos rfl] at more
  refine .bind (indexAt_meets (by omega)) fun byte _ => ?_
  change state.subtypeIdx + 1 + countSubtypes rest ≤ subtypesBytes.length
  omega

theorem readBufferIndex_meets {hdr : BufferCursor} (inside : hdr.Inside) (subtype : Nat) :
    Meets Fault.Returned (readBufferIndex hdr numBuffers tag subtype) fun read =>
      (∀ index, read.1 = some index → index < numBuffers) ∧ read.2.Inside := by
  unfold readBufferIndex
  have unread (index : Nat) (given : none = some index) : index < numBuffers := by cases given
  refine .ite (fun _ => ?_) fun _ => ⟨unread, inside⟩
  refine .bind (BufferCursor.readVarint32_meets inside) fun read onward => ?_
  refine .ite (fun _ => malformed_meets _) fun small => ?_
  refine ⟨fun index given => ?_, onward.2.inside⟩
  cases given
  exact Nat.not_le.mp small

theorem callbackForWireType_meets (wireType : Option WireType) (subtype : Nat) :
    Meets Fault.Returned (callbackForWireType wireType subtype) fun _ => True := by
  unfold callbackForWireType
  split
  · exact .ite (fun _ => malformed_meets _) fun _ => .ite (fun _ => trivial) fun _ => trivial
  · exact trivial
  · exact trivial
  · exact .ite (fun _ => trivial) fun _ => .ite (fun _ => trivial) fun _ => malformed_meets _
  · exact trivial
  · exact trivial
  · exact malformed_meets _

theorem buildProtoTagNode_meets {nextNodeIdx : Nat} (isImplicit : Bool) (stateIndex : Nat)
    (projectionEnabled : Bool) (sound : state.Sound subtypesBytes (rawTag :: rest))
    (word : rawTag ≤ u32Max) (inside : nextNodeIdx < numNodes) :
    Meets Fault.Returned
      (buildProtoTagNode rawTag nextNodeIdx isImplicit stateIndex numBuffers subtypesBytes
        projectionEnabled state)
      (NodeBuilt numNodes numBuffers subtypesBytes rest state) := by
  unfold buildProtoTagNode
  generalize chosen : (if rawTag % 8 = submessageWireType then
    (unmapSubmessage rawTag, Subtype.lengthDelimitedEndOfSubmessage)
    else (rawTag, Subtype.trivial)) = choice
  have facts : choice.1 ≤ u32Max ∧ (hasSubtype choice.1 = true → choice.1 = rawTag) := by
    split at chosen
    · rename_i submessage
      rw [← chosen]
      refine ⟨(unmapSubmessage_le submessage).trans word, fun has => ?_⟩
      rw [hasSubtype_unmapSubmessage submessage] at has
      cases has
    · rw [← chosen]
      exact ⟨word, fun _ => rfl⟩
  obtain ⟨tag, structural⟩ := choice
  obtain ⟨small, same⟩ := facts
  refine .ite (fun _ => malformed_meets _) fun valid => ?_
  rw [Bool.not_eq_false] at valid
  have counted (has : hasSubtype tag = true) :
      isValidProtoTag rawTag = true ∧ hasSubtype rawTag = true := by
    rw [← same has]
    exact ⟨valid, has⟩
  refine .bind (readSubtype_meets structural sound counted) fun subtype left => ?_
  refine .bind (readBufferIndex_meets sound.hdr subtype.1) fun buffer read => ?_
  obtain ⟨there, insideHdr⟩ := read
  have sized := tagDataOf_sized tag subtype.1
  refine .ite (fun _ => ?_) fun _ => ?_
  · have more (template : NodeTemplate) :
        (state.nodeTemplates ++ [template]).length = state.nodeTemplates.length + 1 :=
      List.length_append
    refine ⟨⟨sized, inside, there, fun index given => ?_⟩, ⟨insideHdr, left, ?_⟩, ?_⟩
    · cases given
      rw [more]
      exact Nat.lt_succ_self _
    · intro template member
      rcases List.mem_append.mp member with before | last
      · exact sound.templates template before
      · rw [List.mem_singleton.mp last]
        exact encodeU32_length_le small
    · rw [more]
      exact Nat.le_succ _
  · refine .bind (callbackForWireType_meets (tagWireType tag) subtype.1) fun callbackType _ => ?_
    exact ⟨⟨sized, inside, there, fun _ given => by cases given⟩,
      ⟨insideHdr, left, sound.templates⟩, Nat.le_refl _⟩

theorem buildSingleNode_meets {nextNodeIdx : Nat} (isImplicit : Bool) (stateIndex : Nat)
    (projectionEnabled : Bool) (sound : state.Sound subtypesBytes (rawTag :: rest))
    (word : rawTag ≤ u32Max) (inside : nextNodeIdx < numNodes) :
    Meets Fault.Returned
      (buildSingleNode rawTag nextNodeIdx isImplicit stateIndex numBuffers subtypesBytes
        projectionEnabled state)
      (NodeBuilt numNodes numBuffers subtypesBytes rest state) := by
  have plain (callbackType : CallbackType) : NodeBuilt numNodes numBuffers subtypesBytes rest state
      (plainNode callbackType nextNodeIdx isImplicit, state) :=
    ⟨plainNode_sound callbackType isImplicit _ inside, sound.next, Nat.le_refl _⟩
  unfold buildSingleNode
  refine .ite (fun _ => plain _) fun _ => ?_
  refine .ite (fun _ => ?_) fun _ => ?_
  · refine .bind (BufferCursor.readVarint32_meets sound.hdr) fun read onward => ?_
    refine .ite (fun _ => malformed_meets _) fun small => ?_
    refine ⟨⟨Nat.le_refl _, inside, fun index given => ?_, fun index given => ?_⟩,
      ⟨onward.2.inside, sound.next.subtypes, sound.templates⟩, Nat.le_refl _⟩
    · cases given
      exact Nat.not_le.mp small
    · cases given
  · refine .ite (fun _ => plain _) fun _ => ?_
    refine .ite (fun _ => ?_) fun _ => ?_
    · refine .ite (fun _ => ?_) fun _ => plain _
      have more (template : NodeTemplate) :
          (state.nodeTemplates ++ [template]).length = state.nodeTemplates.length + 1 :=
        List.length_append
      refine ⟨⟨Nat.le_refl _, inside, fun index given => ?_, fun index given => ?_⟩,
        ⟨sound.hdr, sound.next.subtypes, ?_⟩, ?_⟩
      · cases given
      · cases given
        rw [more]
        exact Nat.lt_succ_self _
      · intro template member
        rcases List.mem_append.mp member with before | last
        · exact sound.templates template before
        · rw [List.mem_singleton.mp last]
          exact Nat.zero_le _
      · rw [more]
        exact Nat.le_succ _
    · exact buildProtoTagNode_meets isImplicit stateIndex projectionEnabled sound word inside

/-! ## All states -/

theorem splitNextNode_meets {nextRaw numStates : Nat} :
    Meets Fault.Returned (splitNextNode nextRaw numStates) fun split => split.2 < numStates := by
  unfold splitNextNode
  refine .ite (fun _ => ?_) fun small => Nat.not_le.mp small
  exact .ite (fun _ => malformed_meets _) fun inside => Nat.not_le.mp inside

theorem buildNodesLoop_meets {parsed : ParsedHeader} (sound : parsed.Sound)
    (projectionEnabled : Bool) (left : Nat) :
    ∀ {index : Nat} {state : BuildState}, index + left = parsed.numStates →
      state.Sound parsed.subtypesBytes (parsed.tags.drop index) →
      Meets Fault.Returned (buildNodesLoop parsed projectionEnabled left index state) fun built =>
        built.1.length = left ∧
        (∀ node ∈ built.1,
          node.Sound parsed.numStates parsed.numBuffers built.2.nodeTemplates.length) ∧
        built.2.Sound parsed.subtypesBytes [] ∧
        state.nodeTemplates.length ≤ built.2.nodeTemplates.length := by
  induction left with
  | zero =>
      intro index state last stateSound
      have none : parsed.tags.drop index = [] :=
        List.drop_eq_nil_of_le (by rw [sound.tags]; omega)
      rw [none] at stateSound
      exact ⟨rfl, fun _ member => absurd member List.not_mem_nil, stateSound, Nat.le_refl _⟩
  | succ left ih =>
      intro index state total stateSound
      have tags := sound.tags
      have nextNodes := sound.nextNodes
      unfold buildNodesLoop
      refine .bind (indexAt_meets (by omega)) fun rawTag found => ?_
      refine .bind (indexAt_meets (by omega)) fun nextRaw _ => ?_
      refine .bind splitNextNode_meets fun next inside => ?_
      obtain ⟨within, same⟩ := List.getElem?_eq_some_iff.mp found
      rw [List.drop_eq_getElem_cons within, same] at stateSound
      refine .bind (buildSingleNode_meets next.1 index projectionEnabled stateSound
        (sound.words rawTag (List.mem_of_getElem? found)) inside) fun first firstBuilt => ?_
      obtain ⟨nodeSound, firstSound, grown⟩ := firstBuilt
      refine .bind (ih (by omega) firstSound) fun rest restBuilt => ?_
      obtain ⟨length, nodes, lastSound, further⟩ := restBuilt
      exact ⟨congrArg Nat.succ length,
        List.forall_mem_cons.mpr ⟨nodeSound.mono further, nodes⟩, lastSound, grown.trans further⟩

theorem containsImplicitLoop_meets (nodes : List StateMachineNode) :
    Meets Fault.Returned (containsImplicitLoop nodes) fun _ => True := by
  by_cases cycle : ImplicitCycle nodes
  · rw [containsImplicitLoop_iff.1.mpr cycle]
    exact trivial
  · rw [containsImplicitLoop_iff.2.mpr cycle]
    exact trivial

/-- Whatever the states of a header are, the nodes built from them refer to what
is there, and no implicit transitions go round. -/
theorem buildStateMachineNodes_meets {parsed : ParsedHeader} (sound : parsed.Sound)
    (projectionEnabled : Bool) :
    Meets Fault.Returned (buildStateMachineNodes parsed projectionEnabled)
      (BuiltStateMachine.Sound parsed.numBuffers) := by
  have start : BuildState.Sound parsed.subtypesBytes (parsed.tags.drop 0)
      { hdr := parsed.hdr, subtypeIdx := 0, hasNonprotoOp := false, nodeTemplates := [] } := by
    refine ⟨sound.hdr, ?_, fun _ member => absurd member List.not_mem_nil⟩
    rw [List.drop_zero, sound.subtypes, Nat.zero_add]
  unfold buildStateMachineNodes
  refine .bind (buildNodesLoop_meets sound projectionEnabled parsed.numStates (Nat.zero_add _) start)
    fun built all => ?_
  obtain ⟨length, nodes, last, _⟩ := all
  refine .bind (BufferCursor.readVarint32_meets last.hdr) fun first _ => ?_
  refine .ite (fun _ => malformed_meets _) fun small => ?_
  refine .bind (containsImplicitLoop_meets _).named fun looping checked => ?_
  refine .ite (fun _ => malformed_meets _) fun loopless => ?_
  refine .ite (fun _ => malformed_meets _) fun _ => ?_
  have total : (built.1 ++ failureNodes).length = parsed.numStates + 255 := by
    rw [List.length_append, length, show failureNodes.length = 255 from List.length_replicate]
  refine ⟨fun node member => ?_, last.templates, ?_, ?_⟩
  · change node.Sound (built.1 ++ failureNodes).length _ _
    rw [total]
    rcases List.mem_append.mp member with listed | sentinel
    · have known := nodes node listed
      exact ⟨known.sized, Nat.lt_add_right 255 known.next, known.buffer, known.template⟩
    · obtain rfl := List.eq_of_mem_replicate sentinel
      exact plainNode_sound _ _ _ (by omega)
  · change first.1 < (built.1 ++ failureNodes).length
    omega
  · rw [Bool.not_eq_true] at loopless
    rw [← loopless]
    exact checked.1

end Riegeli
