/-
Module: Riegeli.Proofs.DecoderSafety
Purpose: The transposed decoder is safe on every chunk: it neither panics nor
  loops without end, and what it decodes has the counts and the size that the
  header claims.
Trusted boundary: the codecs
Main exports: executeNodeAction_meets, runLoop_meets, finalizeRecords_meets,
  newWithProjection_meets, transposed_decoder_safe
-/
import Riegeli.Proofs.DecoderNodes

namespace Riegeli

variable {ext : Externals} {Item : Type} {context : DecodeContext} {numBuffers size : Nat}
  {state : DecodeState} {node : StateMachineNode}

/-! ## Inclusion -/

theorem walkFrames_meets {nodes : List StateMachineNode} (includeMap : IncludeFieldMap)
    (frames : List SubmessageFrame) :
    ∀ (currentParentId : Nat), (∀ frame ∈ frames, frame.nodeIndex < nodes.length) →
      Meets Fault.Returned (walkFrames nodes includeMap frames currentParentId) fun _ => True := by
  induction frames with
  | nil => exact fun _ _ => trivial
  | cons frame rest ih =>
      intro currentParentId inside
      obtain ⟨here, later⟩ := List.forall_mem_cons.mp inside
      unfold walkFrames
      refine .bind (indexAt_meets here) fun frameNode _ => ?_
      refine .ite (fun _ => trivial) fun _ => ?_
      split
      · exact malformed_meets _
      · split
        · exact trivial
        · exact .ite (fun _ => trivial) fun _ => ih _ later

theorem callbackForFieldIncluded_meets (included : FieldIncluded) (tag subtype : Nat) :
    Meets Fault.Returned (callbackForFieldIncluded included tag subtype) fun _ => True := by
  unfold callbackForFieldIncluded
  simp only
  split
  · split
    · exact trivial
    · exact trivial
    · exact callbackForWireType_meets _ _
  · split
    · exact trivial
    · exact trivial
    · exact trivial
    · exact .ite (fun _ => trivial) fun _ => .ite (fun _ => trivial) fun _ => malformed_meets _
    · exact trivial
    · exact trivial
    · exact malformed_meets _
  · refine .ite (fun _ => trivial) fun _ => .ite (fun _ => trivial) fun _ => ?_
    exact .ite (fun _ => trivial) fun _ => trivial

theorem resolveInclusion_meets {nodes : List StateMachineNode} (includeMap : IncludeFieldMap)
    {submessageStack : List SubmessageFrame} (skippedSubmessageLevel : Int) (tag : Nat)
    (inside : ∀ frame ∈ submessageStack, frame.nodeIndex < nodes.length) :
    Meets Fault.Returned
      (resolveInclusion nodes includeMap submessageStack skippedSubmessageLevel tag)
      fun _ => True := by
  unfold resolveInclusion
  refine .ite (fun _ => ?_) fun _ => trivial
  refine .bind (walkFrames_meets includeMap _ _ fun frame member => inside frame ?_) fun _ _ => trivial
  have listed := List.mem_reverse.mp member
  split at listed
  · exact List.mem_of_mem_tail listed
  · exact listed

theorem effectiveCallback_meets (sound : context.Sound numBuffers) (listed : node ∈ context.nodes)
    (stateSound : state.Sound context.nodes.length numBuffers size) :
    Meets Fault.Returned (effectiveCallback context node state) fun _ => True := by
  have template := (sound.nodes node listed).template
  unfold effectiveCallback
  refine .ite (fun _ => ?_) fun _ => trivial
  split
  · unfold resolveSelectCallback
    split
    · exact malformed_meets _
    · rename_i index given
      refine .bind (indexAt_meets (template index given)) fun template _ => ?_
      refine .ite (fun _ => .ite (fun _ => trivial) fun _ => trivial) fun _ => ?_
      refine .bind (resolveInclusion_meets _ _ _ stateSound.frames) fun included _ => ?_
      exact callbackForFieldIncluded_meets included template.tag template.subtype
  · split
    · exact malformed_meets _
    · rename_i index given
      refine .bind (indexAt_meets (template index given)) fun template _ => ?_
      exact .ite (fun _ => trivial) fun _ => callbackForWireType_meets _ _

/-! ## Writers -/

theorem readBuffer_meets {buffers : List BufferCursor} {index : Nat}
    {read : BufferCursor → Rust (Item × BufferCursor)} (there : index < buffers.length)
    (inside : ∀ buffer ∈ buffers, buffer.Inside)
    (each : ∀ {cursor : BufferCursor}, cursor.Inside →
      Meets Fault.Returned (read cursor) fun out => out.2.Inside) :
    Meets Fault.Returned (readBuffer buffers index read) fun out =>
      out.2.length = buffers.length ∧ ∀ buffer ∈ out.2, buffer.Inside := by
  unfold readBuffer
  refine .bind (indexAt_meets there) fun cursor found => ?_
  refine .bind (each (inside cursor (List.mem_of_getElem? found))) fun out insideOut => ?_
  refine .bind (setAt_meets there out.2) fun updated set => ?_
  subst set
  refine ⟨List.length_set, fun buffer member => ?_⟩
  rcases List.mem_or_eq_of_mem_set member with before | rfl
  · exact inside buffer before
  · exact insideOut

theorem readExact_inside (count : Nat) {cursor : BufferCursor} (inside : cursor.Inside) :
    Meets Fault.Returned (cursor.readExact count) fun out => out.2.Inside :=
  (BufferCursor.readExact_meets inside count).mono fun _ onward => onward.inside

theorem readString_meets {cursor : BufferCursor} (inside : cursor.Inside) :
    Meets Fault.Returned (readString cursor) fun out => out.2.Inside := by
  unfold readString
  refine .ite (fun _ => inside) fun _ => ?_
  refine .bind (BufferCursor.readVarint32_meets inside) fun length lengthRead => ?_
  refine .bind (BufferCursor.readExact_meets lengthRead.2.inside length.1) fun payload read => ?_
  refine .bind (sliceRange_meets (lengthRead.2.ahead.trans read.ahead) read.inside) fun _ _ => ?_
  exact read.inside

theorem nodeTagBytes_meets (sized : node.tagDataSize ≤ node.tagData.length) :
    Meets Fault.Returned (nodeTagBytes node) fun _ => True :=
  (sliceRange_meets (Nat.zero_le _) sized).mono fun _ _ => trivial

theorem write_meets {dest : Decoder.BackwardBuffer} (room : dest.data.length ≤ dest.limit)
    (bytes : Bytes) :
    Meets Fault.Returned (dest.write bytes) fun written =>
      written.limit = dest.limit ∧ written.data.length ≤ dest.limit ∧ dest.pos ≤ written.pos := by
  unfold Decoder.BackwardBuffer.write
  refine .bind (subWord_meets room) fun left same => ?_
  subst same
  refine .ite (fun _ => malformed_meets _) fun fits => ?_
  refine ⟨rfl, ?_, ?_⟩
  · rw [List.length_append, List.length_reverse]
    omega
  · unfold Decoder.BackwardBuffer.pos
    rw [List.length_append]
    exact Nat.le_add_right _ _

/-- What is written fits, and what was there stays. -/
theorem writeDest_meets {numNodes : Nat} (sound : state.Sound numNodes numBuffers size)
    (bytes : Bytes) :
    Meets Fault.Returned (writeDest state bytes) (DecodeState.Sound numNodes numBuffers size) := by
  have room := sound.room
  rw [← sound.limit] at room
  unfold writeDest
  refine .bind (write_meets room bytes) fun dest written => ?_
  obtain ⟨limit, fits, ahead⟩ := written
  rw [sound.limit] at limit fits
  exact ⟨limit, fits, sound.buffers, sound.inside, sound.frames,
    fun limit member => (sound.limits limit member).trans ahead⟩

theorem writeTag_meets {numNodes : Nat} (sized : node.tagDataSize ≤ node.tagData.length)
    (sound : state.Sound numNodes numBuffers size) :
    Meets Fault.Returned (writeTag node state) (DecodeState.Sound numNodes numBuffers size) :=
  .bind (nodeTagBytes_meets sized) fun tagBytes _ => writeDest_meets sound tagBytes

theorem pushLimit_meets {numNodes : Nat} (sound : state.Sound numNodes numBuffers size) :
    Meets Fault.Returned (pushLimit context state)
      (DecodeState.Sound numNodes numBuffers size) := by
  unfold pushLimit
  refine .ite (fun _ => malformed_meets _) fun _ => ?_
  refine ⟨sound.limit, sound.room, sound.buffers, sound.inside, sound.frames, ?_⟩
  intro limit member
  rcases List.mem_append.mp member with before | last
  · exact sound.limits limit before
  · exact Nat.le_of_eq (List.mem_singleton.mp last)

theorem pushFrame_sound {numNodes nodeIndex : Nat} (inside : nodeIndex < numNodes)
    (sound : state.Sound numNodes numBuffers size) :
    (pushFrame nodeIndex state).Sound numNodes numBuffers size :=
  ⟨sound.limit, sound.room, sound.buffers, sound.inside,
    List.forall_mem_cons.mpr ⟨inside, sound.frames⟩, sound.limits⟩

theorem DecodeState.Sound.withBuffers {numNodes : Nat} {buffers : List BufferCursor}
    (sound : state.Sound numNodes numBuffers size) (length : buffers.length = numBuffers)
    (inside : ∀ buffer ∈ buffers, buffer.Inside) :
    { state with buffers := buffers }.Sound numNodes numBuffers size :=
  ⟨sound.limit, sound.room, length, inside, sound.frames, sound.limits⟩

theorem DecodeState.Sound.pop {numNodes : Nat} {frame : SubmessageFrame}
    {rest : List SubmessageFrame} (sound : state.Sound numNodes numBuffers size)
    (stack : state.submessageStack = frame :: rest) :
    frame.nodeIndex < numNodes ∧
      { state with submessageStack := rest }.Sound numNodes numBuffers size := by
  have frames := sound.frames
  rw [stack] at frames
  obtain ⟨here, later⟩ := List.forall_mem_cons.mp frames
  exact ⟨here, sound.limit, sound.room, sound.buffers, sound.inside, later, sound.limits⟩

theorem writeSubmessageHeader_meets (sound : context.Sound numBuffers)
    (stateSound : state.Sound context.nodes.length numBuffers size) :
    Meets Fault.Returned (writeSubmessageHeader context state)
      (DecodeState.Sound context.nodes.length numBuffers size) := by
  unfold writeSubmessageHeader
  split
  · exact malformed_meets _
  · rename_i frame rest stack
    obtain ⟨inside, popped⟩ := stateSound.pop stack
    refine .ite (fun _ => malformed_meets _) fun _ => ?_
    refine .ite (fun _ => malformed_meets _) fun _ => ?_
    refine .bind (indexAt_meets inside) fun submessageNode found => ?_
    have sized := (sound.nodes submessageNode (List.mem_of_getElem? found)).sized
    exact .bind (nodeTagBytes_meets sized) fun tagBytes _ => writeDest_meets popped _

/-- A read from a buffer of the state, with what is written after it. -/
theorem readThenWrite_meets {numNodes index : Nat} {read : BufferCursor → Rust (Bytes × BufferCursor)}
    (there : index < numBuffers) (sized : node.tagDataSize ≤ node.tagData.length)
    (sound : state.Sound numNodes numBuffers size)
    (each : ∀ {cursor : BufferCursor}, cursor.Inside →
      Meets Fault.Returned (read cursor) fun out => out.2.Inside)
    (value : Bytes → Bytes) :
    Meets Fault.Returned
      (readBuffer state.buffers index read >>= fun out =>
        nodeTagBytes node >>= fun tagBytes =>
          writeDest { state with buffers := out.2 } (tagBytes ++ value out.1))
      (DecodeState.Sound numNodes numBuffers size) := by
  refine .bind (readBuffer_meets (by rw [sound.buffers]; exact there) sound.inside each)
    fun out kept => ?_
  refine .bind (nodeTagBytes_meets sized) fun tagBytes _ => ?_
  exact writeDest_meets (sound.withBuffers (kept.1.trans sound.buffers) kept.2) _

theorem writeVarintField_meets {numNodes numTemplates : Nat}
    (nodeSound : node.Sound numNodes numBuffers numTemplates)
    (sound : state.Sound numNodes numBuffers size) (dataLength : Nat) :
    Meets Fault.Returned (writeVarintField node dataLength state)
      (DecodeState.Sound numNodes numBuffers size) := by
  unfold writeVarintField
  split
  · exact malformed_meets _
  · rename_i index given
    exact readThenWrite_meets (nodeSound.buffer index given) nodeSound.sized sound
      (readExact_inside dataLength) restoreHighBits

theorem writeFixedField_meets {numNodes numTemplates : Nat}
    (nodeSound : node.Sound numNodes numBuffers numTemplates)
    (sound : state.Sound numNodes numBuffers size) (count : Nat) :
    Meets Fault.Returned (writeFixedField node count state)
      (DecodeState.Sound numNodes numBuffers size) := by
  unfold writeFixedField
  split
  · exact malformed_meets _
  · rename_i index given
    exact readThenWrite_meets (nodeSound.buffer index given) nodeSound.sized sound
      (readExact_inside count) id

theorem writeStringField_meets {numNodes numTemplates : Nat}
    (nodeSound : node.Sound numNodes numBuffers numTemplates)
    (sound : state.Sound numNodes numBuffers size) :
    Meets Fault.Returned (writeStringField node state)
      (DecodeState.Sound numNodes numBuffers size) := by
  unfold writeStringField
  split
  · exact malformed_meets _
  · rename_i index given
    exact readThenWrite_meets (nodeSound.buffer index given) nodeSound.sized sound
      readString_meets id

theorem writeNonprotoRecord_meets (sound : context.Sound numBuffers)
    {numNodes numTemplates : Nat} (nodeSound : node.Sound numNodes numBuffers numTemplates)
    (stateSound : state.Sound numNodes numBuffers size) :
    Meets Fault.Returned (writeNonprotoRecord context node state)
      (DecodeState.Sound numNodes numBuffers size) := by
  have lengths {cursor : BufferCursor} (inside : cursor.Inside) :
      Meets Fault.Returned cursor.readVarint32 fun out => out.2.Inside :=
    (BufferCursor.readVarint32_meets inside).mono fun _ read => read.2.inside
  unfold writeNonprotoRecord
  split
  · exact malformed_meets _
  · rename_i lengthsIndex given
    refine .bind (readBuffer_meets
      (by rw [stateSound.buffers]; exact sound.lengths lengthsIndex given) stateSound.inside lengths)
      fun read lengthRead => ?_
    obtain ⟨length, buffers⟩ := read
    dsimp only
    split
    · exact malformed_meets _
    · rename_i dataIndex stored
      refine .bind (readBuffer_meets
        (by rw [lengthRead.1, stateSound.buffers]; exact nodeSound.buffer dataIndex stored)
        lengthRead.2 (readExact_inside length)) fun record recordRead => ?_
      have kept := stateSound.withBuffers
        (recordRead.1.trans (lengthRead.1.trans stateSound.buffers)) recordRead.2
      refine .bind (writeDest_meets kept record.1) fun after afterSound => ?_
      exact .ite (fun _ => malformed_meets _) fun _ => pushLimit_meets afterSound

theorem zeroValue_length (wireType : Option WireType) : (zeroValue wireType).length ≤ 8 := by
  cases wireType with
  | none => decide
  | some wireType => cases wireType <;> decide

theorem existenceOnlyTag_meets (sound : context.Sound numBuffers) (listed : node ∈ context.nodes) :
    Meets Fault.Returned (existenceOnlyTag context node) fun tagOf =>
      ∀ tag, tagOf = some tag → tag.2 ≤ 5 := by
  unfold existenceOnlyTag
  split
  · rename_i index given
    refine .bind (indexAt_meets ((sound.nodes node listed).template index given))
      fun template found tag same => ?_
    cases same
    exact sound.templates template (List.mem_of_getElem? found)
  · refine .ite (fun _ tag same => by cases same) fun _ => ?_
    split
    · exact malformed_meets _
    · rename_i value consumed decoded
      intro tag same
      cases same
      exact encodeU32_length_le (decodeU32_fits decoded).1

/-- The tag and the zero of a field fit into thirteen bytes. -/
theorem writeExistenceOnlyField_meets (sound : context.Sound numBuffers)
    (listed : node ∈ context.nodes) {numNodes : Nat}
    (stateSound : state.Sound numNodes numBuffers size) :
    Meets Fault.Returned (writeExistenceOnlyField context node state)
      (DecodeState.Sound numNodes numBuffers size) := by
  unfold writeExistenceOnlyField
  refine .bind (existenceOnlyTag_meets sound listed) fun tagOf short => ?_
  cases tagOf with
  | none => exact stateSound
  | some tag =>
      have few := short tag rfl
      have zero := zeroValue_length (tagWireType tag.1)
      refine .ite (fun long => absurd long (Nat.not_lt.mpr ?_)) fun _ => writeDest_meets stateSound _
      rw [List.length_append, List.length_take]
      omega

theorem startProjectionGroup_meets
    (sized : node.tagDataSize ≤ node.tagData.length)
    (stateSound : state.Sound context.nodes.length numBuffers size) :
    Meets Fault.Returned (startProjectionGroup context node state)
      (DecodeState.Sound context.nodes.length numBuffers size) := by
  unfold startProjectionGroup
  split
  · exact malformed_meets _
  · rename_i frame rest stack
    obtain ⟨inside, popped⟩ := stateSound.pop stack
    have checked : Meets Fault.Returned (checkGroupFrame context frame) fun _ => True := by
      unfold checkGroupFrame
      refine .bind (indexAt_meets inside) fun frameNode _ => ?_
      exact .ite (fun _ => trivial) fun _ => malformed_meets _
    exact .bind checked fun _ _ => writeTag_meets sized popped

/-- Every action of a node keeps what holds of the state. -/
theorem executeNodeAction_meets (sound : context.Sound numBuffers) (listed : node ∈ context.nodes)
    {nodeIndex : Nat} (inside : nodeIndex < context.nodes.length)
    (stateSound : state.Sound context.nodes.length numBuffers size) :
    Meets Fault.Returned (executeNodeAction context node nodeIndex state)
      (DecodeState.Sound context.nodes.length numBuffers size) := by
  have nodeSound := sound.nodes node listed
  unfold executeNodeAction
  refine .bind (effectiveCallback_meets sound listed stateSound) fun callback _ => ?_
  cases callback with
  | noOp => exact stateSound
  | messageStart => exact .ite (fun _ => malformed_meets _) fun _ => pushLimit_meets stateSound
  | submessageStart => exact writeSubmessageHeader_meets sound stateSound
  | submessageEnd => exact pushFrame_sound inside stateSound
  | nonProto => exact writeNonprotoRecord_meets sound nodeSound stateSound
  | copyTag => exact writeTag_meets nodeSound.sized stateSound
  | varint dataLength => exact writeVarintField_meets nodeSound stateSound dataLength
  | fixed32 => exact writeFixedField_meets nodeSound stateSound 4
  | fixed64 => exact writeFixedField_meets nodeSound stateSound 8
  | stringField => exact writeStringField_meets nodeSound stateSound
  | existenceOnly => exact writeExistenceOnlyField_meets sound listed stateSound
  | failure => exact malformed_meets _
  | selectCallback => exact malformed_meets _
  | skippedSubmessageEnd =>
      exact ⟨stateSound.limit, stateSound.room, stateSound.buffers, stateSound.inside,
        stateSound.frames, stateSound.limits⟩
  | endProjectionGroup => exact writeTag_meets nodeSound.sized (pushFrame_sound inside stateSound)
  | startProjectionGroup => exact startProjectionGroup_meets nodeSound.sized stateSound
  | skippedSubmessageStart =>
      refine .ite (fun _ => malformed_meets _) fun _ => ?_
      exact ⟨stateSound.limit, stateSound.room, stateSound.buffers, stateSound.inside,
        stateSound.frames, stateSound.limits⟩

/-! ## The state machine -/

theorem advanceStateMachine_meets (sound : context.Sound numBuffers) {current numIters : Nat}
    {transitions : BufferCursor} (there : current < context.nodes.length)
    (inside : transitions.Inside) :
    Meets Fault.Returned (advanceStateMachine context.nodes current numIters transitions)
      fun advanced => ∀ next, advanced = some next → next.2.2.Inside := by
  unfold advanceStateMachine
  refine .bind (indexAt_meets there) fun node found => ?_
  refine .ite (fun _ => ?_) fun more => ?_
  · refine .ite (fun _ next given => by cases given) fun _ => ?_
    refine .bind (BufferCursor.readByte_meets inside) fun byte read => ?_
    refine .ite (fun _ => malformed_meets _) fun small => ?_
    refine .bind (indexAt_meets (Nat.not_le.mp small)) fun target _ next given => ?_
    cases given
    exact read.inside
  · refine .bind (indexAt_meets (sound.nodes node (List.mem_of_getElem? found)).next)
      fun target _ => ?_
    refine .bind (subWord_meets (by omega)) fun iters _ next given => ?_
    cases given
    exact inside

/-- A pass that is bounded is one of the passes left. -/
theorem Bounded.lt {nodes : List StateMachineNode} {bound count : Nat} {here : LoopState}
    (bounded : Bounded nodes bound count here) : count < bound := by
  obtain ⟨_, node, run, found, length, _, fits⟩ := bounded
  have positive : 0 < run := by
    cases length with
    | outside none => rw [none] at found; cases found
    | explicit _ _ => exact Nat.one_pos
    | implicit _ _ _ => exact Nat.succ_pos _
  omega

/-- Passes that are bounded end, and each of them keeps what holds of the state. -/
theorem runLoop_meets (sound : context.Sound numBuffers)
    (settles : ∀ index, Settles context.nodes index) :
    ∀ {fuel count : Nat} {here : LoopState}, Bounded context.nodes (count + fuel) count here →
      here.transitions.Inside → here.state.Sound context.nodes.length numBuffers size →
      Meets Fault.Returned
        (runLoop context fuel here.current here.numIters here.transitions here.state)
        (DecodeState.Sound context.nodes.length numBuffers size) := by
  intro fuel
  induction fuel with
  | zero => exact fun bounded => absurd bounded.lt (Nat.lt_irrefl _)
  | succ fuel ih =>
      intro count here bounded inside stateSound
      have there : here.current < context.nodes.length := by
        obtain ⟨_, node, _, found, _⟩ := bounded
        exact (List.getElem?_eq_some_iff.mp found).1
      rw [runLoop]
      refine .bind (indexAt_meets there) fun current read => ?_
      refine .bind (executeNodeAction_meets sound (List.mem_of_getElem? read) there stateSound)
        fun after afterSound => ?_
      refine .bind (advanceStateMachine_meets sound there inside).named fun advanced moved => ?_
      obtain ⟨moves, insideNext⟩ := moved
      cases advanced with
      | none => exact afterSound
      | some next =>
          have kept : Bounded context.nodes (count + (fuel + 1)) (count + 1)
              ⟨next.1, next.2.1, next.2.2, after⟩ := bounded.pass settles moves
          rw [show count + (fuel + 1) = count + 1 + fuel by omega] at kept
          exact ih kept (insideNext next rfl) afterSound

/-- The state machine ends with the records counted and the size kept. -/
theorem runStateMachine_meets (sound : context.Sound numBuffers)
    (loopless : containsImplicitLoop context.nodes = .ok false) {buffers : List BufferCursor}
    (length : buffers.length = numBuffers) (inside : ∀ buffer ∈ buffers, buffer.Inside)
    (bytes : Bytes) {firstNode : Nat} (there : firstNode < context.nodes.length) :
    Meets Fault.Returned
      (runStateMachine context size buffers (BufferCursor.new bytes) firstNode) fun out =>
        out.2.length = context.numRecords ∧ out.1.pos ≤ size ∧
          ∀ limit ∈ out.2, limit ≤ out.1.pos := by
  have settles := settles_of_loopless loopless
  unfold runStateMachine
  refine .bind (indexAt_meets there) fun first found => ?_
  have start : DecodeState.Sound context.nodes.length numBuffers size
      { dest := Decoder.BackwardBuffer.new size
        buffers := buffers
        submessageStack := []
        limits := []
        skippedSubmessageLevel := 0 } :=
    ⟨rfl, Nat.zero_le _, length, inside, fun _ member => absurd member List.not_mem_nil,
      fun _ member => absurd member List.not_mem_nil⟩
  have bounded := @bounded_first _ _ _ bytes settles found
    { dest := Decoder.BackwardBuffer.new size
      buffers := buffers
      submessageStack := []
      limits := []
      skippedSubmessageLevel := 0 }
  rw [← Nat.zero_add ((1 + 4 * bytes.length) * _)] at bounded
  refine .bind (runLoop_meets sound settles bounded (Nat.zero_le _) start) fun state final => ?_
  refine .ite (fun _ => malformed_meets _) fun _ => ?_
  refine .ite (fun _ => malformed_meets _) fun _ => ?_
  refine .ite (fun _ => malformed_meets _) fun counted => ?_
  exact ⟨Classical.not_not.mp counted, final.room, final.limits⟩

/-! ## Record boundaries -/

theorem set_le {limits : List Nat} {index value : Nat} (bounded : ∀ limit ∈ limits, limit ≤ size)
    (small : value ≤ size) : ∀ limit ∈ limits.set index value, limit ≤ size := by
  intro limit member
  rcases List.mem_or_eq_of_mem_set member with before | rfl
  · exact bounded limit before
  · exact small

/-- Limits inside the data are complemented from both ends, all but the last. -/
theorem complementLoop_meets (fuel : Nat) :
    ∀ {first last : Nat} {limits : List Nat}, last - first < fuel → last < limits.length →
      (∀ limit ∈ limits, limit ≤ size) →
      Meets Fault.Returned (complementLoop size fuel first last limits) fun flipped =>
        ∀ index, last ≤ index → flipped[index]? = limits[index]? := by
  induction fuel with
  | zero => exact fun enough => absurd enough (Nat.not_lt_zero _)
  | succ fuel ih =>
      intro first last limits enough within bounded
      unfold complementLoop
      refine .ite (fun more => ?_) fun _ _ _ => rfl
      refine .bind (indexAt_meets (by omega)) fun low foundLow => ?_
      refine .bind (indexAt_meets (by omega)) fun high foundHigh => ?_
      refine .bind (subWord_meets (bounded low (List.mem_of_getElem? foundLow))) fun tmp sameLow => ?_
      refine .bind (subWord_meets (bounded high (List.mem_of_getElem? foundHigh)))
        fun flipped sameHigh => ?_
      refine .bind (setAt_meets (by omega) flipped) fun once setOnce => ?_
      subst setOnce
      refine .bind (setAt_meets (by rw [List.length_set]; omega) tmp) fun twice setTwice => ?_
      subst setTwice
      have inside : last - 1 < ((limits.set first flipped).set (last - 1) tmp).length := by
        rw [List.length_set, List.length_set]
        omega
      refine (ih (by omega) inside (set_le (set_le bounded (by omega)) (by omega))).mono
        fun final same index ahead => ?_
      rw [same index (by omega), List.getElem?_set_ne (by omega), List.getElem?_set_ne (by omega)]

theorem complementLimits_meets {limits : List Nat} (bounded : ∀ limit ∈ limits, limit ≤ size) :
    Meets Fault.Returned (complementLimits size limits) fun flipped =>
      flipped.getLastD 0 = limits.getLastD 0 := by
  unfold complementLimits
  refine .ite (fun _ => rfl) fun some => ?_
  refine (complementLoop_meets (limits.length + 1) (by omega) (by omega) bounded).named.mono
    fun flipped out => ?_
  obtain ⟨ran, same⟩ := out
  rw [List.getLastD_eq_getLast?, List.getLastD_eq_getLast?, List.getLast?_eq_getElem?,
    List.getLast?_eq_getElem?, complementLoop_length _ _ ran, same _ (Nat.le_refl _)]

/-- The last boundary is the end of the data. -/
theorem finalizeRecords_meets {dest : Decoder.BackwardBuffer} {limits : List Nat}
    (bounded : ∀ limit ∈ limits, limit ≤ dest.pos) :
    Meets Fault.Returned (finalizeRecords dest limits) fun out =>
      out.1.length = dest.pos ∧ out.2.getLastD 0 = dest.pos := by
  unfold finalizeRecords
  simp only
  refine .ite (fun _ => malformed_meets _) fun last => ?_
  refine .bind (complementLimits_meets bounded) fun flipped same => ?_
  refine .ite (fun _ => malformed_meets _) fun _ => ?_
  refine ⟨List.length_reverse, same.trans (Classical.not_not.mp last)⟩

/-- What is decoded has the claimed size, or at most that under a projection. -/
theorem decodeAllRecords_meets (sound : context.Sound numBuffers)
    (loopless : containsImplicitLoop context.nodes = .ok false) {buffers : List BufferCursor}
    (length : buffers.length = numBuffers) (inside : ∀ buffer ∈ buffers, buffer.Inside)
    (bytes : Bytes) {firstNode : Nat} (there : firstNode < context.nodes.length) :
    Meets Fault.Returned
      (decodeAllRecords context size buffers (BufferCursor.new bytes) firstNode) fun out =>
        out.1.length ≤ size ∧ (context.includeMap = none → out.1.length = size) ∧
          out.2.getLastD 0 = out.1.length := by
  unfold decodeAllRecords
  refine .bind (runStateMachine_meets sound loopless length inside bytes there) fun run ended => ?_
  obtain ⟨_, fits, bounded⟩ := ended
  refine .ite (fun _ => malformed_meets _) fun differs => ?_
  refine (finalizeRecords_meets bounded).mono fun out final => ?_
  refine ⟨final.1.trans_le fits, fun whole => ?_, final.2.trans final.1.symm⟩
  rw [final.1]
  refine Classical.not_not.mp fun other => differs ⟨?_, other⟩
  rw [whole]
  rfl

/-! ## The decoder -/

theorem le_getLastD {total : Nat} (limits : List Nat) :
    ∀ prev, boundariesOrdered total prev limits = true → prev ≤ limits.getLastD prev := by
  induction limits with
  | nil => exact fun _ _ => Nat.le_refl _
  | cons stop rest ih =>
      intro prev ordered
      rw [boundariesOrdered] at ordered
      split at ordered
      · cases ordered
      · rename_i inside
        rw [List.getLastD_cons]
        exact (by omega : prev ≤ stop).trans (ih stop ordered)

/-- The slices up to the last boundary hold all the bytes before it. -/
theorem flatten_slicesBetween (data : Bytes) (limits : List Nat) :
    ∀ prev, boundariesOrdered data.length prev limits = true →
      (slicesBetween data prev limits).flatten.length = limits.getLastD prev - prev := by
  induction limits with
  | nil => exact fun prev _ => (Nat.sub_self prev).symm
  | cons stop rest ih =>
      intro prev ordered
      rw [boundariesOrdered] at ordered
      split at ordered
      · cases ordered
      · rename_i inside
        have last := le_getLastD rest stop ordered
        rw [slicesBetween, List.flatten_cons, List.length_append, ih stop ordered, List.getLastD_cons,
          List.length_take, List.length_drop]
        omega

/-- The decoder hands over as many records as the header claims, with the claimed
size of all of them together, or at most that under a projection. -/
def DecodesAsClaimed (chunk : Chunk) (projection : Option FieldProjection)
    (decoder : TransposeChunkDecoder) : Prop :=
  ∃ records, (ActiveDecoder.transposed decoder).Yields records ∧
    records.length = chunk.header.numRecords ∧
    records.flatten.length ≤ chunk.header.decodedDataSize ∧
    (activeProjectionOf projection = none →
      records.flatten.length = chunk.header.decodedDataSize)

theorem nonprotoLengthsIndexOf_meets (hasNonprotoOp : Bool) (numBuffers : Nat) :
    Meets Fault.Returned (nonprotoLengthsIndexOf hasNonprotoOp numBuffers) fun found =>
      ∀ index, found = some index → index < numBuffers := by
  unfold nonprotoLengthsIndexOf
  refine .ite (fun _ => ?_) fun _ index given => by cases given
  refine .ite (fun _ => malformed_meets _) fun some index given => ?_
  cases given
  omega

theorem newWithProjection_meets (chunk : Chunk) (projection : Option FieldProjection) :
    Meets Fault.Returned (TransposeChunkDecoder.newWithProjection ext chunk projection)
      (DecodesAsClaimed chunk projection) := by
  unfold TransposeChunkDecoder.newWithProjection
  refine .bind (parseHeaderAndBuckets_meets chunk.data _) fun parsed parsedSound => ?_
  refine .bind (buildStateMachineNodes_meets parsedSound _) fun built builtSound => ?_
  refine .bind (nonprotoLengthsIndexOf_meets _ _) fun lengthsIndex lengths => ?_
  refine .bind (decompressWithPrefix_safe parsed.transitionsCompressed parsed.compression).meets
    fun transitionsData _ => ?_
  have sound : DecodeContext.Sound parsed.numBuffers
      { nodes := built.nodes
        numRecords := chunk.header.numRecords
        nonprotoLengthsIndex := lengthsIndex
        nodeTemplates := built.nodeTemplates
        includeMap := (activeProjectionOf projection).bind IncludeFieldMap.fromProjection } :=
    ⟨builtSound.nodes, builtSound.templates, lengths⟩
  refine .bind (decodeAllRecords_meets sound builtSound.loopless parsedSound.buffers
    parsedSound.inside transitionsData builtSound.first).named fun out decoded => ?_
  obtain ⟨ran, fits, whole, last⟩ := decoded
  obtain ⟨counted, ordered⟩ := decodeAllRecords_limits ran
  have total := flatten_slicesBetween out.1 out.2 0 ordered
  rw [last, Nat.sub_zero] at total
  refine ⟨_, transposed_yields out.1 out.2 [] ordered,
    (length_slicesBetween out.1 out.2 0).trans counted, total.trans_le fits, fun inactive => ?_⟩
  refine total.trans (whole ?_)
  change (activeProjectionOf projection).bind IncludeFieldMap.fromProjection = none
  rw [inactive]
  rfl

/-- Whatever bytes a transposed chunk holds and whatever its header claims, under
any projection the decoder returns an error or hands over exactly the records
claimed: no index leaves its list, no subtraction goes below zero, and the state
machine stops. -/
theorem transposed_decoder_safe (ext : Externals) (chunk : Chunk)
    (projection : Option FieldProjection) :
    Rust.Safe (TransposeChunkDecoder.newWithProjection ext chunk projection) ∧
      ∀ decoder, TransposeChunkDecoder.newWithProjection ext chunk projection = .ok decoder →
        DecodesAsClaimed chunk projection decoder :=
  have meets := newWithProjection_meets chunk projection
  ⟨meets.safe, fun _ opened => meets.of_ok opened⟩

end Riegeli
