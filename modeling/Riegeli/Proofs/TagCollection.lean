/-
Module: Riegeli.Proofs.TagCollection
Purpose: Taking a record apart succeeds, and the encoder then holds the tags
  that spell the record.
Trusted boundary: none
Main exports: pushEncodedTag_collected, pushChunk_collected,
  addMessageLoop_fields, addRecord_collected
-/
import Mathlib.Data.List.Forall2
import Riegeli.Proofs.FieldCopies
import Riegeli.Spec.CollectedTags
import Riegeli.Spec.FieldPaths

namespace Riegeli

namespace TransposeChunkEncoder

variable {encoder : TransposeChunkEncoder} {ops : List TagOp}

/-! ## Indices -/

/-- What a call does to the node map and the tags list, and to nothing else. -/
structure Registers (before after : TransposeChunkEncoder) (added : List EncodedTagInfo) : Prop where
  indexed : before.Indexed → after.Indexed
  tagsList : after.tagsList = before.tagsList ++ added
  encodedTags : after.encodedTags = before.encodedTags
  data : after.data = before.data
  nonprotoLengths : after.nonprotoLengths = before.nonprotoLengths
  settings : SameSettings before after
  ids : KeepsIds before after

/-- A node that is asked for has the id that the call returns. -/
theorem messageIdOf_getOrCreateNode (encoder : TransposeChunkEncoder) (nodeId : NodeId) :
    (encoder.getOrCreateNode nodeId).2.messageIdOf nodeId =
      some (encoder.getOrCreateNode nodeId).1 := by
  unfold getOrCreateNode
  cases found : encoder.messageNodes nodeId with
  | some node => exact congrArg (Option.map MessageNode.messageId) found
  | none => exact congrArg (Option.map MessageNode.messageId) (if_pos rfl)

theorem getOrCreateNode_keepsIds (encoder : TransposeChunkEncoder) (nodeId : NodeId) :
    KeepsIds encoder (encoder.getOrCreateNode nodeId).2 := by
  unfold getOrCreateNode
  cases found : encoder.messageNodes nodeId with
  | some node => exact KeepsIds.refl encoder
  | none =>
      have absent : encoder.messageIdOf nodeId = none := congrArg (Option.map _) found
      have ids (other : NodeId) : messageIdOf
          { encoder with
            nextMessageId := encoder.nextMessageId + 1
            messageNodes := fun id =>
              if id = nodeId then
                some { messageId := encoder.nextMessageId, encodedTagPos := fun _ => none }
              else encoder.messageNodes id } other =
          if other = nodeId then some encoder.nextMessageId else encoder.messageIdOf other := by
        unfold messageIdOf
        simp only
        split <;> rfl
      refine ⟨fun numbered => ⟨Nat.lt_succ_of_lt numbered.rooted, fun {other id} held => ?_,
        fun {first second id} held held' => ?_⟩, fun {other id} held => ?_⟩
      · rw [ids] at held
        by_cases own : other = nodeId
        · rw [if_pos own] at held
          cases held
          exact ⟨numbered.rooted, Nat.lt_succ_self _⟩
        · rw [if_neg own] at held
          exact (numbered.inside held).imp_right Nat.lt_succ_of_lt
      · rw [ids] at held held'
        -- the new id is above all others
        by_cases own : first = nodeId
        · by_cases own' : second = nodeId
          · rw [own, own']
          · rw [if_pos own] at held
            rw [if_neg own'] at held'
            cases held
            exact absurd (numbered.inside held').2 (Nat.lt_irrefl _)
        · rw [if_neg own] at held
          by_cases own' : second = nodeId
          · rw [if_pos own'] at held'
            cases held'
            exact absurd (numbered.inside held).2 (Nat.lt_irrefl _)
          · rw [if_neg own'] at held'
            exact numbered.once held held'
      · rw [ids, if_neg]
        · exact held
        · rintro rfl
          rw [absent] at held
          cases held

theorem getOrCreateNode_registers (encoder : TransposeChunkEncoder) (nodeId : NodeId) :
    Registers encoder (encoder.getOrCreateNode nodeId).2 [] ∧
      ∃ node, (encoder.getOrCreateNode nodeId).2.messageNodes nodeId = some node := by
  have keeps := getOrCreateNode_keepsIds encoder nodeId
  unfold getOrCreateNode at keeps ⊢
  cases found : encoder.messageNodes nodeId with
  | some node =>
      exact ⟨⟨id, (List.append_nil _).symm, rfl, rfl, rfl, SameSettings.refl encoder,
        KeepsIds.refl encoder⟩, node, found⟩
  | none =>
      simp only [found] at keeps
      refine ⟨⟨?_, (List.append_nil _).symm, rfl, rfl, rfl,
        ⟨rfl, rfl, rfl, rfl, rfl, List.prefix_rfl⟩, keeps⟩, _, if_pos rfl⟩
      intro indexed id node subtype pos mapped positioned
      change (if id = nodeId then _ else _) = _ at mapped
      by_cases same : id = nodeId
      · rw [if_pos same] at mapped
        cases mapped
        cases positioned
      · rw [if_neg same] at mapped
        exact indexed id node subtype pos mapped positioned

/-- Changing the indices of a node leaves its id. -/
theorem keepsIds_reindexed {nodeId : NodeId} {node : MessageNode}
    (mapped : encoder.messageNodes nodeId = some node) {tagsList : List EncodedTagInfo}
    {positions : Nat → Option Nat} :
    KeepsIds encoder
      { encoder with
        messageNodes := fun id =>
          if id = nodeId then some { node with encodedTagPos := positions }
          else encoder.messageNodes id
        tagsList := tagsList } := by
  have same (other : NodeId) : messageIdOf
      { encoder with
        messageNodes := fun id =>
          if id = nodeId then some { node with encodedTagPos := positions }
          else encoder.messageNodes id
        tagsList := tagsList } other = encoder.messageIdOf other := by
    unfold messageIdOf
    simp only
    split
    · rename_i own
      rw [own, mapped]
      rfl
    · rfl
  refine ⟨fun numbered => ⟨numbered.rooted, fun found => ?_, fun found found' => ?_⟩,
    fun found => ?_⟩
  · rw [same] at found
    exact numbered.inside found
  · rw [same] at found found'
    exact numbered.once found found'
  · rw [same]
    exact found

/-- The index leads to the entry asked for. -/
theorem getPosInTagsList_registers (encoder : TransposeChunkEncoder) (nodeId : NodeId)
    (subtype : Nat) :
    ∃ added, Registers encoder (encoder.getPosInTagsList nodeId subtype).2 added ∧
      (∀ info ∈ added, info = EncodedTagInfo.new nodeId subtype) ∧
      (encoder.Indexed →
        (encoder.getPosInTagsList nodeId subtype).2.tagsList[
            (encoder.getPosInTagsList nodeId subtype).1]? =
          some (EncodedTagInfo.new nodeId subtype)) := by
  obtain ⟨created, node, mapped⟩ := getOrCreateNode_registers encoder nodeId
  unfold getPosInTagsList
  simp only [mapped]
  cases positioned : node.encodedTagPos subtype with
  | some pos =>
      refine ⟨[], created, List.forall_mem_nil _, fun indexed => ?_⟩
      exact created.indexed indexed nodeId node subtype pos mapped positioned
  | none =>
      have same := created.tagsList
      rw [List.append_nil] at same
      refine ⟨[EncodedTagInfo.new nodeId subtype],
        ⟨?_, congrArg (· ++ [EncodedTagInfo.new nodeId subtype]) same, created.encodedTags,
          created.data, created.nonprotoLengths, created.settings.trans
            ⟨rfl, rfl, rfl, rfl, rfl, List.prefix_append _ _⟩,
          created.ids.trans (keepsIds_reindexed mapped)⟩, ?_, ?_⟩
      · intro indexed id other subtype' pos mapped' positioned'
        have inside {index : Nat} {info : EncodedTagInfo}
            (found : (encoder.getOrCreateNode nodeId).2.tagsList[index]? = some info) :
            ((encoder.getOrCreateNode nodeId).2.tagsList ++
              [EncodedTagInfo.new nodeId subtype])[index]? = some info := by
          rw [List.getElem?_append_left (List.getElem?_eq_some_iff.mp found).1, found]
        change (if id = nodeId then _ else _) = _ at mapped'
        by_cases own : id = nodeId
        · rw [if_pos own] at mapped'
          cases mapped'
          change (if subtype' = subtype then _ else _) = _ at positioned'
          by_cases asked : subtype' = subtype
          · rw [if_pos asked] at positioned'
            cases positioned'
            rw [own, asked]
            exact List.getElem?_concat_length
          · rw [if_neg asked] at positioned'
            rw [own]
            exact inside (created.indexed indexed nodeId node subtype' pos mapped positioned')
        · rw [if_neg own] at mapped'
          exact inside (created.indexed indexed id other subtype' pos mapped' positioned')
      · exact List.forall_mem_singleton.mpr rfl
      · exact fun _ => List.getElem?_concat_length

/-! ## Buffers -/

theorem chunksOf_append (nodeId : NodeId) (first second : List TagOp) :
    chunksOf nodeId (first ++ second) = chunksOf nodeId first ++ chunksOf nodeId second := by
  rw [chunksOf, List.filter_append, List.map_append]
  rfl

theorem chunksOf_skip {nodeId : NodeId} {op : TagOp}
    (apart : ¬ (op.nodeId = nodeId ∧ op.chunk ≠ [])) : chunksOf nodeId [op] = [] := by
  rw [chunksOf, List.filter_cons_of_neg (by simpa using apart)]
  rfl

theorem chunksOf_take {nodeId : NodeId} {op : TagOp} (own : op.nodeId = nodeId)
    (filled : op.chunk ≠ []) : chunksOf nodeId [op] = [op.chunk] := by
  rw [chunksOf, List.filter_cons_of_pos (by simpa using ⟨own, filled⟩)]
  rfl

theorem lengthsOf_append (first second : List TagOp) :
    lengthsOf (first ++ second) = lengthsOf first ++ lengthsOf second := by
  induction first with
  | nil => rfl
  | cons op first ih =>
      cases op with
      | nonProto record => exact congrArg (_ :: ·) ih
      | startOfMessage => exact ih
      | leaf parent field => exact ih
      | startOfSubmessage parent number => exact ih
      | endOfSubmessage parent number => exact ih
      | startGroup parent number => exact ih
      | endGroup parent number => exact ih

theorem pushChunk_ofChunks (chunks : List Bytes) (chunk : Bytes) :
    (Encoder.BackwardBuffer.ofChunks chunks).pushChunk chunk =
      Encoder.BackwardBuffer.ofChunks (chunks ++ [chunk]) := by
  simp [Encoder.BackwardBuffer.ofChunks, Encoder.BackwardBuffer.pushChunk]

/-- A node gets one buffer, at its first chunk. -/
theorem pushChunkAt_nodeIds (nodeId : NodeId) (chunk : Bytes)
    (buffers : List BufferWithMetadata) :
    (pushChunkAt nodeId chunk buffers).map BufferWithMetadata.nodeId =
      if nodeId ∈ buffers.map BufferWithMetadata.nodeId then
        buffers.map BufferWithMetadata.nodeId
      else buffers.map BufferWithMetadata.nodeId ++ [nodeId] := by
  induction buffers with
  | nil => rfl
  | cons buffer rest ih =>
      rw [pushChunkAt]
      by_cases own : buffer.nodeId = nodeId
      · rw [if_pos own, if_pos (List.mem_map.mpr ⟨buffer, List.mem_cons_self .., own⟩)]
        rfl
      · rw [if_neg own, List.map_cons, List.map_cons, ih]
        by_cases held : nodeId ∈ rest.map BufferWithMetadata.nodeId
        · rw [if_pos held, if_pos (List.mem_cons_of_mem _ held)]
        · rw [if_neg held, if_neg (fun member => (List.mem_cons.mp member).elim
            (fun same => own same.symm) held)]
          rfl

/-- A buffer afterwards is one of before, or the one of the node with the chunk
at its end. -/
theorem pushChunkAt_mem {nodeId : NodeId} {chunk : Bytes} {buffers : List BufferWithMetadata}
    (distinct : (buffers.map BufferWithMetadata.nodeId).Nodup) {buffer : BufferWithMetadata}
    (member : buffer ∈ pushChunkAt nodeId chunk buffers) :
    (buffer.nodeId ≠ nodeId ∧ buffer ∈ buffers) ∨
      (buffer.nodeId = nodeId ∧
        ((∃ old ∈ buffers, old.nodeId = nodeId ∧ buffer.data = old.data.pushChunk chunk) ∨
          nodeId ∉ buffers.map BufferWithMetadata.nodeId ∧
            buffer.data = Encoder.BackwardBuffer.empty.pushChunk chunk)) := by
  induction buffers with
  | nil =>
      obtain rfl := List.mem_singleton.mp member
      exact .inr ⟨rfl, .inr ⟨List.not_mem_nil, rfl⟩⟩
  | cons first rest ih =>
      obtain ⟨apart, restDistinct⟩ := List.nodup_cons.mp distinct
      rw [pushChunkAt] at member
      by_cases own : first.nodeId = nodeId
      · rw [if_pos own] at member
        rcases List.mem_cons.mp member with rfl | later
        · exact .inr ⟨own, .inl ⟨first, List.mem_cons_self .., own, rfl⟩⟩
        · refine .inl ⟨fun same => apart ?_, List.mem_cons_of_mem _ later⟩
          exact List.mem_map.mpr ⟨buffer, later, same.trans own.symm⟩
      · rw [if_neg own] at member
        rcases List.mem_cons.mp member with rfl | later
        · exact .inl ⟨own, List.mem_cons_self ..⟩
        · rcases ih restDistinct later with ⟨differs, kept⟩ | ⟨same, grown⟩
          · exact .inl ⟨differs, List.mem_cons_of_mem _ kept⟩
          · refine .inr ⟨same, grown.imp ?_ ?_⟩
            · rintro ⟨old, kept, oldOwn, pushed⟩
              exact ⟨old, List.mem_cons_of_mem _ kept, oldOwn, pushed⟩
            · rintro ⟨unheld, fresh⟩
              exact ⟨fun held => (List.mem_cons.mp held).elim (fun equal => own equal.symm)
                unheld, fresh⟩

/-- A tag without data, or with data of another type, leaves the buffers. -/
theorem HoldsChunks.skip {bufType : BufferType} {buffers : List BufferWithMetadata} {op : TagOp}
    (held : HoldsChunks bufType ops buffers)
    (apart : op.chunk ≠ [] → bufferTypeOf op.nodeId ≠ bufType) :
    HoldsChunks bufType (ops ++ [op]) buffers := by
  refine ⟨held.distinct, ?_, ?_⟩
  · intro buffer member
    obtain ⟨typed, present, data⟩ := held.holds buffer member
    have same : chunksOf buffer.nodeId (ops ++ [op]) = chunksOf buffer.nodeId ops := by
      rw [chunksOf_append, chunksOf_skip, List.append_nil]
      rintro ⟨own, filled⟩
      exact apart filled (by rw [own, typed])
    rw [same]
    exact ⟨typed, present, data⟩
  · intro other member filled typed
    rcases List.mem_append.mp member with before | added
    · exact held.complete other before filled typed
    · obtain rfl := List.mem_singleton.mp added
      exact absurd typed (apart filled)

/-- A tag with data adds it to the buffer of its node. -/
theorem HoldsChunks.push {bufType : BufferType} {buffers : List BufferWithMetadata} {op : TagOp}
    (held : HoldsChunks bufType ops buffers) (typed : bufferTypeOf op.nodeId = bufType)
    (filled : op.chunk ≠ []) :
    HoldsChunks bufType (ops ++ [op]) (pushChunkAt op.nodeId op.chunk buffers) := by
  have ids := pushChunkAt_nodeIds op.nodeId op.chunk buffers
  refine ⟨?_, ?_, ?_⟩
  · rw [ids]
    by_cases known : op.nodeId ∈ buffers.map BufferWithMetadata.nodeId
    · rw [if_pos known]
      exact held.distinct
    · rw [if_neg known]
      refine List.nodup_append.mpr ⟨held.distinct, List.pairwise_singleton _ _, ?_⟩
      intro id member other otherMember same
      rw [List.mem_singleton.mp otherMember] at same
      exact known (same ▸ member)
  · intro buffer member
    rcases pushChunkAt_mem held.distinct member with ⟨differs, kept⟩ | ⟨own, grown⟩
    · obtain ⟨keptTyped, present, data⟩ := held.holds buffer kept
      have same : chunksOf buffer.nodeId (ops ++ [op]) = chunksOf buffer.nodeId ops := by
        rw [chunksOf_append, chunksOf_skip, List.append_nil]
        exact fun both => differs both.1.symm
      rw [same]
      exact ⟨keptTyped, present, data⟩
    · rw [own, chunksOf_append, chunksOf_take rfl filled]
      refine ⟨typed, fun empty => ?_, ?_⟩
      · cases (List.append_eq_nil_iff.mp empty).2
      rcases grown with ⟨old, oldMember, oldOwn, pushed⟩ | ⟨unheld, fresh⟩
      · obtain ⟨_, _, data⟩ := held.holds old oldMember
        rw [pushed, data, oldOwn, pushChunk_ofChunks]
      · have none : chunksOf op.nodeId ops = [] := by
          by_contra present
          obtain ⟨chunk, chunkMember⟩ := List.exists_mem_of_ne_nil _ present
          obtain ⟨other, otherMember, _⟩ := List.mem_map.mp chunkMember
          obtain ⟨otherIn, otherIs⟩ := List.mem_filter.mp otherMember
          have otherIs : other.nodeId = op.nodeId ∧ other.chunk ≠ [] := by simpa using otherIs
          have known := held.complete other otherIn otherIs.2 (by rw [otherIs.1, typed])
          rw [otherIs.1] at known
          exact unheld known
        rw [fresh, none, List.nil_append]
        exact pushChunk_ofChunks [] op.chunk
  · intro other member otherFilled otherTyped
    rw [ids]
    have known : other.nodeId ∈ buffers.map BufferWithMetadata.nodeId ∨ other.nodeId = op.nodeId := by
      rcases List.mem_append.mp member with before | added
      · exact .inl (held.complete other before otherFilled otherTyped)
      · exact .inr (congrArg TagOp.nodeId (List.mem_singleton.mp added))
    by_cases listed : op.nodeId ∈ buffers.map BufferWithMetadata.nodeId
    · rw [if_pos listed]
      rcases known with before | same
      · exact before
      · rw [same]
        exact listed
    · rw [if_neg listed]
      rcases known with before | same
      · exact List.mem_append_left _ before
      · rw [same]
        exact List.mem_append_right _ (List.mem_singleton_self _)

/-! ## One tag -/

/-- The encoder takes the tags in addition to what it holds. -/
structure Takes (before after : TransposeChunkEncoder) (added : List TagOp) : Prop where
  settings : SameSettings before after
  collected : ∀ ops, Collected before ops → Collected after (ops ++ added)
  ids : KeepsIds before after

theorem Takes.refl (encoder : TransposeChunkEncoder) : Takes encoder encoder [] :=
  ⟨SameSettings.refl encoder, fun ops collected => by rwa [List.append_nil], KeepsIds.refl encoder⟩

theorem Takes.trans {first second third : TransposeChunkEncoder} {added later : List TagOp}
    (here : Takes first second added) (there : Takes second third later) :
    Takes first third (added ++ later) :=
  ⟨here.settings.trans there.settings, fun ops collected => by
    rw [← List.append_assoc]
    exact there.collected _ (here.collected ops collected), here.ids.trans there.ids⟩

/-- Registering a tag that needs no buffer. -/
theorem Registers.takes {before after : TransposeChunkEncoder} {added : List EncodedTagInfo}
    (registers : Registers before after added)
    (known : ∀ info ∈ added, ∃ op : TagOp, op.Canonical ∧ info = op.info ∧ op.chunk = []) :
    Takes before after [] := by
  refine ⟨registers.settings, fun ops collected => ?_, registers.ids⟩
  rw [List.append_nil]
  refine ⟨collected.canonical, registers.indexed collected.indexed, ?_, ?_, ?_, ?_⟩
  · rw [registers.tagsList]
    intro info member
    rcases List.mem_append.mp member with before | new
    · exact collected.known info before
    · obtain ⟨op, canonical, same, chunkless⟩ := known info new
      exact ⟨op, canonical, same, .inl chunkless⟩
  · rw [registers.encodedTags]
    refine collected.tags.imp fun index op found => ?_
    rw [registers.tagsList, List.getElem?_append_left (List.getElem?_eq_some_iff.mp found).1, found]
  · rw [registers.data]
    exact collected.chunks
  · rw [registers.nonprotoLengths]
    exact collected.lengths

theorem getOrCreateNode_takes (encoder : TransposeChunkEncoder) (nodeId : NodeId) :
    Takes encoder (encoder.getOrCreateNode nodeId).2 [] :=
  (getOrCreateNode_registers encoder nodeId).1.takes (List.forall_mem_nil _)

/-- The tag is stored, and the buffers are those after it. -/
theorem Collected.push {before after : TransposeChunkEncoder} {added : List EncodedTagInfo}
    {op : TagOp} {index : Nat} (collected : Collected before ops) (canonical : op.Canonical)
    (indexed : after.Indexed) (tagsList : after.tagsList = before.tagsList ++ added)
    (registered : ∀ info ∈ added, info = op.info)
    (encodedTags : after.encodedTags = before.encodedTags ++ [index])
    (found : after.tagsList[index]? = some op.info)
    (chunks : ∀ bufType, HoldsChunks bufType (ops ++ [op]) (after.data bufType))
    (lengths : after.nonprotoLengths =
      Encoder.BackwardBuffer.ofChunks (lengthsOf (ops ++ [op]))) :
    Collected after (ops ++ [op]) := by
  refine ⟨?_, indexed, ?_, ?_, chunks, lengths⟩
  · exact List.forall_mem_append.mpr ⟨collected.canonical, List.forall_mem_singleton.mpr canonical⟩
  · rw [tagsList]
    intro info member
    rcases List.mem_append.mp member with old | new
    · obtain ⟨other, otherCanonical, same, stored⟩ := collected.known info old
      exact ⟨other, otherCanonical, same, stored.imp_right (List.mem_append_left _)⟩
    · exact ⟨op, canonical, registered info new,
        .inr (List.mem_append_right _ (List.mem_singleton_self op))⟩
  · rw [encodedTags]
    refine List.rel_append (collected.tags.imp fun other held foundBefore => ?_)
      (.cons found .nil)
    rw [tagsList, List.getElem?_append_left (List.getElem?_eq_some_iff.mp foundBefore).1,
      foundBefore]

/-- A tag without data. -/
theorem pushEncodedTag_takes {op : TagOp} (canonical : op.Canonical) (chunkless : op.chunk = [])
    (uncounted : lengthsOf [op] = []) (encoder : TransposeChunkEncoder) :
    Takes encoder (encoder.pushEncodedTag op.nodeId op.subtype) [op] := by
  obtain ⟨added, registers, registered, found⟩ :=
    getPosInTagsList_registers encoder op.nodeId op.subtype
  refine ⟨⟨registers.settings.compression, registers.settings.compressOpts,
    registers.settings.bucketSize, registers.settings.numRecords,
    registers.settings.decodedDataSize, registers.settings.tagsList⟩, fun ops collected => ?_,
    registers.ids.trans (KeepsIds.of_eq rfl rfl)⟩
  refine collected.push canonical (registers.indexed collected.indexed) registers.tagsList
    registered (congrArg (· ++ _) registers.encodedTags) (found collected.indexed) ?_ ?_
  · intro bufType
    refine HoldsChunks.skip ?_ (fun filled => absurd chunkless filled)
    have data : (encoder.pushEncodedTag op.nodeId op.subtype).data = encoder.data := registers.data
    rw [data]
    exact collected.chunks bufType
  · have same : (encoder.pushEncodedTag op.nodeId op.subtype).nonprotoLengths =
        encoder.nonprotoLengths := registers.nonprotoLengths
    rw [same, lengthsOf_append, uncounted, List.append_nil]
    exact collected.lengths

/-- A tag with data. -/
theorem pushChunk_takes {op : TagOp} (canonical : op.Canonical) (filled : op.chunk ≠ [])
    {bufType : BufferType} (typed : bufferTypeOf op.nodeId = bufType)
    (uncounted : lengthsOf [op] = []) (encoder : TransposeChunkEncoder) :
    Takes encoder
      ((encoder.pushEncodedTag op.nodeId op.subtype).pushChunk op.nodeId bufType op.chunk)
      [op] := by
  obtain ⟨added, registers, registered, found⟩ :=
    getPosInTagsList_registers encoder op.nodeId op.subtype
  refine ⟨⟨registers.settings.compression, registers.settings.compressOpts,
    registers.settings.bucketSize, registers.settings.numRecords,
    registers.settings.decodedDataSize, registers.settings.tagsList⟩, fun ops collected => ?_,
    registers.ids.trans (KeepsIds.of_eq rfl rfl)⟩
  have data : (encoder.pushEncodedTag op.nodeId op.subtype).data = encoder.data := registers.data
  refine collected.push canonical (registers.indexed collected.indexed) registers.tagsList
    registered (congrArg (· ++ _) registers.encodedTags) (found collected.indexed) ?_ ?_
  · intro other
    change HoldsChunks other (ops ++ [op]) (if other = bufType then _ else _)
    rw [data]
    by_cases own : other = bufType
    · rw [if_pos own, own]
      exact (collected.chunks bufType).push typed filled
    · rw [if_neg own]
      refine (collected.chunks other).skip fun _ same => own ?_
      rw [← same, typed]
  · have same : ((encoder.pushEncodedTag op.nodeId op.subtype).pushChunk op.nodeId bufType
        op.chunk).nonprotoLengths = encoder.nonprotoLengths := registers.nonprotoLengths
    rw [same, lengthsOf_append, uncounted, List.append_nil]
    exact collected.lengths

/-! ## Fields without fields inside -/

/-- The bytes that stand at a position. -/
theorem sliceRange_at {data part rest : Bytes} {pos : Nat} (split : data.drop pos = part ++ rest)
    (inside : pos + part.length ≤ data.length) :
    sliceRange data pos (pos + part.length) = .ok part := by
  rw [sliceRange_eq (Nat.le_add_right _ _) inside, split, Nat.add_sub_cancel_left, List.take_left]

/-- Small varints are one byte, and their value is the byte. -/
theorem encodeU64_inline (value : Nat) :
    ∃ first rest, encodeU64 value = first :: rest ∧
      (((encodeU64 value).length = 1 ∧ first.toNat ≤ maxVarintInline) ↔ value ≤ maxVarintInline) ∧
      (value ≤ maxVarintInline → first.toNat = value) := by
  unfold encodeU64
  rw [show maxU64VarintLen = 9 + 1 from rfl, encodeVarintLoop]
  by_cases final : value / 128 = 0
  · have byte : (UInt8.ofNat (value % 128)).toNat = value := by
      rw [UInt8.toNat_ofNat']
      omega
    rw [if_pos final]
    exact ⟨_, [], rfl, by rw [byte]; exact ⟨And.right, fun small => ⟨rfl, small⟩⟩, fun _ => byte⟩
  · rw [if_neg final]
    have large : ¬ value ≤ maxVarintInline := by
      unfold maxVarintInline
      omega
    refine ⟨_, _, rfl, ⟨fun short => ?_, fun small => absurd small large⟩,
      fun small => absurd small large⟩
    exfalso
    have more := encodeVarintLoop_length_pos 8 (value / 128)
    exact absurd (Nat.succ.inj short.1) (Nat.ne_of_gt more)

/-- The data of a field goes to the buffers of its wire type. -/
theorem bufferTypeOf_tag {parent number : Nat} (valid : FieldNumber number) (wireType : WireType) :
    bufferTypeOf { parentMessageId := parent, tag := number * 8 + wireType.toNat } =
      match wireType with
      | .varint => .varint
      | .fixed32 => .fixed32
      | .fixed64 => .fixed64
      | .lengthDelimited => .string
      | _ => .nonProto := by
  obtain ⟨positive, _⟩ := valid
  unfold bufferTypeOf
  rw [if_neg (show ¬ number * 8 + wireType.toNat = 0 by omega), tagWireType_tag]
  cases wireType <;> rfl

variable {data : Bytes} {pos depth : Nat}

theorem encodeVarintField_takes {number value parent : Nat} {rest : Bytes}
    (valid : FieldNumber number) (fits : value ≤ u64Max)
    (split : data.drop pos = encodeU64 value ++ rest)
    (inside : pos + (encodeU64 value).length ≤ data.length) (encoder : TransposeChunkEncoder) :
    ∃ after, encodeVarintField encoder data pos
        { parentMessageId := parent, tag := number * 8 + WireType.varint.toNat } =
        .ok (after, pos + (encodeU64 value).length) ∧
      Takes encoder after [.leaf parent (.varint number value)] := by
  obtain ⟨first, more, bytes, inline, byte⟩ := encodeU64_inline value
  have firstAt : indexAt (encodeU64 value) 0 = .ok first := by
    rw [bytes]
    rfl
  have canonical : (TagOp.leaf parent (.varint number value)).Canonical := ⟨valid, fits⟩
  unfold encodeVarintField
  rw [split, decodeU64_encodeU64 fits]
  simp only
  rw [sliceRange_at split inside, Except.ok_bind, firstAt, Except.ok_bind]
  by_cases small : value ≤ maxVarintInline
  · rw [if_pos (inline.mpr small), byte small]
    have subtype : (TagOp.leaf parent (.varint number value)).subtype =
        Subtype.varintInline0 + value := if_pos small
    rw [← subtype]
    exact ⟨_, rfl, pushEncodedTag_takes canonical (if_pos small) rfl encoder⟩
  · rw [if_neg (fun short => small (inline.mp short))]
    have subtype : (TagOp.leaf parent (.varint number value)).subtype =
        Subtype.varint1 + ((encodeU64 value).length - 1) := if_neg small
    have chunk : (TagOp.leaf parent (.varint number value)).chunk =
        (encodeU64 value).map fun byte => UInt8.ofNat (byte.toNat % 128) := if_neg small
    rw [← subtype, ← chunk]
    refine ⟨_, rfl, pushChunk_takes canonical ?_ (bufferTypeOf_tag valid .varint) rfl encoder⟩
    rw [chunk, bytes]
    exact List.cons_ne_nil _ _

/-- The tag decodes, and the value is taken under the node of the tag. -/
theorem decodeU32_tag {number : Nat} {wireType : WireType} {rest : Bytes}
    (valid : FieldNumber number) (split : data.drop pos = tagBytes number wireType ++ rest) :
    decodeU32 (data.drop pos) =
      .ok (number * 8 + wireType.toNat, (tagBytes number wireType).length) := by
  rw [split]
  exact decodeU32_encodeU32 (tag_fits valid wireType) rest

/-- A fixed field goes to the buffers of its width. -/
theorem encodeFixedField_takes {parent width : Nat} {bufType : BufferType} {what : String}
    {field : FieldLeaf} {bytes rest : Bytes} (canonical : field.Canonical)
    (trivially : field.subtype = Subtype.trivial) (chunk : field.chunk = bytes)
    (sized : bytes.length = width) (positive : 0 < width)
    (typed : bufferTypeOf (TagOp.leaf parent field).nodeId = bufType)
    (split : data.drop pos = bytes ++ rest) (inside : pos + bytes.length ≤ data.length)
    (encoder : TransposeChunkEncoder) :
    ∃ after, encodeFixedField width bufType what encoder data pos
        (TagOp.leaf parent field).nodeId = .ok (after, pos + bytes.length) ∧
      Takes encoder after [.leaf parent field] := by
  subst sized
  have filled : (TagOp.leaf parent field).chunk ≠ [] := by
    change field.chunk ≠ []
    rw [chunk]
    exact List.ne_nil_of_length_pos positive
  have takes := @pushChunk_takes (.leaf parent field) canonical filled bufType typed rfl encoder
  unfold encodeFixedField
  rw [if_neg (by omega), sliceRange_at split inside, Except.ok_bind]
  refine ⟨_, rfl, ?_⟩
  have subtype : (TagOp.leaf parent field).subtype = Subtype.trivial := trivially
  have chunkIs : (TagOp.leaf parent field).chunk = bytes := chunk
  rw [subtype, chunkIs] at takes
  exact takes

/-- A submessage is entered where the field is not empty, not too deep and
itself a message. -/
def Enters (depth : Nat) (state : AddMessageState) (bytes : Bytes) : Prop :=
  0 < bytes.length ∧
    depth + state.groupStack.length + state.messageStack.length < maxRecursionDepth ∧
      isProtoMessage bytes = true

/-- The length decodes, and the value stands after it. -/
theorem lengthDelimited_at {bytes rest : Bytes} (short : bytes.length ≤ u32Max)
    (split : data.drop pos = encodeU32 bytes.length ++ bytes ++ rest)
    (inside : pos + (encodeU32 bytes.length ++ bytes).length ≤ data.length) :
    decodeU32 (data.drop pos) = .ok (bytes.length, (encodeU32 bytes.length).length) ∧
      sliceRange data (pos + (encodeU32 bytes.length).length)
        (pos + (encodeU32 bytes.length).length + bytes.length) = .ok bytes ∧
      sliceRange data pos (pos + (encodeU32 bytes.length).length + bytes.length) =
        .ok (encodeU32 bytes.length ++ bytes) := by
  have whole := sliceRange_at split inside
  rw [List.length_append, ← Nat.add_assoc] at inside whole
  rw [List.append_assoc] at split
  refine ⟨?_, sliceRange_at (drop_after split) inside, whole⟩
  rw [split]
  exact decodeU32_encodeU32 short _

theorem encodeLengthDelimitedField_string {number nodeMid : Nat} {bytes rest : Bytes}
    {state : AddMessageState} (valid : FieldNumber number) (short : bytes.length ≤ u32Max)
    (whole : ¬ Enters depth state bytes)
    (split : data.drop state.pos = encodeU32 bytes.length ++ bytes ++ rest)
    (within : state.pos + (encodeU32 bytes.length ++ bytes).length ≤ state.currentEnd)
    (inside : state.currentEnd ≤ data.length) (fits : data.length ≤ u64Max) :
    ∃ after, encodeLengthDelimitedField data
        (TagOp.leaf state.currentParent (.string number bytes)).nodeId nodeMid
        (depth + state.groupStack.length) state =
        .ok ({ state with
          encoder := after
          pos := state.pos + (encodeU32 bytes.length ++ bytes).length }, false) ∧
      Takes state.encoder after [.leaf state.currentParent (.string number bytes)] := by
  obtain ⟨decoded, valueAt, wholeAt⟩ := lengthDelimited_at short split (within.trans inside)
  have takes := @pushChunk_takes (.leaf state.currentParent (.string number bytes))
    ⟨valid, short⟩ (List.append_ne_nil_of_left_ne_nil
      (List.ne_nil_of_length_pos (encodeU64_length_pos _)) _)
    .string (bufferTypeOf_tag valid .lengthDelimited) rfl state.encoder
  rw [List.length_append, ← Nat.add_assoc] at within ⊢
  unfold Enters at whole
  unfold encodeLengthDelimitedField
  rw [decoded]
  simp only
  rw [if_neg (by omega), if_neg (by omega), valueAt, Except.ok_bind, if_neg whole, wholeAt,
    Except.ok_bind]
  exact ⟨_, rfl, takes⟩

/-- A field without fields inside is taken in one pass. -/
theorem addField_leaf {field : FieldLeaf} {state : AddMessageState} {rest : Bytes}
    (canonical : field.Canonical)
    (whole : ∀ own bytes, field = .string own bytes → ¬ Enters depth state bytes)
    (split : data.drop state.pos = field.bytes ++ rest)
    (within : state.pos + field.bytes.length ≤ state.currentEnd)
    (inside : state.currentEnd ≤ data.length) (fits : data.length ≤ u64Max) :
    ∃ after, addField data depth state =
        .ok ({ state with encoder := after, pos := state.pos + field.bytes.length }, false) ∧
      Takes state.encoder after [.leaf state.currentParent field] := by
  have valid : FieldNumber field.number := by
    cases field <;> exact canonical.1
  unfold FieldLeaf.bytes at split within ⊢
  rw [List.append_assoc] at split
  rw [List.length_append] at within ⊢
  have valueAt := drop_after split
  have created := getOrCreateNode_takes state.encoder
    { parentMessageId := state.currentParent, tag := field.number * 8 + field.wireType.toNat }
  unfold addField
  rw [decodeU32_tag valid split]
  simp only
  rw [tagFieldNumber_tag, if_neg (Nat.ne_of_gt valid.1), tagWireType_tag]
  cases field with
  | varint number value =>
      obtain ⟨after, ran, takes⟩ := @encodeVarintField_takes data _ number value
        state.currentParent rest valid canonical.2 valueAt
        (by rw [Nat.add_assoc]; exact within.trans inside) _
      refine ⟨after, ?_, created.trans takes⟩
      simp only [FieldLeaf.wireType, FieldLeaf.number, FieldLeaf.value] at ran ⊢
      rw [ran, Except.ok_bind, Nat.add_assoc]
  | fixed32 number bytes =>
      obtain ⟨after, ran, takes⟩ := @encodeFixedField_takes data _ state.currentParent 4
        .fixed32 "truncated fixed32" (.fixed32 number bytes) bytes rest canonical rfl rfl canonical.2
        (by decide) (bufferTypeOf_tag valid .fixed32) valueAt
        (by rw [Nat.add_assoc]; exact within.trans inside) _
      refine ⟨after, ?_, created.trans takes⟩
      simp only [FieldLeaf.wireType, FieldLeaf.number, FieldLeaf.value, encodeFixed32Field,
        TagOp.nodeId] at ran ⊢
      rw [ran, Except.ok_bind, Nat.add_assoc]
  | fixed64 number bytes =>
      obtain ⟨after, ran, takes⟩ := @encodeFixedField_takes data _ state.currentParent 8
        .fixed64 "truncated fixed64" (.fixed64 number bytes) bytes rest canonical rfl rfl canonical.2
        (by decide) (bufferTypeOf_tag valid .fixed64) valueAt
        (by rw [Nat.add_assoc]; exact within.trans inside) _
      refine ⟨after, ?_, created.trans takes⟩
      simp only [FieldLeaf.wireType, FieldLeaf.number, FieldLeaf.value, encodeFixed64Field,
        TagOp.nodeId] at ran ⊢
      rw [ran, Except.ok_bind, Nat.add_assoc]
  | string number bytes =>
      obtain ⟨after, ran, takes⟩ := @encodeLengthDelimitedField_string data depth number
        (state.encoder.getOrCreateNode
          { parentMessageId := state.currentParent
            tag := number * 8 + WireType.lengthDelimited.toNat }).1 bytes rest
        { state with
          encoder := (state.encoder.getOrCreateNode
            { parentMessageId := state.currentParent
              tag := number * 8 + WireType.lengthDelimited.toNat }).2
          pos := state.pos + (tagBytes number .lengthDelimited).length }
        valid canonical.2 (whole number bytes rfl) valueAt
        (by rw [Nat.add_assoc]; exact within) inside fits
      refine ⟨after, ?_, created.trans takes⟩
      simp only [FieldLeaf.wireType, FieldLeaf.number, FieldLeaf.value, TagOp.nodeId] at ran ⊢
      rw [ran, Nat.add_assoc]

/-! ## Tags of submessages and groups -/

/-- The end of a submessage is stored under the index found at its start. -/
theorem Collected.close {op : TagOp} {index : Nat} (collected : Collected encoder ops)
    (canonical : op.Canonical) (chunkless : op.chunk = []) (uncounted : lengthsOf [op] = [])
    (found : encoder.tagsList[index]? = some op.info) :
    Collected { encoder with encodedTags := encoder.encodedTags ++ [index] } (ops ++ [op]) := by
  refine collected.push canonical collected.indexed (List.append_nil _).symm
    (List.forall_mem_nil _) rfl found ?_ ?_
  · exact fun bufType => (collected.chunks bufType).skip fun filled => absurd chunkless filled
  · rw [lengthsOf_append, uncounted, List.append_nil]
    exact collected.lengths

/-- The encoder at the first byte of a submessage: its start tag is stored and
its end tag has an index. -/
def enterSubmessage (encoder : TransposeChunkEncoder) (nodeId : NodeId) :
    Nat × TransposeChunkEncoder :=
  let created := (encoder.getOrCreateNode nodeId).2
  (created.pushEncodedTag nodeId Subtype.lengthDelimitedStartOfSubmessage).getPosInTagsList nodeId
    Subtype.lengthDelimitedEndOfSubmessage

theorem pushEncodedTag_keepsIds (encoder : TransposeChunkEncoder) (nodeId : NodeId)
    (subtype : Nat) : KeepsIds encoder (encoder.pushEncodedTag nodeId subtype) := by
  obtain ⟨_, registers, _, _⟩ := getPosInTagsList_registers encoder nodeId subtype
  exact registers.ids.trans (KeepsIds.of_eq rfl rfl)

/-- What is entered keeps the ids, and its contents have the id of its node. -/
theorem enterSubmessage_ids (encoder : TransposeChunkEncoder) (nodeId : NodeId) :
    KeepsIds encoder (encoder.enterSubmessage nodeId).2 ∧
      (encoder.enterSubmessage nodeId).2.messageIdOf nodeId =
        some (encoder.getOrCreateNode nodeId).1 := by
  have started := pushEncodedTag_keepsIds (encoder.getOrCreateNode nodeId).2 nodeId
    Subtype.lengthDelimitedStartOfSubmessage
  obtain ⟨_, ended, _, _⟩ := getPosInTagsList_registers
    ((encoder.getOrCreateNode nodeId).2.pushEncodedTag nodeId
      Subtype.lengthDelimitedStartOfSubmessage) nodeId Subtype.lengthDelimitedEndOfSubmessage
  have later := started.trans ended.ids
  exact ⟨(getOrCreateNode_keepsIds encoder nodeId).trans later,
    later.kept (messageIdOf_getOrCreateNode encoder nodeId)⟩

/-- The tags of a submessage around those of its fields. -/
theorem enterSubmessage_takes {parent number : Nat} {after : TransposeChunkEncoder}
    {inner : List TagOp} (valid : FieldNumber number)
    (contents : Takes (encoder.enterSubmessage
      (TagOp.startOfSubmessage parent number).nodeId).2 after inner) :
    Takes encoder
      { after with
        encodedTags := after.encodedTags ++
          [(encoder.enterSubmessage (TagOp.startOfSubmessage parent number).nodeId).1] }
      (.startOfSubmessage parent number :: (inner ++ [.endOfSubmessage parent number])) := by
  have started := (getOrCreateNode_takes encoder (TagOp.startOfSubmessage parent number).nodeId).trans
    (@pushEncodedTag_takes (.startOfSubmessage parent number) valid rfl rfl _)
  obtain ⟨added, registers, registered, found⟩ :=
    getPosInTagsList_registers
      ((encoder.getOrCreateNode (TagOp.startOfSubmessage parent number).nodeId).2.pushEncodedTag
        (TagOp.startOfSubmessage parent number).nodeId
        (TagOp.startOfSubmessage parent number).subtype)
      (TagOp.endOfSubmessage parent number).nodeId (TagOp.endOfSubmessage parent number).subtype
  have ended := registers.takes fun info member =>
    ⟨.endOfSubmessage parent number, valid, registered info member, rfl⟩
  have settings := (started.trans ended).settings.trans contents.settings
  refine ⟨⟨settings.compression, settings.compressOpts, settings.bucketSize, settings.numRecords,
    settings.decodedDataSize, settings.tagsList⟩, fun ops collected => ?_,
    ((started.trans ended).trans contents).ids.trans (KeepsIds.of_eq rfl rfl)⟩
  have before := started.collected ops collected
  have within := contents.collected _ (ended.collected _ before)
  rw [List.append_nil] at within
  obtain ⟨more, grown⟩ := contents.settings.tagsList
  have registeredAt : (encoder.enterSubmessage (TagOp.startOfSubmessage parent number).nodeId).2.tagsList[
      (encoder.enterSubmessage (TagOp.startOfSubmessage parent number).nodeId).1]? =
      some (TagOp.endOfSubmessage parent number).info := found before.indexed
  have kept : after.tagsList[(encoder.enterSubmessage
      (TagOp.startOfSubmessage parent number).nodeId).1]? =
      some (TagOp.endOfSubmessage parent number).info := by
    rw [← grown, List.getElem?_append_left (List.getElem?_eq_some_iff.mp registeredAt).1,
      registeredAt]
  have closed := @Collected.close after _ (.endOfSubmessage parent number) _ within valid rfl rfl kept
  simpa using closed

/-! ## The loop -/

/-- The state once the submessages that end here are closed. -/
def settle (state : AddMessageState) : AddMessageState :=
  popFrames state.pos state state.messageStack

theorem popFrames_stack (pos : Nat) (frames stack : List MessageFrame) :
    ∀ state : AddMessageState,
      popFrames pos { state with messageStack := stack } frames = popFrames pos state frames := by
  induction frames with
  | nil => exact fun _ => rfl
  | cons frame frames ih =>
      intro state
      rw [popFrames, popFrames]
      by_cases ended : state.currentEnd ≤ pos
      · rw [if_pos ended, if_pos ended]
        exact ih { state with
          encoder :=
            { state.encoder with
              encodedTags := state.encoder.encodedTags ++ [frame.endSubTagIdx] }
          currentParent := frame.parentMessageId
          currentEnd := frame.parentEndPos }
      · rw [if_neg ended, if_neg ended]

/-- Before the end of the message around it nothing closes. -/
theorem settle_open {state : AddMessageState} (more : state.pos < state.currentEnd) :
    settle state = state := by
  unfold settle
  cases stack : state.messageStack with
  | nil =>
      rw [popFrames, ← stack]
  | cons frame frames => rw [popFrames, if_neg (by omega), ← stack]

/-- At its end the innermost submessage closes. -/
theorem settle_close {state : AddMessageState} {frame : MessageFrame} {frames : List MessageFrame}
    (stack : state.messageStack = frame :: frames) (ended : state.currentEnd ≤ state.pos) :
    settle state =
      settle { state with
        encoder :=
          { state.encoder with
            encodedTags := state.encoder.encodedTags ++ [frame.endSubTagIdx] }
        messageStack := frames
        currentParent := frame.parentMessageId
        currentEnd := frame.parentEndPos } := by
  unfold settle
  rw [stack, popFrames, if_pos ended]
  exact (popFrames_stack _ frames frames _).symm

/-- A pass that stays in the message. -/
theorem addMessageLoop_pass {state next : AddMessageState} (more : state.pos < state.currentEnd)
    (ran : addField data depth state = .ok (next, false)) (fuel : Nat) :
    addMessageLoop data depth (fuel + 1) (settle state) =
      addMessageLoop data depth fuel (settle next) := by
  rw [settle_open more, addMessageLoop, if_pos more, ran, Except.ok_bind]
  exact if_neg Bool.false_ne_true

/-- A pass that enters a submessage. -/
theorem addMessageLoop_enter {state next : AddMessageState} (more : state.pos < state.currentEnd)
    (inside : next.pos < next.currentEnd)
    (ran : addField data depth state = .ok (next, true)) (fuel : Nat) :
    addMessageLoop data depth (fuel + 1) (settle state) =
      addMessageLoop data depth fuel (settle next) := by
  rw [settle_open more, settle_open inside, addMessageLoop, if_pos more, ran, Except.ok_bind]
  exact if_pos rfl

/-- The state after more bytes with the tags of a tree. -/
def AddMessageState.past (state : AddMessageState) (encoder : TransposeChunkEncoder)
    (bytes : Bytes) : AddMessageState :=
  { state with encoder := encoder, pos := state.pos + bytes.length }

/-- How deep the fields at a state lie. -/
def AddMessageState.level (depth : Nat) (state : AddMessageState) : Nat :=
  depth + state.groupStack.length + state.messageStack.length

/-- The tags taken between two states of the encoder are those of a tree, whose
fields lie at the path of their parent. -/
structure TakenAs (before after : TransposeChunkEncoder) (parent level : Nat)
    (added : List TagOp) (tree : FieldTree) : Prop where
  canonical : tree.Canonical
  decomposed : tree.Decomposed level
  spells : Spells added tree
  named : ∀ path, before.PathOf parent path → SpelledAt after.PathOf path added tree

/-- The loop takes the bytes as a tree, in no more passes than bytes. -/
def Consumes (data : Bytes) (depth : Nat) (state : AddMessageState) (bytes : Bytes) : Prop :=
  ∃ after added used, ∃ tree : FieldTree, tree.bytes = bytes ∧
    TakenAs state.encoder after state.currentParent (state.level depth) added tree ∧
      Takes state.encoder after added ∧ used ≤ bytes.length ∧ ∀ fuel, addMessageLoop data depth (fuel + used) (settle state) =
        addMessageLoop data depth fuel (settle (state.past after bytes))

theorem Consumes.nil (data : Bytes) (depth : Nat) (state : AddMessageState) :
    Consumes data depth state [] :=
  ⟨state.encoder, [], 0, .nil, rfl, ⟨trivial, trivial, .nil, fun _ _ => .nil⟩, Takes.refl _,
    Nat.zero_le _, fun _ => rfl⟩

theorem Consumes.leaf {field : FieldLeaf} {state : AddMessageState} {rest more : Bytes}
    (canonical : field.Canonical)
    (whole : ∀ own bytes, field = .string own bytes → ¬ Enters depth state bytes)
    (split : data.drop state.pos = field.bytes ++ rest ++ more)
    (within : state.pos + (field.bytes ++ rest).length ≤ state.currentEnd)
    (inside : state.currentEnd ≤ data.length) (fits : data.length ≤ u64Max)
    (later : ∀ after, Consumes data depth (state.past after field.bytes) rest) :
    Consumes data depth state (field.bytes ++ rest) := by
  have positive : 0 < field.bytes.length := by
    rw [FieldLeaf.bytes, List.length_append]
    exact Nat.add_pos_left (encodeU64_length_pos _) _
  rw [List.length_append] at within
  rw [List.append_assoc] at split
  obtain ⟨middle, ran, takes⟩ := addField_leaf canonical whole split (by omega) inside fits
  obtain ⟨after, added, used, tree, spelled, taken, laterTakes, bounded, loop⟩ := later middle
  have takenAs : TakenAs state.encoder after state.currentParent (state.level depth)
      (.leaf state.currentParent field :: added) (.leaf field tree) :=
    ⟨⟨canonical, taken.canonical⟩, ⟨whole, taken.decomposed⟩, .leaf taken.spells,
      fun path named => .leaf (named.mono (takes.trans laterTakes).ids)
        (taken.named path (named.mono takes.ids))⟩
  refine ⟨after, _, used + 1, .leaf field tree, ?_, takenAs, takes.trans laterTakes, ?_,
    fun fuel => ?_⟩
  · rw [FieldTree.bytes, spelled]
  · rw [List.length_append]
    omega
  · rw [← Nat.add_assoc, addMessageLoop_pass (by omega) ran]
    have next := loop fuel
    rw [AddMessageState.past, AddMessageState.past] at next
    rw [AddMessageState.past, List.length_append, ← Nat.add_assoc]
    exact next

/-- Entering a submessage. -/
theorem addField_enter {number : Nat} {bytes rest : Bytes} {state : AddMessageState}
    (valid : FieldNumber number) (short : bytes.length ≤ u32Max) (enters : Enters depth state bytes)
    (split : data.drop state.pos =
      tagBytes number .lengthDelimited ++ (encodeU32 bytes.length ++ bytes) ++ rest)
    (within : state.pos + (tagBytes number .lengthDelimited ++
      (encodeU32 bytes.length ++ bytes)).length ≤ state.currentEnd)
    (inside : state.currentEnd ≤ data.length) (fits : data.length ≤ u64Max) :
    ∃ inner, addField data depth state = .ok (inner, true) ∧
      inner.encoder = (state.encoder.enterSubmessage
        (TagOp.startOfSubmessage state.currentParent number).nodeId).2 ∧
      inner.messageStack =
        { endSubTagIdx := (state.encoder.enterSubmessage
            (TagOp.startOfSubmessage state.currentParent number).nodeId).1
          parentMessageId := state.currentParent
          parentEndPos := state.currentEnd } :: state.messageStack ∧
      inner.groupStack = state.groupStack ∧
      inner.pos = state.pos + (tagBytes number .lengthDelimited ++ encodeU32 bytes.length).length ∧
      inner.currentEnd = inner.pos + bytes.length ∧
      inner.currentParent = (state.encoder.getOrCreateNode
        (TagOp.startOfSubmessage state.currentParent number).nodeId).1 := by
  unfold Enters at enters
  rw [List.append_assoc] at split
  rw [List.length_append, ← Nat.add_assoc] at within
  have valueAt := drop_after split
  obtain ⟨decoded, sliced, _⟩ := lengthDelimited_at short valueAt (within.trans inside)
  rw [List.length_append, ← Nat.add_assoc] at within
  unfold addField
  rw [decodeU32_tag valid split]
  simp only
  rw [tagFieldNumber_tag, if_neg (Nat.ne_of_gt valid.1), tagWireType_tag]
  simp only
  unfold encodeLengthDelimitedField
  simp only
  rw [decoded]
  simp only
  rw [if_neg (by omega), if_neg (by omega), sliced, Except.ok_bind, if_pos enters]
  refine ⟨_, rfl, rfl, rfl, rfl, ?_, rfl, rfl⟩
  rw [List.length_append, ← Nat.add_assoc]

theorem Consumes.submessage {number : Nat} {bytes rest more : Bytes} {state : AddMessageState}
    (valid : FieldNumber number) (short : bytes.length ≤ u32Max) (enters : Enters depth state bytes)
    (split : data.drop state.pos =
      tagBytes number .lengthDelimited ++ (encodeU32 bytes.length ++ bytes) ++ rest ++ more)
    (within : state.pos + (tagBytes number .lengthDelimited ++
      (encodeU32 bytes.length ++ bytes) ++ rest).length ≤ state.currentEnd)
    (inside : state.currentEnd ≤ data.length) (fits : data.length ≤ u64Max)
    (contents : ∀ inner : AddMessageState, data.drop inner.pos = bytes ++ (rest ++ more) →
      inner.pos + bytes.length ≤ inner.currentEnd → inner.currentEnd ≤ data.length →
      Consumes data depth inner bytes)
    (later : ∀ after, Consumes data depth
      (state.past after (tagBytes number .lengthDelimited ++ (encodeU32 bytes.length ++ bytes)))
      rest) :
    Consumes data depth state
      (tagBytes number .lengthDelimited ++ (encodeU32 bytes.length ++ bytes) ++ rest) := by
  have tagged := encodeU64_length_pos (number * 8 + WireType.lengthDelimited.toNat)
  rw [List.length_append] at within
  rw [List.append_assoc] at split
  obtain ⟨inner, ran, encoder, stack, groups, pos, stop, own⟩ :=
    addField_enter valid short enters split (by omega) inside fits
  have reached : inner.pos + bytes.length = state.pos +
      (tagBytes number .lengthDelimited ++ (encodeU32 bytes.length ++ bytes)).length := by
    rw [pos, ← List.append_assoc, @List.length_append _ _ bytes, Nat.add_assoc]
  have positive := enters.1
  obtain ⟨middle, innerAdded, innerUsed, innerTree, innerBytes, innerTaken, innerTakes,
    innerBounded, innerLoop⟩ := contents inner
      (by
        rw [pos]
        refine drop_after ?_
        rw [split, List.append_assoc, List.append_assoc, List.append_assoc])
      (Nat.le_of_eq stop.symm) (by omega)
  rw [encoder] at innerTakes innerTaken
  have takes := enterSubmessage_takes valid innerTakes
  obtain ⟨after, added, used, tree, spelled, taken, laterTakes, bounded, loop⟩ :=
    later { middle with
      encodedTags := middle.encodedTags ++
        [(state.encoder.enterSubmessage
          (TagOp.startOfSubmessage state.currentParent number).nodeId).1] }
  have closing : settle (inner.past middle bytes) =
      settle (state.past
        { middle with
          encodedTags := middle.encodedTags ++
            [(state.encoder.enterSubmessage
              (TagOp.startOfSubmessage state.currentParent number).nodeId).1] }
        (tagBytes number .lengthDelimited ++ (encodeU32 bytes.length ++ bytes))) := by
    rw [@settle_close (inner.past middle bytes) _ _ stack (Nat.le_of_eq stop)]
    simp only [AddMessageState.past, groups, reached]
  have deeper : inner.level depth = state.level depth + 1 := by
    rw [AddMessageState.level, groups, stack]
    rfl
  rw [deeper, own] at innerTaken
  obtain ⟨entering, entered⟩ := enterSubmessage_ids state.encoder
    (TagOp.startOfSubmessage state.currentParent number).nodeId
  have kept : KeepsIds middle after := laterTakes.ids.around rfl rfl rfl rfl
  have takenAs : TakenAs state.encoder after state.currentParent (state.level depth)
      (.startOfSubmessage state.currentParent number ::
        (innerAdded ++ .endOfSubmessage state.currentParent number :: added))
      (.submessage number innerTree tree) := by
    refine ⟨⟨valid, by rw [innerBytes]; exact short, innerTaken.canonical, taken.canonical⟩,
      ⟨by rw [innerBytes]; exact enters, innerTaken.decomposed, taken.decomposed⟩,
      .submessage innerTaken.spells taken.spells, fun path named => ?_⟩
    have inside := innerTaken.named (path ++ [number]) ?_
    · exact .submessage (inside.mono fun named => named.mono kept)
        (taken.named path (named.mono takes.ids))
    · have below := PathOf.field (named.mono entering) entered
      rw [tagFieldNumber_tag] at below
      exact below
  refine ⟨after, _, used + innerUsed + 1, .submessage number innerTree tree, ?_, takenAs, ?_, ?_,
    fun fuel => ?_⟩
  · rw [FieldTree.bytes, innerBytes, spelled]
  · have whole := takes.trans laterTakes
    simpa using whole
  · simp only [List.length_append] at tagged ⊢
    have tagPositive : 0 < (tagBytes number .lengthDelimited).length := tagged
    omega
  · rw [← Nat.add_assoc, addMessageLoop_enter (by omega) (by omega) ran, ← Nat.add_assoc, innerLoop,
      closing, loop]
    simp only [AddMessageState.past, List.length_append, Nat.add_assoc]

theorem addField_startGroup {number : Nat} {rest : Bytes} {state : AddMessageState}
    (valid : FieldNumber number)
    (split : data.drop state.pos = tagBytes number .startGroup ++ rest) :
    ∃ after parent, addField data depth state =
        .ok ({ state with
          encoder := after
          pos := state.pos + (tagBytes number .startGroup).length
          groupStack := state.currentParent :: state.groupStack
          currentParent := parent }, false) ∧
      Takes state.encoder after [.startGroup state.currentParent number] ∧
      after.messageIdOf (TagOp.startGroup state.currentParent number).nodeId = some parent := by
  unfold addField
  rw [decodeU32_tag valid split]
  simp only
  rw [tagFieldNumber_tag, if_neg (Nat.ne_of_gt valid.1), tagWireType_tag]
  simp only
  have pushed := @pushEncodedTag_takes (.startGroup state.currentParent number) valid rfl rfl
    (state.encoder.getOrCreateNode (TagOp.startGroup state.currentParent number).nodeId).2
  exact ⟨_, _, rfl, (getOrCreateNode_takes state.encoder _).trans pushed,
    pushed.ids.kept (messageIdOf_getOrCreateNode state.encoder _)⟩

theorem addField_endGroup {number parent : Nat} {groups : List Nat} {rest : Bytes}
    {state : AddMessageState} (valid : FieldNumber number)
    (started : state.groupStack = parent :: groups)
    (split : data.drop state.pos = tagBytes number .endGroup ++ rest) :
    ∃ after, addField data depth state =
        .ok ({ state with
          encoder := after
          pos := state.pos + (tagBytes number .endGroup).length
          groupStack := groups
          currentParent := parent }, false) ∧
      Takes state.encoder after [.endGroup state.currentParent number] := by
  unfold addField
  rw [decodeU32_tag valid split]
  simp only
  rw [tagFieldNumber_tag, if_neg (Nat.ne_of_gt valid.1), tagWireType_tag]
  simp only [started]
  exact ⟨_, rfl, (getOrCreateNode_takes state.encoder _).trans
    (@pushEncodedTag_takes (.endGroup state.currentParent number) valid rfl rfl _)⟩

theorem Consumes.group {number : Nat} {bytes rest more : Bytes} {state : AddMessageState}
    (valid : FieldNumber number)
    (split : data.drop state.pos =
      tagBytes number .startGroup ++ (bytes ++ tagBytes number .endGroup) ++ rest ++ more)
    (within : state.pos + (tagBytes number .startGroup ++
      (bytes ++ tagBytes number .endGroup) ++ rest).length ≤ state.currentEnd)
    (inside : state.currentEnd ≤ data.length)
    (contents : ∀ inner : AddMessageState,
      data.drop inner.pos = bytes ++ (tagBytes number .endGroup ++ rest ++ more) →
      inner.pos + bytes.length ≤ inner.currentEnd → inner.currentEnd ≤ data.length →
      Consumes data depth inner bytes)
    (later : ∀ after, Consumes data depth
      (state.past after (tagBytes number .startGroup ++ (bytes ++ tagBytes number .endGroup)))
      rest) :
    Consumes data depth state
      (tagBytes number .startGroup ++ (bytes ++ tagBytes number .endGroup) ++ rest) := by
  have startPositive : 0 < (tagBytes number .startGroup).length := encodeU64_length_pos _
  have endPositive : 0 < (tagBytes number .endGroup).length := encodeU64_length_pos _
  simp only [List.length_append] at within
  simp only [List.append_assoc] at split
  obtain ⟨opened, own, startRan, startTakes, entered⟩ :=
    @addField_startGroup data depth number _ state valid split
  have contentsAt := drop_after split
  obtain ⟨middle, innerAdded, innerUsed, innerTree, innerBytes, innerTaken, innerTakes,
    innerBounded, innerLoop⟩ := contents
      { state with
        encoder := opened
        pos := state.pos + (tagBytes number .startGroup).length
        groupStack := state.currentParent :: state.groupStack
        currentParent := own }
      (by
        rw [contentsAt]
        simp only [List.append_assoc])
      (show state.pos + (tagBytes number .startGroup).length + bytes.length ≤ state.currentEnd by
        omega) inside
  obtain ⟨closed, endRan, endTakes⟩ :=
    @addField_endGroup data depth number state.currentParent state.groupStack _
      (AddMessageState.past
        { state with
          encoder := opened
          pos := state.pos + (tagBytes number .startGroup).length
          groupStack := state.currentParent :: state.groupStack
          currentParent := own } middle bytes) valid rfl (drop_after contentsAt)
  obtain ⟨after, added, used, tree, spelled, taken, laterTakes, bounded, loop⟩ := later closed
  have ending : KeepsIds middle after := endTakes.ids.trans laterTakes.ids
  have takes : KeepsIds state.encoder closed :=
    (startTakes.ids.trans innerTakes.ids).trans endTakes.ids
  have deeper : depth + (state.currentParent :: state.groupStack).length +
      state.messageStack.length = state.level depth + 1 := by
    rw [AddMessageState.level, List.length_cons]
    omega
  have takenAs : TakenAs state.encoder after state.currentParent (state.level depth)
      (.startGroup state.currentParent number :: (innerAdded ++ .endGroup own number :: added))
      (.group number innerTree tree) := by
    have inner := innerTaken.decomposed
    rw [AddMessageState.level, deeper] at inner
    refine ⟨⟨valid, innerTaken.canonical, taken.canonical⟩, ⟨inner, taken.decomposed⟩,
      .group innerTaken.spells taken.spells, fun path named => ?_⟩
    have below := PathOf.field (named.mono startTakes.ids) entered
    rw [tagFieldNumber_tag] at below
    exact .group ((innerTaken.named _ below).mono fun named => named.mono ending)
      (taken.named path (named.mono takes))
  refine ⟨after, _, used + 1 + innerUsed + 1, .group number innerTree tree, ?_, takenAs, ?_, ?_,
    fun fuel => ?_⟩
  · rw [FieldTree.bytes, innerBytes, spelled]
  · have whole := ((startTakes.trans innerTakes).trans endTakes).trans laterTakes
    simpa [AddMessageState.past] using whole
  · simp only [List.length_append]
    omega
  · have next := loop fuel
    rw [← Nat.add_assoc, addMessageLoop_pass (by omega) startRan, ← Nat.add_assoc, innerLoop,
      ← Nat.add_assoc, addMessageLoop_pass ?_ endRan]
    · simp only [AddMessageState.past, List.length_append, ← Nat.add_assoc] at next ⊢
      exact next
    · simp only [AddMessageState.past]
      omega

/-- The loop takes any canonical fields, by induction on their bytes. -/
theorem addMessageLoop_fields (fits : data.length ≤ u64Max) (size : Nat) :
    ∀ {fields : List (Nat × Bytes)}, TopFields fields → (joined fields).length = size →
      ∀ {state : AddMessageState} {more : Bytes}, data.drop state.pos = joined fields ++ more →
        state.pos + (joined fields).length ≤ state.currentEnd → state.currentEnd ≤ data.length →
        Consumes data depth state (joined fields) := by
  induction size using Nat.strong_induction_on with
  | _ size ih =>
  intro fields top sized state more split within inside
  -- the fields after the first
  have rest {first : Bytes} {others : List (Nat × Bytes)} (positive : 0 < first.length)
      (othersTop : TopFields others) (same : joined fields = first ++ joined others)
      (after : TransposeChunkEncoder) :
      Consumes data depth (state.past after first) (joined others) := by
    rw [same, List.length_append] at sized within
    rw [same, List.append_assoc] at split
    refine ih (joined others).length (by omega) othersTop rfl (drop_after split) ?_ inside
    rw [AddMessageState.past, Nat.add_assoc]
    exact within
  -- a field that is taken as one
  have leaf {field : FieldLeaf} {others : List (Nat × Bytes)} (canonical : field.Canonical)
      (whole : ∀ own bytes, field = .string own bytes → ¬ Enters depth state bytes)
      (othersTop : TopFields others) (same : joined fields = field.bytes ++ joined others) :
      Consumes data depth state (joined fields) := by
    have positive : 0 < field.bytes.length := by
      rw [FieldLeaf.bytes, List.length_append]
      exact Nat.add_pos_left (encodeU64_length_pos _) _
    have later := rest positive othersTop same
    rw [same] at split within ⊢
    exact Consumes.leaf canonical whole split within inside fits later
  cases top with
  | nil => exact Consumes.nil data depth state
  | @varint number value others valid small othersTop =>
      exact @leaf (.varint number value) others ⟨valid, small⟩ (fun _ _ never => nomatch never)
        othersTop rfl
  | @fixed32 number bytes others valid counted othersTop =>
      exact @leaf (.fixed32 number bytes) others ⟨valid, counted⟩ (fun _ _ never => nomatch never)
        othersTop rfl
  | @fixed64 number bytes others valid counted othersTop =>
      exact @leaf (.fixed64 number bytes) others ⟨valid, counted⟩ (fun _ _ never => nomatch never)
        othersTop rfl
  | @lengthDelimited number bytes others valid short othersTop =>
      by_cases enters : Enters depth state bytes
      · obtain ⟨inner, innerTop, spelled⟩ := isProtoMessage_splits enters.2.2
        have tagged : 0 < (tagBytes number .lengthDelimited).length := encodeU64_length_pos _
        have later := @rest
          (tagBytes number .lengthDelimited ++ (encodeU32 bytes.length ++ bytes)) others
          (by rw [List.length_append]; omega) othersTop rfl
        refine Consumes.submessage valid short enters split within inside fits ?_ later
        intro entered contentsAt contentsWithin contentsInside
        rw [joined_cons, List.length_append, List.length_append, List.length_append] at sized
        rw [← spelled] at contentsAt contentsWithin ⊢
        refine ih (joined inner).length ?_ innerTop rfl contentsAt contentsWithin contentsInside
        rw [spelled]
        omega
      · refine @leaf (.string number bytes) others ⟨valid, short⟩ ?_ othersTop rfl
        intro own contents same
        cases same
        exact enters
  | @group number inner others valid innerTop othersTop =>
      have tagged : 0 < (tagBytes number .startGroup).length := encodeU64_length_pos _
      have later := @rest
        (tagBytes number .startGroup ++ (joined inner ++ tagBytes number .endGroup)) others
        (by rw [List.length_append]; omega) othersTop rfl
      refine Consumes.group valid split within inside ?_ later
      intro entered contentsAt contentsWithin contentsInside
      rw [joined_cons, List.length_append, List.length_append, List.length_append] at sized
      exact ih (joined inner).length (by omega) innerTop rfl contentsAt contentsWithin
        contentsInside

/-- A valid message is taken as a tree. -/
theorem addMessage_takes (fits : data.length ≤ u64Max) (valid : isProtoMessage data = true)
    (encoder : TransposeChunkEncoder) (parent : Nat) :
    ∃ after added, ∃ tree : FieldTree, encoder.addMessage data parent depth = .ok after ∧
      tree.bytes = data ∧ TakenAs encoder after parent depth added tree ∧
      Takes encoder after added := by
  obtain ⟨fields, top, spelled⟩ := isProtoMessage_splits valid
  obtain ⟨after, added, used, tree, bytes, taken, takes, bounded, loop⟩ :=
    @addMessageLoop_fields data depth fits (joined fields).length fields top rfl
      { encoder := encoder
        pos := 0
        messageStack := []
        groupStack := []
        currentParent := parent
        currentEnd := data.length } []
      (by rw [List.append_nil, spelled]; rfl)
      (by rw [spelled, Nat.zero_add]) (Nat.le_refl _)
  rw [spelled] at bytes bounded loop
  refine ⟨after, added, tree, ?_, bytes, taken, takes⟩
  have started := loop (data.length - used + 1)
  rw [show data.length - used + 1 + used = data.length + 1 by omega] at started
  have same {state : AddMessageState} (shallow : state.messageStack = []) :
      settle state = state := by
    unfold settle
    rw [shallow, popFrames, ← shallow]
  rw [same rfl, same rfl] at started
  rw [addMessage, started, addMessageLoop, if_neg (by rw [AddMessageState.past, Nat.zero_add]; exact Nat.lt_irrefl _),
    Except.ok_bind]
  rfl

/-! ## Records -/

/-- The counts after one more record. -/
structure CountsRecord (before after : TransposeChunkEncoder) (record : Bytes) : Prop where
  compression : after.compression = before.compression
  compressOpts : after.compressOpts = before.compressOpts
  bucketSize : after.bucketSize = before.bucketSize
  numRecords : after.numRecords = before.numRecords + 1
  decodedDataSize : after.decodedDataSize = before.decodedDataSize + record.length

/-- Adding a record succeeds, and stores the tags of the record. -/
theorem addRecord_collected (encoder : TransposeChunkEncoder) {record : Bytes}
    (fits : record.length ≤ u64Max) :
    ∃ after, encoder.addRecord record = .ok after ∧ CountsRecord encoder after record ∧
      (record.length ≤ u32Max → ∃ added, RecordOps added record ∧
        SpelledRecord after.PathOf added record ∧ KeepsIds encoder after ∧
        ∀ ops, Collected encoder ops → Collected after (ops ++ added)) := by
  have counted : ∀ ops, Collected encoder ops → Collected
      { encoder with
        numRecords := encoder.numRecords + 1
        decodedDataSize := encoder.decodedDataSize + record.length } ops :=
    fun ops collected => ⟨collected.canonical, collected.indexed, collected.known, collected.tags,
      collected.chunks, collected.lengths⟩
  unfold addRecord
  by_cases valid : isProtoMessage record = true
  · simp only [if_pos valid]
    have started := @pushEncodedTag_takes .startOfMessage trivial rfl rfl
      { encoder with
        numRecords := encoder.numRecords + 1
        decodedDataSize := encoder.decodedDataSize + record.length }
    obtain ⟨after, added, tree, ran, bytes, taken, takes⟩ :=
      @addMessage_takes record 0 fits valid
        (pushEncodedTag
          { encoder with
            numRecords := encoder.numRecords + 1
            decodedDataSize := encoder.decodedDataSize + record.length }
          startOfMessageNode Subtype.trivial) MessageId.root
    have both := started.trans takes
    refine ⟨after, ran, ⟨both.settings.compression, both.settings.compressOpts,
      both.settings.bucketSize, both.settings.numRecords, both.settings.decodedDataSize⟩, ?_⟩
    intro _
    have keeps : KeepsIds encoder after := both.ids.around rfl rfl rfl rfl
    refine ⟨.startOfMessage :: added, ?_, ?_, keeps,
      fun ops collected => both.collected ops (counted ops collected)⟩
    · rw [← bytes]
      exact .proto taken.canonical taken.spells
    · rw [← bytes] at valid ⊢
      exact .proto valid taken.canonical taken.decomposed (taken.named [] .root)
  · simp only [if_neg valid]
    obtain ⟨added, registers, registered, found⟩ :=
      getPosInTagsList_registers
        { encoder with
          numRecords := encoder.numRecords + 1
          decodedDataSize := encoder.decodedDataSize + record.length }
        nonProtoNode Subtype.trivial
    refine ⟨_, rfl, ⟨registers.settings.compression, registers.settings.compressOpts,
      registers.settings.bucketSize, registers.settings.numRecords,
      registers.settings.decodedDataSize⟩, fun short => ?_⟩
    have filled : record ≠ [] := by
      rintro rfl
      exact valid rfl
    refine ⟨[.nonProto record], .nonProto filled short,
      .nonProto (Bool.eq_false_of_not_eq_true valid) filled,
      registers.ids.around rfl rfl rfl rfl, fun ops collected => ?_⟩
    refine (counted ops collected).push ⟨filled, short⟩
      (registers.indexed (counted ops collected).indexed) registers.tagsList registered
      (congrArg (· ++ _) registers.encodedTags) (found (counted ops collected).indexed) ?_ ?_
    · intro bufType
      have data := registers.data
      change HoldsChunks bufType (ops ++ [.nonProto record])
        (if bufType = .nonProto then pushChunkAt nonProtoNode record _ else _)
      by_cases own : bufType = .nonProto
      · rw [if_pos own, own]
        have pushed := @HoldsChunks.push ops .nonProto _ (.nonProto record)
          (collected.chunks .nonProto) rfl filled
        rw [← show _ = encoder.data from data] at pushed
        exact pushed
      · rw [if_neg own]
        have kept := @HoldsChunks.skip ops bufType _ (.nonProto record) (collected.chunks bufType)
          fun _ same => own same.symm
        rw [← show _ = encoder.data from data] at kept
        exact kept
    · rw [lengthsOf_append]
      have lengths : (getPosInTagsList
          { encoder with
            numRecords := encoder.numRecords + 1
            decodedDataSize := encoder.decodedDataSize + record.length }
          nonProtoNode Subtype.trivial).2.nonprotoLengths =
            Encoder.BackwardBuffer.ofChunks (lengthsOf ops) :=
        registers.nonprotoLengths.trans collected.lengths
      change Encoder.BackwardBuffer.pushChunk (getPosInTagsList _ _ _).2.nonprotoLengths _ = _
      rw [lengths, pushChunk_ofChunks]
      rfl

/-- An encoder without records. -/
theorem new_collected (compression : CompressionType) (opts : CompressOptions) (size : Nat) :
    Collected (((new compression).withCompressOpts opts).withBucketSize size) [] where
  canonical := List.forall_mem_nil _
  indexed := fun _ _ _ _ mapped => nomatch mapped
  known := List.forall_mem_nil _
  tags := .nil
  chunks := fun _ => ⟨List.nodup_nil, List.forall_mem_nil _, List.forall_mem_nil _⟩
  lengths := rfl

end TransposeChunkEncoder

end Riegeli
