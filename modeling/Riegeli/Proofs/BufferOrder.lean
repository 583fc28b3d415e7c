/-
Module: Riegeli.Proofs.BufferOrder
Purpose: The order of the buffers in a transposed chunk: one for each node with
  data, its chunks last one first, and the lengths of the non-proto records at
  the end.
Trusted boundary: none
Main exports: storedBytes, Filed, collectAndSortBuffers_files, dataSize_le
-/
import Mathlib.Algebra.BigOperators.Group.List.Basic
import Mathlib.Data.List.Perm.Basic
import Riegeli.Library.Related
import Riegeli.Proofs.TagCollection
import Riegeli.Core.TransposeChunk

namespace Riegeli

/-! ## One buffer -/

theorem writeToLoop_chunks (chunks : List Bytes) :
    ∀ (rest : Bytes), Encoder.BackwardBuffer.writeToLoop (chunks.reverse.flatten ++ rest)
      (chunks.map List.length) chunks.flatten.length = .ok chunks.flatten := by
  induction chunks with
  | nil => exact fun _ => rfl
  | cons chunk chunks ih =>
      intro rest
      have total : (chunks.reverse.flatten).length = chunks.flatten.length := by
        rw [List.length_flatten, List.length_flatten, List.map_reverse, List.sum_reverse]
      rw [List.map_cons, Encoder.BackwardBuffer.writeToLoop, List.flatten_cons, List.length_append,
        subWord_eq (Nat.le_add_right _ _), Except.ok_bind, Nat.add_sub_cancel_left,
        List.reverse_cons, List.flatten_append, List.flatten_singleton, List.append_assoc]
      have cut : sliceRange (chunks.reverse.flatten ++ (chunk ++ rest)) chunks.flatten.length
          (chunk.length + chunks.flatten.length) = .ok chunk := by
        rw [sliceRange_eq (Nat.le_add_left _ _) (by
          rw [List.length_append, List.length_append, total]
          omega), List.drop_left' total, Nat.add_sub_cancel, List.take_left]
      rw [cut, Except.ok_bind, ih, Except.ok_bind]

/-- A buffer is written with its last chunk first. -/
theorem writeTo_ofChunks (chunks : List Bytes) :
    (Encoder.BackwardBuffer.ofChunks chunks).writeTo = .ok chunks.reverse.flatten := by
  have total : chunks.flatten.length = chunks.reverse.flatten.length := by
    rw [List.length_flatten, List.length_flatten, List.map_reverse, List.sum_reverse]
  have written := writeToLoop_chunks chunks.reverse []
  rw [List.reverse_reverse, List.append_nil, ← total, List.map_reverse] at written
  exact written

/-- The bytes that a chunk stores for a node. -/
def storedBytes (nodeId : NodeId) (ops : List TagOp) : Bytes := (chunksOf nodeId ops).reverse.flatten

theorem length_storedBytes (nodeId : NodeId) (ops : List TagOp) :
    (storedBytes nodeId ops).length = (chunksOf nodeId ops).flatten.length := by
  rw [storedBytes, List.length_flatten, List.length_flatten, List.map_reverse, List.sum_reverse]

theorem chunksOf_filled {nodeId : NodeId} {ops : List TagOp} :
    ∀ chunk ∈ chunksOf nodeId ops, chunk ≠ [] := by
  intro chunk member
  obtain ⟨op, kept, rfl⟩ := List.mem_map.mp member
  exact (of_decide_eq_true (List.mem_filter.mp kept).2).2

theorem storedBytes_ne_nil {nodeId : NodeId} {ops : List TagOp} (present : chunksOf nodeId ops ≠ []) :
    storedBytes nodeId ops ≠ [] := by
  obtain ⟨chunk, rest, same⟩ := List.exists_cons_of_ne_nil present
  have filled := @chunksOf_filled nodeId ops chunk (by rw [same]; exact List.mem_cons_self)
  intro empty
  have member : chunk ∈ (chunksOf nodeId ops).reverse := by
    rw [List.mem_reverse, same]
    exact List.mem_cons_self
  exact filled (List.flatten_eq_nil_iff.mp empty chunk member)

/-! ## The buffers collected so far -/

/-- The buffers of these nodes have been collected, in this order. -/
structure Filed (ops : List TagOp) (ids : List NodeId) (sorted : SortedBuffers) : Prop where
  distinct : ids.Nodup
  present : ∀ id ∈ ids, chunksOf id ops ≠ []
  buffers : sorted.allBuffers = ids.map fun id => storedBytes id ops
  sizes : sorted.bufferSizes = sorted.allBuffers.map List.length
  places : ∀ id, sorted.bufferPos id = if id ∈ ids then some (ids.idxOf id) else none

variable {ops : List TagOp} {ids : List NodeId} {sorted : SortedBuffers}

theorem collectBuffers_files (buffers : List BufferWithMetadata) :
    ∀ {ids : List NodeId} {sorted : SortedBuffers}, Filed ops ids sorted →
      (ids ++ buffers.map BufferWithMetadata.nodeId).Nodup →
      (∀ buffer ∈ buffers, chunksOf buffer.nodeId ops ≠ [] ∧
        buffer.data = Encoder.BackwardBuffer.ofChunks (chunksOf buffer.nodeId ops)) →
      ∃ sorted' group, collectBuffers buffers sorted = .ok (sorted', group) ∧
        Filed ops (ids ++ buffers.map BufferWithMetadata.nodeId) sorted' ∧
        sorted'.groups = sorted.groups ∧ sorted'.allBuffers = sorted.allBuffers ++ group := by
  induction buffers with
  | nil =>
      intro ids sorted filed _ _
      exact ⟨sorted, [], rfl, by simpa using filed, rfl, (List.append_nil _).symm⟩
  | cons buffer rest ih =>
      intro ids sorted filed distinct holds
      obtain ⟨⟨present, data⟩, later⟩ := List.forall_mem_cons.mp holds
      rw [List.map_cons, ← List.singleton_append, ← List.append_assoc] at distinct
      have early := (List.nodup_append.mp distinct).1
      have absent : buffer.nodeId ∉ ids := fun member =>
        (List.nodup_append.mp early).2.2 _ member _ (List.mem_singleton_self _) rfl
      have length : sorted.allBuffers.length = ids.length := by
        rw [filed.buffers, List.length_map]
      have size : buffer.data.data.length = (storedBytes buffer.nodeId ops).length := by
        rw [length_storedBytes, data]
        rfl
      have next : Filed ops (ids ++ [buffer.nodeId])
          { sorted with
            allBuffers := sorted.allBuffers ++ [storedBytes buffer.nodeId ops]
            bufferSizes := sorted.bufferSizes ++ [buffer.data.data.length]
            bufferPos := fun id =>
              if id = buffer.nodeId then some sorted.allBuffers.length else sorted.bufferPos id } := by
        refine ⟨early, ?_, ?_, ?_, fun id => ?_⟩
        · intro id member
          rcases List.mem_append.mp member with old | new
          · exact filed.present id old
          · rw [List.mem_singleton.mp new]
            exact present
        · rw [List.map_append, ← filed.buffers]
          rfl
        · rw [List.map_append, ← filed.sizes, size]
          rfl
        · change (if id = buffer.nodeId then some sorted.allBuffers.length
            else sorted.bufferPos id) = _
          by_cases own : id = buffer.nodeId
          · rw [if_pos own, if_pos (List.mem_append_right _ (List.mem_singleton.mpr own)), own,
              List.idxOf_append_of_notMem absent, List.idxOf_cons_self, length, Nat.add_zero]
          · rw [if_neg own, filed.places]
            by_cases old : id ∈ ids
            · rw [if_pos old, if_pos (List.mem_append_left _ old), List.idxOf_append_of_mem old]
            · rw [if_neg old, if_neg]
              intro member
              rcases List.mem_append.mp member with known | new
              · exact old known
              · exact own (List.mem_singleton.mp new)
      obtain ⟨sorted', group, ran, filed', groups, all⟩ := ih next distinct later
      refine ⟨sorted', storedBytes buffer.nodeId ops :: group, ?_, ?_, groups, ?_⟩
      · rw [collectBuffers, data, writeTo_ofChunks, Except.ok_bind]
        rw [data] at ran
        change (collectBuffers rest _ >>= _) = _
        rw [show (chunksOf buffer.nodeId ops).reverse.flatten = storedBytes buffer.nodeId ops from rfl,
          ran]
        rfl
      · rw [List.map_cons, ← List.singleton_append, ← List.append_assoc]
        exact filed'
      · rw [all, List.append_assoc]
        rfl

/-! ## All buffers -/

/-- The lists of the encoder hold what the tags put into the buffers. -/
abbrev HoldsAll (ops : List TagOp) (data : BufferType → List BufferWithMetadata) : Prop :=
  ∀ bufType, TransposeChunkEncoder.HoldsChunks bufType ops (data bufType)

/-- The loop over the buffer types collects every buffer of these types. -/
theorem collectGroups_files {data : BufferType → List BufferWithMetadata} (holds : HoldsAll ops data)
    (types : List BufferType) :
    ∀ {ids : List NodeId} {sorted : SortedBuffers}, types.Nodup → Filed ops ids sorted →
      (∀ id ∈ ids, bufferTypeOf id ∉ types) → sorted.groups.flatten = sorted.allBuffers →
      ∃ sorted' more, collectGroups data types sorted = .ok sorted' ∧
        Filed ops (ids ++ more) sorted' ∧ sorted'.groups.flatten = sorted'.allBuffers ∧
        ∀ bufType ∈ types, ∀ buffer ∈ data bufType, buffer.nodeId ∈ more := by
  induction types with
  | nil =>
      intro ids sorted _ filed _ grouped
      exact ⟨sorted, [], rfl, by simpa using filed, grouped, List.forall_mem_nil _⟩
  | cons bufType rest ih =>
      intro ids sorted once filed apart grouped
      obtain ⟨new, onceRest⟩ := List.nodup_cons.mp once
      have perm := List.mergeSort_perm (data bufType) BufferWithMetadata.le
      have own : ∀ buffer ∈ (data bufType).mergeSort BufferWithMetadata.le,
          bufferTypeOf buffer.nodeId = bufType ∧ chunksOf buffer.nodeId ops ≠ [] ∧
            buffer.data = Encoder.BackwardBuffer.ofChunks (chunksOf buffer.nodeId ops) :=
        fun buffer member => (holds bufType).holds buffer (perm.mem_iff.mp member)
      have distinct : (ids ++ ((data bufType).mergeSort BufferWithMetadata.le).map
          BufferWithMetadata.nodeId).Nodup := by
        refine List.nodup_append.mpr ⟨filed.distinct,
          (perm.map _).nodup_iff.mpr (holds bufType).distinct, ?_⟩
        rintro id old _ member rfl
        obtain ⟨buffer, listed, rfl⟩ := List.mem_map.mp member
        exact apart _ old (by rw [(own buffer listed).1]; exact List.mem_cons_self)
      obtain ⟨next, group, ran, filedNext, groups, all⟩ :=
        collectBuffers_files _ filed distinct fun buffer member => (own buffer member).2
      have apartNext : ∀ id ∈ ids ++ ((data bufType).mergeSort BufferWithMetadata.le).map
          BufferWithMetadata.nodeId, bufferTypeOf id ∉ rest := by
        intro id member
        rcases List.mem_append.mp member with old | added
        · exact fun later => apart id old (List.mem_cons_of_mem _ later)
        · obtain ⟨buffer, listed, rfl⟩ := List.mem_map.mp added
          rw [(own buffer listed).1]
          exact new
      have kept : Filed ops (ids ++ ((data bufType).mergeSort BufferWithMetadata.le).map
          BufferWithMetadata.nodeId)
          (if group.isEmpty then next else { next with groups := next.groups ++ [group] }) := by
        split
        · exact filedNext
        · exact ⟨filedNext.distinct, filedNext.present, filedNext.buffers, filedNext.sizes,
            filedNext.places⟩
      have groupedNext : (if group.isEmpty then next
          else { next with groups := next.groups ++ [group] }).groups.flatten =
            (if group.isEmpty then next
              else { next with groups := next.groups ++ [group] }).allBuffers := by
        split
        · rename_i empty
          rw [groups, grouped, all, List.isEmpty_iff.mp empty, List.append_nil]
        · change (next.groups ++ [group]).flatten = next.allBuffers
          rw [List.flatten_append, groups, grouped, List.flatten_singleton, all]
      obtain ⟨sorted', more, ranRest, filed', grouped', covers⟩ :=
        ih onceRest kept apartNext groupedNext
      refine ⟨sorted', ((data bufType).mergeSort BufferWithMetadata.le).map
        BufferWithMetadata.nodeId ++ more, ?_, ?_, grouped', ?_⟩
      · rw [collectGroups, ran, Except.ok_bind]
        exact ranRest
      · rw [← List.append_assoc]
        exact filed'
      · intro other listed buffer member
        rcases List.mem_cons.mp listed with rfl | later
        · exact List.mem_append_left _ (List.mem_map_of_mem (perm.mem_iff.mpr member))
        · exact List.mem_append_right _ (covers other later buffer member)

/-- All buffers of a chunk: one for each of these nodes, and the lengths of the
non-proto records at the end when there are any. -/
structure AllFiled (ops : List TagOp) (ids : List NodeId) (sorted : SortedBuffers) : Prop where
  distinct : ids.Nodup
  present : ∀ id ∈ ids, chunksOf id ops ≠ []
  complete : ∀ op ∈ ops, op.chunk ≠ [] → op.nodeId ∈ ids
  buffers : sorted.allBuffers = (ids.map fun id => storedBytes id ops) ++
    (if lengthsOf ops = [] then [] else [(lengthsOf ops).reverse.flatten])
  sizes : sorted.bufferSizes = sorted.allBuffers.map List.length
  places : ∀ id, sorted.bufferPos id = if id ∈ ids then some (ids.idxOf id) else none
  grouped : sorted.groups.flatten = sorted.allBuffers

theorem lengthsOf_filled : ∀ chunk ∈ lengthsOf ops, chunk ≠ [] := by
  induction ops with
  | nil => exact List.forall_mem_nil _
  | cons op rest ih =>
      cases op with
      | nonProto record =>
          refine List.forall_mem_cons.mpr ⟨?_, ih⟩
          exact List.ne_nil_of_length_pos (encodeU64_length_pos _)
      | startOfMessage => exact ih
      | leaf parent field => exact ih
      | startOfSubmessage parent number => exact ih
      | endOfSubmessage parent number => exact ih
      | startGroup parent number => exact ih
      | endGroup parent number => exact ih

theorem flatten_lengthsOf_nil : (lengthsOf ops).flatten = [] ↔ lengthsOf ops = [] := by
  constructor
  · intro empty
    cases lengths : lengthsOf ops with
    | nil => rfl
    | cons chunk rest =>
        have member : chunk ∈ lengthsOf ops := by
          rw [lengths]
          exact List.mem_cons_self
        exact absurd (List.flatten_eq_nil_iff.mp empty chunk member) (lengthsOf_filled chunk member)
  · intro empty
    rw [empty]
    rfl

/-- `collect_and_sort_buffers` collects all buffers. -/
theorem collectAndSortBuffers_files {encoder : TransposeChunkEncoder}
    (collected : encoder.Collected ops) :
    ∃ sorted ids, encoder.collectAndSortBuffers = .ok sorted ∧ AllFiled ops ids sorted := by
  have started : Filed ops []
      { allBuffers := [], bufferSizes := [], bufferPos := fun _ => none, groups := [] } :=
    ⟨List.nodup_nil, List.forall_mem_nil _, rfl, rfl, fun _ => rfl⟩
  obtain ⟨sorted, ids, ran, filed, grouped, covers⟩ :=
    collectGroups_files collected.chunks allBufferTypes (by decide) started
      (List.forall_mem_nil _) rfl
  rw [List.nil_append] at filed
  have complete : ∀ op ∈ ops, op.chunk ≠ [] → op.nodeId ∈ ids := by
    intro op member filled
    have listed := (collected.chunks (bufferTypeOf op.nodeId)).complete op member filled rfl
    obtain ⟨buffer, present, same⟩ := List.mem_map.mp listed
    rw [← same]
    refine covers (bufferTypeOf op.nodeId) ?_ buffer present
    cases bufferTypeOf op.nodeId <;> decide
  have lengths : encoder.nonprotoLengths.data = (lengthsOf ops).flatten := by
    rw [collected.lengths]
    rfl
  unfold TransposeChunkEncoder.collectAndSortBuffers
  rw [ran, Except.ok_bind]
  by_cases none : lengthsOf ops = []
  · rw [if_pos (by rw [lengths, flatten_lengthsOf_nil.mpr none]; rfl)]
    refine ⟨sorted, ids, rfl, filed.distinct, filed.present, complete, ?_, filed.sizes,
      filed.places, grouped⟩
    rw [if_pos none, List.append_nil]
    exact filed.buffers
  · have some : ¬ encoder.nonprotoLengths.data.isEmpty = true := by
      rw [lengths, List.isEmpty_iff, flatten_lengthsOf_nil]
      exact none
    rw [if_neg some, collected.lengths, writeTo_ofChunks, Except.ok_bind]
    refine ⟨_, ids, rfl, filed.distinct, filed.present, complete, ?_, ?_, filed.places, ?_⟩
    · rw [if_neg none, ← filed.buffers]
    · have total : (Encoder.BackwardBuffer.ofChunks (lengthsOf ops)).data.length =
          ((lengthsOf ops).reverse.flatten).length := by
        rw [Encoder.BackwardBuffer.ofChunks, List.length_flatten, List.length_flatten,
          List.map_reverse, List.sum_reverse]
      simp only [List.map_append, List.map_cons, List.map_nil, ← filed.sizes, total]
    · rw [List.flatten_append, grouped, List.flatten_singleton]

/-! ## Sizes -/

section Sizes

variable (filed : AllFiled ops ids sorted)

include filed

theorem AllFiled.filled : ∀ buffer ∈ sorted.allBuffers, buffer ≠ [] := by
  intro buffer member
  rw [filed.buffers] at member
  rcases List.mem_append.mp member with stored | last
  · obtain ⟨id, listed, rfl⟩ := List.mem_map.mp stored
    exact storedBytes_ne_nil (filed.present id listed)
  · split at last
    · cases last
    · rename_i some
      rw [List.mem_singleton.mp last]
      intro empty
      have total : ((lengthsOf ops).flatten).length = ((lengthsOf ops).reverse.flatten).length := by
        rw [List.length_flatten, List.length_flatten, List.map_reverse, List.sum_reverse]
      rw [empty] at total
      exact some (flatten_lengthsOf_nil.mp (List.eq_nil_of_length_eq_zero total))

theorem AllFiled.length : sorted.allBuffers.length =
    ids.length + (if lengthsOf ops = [] then 0 else 1) := by
  rw [filed.buffers, List.length_append, List.length_map]
  split <;> rfl

/-- There are no more buffers than tags, apart from the lengths. -/
theorem AllFiled.length_le {encoder : TransposeChunkEncoder} (collected : encoder.Collected ops) :
    sorted.allBuffers.length ≤ encoder.tagsList.length + 1 := by
  have subset : ids ⊆ encoder.tagsList.map EncodedTagInfo.nodeId := by
    intro id member
    obtain ⟨chunk, rest, same⟩ := List.exists_cons_of_ne_nil (filed.present id member)
    have first : chunk ∈ chunksOf id ops := by
      rw [same]
      exact List.mem_cons_self
    obtain ⟨op, kept, _⟩ := List.mem_map.mp first
    obtain ⟨listed, own⟩ := List.mem_filter.mp kept
    obtain ⟨index, _, found⟩ := forall₂_left collected.tags listed
    rw [← (of_decide_eq_true own).1]
    exact List.mem_map.mpr ⟨_, List.mem_of_getElem? found, rfl⟩
  have few := (List.subperm_of_subset filed.distinct subset).length_le
  rw [List.length_map] at few
  rw [filed.length]
  split <;> omega

end Sizes

/-- Distinct nodes store no more than the tags put into them. -/
theorem sum_storedBytes_le (ops : List TagOp) (distinct : ids.Nodup) :
    (ids.map fun id => (storedBytes id ops).length).sum ≤
      (ops.map fun op => op.chunk.length).sum := by
  have step : ∀ (op : TagOp) (ids : List NodeId), ids.Nodup →
      (ids.map fun id => (storedBytes id [op]).length).sum ≤ op.chunk.length := by
    intro op ids distinct
    induction ids with
    | nil => exact Nat.zero_le _
    | cons id rest ih =>
        obtain ⟨new, distinct⟩ := List.nodup_cons.mp distinct
        rw [List.map_cons, List.sum_cons]
        by_cases own : op.nodeId = id ∧ op.chunk ≠ []
        · have others : (rest.map fun id => (storedBytes id [op]).length).sum = 0 := by
            refine List.sum_eq_zero fun size member => ?_
            obtain ⟨other, listed, rfl⟩ := List.mem_map.mp member
            rw [storedBytes, TransposeChunkEncoder.chunksOf_skip]
            · rfl
            · rintro ⟨same, _⟩
              exact new (by rw [← own.1, same]; exact listed)
          rw [others, storedBytes, TransposeChunkEncoder.chunksOf_take own.1 own.2]
          simp
        · rw [storedBytes, TransposeChunkEncoder.chunksOf_skip own]
          have later := ih distinct
          simpa using later
  induction ops with
  | nil =>
      refine Nat.le_of_eq (List.sum_eq_zero fun size member => ?_)
      obtain ⟨id, _, rfl⟩ := List.mem_map.mp member
      rfl
  | cons op rest ih =>
      have split : (fun id => (storedBytes id (op :: rest)).length) =
          fun id => (storedBytes id [op]).length + (storedBytes id rest).length := by
        funext id
        rw [length_storedBytes, length_storedBytes, length_storedBytes, ← List.singleton_append,
          TransposeChunkEncoder.chunksOf_append, List.flatten_append, List.length_append]
      rw [split, List.sum_map_add, List.map_cons, List.sum_cons]
      exact Nat.add_le_add (step op ids distinct) ih

theorem FieldLeaf.chunk_le (field : FieldLeaf) : field.chunk.length ≤ field.bytes.length := by
  have value : field.chunk.length ≤ field.value.length := by
    cases field with
    | varint number value =>
        by_cases small : value ≤ maxVarintInline
        · rw [FieldLeaf.chunk, if_pos small]
          exact Nat.zero_le _
        · rw [FieldLeaf.chunk, if_neg small, List.length_map]
          exact Nat.le_refl _
    | fixed32 number bytes => exact Nat.le_refl _
    | fixed64 number bytes => exact Nat.le_refl _
    | string number bytes => exact Nat.le_refl _
  rw [FieldLeaf.bytes, List.length_append]
  omega

/-- The tags of a tree put no more into buffers than the tree has bytes. -/
theorem Spells.chunks_le {tree : FieldTree} (spells : Spells ops tree) :
    (ops.map fun op => op.chunk.length).sum ≤ tree.bytes.length := by
  induction spells with
  | nil => exact Nat.le_refl _
  | @leaf ops parent field rest _ ih =>
      have own := field.chunk_le
      rw [FieldTree.bytes, List.length_append, List.map_cons, List.sum_cons]
      exact Nat.add_le_add own ih
  | @submessage inner ops parent number contents rest _ _ inside after =>
      have start : (TagOp.startOfSubmessage parent number).chunk.length = 0 := rfl
      have stop : (TagOp.endOfSubmessage parent number).chunk.length = 0 := rfl
      simp only [FieldTree.bytes, List.length_append, List.map_cons, List.sum_cons, List.map_append,
        List.sum_append, start, stop]
      omega
  | @group inner ops parent own number contents rest _ _ inside after =>
      have start : (TagOp.startGroup parent number).chunk.length = 0 := rfl
      have stop : (TagOp.endGroup own number).chunk.length = 0 := rfl
      simp only [FieldTree.bytes, List.length_append, List.map_cons, List.sum_cons, List.map_append,
        List.sum_append, start, stop]
      omega

/-- Only non-proto records have a length of their own. -/
theorem Spells.lengthsOf_nil {tree : FieldTree} (spells : Spells ops tree) : lengthsOf ops = [] := by
  induction spells with
  | nil => rfl
  | leaf _ ih => exact ih
  | @submessage inner ops parent number _ _ _ _ inside after =>
      change lengthsOf (inner ++ .endOfSubmessage parent number :: ops) = []
      rw [TransposeChunkEncoder.lengthsOf_append, inside]
      exact after
  | @group inner ops parent own number _ _ _ _ inside after =>
      change lengthsOf (inner ++ .endGroup own number :: ops) = []
      rw [TransposeChunkEncoder.lengthsOf_append, inside]
      exact after

/-- The buffers of a record take up no more than the record, and a length for
one that is not a message. -/
theorem RecordOps.sizes_le {record : Bytes} (recordOps : RecordOps ops record) :
    (ops.map fun op => op.chunk.length).sum ≤ record.length ∧
      (lengthsOf ops).flatten.length ≤ 10 := by
  cases recordOps with
  | @proto ops fields _ spells =>
      have none : lengthsOf (.startOfMessage :: ops) = [] := spells.lengthsOf_nil
      rw [none]
      refine ⟨?_, Nat.zero_le _⟩
      have start : TagOp.startOfMessage.chunk.length = 0 := rfl
      rw [List.map_cons, List.sum_cons, start, Nat.zero_add]
      exact spells.chunks_le
  | nonProto _ _ =>
      refine ⟨Nat.le_of_eq (Nat.add_zero _), ?_⟩
      have one : lengthsOf [.nonProto record] = [encodeU64 record.length] := rfl
      rw [one, List.flatten_singleton]
      exact encodeU64_length_le _

theorem RecordsOps.sizes_le {records : List Bytes} (recordsOps : RecordsOps ops records) :
    (ops.map fun op => op.chunk.length).sum ≤ (records.map List.length).sum ∧
      (lengthsOf ops).flatten.length ≤ 10 * records.length := by
  induction recordsOps with
  | nil => exact ⟨Nat.le_refl _, Nat.le_refl _⟩
  | @snoc before added records record _ recordOps ih =>
      obtain ⟨chunks, lengths⟩ := recordOps.sizes_le
      rw [List.map_append, List.sum_append, List.map_append, List.sum_append,
        TransposeChunkEncoder.lengthsOf_append,
        List.flatten_append, List.length_append, List.length_append]
      simp only [List.map_cons, List.map_nil, List.sum_cons, List.sum_nil, List.length_singleton]
      omega

/-- All buffers together are hardly larger than the records. -/
theorem AllFiled.total_le (filed : AllFiled ops ids sorted) {records : List Bytes}
    (recordsOps : RecordsOps ops records) :
    sorted.allBuffers.flatten.length ≤ (records.map List.length).sum + 10 * records.length := by
  obtain ⟨chunks, lengths⟩ := recordsOps.sizes_le
  have stored := sum_storedBytes_le ops filed.distinct
  have last : (if lengthsOf ops = [] then [] else [(lengthsOf ops).reverse.flatten]).flatten.length ≤
      (lengthsOf ops).flatten.length := by
    split
    · exact Nat.zero_le _
    · rw [List.flatten_singleton, List.length_flatten, List.length_flatten, List.map_reverse,
        List.sum_reverse]
  rw [filed.buffers, List.flatten_append, List.length_append, List.length_flatten, List.map_map]
  have same : (ids.map (List.length ∘ fun id => storedBytes id ops)).sum =
      (ids.map fun id => (storedBytes id ops).length).sum := rfl
  rw [same]
  omega

end Riegeli
