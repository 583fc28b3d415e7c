/-
Module: Riegeli.Proofs.HeldBuffers
Purpose: The decoder's cursors while the tags are replayed, last one first:
  each stands before what the tags still to come have stored.
Trusted boundary: none
Main exports: BuffersHold, readBuffer_stored, readBuffer_length,
  BuffersHold.skip, buffersHold_all
-/
import Riegeli.Proofs.CursorReads
import Riegeli.Proofs.BufferOrder

namespace Riegeli

/-- The cursors that are read stand before the values of the tags in `stored`,
and the cursor of the record lengths before those of the tags in `counted`. -/
structure BuffersHold (ids : List NodeId) (reads : NodeId → Bool) (lengths : Bool)
    (stored counted : List TagOp) (buffers : List BufferCursor) : Prop where
  values : ∀ id ∈ ids, reads id = true → ∃ cursor : BufferCursor,
    buffers[ids.idxOf id]? = some cursor ∧ cursor.Before (storedBytes id stored)
  lengths : lengths = true → ∃ cursor : BufferCursor,
    buffers[ids.length]? = some cursor ∧ cursor.Before (lengthsOf counted).reverse.flatten

variable {ids : List NodeId} {reads : NodeId → Bool} {lengths : Bool}
  {stored counted : List TagOp} {buffers : List BufferCursor} {op : TagOp}

theorem chunksOf_single (id : NodeId) (op : TagOp) :
    (chunksOf id [op]).reverse.flatten = if op.nodeId = id then op.chunk else [] := by
  unfold chunksOf
  rw [List.filter_cons]
  by_cases same : op.nodeId = id
  · by_cases filled : op.chunk = []
    · simp [same, filled]
    · simp [same, filled]
  · simp [same]

theorem storedBytes_snoc (id : NodeId) (stored : List TagOp) (op : TagOp) :
    storedBytes id (stored ++ [op]) =
      (if op.nodeId = id then op.chunk else []) ++ storedBytes id stored := by
  rw [storedBytes, TransposeChunkEncoder.chunksOf_append, List.reverse_append, List.flatten_append,
    chunksOf_single, storedBytes]

theorem storedBytes_snoc_self (stored : List TagOp) (op : TagOp) :
    storedBytes op.nodeId (stored ++ [op]) = op.chunk ++ storedBytes op.nodeId stored := by
  rw [storedBytes_snoc, if_pos rfl]

theorem storedBytes_snoc_other {id : NodeId} (other : op.nodeId ≠ id) (stored : List TagOp) :
    storedBytes id (stored ++ [op]) = storedBytes id stored := by
  rw [storedBytes_snoc, if_neg other, List.nil_append]

/-- The chunk of a tag is read from the front of its buffer. -/
theorem readBuffer_stored {Item : Type} {item : Item}
    {read : BufferCursor → Rust (Item × BufferCursor)}
    (hold : BuffersHold ids reads lengths (stored ++ [op]) counted buffers)
    (listed : op.nodeId ∈ ids) (wanted : reads op.nodeId = true)
    (readsChunk : ∀ {cursor : BufferCursor} {rest : Bytes}, cursor.Before (op.chunk ++ rest) →
      read cursor = .ok (item, cursor.skip op.chunk.length)) :
    ∃ buffers', readBuffer buffers (ids.idxOf op.nodeId) read = .ok (item, buffers') ∧
      BuffersHold ids reads lengths stored counted buffers' := by
  obtain ⟨cursor, found, before⟩ := hold.values _ listed wanted
  rw [storedBytes_snoc_self] at before
  have inside := (List.getElem?_eq_some_iff.mp found).1
  refine ⟨buffers.set (ids.idxOf op.nodeId) (cursor.skip op.chunk.length), ?_, ?_,
    fun flagged => ?_⟩
  · rw [readBuffer, indexAt_eq_ok.mpr found, Except.ok_bind, readsChunk before, Except.ok_bind]
    simp only
    rw [setAt_eq inside, Except.ok_bind]
  · intro id member wanted'
    by_cases same : op.nodeId = id
    · subst same
      exact ⟨_, List.getElem?_set_self inside, before.skip⟩
    · obtain ⟨other, found', before'⟩ := hold.values id member wanted'
      rw [storedBytes_snoc_other same] at before'
      refine ⟨other, ?_, before'⟩
      rw [List.getElem?_set_ne, found']
      intro equal
      exact same ((List.idxOf_inj listed).mp equal)
  · obtain ⟨other, found', before'⟩ := hold.lengths flagged
    refine ⟨other, ?_, before'⟩
    have apart := List.idxOf_lt_length_iff.mpr listed
    rw [List.getElem?_set_ne (by omega), found']

/-- The length of a record that is no message is read from the front of the
lengths. -/
theorem readBuffer_length {record : Bytes} (short : record.length ≤ u32Max)
    (hold : BuffersHold ids reads lengths stored (counted ++ [.nonProto record]) buffers)
    (flagged : lengths = true) :
    ∃ buffers', readBuffer buffers ids.length BufferCursor.readVarint32 =
        .ok (record.length, buffers') ∧
      BuffersHold ids reads lengths stored counted buffers' := by
  obtain ⟨cursor, found, before⟩ := hold.lengths flagged
  rw [TransposeChunkEncoder.lengthsOf_append, List.reverse_append, List.flatten_append] at before
  have before : cursor.Before (encodeU32 record.length ++ (lengthsOf counted).reverse.flatten) := by
    rw [lengthsOf, lengthsOf, List.reverse_singleton, List.flatten_singleton] at before
    exact before
  have inside := (List.getElem?_eq_some_iff.mp found).1
  refine ⟨buffers.set ids.length (cursor.skip (encodeU32 record.length).length), ?_,
    fun id member wanted => ?_, fun _ => ⟨_, List.getElem?_set_self inside, before.skip⟩⟩
  · rw [readBuffer, indexAt_eq_ok.mpr found, Except.ok_bind, before.readVarint32 short,
      Except.ok_bind]
    simp only
    rw [setAt_eq inside, Except.ok_bind]
  · obtain ⟨other, found', before'⟩ := hold.values id member wanted
    refine ⟨other, ?_, before'⟩
    have apart := List.idxOf_lt_length_iff.mpr member
    rw [List.getElem?_set_ne (by omega), found']

/-- A tag whose buffer is not read leaves the cursors as they are. -/
theorem BuffersHold.skip (hold : BuffersHold ids reads lengths (stored ++ [op]) counted buffers)
    (unread : op.chunk = [] ∨ reads op.nodeId = false) :
    BuffersHold ids reads lengths stored counted buffers := by
  refine ⟨fun id member wanted => ?_, hold.lengths⟩
  obtain ⟨cursor, found, before⟩ := hold.values id member wanted
  refine ⟨cursor, found, ?_⟩
  rw [storedBytes_snoc] at before
  by_cases same : op.nodeId = id
  · rcases unread with empty | closed
    · rwa [empty, ite_self, List.nil_append] at before
    · rw [← same, closed] at wanted
      cases wanted
  · rwa [if_neg same, List.nil_append] at before

/-- A tag of a message has no record length. -/
theorem BuffersHold.uncounted {ops : List TagOp} (none : lengthsOf ops = [])
    (hold : BuffersHold ids reads lengths stored (counted ++ ops) buffers) :
    BuffersHold ids reads lengths stored counted buffers := by
  refine ⟨hold.values, fun flagged => ?_⟩
  obtain ⟨cursor, found, before⟩ := hold.lengths flagged
  rw [TransposeChunkEncoder.lengthsOf_append, none, List.append_nil] at before
  exact ⟨cursor, found, before⟩

end Riegeli
