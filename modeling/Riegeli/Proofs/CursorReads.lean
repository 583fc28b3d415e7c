/-
Module: Riegeli.Proofs.CursorReads
Purpose: What the decoder's buffer cursor reads of the bytes it stands before.
Trusted boundary: none
Main exports: BufferCursor.Before, Before.readVarint32, Before.readVarint64,
  Before.readByte, Before.readExact, Before.readMany, Before.readString
-/
import Riegeli.Proofs.MachineRun

namespace Riegeli

namespace BufferCursor

/-- A cursor over real data stands before these bytes. -/
structure Before (cursor : BufferCursor) (rest : Bytes) : Prop where
  live : cursor.pruned = false
  inside : cursor.pos ≤ cursor.data.length
  fits : cursor.data.length ≤ u64Max
  unread : cursor.unread = rest

theorem new_before {data rest : Bytes} (fits : data.length ≤ u64Max) (same : data = rest) :
    (BufferCursor.new data).Before rest := ⟨rfl, Nat.zero_le _, fits, same⟩

/-- The cursor some bytes further. -/
def skip (cursor : BufferCursor) (count : Nat) : BufferCursor :=
  { cursor with pos := cursor.pos + count }

variable {cursor : BufferCursor} {rest : Bytes}

theorem Before.unpruned (before : cursor.Before rest) : ¬ cursor.pruned = true := by
  rw [before.live]
  exact Bool.false_ne_true

theorem Before.drop (before : cursor.Before rest) : cursor.data.drop cursor.pos = rest :=
  before.unread

theorem Before.length (before : cursor.Before rest) :
    cursor.pos + rest.length = cursor.data.length := by
  have inside := before.inside
  have counted := congrArg List.length before.drop
  rw [List.length_drop] at counted
  omega

theorem Before.slice (before : cursor.Before rest) :
    sliceRange cursor.data cursor.pos cursor.data.length = .ok rest := by
  rw [sliceRange_eq before.inside (Nat.le_refl _), before.drop]
  have length := before.length
  rw [List.take_of_length_le (by omega)]

/-- The cursor after the first of the bytes. -/
theorem Before.skip {first : Bytes} (before : cursor.Before (first ++ rest)) :
    (cursor.skip first.length).Before rest := by
  have length := before.length
  rw [List.length_append] at length
  refine ⟨before.live, ?_, before.fits, ?_⟩
  · change cursor.pos + first.length ≤ cursor.data.length
    omega
  · change cursor.data.drop (cursor.pos + first.length) = rest
    rw [← List.drop_drop, before.drop, List.drop_left]

theorem Before.readVarint32 {value : Nat} (before : cursor.Before (encodeU32 value ++ rest))
    (fits : value ≤ u32Max) :
    cursor.readVarint32 = .ok (value, cursor.skip (encodeU32 value).length) := by
  rw [BufferCursor.readVarint32, if_neg before.unpruned, before.slice,
    Except.ok_bind, decodeU32_encodeU32 fits]
  rfl

theorem Before.readVarint64 {value : Nat} (before : cursor.Before (encodeU64 value ++ rest))
    (fits : value ≤ u64Max) :
    cursor.readVarint64 = .ok (value, cursor.skip (encodeU64 value).length) := by
  rw [BufferCursor.readVarint64, if_neg before.unpruned, before.slice,
    Except.ok_bind, decodeU64_encodeU64 fits]
  rfl

theorem Before.readByte {byte : UInt8} (before : cursor.Before (byte :: rest)) :
    cursor.readByte = .ok (byte, cursor.skip 1) := by
  have length := before.length
  rw [List.length_cons] at length
  have here : cursor.data[cursor.pos]? = some byte := by
    rw [← List.head?_drop, before.drop, List.head?_cons]
  rw [BufferCursor.readByte, if_neg before.unpruned, if_neg (by omega),
    indexAt_eq_ok.mpr here, Except.ok_bind]
  rfl

theorem Before.readExact {bytes : Bytes} (before : cursor.Before (bytes ++ rest)) :
    cursor.readExact bytes.length = .ok (bytes, cursor.skip bytes.length) := by
  have length := before.length
  have fits := before.fits
  rw [List.length_append] at length
  have added : checkedAdd cursor.pos bytes.length = some (cursor.pos + bytes.length) := by
    unfold checkedAdd
    rw [if_pos (by omega)]
  rw [BufferCursor.readExact, if_neg before.unpruned, added]
  simp only
  rw [if_neg (by omega), sliceRange_eq (by omega) (by omega), before.drop, Except.ok_bind,
    Nat.add_sub_cancel_left, List.take_left]
  rfl

/-- A loop reads the items that were written one after the other. -/
theorem Before.readMany {Item : Type} {encode : Item → Bytes}
    {read : BufferCursor → Rust (Item × BufferCursor)} (items : List Item) :
    ∀ {cursor : BufferCursor},
      (∀ item ∈ items, ∀ {cursor : BufferCursor} {rest : Bytes},
        cursor.Before (encode item ++ rest) →
          read cursor = .ok (item, cursor.skip (encode item).length)) →
      cursor.Before (items.flatMap encode ++ rest) →
      BufferCursor.readMany read items.length cursor =
        .ok (items, cursor.skip (items.flatMap encode).length) := by
  induction items with
  | nil => exact fun _ _ => rfl
  | cons item items ih =>
      intro cursor reads before
      rw [List.flatMap_cons, List.append_assoc] at before
      obtain ⟨here, later⟩ := List.forall_mem_cons.mp reads
      rw [List.length_cons, BufferCursor.readMany, here before, Except.ok_bind]
      simp only
      rw [ih later before.skip, Except.ok_bind, List.flatMap_cons, List.length_append]
      simp only [BufferCursor.skip, Nat.add_assoc]

theorem Before.isEmpty (before : cursor.Before []) : cursor.isEmpty = true := by
  have length := before.length
  rw [List.length_nil, Nat.add_zero] at length
  rw [BufferCursor.isEmpty, if_neg before.unpruned]
  exact decide_eq_true (Nat.le_of_eq length.symm)

/-- A string comes back with the bytes of its length. -/
theorem Before.readString {bytes : Bytes}
    (before : cursor.Before (encodeU32 bytes.length ++ bytes ++ rest))
    (fits : bytes.length ≤ u32Max) :
    readString cursor = .ok (encodeU32 bytes.length ++ bytes,
      cursor.skip (encodeU32 bytes.length ++ bytes).length) := by
  have whole := before.drop
  have length := before.length
  rw [List.append_assoc] at before
  unfold Riegeli.readString
  rw [if_neg before.unpruned, before.readVarint32 fits, Except.ok_bind]
  simp only
  rw [before.skip.readExact, Except.ok_bind]
  simp only [List.length_append, BufferCursor.skip] at length ⊢
  rw [sliceRange_eq (by omega) (by omega), whole, Except.ok_bind, Nat.add_assoc,
    Nat.add_sub_cancel_left, ← List.length_append, List.take_left]

end BufferCursor

end Riegeli
