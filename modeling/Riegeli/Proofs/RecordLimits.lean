/-
Module: Riegeli.Proofs.RecordLimits
Purpose: The limits that were marked backward, turned around, cut the decoded
  data into the records that were written.
Trusted boundary: none
Main exports: complementLimits_eq, recordEnds, finalizeRecords_finished
-/
import Riegeli.Proofs.RecordReplay
import Riegeli.Proofs.OpenDecoders

namespace Riegeli

/-! ## Turning limits around -/

/-- The loop turns around what lies between its two ends. -/
theorem complementLoop_eq (size : Nat) :
    ∀ {fuel : Nat} {middle front back : List Nat}, middle.length < fuel →
      (∀ limit ∈ middle, limit ≤ size) →
      complementLoop size fuel front.length (front.length + middle.length) (front ++ middle ++ back) =
        .ok (front ++ middle.reverse.map (size - ·) ++ back) := by
  intro fuel
  induction fuel with
  | zero => intro middle front back enough; omega
  | succ fuel ih =>
      intro middle front back enough inside
      rw [complementLoop]
      cases middle with
      | nil => simp
      | cons low rest =>
          rw [if_pos (by simp)]
          rcases List.eq_nil_or_concat' rest with rfl | ⟨inner, high, rfl⟩
          · -- one limit is left, which is its own counterpart
            have small : low ≤ size := inside low List.mem_cons_self
            have there : (front ++ [low] ++ back)[front.length]? = some low := by simp
            have again : (front ++ (size - low) :: back).set front.length (size - low) =
                front ++ (size - low) :: back := by simp
            have more : 0 < fuel := by simpa using enough
            obtain ⟨fuel, rfl⟩ : ∃ less, fuel = less + 1 := ⟨fuel - 1, by omega⟩
            simp only [List.length_singleton, Nat.add_sub_cancel]
            rw [indexAt_eq_ok.mpr there, Except.ok_bind, Except.ok_bind, subWord_eq small,
              Except.ok_bind, Except.ok_bind, setAt_eq (by simp), Except.ok_bind,
              setAt_eq (by simp), Except.ok_bind, complementLoop, if_neg (by omega)]
            simp
          · obtain ⟨lowSmall, restSmall⟩ := List.forall_mem_cons.mp inside
            obtain ⟨innerSmall, highSmall⟩ := List.forall_mem_append.mp restSmall
            have small : high ≤ size := highSmall high List.mem_cons_self
            have whole : front ++ low :: (inner ++ [high]) ++ back =
                front ++ low :: (inner ++ high :: back) := by simp
            have first : (front ++ low :: (inner ++ high :: back))[front.length]? = some low := by
              simp
            have place : front.length + (low :: (inner ++ [high])).length - 1 =
                (front ++ low :: inner).length := by
              simp only [List.length_cons, List.length_append, List.length_nil]
              omega
            have last : (front ++ low :: (inner ++ high :: back))[(front ++ low :: inner).length]? =
                some high := by
              rw [show front ++ low :: (inner ++ high :: back) =
                (front ++ low :: inner) ++ high :: back by simp]
              rw [List.getElem?_append_right (Nat.le_refl _), Nat.sub_self]
              rfl
            have swapped : ((front ++ low :: (inner ++ high :: back)).set front.length
                (size - high)).set (front ++ low :: inner).length (size - low) =
                (front ++ [size - high]) ++ inner ++ ([size - low] ++ back) := by
              simp
            rw [whole, place, indexAt_eq_ok.mpr first, Except.ok_bind, indexAt_eq_ok.mpr last,
              Except.ok_bind, subWord_eq lowSmall, Except.ok_bind, subWord_eq small, Except.ok_bind,
              setAt_eq (by simp), Except.ok_bind, setAt_eq (by simp), Except.ok_bind, swapped]
            have ends : (front ++ low :: inner).length = (front ++ [size - high]).length +
                inner.length := by
              simp only [List.length_cons, List.length_append, List.length_nil]
              omega
            have start : front.length + 1 = (front ++ [size - high]).length := by simp
            rw [ends, start, ih (by simp at enough; omega) innerSmall]
            simp

theorem complementLimits_eq {size : Nat} {limits : List Nat} {last : Nat}
    (inside : ∀ limit ∈ limits, limit ≤ size) :
    complementLimits size (limits ++ [last]) = .ok (limits.reverse.map (size - ·) ++ [last]) := by
  have turned := @complementLoop_eq size (limits.length + 2) limits [] [last] (by omega) inside
  rw [List.length_nil, Nat.zero_add, List.nil_append, List.nil_append] at turned
  rw [complementLimits, if_neg (by simp), List.length_append, List.length_singleton,
    Nat.add_sub_cancel]
  exact turned

/-! ## The ends of records -/

/-- Where the records end that begin here. -/
def recordEnds : Nat → List Bytes → List Nat
  | _, [] => []
  | start, record :: rest => (start + record.length) :: recordEnds (start + record.length) rest

/-- The limits that are marked for records, counted from the end. -/
def markedLimits : List Bytes → List Nat
  | [] => []
  | record :: rest => markedLimits rest ++ [(record :: rest).flatten.length]

theorem markedLimits_le (records : List Bytes) :
    ∀ limit ∈ markedLimits records, limit ≤ records.flatten.length := by
  induction records with
  | nil => exact List.forall_mem_nil _
  | cons record rest ih =>
      refine List.forall_mem_append.mpr ⟨fun limit member => ?_, fun limit member => ?_⟩
      · have small := ih limit member
        rw [List.flatten_cons, List.length_append]
        omega
      · exact (List.mem_singleton.mp member).le

theorem reverse_markedLimits (start : Nat) (records : List Bytes) (record : Bytes) :
    (markedLimits records).reverse.map (start + record.length + records.flatten.length - ·) ++
        [start + record.length + records.flatten.length] =
      recordEnds start (record :: records) := by
  induction records generalizing start record with
  | nil => rfl
  | cons next rest ih =>
      have whole : start + record.length + (next :: rest).flatten.length =
          start + record.length + next.length + rest.flatten.length := by
        rw [List.flatten_cons, List.length_append]
        omega
      have here : start + record.length + (next :: rest).flatten.length -
          (next :: rest).flatten.length = start + record.length := Nat.add_sub_cancel _ _
      rw [markedLimits, List.reverse_append, List.reverse_singleton, List.singleton_append,
        List.map_cons, here, recordEnds, List.cons_append, whole, ih (start + record.length) next]

theorem recordEnds_ordered (records : List Bytes) :
    ∀ {start size : Nat}, start + records.flatten.length ≤ size →
      boundariesOrdered size start (recordEnds start records) = true := by
  induction records with
  | nil => exact fun _ => rfl
  | cons record rest ih =>
      intro start size fits
      rw [List.flatten_cons, List.length_append] at fits
      rw [recordEnds, boundariesOrdered, if_neg (by omega)]
      exact ih (by omega)

theorem slicesBetween_recordEnds (records : List Bytes) :
    ∀ before : Bytes, slicesBetween (before ++ records.flatten) before.length
      (recordEnds before.length records) = records := by
  induction records with
  | nil => exact fun _ => rfl
  | cons record rest ih =>
      intro before
      have later := ih (before ++ record)
      rw [List.length_append, List.append_assoc] at later
      rw [recordEnds, slicesBetween, List.flatten_cons, List.drop_left, Nat.add_sub_cancel_left,
        List.take_left, later]

/-! ## What is finished -/

theorem DecodeState.finishAll_data (state : DecodeState) (records : List Bytes) :
    (state.finishAll records).dest.data = state.dest.data ++ records.flatten.reverse := by
  induction records with
  | nil => exact (List.append_nil _).symm
  | cons record rest ih =>
      change (state.finishAll rest).dest.data ++ record.reverse = _
      rw [ih, List.flatten_cons, List.reverse_append, List.append_assoc]

theorem DecodeState.finishAll_limits {state : DecodeState} (fresh : state.dest.data = [])
    (records : List Bytes) :
    (state.finishAll records).limits = state.limits ++ markedLimits records := by
  induction records with
  | nil => exact (List.append_nil _).symm
  | cons record rest ih =>
      have written := state.finishAll_data (record :: rest)
      rw [fresh, List.nil_append] at written
      change (state.finishAll rest).limits ++
        [(state.finishAll (record :: rest)).dest.data.length] = _
      rw [ih, written, List.length_reverse, markedLimits, List.append_assoc]

theorem DecodeState.finishAll_frame (state : DecodeState) (records : List Bytes) :
    (state.finishAll records).submessageStack = state.submessageStack ∧
      (state.finishAll records).skippedSubmessageLevel = state.skippedSubmessageLevel := by
  induction records with
  | nil => exact ⟨rfl, rfl⟩
  | cons record rest ih => exact ih

theorem length_markedLimits (records : List Bytes) :
    (markedLimits records).length = records.length := by
  induction records with
  | nil => rfl
  | cons record rest ih => rw [markedLimits, List.length_append, ih]; rfl

/-- What is written and marked for records becomes their bytes and their ends. -/
theorem finalizeRecords_finished {dest : Decoder.BackwardBuffer} {records : List Bytes}
    (written : dest.data = records.flatten.reverse) :
    finalizeRecords dest (markedLimits records) =
      .ok (records.flatten, recordEnds 0 records) := by
  have size : dest.pos = records.flatten.length := by
    rw [Decoder.BackwardBuffer.pos, written, List.length_reverse]
  have forward : dest.intoForward = records.flatten := by
    rw [Decoder.BackwardBuffer.intoForward, written, List.reverse_reverse]
  have ordered : boundariesOrdered records.flatten.length 0 (recordEnds 0 records) = true :=
    recordEnds_ordered records (Nat.zero_add _).le
  unfold finalizeRecords
  simp only [size, forward]
  cases records with
  | nil => rfl
  | cons record rest =>
      have inside : ∀ limit ∈ markedLimits rest, limit ≤ (record :: rest).flatten.length := by
        intro limit member
        have small := markedLimits_le rest limit member
        rw [List.flatten_cons, List.length_append]
        omega
      have turned := reverse_markedLimits 0 rest record
      rw [Nat.zero_add, ← List.length_append, ← List.flatten_cons] at turned
      rw [markedLimits, List.getLastD_concat, if_neg (by simp), complementLimits_eq inside,
        Except.ok_bind, turned, ordered, if_neg (by simp)]

end Riegeli
