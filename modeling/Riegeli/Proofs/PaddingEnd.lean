/-
Module: Riegeli.Proofs.PaddingEnd
Purpose: Where padding ends: at the least place that will do, unless the sums of
  `pos_after_padding` leave the words before that, and a padding chunk of the
  computed size ends there.
Trusted boundary: none
Main exports: PaddingTarget, PadsInWord, paddingStart, posAfterPadding_cases,
  posAfterPadding_aligned, exists_least_target, posAfterPadding_least,
  chunkEnd_padding
-/
import Riegeli.Core.RecordWriter
import Mathlib.Data.Nat.Find
import Mathlib.Order.Bounds.Basic

namespace Riegeli

/-- The number of bytes from `pos` to `target` that lie outside block headers. -/
def bytesOutsideHeaders (pos target : Nat) : Nat :=
  (List.range' pos (target - pos)).countP fun place => blockHeaderSize ≤ place % blockSize

/-- A place where padding from `pos` may end: a multiple of the padding, a
possible chunk boundary, and a chunk header's worth of bytes ahead. -/
structure PaddingTarget (pos padding target : Nat) : Prop where
  multiple : target % padding = 0
  possible : isPossibleChunkBoundary target = true
  room : chunkHeaderSize ≤ bytesOutsideHeaders pos target

/-- Padding from `pos` ends at a word, if it is due at all. -/
def PadsInWord (pos padding : Nat) : Prop :=
  pos % padding ≠ 0 → ∃ target ≤ u64Max, PaddingTarget pos padding target

/-- Where a flush of the writer begins to pad: behind the chunk of what is
pending. -/
def paddingStart (ext : Externals) (self : RecordWriter) : Nat :=
  (Act.whenever (0 < self.pendingRecordCount) (RecordWriter.flushChunk ext) self).2.filePos

theorem bytesOutsideHeaders_eq (pos target : Nat) :
    bytesOutsideHeaders pos target = usable target - usable pos := by
  have counted : ∀ count, (List.range' pos count).countP
      (fun place => decide (blockHeaderSize ≤ place % blockSize)) =
        usable (pos + count) - usable pos := by
    intro count
    induction count with
    | zero => simp
    | succ count ih =>
        have ahead := usable_mono (show pos ≤ pos + count by omega)
        have step : usable (pos + (count + 1)) = usable (pos + count) +
            if blockHeaderSize ≤ (pos + count) % blockSize then 1 else 0 := by
          unfold usable blockHeaderSize blockSize
          split <;> omega
        rw [List.range'_1_concat, List.countP_append, ih, step, List.countP_singleton]
        simp only [decide_eq_true_eq]
        omega
  rw [bytesOutsideHeaders, counted]
  rcases Nat.le_total pos target with ahead | behind
  · rw [Nat.add_sub_cancel' ahead]
  · rw [Nat.sub_eq_zero_of_le behind, Nat.add_zero, Nat.sub_self,
      Nat.sub_eq_zero_of_le (usable_mono behind)]

/-! ## The loops -/

/-- Within 24 steps a multiple of the padding is a possible chunk boundary. -/
theorem exists_possible_multiple {padding pos : Nat} (multiple : pos % padding = 0) :
    ∃ steps ≤ 24, isPossibleChunkBoundary (pos + steps * padding) = true := by
  simp only [isPossibleChunkBoundary_iff]
  by_cases whole : padding % 65536 = 0
  · -- multiples of a multiple of the block size are block boundaries
    refine ⟨0, by omega, Or.inl ?_⟩
    have divides := Nat.dvd_trans (Nat.dvd_of_mod_eq_zero whole) (Nat.dvd_of_mod_eq_zero multiple)
    rw [Nat.zero_mul]
    exact Nat.mod_eq_zero_of_dvd divides
  by_cases short : padding % 65536 ≤ 23
  · -- the offset moves up by at most 23, so it meets an offset above 24
    have climbs : ∀ (steps start : Nat), 25 ≤ start % 65536 + steps →
        ∃ count ≤ steps, (start + count * padding) % 65536 = 0 ∨
          25 ≤ (start + count * padding) % 65536 := by
      intro steps
      induction steps with
      | zero => exact fun start high => ⟨0, by omega, Or.inr (by omega)⟩
      | succ steps ih =>
          intro start high
          by_cases outside : start % 65536 = 0 ∨ 25 ≤ start % 65536
          · exact ⟨0, by omega, by simpa using outside⟩
          · obtain ⟨count, within, reached⟩ := ih (start + padding) (by omega)
            refine ⟨count + 1, by omega, ?_⟩
            rwa [Nat.succ_mul, Nat.add_comm (count * padding), ← Nat.add_assoc]
    by_cases outside : pos % 65536 = 0
    · exact ⟨0, by omega, by simpa using Or.inl outside⟩
    · exact climbs 24 pos (by omega)
  by_cases long : 65513 ≤ padding % 65536
  · -- the offset moves down by at most 23, so it meets the boundary or wraps
    have falls : ∀ (steps start : Nat), start % 65536 ≤ steps →
        ∃ count ≤ steps, (start + count * padding) % 65536 = 0 ∨
          25 ≤ (start + count * padding) % 65536 := by
      intro steps
      induction steps with
      | zero => exact fun start low => ⟨0, by omega, Or.inl (by omega)⟩
      | succ steps ih =>
          intro start low
          by_cases outside : start % 65536 = 0 ∨ 25 ≤ start % 65536
          · exact ⟨0, by omega, by simpa using outside⟩
          by_cases wraps : 25 ≤ (start + padding) % 65536
          · exact ⟨1, by omega, by simpa using Or.inr wraps⟩
          · obtain ⟨count, within, reached⟩ := ih (start + padding) (by omega)
            refine ⟨count + 1, by omega, ?_⟩
            rwa [Nat.succ_mul, Nat.add_comm (count * padding), ← Nat.add_assoc]
    by_cases outside : 25 ≤ pos % 65536
    · exact ⟨0, by omega, by simpa using Or.inr outside⟩
    · exact falls 24 pos (by omega)
  · by_cases outside : pos % 65536 = 0 ∨ 25 ≤ pos % 65536
    · exact ⟨0, by omega, by simpa using outside⟩
    · exact ⟨1, by omega, by omega⟩

/-- Whatever the sums do, the value that is returned will do. -/
theorem growUntil_done {step stop : Nat} {done : Nat → Bool} (fuel : Nat) :
    ∀ {value : Nat}, growUntil step done fuel value = .ok stop → done stop = true := by
  induction fuel with
  | zero => exact fun ran => nomatch ran
  | succ fuel ih =>
      intro value ran
      rw [growUntil] at ran
      split at ran
      · rename_i ends
        cases ran
        exact ends
      · exact ih ran

theorem growUntil_le {step stop : Nat} {done : Nat → Bool} (fuel : Nat) :
    ∀ {value : Nat}, value ≤ u64Max → growUntil step done fuel value = .ok stop →
      stop ≤ u64Max := by
  induction fuel with
  | zero => exact fun _ ran => nomatch ran
  | succ fuel ih =>
      intro value fits ran
      rw [growUntil] at ran
      split at ran
      · cases ran
        exact fits
      · exact ih (wrapAdd_le _ _) ran

/-- A value that will do within the words is not passed by: the loop returns,
there or before. -/
theorem growUntil_returns {step : Nat} {done : Nat → Bool} (fuel : Nat) :
    ∀ {value steps : Nat}, steps < fuel → done (value + steps * step) = true →
      value + steps * step ≤ u64Max →
      ∃ count ≤ steps, growUntil step done fuel value = .ok (value + count * step) := by
  induction fuel with
  | zero => exact fun less => absurd less (Nat.not_lt_zero _)
  | succ fuel ih =>
      intro value steps less reached fits
      by_cases ends : done value = true
      · refine ⟨0, Nat.zero_le _, ?_⟩
        rw [growUntil, if_pos ends, Nat.zero_mul, Nat.add_zero]
      · cases steps with
        | zero =>
            rw [Nat.zero_mul, Nat.add_zero] at reached
            exact absurd reached ends
        | succ steps =>
            have shifted : ∀ count, value + (count + 1) * step = value + step + count * step := by
              intro count
              rw [Nat.succ_mul]
              omega
            rw [shifted] at reached fits
            obtain ⟨count, within, ran⟩ := ih (Nat.lt_of_succ_lt_succ less) reached fits
            refine ⟨count + 1, Nat.succ_le_succ within, ?_⟩
            rw [growUntil, if_neg ends, wrapAdd_eq (by omega), ran, shifted]

/-- Where the second loop stops. -/
def StopsAt (pos endPos : Nat) : Prop :=
  isPossibleChunkBoundary endPos = true ∧ chunkHeaderSize ≤ distanceWithoutOverhead pos endPos

theorem stopsAt_iff (pos endPos : Nat) :
    (remainingInBlock endPos < blockSize - blockHeaderSize ∧
      chunkHeaderSize ≤ distanceWithoutOverhead pos endPos) ↔ StopsAt pos endPos := by
  rw [StopsAt, isPossibleChunkBoundary, decide_eq_true_eq]
  rfl

/-- The second loop stops behind `pos`. -/
theorem StopsAt.ahead {pos endPos : Nat} (stops : StopsAt pos endPos) : pos < endPos := by
  have room := stops.2
  rw [distanceWithoutOverhead_eq] at room
  by_contra behind
  rw [Nat.sub_eq_zero_of_le (usable_mono (Nat.le_of_not_lt behind))] at room
  exact absurd room (by decide)

theorem paddingTarget_iff {pos padding target : Nat} :
    PaddingTarget pos padding target ↔ target % padding = 0 ∧ StopsAt pos target := by
  constructor
  · intro fits
    have room := fits.room
    rw [bytesOutsideHeaders_eq, ← distanceWithoutOverhead_eq] at room
    exact ⟨fits.multiple, fits.possible, room⟩
  · rintro ⟨multiple, possible, room⟩
    rw [distanceWithoutOverhead_eq, ← bytesOutsideHeaders_eq] at room
    exact ⟨multiple, possible, room⟩

/-! ## The position -/

/-- What `pos_after_padding` returns: its argument, or where padding that is due
may stop. -/
theorem posAfterPadding_cases {pos padding stop : Nat} (ran : posAfterPadding pos padding = .ok stop) :
    ((padding ≤ 1 ∨ pos % padding = 0) ∧ stop = pos) ∨
      (1 < padding ∧ pos % padding ≠ 0 ∧ StopsAt pos stop) := by
  unfold posAfterPadding at ran
  split at ran
  · rename_i few
    cases ran
    exact .inl ⟨.inl few, rfl⟩
  · rename_i many
    dsimp only at ran
    split at ran
    · rename_i aligned
      cases ran
      exact .inl ⟨.inr aligned, rfl⟩
    · rename_i due
      obtain ⟨length, _, ended⟩ := Except.bind_eq_ok.mp ran
      have stops := growUntil_done _ ended
      rw [decide_eq_true_eq, stopsAt_iff] at stops
      exact .inr ⟨Nat.lt_of_not_le many, due, stops⟩

theorem posAfterPadding_le {pos padding stop : Nat} (fits : pos ≤ u64Max)
    (ran : posAfterPadding pos padding = .ok stop) : stop ≤ u64Max := by
  unfold posAfterPadding at ran
  split at ran
  · cases ran
    exact fits
  · dsimp only at ran
    split at ran
    · cases ran
      exact fits
    · obtain ⟨length, _, ended⟩ := Except.bind_eq_ok.mp ran
      exact growUntil_le _ (wrapAdd_le _ _) ended

theorem posAfterPadding_aligned {pos padding : Nat} (aligned : pos % padding = 0) :
    posAfterPadding pos padding = .ok pos := by
  simp [posAfterPadding, aligned]

/-- The first multiple of the padding behind `pos`. -/
theorem next_multiple {pos padding : Nat} (positive : 0 < padding) :
    pos + (padding - pos % padding) = (pos / padding + 1) * padding := by
  have small := Nat.mod_lt pos positive
  have whole := Nat.div_add_mod pos padding
  rw [Nat.mul_comm, Nat.mul_succ]
  omega

/-- There is a least place where padding that is due may end. -/
theorem exists_least_target {pos padding : Nat} (many : 1 < padding) :
    ∃ least, IsLeast {target | PaddingTarget pos padding target} least := by
  have positive : 0 < padding := Nat.lt_trans Nat.zero_lt_one many
  -- 88 multiples on there is room, and 24 more meet a possible chunk boundary
  have base : ((pos / padding + 1) * padding + 88 * padding) % padding = 0 := by
    rw [← Nat.add_mul, Nat.mul_mod_left]
  obtain ⟨steps, _, possible⟩ := exists_possible_multiple base
  have some : ∃ target, PaddingTarget pos padding target := by
    refine ⟨_, paddingTarget_iff.mpr ⟨?_, possible, ?_⟩⟩
    · rw [Nat.add_mul_mod_self_right, base]
    · rw [distanceWithoutOverhead_eq, ← next_multiple positive]
      unfold usable chunkHeaderSize
      omega
  classical
  exact ⟨Nat.find some, Nat.find_spec some, fun _ fits => Nat.find_min' some fits⟩

/-- Padding that is due ends at the least place that will do, when that is a
word. -/
theorem posAfterPadding_least {pos padding least : Nat} (many : 1 < padding)
    (due : pos % padding ≠ 0) (isLeast : IsLeast {target | PaddingTarget pos padding target} least)
    (fits : least ≤ u64Max) : posAfterPadding pos padding = .ok least := by
  have positive : 0 < padding := Nat.lt_trans Nat.zero_lt_one many
  obtain ⟨multiple, stops⟩ := paddingTarget_iff.mp isLeast.1
  have ahead := stops.ahead
  -- the least place is so many steps behind the first multiple
  obtain ⟨factor, rfl⟩ := Nat.dvd_of_mod_eq_zero multiple
  have past : pos / padding < factor := by
    rw [Nat.div_lt_iff_lt_mul positive, Nat.mul_comm]
    exact ahead
  obtain ⟨steps, rfl⟩ := Nat.exists_eq_add_of_lt past
  have split : padding * (pos / padding + steps + 1) =
      pos + (padding - pos % padding) + steps * padding := by
    rw [next_multiple positive, ← Nat.add_mul, Nat.mul_comm]
    congr 1
    omega
  rw [split] at fits stops isLeast ⊢
  have few : steps < wordPasses := by
    have counted := Nat.le_mul_of_pos_right steps positive
    unfold wordPasses
    unfold u64Max at fits
    omega
  have roomy : chunkHeaderSize ≤ padding - pos % padding + steps * padding := by
    have room := stops.2
    rw [distanceWithoutOverhead_eq] at room
    unfold usable chunkHeaderSize at *
    omega
  obtain ⟨first, firstWithin, lengthRan⟩ := @growUntil_returns padding
    (fun length => ¬ length < chunkHeaderSize) wordPasses (padding - pos % padding) steps few
    (by simpa using roomy) (by omega)
  obtain ⟨rest, rfl⟩ := Nat.exists_eq_add_of_le firstWithin
  rw [Nat.add_mul, ← Nat.add_assoc] at fits stops isLeast ⊢
  obtain ⟨second, secondWithin, endRan⟩ := @growUntil_returns padding
    (fun endPos => remainingInBlock endPos < blockSize - blockHeaderSize ∧
      chunkHeaderSize ≤ distanceWithoutOverhead pos endPos) wordPasses
    (pos + (padding - pos % padding) + first * padding) rest (by omega)
    (by rw [decide_eq_true_eq, stopsAt_iff]; exact stops) fits
  -- the loop stops at a place that will do, and no later than at the least one
  have ends := growUntil_done _ endRan
  rw [decide_eq_true_eq, stopsAt_iff] at ends
  have same := isLeast.2 (paddingTarget_iff.mpr ⟨by
    rw [next_multiple positive, ← Nat.add_mul, ← Nat.add_mul, Nat.mul_mod_left], ends⟩)
  have upper := Nat.mul_le_mul_right padding secondWithin
  have word : wrapAdd pos (padding - pos % padding + first * padding) =
      pos + (padding - pos % padding) + first * padding := by
    rw [wrapAdd_eq (by omega), Nat.add_assoc]
  rw [posAfterPadding, if_neg (Nat.not_le_of_lt many)]
  dsimp only
  rw [if_neg due, paddingLengthLoop, lengthRan, Except.ok_bind, paddingEndLoop, word, endRan]
  exact congrArg Except.ok (by omega)

/-- Where no multiple that will do is a word, the sums wrap. -/
example : posAfterPadding 64 (2 ^ 63 + 65549) = .ok 131098 := by decide +kernel

/-- Where padding ends at a word, the position is a multiple of the padding. -/
theorem posAfterPadding_mod {pos padding stop : Nat} (positive : 0 < padding)
    (within : PadsInWord pos padding) (ran : posAfterPadding pos padding = .ok stop) :
    stop % padding = 0 := by
  by_cases aligned : pos % padding = 0
  · rw [posAfterPadding_aligned aligned] at ran
    cases ran
    exact aligned
  · have many : 1 < padding := by
      by_contra few
      exact aligned (by rw [show padding = 1 by omega, Nat.mod_one])
    obtain ⟨least, isLeast⟩ := @exists_least_target pos padding many
    obtain ⟨target, fits, will⟩ := within aligned
    rw [posAfterPadding_least many aligned isLeast ((isLeast.2 will).trans fits)] at ran
    cases ran
    exact isLeast.1.multiple

/-! ## The padding chunk -/

/-- A chunk of the computed size, without records, ends where padding should. -/
theorem chunkEnd_padding {pos stop : Nat} (starts : isPossibleChunkBoundary pos = true)
    (ends : isPossibleChunkBoundary stop = true)
    (room : chunkHeaderSize ≤ distanceWithoutOverhead pos stop)
    (within : chunkEnd pos (distanceWithoutOverhead pos stop - chunkHeaderSize) 0 ≤ u64Max) :
    chunkEnd pos (distanceWithoutOverhead pos stop - chunkHeaderSize) 0 = stop := by
  have exact := chunkEnd_eq starts within
  have spec := chunkEnd_spec starts within
  rw [distanceWithoutOverhead_eq] at *
  unfold chunkHeaderSize at *
  have ahead : pos < stop := by
    by_contra behind
    rw [Nat.sub_eq_zero_of_le (usable_mono (Nat.le_of_not_lt behind))] at room
    exact absurd room (by decide)
  have reached := @place_usable stop ends (by omega)
  rw [show usable pos + (40 + (usable stop - usable pos - 40)) = usable stop by omega, reached] at exact
  have below : satAdd pos 0 = pos := by
    have inside := spec.begin_add_le
    exact satAdd_eq (by omega)
  rw [below, roundUp_eq_self starts (by have inside := spec.begin_add_le; omega)] at exact
  rw [exact]
  omega

end Riegeli
