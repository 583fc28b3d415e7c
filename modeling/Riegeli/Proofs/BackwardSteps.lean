/-
Module: Riegeli.Proofs.BackwardSteps
Purpose: A step back on a complete file leads in front of the record before,
  past chunks without records.
Trusted boundary: the hash and the codecs
Main exports: StepsBackTo, seekBackLoop_at, seekBack_at
-/
import Riegeli.Proofs.PointerScans

namespace Riegeli

open RecordReader

variable {ext : Externals} {projection : Option FieldProjection} {source : Bytes}
  {file earlier later : List HeldChunk} {reader : RecordReader} {before : Nat}

/-- What a step back from behind `before` records comes to. -/
structure StepsBackTo (file : List HeldChunk) (reader : RecordReader) (before : Nat)
    (outcome : Except Fault Bool × RecordReader) : Prop where
  result : outcome.1 = .ok (decide (0 < before))
  stands : ReaderAt file outcome.2 (before - 1)
  pos : 0 < before ∧ Points file outcome.2.pos (before - 1) ∨
    before = 0 ∧ outcome.2.pos = reader.pos
  lastPos : outcome.2.lastPos = reader.lastPos

/-- A step back that seeks to the record before. -/
theorem SeeksTo.stepsBack (some : 0 < before) {target : RecordPosition}
    (seeks : SeeksTo file reader (before - 1) (seek ext target reader)) :
    StepsBackTo file reader before
      ((do
        seek ext target
        pure true : RecordReader.Method Bool) reader) := by
  have ran : seek ext target reader = (.ok (), (seek ext target reader).2) :=
    Prod.ext seeks.result rfl
  rw [Act.bind_run_ok ran]
  exact ⟨by simp [some], seeks.stands, .inl ⟨some, seeks.points⟩, seeks.lastPos⟩

/-- A step back that finds nothing before leaves the reader in place. -/
theorem stepsBack_stays (stands : ReaderAt file reader 0) :
    StepsBackTo file reader 0 (.ok false, reader) :=
  ⟨rfl, stands, .inr ⟨rfl, rfl⟩, rfl⟩

/-- In front of the first data chunk there is at most the signature. -/
theorem FileChunks.opening (chunks : FileChunks ext projection source file)
    (split : file = earlier ++ later) (early : chunkPlace earlier ≤ firstDataChunk) :
    heldRecords earlier = [] := by
  obtain ⟨signature, rest, opening, place, none, one⟩ := chunks.first
  rcases FileChunks.splits_ordered split opening with ⟨between, further⟩ | ⟨between, further⟩
  · rw [further, heldRecords_append] at none
    exact (List.append_eq_nil_iff.mp none).1
  · rw [further] at split early ⊢
    have mono := (@FileChunks.place_mono ext projection source file signature later chunks between
      split).2
    rw [place] at early
    have nothing : between = [] := by
      rw [← List.length_eq_zero_iff]
      omega
    rw [nothing, List.append_nil]
    exact none

/-- The loop of `seek_back` from the beginning of a chunk.  The induction is on
the chunks before it, from the last. -/
theorem seekBackLoop_at (chunks : FileChunks ext projection source file)
    (facing : Facing source projection reader) (earlier : List HeldChunk) :
    ∀ {fuel : Nat} {later : List HeldChunk}, earlier.length < fuel → file = earlier ++ later →
      ReaderAt file reader (heldRecords earlier).length →
      StepsBackTo file reader (heldRecords earlier).length
        (seekBackLoop ext fuel (chunkPlace earlier) reader) := by
  induction earlier using List.reverseRecOn with
  | nil =>
      intro fuel later few split stands
      obtain ⟨fuel, rfl⟩ : ∃ smaller, fuel = smaller + 1 := ⟨fuel - 1, by omega⟩
      rw [seekBackLoop, if_neg (by exact Nat.not_lt_zero _)]
      exact stepsBack_stays stands
  | append_singleton first chunk ih =>
      intro fuel later few split stands
      rw [List.length_append, List.length_singleton] at few
      obtain ⟨fuel, rfl⟩ : ∃ smaller, fuel = smaller + 1 := ⟨fuel - 1, by omega⟩
      by_cases behind : firstDataChunk < chunkPlace (first ++ [chunk])
      · have here : file = first ++ chunk :: later := by
          rw [split, List.append_assoc, List.singleton_append]
        have ahead := (chunks.ahead here).1
        have counted : chunk.chunk.header.numRecords = chunk.records.length :=
          (chunks.opens chunk (by rw [here]; simp)).numRecords
        have total : (heldRecords (first ++ [chunk])).length =
            (heldRecords first).length + chunk.records.length := by
          rw [heldRecords_append, List.length_append, heldRecords_cons, heldRecords_nil,
            List.append_nil]
        rw [seekBackLoop, if_pos behind, Act.bind_run_ok
          (findChunkBefore_at chunks facing here (Nat.le_sub_one_of_lt behind)
            (Nat.le_sub_one_of_lt ahead) (by omega))]
        simp only
        by_cases some : 0 < chunk.chunk.header.numRecords
        · rw [if_pos some]
          refine SeeksTo.stepsBack (by omega) (seek_at chunks facing
            ⟨first, chunk :: later, here, chunks.canonical here, ?_⟩)
          change _ = _ + min (chunk.chunk.header.numRecords - 1) chunk.records.length
          omega
        · have same : (heldRecords (first ++ [chunk])).length = (heldRecords first).length := by
            omega
          rw [if_neg some, if_neg (by omega), same]
          rw [same] at stands
          exact ih (by omega) here stands
      · have none := chunks.opening split (Nat.le_of_not_lt behind)
        rw [seekBackLoop, if_neg behind]
        rw [none] at stands ⊢
        exact stepsBack_stays stands

/-- A step back, wherever between the records the reader is. -/
theorem seekBack_at (chunks : FileChunks ext projection source file)
    (facing : Facing source projection reader) (stands : ReaderAt file reader before) :
    StepsBackTo file reader before (seekBack ext reader) := by
  have cleared : Facing source projection { reader with pendingTrustedEnd := none } :=
    ⟨facing.known, facing.source, facing.fieldProjection⟩
  -- where the reader says it is: so many records into the chunk at its begin
  obtain ⟨earlier, later, split, place, short, counted⟩ : StepsTo file
      { chunkBegin := reader.currentChunkBegin, recordIndex := reader.currentRecordIndex }
      before := stands.steps
  change reader.currentRecordIndex ≤ _ at short
  change before = _ + reader.currentRecordIndex at counted
  have still : ReaderAt file { reader with pendingTrustedEnd := none } before := by
    cases stands with
    | between split drained next steps => exact .between split drained next steps
    | @inside earlier later chunk decoder split current begun next within yields =>
        exact @ReaderAt.inside file { reader with pendingTrustedEnd := none } _ _ _ _ split current
          begun next within yields
  have run : seekBack ext reader =
      (if 0 < reader.currentRecordIndex then do
          seek ext
            { chunkBegin := reader.currentChunkBegin
              recordIndex := reader.currentRecordIndex - 1 }
          pure true
        else seekBackLoop ext (reader.currentChunkBegin + 1) reader.currentChunkBegin :
          RecordReader.Method Bool) { reader with pendingTrustedEnd := none } := rfl
  have outcome : StepsBackTo file { reader with pendingTrustedEnd := none } before
      (seekBack ext reader) := by
    rw [run]
    by_cases further : 0 < reader.currentRecordIndex
    · rw [if_pos further]
      have points : Points file
          { chunkBegin := reader.currentChunkBegin, recordIndex := reader.currentRecordIndex - 1 }
          (before - 1) := by
        refine StepsTo.points chunks ⟨earlier, later, split, place, ?_, ?_⟩
        · exact (Nat.sub_le _ _).trans short
        · change before - 1 = _ + (reader.currentRecordIndex - 1)
          omega
      exact SeeksTo.stepsBack (by omega) (seek_at chunks cleared points)
    · rw [if_neg further]
      have same : before = (heldRecords earlier).length := by omega
      rw [same] at still ⊢
      rcases place with place | ⟨rfl, place⟩
      · have begun : reader.currentChunkBegin = chunkPlace earlier := place
        have room := (@FileChunks.place_mono ext projection source file [] later chunks earlier
          split).2
        rw [List.nil_append] at room
        have loop := seekBackLoop_at chunks cleared earlier
          (show earlier.length < reader.currentChunkBegin + 1 by omega) split still
        rw [← begun] at loop
        exact loop
      · have begun : reader.currentChunkBegin = 24 := place
        rw [seekBackLoop, if_neg (by rw [begun]; decide)]
        exact stepsBack_stays still
  exact ⟨outcome.result, outcome.stands, outcome.pos, outcome.lastPos⟩

end Riegeli
