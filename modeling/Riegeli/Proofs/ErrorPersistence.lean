/-
Module: Riegeli.Proofs.ErrorPersistence
Purpose: Without a recovery callback a reader that has failed at a chunk stays
  there: every read returns the same error until it is moved elsewhere.
Trusted boundary: the hash and the codecs
Main exports: Stuck, readRecord_stuck, Stuck.readRecord, errors_persist
-/
import Riegeli.Proofs.StaticReading

namespace Riegeli

open RecordReader

variable {ext : Externals} {reader : RecordReader} {error : RiegeliError}

/-- The reader stands at a chunk that fails with this error. -/
structure Stuck (ext : Externals) (reader : RecordReader) (error : RiegeliError) : Prop where
  known : Known reader
  alone : reader.recovery = none
  drained : reader.currentDecoder = none
  stands : ∃ trusted,
    findChunk ext reader.source reader.fieldProjection reader.nextChunkFilePos =
      .fails (.error error) trusted

/-- A failing chunk is found again from where its loader goes back to. -/
theorem findChunk_resumeAfter {source : Bytes} {projection : Option FieldProjection}
    {place : Nat} {trusted : Option Nat}
    (found : findChunk ext source projection place = .fails (.error error) trusted) :
    findChunk ext source projection (resumeAfter place (.error error) trusted) =
      .fails (.error error) trusted := by
  cases trusted with
  | none => exact found
  | some stop => rw [resumeAfter, findChunk_canonical, found]

/-- Without a callback a failed load leaves the reader stuck. -/
theorem advanceChunk_stuck (known : Known reader) (alone : reader.recovery = none)
    (drained : reader.currentDecoder = none) {after : RecordReader}
    (failed : advanceChunk ext reader = (.error (.error error), after)) :
    Stuck ext after error := by
  have lands := @landsAt_lands ext reader.source reader.fieldProjection reader.nextChunkFilePos
  have landed : (reader.landed ext) =
    landsAt ext reader.source reader.fieldProjection reader.nextChunkFilePos := rfl
  rw [← landed] at lands
  rw [advanceChunk_lands known] at failed
  unfold RecordReader.afterLanding at failed
  cases found : (reader.landed ext).2 with
  | absent => simp [found] at failed
  | passes stop => simp [found] at failed
  | holds decoder stop => simp [found] at failed
  | fails fault trusted =>
      cases fault with
      | panic kind => simp [found] at failed
      | outOfFuel => simp [found] at failed
      | error cause =>
          have still : (afterFinding { reader with nextChunkFilePos := (reader.landed ext).1 }
              (reader.landed ext).1 (.fails (.error cause) trusted)).recovery = none := alone
          simp only [found, recoverOrFail, tryRecoverAt_none still, Prod.mk.injEq,
            Except.error.injEq, Fault.error.injEq] at failed
          obtain ⟨rfl, rfl⟩ := failed
          refine ⟨known, alone, drained, trusted, ?_⟩
          exact findChunk_resumeAfter (lands.found.trans found)

/-! ## Reading -/

theorem readRecordLoop_stuck : ∀ {fuel : Nat} {reader after : RecordReader}, Known reader →
    reader.recovery = none →
    readRecordLoop ext fuel reader = (.error (.error error), after) → Stuck ext after error := by
  intro fuel
  induction fuel with
  | zero =>
      intro reader after _ _ failed
      cases failed
  | succ fuel ih =>
      intro reader after known alone failed
      rw [readRecordLoop_succ] at failed
      have handing := readFromDecoder_handing reader
      cases read : readFromDecoder reader with
      | mk result next =>
          rw [read] at failed handing
          cases handing with
          | record current handed => cases failed
          | faulty notError =>
              cases failed
              exact absurd rfl (notError error)
          | drained empty =>
              have moved := @advanceChunk_stays ext _ sourceFrame_repositions
                { reader with currentDecoder := none }
              simp only at failed
              cases advanced : advanceChunk ext { reader with currentDecoder := none } with
              | mk more further =>
                  rw [advanced] at failed moved
                  obtain ⟨source, recovery, measured⟩ := moved
                  cases more with
                  | error fault =>
                      cases failed
                      exact @advanceChunk_stuck ext { reader with currentDecoder := none } error known alone
                        rfl _ advanced
                  | ok more =>
                      cases more with
                      | true => exact ih (measured known) (recovery.trans alone) failed
                      | false => cases failed

/-- A read that returns an error leaves the reader stuck. -/
theorem readRecord_stuck (known : Known reader) (alone : reader.recovery = none)
    {after : RecordReader} (failed : readRecord ext reader = (.error (.error error), after)) :
    Stuck ext after error :=
  @readRecordLoop_stuck ext error _ { reader with pendingTrustedEnd := none } after known alone failed

/-- A stuck reader returns its error again, and stays stuck. -/
theorem Stuck.readRecord (stuck : Stuck ext reader error) :
    ∃ after, RecordReader.readRecord ext reader = (.error (.error error), after) ∧
      Stuck ext after error := by
  obtain ⟨trusted, stands⟩ := stuck.stands
  have known : Known { reader with pendingTrustedEnd := none } := stuck.known
  have lands : RecordReader.landed ext { reader with pendingTrustedEnd := none } =
      (reader.nextChunkFilePos, .fails (.error error) trusted) :=
    landsAt_of_found stands (by simp)
  have empty : readFromDecoder { reader with pendingTrustedEnd := none } =
      (.ok none, { reader with pendingTrustedEnd := none }) := by
    rw [readFromDecoder_run, stuck.drained]
  have still : (RecordReader.afterLanding ext { reader with pendingTrustedEnd := none }).recovery =
      none := by
    unfold RecordReader.afterLanding
    rw [lands]
    exact stuck.alone
  have advanced : ∃ after, advanceChunk ext { reader with pendingTrustedEnd := none } =
      (.error (.error error), after) := by
    rw [advanceChunk_lands known]
    simp only [lands, recoverOrFail, tryRecoverAt_none still]
    exact ⟨_, rfl⟩
  obtain ⟨after, advanced⟩ := advanced
  refine ⟨after, ?_, advanceChunk_stuck known stuck.alone stuck.drained advanced⟩
  have loop : readRecordLoop ext (reader.source.length + 64)
      { reader with pendingTrustedEnd := none } = (.error (.error error), after) := by
    rw [readRecordLoop_succ, empty]
    simp only [advanced]
  exact loop

/-! ## Seeking -/

theorem skipRecords_quiet (left : Nat) (reader : RecordReader) (after : RecordReader) :
    skipRecords left reader ≠ (.error (.error error), after) := by
  induction left generalizing reader with
  | zero => simp [skipRecords]
  | succ left ih =>
      unfold skipRecords
      simp only [Act.bind_run, Act.get_run]
      cases reader.currentDecoder with
      | none => simp
      | some decoder =>
          simp only [Act.bind_run, Act.lift_run]
          cases handed : decoder.readRecord with
          | error fault =>
              intro failed
              cases failed
              exact decoder.readRecord_quiet error handed
          | ok pair =>
              obtain ⟨record, next⟩ := pair
              cases record with
              | none => simp
              | some record =>
                  simp only [Act.modify_run]
                  exact ih _

theorem seekWithin_quiet (chunkFilePos recordIndex : Nat) (decoder : ActiveDecoder)
    (reader after : RecordReader) :
    seekWithin chunkFilePos recordIndex decoder reader ≠ (.error (.error error), after) := by
  unfold seekWithin
  simp only [Act.bind_run, Act.modify_run, Act.get_run]
  intro failed
  split at failed
  · cases failed
  · rename_i fault next skipped
    cases failed
    exact skipRecords_quiet _ _ _ skipped

/-- A seek that returns an error leaves the reader stuck. -/
theorem seek_stuck (known : Known reader) (alone : reader.recovery = none)
    {target : RecordPosition} {after : RecordReader}
    (failed : seek ext target reader = (.error (.error error), after)) :
    Stuck ext after error := by
  have lands := @landsAt_lands ext reader.source reader.fieldProjection
    (canonicalChunkAddress target.chunkBegin)
  obtain ⟨chunkBegin, _, loaded⟩ := @loadChunkAt_lands ext reader known _
    (canonicalChunkAddress_idem target.chunkBegin)
  rw [seek_eq, loaded] at failed
  cases found : (landsAt ext reader.source reader.fieldProjection
      (canonicalChunkAddress target.chunkBegin)).2 with
  | absent => simp [found, seekResult] at failed
  | passes stop => simp [found, seekResult] at failed
  | holds decoder stop =>
      simp only [found, seekResult] at failed
      exact absurd failed (seekWithin_quiet _ _ _ _ _)
  | fails fault trusted =>
      cases fault with
      | panic kind => simp [found, seekResult] at failed
      | outOfFuel => simp [found, seekResult] at failed
      | error cause =>
          simp only [found, seekResult, recoverSeek] at failed
          rw [tryRecoverAt_none (by exact alone)] at failed
          simp only [Prod.mk.injEq, Except.error.injEq, Fault.error.injEq] at failed
          obtain ⟨rfl, rfl⟩ := failed
          exact ⟨known, alone, rfl, trusted, lands.found.trans found⟩

/-! ## Runs -/

/-- The frame that keeps a reader stuck. -/
def stuckFrame (ext : Externals) (error : RiegeliError) : Frame RecordReader where
  rel before after := Stuck ext before error → Stuck ext after error
  refl _ := id
  trans first second := second ∘ first

theorem stuckFrame_inspects : Inspects (stuckFrame ext error) where
  trusted _ _ stuck := ⟨stuck.known, stuck.alone, stuck.drained, stuck.stands⟩
  measured _ stuck := ⟨rfl, stuck.alone, stuck.drained, stuck.stands⟩
  reported _ _ _ stuck := ⟨stuck.known, stuck.alone, stuck.drained, stuck.stands⟩

theorem Stuck.run (calls : List ReaderOp)
    (staying : ∀ op ∈ calls, op = .readRecord ∨ op.Inspection)
    (stuck : Stuck ext reader error) : Stuck ext (runReader ext calls reader) error := by
  induction calls generalizing reader with
  | nil => exact stuck
  | cons op rest ih =>
      refine ih (fun later member => staying later (List.mem_cons_of_mem _ member)) ?_
      rcases staying op List.mem_cons_self with rfl | inspection
      · obtain ⟨after, ran, stays⟩ := stuck.readRecord
        simp only [ReaderOp.after, ran]
        exact stays
      · exact inspection.after_stays stuckFrame_inspects reader stuck

/-- Once a read or a seek has returned an error, every later read returns the
same error, with any reads and inspection calls in between. -/
theorem errors_persist {source : Bytes} {options : ReaderOptions}
    (reached : ReaderReached ext source options reader) (alone : options.recovery = none)
    {after : RecordReader}
    (failed : readRecord ext reader = (.error (.error error), after) ∨
      ∃ target, seek ext target reader = (.error (.error error), after))
    (calls : List ReaderOp) (staying : ∀ op ∈ calls, op = .readRecord ∨ op.Inspection) :
    (readRecord ext (runReader ext calls after)).1 = .error (.error error) := by
  have measured := reached.measured
  have unrecovered : reader.recovery = none := measured.recovery.trans alone
  have stuck : Stuck ext after error := by
    rcases failed with failed | ⟨target, failed⟩
    · exact readRecord_stuck measured.streamLen unrecovered failed
    · exact seek_stuck measured.streamLen unrecovered failed
  obtain ⟨final, ran, _⟩ := (stuck.run calls staying).readRecord
  rw [ran]

/-- A preamble and the first byte of a chunk. -/
def cutSource : Bytes :=
  (BlockHeader.fromParts storingExternals 0 64).toBytes ++
    (ChunkHeader.fromParts storingExternals [] .fileSignature 0 0).toBytes ++ [1]

/-- The reader that is opened on it. -/
def cutReader : RecordReader := RecordReader.initial cutSource ReaderOptions.new

theorem errors_persist_cut_chunk :
    (readRecord storingExternals
        (runReader storingExternals [.readRecord, .size, .readRecord]
          (readRecord storingExternals cutReader).2)).1 = .error (truncatedChunk 64) :=
  @errors_persist storingExternals cutReader _ cutSource ReaderOptions.new
    ⟨cutReader, [], rfl, rfl⟩ rfl _ (Or.inl (Prod.ext rfl rfl))
    [.readRecord, .size, .readRecord] (by simp [ReaderOp.Inspection])

end Riegeli
