/-
Module: Riegeli.Proofs.StaticReading
Purpose: Reading, seeking and recovery on a source that does not change, told
  by where the source lands the reader.
Trusted boundary: the hash and the codecs
Main exports: readFromDecoder_handing, readRecordLoop_succ,
  tryRecoverAt_some, advanceChunk_lands, seek_eq, loadChunkAt_lands
-/
import Riegeli.Proofs.StaticReader
import Riegeli.Proofs.ReadSequence

namespace Riegeli

open RecordReader

variable {ext : Externals} {reader : RecordReader}

/-! ## Records of an open chunk -/

theorem SimpleChunkDecoder.readRecord_quiet (decoder : SimpleChunkDecoder) :
    Rust.Quiet decoder.readRecord := by
  unfold SimpleChunkDecoder.readRecord
  split
  · exact .ok _
  · exact .bind (sliceRange_quiet _ _ _) fun record => .ok _

theorem TransposeChunkDecoder.readRecord_quiet (decoder : TransposeChunkDecoder) :
    Rust.Quiet decoder.readRecord := by
  unfold TransposeChunkDecoder.readRecord TransposeChunkDecoder.nextStart
  split
  · exact .ok _
  · refine .bind ?_ fun start => .bind (indexAt_quiet _ _) fun stop => ?_
    · split
      · exact .ok _
      · exact indexAt_quiet _ _
    · exact .bind (sliceRange_quiet _ _ _) fun record => .ok _

/-- An open decoder returns no error. -/
theorem ActiveDecoder.readRecord_quiet (decoder : ActiveDecoder) :
    Rust.Quiet decoder.readRecord := by
  cases decoder with
  | simple decoder => exact .bind decoder.readRecord_quiet fun _ => .ok _
  | transposed decoder => exact .bind decoder.readRecord_quiet fun _ => .ok _

/-- A decoder with nothing left stays as it is. -/
theorem ActiveDecoder.readRecord_none {decoder next : ActiveDecoder}
    (read : decoder.readRecord = .ok (none, next)) : next = decoder := by
  cases decoder with
  | simple decoder =>
      obtain ⟨⟨record, after⟩, handed, built⟩ := Except.bind_eq_ok.mp read
      simp only [Except.ok.injEq, Prod.mk.injEq] at built
      obtain ⟨rfl, rfl⟩ := built
      unfold SimpleChunkDecoder.readRecord at handed
      split at handed
      · cases handed
        rfl
      · obtain ⟨_, _, handed⟩ := Except.bind_eq_ok.mp handed
        cases handed
  | transposed decoder =>
      obtain ⟨⟨record, after⟩, handed, built⟩ := Except.bind_eq_ok.mp read
      simp only [Except.ok.injEq, Prod.mk.injEq] at built
      obtain ⟨rfl, rfl⟩ := built
      unfold TransposeChunkDecoder.readRecord at handed
      split at handed
      · cases handed
        rfl
      · obtain ⟨_, _, handed⟩ := Except.bind_eq_ok.mp handed
        obtain ⟨_, _, handed⟩ := Except.bind_eq_ok.mp handed
        obtain ⟨_, _, handed⟩ := Except.bind_eq_ok.mp handed
        cases handed

/-- Reading from the open decoder, if there is one. -/
theorem readFromDecoder_run (reader : RecordReader) :
    readFromDecoder reader =
      match reader.currentDecoder with
      | none => (.ok none, reader)
      | some decoder =>
          match decoder.readRecord with
          | .ok (some record, next) => (.ok (some record), handedRecord reader next)
          | .ok (none, _) => (.ok none, { reader with currentDecoder := none })
          | .error fault => (.error fault, reader) := by
  unfold readFromDecoder
  rw [Act.bind_run_ok (Act.get_run reader)]
  cases current : reader.currentDecoder with
  | none => rfl
  | some decoder =>
      simp only [Act.bind_run, Act.lift_run]
      cases decoder.readRecord with
      | error fault => rfl
      | ok read =>
          obtain ⟨record, next⟩ := read
          cases record <;> rfl

/-- The open decoder, if there is one, has these records left. -/
def Holding (reader : RecordReader) (records : List Bytes) : Prop :=
  reader.currentDecoder = none ∧ records = [] ∨
    ∃ decoder : ActiveDecoder, reader.currentDecoder = some decoder ∧ decoder.Yields records

/-- What reading from the open decoder comes to. -/
inductive Handing (reader : RecordReader) : Except Fault (Option Bytes) × RecordReader → Prop where
  | record {decoder next : ActiveDecoder} {record : Bytes} :
      reader.currentDecoder = some decoder → decoder.readRecord = .ok (some record, next) →
      Handing reader (.ok (some record), handedRecord reader next)
  | drained : Holding reader [] → Handing reader (.ok none, { reader with currentDecoder := none })
  | faulty {fault : Fault} : (∀ error, fault ≠ .error error) → Handing reader (.error fault, reader)

theorem readFromDecoder_handing (reader : RecordReader) :
    Handing reader (readFromDecoder reader) := by
  rw [readFromDecoder_run]
  cases current : reader.currentDecoder with
  | none =>
      have same : reader = { reader with currentDecoder := none } := by rw [← current]
      have handing := @Handing.drained reader (Or.inl ⟨current, rfl⟩)
      rwa [← same] at handing
  | some decoder =>
      simp only
      cases handed : decoder.readRecord with
      | error fault =>
          refine .faulty fun error same => ?_
          rw [same] at handed
          exact decoder.readRecord_quiet error handed
      | ok read =>
          obtain ⟨record, next⟩ := read
          cases record with
          | some record => exact .record current handed
          | none =>
              obtain rfl := ActiveDecoder.readRecord_none handed
              exact .drained (Or.inr ⟨next, current, handed⟩)

/-- A pass of `read_record`. -/
theorem readRecordLoop_succ (fuel : Nat) (reader : RecordReader) :
    readRecordLoop ext (fuel + 1) reader =
      match readFromDecoder reader with
      | (.ok (some record), next) => (.ok (some record), next)
      | (.error fault, next) => (.error fault, next)
      | (.ok none, next) =>
          match advanceChunk ext next with
          | (.ok true, after) => readRecordLoop ext fuel after
          | (.ok false, after) => (.ok none, after)
          | (.error fault, after) => (.error fault, after) := by
  cases read : readFromDecoder reader with
  | mk result next =>
      cases result with
      | error fault =>
          rw [readRecordLoop, Act.bind_run_error read]
      | ok record =>
          cases record with
          | some record =>
              rw [readRecordLoop, Act.bind_run_ok read]
              rfl
          | none => exact readRecordLoop_empty fuel read

theorem readRecord_eq (reader : RecordReader) :
    readRecord ext reader =
      readRecordLoop ext reader.forwardFuel { reader with pendingTrustedEnd := none } := by
  unfold readRecord forwardFuel
  simp only [Act.bind_run, setTrustedEnd, Act.modify_run, Act.get_run]

/-! ## Recovery -/

/-- The region of a failure at `place`, once its extent is known. -/
def RecordReader.regionOf (reader : RecordReader) (place extent : Nat) (error : RiegeliError) :
    SkippedRegion :=
  let start := regionStart reader.lastSkippedRegion place
  { start := start, stop := regionStop start place extent, message := error.toText }

/-- The reader past a region it has reported. -/
def RecordReader.recovered (reader : RecordReader) (region : SkippedRegion) : RecordReader :=
  { reader with
    pendingTrustedEnd := none
    lastSkippedRegion := some region
    reported := reader.reported ++ [region]
    lastRecordIsValid := false
    currentDecoder := none
    atEof := false
    nextChunkFilePos := region.stop }

/-- Recovery with a callback reports the region and goes past it, whatever the
verdict. -/
theorem tryRecoverAt_some {callback : List SkippedRegion → Bool}
    (recovery : reader.recovery = some callback) (place : Nat) (error : RiegeliError) :
    tryRecoverAt ext place error reader =
      match regionExtent ext reader (regionStart reader.lastSkippedRegion place)
          reader.pendingTrustedEnd with
      | .ok extent =>
          (.ok (callback (reader.reported ++ [reader.regionOf place extent error])),
            reader.recovered (reader.regionOf place extent error))
      | .error fault => (.error fault, { reader with pendingTrustedEnd := none }) := by
  unfold tryRecoverAt reportRegionAt
  simp only [Act.bind_run, Act.get_run, setTrustedEnd, Act.modify_run, recovery, Act.lift_run]
  cases regionExtent ext reader (regionStart reader.lastSkippedRegion place)
      reader.pendingTrustedEnd with
  | error fault => rw [← recovery]
  | ok extent =>
      simp only [RecordReader.recovered, recovery]
      rfl

/-! ## Loading the next chunk -/

/-- The reader after `load_next_chunk`. -/
def RecordReader.afterLanding (ext : Externals) (reader : RecordReader) : RecordReader :=
  afterFinding { reader with nextChunkFilePos := (reader.landed ext).1 } (reader.landed ext).1
    (reader.landed ext).2

/-- The end of a pass of `read_record` whose load has failed. -/
def recoverOrFail (ext : Externals) (error : RiegeliError) (reader : RecordReader) :
    Except Fault Bool × RecordReader :=
  match tryRecoverAt ext reader.nextChunkFilePos error reader with
  | (.ok true, after) => (.ok (!after.atEof), after)
  | (.ok false, after) => (.error (.error error), after)
  | (.error fault, after) => (.error fault, after)

/-- How a pass of `read_record` goes on after a load. -/
theorem advanceChunk_lands (known : Known reader) :
    advanceChunk ext reader =
      match (reader.landed ext).2 with
      | .holds _ _ => (.ok true, { reader.afterLanding ext with atEof := false })
      | .fails (.error error) _ => recoverOrFail ext error (reader.afterLanding ext)
      | .fails fault _ => (.error fault, reader.afterLanding ext)
      | _ => (.ok false, { reader.afterLanding ext with atEof := true }) := by
  rw [advanceChunk_eq, loadNextChunk_lands known]
  unfold RecordReader.afterLanding
  cases (reader.landed ext).2 with
  | absent => rfl
  | passes stop => rfl
  | holds decoder stop => rfl
  | fails fault trusted =>
      cases fault with
      | panic kind => rfl
      | outOfFuel => rfl
      | error error =>
          simp only [passResult, Act.bind_run, recoverOrFail]
          generalize afterFinding { reader with nextChunkFilePos := (reader.landed ext).1 }
            (reader.landed ext).1 (.fails (.error error) trusted) = landed
          match tryRecoverAt ext landed.nextChunkFilePos error landed with
          | (.ok true, after) => rfl
          | (.ok false, after) => rfl
          | (.error fault, after) => rfl

/-! ## Seeking -/

/-- The reader as `seek` prepares it. -/
def RecordReader.aimed (reader : RecordReader) (chunkFilePos : Nat) : RecordReader :=
  { reader with
    pendingTrustedEnd := none
    currentDecoder := none
    atEof := false
    nextChunkFilePos := chunkFilePos
    currentChunkBegin := chunkFilePos
    currentRecordIndex := 0 }

/-- The end of a seek whose load has failed. -/
def recoverSeek (ext : Externals) (error : RiegeliError) (reader : RecordReader) :
    Except Fault Unit × RecordReader :=
  match tryRecoverAt ext reader.nextChunkFilePos error reader with
  | (.ok true, after) =>
      (.ok (),
        { after with pos := { chunkBegin := after.nextChunkFilePos, recordIndex := 0 } })
  | (.ok false, after) => (.error (.error error), after)
  | (.error fault, after) => (.error fault, after)

/-- The end of a seek to a record of the open chunk. -/
theorem seekWithin_run (chunkFilePos recordIndex : Nat) (decoder : ActiveDecoder)
    (reader : RecordReader) :
    seekWithin chunkFilePos recordIndex decoder reader =
      match skipRecords (if reader.currentChunkBegin = chunkFilePos then recordIndex else 0)
          { reader with currentDecoder := some decoder } with
      | (.ok _, next) =>
          (.ok (),
            { next with
              pos := { chunkBegin := chunkFilePos, recordIndex := next.currentRecordIndex } })
      | (.error fault, next) => (.error fault, next) := by
  unfold seekWithin
  simp only [Act.bind_run, Act.modify_run, Act.get_run]
  match skipRecords (if reader.currentChunkBegin = chunkFilePos then recordIndex else 0)
      { reader with currentDecoder := some decoder } with
  | (.ok (), next) => rfl
  | (.error fault, next) => rfl

/-- How a seek ends, by what `load_chunk_at` comes to. -/
theorem seek_eq (reader : RecordReader) (target : RecordPosition) :
    seek ext target reader =
      match loadChunkAt ext (canonicalChunkAddress target.chunkBegin)
          (reader.aimed (canonicalChunkAddress target.chunkBegin)) with
      | (.ok (some decoder), after) =>
          seekWithin (canonicalChunkAddress target.chunkBegin) target.recordIndex decoder after
      | (.ok none, after) =>
          (.ok (),
            { after with
              atEof := true
              pos :=
                { chunkBegin := canonicalChunkAddress target.chunkBegin
                  recordIndex := target.recordIndex } })
      | (.error (.error error), after) => recoverSeek ext error after
      | (.error fault, after) => (.error fault, after) := by
  unfold seek RecordReader.aimed
  simp only [Act.bind_run, setTrustedEnd, Act.modify_run, attempt]
  split
  · rename_i loaded next outcome
    split at outcome
    · rename_i decoder after ran
      cases outcome
      rw [ran]
      cases decoder <;> rfl
    · rename_i error after ran
      cases outcome
      rw [ran]
      simp only [Act.bind_run, Act.get_run, recoverSeek]
      rcases tryRecoverAt ext next.nextChunkFilePos error next with ⟨recovered, final⟩
      cases recovered with
      | ok resumed => cases resumed <;> rfl
      | error fault => rfl
    · cases outcome
  · rename_i fault next outcome
    split at outcome
    · cases outcome
    · cases outcome
    · rename_i failure after notError ran
      cases outcome
      rw [ran]
      cases fault with
      | error error => exact absurd rfl (notError error)
      | panic kind => rfl
      | outOfFuel => rfl

/-- What `load_chunk_at` comes to in a seek. -/
theorem loadChunkAt_lands (known : Known reader) {place : Nat}
    (canonical : canonicalChunkAddress place = place) :
    ∃ chunkBegin,
      (∀ decoder stop, (landsAt ext reader.source reader.fieldProjection place).2 =
          .holds decoder stop →
        chunkBegin = (landsAt ext reader.source reader.fieldProjection place).1) ∧
      loadChunkAt ext place (reader.aimed place) =
        (seekResult (landsAt ext reader.source reader.fieldProjection place).2,
          afterSeekFinding (reader.aimed place)
            (landsAt ext reader.source reader.fieldProjection place).1 chunkBegin
            (landsAt ext reader.source reader.fieldProjection place).2) := by
  have seeking : Seeking (reader.aimed place) place := ⟨known, rfl, canonical, rfl⟩
  have source : (reader.aimed place).source = reader.source := rfl
  have lands := @loadChunkAtLoop_lands ext (reader.source.length + 64) place _ seeking (by omega)
    (by rw [source]; omega)
  unfold loadChunkAt
  rw [Act.bind_run_ok (Act.get_run _)]
  exact lands

end Riegeli
