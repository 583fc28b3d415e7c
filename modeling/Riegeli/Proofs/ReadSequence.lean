/-
Module: Riegeli.Proofs.ReadSequence
Purpose: The reader simulates a cursor: on a source that shows the chunks of
  a file, in whole or in part, `read_record` does what reading at the cursor
  comes to.
Trusted boundary: the hash and the codecs
Main exports: Following, SameFile, loadNextLoop_follows, readRecord_follows
-/
import Riegeli.Spec.ReadCursor
import Riegeli.Proofs.ChunkSteps

namespace Riegeli

open RecordReader

variable {ext : Externals}

/-- The reader stands where the cursor does. -/
structure Following (ext : Externals) (reader : RecordReader) (cursor : Cursor) : Prop where
  next : reader.nextChunkFilePos = cursor.chunkBegin
  decoder :
    reader.currentDecoder = none ∧ cursor.pending = [] ∨
      ∃ (decoder : ActiveDecoder) (records : List Bytes),
        reader.currentDecoder = some decoder ∧ decoder.Yields records ∧
          cursor.pending = numbered reader.currentChunkBegin reader.currentRecordIndex records
  known : reader.streamLen ≤ reader.source.length
  stored : Stored ext reader.fieldProjection reader.source cursor.chunkBegin cursor.chunks

/-- Reading changes neither the file nor the options, and reports nothing. -/
structure SameFile (before after : RecordReader) : Prop where
  source : after.source = before.source
  recovery : after.recovery = before.recovery
  reported : after.reported = before.reported
  fieldProjection : after.fieldProjection = before.fieldProjection
  lastSkippedRegion : after.lastSkippedRegion = before.lastSkippedRegion
  streamLen : before.streamLen ≤ after.streamLen

theorem SameFile.refl (reader : RecordReader) : SameFile reader reader :=
  ⟨rfl, rfl, rfl, rfl, rfl, Nat.le_refl _⟩

theorem SameFile.trans {before middle after : RecordReader} (first : SameFile before middle)
    (second : SameFile middle after) : SameFile before after :=
  ⟨second.source.trans first.source, second.recovery.trans first.recovery,
    second.reported.trans first.reported, second.fieldProjection.trans first.fieldProjection,
    second.lastSkippedRegion.trans first.lastSkippedRegion,
    Nat.le_trans first.streamLen second.streamLen⟩

/-- A stored chunk faces a reader that stands at its begin. -/
theorem StoredAt.facing {reader : RecordReader} {held : HeldChunk}
    (stored : StoredAt ext reader.fieldProjection reader.source reader.nextChunkFilePos held)
    (known : reader.streamLen ≤ reader.source.length) :
    FacesHeld ext reader reader.nextChunkFilePos held := by
  have length := held.chunk.length_payload
  refine ⟨⟨⟨stored.possible, by omega, ?_, stored.within⟩, stored.shows, known⟩,
    stored.readable, stored.sized⟩
  rw [length, ← stored.sized, reach, if_neg (by omega)]
  exact stored.spec.room

/-! ## Loading -/

/-- How a load ends: with a chunk's records ahead, at the end of what is
there, or at a chunk that is there only in part. -/
inductive Loaded (ext : Externals) (seen : Nat) (before : Cursor) :
    Except Fault Bool → RecordReader → Prop where
  | entered {reader : RecordReader} {cursor : Cursor} :
      Following ext reader cursor → cursor.read seen = before.read seen →
      cursor.stop = before.stop →
      before.chunkBegin + 40 ≤ cursor.chunkBegin → before.chunkBegin + 40 ≤ seen →
      Loaded ext seen before (.ok true) reader
  | finished {reader : RecordReader} {cursor : Cursor} :
      Following ext reader cursor → before.read seen = (.finished, cursor) →
      Loaded ext seen before (.ok false) reader
  | refused {reader : RecordReader} {cursor : Cursor} {error : RiegeliError} :
      Following ext reader cursor → before.read seen = (.refused, cursor) →
      Loaded ext seen before (.error (.error error)) reader

/-- Going past a visible chunk without records changes no outcome. -/
theorem Loaded.skip {seen chunkBegin : Nat} {held : HeldChunk} {rest : List HeldChunk}
    {result : Except Fault Bool} {reader : RecordReader}
    (visible : Visible seen chunkBegin held.chunk.header) (none : held.records = [])
    (ahead : chunkBegin + 40 ≤ held.chunk.stop chunkBegin)
    (loaded : Loaded ext seen
      { chunkBegin := held.chunk.stop chunkBegin, pending := [], chunks := rest } result reader) :
    Loaded ext seen { chunkBegin := chunkBegin, pending := [], chunks := held :: rest } result
      reader := by
  have same : Cursor.read seen { chunkBegin := chunkBegin, pending := [], chunks := held :: rest } =
      Cursor.read seen
        { chunkBegin := held.chunk.stop chunkBegin, pending := [], chunks := rest } := by
    rw [Cursor.read, readFrom, if_pos visible, none]
    rfl
  cases loaded with
  | entered following read stop after before =>
      exact .entered following (read.trans same.symm) stop (by simp only at *; omega)
        (by simp only at *; omega)
  | finished following read => exact .finished following (same.trans read)
  | refused following read => exact .refused following (same.trans read)

/-- Loading goes past the chunks without records.  The induction is on the
chunks ahead; every chunk passed leaves enough fuel for the rest. -/
theorem loadNextLoop_follows (chunks : List HeldChunk) :
    ∀ (fuel : Nat) (reader : RecordReader) (chunkBegin : Nat),
      Following ext reader { chunkBegin := chunkBegin, pending := [], chunks := chunks } →
      reader.source.length ≤ fileStop chunkBegin (chunks.map HeldChunk.chunk) → 0 < fuel →
      reader.source.length < fuel + chunkBegin →
      ∃ result after, loadNextLoop ext fuel reader = (result, after) ∧ SameFile reader after ∧
        Loaded ext reader.source.length
          { chunkBegin := chunkBegin, pending := [], chunks := chunks } result after := by
  induction chunks with
  | nil =>
      intro fuel reader chunkBegin following whole positive enough
      obtain ⟨fuel, rfl⟩ : ∃ smaller, fuel = smaller + 1 := ⟨fuel - 1, by omega⟩
      have next : reader.nextChunkFilePos = chunkBegin := following.next
      refine ⟨_, _, loadNextLoop_end fuel ?_ ?_, ⟨rfl, rfl, rfl, rfl, rfl, Nat.le_refl _⟩, ?_⟩
      · rw [next]
        exact following.stored
      · rw [next]
        exact whole
      · exact .finished ⟨next, following.decoder, following.known, following.stored⟩ rfl
  | cons held rest ih =>
      intro fuel reader chunkBegin following whole positive enough
      obtain ⟨fuel, rfl⟩ : ∃ smaller, fuel = smaller + 1 := ⟨fuel - 1, by omega⟩
      have next : reader.nextChunkFilePos = chunkBegin := following.next
      obtain ⟨here, later⟩ := following.stored
      subst next
      have facing := here.facing following.known
      have ahead : reader.nextChunkFilePos + 40 ≤ held.chunk.stop reader.nextChunkFilePos :=
        here.spec.begin_add_le
      by_cases visible :
          Visible reader.source.length reader.nextChunkFilePos held.chunk.header
      · obtain ⟨measured, longer, within, outcome⟩ := loadNextLoop_held fuel facing visible
        have seen := visible.lt
        rcases outcome with ⟨decoder, yields, ran⟩ | ⟨none, ran⟩
        · refine ⟨_, _, ran, ⟨rfl, rfl, rfl, rfl, rfl, longer⟩, ?_⟩
          refine @Loaded.entered ext _ _ _
            { chunkBegin := held.chunk.stop reader.nextChunkFilePos
              pending := numbered reader.nextChunkFilePos 0 held.records
              chunks := rest }
            ⟨rfl, Or.inr ⟨decoder, held.records, rfl, yields, rfl⟩, within, later⟩ ?_ ?_ ?_ ?_
          · rw [Cursor.read, Cursor.read, readFrom, if_pos visible]
          · rfl
          · exact ahead
          · exact seen
        · rw [ran]
          obtain ⟨result, after, loaded, same, outcome⟩ :=
            ih fuel (passedChunk reader measured (held.chunk.stop reader.nextChunkFilePos))
              (held.chunk.stop reader.nextChunkFilePos)
              ⟨rfl, following.decoder, within, later⟩ whole (by omega)
              (by simp only [passedChunk]; omega)
          exact ⟨result, after, loaded,
            ⟨same.source, same.recovery, same.reported, same.fieldProjection,
              same.lastSkippedRegion, Nat.le_trans longer same.streamLen⟩,
            outcome.skip visible none ahead⟩
      · rcases Nat.lt_or_ge reader.nextChunkFilePos reader.source.length with begun | past
        · obtain ⟨error, measured, longer, within, ran⟩ :=
            loadNextLoop_refused fuel facing begun visible
          refine ⟨_, _, ran, ⟨rfl, rfl, rfl, rfl, rfl, longer⟩, ?_⟩
          refine .refused ⟨rfl, following.decoder, within, here, later⟩ ?_
          rw [Cursor.read, readFrom, if_neg visible, if_neg (Nat.not_le.mpr begun)]
        · refine ⟨_, _, loadNextLoop_end fuel here.possible past,
            ⟨rfl, rfl, rfl, rfl, rfl, Nat.le_refl _⟩, ?_⟩
          refine .finished ⟨rfl, following.decoder, following.known, here, later⟩ ?_
          rw [Cursor.read, readFrom, if_neg visible, if_pos past]

/-! ## Reading -/

/-- How a read ends: as the cursor's does, and standing where the cursor
then is. -/
inductive Delivered (ext : Externals) (seen : Nat) (before : Cursor) :
    Except Fault (Option Bytes) → RecordReader → Prop where
  | record {reader : RecordReader} {cursor : Cursor} {position : RecordPosition}
      {record : Bytes} :
      Following ext reader cursor → before.read seen = (.record position record, cursor) →
      reader.lastPos = position → Delivered ext seen before (.ok (some record)) reader
  | finished {reader : RecordReader} {cursor : Cursor} :
      Following ext reader cursor → before.read seen = (.finished, cursor) →
      Delivered ext seen before (.ok none) reader
  | refused {reader : RecordReader} {cursor : Cursor} {error : RiegeliError} :
      Following ext reader cursor → before.read seen = (.refused, cursor) →
      Delivered ext seen before (.error (.error error)) reader

/-- The reader after a record from its decoder. -/
def handedRecord (reader : RecordReader) (decoder : ActiveDecoder) : RecordReader :=
  { reader with
    currentDecoder := some decoder
    lastPos :=
      { chunkBegin := reader.currentChunkBegin, recordIndex := reader.currentRecordIndex }
    currentRecordIndex := reader.currentRecordIndex + 1
    pos :=
      { chunkBegin := reader.currentChunkBegin, recordIndex := reader.currentRecordIndex + 1 }
    lastRecordIsValid := true }

theorem Delivered.congr {seen : Nat} {before other : Cursor}
    {result : Except Fault (Option Bytes)} {reader : RecordReader}
    (delivered : Delivered ext seen other result reader)
    (same : other.read seen = before.read seen) : Delivered ext seen before result reader := by
  cases delivered with
  | record following read last => exact .record following (same.symm.trans read) last
  | finished following read => exact .finished following (same.symm.trans read)
  | refused following read => exact .refused following (same.symm.trans read)

/-- A record that is still to come from the current chunk is handed over. -/
theorem readFromDecoder_pending {reader : RecordReader} {chunkBegin : Nat}
    {position : RecordPosition} {record : Bytes} {pending : List (RecordPosition × Bytes)}
    {chunks : List HeldChunk}
    (following : Following ext reader
      { chunkBegin := chunkBegin, pending := (position, record) :: pending, chunks := chunks }) :
    ∃ after, readFromDecoder reader = (.ok (some record), after) ∧ SameFile reader after ∧
      after.lastPos = position ∧
      Following ext after
        { chunkBegin := chunkBegin, pending := pending, chunks := chunks } := by
  rcases following.decoder with ⟨_, impossible⟩ | ⟨decoder, records, current, yields, left⟩
  · simp at impossible
  · cases records with
    | nil => simp [numbered] at left
    | cons first records =>
        simp only [numbered, List.cons.injEq, Prod.mk.injEq] at left
        obtain ⟨⟨positioned, rfl⟩, left⟩ := left
        obtain ⟨nextDecoder, read, later⟩ := yields
        refine ⟨handedRecord reader nextDecoder, ?_, ⟨rfl, rfl, rfl, rfl, rfl, Nat.le_refl _⟩,
          positioned.symm,
          ⟨following.next, Or.inr ⟨nextDecoder, records, rfl, later, left⟩, following.known,
            following.stored⟩⟩
        simp [readFromDecoder, Act.bind_run, current, read, handedRecord]

/-- With nothing to come from the current chunk the decoder is dropped. -/
theorem readFromDecoder_empty {reader : RecordReader} {chunkBegin : Nat}
    {chunks : List HeldChunk}
    (following : Following ext reader
      { chunkBegin := chunkBegin, pending := [], chunks := chunks }) :
    readFromDecoder reader = (.ok none, { reader with currentDecoder := none }) := by
  rcases following.decoder with ⟨current, _⟩ | ⟨decoder, records, current, yields, left⟩
  · simp only [readFromDecoder, Act.bind_run, Act.get_run, current, Act.pure_run]
    rw [← current]
  · cases records with
    | nil =>
        have read : decoder.readRecord = .ok (none, decoder) := yields
        simp [readFromDecoder, Act.bind_run, current, read]
    | cons first records => simp [numbered] at left

/-- Without a recovery callback an error is passed on. -/
theorem tryRecoverAt_none {reader : RecordReader} (plain : reader.recovery = none) (place : Nat)
    (error : RiegeliError) :
    tryRecoverAt ext place error reader =
      (.ok false, { reader with pendingTrustedEnd := none }) := by
  simp [tryRecoverAt, reportRegionAt, Act.bind_run, setTrustedEnd, plain]

/-- What follows a load in `read_record`. -/
theorem advanceChunk_eq (reader : RecordReader) :
    advanceChunk ext reader =
      match loadNextChunk ext reader with
      | (.ok true, after) => (.ok true, { after with atEof := false })
      | (.ok false, after) => (.ok false, { after with atEof := true })
      | (.error (.error error), after) =>
          (do
            let recovered ← tryRecoverAt ext after.nextChunkFilePos error
            if recovered then do
              let self ← Act.get
              pure (!self.atEof)
            else Act.fail (.error error) : RecordReader.Method Bool) after
      | (.error fault, after) => (.error fault, after) := by
  unfold advanceChunk
  rw [Act.bind_run, attempt]
  cases loadNextChunk ext reader with
  | mk result after =>
      cases result with
      | ok ready => cases ready <;> rfl
      | error fault => cases fault <;> rfl

/-- A pass of `read_record` that finds nothing in the current chunk. -/
theorem readRecordLoop_empty (fuel : Nat) {reader next : RecordReader}
    (empty : readFromDecoder reader = (.ok none, next)) :
    readRecordLoop ext (fuel + 1) reader =
      match advanceChunk ext next with
      | (.ok true, after) => readRecordLoop ext fuel after
      | (.ok false, after) => (.ok none, after)
      | (.error fault, after) => (.error fault, after) := by
  rw [readRecordLoop, Act.bind_run_ok empty]
  simp only [Act.bind_run]
  split
  · rename_i more after advanced
    rw [advanced]
    cases more <;> rfl
  · rename_i fault after advanced
    rw [advanced]

/-- A cursor is not moved by what else the reader keeps. -/
theorem Following.congr {before after : RecordReader} {cursor : Cursor}
    (following : Following ext before cursor) (source : after.source = before.source)
    (fieldProjection : after.fieldProjection = before.fieldProjection)
    (next : after.nextChunkFilePos = before.nextChunkFilePos)
    (decoder : after.currentDecoder = before.currentDecoder)
    (chunkBegin : after.currentChunkBegin = before.currentChunkBegin)
    (recordIndex : after.currentRecordIndex = before.currentRecordIndex)
    (streamLen : after.streamLen = before.streamLen) : Following ext after cursor := by
  refine ⟨next.trans following.next, ?_, ?_, ?_⟩
  · rw [decoder, chunkBegin, recordIndex]
    exact following.decoder
  · rw [source, streamLen]
    exact following.known
  · rw [source, fieldProjection]
    exact following.stored

/-- The loop of `read_record` does what the cursor says.  The induction is on
the fuel; a chunk that is entered leaves enough of it for the chunks after
it. -/
theorem readRecordLoop_follows (fuel : Nat) :
    ∀ (reader : RecordReader) (cursor : Cursor), Following ext reader cursor →
      reader.recovery = none → reader.source.length ≤ cursor.stop → 0 < fuel →
      reader.source.length < fuel + cursor.chunkBegin →
      ∃ result after, readRecordLoop ext fuel reader = (result, after) ∧ SameFile reader after ∧
        Delivered ext reader.source.length cursor result after := by
  induction fuel with
  | zero => intro reader cursor _ _ _ positive; omega
  | succ fuel ih =>
      intro reader cursor following plain whole positive enough
      obtain ⟨chunkBegin, pending, chunks⟩ := cursor
      cases pending with
      | cons first pending =>
          obtain ⟨position, record⟩ := first
          obtain ⟨after, read, same, last, followingAfter⟩ := readFromDecoder_pending following
          refine ⟨.ok (some record), after, ?_, same, .record followingAfter ?_ last⟩
          · rw [readRecordLoop, Act.bind_run_ok read]
            rfl
          · cases chunks <;> rfl
      | nil =>
          have empty := readFromDecoder_empty following
          have cleared : Following ext { reader with currentDecoder := none }
              { chunkBegin := chunkBegin, pending := [], chunks := chunks } :=
            ⟨following.next, Or.inl ⟨rfl, rfl⟩, following.known, following.stored⟩
          obtain ⟨result, loadedReader, ran, same, loaded⟩ :=
            loadNextLoop_follows chunks (reader.source.length + 64)
              { reader with currentDecoder := none } chunkBegin cleared whole (by omega)
              (by simp only; omega)
          have load : loadNextChunk ext { reader with currentDecoder := none } =
              (result, loadedReader) := ran
          rw [readRecordLoop_empty fuel empty, advanceChunk_eq, load]
          cases loaded with
          | @entered _ entered followingLoaded read stop after before =>
              have source : loadedReader.source = reader.source := same.source
              simp only at after before enough
              obtain ⟨result, final, readRan, sameFinal, delivered⟩ :=
                ih { loadedReader with atEof := false } entered
                  (followingLoaded.congr rfl rfl rfl rfl rfl rfl rfl)
                  (same.recovery.trans plain) (by simp only [source, stop]; exact whole)
                  (by omega) (by simp only [source]; omega)
              refine ⟨result, final, readRan, ?_, ?_⟩
              · have first : SameFile reader { loadedReader with atEof := false } :=
                  ⟨same.source, same.recovery, same.reported, same.fieldProjection,
                    same.lastSkippedRegion, same.streamLen⟩
                exact first.trans sameFinal
              · simp only [source] at delivered
                exact delivered.congr read
          | finished followingLoaded read =>
              refine ⟨.ok none, _, rfl, ⟨same.source, same.recovery, same.reported,
                same.fieldProjection, same.lastSkippedRegion, same.streamLen⟩, ?_⟩
              exact .finished (followingLoaded.congr rfl rfl rfl rfl rfl rfl rfl) read
          | @refused _ _ error followingLoaded read =>
              have plainLoaded : loadedReader.recovery = none := same.recovery.trans plain
              simp only [Act.bind_run, tryRecoverAt_none plainLoaded]
              refine ⟨.error (.error error), _, rfl, ⟨same.source, same.recovery, same.reported,
                same.fieldProjection, same.lastSkippedRegion, same.streamLen⟩, ?_⟩
              exact .refused (followingLoaded.congr rfl rfl rfl rfl rfl rfl rfl) read

/-- `read_record` without recovery does what reading at the cursor comes to. -/
theorem readRecord_follows {reader : RecordReader} {cursor : Cursor}
    (following : Following ext reader cursor) (plain : reader.recovery = none)
    (whole : reader.source.length ≤ cursor.stop) :
    ∃ result after, readRecord ext reader = (result, after) ∧ SameFile reader after ∧
      Delivered ext reader.source.length cursor result after := by
  have ready : Following ext { reader with pendingTrustedEnd := none } cursor :=
    following.congr rfl rfl rfl rfl rfl rfl rfl
  obtain ⟨result, after, ran, same, delivered⟩ :=
    readRecordLoop_follows (reader.source.length + 64) { reader with pendingTrustedEnd := none }
      cursor ready plain whole (by omega) (by simp only; omega)
  exact ⟨result, after, ran, ⟨same.source, same.recovery, same.reported, same.fieldProjection,
    same.lastSkippedRegion, same.streamLen⟩, delivered⟩

end Riegeli
