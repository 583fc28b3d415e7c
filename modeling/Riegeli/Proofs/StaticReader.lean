/-
Module: Riegeli.Proofs.StaticReader
Purpose: On a source that does not change, one pass of either loader is
  determined by what stands at its place.
Trusted boundary: the hash and the codecs
Main exports: Known, readChunkHeaderAt_static, loadNextLoop_static,
  loadChunkAtLoop_static
-/
import Riegeli.Spec.ChunkFinding
import Riegeli.Proofs.ChunkSteps
import Riegeli.Proofs.ReaderFrame

namespace Riegeli

open RecordReader

variable {ext : Externals} {reader : RecordReader}

/-- The reader knows how long its source is. -/
def Known (reader : RecordReader) : Prop := reader.streamLen = reader.source.length

/-- Measuring the stream again changes nothing. -/
theorem boundClaims_static (known : Known reader) (header : ChunkHeader)
    (chunkBegin dataBegin : Nat) :
    boundClaims header chunkBegin dataBegin reader =
      (checkClaims header chunkBegin dataBegin reader.source.length, reader) := by
  unfold Known at known
  unfold boundClaims
  rw [Act.bind_run_ok (Act.get_run reader)]
  by_cases exceeds : claimsExceed header chunkBegin dataBegin reader.streamLen = true
  · rw [if_pos exceeds]
    simp only [Act.bind_run, measureStream, Act.modify_run, Act.get_run, Act.lift_run, ← known]
  · have within := exceeds
    simp only [claimsExceed, Bool.or_eq_true, decide_eq_true_eq, not_or, known] at within
    rw [if_neg exceeds, checkClaims, if_neg within.1, if_neg within.2]
    rfl

/-- The header read at a place is the one that stands there. -/
theorem readChunkHeaderAt_static (known : Known reader) (place : Nat) :
    readChunkHeaderAt ext place reader = (headerAt ext reader.source place, reader) := by
  rw [readChunkHeaderAt_eq]
  unfold headerAt
  cases found : readHeaderBytes ext reader.source (canonicalChunkAddress place) with
  | error fault => simp only [found]
  | ok scanned =>
      cases scanned with
      | none => simp only [found]
      | some scan =>
          simp only [found, Act.bind_run, Act.whenever_run]
          by_cases valid : (ChunkHeader.fromBytes scan.bytes).isHeaderValid ext = true
          · rw [if_pos valid, if_pos valid]
            simp only [boundClaims_static known]
            cases checkClaims (ChunkHeader.fromBytes scan.bytes) (canonicalChunkAddress place)
                scan.filePos reader.source.length with
            | error fault => rfl
            | ok claims =>
                cases checkInterior (ChunkHeader.fromBytes scan.bytes)
                    (canonicalChunkAddress place) scan.interiorBlockHeader with
                | error fault => rfl
                | ok agrees => rfl
          · rw [if_neg valid, if_neg valid]
            rfl

/-! ## Sequential loading -/

/-- Where `load_next_chunk` leaves its cursor after a failure: back at the chunk
on an error of a chunk whose extent it trusts. -/
def resumeAfter (place : Nat) : Fault → Option Nat → Nat
  | _, none => place
  | .error _, some _ => canonicalChunkAddress place
  | _, some stop => stop

/-- The reader after a pass of `load_next_chunk` with this finding. -/
def afterFinding (reader : RecordReader) (place : Nat) : Finding → RecordReader
  | .absent => { reader with pendingTrustedEnd := none }
  | .passes stop => passedChunk reader reader.streamLen stop
  | .holds decoder stop =>
      enteredChunk reader reader.streamLen (canonicalChunkAddress place) stop decoder
  | .fails fault trusted =>
      { reader with
        pendingTrustedEnd := trusted
        nextChunkFilePos := resumeAfter place fault trusted }

/-- How a pass of `load_next_chunk` ends, unless it goes on to the next
chunk. -/
def passResult : Finding → Except Fault Bool
  | .absent => .ok false
  | .passes _ => .ok false
  | .holds _ _ => .ok true
  | .fails fault _ => .error fault

/-- A check that goes back to the chunk when it fails. -/
theorem rewindOnError_run {Value : Type} (chunkBegin : Nat) (check : Rust Value)
    (reader : RecordReader) :
    rewindOnError chunkBegin check reader =
      match check with
      | .ok value => (.ok value, reader)
      | .error (.error error) =>
          (.error (.error error), { reader with nextChunkFilePos := chunkBegin })
      | .error fault => (.error fault, reader) := by
  unfold rewindOnError attempt
  cases check with
  | ok value => rfl
  | error fault => cases fault <;> rfl

/-- A chunk of a known type comes to what `findInChunk` says. -/
theorem openChunk_static (reader : RecordReader) (place stop : Nat) {chunk : Chunk}
    {chunkType : ChunkType} (typed : chunk.header.chunkType = .ok chunkType) :
    openChunk ext (canonicalChunkAddress place) chunk chunkType
        (passedChunk reader reader.streamLen stop) =
      (passResult
          (findInChunk ext reader.fieldProjection chunk.header (canonicalChunkAddress place) stop
            chunk.data),
        afterFinding reader place
          (findInChunk ext reader.fieldProjection chunk.header (canonicalChunkAddress place) stop
            chunk.data)) := by
  have projected : (passedChunk reader reader.streamLen stop).fieldProjection =
      reader.fieldProjection := rfl
  unfold findInChunk
  rw [typed]
  cases chunkType with
  | simple =>
      simp only [openChunk, openAt, Act.bind_run, rewindOnError_run]
      cases simpleDecoder ext chunk with
      | ok decoder => rfl
      | error fault => cases fault <;> rfl
  | transposed =>
      simp only [openChunk, openAt, Act.bind_run, Act.get_run, rewindOnError_run, projected]
      cases transposedDecoder ext chunk reader.fieldProjection with
      | ok decoder => rfl
      | error fault => cases fault <;> rfl
  | fileSignature =>
      simp only [openChunk, openAt, Act.bind_run, rewindOnError_run]
      cases validateSpecialChunk chunk.header (canonicalChunkAddress place) .fileSignature with
      | ok decoder => rfl
      | error fault => cases fault <;> rfl
  | fileMetadata =>
      simp only [openChunk, openAt, Act.bind_run, rewindOnError_run]
      cases validateSpecialChunk chunk.header (canonicalChunkAddress place) .fileMetadata with
      | ok decoder => rfl
      | error fault => cases fault <;> rfl
  | padding =>
      simp only [openChunk, openAt, Act.bind_run, rewindOnError_run]
      cases validateSpecialChunk chunk.header (canonicalChunkAddress place) .padding with
      | ok decoder => rfl
      | error fault => cases fault <;> rfl

/-- A chunk comes to what `findBody` says. -/
theorem loadChunkBody_static (reader : RecordReader) {place : Nat} (dataBegin : Nat)
    (header : ChunkHeader) (stands : reader.nextChunkFilePos = place) :
    loadChunkBody ext header (canonicalChunkAddress place) dataBegin
        { reader with pendingTrustedEnd := none } =
      (passResult
          (findBody ext reader.source reader.fieldProjection header (canonicalChunkAddress place)
            dataBegin),
        afterFinding reader place
          (findBody ext reader.source reader.fieldProjection header (canonicalChunkAddress place)
            dataBegin)) := by
  subst stands
  unfold loadChunkBody findBody
  by_cases invalid : header.isHeaderValid ext = false
  · rw [if_pos invalid, if_pos invalid]
    rfl
  · rw [if_neg invalid, if_neg invalid]
    simp only [Act.bind_run, Act.get_run, Act.lift_run]
    cases readChunkData ext reader.source (canonicalChunkAddress reader.nextChunkFilePos)
        (chunkEnd (canonicalChunkAddress reader.nextChunkFilePos) header.dataSize header.numRecords) dataBegin
        header.dataSize with
    | error fault => rfl
    | ok data =>
        simp only [setTrustedEnd, Act.modify_run]
        by_cases damaged : header.isDataValid ext data = false
        · rw [if_pos damaged, if_pos damaged]
          rfl
        · rw [if_neg damaged, if_neg damaged]
          simp only [Act.bind_run, setNextChunk, Act.modify_run]
          cases typed : header.chunkType with
          | ok chunkType =>
              exact @openChunk_static ext reader reader.nextChunkFilePos _ ⟨header, data⟩ chunkType typed
          | error error =>
              simp only [findInChunk, typed]
              by_cases empty : header.numRecords = 0
              · rw [if_pos empty, if_pos empty]
                rfl
              · rw [if_neg empty, if_neg empty]
                rfl

/-- A pass of `load_next_chunk` does what the finding at the next position
asks for. -/
theorem loadNextLoop_static (known : Known reader) (fuel : Nat) :
    loadNextLoop ext (fuel + 1) reader =
      match findChunk ext reader.source reader.fieldProjection reader.nextChunkFilePos with
      | .passes stop => loadNextLoop ext fuel (passedChunk reader reader.streamLen stop)
      | found =>
          (passResult found, afterFinding reader reader.nextChunkFilePos found) := by
  have ready : Known { reader with pendingTrustedEnd := none } := known
  rw [loadNextLoop_succ, readChunkHeaderAt_static ready]
  unfold findChunk
  cases found : headerAt ext reader.source reader.nextChunkFilePos with
  | error fault => rfl
  | ok read =>
      cases read with
      | none => rfl
      | some read =>
          obtain ⟨header, chunkBegin, dataBegin⟩ := read
          obtain rfl := headerAt_begin found
          have body := @loadChunkBody_static ext reader _ dataBegin header rfl
          simp only
          rw [body]
          cases comesTo : findBody ext reader.source reader.fieldProjection header
              (canonicalChunkAddress reader.nextChunkFilePos) dataBegin with
          | absent => exact absurd comesTo (findBody_ne_absent _ _ _ _ _)
          | passes stop => rfl
          | holds decoder stop => rfl
          | fails fault trusted => rfl

theorem afterFinding_passed (reader : RecordReader) (place stop : Nat) (found : Finding) :
    afterFinding { passedChunk reader reader.streamLen stop with nextChunkFilePos := place }
        place found =
      afterFinding { reader with nextChunkFilePos := place } place found := by
  cases found <;> rfl

/-- With enough passes `load_next_chunk` ends where the source lands it. -/
theorem loadNextLoop_lands : ∀ {fuel : Nat} {reader : RecordReader}, Known reader →
    0 < fuel → reader.source.length + 24 < fuel + reader.nextChunkFilePos →
    loadNextLoop ext fuel reader =
      (passResult
          (landing ext reader.source reader.fieldProjection fuel reader.nextChunkFilePos).2,
        afterFinding
          { reader with
            nextChunkFilePos :=
              (landing ext reader.source reader.fieldProjection fuel reader.nextChunkFilePos).1 }
          (landing ext reader.source reader.fieldProjection fuel reader.nextChunkFilePos).1
          (landing ext reader.source reader.fieldProjection fuel
            reader.nextChunkFilePos).2) := by
  intro fuel
  induction fuel with
  | zero => intro reader _ positive _; omega
  | succ fuel ih =>
      intro reader known _ enough
      rw [loadNextLoop_static known, landing]
      cases found : findChunk ext reader.source reader.fieldProjection
          reader.nextChunkFilePos with
      | absent => rfl
      | holds decoder stop => rfl
      | fails fault trusted => rfl
      | passes stop =>
          have on := findChunk_passes_lt found
          have inside := findChunk_passes_inside found
          have passed : Known (passedChunk reader reader.streamLen stop) := known
          have source : (passedChunk reader reader.streamLen stop).source = reader.source := rfl
          have next : (passedChunk reader reader.streamLen stop).nextChunkFilePos = stop := rfl
          have further := ih passed (by omega) (by rw [source, next]; omega)
          simp only
          rw [further, afterFinding_passed]
          rfl

/-- Where a reader lands from its next position. -/
def RecordReader.landed (ext : Externals) (reader : RecordReader) : Nat × Finding :=
  landsAt ext reader.source reader.fieldProjection reader.nextChunkFilePos

theorem loadNextChunk_lands (known : Known reader) :
    loadNextChunk ext reader =
      (passResult (reader.landed ext).2,
        afterFinding { reader with nextChunkFilePos := (reader.landed ext).1 }
          (reader.landed ext).1 (reader.landed ext).2) := by
  unfold loadNextChunk
  rw [Act.bind_run_ok (Act.get_run reader)]
  exact loadNextLoop_lands known (Nat.succ_pos _) (by unfold forwardFuel; omega)

/-! ## Loading for a seek -/

/-- What `load_chunk_at` hands over with a finding. -/
def seekResult : Finding → Except Fault (Option ActiveDecoder)
  | .absent => .ok none
  | .passes _ => .ok none
  | .holds decoder _ => .ok (some decoder)
  | .fails fault _ => .error fault

/-- The reader after `load_chunk_at` has come to this finding at a place, with
the chunk it checked last. -/
def afterSeekFinding (reader : RecordReader) (place chunkBegin : Nat) : Finding → RecordReader
  | .absent =>
      { reader with
        pendingTrustedEnd := none
        nextChunkFilePos := place
        currentChunkBegin := chunkBegin }
  | .passes stop =>
      { passedChunk reader reader.streamLen stop with currentChunkBegin := chunkBegin }
  | .holds _ stop =>
      { passedChunk reader reader.streamLen stop with currentChunkBegin := chunkBegin }
  | .fails _ trusted =>
      { reader with
        pendingTrustedEnd := trusted
        nextChunkFilePos := place
        currentChunkBegin := chunkBegin }

/-- The finding of a chunk of `load_chunk_at`, with the end it reports. -/
def bodyResult : Finding → Except Fault (Option ActiveDecoder × Nat)
  | .absent => .ok (none, 0)
  | .passes stop => .ok (none, stop)
  | .holds decoder stop => .ok (some decoder, stop)
  | .fails fault _ => .error fault

/-- The state in which `load_chunk_at` checks the chunk at its cursor. -/
structure Seeking (reader : RecordReader) (place : Nat) : Prop where
  known : Known reader
  stands : reader.nextChunkFilePos = place
  canonical : canonicalChunkAddress place = place
  fresh : reader.currentRecordIndex = 0

/-- A chunk whose hashes are good comes to what `findInChunk` says. -/
theorem openChunkAt_static (reader : RecordReader) (place stop : Nat) (chunk : Chunk)
    (stands : reader.nextChunkFilePos = place) :
    (openChunkAt ext place chunk >>= fun decoder => do
        setNextChunk stop
        pure (decoder, stop) : RecordReader.Method (Option ActiveDecoder × Nat))
        { reader with pendingTrustedEnd := some stop, currentChunkBegin := place } =
      (bodyResult
          (findInChunk ext reader.fieldProjection chunk.header place stop chunk.data),
        afterSeekFinding reader place place
          (findInChunk ext reader.fieldProjection chunk.header place stop chunk.data)) := by
  subst stands
  unfold findInChunk openChunkAt
  cases typed : chunk.header.chunkType with
  | error error =>
      by_cases empty : chunk.header.numRecords = 0
      · simp only [if_pos empty]
        rfl
      · simp only [if_neg empty]
        rfl
  | ok chunkType =>
      cases chunkType with
      | simple =>
          simp only [openAt, Act.bind_run, Act.lift_run]
          cases simpleDecoder ext chunk with
          | ok decoder => rfl
          | error fault => rfl
      | transposed =>
          simp only [openAt, Act.bind_run, Act.lift_run, Act.get_run]
          cases transposedDecoder ext chunk reader.fieldProjection with
          | ok decoder => rfl
          | error fault => rfl
      | fileSignature =>
          simp only [openAt, Act.bind_run, rewindOnError_run]
          cases validateSpecialChunk chunk.header reader.nextChunkFilePos .fileSignature with
          | ok decoder => rfl
          | error fault => cases fault <;> rfl
      | fileMetadata =>
          simp only [openAt, Act.bind_run, rewindOnError_run]
          cases validateSpecialChunk chunk.header reader.nextChunkFilePos .fileMetadata with
          | ok decoder => rfl
          | error fault => cases fault <;> rfl
      | padding =>
          simp only [openAt, Act.bind_run, rewindOnError_run]
          cases validateSpecialChunk chunk.header reader.nextChunkFilePos .padding with
          | ok decoder => rfl
          | error fault => cases fault <;> rfl

/-- A chunk comes to what `findBody` says. -/
theorem loadChunkAtBody_static {place : Nat} (seeking : Seeking reader place) (dataBegin : Nat)
    (header : ChunkHeader) :
    ∃ chunkBegin,
      (∀ decoder stop, findBody ext reader.source reader.fieldProjection header place dataBegin =
        .holds decoder stop → chunkBegin = place) ∧
      (∀ stop, findBody ext reader.source reader.fieldProjection header place dataBegin =
        .passes stop → chunkBegin = place) ∧
      loadChunkAtBody ext header place dataBegin { reader with pendingTrustedEnd := none } =
        (bodyResult
            (findBody ext reader.source reader.fieldProjection header place dataBegin),
          afterSeekFinding reader place chunkBegin
            (findBody ext reader.source reader.fieldProjection header place dataBegin)) := by
  have stands := seeking.stands
  have fresh := seeking.fresh
  unfold loadChunkAtBody findBody
  by_cases invalid : header.isHeaderValid ext = false
  · refine ⟨reader.currentChunkBegin, fun decoder stop held => ?_, fun stop passed => ?_, ?_⟩
    · rw [if_pos invalid] at held
      cases held
    · rw [if_pos invalid] at passed
      cases passed
    · rw [if_pos invalid, if_pos invalid]
      subst stands
      rfl
  · simp only [if_neg invalid, Act.bind_run, Act.get_run, Act.lift_run]
    cases readChunkData ext reader.source place
        (chunkEnd place header.dataSize header.numRecords) dataBegin header.dataSize with
    | error fault =>
        subst stands
        exact ⟨reader.currentChunkBegin, fun _ _ held => (by cases held),
          fun _ passed => (by cases passed), rfl⟩
    | ok data =>
        simp only [setTrustedEnd, Act.modify_run]
        by_cases damaged : header.isDataValid ext data = false
        · refine ⟨reader.currentChunkBegin, fun decoder stop held => ?_, fun stop passed => ?_, ?_⟩
          · rw [if_pos damaged] at held
            cases held
          · rw [if_pos damaged] at passed
            cases passed
          · rw [if_pos damaged, if_pos damaged]
            subst stands
            rfl
        · refine ⟨place, fun _ _ _ => rfl, fun _ _ => rfl, ?_⟩
          have opened := @openChunkAt_static ext reader place
            (chunkEnd place header.dataSize header.numRecords) ⟨header, data⟩ stands
          rw [if_neg damaged, if_neg damaged]
          simp only [Act.bind_run, Act.modify_run] at opened ⊢
          rw [← opened, ← fresh]

/-- Seeking past a chunk. -/
theorem afterSeekFinding_passed (reader : RecordReader)
    (place before chunkBegin first stop : Nat) (found : Finding) :
    afterSeekFinding (afterSeekFinding reader before first (.passes stop)) place chunkBegin found =
      afterSeekFinding reader place chunkBegin found := by
  cases found <;> rfl

/-- A pass of `load_chunk_at`. -/
theorem loadChunkAtLoop_succ (fuel place : Nat) (reader : RecordReader) :
    loadChunkAtLoop ext (fuel + 1) place reader =
      match readChunkHeaderAt ext place { reader with pendingTrustedEnd := none } with
      | (.error fault, next) => (.error fault, next)
      | (.ok none, next) => (.ok none, next)
      | (.ok (some (header, chunkBegin, dataBegin)), next) =>
          match loadChunkAtBody ext header chunkBegin dataBegin next with
          | (.error fault, after) => (.error fault, after)
          | (.ok (some decoder, _), after) => (.ok (some decoder), after)
          | (.ok (none, stop), after) => loadChunkAtLoop ext fuel stop after := by
  rw [loadChunkAtLoop]
  simp only [Act.bind_run, setTrustedEnd, Act.modify_run]
  split
  · rename_i value next read
    rw [read]
    cases value with
    | none => rfl
    | some found =>
        obtain ⟨header, chunkBegin, dataBegin⟩ := found
        simp only [Act.bind_run]
        split
        · rename_i loaded after body
          obtain ⟨decoder, stop⟩ := loaded
          rw [body]
          cases decoder <;> rfl
        · rename_i fault after body
          rw [body]
  · rename_i fault next read
    rw [read]

/-- Where nothing is found there is no header. -/
theorem headerAt_absent {source : Bytes} {projection : Option FieldProjection} {place : Nat}
    (absent : findChunk ext source projection place = .absent) :
    headerAt ext source place = .ok none := by
  unfold findChunk at absent
  split at absent
  · cases absent
  · assumption
  · exact absurd absent (findBody_ne_absent _ _ _ _ _)

/-- `load_chunk_at` at the end of the source. -/
theorem loadChunkAtLoop_absent {place : Nat} (known : Known reader) (fuel : Nat)
    (absent : findChunk ext reader.source reader.fieldProjection place = .absent) :
    loadChunkAtLoop ext (fuel + 1) place reader =
      (.ok none, { reader with pendingTrustedEnd := none }) := by
  have ready : Known { reader with pendingTrustedEnd := none } := known
  rw [loadChunkAtLoop_succ, readChunkHeaderAt_static ready, headerAt_absent absent]

/-- A pass of `load_chunk_at` over what it finds. -/
theorem loadChunkAtLoop_found {place : Nat} (seeking : Seeking reader place) (fuel : Nat)
    {found : Finding}
    (finds : findChunk ext reader.source reader.fieldProjection place = found)
    (present : found ≠ .absent) :
    ∃ chunkBegin, (∀ decoder stop, found = .holds decoder stop → chunkBegin = place) ∧
      (∀ stop, found = .passes stop → chunkBegin = place) ∧
      loadChunkAtLoop ext (fuel + 1) place reader =
        match bodyResult found with
        | .error fault => (.error fault, afterSeekFinding reader place chunkBegin found)
        | .ok (some decoder, _) =>
            (.ok (some decoder), afterSeekFinding reader place chunkBegin found)
        | .ok (none, stop) =>
            loadChunkAtLoop ext fuel stop (afterSeekFinding reader place chunkBegin found) := by
  have ready : Known { reader with pendingTrustedEnd := none } := seeking.known
  unfold findChunk at finds
  rw [loadChunkAtLoop_succ, readChunkHeaderAt_static ready]
  cases read : headerAt ext reader.source place with
  | error fault =>
      rw [read] at finds
      have stands := seeking.stands
      subst finds stands
      exact ⟨reader.currentChunkBegin, fun _ _ held => (by cases held),
        fun _ passed => (by cases passed), rfl⟩
  | ok header =>
      cases header with
      | none =>
          rw [read] at finds
          exact absurd finds.symm present
      | some header =>
          obtain ⟨header, chunkBegin, dataBegin⟩ := header
          obtain rfl := headerAt_begin read
          simp only [read, seeking.canonical] at finds ⊢
          obtain ⟨chunkBegin, held, passed, body⟩ :=
            @loadChunkAtBody_static ext reader place seeking dataBegin header
          rw [finds] at held passed body
          exact ⟨chunkBegin, held, passed, by rw [body]; cases found <;> rfl⟩

/-- `load_chunk_at` goes past a chunk without records to read. -/
theorem loadChunkAtLoop_passes {place stop : Nat} (seeking : Seeking reader place) (fuel : Nat)
    (passes : findChunk ext reader.source reader.fieldProjection place = .passes stop) :
    loadChunkAtLoop ext (fuel + 1) place reader =
      loadChunkAtLoop ext fuel stop (afterSeekFinding reader place place (.passes stop)) := by
  obtain ⟨chunkBegin, _, passed, loop⟩ := loadChunkAtLoop_found seeking fuel passes (by simp)
  rw [passed stop rfl] at loop
  exact loop

/-- `load_chunk_at` ends at a chunk with records to read. -/
theorem loadChunkAtLoop_holds {place stop : Nat} {decoder : ActiveDecoder}
    (seeking : Seeking reader place) (fuel : Nat)
    (holds : findChunk ext reader.source reader.fieldProjection place = .holds decoder stop) :
    loadChunkAtLoop ext (fuel + 1) place reader =
      (.ok (some decoder), afterSeekFinding reader place place (.holds decoder stop)) := by
  obtain ⟨chunkBegin, held, _, loop⟩ := loadChunkAtLoop_found seeking fuel holds (by simp)
  rw [held decoder stop rfl] at loop
  exact loop

/-- With enough passes `load_chunk_at` ends where the source lands it. -/
theorem loadChunkAtLoop_lands : ∀ {fuel place : Nat} {reader : RecordReader},
    Seeking reader place → 0 < fuel → reader.source.length + 24 < fuel + place →
    ∃ chunkBegin,
      (∀ decoder stop, (landing ext reader.source reader.fieldProjection fuel place).2 =
          .holds decoder stop →
        chunkBegin = (landing ext reader.source reader.fieldProjection fuel place).1) ∧
      loadChunkAtLoop ext fuel place reader =
        (seekResult (landing ext reader.source reader.fieldProjection fuel place).2,
          afterSeekFinding reader
            (landing ext reader.source reader.fieldProjection fuel place).1 chunkBegin
            (landing ext reader.source reader.fieldProjection fuel place).2) := by
  intro fuel
  induction fuel with
  | zero => intro place reader _ positive _; omega
  | succ fuel ih =>
      intro place reader seeking _ enough
      rw [landing]
      cases found : findChunk ext reader.source reader.fieldProjection place with
      | absent =>
          have stands := seeking.stands
          subst stands
          exact ⟨reader.currentChunkBegin, fun _ _ held => (by cases held),
            loadChunkAtLoop_absent seeking.known fuel found⟩
      | holds decoder stop =>
          exact ⟨place, fun _ _ _ => rfl, loadChunkAtLoop_holds seeking fuel found⟩
      | fails fault trusted =>
          obtain ⟨chunkBegin, _, _, loop⟩ := loadChunkAtLoop_found seeking fuel found (by simp)
          exact ⟨chunkBegin, fun _ _ held => (by cases held), loop⟩
      | passes stop =>
          have on := findChunk_passes_lt found
          have inside := findChunk_passes_inside found
          have possible := findChunk_passes_possible found
          have further : Seeking (afterSeekFinding reader place place (.passes stop)) stop :=
            ⟨seeking.known, rfl, canonicalChunkAddress_eq possible, seeking.fresh⟩
          have source : (afterSeekFinding reader place place (.passes stop)).source =
              reader.source := rfl
          obtain ⟨last, holds, lands⟩ := ih further (by omega) (by rw [source]; omega)
          refine ⟨last, holds, ?_⟩
          rw [loadChunkAtLoop_passes seeking fuel found, lands, afterSeekFinding_passed]
          rfl

end Riegeli
