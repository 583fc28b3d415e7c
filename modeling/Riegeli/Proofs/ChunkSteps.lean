/-
Module: Riegeli.Proofs.ChunkSteps
Purpose: One pass of the loop of `load_next_chunk` over a chunk that a source
  shows whole or in part.
Trusted boundary: the hash and the codecs
Main exports: loadNextLoop_succ, readChunkHeaderAt_valid,
  loadNextLoop_special, loadNextLoop_data, loadNextLoop_end,
  loadNextLoop_refused
-/
import Riegeli.Spec.HeldRecords

namespace Riegeli

open RecordReader

variable {ext : Externals} {reader : RecordReader} {chunkBegin stop : Nat} {payload : Bytes}

/-! ## Reading a header -/

/-- `read_chunk_header_at` as far as the bytes of the header. -/
theorem readChunkHeaderAt_eq (place : Nat) (reader : RecordReader) :
    readChunkHeaderAt ext place reader =
      match readHeaderBytes ext reader.source (canonicalChunkAddress place) with
      | .error fault => (.error fault, reader)
      | .ok none => (.ok none, reader)
      | .ok (some scan) =>
          (do
            let header := ChunkHeader.fromBytes scan.bytes
            Act.whenever (header.isHeaderValid ext = true) do
              boundClaims header (canonicalChunkAddress place) scan.filePos
              Act.lift
                (checkInterior header (canonicalChunkAddress place) scan.interiorBlockHeader)
            pure (some (header, canonicalChunkAddress place, scan.filePos)) :
              RecordReader.Method (Option (ChunkHeader × Nat × Nat))) reader := by
  unfold readChunkHeaderAt
  simp only [Act.bind_run, Act.get_run, Act.lift_run]
  cases readHeaderBytes ext reader.source (canonicalChunkAddress place) with
  | error fault => rfl
  | ok scanned =>
      cases scanned with
      | none => rfl
      | some scan => rfl

/-- The claims of a header against the stream as it was measured last, and
then as it is. -/
theorem boundClaims_run (header : ChunkHeader) (dataBegin : Nat)
    (known : reader.streamLen ≤ reader.source.length) :
    ∃ measured, reader.streamLen ≤ measured ∧ measured ≤ reader.source.length ∧
      ((header.dataSize ≤ reader.source.length - dataBegin ∧
          header.numRecords ≤ reader.source.length - chunkBegin ∧
          boundClaims header chunkBegin dataBegin reader =
            (.ok (), { reader with streamLen := measured })) ∨
        ((reader.source.length - dataBegin < header.dataSize ∨
            reader.source.length - chunkBegin < header.numRecords) ∧
          ∃ error, boundClaims header chunkBegin dataBegin reader =
            (.error (.error error), { reader with streamLen := measured }))) := by
  unfold boundClaims
  by_cases exceeds : claimsExceed header chunkBegin dataBegin reader.streamLen = true
  · refine ⟨reader.source.length, known, Nat.le_refl _, ?_⟩
    simp only [Act.bind_run, Act.get_run, exceeds, ↓reduceIte, measureStream, Act.modify_run,
      Act.lift_run, checkClaims]
    by_cases dataExceeds : reader.source.length - dataBegin < header.dataSize
    · right
      rw [if_pos dataExceeds]
      exact ⟨Or.inl dataExceeds, _, rfl⟩
    · rw [if_neg dataExceeds]
      by_cases recordsExceed : reader.source.length - chunkBegin < header.numRecords
      · right
        rw [if_pos recordsExceed]
        exact ⟨Or.inr recordsExceed, _, rfl⟩
      · left
        rw [if_neg recordsExceed]
        exact ⟨by omega, by omega, rfl⟩
  · refine ⟨reader.streamLen, Nat.le_refl _, known, Or.inl ?_⟩
    simp only [claimsExceed, Bool.or_eq_true, decide_eq_true_eq, not_or] at exceeds
    obtain ⟨dataWithin, recordsWithin⟩ := exceeds
    refine ⟨by omega, by omega, ?_⟩
    have none : claimsExceed header chunkBegin dataBegin reader.streamLen = false := by
      simp only [claimsExceed, Bool.or_eq_false_iff, decide_eq_false_iff_not]
      exact ⟨dataWithin, recordsWithin⟩
    simp [Act.bind_run, none]

/-- A block header inside the chunk header agrees with the chunk's end. -/
theorem checkInterior_ok {scan : HeaderScan} {count : Nat} {header : ChunkHeader}
    (has : scan.Has chunkBegin stop payload count)
    (ends : chunkEnd chunkBegin header.dataSize header.numRecords = stop)
    (within : stop ≤ u64Max) :
    checkInterior header chunkBegin scan.interiorBlockHeader = .ok () := by
  cases found : scan.interiorBlockHeader with
  | none => rfl
  | some interior =>
      obtain ⟨pos, blockHeader⟩ := interior
      obtain ⟨before, next⟩ := has.interior pos blockHeader found
      have agrees : checkedAdd pos blockHeader.nextChunk = some stop :=
        checkedAdd_eq_some.mpr ⟨by omega, within⟩
      simp [checkInterior, ends, agrees]

/-- The reader of a source that shows this chunk stands at its begin. -/
structure Faces (ext : Externals) (reader : RecordReader) (chunkBegin stop : Nat)
    (payload : Bytes) : Prop where
  standing : Standing chunkBegin stop payload
  shows : Shows ext reader.source chunkBegin stop payload stop
  known : reader.streamLen ≤ reader.source.length

theorem Faces.canonical (faces : Faces ext reader chunkBegin stop payload) :
    canonicalChunkAddress chunkBegin = chunkBegin :=
  canonicalChunkAddress_eq faces.standing.possible

/-- A header with a right hash is handed over when its claims stay inside the
source. -/
theorem readChunkHeaderAt_valid (faces : Faces ext reader chunkBegin stop payload)
    (visible : headerStop chunkBegin ≤ reader.source.length) {header : ChunkHeader}
    (parsed : ChunkHeader.fromBytes (payload.take 40) = header)
    (valid : header.isHeaderValid ext = true)
    (ends : chunkEnd chunkBegin header.dataSize header.numRecords = stop) :
    ∃ measured, reader.streamLen ≤ measured ∧ measured ≤ reader.source.length ∧
      ((header.dataSize ≤ reader.source.length - headerStop chunkBegin ∧
          header.numRecords ≤ reader.source.length - chunkBegin ∧
          readChunkHeaderAt ext chunkBegin reader =
            (.ok (some (header, chunkBegin, headerStop chunkBegin)),
              { reader with streamLen := measured })) ∨
        ((reader.source.length - headerStop chunkBegin < header.dataSize ∨
            reader.source.length - chunkBegin < header.numRecords) ∧
          ∃ error, readChunkHeaderAt ext chunkBegin reader =
            (.error (.error error), { reader with streamLen := measured }))) := by
  obtain ⟨scan, scanned, has⟩ := readHeaderBytes_whole faces.standing faces.shows visible
  obtain ⟨measured, longer, within, outcome⟩ :=
    @boundClaims_run reader chunkBegin header (headerStop chunkBegin) faces.known
  have agrees := @checkInterior_ok chunkBegin stop payload scan 40 header has ends
    faces.standing.within
  have filePos : scan.filePos = headerStop chunkBegin := has.filePos
  refine ⟨measured, longer, within, ?_⟩
  rw [readChunkHeaderAt_eq, faces.canonical, scanned]
  simp only [has.bytes, filePos, parsed, Act.bind_run, Act.whenever_run, valid, ↓reduceIte]
  rcases outcome with ⟨dataWithin, recordsWithin, bounded⟩ | ⟨exceeds, error, bounded⟩
  · left
    refine ⟨dataWithin, recordsWithin, ?_⟩
    rw [bounded]
    simp only [Act.lift_run, agrees, Act.pure_run]
  · right
    refine ⟨exceeds, error, ?_⟩
    rw [bounded]

/-! ## One pass of the loop -/

/-- A pass of `load_next_chunk`. -/
theorem loadNextLoop_succ (fuel : Nat) (reader : RecordReader) :
    loadNextLoop ext (fuel + 1) reader =
      match readChunkHeaderAt ext reader.nextChunkFilePos { reader with pendingTrustedEnd := none } with
      | (.error fault, next) => (.error fault, next)
      | (.ok none, next) => (.ok false, next)
      | (.ok (some (header, chunkBegin, dataBegin)), next) =>
          match loadChunkBody ext header chunkBegin dataBegin next with
          | (.error fault, after) => (.error fault, after)
          | (.ok true, after) => (.ok true, after)
          | (.ok false, after) => loadNextLoop ext fuel after := by
  rw [loadNextLoop]
  simp only [Act.bind_run, Act.get_run, setTrustedEnd, Act.modify_run]
  split
  · rename_i value next read
    rw [read]
    cases value with
    | none => rfl
    | some found =>
        obtain ⟨header, chunkBegin, dataBegin⟩ := found
        simp only [Act.bind_run]
        split
        · rename_i ready after body
          rw [body]
          cases ready <;> rfl
        · rename_i fault after body
          rw [body]
  · rename_i fault next read
    rw [read]

/-- At the end of the source there is no chunk to load. -/
theorem loadNextLoop_end (fuel : Nat)
    (possible : isPossibleChunkBoundary reader.nextChunkFilePos = true)
    (past : reader.source.length ≤ reader.nextChunkFilePos) :
    loadNextLoop ext (fuel + 1) reader = (.ok false, { reader with pendingTrustedEnd := none }) := by
  rw [loadNextLoop_succ, readChunkHeaderAt_eq, canonicalChunkAddress_eq possible,
    readHeaderBytes_absent past]

/-- The reader after a chunk whose data it has checked. -/
def passedChunk (reader : RecordReader) (measured stop : Nat) : RecordReader :=
  { reader with
    streamLen := measured
    pendingTrustedEnd := some stop
    nextChunkFilePos := stop }

/-- The reader that starts to hand over a chunk's records. -/
def enteredChunk (reader : RecordReader) (measured chunkBegin stop : Nat)
    (decoder : ActiveDecoder) : RecordReader :=
  { passedChunk reader measured stop with
    currentChunkBegin := chunkBegin
    currentRecordIndex := 0
    pos := { chunkBegin := chunkBegin, recordIndex := 0 }
    currentDecoder := some decoder }

/-- `load_next_chunk` on a chunk whose data is there and has the right hash. -/
theorem loadChunkBody_whole (reader : RecordReader) {header : ChunkHeader} {data : Bytes}
    (headerValid : header.isHeaderValid ext = true)
    (ends : chunkEnd chunkBegin header.dataSize header.numRecords = stop)
    (read : readChunkData ext reader.source chunkBegin stop (headerStop chunkBegin)
      header.dataSize = .ok data)
    (dataValid : header.isDataValid ext data = true) {chunkType : ChunkType}
    (typed : header.chunkType = .ok chunkType) :
    loadChunkBody ext header chunkBegin (headerStop chunkBegin) reader =
      openChunk ext chunkBegin { header := header, data := data } chunkType
        (passedChunk reader reader.streamLen stop) := by
  unfold loadChunkBody
  rw [headerValid, if_neg (by decide)]
  simp only [Act.bind_run, Act.get_run, Act.lift_run, ends, read, setTrustedEnd, Act.modify_run,
    dataValid]
  rw [if_neg (by decide)]
  simp only [Act.bind_run, setNextChunk, Act.modify_run, typed]
  rfl

/-- `load_next_chunk` on a chunk whose data cannot be read. -/
theorem loadChunkBody_unread (reader : RecordReader) {header : ChunkHeader} {fault : Fault}
    (headerValid : header.isHeaderValid ext = true)
    (ends : chunkEnd chunkBegin header.dataSize header.numRecords = stop)
    (failed : readChunkData ext reader.source chunkBegin stop (headerStop chunkBegin)
      header.dataSize = .error fault) :
    loadChunkBody ext header chunkBegin (headerStop chunkBegin) reader =
      (.error fault, reader) := by
  unfold loadChunkBody
  rw [headerValid, if_neg (by decide)]
  simp only [Act.bind_run, Act.get_run, Act.lift_run, ends, failed]

theorem openChunk_simple {chunk : Chunk} {decoder : ActiveDecoder}
    (opened : simpleDecoder ext chunk = .ok decoder) (reader : RecordReader) :
    openChunk ext chunkBegin chunk .simple reader =
      (.ok true,
        { reader with
          currentChunkBegin := chunkBegin
          currentRecordIndex := 0
          pos := { chunkBegin := chunkBegin, recordIndex := 0 }
          currentDecoder := some decoder }) := by
  simp [openChunk, Act.bind_run, rewindOnError, attempt, opened, enterChunk]

theorem openChunk_transposed {chunk : Chunk} {decoder : ActiveDecoder} (reader : RecordReader)
    (opened : transposedDecoder ext chunk reader.fieldProjection = .ok decoder) :
    openChunk ext chunkBegin chunk .transposed reader =
      (.ok true,
        { reader with
          currentChunkBegin := chunkBegin
          currentRecordIndex := 0
          pos := { chunkBegin := chunkBegin, recordIndex := 0 }
          currentDecoder := some decoder }) := by
  simp [openChunk, Act.bind_run, rewindOnError, attempt, opened, enterChunk]

theorem openChunk_special {chunk : Chunk} {chunkType : ChunkType} (notSimple : chunkType ≠ .simple)
    (notTransposed : chunkType ≠ .transposed)
    (validated : validateSpecialChunk chunk.header chunkBegin chunkType = .ok ())
    (reader : RecordReader) :
    openChunk ext chunkBegin chunk chunkType reader = (.ok false, reader) := by
  cases chunkType with
  | simple => exact absurd rfl notSimple
  | transposed => exact absurd rfl notTransposed
  | fileSignature => simp [openChunk, Act.bind_run, rewindOnError, attempt, validated]
  | fileMetadata => simp [openChunk, Act.bind_run, rewindOnError, attempt, validated]
  | padding => simp [openChunk, Act.bind_run, rewindOnError, attempt, validated]

/-! ## Chunks of a file -/

/-- A held chunk stands at the reader's next position. -/
structure FacesHeld (ext : Externals) (reader : RecordReader) (chunkBegin : Nat)
    (held : HeldChunk) : Prop where
  faces : Faces ext reader chunkBegin (held.chunk.stop chunkBegin) held.chunk.payload
  readable : held.Readable ext reader.fieldProjection
  sized : held.chunk.header.dataSize = held.chunk.data.length

theorem Chunk.payload_header (chunk : Chunk) : chunk.payload.take 40 = chunk.header.toBytes := by
  rw [Chunk.payload, List.take_left' (ChunkHeader.length_toBytes _)]

theorem Chunk.payload_data (chunk : Chunk) : chunk.payload.drop 40 = chunk.data := by
  rw [Chunk.payload, List.drop_left' (ChunkHeader.length_toBytes _)]

theorem Chunk.length_payload (chunk : Chunk) : chunk.payload.length = 40 + chunk.data.length := by
  rw [Chunk.payload, List.length_append, ChunkHeader.length_toBytes]

variable {held : HeldChunk}

theorem FacesHeld.parsed (facing : FacesHeld ext reader chunkBegin held) :
    ChunkHeader.fromBytes (held.chunk.payload.take 40) = held.chunk.header := by
  rw [Chunk.payload_header, ChunkHeader.fromBytes_toBytes facing.readable.fits]

/-- The data of a held chunk that the source shows whole. -/
theorem FacesHeld.readData (facing : FacesHeld ext reader chunkBegin held)
    (visible : dataStop chunkBegin held.chunk.header.dataSize ≤ reader.source.length) :
    readChunkData ext reader.source chunkBegin (held.chunk.stop chunkBegin)
        (headerStop chunkBegin) held.chunk.header.dataSize = .ok held.chunk.data := by
  have carried : 40 + held.chunk.header.dataSize ≤ held.chunk.payload.length := by
    rw [Chunk.length_payload, facing.sized]
  rw [readChunkData_whole facing.faces.standing facing.faces.shows carried visible,
    Chunk.payload_data, facing.sized, List.take_length]

/-- The header of a visible chunk is read. -/
theorem FacesHeld.readHeader (facing : FacesHeld ext reader chunkBegin held)
    (visible : Visible reader.source.length chunkBegin held.chunk.header) :
    ∃ measured, reader.streamLen ≤ measured ∧ measured ≤ reader.source.length ∧
      readChunkHeaderAt ext chunkBegin reader =
        (.ok (some (held.chunk.header, chunkBegin, headerStop chunkBegin)),
          { reader with streamLen := measured }) := by
  have headed : headerStop chunkBegin ≤ reader.source.length :=
    Nat.le_trans (reach_mono (Nat.le_add_right _ _)) visible.1
  have dataInside : headerStop chunkBegin + held.chunk.header.dataSize ≤
      dataStop chunkBegin held.chunk.header.dataSize := by
    unfold headerStop dataStop reach place usable
    rw [if_neg (by decide), if_neg (by omega)]
    omega
  have recordsInside := visible.2
  have dataVisible := visible.1
  obtain ⟨measured, longer, within, outcome⟩ :=
    readChunkHeaderAt_valid facing.faces headed facing.parsed facing.readable.headerValid rfl
  rcases outcome with ⟨_, _, read⟩ | ⟨exceeds, _⟩
  · exact ⟨measured, longer, within, read⟩
  · omega

/-- A pass over a visible chunk of the file hands over its decoder, or goes
past a chunk without records. -/
theorem loadNextLoop_held (fuel : Nat) (facing : FacesHeld ext reader reader.nextChunkFilePos held)
    (visible : Visible reader.source.length reader.nextChunkFilePos held.chunk.header) :
    ∃ measured, reader.streamLen ≤ measured ∧ measured ≤ reader.source.length ∧
      ((∃ decoder : ActiveDecoder, decoder.Yields held.records ∧
          loadNextLoop ext (fuel + 1) reader =
            (.ok true,
              enteredChunk reader measured reader.nextChunkFilePos
                (held.chunk.stop reader.nextChunkFilePos) decoder)) ∨
        (held.records = [] ∧
          loadNextLoop ext (fuel + 1) reader =
            loadNextLoop ext fuel
              (passedChunk reader measured (held.chunk.stop reader.nextChunkFilePos)))) := by
  have ready : FacesHeld ext { reader with pendingTrustedEnd := none }
      reader.nextChunkFilePos held :=
    ⟨⟨facing.faces.standing, facing.faces.shows, facing.faces.known⟩, facing.readable,
      facing.sized⟩
  obtain ⟨measured, longer, within, header⟩ := ready.readHeader visible
  have data := facing.readData visible.1
  have body : ∀ {chunkType : ChunkType}, held.chunk.header.chunkType = .ok chunkType →
      loadChunkBody ext held.chunk.header reader.nextChunkFilePos
          (headerStop reader.nextChunkFilePos)
          { reader with pendingTrustedEnd := none, streamLen := measured } =
        openChunk ext reader.nextChunkFilePos held.chunk chunkType
          (passedChunk reader measured (held.chunk.stop reader.nextChunkFilePos)) :=
    fun typed => loadChunkBody_whole { reader with pendingTrustedEnd := none, streamLen := measured }
      facing.readable.headerValid rfl data facing.readable.dataValid typed
  refine ⟨measured, longer, within, ?_⟩
  rw [loadNextLoop_succ, header]
  simp only
  cases facing.readable.opens with
  | simple typed opened yields counted =>
      left
      refine ⟨_, yields, ?_⟩
      rw [body typed, openChunk_simple opened]
      rfl
  | transposed typed opened yields counted =>
      left
      refine ⟨_, yields, ?_⟩
      rw [body typed, openChunk_transposed (passedChunk reader measured _) opened]
      rfl
  | special typed notSimple notTransposed validated noRecords counted =>
      right
      refine ⟨noRecords, ?_⟩
      rw [body typed, openChunk_special notSimple notTransposed (validated _)]

/-- A pass over a chunk that the source shows only in part fails, and the
reader stays at the chunk. -/
theorem loadNextLoop_refused (fuel : Nat)
    (facing : FacesHeld ext reader reader.nextChunkFilePos held)
    (begun : reader.nextChunkFilePos < reader.source.length)
    (hidden : ¬ Visible reader.source.length reader.nextChunkFilePos held.chunk.header) :
    ∃ error measured, reader.streamLen ≤ measured ∧ measured ≤ reader.source.length ∧
      loadNextLoop ext (fuel + 1) reader =
        (.error (.error error),
          { reader with streamLen := measured, pendingTrustedEnd := none }) := by
  have ready : FacesHeld ext { reader with pendingTrustedEnd := none }
      reader.nextChunkFilePos held :=
    ⟨⟨facing.faces.standing, facing.faces.shows, facing.faces.known⟩, facing.readable,
      facing.sized⟩
  have known := facing.faces.known
  rcases Nat.lt_or_ge reader.source.length (headerStop reader.nextChunkFilePos) with cut | headed
  · have truncated := readHeaderBytes_cut facing.faces.standing facing.faces.shows begun cut
    obtain ⟨error, isError⟩ : ∃ error, truncatedChunk reader.nextChunkFilePos = .error error :=
      ⟨_, rfl⟩
    refine ⟨error, reader.streamLen, Nat.le_refl _, known, ?_⟩
    rw [isError] at truncated
    rw [loadNextLoop_succ, readChunkHeaderAt_eq, facing.faces.canonical, truncated]
  · obtain ⟨measured, longer, within, outcome⟩ :=
      readChunkHeaderAt_valid ready.faces headed ready.parsed facing.readable.headerValid rfl
    rcases outcome with ⟨dataWithin, recordsWithin, header⟩ | ⟨_, error, failed⟩
    · -- the claims stay inside the source, so it is the data that is cut
      have cut : reader.source.length <
          dataStop reader.nextChunkFilePos held.chunk.header.dataSize := by
        by_contra whole
        exact hidden ⟨Nat.not_lt.mp whole, by simp only at recordsWithin; omega⟩
      have carried : 40 + held.chunk.header.dataSize ≤ held.chunk.payload.length := by
        rw [Chunk.length_payload, facing.sized]
      obtain ⟨error, failed⟩ := readChunkData_cut facing.faces.standing facing.faces.shows
        carried headed cut
      have body := loadChunkBody_unread
        { reader with pendingTrustedEnd := none, streamLen := measured }
        facing.readable.headerValid rfl failed
      refine ⟨error, measured, longer, within, ?_⟩
      rw [loadNextLoop_succ, header]
      simp only [body]
    · refine ⟨error, measured, longer, within, ?_⟩
      rw [loadNextLoop_succ, failed]

/-! ## Damaged chunks -/

end Riegeli
