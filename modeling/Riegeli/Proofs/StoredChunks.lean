/-
Module: Riegeli.Proofs.StoredChunks
Purpose: The bytes of consecutive chunks hold them: what a reader finds at the
  begin of each chunk, and where it lands.
Trusted boundary: the hash and the codecs
Main exports: holdsFrom_fileBytes, findChunk_held, landed_special,
  MadeChunk.ofParts
-/
import Riegeli.Spec.ChunkWalk
import Riegeli.Spec.WriterRuns

namespace Riegeli

open RecordReader

variable {ext : Externals} {source : Bytes} {chunkBegin : Nat} {chunk : Chunk}

/-! ## Files hold their chunks -/

/-- The bytes of a chunk inside those of a file. -/
theorem holdsAt_fileBytes {before rest : List Chunk} (made : MadeChunk ext chunk)
    (placed : WellPlaced 0 (before ++ chunk :: rest))
    (within : fileStop 0 (before ++ chunk :: rest) < u64Max) :
    HoldsAt ext (fileBytes ext 0 (before ++ chunk :: rest)) (fileStop 0 before) chunk := by
  obtain ⟨early, sized, spec, later⟩ := WellPlaced.append.mp placed
  have possible := early.possible_fileStop (by decide)
  have reached := le_fileStop rest (chunk.stop (fileStop 0 before))
  rw [fileStop_append] at within
  have inside : chunk.stop (fileStop 0 before) < u64Max := Nat.lt_of_le_of_lt reached within
  have records : fileStop 0 before + chunk.header.numRecords ≤ chunk.stop (fileStop 0 before) := by
    -- the sum does not saturate below the largest word
    have counted := spec.records
    unfold satAdd at counted
    omega
  have total : (fileBytes ext 0 (before ++ chunk :: rest)).length =
      fileStop (chunk.stop (fileStop 0 before)) rest := by
    rw [placed.length_fileBytes, fileStop_append]
    rfl
  have length := chunk.length_payload
  refine ⟨⟨possible, by omega, ?_, Nat.le_of_lt inside⟩, ?_, spec, records, ?_, sized, made⟩
  · rw [length, ← sized, reach, if_neg (by omega)]
    exact spec.room
  · intro pos after before' _
    have head : (fileBytes ext 0 before).length = fileStop 0 before := by
      rw [early.length_fileBytes, Nat.sub_zero]
    rw [fileBytes_append, List.getElem?_append_right (by omega), head, fileBytes,
      List.getElem?_append_left (by rw [length_spanBytes]; omega),
      getElem?_spanBytes (by omega), Nat.add_sub_cancel' after]
  · rw [total]
    exact reached

/-- The chunks after the first ones stand one after the other up to the end. -/
theorem holdsFrom_fileBytes (rest : List Chunk) :
    ∀ {before : List Chunk}, (∀ chunk ∈ rest, MadeChunk ext chunk) →
      WellPlaced 0 (before ++ rest) → fileStop 0 (before ++ rest) < u64Max →
      HoldsFrom ext (fileBytes ext 0 (before ++ rest)) (fileStop 0 before) rest := by
  induction rest with
  | nil =>
      intro before _ placed _
      rw [List.append_nil] at placed ⊢
      refine ⟨placed.possible_fileStop (by decide), ?_⟩
      rw [placed.length_fileBytes, Nat.sub_zero]
  | cons chunk rest ih =>
      intro before made placed within
      refine ⟨holdsAt_fileBytes (made chunk (List.mem_cons_self ..)) placed within, ?_⟩
      have split : before ++ chunk :: rest = (before ++ [chunk]) ++ rest := by simp
      have stop : chunk.stop (fileStop 0 before) = fileStop 0 (before ++ [chunk]) := by
        rw [fileStop_append]
        rfl
      rw [split] at placed within ⊢
      rw [stop]
      exact ih (fun other member => made other (List.mem_cons_of_mem _ member)) placed within

/-- Every chunk takes up room. -/
theorem HoldsFrom.length_le {chunks : List Chunk} (holds : HoldsFrom ext source chunkBegin chunks) :
    chunkBegin + chunks.length ≤ source.length := by
  induction chunks generalizing chunkBegin with
  | nil => exact Nat.le_of_eq holds.2
  | cons chunk rest ih =>
      have further := ih holds.2
      have room := holds.1.spec.begin_add_le
      rw [List.length_cons]
      omega

theorem HoldsFrom.possible {chunks : List Chunk} (holds : HoldsFrom ext source chunkBegin chunks) :
    isPossibleChunkBoundary chunkBegin = true := by
  cases chunks with
  | nil => exact holds.1
  | cons chunk rest => exact holds.1.standing.possible

/-! ## What is found -/

theorem HoldsAt.parsed (holds : HoldsAt ext source chunkBegin chunk) :
    ChunkHeader.fromBytes (chunk.payload.take 40) = chunk.header := by
  rw [Chunk.payload_header, ChunkHeader.fromBytes_toBytes holds.made.fits]

/-- The header of a chunk that is all there. -/
theorem headerAt_held (holds : HoldsAt ext source chunkBegin chunk) :
    headerAt ext source chunkBegin = .ok (some (chunk.header, chunkBegin, headerStop chunkBegin)) := by
  have canonical := canonicalChunkAddress_eq holds.standing.possible
  have room := holds.spec.room
  have whole := holds.whole
  have records := holds.records
  have headed : headerStop chunkBegin ≤ source.length := by
    have ordered := @reach_mono chunkBegin 40 (40 + chunk.header.dataSize) (Nat.le_add_right _ _)
    rw [headerStop]
    refine ordered.trans (Nat.le_trans ?_ whole)
    rw [reach, if_neg (by omega)]
    exact room
  obtain ⟨scan, scanned, has⟩ := readHeaderBytes_whole holds.standing holds.shows headed
  have filePos : scan.filePos = headerStop chunkBegin := has.filePos
  have claims : checkClaims chunk.header chunkBegin (headerStop chunkBegin) source.length =
      .ok () := by
    have dataRoom : headerStop chunkBegin + chunk.header.dataSize ≤ chunk.stop chunkBegin := by
      refine Nat.le_trans ?_ room
      unfold headerStop reach place
      rw [if_neg (by decide)]
      omega
    unfold checkClaims
    rw [if_neg (by omega), if_neg (by omega)]
  unfold headerAt
  simp only [canonical, scanned, has.bytes, filePos, holds.parsed, holds.made.headerValid,
    ↓reduceIte, claims, Except.ok_bind,
    checkInterior_ok has (show chunkEnd chunkBegin chunk.header.dataSize chunk.header.numRecords =
      chunk.stop chunkBegin from rfl) holds.standing.within]

/-- What a chunk that is all there comes to. -/
theorem findChunk_held (holds : HoldsAt ext source chunkBegin chunk)
    (projection : Option FieldProjection) :
    findChunk ext source projection chunkBegin =
      match openedAs ext projection chunk with
      | .ok none => .passes (chunk.stop chunkBegin)
      | .ok (some decoder) => .holds decoder (chunk.stop chunkBegin)
      | .error fault => .fails fault (some (chunk.stop chunkBegin)) := by
  have carried : 40 + chunk.header.dataSize ≤ chunk.payload.length := by
    rw [Chunk.length_payload, holds.sized]
  have visible : dataStop chunkBegin chunk.header.dataSize ≤ source.length := by
    refine Nat.le_trans ?_ holds.whole
    rw [dataStop, reach, if_neg (by omega)]
    exact holds.spec.room
  have data : readChunkData ext source chunkBegin
      (chunkEnd chunkBegin chunk.header.dataSize chunk.header.numRecords) (headerStop chunkBegin)
      chunk.header.dataSize = .ok chunk.data := by
    have read := readChunkData_whole holds.standing holds.shows carried visible
    rw [Chunk.payload_data, List.take_of_length_le (Nat.le_of_eq holds.sized.symm)] at read
    exact read
  obtain ⟨chunkType, typed, special⟩ := holds.made.typed
  unfold findChunk
  rw [headerAt_held holds]
  simp only [findBody, holds.made.headerValid, holds.made.dataValid, data, Bool.true_eq_false,
    ↓reduceIte, findInChunk, typed, openedAs]
  have anywhere : openAt ext projection chunkBegin chunk chunkType =
      openAt ext projection 0 chunk chunkType := by
    have here := special chunkBegin
    have first := special 0
    cases chunkType with
    | simple => rfl
    | transposed => rfl
    | fileSignature => simp only [openAt, here, first]
    | fileMetadata => simp only [openAt, here, first]
    | padding => simp only [openAt, here, first]
  change (match openAt ext projection chunkBegin chunk chunkType with
    | .ok none => Finding.passes (chunk.stop chunkBegin)
    | .ok (some decoder) => .holds decoder (chunk.stop chunkBegin)
    | .error fault => .fails fault (some (chunk.stop chunkBegin))) = _
  rw [anywhere]

/-- A chunk without records to read opens as nothing. -/
theorem openedAs_special (made : MadeChunk ext chunk) (special : isDataChunk chunk = false)
    (projection : Option FieldProjection) : openedAs ext projection chunk = .ok none := by
  obtain ⟨chunkType, typed, valid⟩ := made.typed
  have here := valid 0
  unfold isDataChunk at special
  unfold openedAs
  rw [typed] at special ⊢
  cases chunkType with
  | simple => cases special
  | transposed => cases special
  | fileSignature => simp only [openAt, here, Except.ok_bind]
  | fileMetadata => simp only [openAt, here, Except.ok_bind]
  | padding => simp only [openAt, here, Except.ok_bind]

/-- A sequential reader lands past a chunk that has nothing to read. -/
theorem landsAt_special {projection : Option FieldProjection}
    (holds : HoldsAt ext source chunkBegin chunk)
    (opened : openedAs ext projection chunk = .ok none) :
    landsAt ext source projection chunkBegin =
      landsAt ext source projection (chunk.stop chunkBegin) := by
  have found := findChunk_held holds projection
  rw [opened] at found
  have further := holds.spec.begin_add_le
  unfold landsAt
  rw [show source.length + 64 = source.length + 63 + 1 by omega, landing, found]
  exact landing_eq (by omega) (by omega) (by omega) (by omega)

/-! ## Chunks from their parts -/

/-- A chunk under a header that was made for it is one that a writer makes. -/
theorem MadeChunk.ofParts {chunkType : ChunkType} {numRecords decodedDataSize : Nat}
    (header : chunk.header =
      ChunkHeader.fromParts ext chunk.data chunkType numRecords decodedDataSize)
    (dataFits : chunk.data.length ≤ u64Max) (decodedFits : decodedDataSize ≤ u64Max)
    (valid : ∀ chunkBegin, validateSpecialChunk chunk.header chunkBegin chunkType = .ok ()) :
    MadeChunk ext chunk where
  fits := by
    rw [header]
    exact ChunkHeader.fits_fromParts chunkType numRecords dataFits decodedFits
  headerValid := by
    rw [header]
    exact ChunkHeader.fromParts_isHeaderValid _ _ _ _
  dataValid := by
    rw [header]
    exact ChunkHeader.fromParts_isDataValid _ _ _ _
  typed := ⟨chunkType, by rw [header]; exact ChunkHeader.chunkType_fromParts _ _ _ _, valid⟩

end Riegeli
