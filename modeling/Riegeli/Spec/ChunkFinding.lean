/-
Module: Riegeli.Spec.ChunkFinding
Purpose: What stands at a place of a source that does not change, stated as a
  function of the source: the view under which the two loaders, the size scan
  and the format check are compared.
Trusted boundary: the hash and the codecs
Main exports: headerAt, openAt, Finding, findBody, findChunk, landsAt,
  findChunk_canonical, landing_eq
-/
import Riegeli.Core.RecordReader
import Riegeli.Proofs.ChunkScan

namespace Riegeli

open RecordReader

variable (ext : Externals)

/-- The header at a place, its chunk's beginning and that of its data. -/
def headerAt (source : Bytes) (place : Nat) : Rust (Option (ChunkHeader × Nat × Nat)) :=
  let chunkBegin := canonicalChunkAddress place
  match readHeaderBytes ext source chunkBegin with
  | .error fault => .error fault
  | .ok none => .ok none
  | .ok (some scan) =>
      let header := ChunkHeader.fromBytes scan.bytes
      if header.isHeaderValid ext = true then do
        checkClaims header chunkBegin scan.filePos source.length
        checkInterior header chunkBegin scan.interiorBlockHeader
        .ok (some (header, chunkBegin, scan.filePos))
      else .ok (some (header, chunkBegin, scan.filePos))

/-- The decoder of a chunk, or `none` for a special chunk. -/
def openAt (projection : Option FieldProjection) (chunkBegin : Nat) (chunk : Chunk) :
    ChunkType → Rust (Option ActiveDecoder)
  | .simple => do
      let decoder ← simpleDecoder ext chunk
      .ok (some decoder)
  | .transposed => do
      let decoder ← transposedDecoder ext chunk projection
      .ok (some decoder)
  | special => do
      validateSpecialChunk chunk.header chunkBegin special
      .ok none

/-- What a sequential reader finds at a place: the end of the source, a chunk
to go past, a chunk to read from, or a failure with the extent it trusts. -/
inductive Finding where
  | absent
  | passes (stop : Nat)
  | holds (decoder : ActiveDecoder) (stop : Nat)
  | fails (fault : Fault) (trusted : Option Nat)
deriving Repr, DecidableEq

/-- The end of the chunk that was found, where its header and data were good
enough to trust it. -/
def Finding.stop : Finding → Option Nat
  | .absent => none
  | .passes stop => some stop
  | .holds _ stop => some stop
  | .fails _ trusted => trusted

/-- What a chunk with good hashes comes to. -/
def findInChunk (projection : Option FieldProjection) (header : ChunkHeader)
    (chunkBegin stop : Nat) (data : Bytes) : Finding :=
  match header.chunkType with
  | .ok chunkType =>
      match openAt ext projection chunkBegin { header := header, data := data } chunkType with
      | .ok none => .passes stop
      | .ok (some decoder) => .holds decoder stop
      | .error fault => .fails fault (some stop)
  | .error error =>
      if header.numRecords = 0 then .passes stop else .fails (.error error) (some stop)

/-- What a chunk comes to once its header is known. -/
def findBody (source : Bytes) (projection : Option FieldProjection) (header : ChunkHeader)
    (chunkBegin dataBegin : Nat) : Finding :=
  if header.isHeaderValid ext = false then
    .fails (malformed s!"invalid chunk header hash at file position {chunkBegin}") none
  else
    let stop := chunkEnd chunkBegin header.dataSize header.numRecords
    match readChunkData ext source chunkBegin stop dataBegin header.dataSize with
    | .error fault => .fails fault none
    | .ok data =>
        if header.isDataValid ext data = false then
          .fails (malformed s!"chunk data hash mismatch at file position {chunkBegin}")
            (some stop)
        else findInChunk ext projection header chunkBegin stop data

/-- What a sequential reader finds at a place. -/
def findChunk (source : Bytes) (projection : Option FieldProjection) (place : Nat) : Finding :=
  match headerAt ext source place with
  | .error fault => .fails fault none
  | .ok none => .absent
  | .ok (some (header, chunkBegin, dataBegin)) =>
      findBody ext source projection header chunkBegin dataBegin

/-- The first place, along the chunks that are gone past, with another finding,
and that finding. -/
def landing (source : Bytes) (projection : Option FieldProjection) :
    Nat → Nat → Nat × Finding
  | 0, place => (place, .fails .outOfFuel none)
  | fuel + 1, place =>
      match findChunk ext source projection place with
      | .passes stop => landing source projection fuel stop
      | found => (place, found)

/-- Where a sequential reader at a place lands. -/
def landsAt (source : Bytes) (projection : Option FieldProjection) (place : Nat) :
    Nat × Finding :=
  landing ext source projection (source.length + 64) place

variable {ext}

theorem headerAt_canonical (source : Bytes) (place : Nat) :
    headerAt ext source (canonicalChunkAddress place) = headerAt ext source place := by
  unfold headerAt
  rw [canonicalChunkAddress_idem]

/-- Both addresses of a chunk lead to the same finding. -/
theorem findChunk_canonical (source : Bytes) (projection : Option FieldProjection)
    (place : Nat) :
    findChunk ext source projection (canonicalChunkAddress place) =
      findChunk ext source projection place := by
  unfold findChunk
  rw [headerAt_canonical]

/-- Only the end of the source is absent. -/
theorem findInChunk_ne_absent (projection : Option FieldProjection) (header : ChunkHeader)
    (chunkBegin stop : Nat) (data : Bytes) :
    findInChunk ext projection header chunkBegin stop data ≠ .absent := by
  unfold findInChunk
  split
  · split <;> simp
  · split <;> simp

theorem findBody_ne_absent (source : Bytes) (projection : Option FieldProjection)
    (header : ChunkHeader) (chunkBegin dataBegin : Nat) :
    findBody ext source projection header chunkBegin dataBegin ≠ .absent := by
  unfold findBody
  split
  · simp
  · simp only
    split
    · simp
    · split
      · simp
      · exact findInChunk_ne_absent _ _ _ _ _

/-- The header found at a place belongs to the chunk that begins there. -/
theorem headerAt_begin {source : Bytes} {place chunkBegin dataBegin : Nat}
    {header : ChunkHeader}
    (found : headerAt ext source place = .ok (some (header, chunkBegin, dataBegin))) :
    chunkBegin = canonicalChunkAddress place := by
  unfold headerAt at found
  simp only at found
  split at found
  · simp at found
  · simp at found
  · split at found
    · obtain ⟨_, _, found⟩ := Except.bind_eq_ok.mp found
      obtain ⟨_, _, found⟩ := Except.bind_eq_ok.mp found
      simp only [Except.ok.injEq, Option.some.injEq, Prod.mk.injEq] at found
      exact found.2.1.symm
    · simp only [Except.ok.injEq, Option.some.injEq, Prod.mk.injEq] at found
      exact found.2.1.symm

/-! ## Progress -/

variable {source : Bytes} {projection : Option FieldProjection} {place stop : Nat}

/-- Past the end of the source there is no chunk. -/
theorem findChunk_past (past : source.length ≤ canonicalChunkAddress place) :
    findChunk ext source projection place = .absent := by
  unfold findChunk headerAt
  simp only [readHeaderBytes_absent past]

theorem findInChunk_stop (header : ChunkHeader) (chunkBegin extent : Nat) (data : Bytes) :
    (findInChunk ext projection header chunkBegin extent data).stop = some extent := by
  unfold findInChunk
  split
  · split <;> rfl
  · split <;> rfl

/-- A trusted end is that of the chunk's header. -/
theorem findChunk_stop (trusted : (findChunk ext source projection place).stop = some stop) :
    ∃ header dataBegin, headerAt ext source place =
        .ok (some (header, canonicalChunkAddress place, dataBegin)) ∧
      stop = chunkEnd (canonicalChunkAddress place) header.dataSize header.numRecords := by
  unfold findChunk at trusted
  split at trusted
  · cases trusted
  · cases trusted
  · rename_i header chunkBegin dataBegin found
    obtain rfl := headerAt_begin found
    refine ⟨header, dataBegin, found, ?_⟩
    unfold findBody at trusted
    split at trusted
    · cases trusted
    · simp only at trusted
      split at trusted
      · cases trusted
      · split at trusted
        · exact (Option.some.inj trusted).symm
        · rw [findInChunk_stop] at trusted
          exact (Option.some.inj trusted).symm

/-- A trusted end lies past both addresses of the chunk. -/
theorem findChunk_stop_lt (trusted : (findChunk ext source projection place).stop = some stop) :
    place < stop := by
  obtain ⟨header, _, _, rfl⟩ := findChunk_stop trusted
  rw [chunkEnd_canonical]
  exact lt_chunkEnd _ _ _

theorem findChunk_stop_possible
    (trusted : (findChunk ext source projection place).stop = some stop) :
    isPossibleChunkBoundary stop = true := by
  obtain ⟨header, _, _, rfl⟩ := findChunk_stop trusted
  exact chunkEnd_possible _ _ _

/-- Only inside the source is there something to be found. -/
theorem findChunk_inside (present : findChunk ext source projection place ≠ .absent) :
    canonicalChunkAddress place < source.length := by
  by_contra past
  exact present (findChunk_past (Nat.not_lt.mp past))

/-- A place where something is found leaves room below the largest word. -/
theorem findChunk_below (addressable : source.length ≤ u64Max)
    (present : findChunk ext source projection place ≠ .absent) : place < u64Max := by
  have inside := findChunk_inside present
  unfold canonicalChunkAddress blockSize blockHeaderSize at inside
  unfold u64Max at *
  split at inside <;> omega

theorem findChunk_passes_possible
    (passes : findChunk ext source projection place = .passes stop) :
    isPossibleChunkBoundary stop = true :=
  findChunk_stop_possible (by rw [passes]; rfl)

/-- A chunk that is gone past brings the reader on. -/
theorem findChunk_passes_lt (passes : findChunk ext source projection place = .passes stop) :
    place < stop :=
  findChunk_stop_lt (by rw [passes]; rfl)

/-- Only chunks inside the source are gone past. -/
theorem findChunk_passes_inside
    (passes : findChunk ext source projection place = .passes stop) :
    place < source.length + 24 := by
  have near := le_canonicalChunkAddress place
  have inside := findChunk_inside (by rw [passes]; simp)
  omega

/-- With enough passes the landing does not depend on how many there are. -/
theorem landing_eq : ∀ {first second place : Nat}, source.length + 24 < first + place →
    source.length + 24 < second + place → 0 < first → 0 < second →
    landing ext source projection first place = landing ext source projection second place := by
  intro first
  induction first with
  | zero => intro second place _ _ none _; omega
  | succ first ih =>
      intro second place firstEnough secondEnough _ more
      obtain ⟨second, rfl⟩ : ∃ smaller, second = smaller + 1 := ⟨second - 1, by omega⟩
      unfold landing
      cases found : findChunk ext source projection place with
      | absent => rfl
      | holds decoder stop => rfl
      | fails fault trusted => rfl
      | passes stop =>
          have on := findChunk_passes_lt found
          have inside := findChunk_passes_inside found
          exact ih (by omega) (by omega) (by omega) (by omega)

/-- What is known of the place a sequential reader lands at. -/
structure Lands (ext : Externals) (source : Bytes) (projection : Option FieldProjection)
    (place : Nat) (landed : Nat × Finding) : Prop where
  found : findChunk ext source projection landed.1 = landed.2
  settled : ∀ stop, landed.2 ≠ .passes stop
  ahead : place ≤ landed.1
  possible : landed.1 = place ∨ isPossibleChunkBoundary landed.1 = true

theorem landing_lands : ∀ {fuel place : Nat}, source.length + 24 < fuel + place → 0 < fuel →
    Lands ext source projection place (landing ext source projection fuel place) := by
  intro fuel
  induction fuel with
  | zero => intro place _ none; omega
  | succ fuel ih =>
      intro place enough _
      unfold landing
      cases found : findChunk ext source projection place with
      | absent => exact ⟨found, by simp, Nat.le_refl _, Or.inl rfl⟩
      | holds decoder stop => exact ⟨found, by simp, Nat.le_refl _, Or.inl rfl⟩
      | fails fault trusted => exact ⟨found, by simp, Nat.le_refl _, Or.inl rfl⟩
      | passes stop =>
          have on := findChunk_passes_lt found
          have inside := findChunk_passes_inside found
          have further := @ih stop (by omega) (by omega)
          have ahead := further.ahead
          simp only
          refine ⟨further.found, further.settled, by omega, Or.inr ?_⟩
          rcases further.possible with same | possible
          · rw [same]
            exact findChunk_passes_possible found
          · exact possible

theorem landsAt_lands (source : Bytes) (projection : Option FieldProjection) (place : Nat) :
    Lands ext source projection place (landsAt ext source projection place) :=
  landing_lands (by omega) (by omega)

/-- A place with another finding is where the reader lands. -/
theorem landsAt_of_found {found : Finding}
    (stands : findChunk ext source projection place = found)
    (settled : ∀ stop, found ≠ .passes stop) :
    landsAt ext source projection place = (place, found) := by
  unfold landsAt landing
  rw [stands]
  cases found with
  | passes stop => exact absurd rfl (settled stop)
  | absent => rfl
  | holds decoder stop => rfl
  | fails fault trusted => rfl

/-- Landing again changes nothing. -/
theorem landsAt_idem (source : Bytes) (projection : Option FieldProjection) (place : Nat) :
    landsAt ext source projection (landsAt ext source projection place).1 =
      landsAt ext source projection place := by
  have lands := @landsAt_lands ext source projection place
  exact landsAt_of_found lands.found lands.settled

end Riegeli
