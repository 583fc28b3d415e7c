/-
Module: Riegeli.Proofs.Damage
Purpose: What a recovering reader gets of a damaged file: every record of the
  chunks that are spared and not skipped, and one region for each damage it meets.
Trusted boundary: the hash and the codecs
Main exports: findChunk_spared, resync_firstFrom, LeftBehind, recovers_marked,
  Damaged.readsAround, damage_limited
-/
import Riegeli.Spec.Damage
import Riegeli.Proofs.PointerScans
import Riegeli.Proofs.Recovery

namespace Riegeli

open RecordReader

variable {ext : Externals} {projection : Option FieldProjection} {source altered : Bytes}
  {marked earlier later : List MarkedChunk} {chunkBegin : Nat} {chunk : Chunk}

/-! ## The bytes of a chunk -/

theorem usable_injective {first second : Nat} (outside : 24 ≤ first % 65536)
    (outsideSecond : 24 ≤ second % 65536) (same : usable first = usable second) :
    first = second := by
  unfold usable at same
  omega

/-- Every place outside block headers carries the byte of its usable distance. -/
theorem carrierOf_usable (possible : isPossibleChunkBoundary chunkBegin = true) {pos : Nat}
    (after : chunkBegin ≤ pos) (outside : 24 ≤ pos % 65536) :
    carrierOf chunkBegin (usable pos - usable chunkBegin) = pos := by
  have ordered := usable_mono after
  refine usable_injective (bodyPlace_outside possible _) outside ?_
  rw [carrierOf, usable_bodyPlace]
  omega

/-- The bytes that a source carries in the whole span of a chunk. -/
def spannedBytes (source : Bytes) (chunkBegin stop : Nat) : Bytes :=
  carriedBytes source chunkBegin 0 (usable stop - usable chunkBegin)

@[simp] theorem length_carriedBytes (source : Bytes) (chunkBegin first count : Nat) :
    (carriedBytes source chunkBegin first count).length = count := by
  rw [carriedBytes, List.length_map, List.length_range']

theorem drop_take_carriedBytes {first count total : Nat} (within : first + count ≤ total) :
    ((carriedBytes source chunkBegin 0 total).drop first).take count =
      carriedBytes source chunkBegin first count := by
  apply List.ext_getElem
  · rw [List.length_take, List.length_drop, length_carriedBytes, length_carriedBytes]
    omega
  · intro index _ _
    simp [carriedBytes]

theorem take_carriedBytes {count total : Nat} (within : count ≤ total) :
    (carriedBytes source chunkBegin 0 total).take count = carriedBytes source chunkBegin 0 count := by
  have all := @drop_take_carriedBytes source chunkBegin 0 count total (by omega)
  rw [List.drop_zero] at all
  exact all

/-- The same block headers, under whatever is carried between them. -/
structure SameFrame (source altered : Bytes) : Prop where
  length : altered.length = source.length
  blockHeaders : ∀ pos, pos % blockSize < blockHeaderSize → altered[pos]? = source[pos]?

theorem Damaged.sameFrame (damaged : Damaged ext source altered marked) :
    SameFrame source altered :=
  ⟨damaged.length, damaged.blockHeaders⟩

/-- An altered source shows the chunk's block headers around what it carries. -/
theorem HoldsAt.shows_spanned (holds : HoldsAt ext source chunkBegin chunk)
    (frame : SameFrame source altered) :
    Shows ext altered chunkBegin (chunk.stop chunkBegin)
      (spannedBytes altered chunkBegin (chunk.stop chunkBegin)) (chunk.stop chunkBegin) := by
  intro pos after before within
  by_cases inside : pos % 65536 < 24
  · have shown := holds.shows pos after before (by rw [← frame.length]; exact within)
    rw [frame.blockHeaders pos inside, shown]
    unfold fileByte blockSize blockHeaderSize
    rw [if_pos inside, if_pos inside]
  · have outside : 24 ≤ pos % 65536 := Nat.not_lt.mp inside
    have carried := carrierOf_usable holds.standing.possible after outside
    have possible := holds.spec.possible
    have room := holds.spec.begin_add_le
    have short : usable pos < usable (chunk.stop chunkBegin) := by
      by_contra reaches
      have positive : 0 < usable (chunk.stop chunkBegin) := by
        have counted := holds.spec.usable_le
        omega
      have past := (place_le_iff positive).mpr (Nat.not_lt.mp reaches)
      rw [place_usable possible (by omega)] at past
      omega
    have ordered := usable_mono after
    have read : (spannedBytes altered chunkBegin (chunk.stop chunkBegin)).getD
        (usable pos - usable chunkBegin) 0 = altered.getD pos 0 := by
      rw [spannedBytes, carriedBytes, List.getD_eq_getElem?_getD, List.getElem?_map,
        List.getElem?_range' (by omega)]
      simp only [Nat.zero_add, Nat.one_mul, Option.map_some, Option.getD_some, carried]
    unfold fileByte blockSize blockHeaderSize
    rw [if_neg inside, read, List.getD_eq_getElem?_getD, List.getElem?_eq_getElem within,
      Option.getD_some]

theorem HoldsAt.standing_spanned (holds : HoldsAt ext source chunkBegin chunk) (altered : Bytes) :
    Standing chunkBegin (chunk.stop chunkBegin)
      (spannedBytes altered chunkBegin (chunk.stop chunkBegin)) := by
  have counted := holds.spec.usable_le
  have room := holds.spec.begin_add_le
  refine ⟨holds.standing.possible, ?_, ?_, holds.standing.within⟩
  · rw [spannedBytes, length_carriedBytes]
    omega
  · rw [spannedBytes, length_carriedBytes, reach, if_neg (by omega),
      show usable chunkBegin + (usable (chunk.stop chunkBegin) - usable chunkBegin) =
        usable (chunk.stop chunkBegin) by omega,
      place_usable holds.spec.possible (by omega)]

/-- A chunk's header and data are carried inside it. -/
theorem HoldsAt.carrier_within (holds : HoldsAt ext source chunkBegin chunk) {index : Nat}
    (short : index < 40 + chunk.header.dataSize) :
    chunkBegin ≤ carrierOf chunkBegin index ∧
      carrierOf chunkBegin index < chunk.stop chunkBegin := by
  have counted := holds.spec.usable_le
  have distance := usable_bodyPlace chunkBegin index
  refine ⟨?_, ?_⟩
  · have reached := le_reach chunkBegin index
    unfold carrierOf bodyPlace
    split <;> omega
  · by_contra past
    have ordered := usable_mono (Nat.not_lt.mp past)
    rw [carrierOf, distance] at ordered
    omega

/-- The file itself carries the chunk's header and data. -/
theorem HoldsAt.carries (holds : HoldsAt ext source chunkBegin chunk) :
    carriedBytes source chunkBegin 0 (40 + chunk.header.dataSize) = chunk.payload := by
  have sized : chunk.payload.length = 40 + chunk.header.dataSize := by
    rw [Chunk.length_payload, holds.sized]
  apply List.ext_getElem
  · rw [length_carriedBytes, sized]
  · intro index short within
    rw [length_carriedBytes] at short
    have outside := bodyPlace_outside holds.standing.possible index
    have distance := usable_bodyPlace chunkBegin index
    obtain ⟨after, before⟩ := holds.carrier_within short
    have whole := holds.whole
    have shown := holds.shows _ after before (by omega)
    unfold fileByte blockSize blockHeaderSize at shown
    rw [if_neg (by unfold carrierOf; omega), carrierOf, distance,
      show usable chunkBegin + index - usable chunkBegin = index by omega,
      List.getD_eq_getElem?_getD, List.getElem?_eq_getElem within, Option.getD_some] at shown
    simp only [carriedBytes, List.getElem_map, List.getElem_range', Nat.zero_add, Nat.one_mul,
      List.getD_eq_getElem?_getD, carrierOf, shown, Option.getD_some]

/-! ## What is found -/

/-- The header of an altered chunk is read as it is carried. -/
theorem readHeaderBytes_carried (holds : HoldsAt ext source chunkBegin chunk)
    (frame : SameFrame source altered) :
    ∃ scan, readHeaderBytes ext altered chunkBegin = .ok (some scan) ∧
      scan.bytes = carriedBytes altered chunkBegin 0 40 ∧ scan.filePos = headerStop chunkBegin ∧
      checkInterior chunk.header chunkBegin scan.interiorBlockHeader = .ok () := by
  have standing := holds.standing_spanned altered
  have headed : headerStop chunkBegin ≤ altered.length := by
    have fits := standing.header
    have room := standing.room
    have whole := holds.whole
    rw [frame.length]
    exact (reach_mono fits).trans (room.trans whole)
  obtain ⟨scan, scanned, has⟩ := readHeaderBytes_whole standing (holds.shows_spanned frame) headed
  have counted := holds.spec.usable_le
  refine ⟨scan, scanned, ?_, has.filePos, checkInterior_ok has rfl holds.standing.within⟩
  rw [has.bytes]
  exact take_carriedBytes (by omega)

/-- A header that fails its hash is a failure with no extent to trust. -/
theorem findChunk_badHeader (holds : HoldsAt ext source chunkBegin chunk)
    (frame : SameFrame source altered) (shown : Damage.Shown ext altered chunkBegin chunk .header) :
    findChunk ext altered projection chunkBegin =
      .fails (malformed s!"invalid chunk header hash at file position {chunkBegin}") none := by
  have canonical := canonicalChunkAddress_eq holds.standing.possible
  obtain ⟨scan, scanned, bytes, filePos, _⟩ := readHeaderBytes_carried holds frame
  have invalid : (ChunkHeader.fromBytes (carriedBytes altered chunkBegin 0 40)).isHeaderValid ext =
      false := shown
  unfold findChunk headerAt
  simp only [canonical, scanned, bytes, invalid, Bool.false_eq_true, ↓reduceIte, findBody]

/-- Behind the header as it was written comes the data as it is carried. -/
theorem findChunk_readable (holds : HoldsAt ext source chunkBegin chunk)
    (frame : SameFrame source altered)
    (header : carriedBytes altered chunkBegin 0 40 = chunk.header.toBytes) :
    findChunk ext altered projection chunkBegin =
      if chunk.header.isDataValid ext (carriedBytes altered chunkBegin 40 chunk.header.dataSize) =
          false then
        .fails (malformed s!"chunk data hash mismatch at file position {chunkBegin}")
          (some (chunk.stop chunkBegin))
      else
        findInChunk ext projection chunk.header chunkBegin (chunk.stop chunkBegin)
          (carriedBytes altered chunkBegin 40 chunk.header.dataSize) := by
  have canonical := canonicalChunkAddress_eq holds.standing.possible
  have standing := holds.standing_spanned altered
  have room := holds.spec.room
  have whole := holds.whole
  have records := holds.records
  have counted := holds.spec.usable_le
  have sameLength := frame.length
  have carried : 40 + chunk.header.dataSize ≤
      (spannedBytes altered chunkBegin (chunk.stop chunkBegin)).length := by
    rw [spannedBytes, length_carriedBytes]
    omega
  have visible : dataStop chunkBegin chunk.header.dataSize ≤ altered.length := by
    rw [frame.length]
    exact (reach_mono carried).trans (standing.room.trans whole)
  obtain ⟨scan, scanned, bytes, filePos, interior⟩ := readHeaderBytes_carried holds frame
  have parsed : ChunkHeader.fromBytes (carriedBytes altered chunkBegin 0 40) = chunk.header := by
    rw [header, ChunkHeader.fromBytes_toBytes holds.made.fits]
  have claims : checkClaims chunk.header chunkBegin (headerStop chunkBegin) altered.length =
      .ok () := by
    have dataRoom : headerStop chunkBegin + chunk.header.dataSize ≤ chunk.stop chunkBegin := by
      refine Nat.le_trans ?_ room
      unfold headerStop reach place
      rw [if_neg (by decide)]
      omega
    unfold checkClaims
    rw [if_neg (by omega), if_neg (by omega)]
  have data : readChunkData ext altered chunkBegin
      (chunkEnd chunkBegin chunk.header.dataSize chunk.header.numRecords) (headerStop chunkBegin)
      chunk.header.dataSize = .ok (carriedBytes altered chunkBegin 40 chunk.header.dataSize) := by
    have read := readChunkData_whole standing (holds.shows_spanned frame) carried visible
    rw [spannedBytes, drop_take_carriedBytes (by omega)] at read
    exact read
  unfold findChunk headerAt
  simp only [canonical, scanned, bytes, filePos, parsed, holds.made.headerValid, ↓reduceIte, claims,
    interior, Except.ok_bind, findBody, Bool.true_eq_false, data]
  rfl

/-- Altered data is a failure that trusts the chunk's end. -/
theorem findChunk_badData (holds : HoldsAt ext source chunkBegin chunk)
    (frame : SameFrame source altered) (shown : Damage.Shown ext altered chunkBegin chunk .data) :
    findChunk ext altered projection chunkBegin =
      .fails (malformed s!"chunk data hash mismatch at file position {chunkBegin}")
        (some (chunk.stop chunkBegin)) := by
  rw [findChunk_readable holds frame shown.1]
  exact if_pos shown.2

/-- What is spared is found as in the file. -/
theorem findChunk_spared (holds : HoldsAt ext source chunkBegin chunk)
    (frame : SameFrame source altered) (shown : Damage.Shown ext altered chunkBegin chunk .spared) :
    findChunk ext altered projection chunkBegin = findChunk ext source projection chunkBegin := by
  have parts : ∀ {bytes : Bytes},
      carriedBytes bytes chunkBegin 0 (40 + chunk.header.dataSize) = chunk.payload →
      carriedBytes bytes chunkBegin 0 40 = chunk.header.toBytes ∧
        carriedBytes bytes chunkBegin 40 chunk.header.dataSize = chunk.data := by
    intro bytes same
    constructor
    · rw [← @take_carriedBytes bytes chunkBegin 40 (40 + chunk.header.dataSize) (by omega), same,
        Chunk.payload_header]
    · rw [← @drop_take_carriedBytes bytes chunkBegin 40 chunk.header.dataSize
          (40 + chunk.header.dataSize) (by omega), same, Chunk.payload_data,
        List.take_of_length_le (Nat.le_of_eq holds.sized.symm)]
  obtain ⟨header, data⟩ := parts shown
  obtain ⟨headerBefore, dataBefore⟩ := parts holds.carries
  rw [findChunk_readable holds frame header, data,
    findChunk_readable holds ⟨rfl, fun _ _ => rfl⟩ headerBefore, dataBefore]

/-! ## Where reading goes on -/

theorem boundaryPast_aligned (place : Nat) : boundaryPast place % 65536 = 0 := by
  unfold boundaryPast blockSize
  omega

theorem lt_boundaryPast (place : Nat) : place < boundaryPast place := by
  unfold boundaryPast blockSize
  omega

theorem resyncBoundary_eq (place : Nat) : resyncBoundary place = boundaryPast place := by
  have aligned : ∀ pos, isBlockBoundary pos = true ↔ pos % 65536 = 0 := fun pos =>
    isBlockBoundary_iff
  unfold resyncBoundary nextBlockBoundary boundaryPast roundDownToBlockBoundary blockSize
  by_cases boundary : place % 65536 = 0
  · rw [if_pos ((aligned place).mpr boundary), if_pos rfl]
    omega
  · rw [if_neg (fun same => boundary ((aligned place).mp same)), if_neg (by omega)]
    omega

/-- The block headers of the file are those of the altered source. -/
theorem SameFrame.blockHeader (frame : SameFrame source altered) {boundary previous next : Nat}
    (onBoundary : boundary % 65536 = 0)
    (header : BlockHeaderAt ext source boundary previous next) :
    BlockHeaderAt ext altered boundary previous next := by
  have same : (altered.drop boundary).take 24 = (source.drop boundary).take 24 := by
    apply List.ext_getElem?
    intro index
    rw [List.getElem?_take, List.getElem?_take, List.getElem?_drop, List.getElem?_drop]
    split
    · rename_i inside
      refine frame.blockHeaders _ ?_
      unfold blockSize blockHeaderSize
      omega
    · rfl
  obtain ⟨length, valid, previousChunk, nextChunk⟩ := header
  rw [← same] at length valid previousChunk nextChunk
  exact ⟨length, valid, previousChunk, nextChunk⟩

/-- A block header at a boundary ends the search for a place to go on from: there,
or at the end of the chunk that spans the boundary. -/
theorem resyncLoop_header {boundary previous next streamLen fuel : Nat}
    (header : BlockHeaderAt ext altered boundary previous next)
    (within : boundary + next ≤ streamLen) (addressable : streamLen ≤ u64Max)
    (possible : isPossibleChunkBoundary (boundary + next) = true) :
    resyncLoop ext altered streamLen (fuel + 1) boundary =
      .ok (if previous = 0 then boundary else boundary + next) := by
  have reads : readFull altered boundary blockHeaderSize = (altered.drop boundary).take 24 := rfl
  unfold resyncLoop
  dsimp only
  rw [reads, if_neg (by rw [header.length]; decide), if_neg (by rw [header.valid]; decide),
    header.previousChunk, header.nextChunk, satAdd_eq (by omega)]
  by_cases begins : previous = 0
  · rw [if_pos begins, if_pos begins]
  · rw [if_neg begins, if_neg begins, if_neg (Nat.not_lt.mpr within), if_pos possible]

/-- Past the end of the source the search ends at once. -/
theorem resyncLoop_end {boundary streamLen fuel : Nat} (past : altered.length ≤ boundary) :
    resyncLoop ext altered streamLen (fuel + 1) boundary = .ok boundary := by
  unfold resyncLoop
  refine if_pos ?_
  rw [readFull, List.length_take, List.length_drop]
  unfold blockHeaderSize
  omega

@[simp] theorem heldChunks_append (first second : List MarkedChunk) :
    heldChunks (first ++ second) = heldChunks first ++ heldChunks second := List.map_append

theorem chunkPlace_marked (earlier : List MarkedChunk) (chunk : MarkedChunk) :
    chunkPlace (heldChunks (earlier ++ [chunk])) =
      chunk.held.chunk.stop (chunkPlace (heldChunks earlier)) := by
  rw [heldChunks_append]
  exact chunkPlace_snoc _ _

/-- The chunks that a reader skips to get to the boundary, and those behind. -/
structure Skips (boundary : Nat) (earlier later skipped rest : List MarkedChunk) : Prop where
  split : later = skipped ++ rest
  place : firstFrom boundary (chunkPlace (heldChunks earlier)) later =
    chunkPlace (heldChunks (earlier ++ skipped))
  reached : rest = [] ∨ boundary ≤ chunkPlace (heldChunks (earlier ++ skipped))
  before : ∀ front chunk, skipped = front ++ [chunk] →
    chunkPlace (heldChunks (earlier ++ front)) < boundary

theorem exists_skips (boundary : Nat) (later : List MarkedChunk) :
    ∀ {earlier : List MarkedChunk}, ∃ skipped rest, Skips boundary earlier later skipped rest := by
  induction later with
  | nil =>
      intro earlier
      refine ⟨[], [], rfl, ?_, .inl rfl, fun front chunk impossible => ?_⟩
      · rw [List.append_nil]
        rfl
      · simp at impossible
  | cons chunk later ih =>
      intro earlier
      by_cases short : chunkPlace (heldChunks earlier) < boundary
      · obtain ⟨skipped, rest, split, place, reached, before⟩ := @ih (earlier ++ [chunk])
        rw [List.append_assoc, List.singleton_append] at place reached
        refine ⟨chunk :: skipped, rest, by rw [split]; rfl, ?_, reached, fun front last same => ?_⟩
        · rw [firstFrom, if_pos short, ← chunkPlace_marked]
          exact place
        · cases front with
          | nil =>
              rw [List.append_nil]
              exact short
          | cons first front =>
              obtain ⟨rfl, ends⟩ := List.cons.inj same
              have later := before front last ends
              rw [List.append_assoc, List.singleton_append] at later
              exact later
      · refine ⟨[], chunk :: later, rfl, ?_, .inr ?_, fun front last impossible => ?_⟩
        · rw [List.append_nil, firstFrom, if_neg short]
        · rw [List.append_nil]
          exact Nat.not_lt.mp short
        · simp at impossible

/-- Nothing is left of the chunks that are skipped. -/
theorem remnants_skipped (resume : Nat) (rest skipped : List MarkedChunk) :
    ∀ {earlier : List MarkedChunk}, chunkPlace (heldChunks (earlier ++ skipped)) ≤ resume →
      remnants resume (chunkPlace (heldChunks earlier)) (skipped ++ rest) =
        remnants resume (chunkPlace (heldChunks (earlier ++ skipped))) rest ∧
      chunkPlace (heldChunks earlier) ≤ chunkPlace (heldChunks (earlier ++ skipped)) := by
  induction skipped with
  | nil =>
      intro earlier _
      rw [List.append_nil, List.nil_append]
      exact ⟨rfl, Nat.le_refl _⟩
  | cons chunk skipped ih =>
      intro earlier within
      have behind : chunkPlace (heldChunks earlier) <
          chunkPlace (heldChunks (earlier ++ [chunk])) := by
        rw [chunkPlace_marked]
        exact lt_chunkEnd _ _ _
      rw [← List.singleton_append, ← List.append_assoc] at within ⊢
      obtain ⟨same, further⟩ := ih within
      refine ⟨?_, (Nat.le_of_lt behind).trans further⟩
      rw [List.append_assoc, List.singleton_append, remnants]
      dsimp only
      rw [if_pos (by omega), ← chunkPlace_marked]
      exact same

/-- What is left does not depend on how far back reading began again. -/
theorem remnants_resume (chunks : List MarkedChunk) :
    ∀ {first second place : Nat}, first ≤ place → second ≤ place →
      remnants first place chunks = remnants second place chunks := by
  induction chunks with
  | nil => exact fun _ _ => rfl
  | cons chunk rest ih =>
      intro first second place behind behindSecond
      have onward : place < chunk.held.chunk.stop place := lt_chunkEnd _ _ _
      have same := @ih first second (chunk.held.chunk.stop place) (by omega) (by omega)
      rw [remnants, remnants]
      dsimp only
      rw [if_neg (by omega), if_neg (by omega), same]

/-! ## Regions -/

variable {chunk : MarkedChunk}

theorem heldChunks_split (split : marked = earlier ++ chunk :: later) :
    heldChunks marked = heldChunks earlier ++ chunk.held :: heldChunks later := by
  rw [split, heldChunks_append]
  rfl

/-- The search from a boundary that a chunk covers ends at the boundary if the chunk
begins there, and otherwise at the end of the chunk. -/
theorem resyncLoop_covered (chunks : FileChunks ext projection source (heldChunks marked))
    (frame : SameFrame source altered) {before behind : List HeldChunk} {held : HeldChunk}
    (split : heldChunks marked = before ++ held :: behind) {boundary : Nat}
    (onBoundary : boundary % 65536 = 0) (begins : chunkPlace before ≤ boundary)
    (short : boundary < chunkPlace (before ++ [held])) :
    resyncLoop ext altered altered.length (altered.length + 1) boundary =
      .ok (if boundary - chunkPlace before = 0 then boundary
        else chunkPlace (before ++ [held])) := by
  have after := snoc_split split
  have within := chunks.length_le after
  have possible := chunks.possible after
  have header := frame.blockHeader onBoundary (chunks.blockHeader split onBoundary begins short)
  have target : boundary + (chunkPlace (before ++ [held]) - boundary) =
      chunkPlace (before ++ [held]) := Nat.add_sub_cancel' (Nat.le_of_lt short)
  rw [← frame.length] at within
  have addressable : altered.length ≤ u64Max := by rw [frame.length]; exact chunks.addressable
  rw [resyncLoop_header header (by omega) addressable (by rw [target]; exact possible), target]

/-- The search from the boundary past a chunk ends at the first chunk that begins
behind that boundary, or at the end of the file. -/
theorem resync_firstFrom (chunks : FileChunks ext projection source (heldChunks marked))
    (frame : SameFrame source altered) (split : marked = earlier ++ chunk :: later) :
    ∃ resync, resyncLoop ext altered altered.length (altered.length + 1)
        (boundaryPast (chunkPlace (heldChunks earlier))) = .ok resync ∧
      min resync (max altered.length (chunkPlace (heldChunks earlier))) =
        firstFrom (boundaryPast (chunkPlace (heldChunks earlier)))
          (chunk.held.chunk.stop (chunkPlace (heldChunks earlier))) later := by
  have onBoundary := boundaryPast_aligned (chunkPlace (heldChunks earlier))
  have ahead := lt_boundaryPast (chunkPlace (heldChunks earlier))
  generalize boundaryPast (chunkPlace (heldChunks earlier)) = boundary at onBoundary ahead
  have first : firstFrom boundary (chunkPlace (heldChunks earlier)) (chunk :: later) =
      firstFrom boundary (chunk.held.chunk.stop (chunkPlace (heldChunks earlier))) later := by
    rw [firstFrom, if_pos ahead]
  rw [← first]
  obtain ⟨skipped, rest, skips⟩ := @exists_skips boundary (chunk :: later) earlier
  have cut : marked = (earlier ++ skipped) ++ rest := by
    rw [split, skips.split, List.append_assoc]
  have held : heldChunks marked = heldChunks (earlier ++ skipped) ++ heldChunks rest := by
    rw [cut, heldChunks_append]
  have within := chunks.length_le held
  have inside := chunks.length_le (heldChunks_split split)
  rw [← frame.length] at within inside
  rw [List.length_cons] at inside
  rw [skips.place]
  by_cases short : boundary < chunkPlace (heldChunks (earlier ++ skipped))
  · -- the last chunk skipped spans the boundary
    rcases skipped.eq_nil_or_concat with rfl | ⟨front, last, rfl⟩
    · rw [List.append_nil] at short
      omega
    · rw [List.concat_eq_append] at *
      have begins := skips.before front last rfl
      rw [← List.append_assoc] at held short within ⊢
      have spanned : heldChunks marked =
          heldChunks (earlier ++ front) ++ last.held :: heldChunks rest := by
        rw [held, heldChunks_append, List.append_assoc]
        rfl
      rw [chunkPlace_marked, ← chunkPlace_snoc] at short within ⊢
      refine ⟨_, resyncLoop_covered chunks frame spanned onBoundary (Nat.le_of_lt begins) short, ?_⟩
      rw [if_neg (by omega)]
      omega
  · cases rest with
    | nil =>
        have ends : altered.length = chunkPlace (heldChunks (earlier ++ skipped)) := by
          rw [frame.length, chunks.length, held]
          exact congrArg chunkPlace (List.append_nil _)
        refine ⟨boundary, resyncLoop_end (by omega), ?_⟩
        omega
    | cons next rest =>
        -- a chunk begins at the boundary
        have reached := skips.reached.resolve_left (List.cons_ne_nil _ _)
        have same : chunkPlace (heldChunks (earlier ++ skipped)) = boundary := by omega
        have onward : boundary < chunkPlace (heldChunks (earlier ++ skipped) ++ [next.held]) := by
          rw [chunkPlace_snoc, ← same]
          exact lt_chunkEnd _ _ _
        refine ⟨_, resyncLoop_covered chunks frame held onBoundary (Nat.le_of_eq same) onward, ?_⟩
        rw [if_pos (by omega)]
        omega

/-- Where the first chunk behind the boundary begins, the reader can go on. -/
theorem firstFrom_place (chunks : FileChunks ext projection source (heldChunks marked))
    (split : marked = earlier ++ chunk :: later) :
    ∃ skipped rest, marked = (earlier ++ skipped) ++ rest ∧ rest.length ≤ later.length ∧
      firstFrom (boundaryPast (chunkPlace (heldChunks earlier)))
          (chunk.held.chunk.stop (chunkPlace (heldChunks earlier))) later =
        chunkPlace (heldChunks (earlier ++ skipped)) ∧
      chunkPlace (heldChunks earlier) < chunkPlace (heldChunks (earlier ++ skipped)) ∧
      isPossibleChunkBoundary (chunkPlace (heldChunks (earlier ++ skipped))) = true ∧
      ∀ resume, resume = chunkPlace (heldChunks (earlier ++ skipped)) →
        remnants resume (chunk.held.chunk.stop (chunkPlace (heldChunks earlier))) later =
          remnants resume resume rest := by
  obtain ⟨skipped, rest, skips⟩ := @exists_skips
    (boundaryPast (chunkPlace (heldChunks earlier))) later (earlier ++ [chunk])
  have cut : marked = (earlier ++ chunk :: skipped) ++ rest := by
    rw [split, skips.split, List.append_assoc, List.cons_append]
  have place := skips.place
  have stays := fun resume within => @remnants_skipped resume rest skipped (earlier ++ [chunk]) within
  have snoc : earlier ++ [chunk] ++ skipped = earlier ++ chunk :: skipped := by
    rw [List.append_assoc, List.singleton_append]
  rw [chunkPlace_marked, snoc] at place stays
  have behind : chunkPlace (heldChunks earlier) <
      chunkPlace (heldChunks (earlier ++ chunk :: skipped)) :=
    Nat.lt_of_lt_of_le (lt_chunkEnd _ _ _) (stays _ (Nat.le_refl _)).2
  refine ⟨chunk :: skipped, rest, cut, ?_, place, behind,
    chunks.possible (by rw [cut, heldChunks_append]), fun resume same => ?_⟩
  · rw [skips.split, List.length_append]
    omega
  · rw [skips.split, (stays resume (Nat.le_of_eq same.symm)).1, same]

/-- Damage behind a good header costs the chunk and nothing else. -/
theorem regionAt_badData {last : Option SkippedRegion} {place stop : Nat}
    (start : regionStart last place = place) (possible : isPossibleChunkBoundary stop = true)
    (past : place < stop) (below : place < u64Max) (error : RiegeliError) :
    ∃ region, regionAt ext altered last place (some stop) error = .ok region ∧
      region.start = place ∧ region.stop = stop := by
  refine ⟨_, rfl, start, ?_⟩
  rw [start]
  exact trusted_stop possible past below

/-- Damage of a header costs everything up to where reading goes on. -/
theorem regionAt_badHeader (chunks : FileChunks ext projection source (heldChunks marked))
    (frame : SameFrame source altered) (split : marked = earlier ++ chunk :: later)
    {last : Option SkippedRegion}
    (start : regionStart last (chunkPlace (heldChunks earlier)) = chunkPlace (heldChunks earlier))
    (below : chunkPlace (heldChunks earlier) < u64Max) (error : RiegeliError) :
    ∃ region, regionAt ext altered last (chunkPlace (heldChunks earlier)) none error = .ok region ∧
      region.start = chunkPlace (heldChunks earlier) ∧
      region.stop = firstFrom (boundaryPast (chunkPlace (heldChunks earlier)))
        (chunk.held.chunk.stop (chunkPlace (heldChunks earlier))) later := by
  obtain ⟨resync, ends, extent⟩ := resync_firstFrom chunks frame split
  obtain ⟨skipped, rest, _, _, place, behind, possible, _⟩ := firstFrom_place chunks split
  have extended : regionExtent ext (initial altered ReaderOptions.new)
      (chunkPlace (heldChunks earlier)) none = .ok (chunkPlace (heldChunks (earlier ++ skipped))) := by
    rw [regionExtent_eq]
    unfold resolveBoundaryResync
    dsimp only [initial]
    rw [resyncBoundary_eq, ends]
    dsimp only
    rw [extent, place]
  unfold regionAt
  rw [start]
  dsimp only
  rw [extended, place]
  exact ⟨_, rfl, rfl, trusted_stop possible behind below⟩

/-! ## Events -/

/-- Behind a region that ends where a chunk can begin, the reader moves forward. -/
theorem forward_behind {region : SkippedRegion} {stop : Nat} (ends : region.stop = stop)
    (possible : isPossibleChunkBoundary stop = true) : Forward altered (some region) stop :=
  .boundary possible fun other same => by
    cases same
    exact Nat.le_of_eq ends

theorem recovers_end (chunks : FileChunks ext projection source (heldChunks marked))
    (frame : SameFrame source altered) (last : Option SkippedRegion) :
    RecoversTo ext altered projection last (chunkPlace (heldChunks marked)) [] := by
  refine .ended (findChunk_past ?_)
  rw [chunks.canonical (List.append_nil _).symm, frame.length, chunks.length]

/-- From the place behind `earlier` on, the events are what is left of `later`. -/
def LeftBehind (ext : Externals) (altered : Bytes) (projection : Option FieldProjection)
    (last : Option SkippedRegion) (earlier later : List MarkedChunk) : Prop :=
  ∃ events, RecoversTo ext altered projection last (chunkPlace (heldChunks earlier)) events ∧
    events.map ReadEvent.remnant =
      remnants (chunkPlace (heldChunks earlier)) (chunkPlace (heldChunks earlier)) later

/-- Of what is behind a chunk the same is left from the chunk's beginning and from
its end. -/
theorem remnants_past (chunk : Chunk) (later : List MarkedChunk) (place : Nat) :
    remnants place (chunk.stop place) later =
      remnants (chunk.stop place) (chunk.stop place) later := by
  have past : place < chunk.stop place := lt_chunkEnd _ _ _
  exact remnants_resume later (Nat.le_of_lt past) (Nat.le_refl _)

theorem remnants_spared (damage : chunk.damage = .spared) (place : Nat) :
    remnants place place (chunk :: later) =
      chunk.held.records.map (.record place) ++
        remnants (chunk.held.chunk.stop place) (chunk.held.chunk.stop place) later := by
  rw [remnants]
  dsimp only
  rw [if_neg (Nat.lt_irrefl _), remnants_past, damage]

theorem remnants_data (damage : chunk.damage = .data) (place : Nat) :
    remnants place place (chunk :: later) =
      .lost place (chunk.held.chunk.stop place) ::
        remnants (chunk.held.chunk.stop place) (chunk.held.chunk.stop place) later := by
  rw [remnants]
  dsimp only
  rw [if_neg (Nat.lt_irrefl _), remnants_past, damage]

theorem remnants_header (damage : chunk.damage = .header) {place next : Nat}
    (ends : firstFrom (boundaryPast place) (chunk.held.chunk.stop place) later = next) :
    remnants place place (chunk :: later) =
      .lost place next :: remnants next (chunk.held.chunk.stop place) later := by
  rw [remnants]
  dsimp only
  rw [if_neg (Nat.lt_irrefl _), damage]
  dsimp only
  rw [ends]

/-- A spared chunk is read, or passed where it holds no records. -/
theorem LeftBehind.spared (chunks : FileChunks ext projection source (heldChunks marked))
    (frame : SameFrame source altered) (split : marked = earlier ++ chunk :: later)
    (damage : chunk.damage = .spared)
    (shown : Damage.Shown ext altered (chunkPlace (heldChunks earlier)) chunk.held.chunk .spared)
    {last : Option SkippedRegion} (forward : Forward altered last (chunkPlace (heldChunks earlier)))
    (behind : Forward altered last (chunkPlace (heldChunks (earlier ++ [chunk]))) →
      LeftBehind ext altered projection last (earlier ++ [chunk]) later) :
    LeftBehind ext altered projection last earlier (chunk :: later) := by
  have cut := heldChunks_split split
  have same := @findChunk_spared ext projection source altered _ _ (chunks.holdsAt cut) frame shown
  rw [LeftBehind, remnants_spared damage]
  rw [LeftBehind, chunkPlace_marked] at behind
  rcases chunks.found cut with ⟨decoder, yields, found⟩ | ⟨empty, passes⟩
  · rw [chunkPlace_snoc] at found
    have stands := same.trans found
    have ahead := @Forward.onward ext altered projection last _ _ forward (by rw [stands]; rfl)
    obtain ⟨events, recovers, remain⟩ := behind ahead
    refine ⟨_, .holds stands yields recovers, ?_⟩
    rw [List.map_append, List.map_map, chunks.canonical cut, remain]
    rfl
  · rw [chunkPlace_snoc] at passes
    have stands := same.trans passes
    have ahead := @Forward.onward ext altered projection last _ _ forward (by rw [stands]; rfl)
    obtain ⟨events, recovers, remain⟩ := behind ahead
    refine ⟨_, .passes stands recovers, ?_⟩
    rw [remain, empty]
    rfl

/-- Altered data is skipped as one region. -/
theorem LeftBehind.data (chunks : FileChunks ext projection source (heldChunks marked))
    (frame : SameFrame source altered) (split : marked = earlier ++ chunk :: later)
    (damage : chunk.damage = .data)
    (shown : Damage.Shown ext altered (chunkPlace (heldChunks earlier)) chunk.held.chunk .data)
    {last : Option SkippedRegion} (forward : Forward altered last (chunkPlace (heldChunks earlier)))
    (behind : ∀ region,
      Forward altered (some region) (chunkPlace (heldChunks (earlier ++ [chunk]))) →
        LeftBehind ext altered projection (some region) (earlier ++ [chunk]) later) :
    LeftBehind ext altered projection last earlier (chunk :: later) := by
  have cut := heldChunks_split split
  have holds := chunks.holdsAt cut
  have within := holds.whole
  have addressable := chunks.addressable
  have past : chunkPlace (heldChunks earlier) <
      chunk.held.chunk.stop (chunkPlace (heldChunks earlier)) := lt_chunkEnd _ _ _
  have stands := @findChunk_badData ext projection source altered _ _ holds frame shown
  obtain ⟨region, regioned, begins, ends⟩ := @regionAt_badData ext altered last _ _ forward.start
    holds.spec.possible past (by omega) _
  have ahead := @forward_behind altered region _ ends holds.spec.possible
  rw [LeftBehind, remnants_data damage]
  rw [← chunkPlace_marked] at ahead
  obtain ⟨events, recovers, remain⟩ := behind region ahead
  rw [chunkPlace_marked, ← ends] at recovers
  rw [chunkPlace_marked] at remain
  refine ⟨_, .fails stands ?_ recovers, ?_⟩
  · unfold resumeAfter
    dsimp only
    rw [chunks.canonical cut]
    exact regioned
  · rw [List.map_cons, remain, ReadEvent.remnant, begins, ends]

/-- An altered header is skipped with all up to where reading goes on, as one
region. -/
theorem LeftBehind.header (chunks : FileChunks ext projection source (heldChunks marked))
    (frame : SameFrame source altered) (split : marked = earlier ++ chunk :: later)
    (damage : chunk.damage = .header)
    (shown : Damage.Shown ext altered (chunkPlace (heldChunks earlier)) chunk.held.chunk .header)
    {last : Option SkippedRegion} (forward : Forward altered last (chunkPlace (heldChunks earlier)))
    (behind : ∀ region skipped rest, marked = (earlier ++ skipped) ++ rest →
      rest.length ≤ later.length →
      Forward altered (some region) (chunkPlace (heldChunks (earlier ++ skipped))) →
        LeftBehind ext altered projection (some region) (earlier ++ skipped) rest) :
    LeftBehind ext altered projection last earlier (chunk :: later) := by
  have holds := chunks.holdsAt (heldChunks_split split)
  have within := holds.whole
  have addressable := chunks.addressable
  have past : chunkPlace (heldChunks earlier) <
      chunk.held.chunk.stop (chunkPlace (heldChunks earlier)) := lt_chunkEnd _ _ _
  have stands := @findChunk_badHeader ext projection source altered _ _ holds frame shown
  obtain ⟨region, regioned, begins, ends⟩ :=
    regionAt_badHeader chunks frame split forward.start (by omega) _
  obtain ⟨skipped, rest, resumed, fewer, place, _, possible, remain⟩ :=
    firstFrom_place chunks split
  rw [LeftBehind, remnants_header damage place]
  rw [place] at ends
  obtain ⟨events, recovers, same⟩ := behind region skipped rest resumed fewer
    (forward_behind ends possible)
  rw [← ends] at recovers
  refine ⟨_, .fails stands regioned recovers, ?_⟩
  rw [List.map_cons, same, remain _ rfl, ReadEvent.remnant, begins, ends]

/-- The events of a damaged file from a chunk on are its remnants. -/
theorem recovers_marked (chunks : FileChunks ext projection source (heldChunks marked))
    (damaged : Damaged ext source altered marked) : ∀ (count : Nat) {earlier later : List MarkedChunk}
      {last : Option SkippedRegion}, later.length ≤ count → marked = earlier ++ later →
      Forward altered last (chunkPlace (heldChunks earlier)) →
      LeftBehind ext altered projection last earlier later := by
  have frame := damaged.sameFrame
  intro count
  induction count with
  | zero =>
      intro earlier later last short split forward
      obtain rfl := List.eq_nil_of_length_eq_zero (Nat.le_zero.mp short)
      rw [List.append_nil] at split
      rw [LeftBehind, ← split]
      exact ⟨[], recovers_end chunks frame last, rfl⟩
  | succ count ih =>
      intro earlier later last short split forward
      cases later with
      | nil =>
          rw [List.append_nil] at split
          rw [LeftBehind, ← split]
          exact ⟨[], recovers_end chunks frame last, rfl⟩
      | cons chunk later =>
          have fits : later.length ≤ count := Nat.le_of_succ_le_succ short
          have onward : marked = (earlier ++ [chunk]) ++ later := by
            rw [split, List.append_assoc, List.singleton_append]
          have shown := damaged.shown earlier chunk later split
          cases damage : chunk.damage with
          | spared =>
              rw [damage] at shown
              exact .spared chunks frame split damage shown forward (ih fits onward)
          | data =>
              rw [damage] at shown
              exact .data chunks frame split damage shown forward fun _ => ih fits onward
          | header =>
              rw [damage] at shown
              exact .header chunks frame split damage shown forward
                fun _ _ _ resumed fewer => ih (fewer.trans fits) resumed

/-! ## Opening -/

/-- The signature is spared byte for byte. -/
theorem spared_signature (frame : SameFrame source altered)
    (holds : HoldsAt ext source 0 (signatureChunk ext))
    (shown : Damage.Shown ext altered 0 (signatureChunk ext) .spared) {pos : Nat}
    (within : pos < firstDataChunk) : altered[pos]? = source[pos]? := by
  have within : pos < 64 := within
  by_cases inside : pos < 24
  · refine frame.blockHeaders pos ?_
    unfold blockSize blockHeaderSize
    omega
  · have size : (signatureChunk ext).header.dataSize = 0 := rfl
    have place : carrierOf 0 (pos - 24) = pos := by
      unfold carrierOf bodyPlace reach place usable
      split <;> split <;> omega
    have carried : ∀ bytes : Bytes,
        carriedBytes bytes 0 0 (40 + (signatureChunk ext).header.dataSize) =
          (signatureChunk ext).payload →
        bytes.getD pos 0 = (signatureChunk ext).payload.getD (pos - 24) 0 := by
      intro bytes same
      rw [← same, carriedBytes, List.getD_eq_getElem?_getD, List.getD_eq_getElem?_getD,
        List.getElem?_map, List.getElem?_range' (by rw [size]; omega)]
      simp only [Nat.zero_add, Nat.one_mul, Option.map_some, Option.getD_some, place,
        List.getD_eq_getElem?_getD]
    have whole := holds.whole
    rw [signatureChunk_stop] at whole
    have length := frame.length
    have same := (carried altered shown).trans (carried source holds.carries).symm
    rw [List.getD_eq_getElem?_getD, List.getD_eq_getElem?_getD,
      List.getElem?_eq_getElem (by omega), List.getElem?_eq_getElem (by omega)] at same
    rw [List.getElem?_eq_getElem (by omega), List.getElem?_eq_getElem (by omega)]
    exact congrArg some same

/-- The preamble is all that opening looks at. -/
theorem validateFilePreamble_congr
    (same : ∀ pos, pos < firstDataChunk → altered[pos]? = source[pos]?) :
    validateFilePreamble ext altered = validateFilePreamble ext source := by
  have reads : ∀ pos count, pos + count ≤ 64 → readFull altered pos count = readFull source pos count := by
    intro pos count within
    apply List.ext_getElem?
    intro index
    rw [readFull, readFull, List.getElem?_take, List.getElem?_take, List.getElem?_drop,
      List.getElem?_drop]
    split
    · refine same _ ?_
      change pos + index < 64
      omega
    · rfl
  unfold validateFilePreamble
  rw [reads 0 blockHeaderSize (by decide), reads blockHeaderSize chunkHeaderSize (by decide)]

theorem Damaged.opened (chunks : FileChunks ext projection source (heldChunks marked))
    (damaged : Damaged ext source altered marked) (options : ReaderOptions) :
    RecordReader.new ext altered options = .ok (initial altered options) ∧
      ∃ head rest, marked = head :: rest ∧ head.held = (signatureChunk ext).bare ∧
        head.damage = .spared := by
  obtain ⟨rest, signed⟩ := chunks.signed
  cases marked with
  | nil => cases signed
  | cons head others =>
      obtain ⟨isSignature, others⟩ := List.cons.inj signed
      have spared := damaged.signature head _ rfl
      have shown := damaged.shown [] head _ rfl
      rw [spared, isSignature] at shown
      have holds := @FileChunks.holdsAt ext projection source _ [] _ _ chunks signed
      have same := @validateFilePreamble_congr ext source altered
        fun pos within => spared_signature damaged.sameFrame holds shown within
      refine ⟨new_valid options ?_, head, _, rfl, isSignature, spared⟩
      rw [same, chunks.source_eq, signed]
      exact validateFilePreamble_file _

/-! ## Reports -/

section Reports

variable {callback : List SkippedRegion → Bool}

/-- With a callback that always goes on, a read reports the regions in front of the
record that it returns, and all of them if there is none. -/
theorem expectedReport_reported (lenient : ∀ regions, callback regions = true) :
    ∀ (events : List ReadEvent) (reported : List SkippedRegion),
      (expectedReport callback reported events).1.reported ++
          (expectedReport callback reported events).2.filterMap ReadEvent.region? =
        reported ++ events.filterMap ReadEvent.region? ∧
      (events.filterMap ReadEvent.record? = [] → (expectedReport callback reported events).2 = []) := by
  intro events
  induction events with
  | nil => exact fun _ => ⟨rfl, fun _ => rfl⟩
  | cons event rest ih =>
      intro reported
      cases event with
      | record chunkBegin bytes => exact ⟨rfl, fun impossible => by cases impossible⟩
      | skipped region error =>
          rw [expectedReport, if_pos (lenient _)]
          obtain ⟨same, none⟩ := ih (reported ++ [region])
          refine ⟨?_, none⟩
          rw [same, List.append_assoc]
          rfl

/-- Once the records are read all regions have been reported. -/
theorem expectedReports_reported (lenient : ∀ regions, callback regions = true) (count : Nat) :
    ∀ {events : List ReadEvent} {reported : List SkippedRegion} {last : ReadReport},
      (events.filterMap ReadEvent.record?).length < count →
      (expectedReports callback count reported events).getLast? = some last →
        last.reported = reported ++ events.filterMap ReadEvent.region? := by
  induction count with
  | zero => exact fun impossible => absurd impossible (Nat.not_lt_zero _)
  | succ count ih =>
      intro events reported last more ends
      obtain ⟨same, none⟩ := expectedReport_reported lenient events reported
      obtain ⟨_, fewer⟩ := expectedReport_lenient lenient events reported
      rw [expectedReports] at ends
      cases count with
      | zero =>
          have empty := List.eq_nil_of_length_eq_zero (Nat.lt_one_iff.mp more)
          rw [none empty, List.filterMap_nil, List.append_nil] at same
          rw [← same]
          cases ends
          rfl
      | succ count =>
          have ends := (List.getLast?_cons_cons ..).symm.trans ends
          rw [← same]
          cases read : events.filterMap ReadEvent.record? with
          | nil =>
              refine ih ?_ ends
              rw [none read]
              exact Nat.succ_pos _
          | cons record records =>
              refine ih ?_ ends
              rw [fewer, read, List.tail_cons]
              rw [read, List.length_cons] at more
              omega

end Reports

/-- The results of so many reads, as they are listed for a reader of records. -/
theorem readsOf_eq (records : List Bytes) : ∀ count : Nat,
    (((records.map some ++ List.replicate count none).take count).map Except.ok) =
      readsOf records count := by
  intro count
  apply List.ext_getElem?
  intro index
  unfold readsOf
  by_cases within : index < count
  · rw [List.getElem?_map, List.getElem?_map, List.getElem?_range within, List.getElem?_take,
      if_pos within]
    by_cases held : index < records.length
    · rw [List.getElem?_append_left (by rw [List.length_map]; exact held), List.getElem?_map,
        List.getElem?_eq_getElem held]
      simp only [Option.map_some, List.getElem?_eq_getElem held]
    · have past := Nat.not_lt.mp held
      rw [List.getElem?_append_right (by rw [List.length_map]; exact past), List.length_map,
        List.getElem?_replicate, if_pos (by omega)]
      simp only [Option.map_some, List.getElem?_eq_none past]
  · rw [List.getElem?_eq_none (by simp; omega), List.getElem?_eq_none (by simp; omega)]

/-- What of the events a caller can tell. -/
theorem remnant_records (events : List ReadEvent) :
    (events.map ReadEvent.remnant).filterMap Remnant.record? = events.filterMap ReadEvent.record? := by
  rw [List.filterMap_map]
  refine List.filterMap_congr fun event _ => ?_
  cases event <;> rfl

theorem remnant_spans (events : List ReadEvent) :
    (events.map ReadEvent.remnant).filterMap Remnant.span? =
      (events.filterMap ReadEvent.region?).map fun region => (region.start, region.stop) := by
  rw [List.filterMap_map, List.map_filterMap]
  refine List.filterMap_congr fun event _ => ?_
  cases event <;> rfl

/-! ## The limits of damage -/

/-- A reader opened on a damaged file meets its remnants. -/
theorem Damaged.meets {options : ReaderOptions}
    (chunks : FileChunks ext options.fieldProjection source (heldChunks marked))
    (damaged : Damaged ext source altered marked) :
    ∃ events, events.map ReadEvent.remnant = remnants 0 0 marked ∧
      RecoversTotally ext (initial altered options) events := by
  have addressable : altered.length ≤ u64Max := by
    rw [damaged.length]
    exact chunks.addressable
  obtain ⟨_, head, rest, rfl, isSignature, spared⟩ := damaged.opened chunks options
  have place : chunkPlace (heldChunks [head]) = firstDataChunk := by
    rw [heldChunks, List.map_cons, isSignature]
    change (signatureChunk ext).stop 0 = _
    rw [signatureChunk_stop]
    rfl
  have stop : head.held.chunk.stop 0 = firstDataChunk := place
  have forward := (initial_poised altered options).forward
  obtain ⟨events, recovers, remain⟩ := @recovers_marked ext _ source altered (head :: rest) chunks
    damaged rest.length [head] rest none (Nat.le_refl _) rfl (by rw [place]; exact forward)
  rw [place] at recovers
  refine ⟨events, ?_, @RecoversTo.totally ext (initial altered options) events addressable
    (initial_poised altered options) recovers⟩
  rw [remain, place, remnants]
  dsimp only
  rw [if_neg (Nat.lt_irrefl _), spared, stop, isSignature]
  exact remnants_resume rest (Nat.le_refl _) (Nat.zero_le _)

/-- With a callback that always goes on it gets the records among them and reports
the spans. -/
theorem Damaged.readsAround {options : ReaderOptions}
    (chunks : FileChunks ext options.fieldProjection source (heldChunks marked))
    (damaged : Damaged ext source altered marked) :
    ReadsAround ext altered options ((remnants 0 0 marked).filterMap Remnant.record?)
      ((remnants 0 0 marked).filterMap Remnant.span?) := by
  obtain ⟨events, same, totally⟩ := damaged.meets chunks
  refine fun callback lenient => ⟨_, (damaged.opened chunks _).1, fun count => ⟨?_, ?_⟩⟩
  · rw [← same, remnant_records, ← readsOf_eq]
    exact totally.lenient callback lenient count
  · intro last more ends
    rw [← same, remnant_records] at more
    have follows := totally.follows callback count
    change reports ext count (initial altered { options with recovery := some callback }) = _ at follows
    rw [follows] at ends
    rw [← same, remnant_spans, expectedReports_reported lenient count more ends]
    rfl

/-- Recovery loses only what is damaged.  However many chunks of a file have been
altered between its block headers, a reader gets the records of all that are spared
and lie behind where it goes on, and reports one region for each damage it meets. -/
theorem damage_limited {options : ReaderOptions}
    (chunks : FileChunks ext options.fieldProjection source (heldChunks marked))
    (damaged : Damaged ext source altered marked) :
    Salvages ext altered options (remnants 0 0 marked) := by
  obtain ⟨events, same, totally⟩ := damaged.meets chunks
  exact ⟨⟨_, events, (damaged.opened chunks options).1, rfl, same, totally⟩,
    damaged.readsAround chunks⟩

/-! ### A file with an altered byte -/

/-- A hash that adds the bytes up. -/
def summingExternals : Externals :=
  { storingExternals with hash := fun bytes => bytes.foldr (fun byte sum => sum + byte.toUInt64) 0 }

/-- A simple chunk of one record of one byte. -/
def shortChunk (byte : UInt8) : Chunk :=
  { header := ChunkHeader.fromParts summingExternals [0, 1, 1, byte] .simple 1 1
    data := [0, 1, 1, byte] }

/-- A file of two such chunks, the data of the first altered. -/
def alteredChunks : List MarkedChunk :=
  [{ held := (signatureChunk summingExternals).bare, damage := .spared },
    { held := { chunk := shortChunk 7, records := [[7]] }, damage := .data },
    { held := { chunk := shortChunk 9, records := [[9]] }, damage := .spared }]

/-- Its bytes before. -/
def shortBytes : Bytes :=
  fileBytes summingExternals 0 [signatureChunk summingExternals, shortChunk 7, shortChunk 9]

theorem shortChunk_made (byte : UInt8) : MadeChunk summingExternals (shortChunk byte) :=
  .ofParts rfl (show 4 ≤ u64Max by decide) (show 1 ≤ u64Max by decide) fun _ => rfl

theorem summingExternals_lawful : summingExternals.Lawful :=
  ⟨storingExternals_lawful.decompress_compress⟩

theorem shortChunk_opens {byte : UInt8} (encoded : SimpleChunkEncoder.encode summingExternals
    { records := [[byte]], compression := .none, compressOpts := .default } =
      .ok (shortChunk byte)) : Opens summingExternals none (shortChunk byte) [[byte]] :=
  SimpleChunkEncoder.encode_opens summingExternals_lawful encoded
    (show 1 < 2 ^ 56 by decide) (show 1 ≤ u64Max by decide) (show 4 ≤ u64Max by decide) none

theorem alteredChunks_file :
    FileChunks summingExternals none shortBytes (heldChunks alteredChunks) where
  source_eq := rfl
  made := by
    intro chunk member
    rcases List.mem_cons.mp member with rfl | member
    · exact signatureChunk_made
    rcases List.mem_cons.mp member with rfl | member
    · exact shortChunk_made 7
    · obtain rfl := List.mem_singleton.mp member
      exact shortChunk_made 9
  opens := by
    intro chunk member
    rcases List.mem_cons.mp member with rfl | member
    · exact signatureChunk_opens none
    rcases List.mem_cons.mp member with rfl | member
    · exact shortChunk_opens rfl
    · obtain rfl := List.mem_singleton.mp member
      exact shortChunk_opens rfl
  placed :=
    ⟨rfl, chunkEnd_spec (by decide) (by decide), rfl, chunkEnd_spec (by decide) (by decide), rfl,
      chunkEnd_spec (by decide) (by decide), trivial⟩
  within := by decide
  signed := ⟨_, rfl⟩

theorem alteredChunks_damaged :
    Damaged summingExternals shortBytes (shortBytes.set 107 8) alteredChunks where
  length := List.length_set
  blockHeaders := by
    intro pos inside
    refine List.getElem?_set_ne ?_
    rintro rfl
    exact absurd inside (by decide)
  signature := by
    intro head rest same
    cases same
    rfl
  shown := by
    intro earlier chunk later same
    rcases earlier with _ | ⟨_, _ | ⟨_, _ | ⟨_, earlier⟩⟩⟩
    · cases same
      decide
    · cases same
      decide
    · cases same
      decide
    · cases earlier <;> cases same

/-- One altered byte of data costs the record of its chunk, and no other. -/
theorem damage_limited_altered_byte :
    Salvages summingExternals (shortBytes.set 107 8) ReaderOptions.new
      [.lost 64 108, .record 108 [9]] :=
  @damage_limited summingExternals _ _ _ ReaderOptions.new alteredChunks_file alteredChunks_damaged

end Riegeli
