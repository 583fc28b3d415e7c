/-
Module: Riegeli.Proofs.ChunkScan
Purpose: What the reader's header and data loops find where a source shows
  the bytes of a chunk, however much of it is there.
Trusted boundary: the hash
Main exports: Shows, headerStop, dataStop, HeaderScan.Finds,
  readHeaderBytes_whole, readHeaderBytes_absent, readHeaderBytes_cut,
  readChunkData_whole, readChunkData_cut
-/
import Riegeli.Core.ChunkReading
import Riegeli.Spec.FileFormat

namespace Riegeli

variable (ext : Externals)

/-- As far as the source goes, it shows the chunk's bytes before `upTo`. -/
def Shows (source : Bytes) (chunkBegin stop : Nat) (payload : Bytes) (upTo : Nat) : Prop :=
  ∀ pos, chunkBegin ≤ pos → pos < upTo → pos < source.length →
    source[pos]? = some (fileByte ext chunkBegin stop payload pos)

/-- The place after `count` bytes of the payload. -/
def reach (chunkBegin count : Nat) : Nat :=
  if count = 0 then chunkBegin else place (usable chunkBegin + count)

/-- Where the header of a chunk ends. -/
def headerStop (chunkBegin : Nat) : Nat := reach chunkBegin 40

/-- Where the data of a chunk ends. -/
def dataStop (chunkBegin dataSize : Nat) : Nat := reach chunkBegin (40 + dataSize)

variable {ext} {source : Bytes} {chunkBegin stop : Nat} {payload : Bytes} {upTo : Nat}

/-! ## Places in a chunk -/

theorem le_reach (chunkBegin count : Nat) : chunkBegin + count ≤ reach chunkBegin count := by
  unfold reach place usable
  split <;> omega

theorem reach_mono {first second : Nat} (ordered : first ≤ second) :
    reach chunkBegin first ≤ reach chunkBegin second := by
  unfold reach place usable
  split <;> split <;> omega

/-- The place where the bytes after `count` start, past a block header. -/
def bodyPlace (pos : Nat) : Nat := if pos % 65536 = 0 then pos + 24 else pos

theorem bodyPlace_outside (possible : isPossibleChunkBoundary chunkBegin = true) (count : Nat) :
    24 ≤ bodyPlace (reach chunkBegin count) % 65536 := by
  rw [isPossibleChunkBoundary_iff] at possible
  unfold bodyPlace reach place usable
  split <;> split <;> omega

theorem usable_bodyPlace (chunkBegin count : Nat) :
    usable (bodyPlace (reach chunkBegin count)) = usable chunkBegin + count := by
  unfold bodyPlace reach place usable
  split <;> split <;> omega

/-- One run of bytes up to the next boundary. -/
theorem bodyPlace_add_eq_reach {count step : Nat}
    (possible : isPossibleChunkBoundary chunkBegin = true) (some : 0 < step)
    (inBlock : step ≤ 65536 - bodyPlace (reach chunkBegin count) % 65536) :
    bodyPlace (reach chunkBegin count) + step = reach chunkBegin (count + step) := by
  have outside := bodyPlace_outside possible count
  have moved := usable_add_step outside inBlock
  have reached : isPossibleChunkBoundary (bodyPlace (reach chunkBegin count) + step) = true := by
    rw [isPossibleChunkBoundary_iff]
    omega
  calc
    bodyPlace (reach chunkBegin count) + step
      = place (usable (bodyPlace (reach chunkBegin count) + step)) :=
        (place_usable reached (by omega)).symm
    _ = place (usable chunkBegin + (count + step)) := by
        rw [moved, usable_bodyPlace, Nat.add_assoc]
    _ = reach chunkBegin (count + step) := by rw [reach, if_neg (by omega)]

/-! ## Reads from a shown chunk -/

theorem Shows.readFull (shows : Shows ext source chunkBegin stop payload upTo) {pos count : Nat}
    (after : chunkBegin ≤ pos) (before : pos + count ≤ upTo) :
    readFull source pos count =
      spanBytes ext chunkBegin stop payload pos (min count (source.length - pos)) := by
  apply List.ext_getElem?
  intro index
  rcases Nat.lt_or_ge index (min count (source.length - pos)) with inside | past
  · have shown := shows (pos + index) (by omega) (by omega) (by omega)
    rw [getElem?_spanBytes inside, ← shown, Riegeli.readFull,
      List.getElem?_take_of_lt (by omega), List.getElem?_drop]
  · have tooFew : (Riegeli.readFull source pos count).length ≤ index := by
      simp only [Riegeli.readFull, List.length_take, List.length_drop]
      omega
    rw [List.getElem?_eq_none tooFew, List.getElem?_eq_none (by simpa using past)]

/-- A shorter stretch of the chunk is shown too. -/
theorem Shows.mono (shows : Shows ext source chunkBegin stop payload upTo) {less : Nat}
    (shorter : less ≤ upTo) : Shows ext source chunkBegin stop payload less :=
  fun pos after before inside => shows pos after (by omega) inside

/-- What is read at a boundary of the chunk. -/
theorem Shows.readBlockHeader (shows : Shows ext source chunkBegin stop payload upTo) {pos : Nat}
    (after : chunkBegin ≤ pos) (before : pos + 24 ≤ upTo) (visible : pos + 24 ≤ source.length)
    (boundary : pos % 65536 = 0) :
    Riegeli.readFull source pos 24 =
      (BlockHeader.fromParts ext (pos - chunkBegin) (stop - pos)).toBytes := by
  rw [shows.readFull after before, Nat.min_eq_left (by omega), spanBytes_header boundary]

/-- What is read from the payload inside one block. -/
theorem Shows.readBody (shows : Shows ext source chunkBegin stop payload upTo)
    (possible : isPossibleChunkBoundary chunkBegin = true) {count step : Nat}
    (inBlock : step ≤ 65536 - bodyPlace (reach chunkBegin count) % 65536)
    (before : bodyPlace (reach chunkBegin count) + step ≤ upTo)
    (visible : bodyPlace (reach chunkBegin count) + step ≤ source.length)
    (carried : count + step ≤ payload.length) :
    Riegeli.readFull source (bodyPlace (reach chunkBegin count)) step =
      (payload.drop count).take step := by
  have counted := usable_bodyPlace chunkBegin count
  have ahead := le_reach chunkBegin count
  have after : chunkBegin ≤ bodyPlace (reach chunkBegin count) := by
    unfold bodyPlace
    split <;> omega
  rw [shows.readFull after before, Nat.min_eq_left (by omega),
    spanBytes_data (bodyPlace_outside possible count) inBlock after (by omega), counted,
    Nat.add_sub_cancel_left]

/-- How many bytes there are to read at a place of the chunk. -/
theorem Shows.length_readFull (shows : Shows ext source chunkBegin stop payload upTo)
    {pos count : Nat} (after : chunkBegin ≤ pos) (before : pos + count ≤ upTo) :
    (Riegeli.readFull source pos count).length = min count (source.length - pos) := by
  rw [shows.readFull after before, length_spanBytes]

/-! ## The header loop -/

/-- The scan has read the first `count` bytes of the payload.  A block header
it met inside them points to the chunk's end. -/
structure HeaderScan.Has (chunkBegin stop : Nat) (payload : Bytes) (scan : HeaderScan)
    (count : Nat) : Prop where
  bytes : scan.bytes = payload.take count
  filePos : scan.filePos = reach chunkBegin count
  consumedAny : scan.consumedAny = decide (0 < count)
  interior : ∀ pos header, scan.interiorBlockHeader = some (pos, header) →
    pos ≤ stop ∧ header.nextChunk = stop - pos

/-- The chunk's header lies before its end, and positions fit. -/
structure Standing (chunkBegin stop : Nat) (payload : Bytes) : Prop where
  possible : isPossibleChunkBoundary chunkBegin = true
  header : 40 ≤ payload.length
  room : reach chunkBegin payload.length ≤ stop
  within : stop ≤ u64Max

/-- The bytes that one pass reads after `count` of them. -/
def passStep (chunkBegin count : Nat) : Nat :=
  min (40 - count) (65536 - bodyPlace (reach chunkBegin count) % 65536)

theorem passStep_pos {count : Nat} (more : count < 40) : 0 < passStep chunkBegin count := by
  unfold passStep
  omega

theorem passStep_le (chunkBegin count : Nat) : passStep chunkBegin count ≤ 40 - count :=
  Nat.min_le_left _ _

theorem passStep_reach (possible : isPossibleChunkBoundary chunkBegin = true) {count : Nat}
    (more : count < 40) :
    bodyPlace (reach chunkBegin count) + passStep chunkBegin count =
      reach chunkBegin (count + passStep chunkBegin count) :=
  bodyPlace_add_eq_reach possible (passStep_pos more) (Nat.min_le_right _ _)

/-- The block header of a pass, when all of it is there. -/
theorem scanBlockHeader_whole (standing : Standing chunkBegin stop payload)
    (shows : Shows ext source chunkBegin stop payload stop) {scan : HeaderScan} {count : Nat}
    (has : scan.Has chunkBegin stop payload count) (more : count < 40)
    (visible : bodyPlace (reach chunkBegin count) ≤ source.length) :
    ∃ next, scanBlockHeader ext source chunkBegin scan = .ok (some next) ∧
      next.filePos = bodyPlace (reach chunkBegin count) ∧ next.bytes = scan.bytes ∧
      (next.consumedAny = true ∨
        next.consumedAny = scan.consumedAny ∧
          bodyPlace (reach chunkBegin count) = reach chunkBegin count) ∧
      ∀ pos header, next.interiorBlockHeader = some (pos, header) →
        pos ≤ stop ∧ header.nextChunk = stop - pos := by
  have ahead := le_reach chunkBegin count
  have stepped := passStep_reach standing.possible more
  have inside : reach chunkBegin (count + passStep chunkBegin count) ≤ stop :=
    Nat.le_trans (reach_mono (by have := passStep_le chunkBegin count; have := standing.header; omega))
      standing.room
  have within := standing.within
  unfold scanBlockHeader
  rw [has.filePos]
  by_cases boundary : reach chunkBegin count % 65536 = 0
  · have placed : bodyPlace (reach chunkBegin count) = reach chunkBegin count + 24 :=
      if_pos boundary
    have read := shows.readBlockHeader (by omega) (by omega) (by omega) boundary
    have parsed := @BlockHeader.fromBytes_fromParts ext (reach chunkBegin count - chunkBegin)
      (stop - reach chunkBegin count) (by omega) (by omega)
    have valid := @BlockHeader.fromParts_isValid ext (reach chunkBegin count - chunkBegin)
      (stop - reach chunkBegin count)
    have back : checkedSub (reach chunkBegin count) (reach chunkBegin count - chunkBegin) =
        some chunkBegin := checkedSub_eq_some.mpr ⟨by omega, by omega⟩
    rw [if_pos (isBlockBoundary_iff.mpr boundary)]
    simp only [blockHeaderSize, read, BlockHeader.length_toBytes, parsed, valid]
    rw [if_neg (by decide), if_neg (by decide), if_neg (by simpa [BlockHeader.fromParts] using back)]
    refine ⟨_, rfl, placed.symm, rfl, Or.inl rfl, ?_⟩
    intro pos header found
    simp only at found
    split at found
    · cases found
      exact ⟨by omega, rfl⟩
    · exact has.interior pos header found
  · have placed : bodyPlace (reach chunkBegin count) = reach chunkBegin count :=
      if_neg boundary
    rw [if_neg (by simpa [isBlockBoundary_iff] using boundary)]
    exact ⟨scan, rfl, by rw [placed, has.filePos], rfl, Or.inr ⟨rfl, placed⟩, has.interior⟩

/-- One pass over bytes that are all there. -/
theorem headerPass_whole (standing : Standing chunkBegin stop payload)
    (shows : Shows ext source chunkBegin stop payload stop) {scan : HeaderScan} {count : Nat}
    (has : scan.Has chunkBegin stop payload count) (more : count < 40)
    (visible : reach chunkBegin (count + passStep chunkBegin count) ≤ source.length) :
    ∃ middle next, scanBlockHeader ext source chunkBegin scan = .ok (some middle) ∧
      scanHeaderBytes source chunkBegin middle = .ok (some next) ∧
      next.Has chunkBegin stop payload (count + passStep chunkBegin count) := by
  have stepped := passStep_reach standing.possible more
  have positive := @passStep_pos chunkBegin _ more
  have short := passStep_le chunkBegin count
  have header := standing.header
  have inside : reach chunkBegin (count + passStep chunkBegin count) ≤ stop :=
    Nat.le_trans (reach_mono (by omega)) standing.room
  obtain ⟨middle, scanned, filePos, bytes, _, interior⟩ :=
    scanBlockHeader_whole standing shows has more (by omega)
  have read : readFull source (bodyPlace (reach chunkBegin count)) (passStep chunkBegin count) =
      (payload.drop count).take (passStep chunkBegin count) :=
    shows.readBody standing.possible (Nat.min_le_right _ _) (stepped ▸ inside)
      (stepped ▸ visible) (by omega)
  have length : middle.bytes.length = count := by
    rw [bytes, has.bytes, List.length_take]
    omega
  have step : min (chunkHeaderSize - middle.bytes.length) (blockSize - middle.filePos % blockSize)
      = passStep chunkBegin count := by
    rw [length, filePos]
    rfl
  refine ⟨middle,
    { middle with
      filePos := bodyPlace (reach chunkBegin count) + passStep chunkBegin count
      bytes := middle.bytes ++ (payload.drop count).take (passStep chunkBegin count)
      consumedAny := true }, scanned, ?_, ?_⟩
  · have enough : ¬ ((payload.drop count).take (passStep chunkBegin count)).length <
        passStep chunkBegin count := by
      simp only [List.length_take, List.length_drop]
      omega
    unfold scanHeaderBytes
    simp only [step]
    rw [filePos, read, if_neg enough]
  · constructor
    · simp only [bytes, has.bytes]
      exact List.take_add.symm
    · exact stepped
    · simp only [show 0 < count + passStep chunkBegin count by omega, decide_true]
    · exact interior

/-- One pass at the very end of the source. -/
theorem headerPass_absent (absent : source.length ≤ chunkBegin) {scan : HeaderScan}
    (has : scan.Has chunkBegin stop payload 0) :
    scanBlockHeader ext source chunkBegin scan = .ok none ∨
      ∃ middle, scanBlockHeader ext source chunkBegin scan = .ok (some middle) ∧
        scanHeaderBytes source chunkBegin middle = .ok none := by
  have filePos : scan.filePos = chunkBegin := has.filePos
  have untouched : scan.consumedAny = false := has.consumedAny
  have nothing : ∀ count, readFull source chunkBegin count = [] := by
    intro count
    rw [readFull, List.drop_of_length_le absent, List.take_nil]
  unfold scanBlockHeader
  rw [filePos, untouched, nothing]
  by_cases boundary : isBlockBoundary chunkBegin = true
  · left
    rw [if_pos boundary]
    rfl
  · right
    refine ⟨scan, by rw [if_neg boundary], ?_⟩
    have empty : scan.bytes = [] := has.bytes
    unfold scanHeaderBytes
    rw [filePos, untouched, empty]
    simp only [nothing]
    have some : 0 < blockSize - chunkBegin % blockSize := by
      have := Nat.mod_lt chunkBegin (show 0 < blockSize by decide)
      omega
    have reads : 0 < min chunkHeaderSize (blockSize - chunkBegin % blockSize) := by
      unfold chunkHeaderSize
      omega
    simp only [List.length_nil, Nat.sub_zero]
    rw [if_pos reads, if_pos ⟨trivial, trivial⟩]

theorem scanHeaderBytes_cut (standing : Standing chunkBegin stop payload)
    (shows : Shows ext source chunkBegin stop payload stop) {scan : HeaderScan} {count : Nat}
    (filePos : scan.filePos = bodyPlace (reach chunkBegin count))
    (length : scan.bytes.length = count) (more : count < 40)
    (begun : scan.consumedAny = true ∨ bodyPlace (reach chunkBegin count) < source.length)
    (cut : source.length < reach chunkBegin (count + passStep chunkBegin count)) :
    scanHeaderBytes source chunkBegin scan = .error (truncatedChunk chunkBegin) := by
  have stepped := passStep_reach standing.possible more
  have positive := @passStep_pos chunkBegin _ more
  have short := passStep_le chunkBegin count
  have header := standing.header
  have ahead := le_reach chunkBegin count
  have after : chunkBegin ≤ bodyPlace (reach chunkBegin count) := by
    unfold bodyPlace
    split <;> omega
  have inside : reach chunkBegin (count + passStep chunkBegin count) ≤ stop :=
    Nat.le_trans (reach_mono (by omega)) standing.room
  have step : min (chunkHeaderSize - scan.bytes.length) (blockSize - scan.filePos % blockSize)
      = passStep chunkBegin count := by
    rw [length, filePos]
    rfl
  have read := shows.length_readFull after (stepped ▸ inside)
  unfold scanHeaderBytes
  simp only [step]
  rw [filePos, if_pos (by omega), if_neg]
  rintro ⟨none, untouched⟩
  rcases begun with consumed | before
  · simp [consumed] at untouched
  · omega

/-- One pass that runs into the end of the source. -/
theorem headerPass_cut (standing : Standing chunkBegin stop payload)
    (shows : Shows ext source chunkBegin stop payload stop) {scan : HeaderScan} {count : Nat}
    (has : scan.Has chunkBegin stop payload count) (more : count < 40)
    (begun : 0 < count ∨ chunkBegin < source.length)
    (cut : source.length < reach chunkBegin (count + passStep chunkBegin count)) :
    scanBlockHeader ext source chunkBegin scan = .error (truncatedChunk chunkBegin) ∨
      ∃ middle, scanBlockHeader ext source chunkBegin scan = .ok (some middle) ∧
        scanHeaderBytes source chunkBegin middle = .error (truncatedChunk chunkBegin) := by
  have header := standing.header
  have ahead := le_reach chunkBegin count
  have length : scan.bytes.length = count := by
    rw [has.bytes, List.length_take]
    omega
  have started : scan.consumedAny = true ∨ reach chunkBegin count < source.length := by
    rcases Nat.eq_zero_or_pos count with rfl | positive
    · right
      exact begun.resolve_left (Nat.lt_irrefl 0)
    · left
      rw [has.consumedAny, decide_eq_true positive]
  by_cases boundary : reach chunkBegin count % 65536 = 0
  · have placed : bodyPlace (reach chunkBegin count) = reach chunkBegin count + 24 :=
      if_pos boundary
    rcases Nat.lt_or_ge source.length (bodyPlace (reach chunkBegin count)) with inHeader | after
    · left
      have stepped := passStep_reach standing.possible more
      have short := passStep_le chunkBegin count
      have inside : reach chunkBegin (count + passStep chunkBegin count) ≤ stop :=
        Nat.le_trans (reach_mono (by omega)) standing.room
      have read := @Shows.length_readFull ext source chunkBegin stop payload stop shows
        (reach chunkBegin count) 24 (by omega) (by omega)
      have tooShort : (readFull source (reach chunkBegin count) 24).length < 24 := by omega
      unfold scanBlockHeader
      rw [has.filePos, if_pos (isBlockBoundary_iff.mpr boundary)]
      refine (if_pos tooShort).trans (if_neg ?_)
      rintro ⟨none, untouched⟩
      simp only [blockHeaderSize] at none
      rcases started with consumed | before
      · simp [consumed] at untouched
      · omega
    · right
      obtain ⟨middle, scanned, filePos, bytes, consumed, _⟩ :=
        scanBlockHeader_whole standing shows has more after
      refine ⟨middle, scanned, scanHeaderBytes_cut standing shows filePos (by rw [bytes, length])
        more (Or.inl ?_) cut⟩
      rcases consumed with consumed | ⟨_, same⟩
      · exact consumed
      · omega
  · right
    have placed : bodyPlace (reach chunkBegin count) = reach chunkBegin count :=
      if_neg boundary
    refine ⟨scan, ?_, scanHeaderBytes_cut standing shows (by rw [has.filePos, placed]) length
      more (by rwa [placed]) cut⟩
    unfold scanBlockHeader
    rw [has.filePos, if_neg (by simpa [isBlockBoundary_iff] using boundary)]

theorem HeaderScan.Has.length {scan : HeaderScan} {count : Nat}
    (has : scan.Has chunkBegin stop payload count) (within : count ≤ payload.length) :
    scan.bytes.length = count := by
  rw [has.bytes, List.length_take]
  omega

/-- The loop reads the whole header when all of it is there.  The induction is
on the passes left, each of which reads at least a byte. -/
theorem headerLoop_whole (standing : Standing chunkBegin stop payload)
    (shows : Shows ext source chunkBegin stop payload stop)
    (visible : headerStop chunkBegin ≤ source.length) (fuel : Nat) :
    ∀ (scan : HeaderScan) (count : Nat), scan.Has chunkBegin stop payload count → count ≤ 40 →
      40 < fuel + count →
      ∃ final, headerLoop ext source chunkBegin fuel scan = .ok (some final) ∧
        final.Has chunkBegin stop payload 40 := by
  have header := standing.header
  induction fuel with
  | zero => intro scan count _ _ enough; omega
  | succ fuel ih =>
      intro scan count has small enough
      have length := has.length (by omega)
      rw [headerLoop, length]
      rcases Nat.lt_or_ge count 40 with more | done
      · have short := passStep_le chunkBegin count
        have positive := @passStep_pos chunkBegin _ more
        have before : reach chunkBegin (count + passStep chunkBegin count) ≤ source.length :=
          Nat.le_trans (reach_mono (by omega)) visible
        obtain ⟨middle, next, scanned, advanced, hasNext⟩ :=
          headerPass_whole standing shows has more before
        obtain ⟨final, ran, hasFinal⟩ := ih next _ hasNext (by omega) (by omega)
        refine ⟨final, ?_, hasFinal⟩
        rw [if_pos (by exact more), scanned, Except.ok_bind]
        simp only [advanced, Except.ok_bind]
        exact ran
      · have all : count = 40 := by omega
        subst all
        exact ⟨scan, if_neg (by decide), has⟩

/-- The loop refuses a header that is there only in part. -/
theorem headerLoop_cut (standing : Standing chunkBegin stop payload)
    (shows : Shows ext source chunkBegin stop payload stop)
    (cut : source.length < headerStop chunkBegin) (fuel : Nat) :
    ∀ (scan : HeaderScan) (count : Nat), scan.Has chunkBegin stop payload count → count < 40 →
      40 < fuel + count → 0 < count ∨ chunkBegin < source.length →
      headerLoop ext source chunkBegin fuel scan = .error (truncatedChunk chunkBegin) := by
  have header := standing.header
  induction fuel with
  | zero => intro scan count _ _ enough; omega
  | succ fuel ih =>
      intro scan count has more enough begun
      have length := has.length (by omega)
      have short := passStep_le chunkBegin count
      have positive := @passStep_pos chunkBegin _ more
      rw [headerLoop, length, if_pos (by exact more)]
      rcases Nat.lt_or_ge source.length (reach chunkBegin (count + passStep chunkBegin count))
        with passCut | before
      · rcases headerPass_cut standing shows has more begun passCut with
          failed | ⟨middle, scanned, failed⟩
        · rw [failed, Except.error_bind]
        · rw [scanned, Except.ok_bind]
          simp only [failed, Except.error_bind]
      · obtain ⟨middle, next, scanned, advanced, hasNext⟩ :=
          headerPass_whole standing shows has more before
        have notAll : count + passStep chunkBegin count ≠ 40 := by
          intro all
          rw [all] at before
          exact absurd cut (Nat.not_lt.mpr before)
        rw [scanned, Except.ok_bind]
        simp only [advanced, Except.ok_bind]
        exact ih next _ hasNext (by omega) (by omega) (Or.inl (by omega))

theorem startScan_has (chunkBegin stop : Nat) (payload : Bytes) :
    HeaderScan.Has chunkBegin stop payload
      { filePos := chunkBegin, bytes := [], consumedAny := false, interiorBlockHeader := none }
      0 where
  bytes := rfl
  filePos := rfl
  consumedAny := rfl
  interior := by intro pos header found; simp at found

/-- What a reader finds in the bytes of a whole header. -/
theorem readHeaderBytes_whole (standing : Standing chunkBegin stop payload)
    (shows : Shows ext source chunkBegin stop payload stop)
    (visible : headerStop chunkBegin ≤ source.length) :
    ∃ scan, readHeaderBytes ext source chunkBegin = .ok (some scan) ∧
      scan.Has chunkBegin stop payload 40 :=
  headerLoop_whole standing shows visible _ _ 0 (startScan_has chunkBegin stop payload)
    (by decide) (by decide)

/-- A header of which only a part is there. -/
theorem readHeaderBytes_cut (standing : Standing chunkBegin stop payload)
    (shows : Shows ext source chunkBegin stop payload stop) (begun : chunkBegin < source.length)
    (cut : source.length < headerStop chunkBegin) :
    readHeaderBytes ext source chunkBegin = .error (truncatedChunk chunkBegin) :=
  headerLoop_cut standing shows cut _ _ 0 (startScan_has chunkBegin stop payload) (by decide)
    (by decide) (Or.inr begun)

/-- Past the end of the source there is no header. -/
theorem readHeaderBytes_absent (absent : source.length ≤ chunkBegin) :
    readHeaderBytes ext source chunkBegin = .ok none := by
  rw [readHeaderBytes, headerLoop, if_pos (by simp [chunkHeaderSize])]
  rcases headerPass_absent absent (startScan_has chunkBegin 0 []) with
    scanned | ⟨middle, scanned, advanced⟩
  · rw [scanned, Except.ok_bind]
  · rw [scanned, Except.ok_bind]
    simp only [advanced, Except.ok_bind]

/-! ## The data loop -/

/-- The block header of a boundary inside the data, when it is there. -/
theorem passBlockHeader_whole (standing : Standing chunkBegin stop payload)
    (shows : Shows ext source chunkBegin stop payload stop) {count : Nat}
    (more : bodyPlace (reach chunkBegin count) ≤ stop)
    (visible : bodyPlace (reach chunkBegin count) ≤ source.length) :
    passBlockHeader ext source chunkBegin stop (reach chunkBegin count) =
      .ok (bodyPlace (reach chunkBegin count)) := by
  have ahead := le_reach chunkBegin count
  have within := standing.within
  unfold passBlockHeader
  by_cases boundary : reach chunkBegin count % 65536 = 0
  · have placed : bodyPlace (reach chunkBegin count) = reach chunkBegin count + 24 :=
      if_pos boundary
    have read := shows.readBlockHeader (by omega) (by omega) (by omega) boundary
    have parsed := @BlockHeader.fromBytes_fromParts ext (reach chunkBegin count - chunkBegin)
      (stop - reach chunkBegin count) (by omega) (by omega)
    have valid := @BlockHeader.fromParts_isValid ext (reach chunkBegin count - chunkBegin)
      (stop - reach chunkBegin count)
    have back : checkedSub (reach chunkBegin count) (reach chunkBegin count - chunkBegin) =
        some chunkBegin := checkedSub_eq_some.mpr ⟨by omega, by omega⟩
    have forth : checkedAdd (reach chunkBegin count) (stop - reach chunkBegin count) =
        some stop := checkedAdd_eq_some.mpr ⟨by omega, within⟩
    have exact : readExactAt source (reach chunkBegin count) 24 =
        .ok (BlockHeader.fromParts ext (reach chunkBegin count - chunkBegin)
          (stop - reach chunkBegin count)).toBytes := by
      unfold readExactAt
      rw [read]
      simp
    rw [if_pos (isBlockBoundary_iff.mpr boundary)]
    simp only [blockHeaderSize, exact, Except.ok_bind, parsed, valid]
    rw [if_neg (by decide), if_neg (by simpa [BlockHeader.fromParts] using back),
      if_neg (by simpa [BlockHeader.fromParts] using forth), placed]
  · rw [if_neg (by simpa [isBlockBoundary_iff] using boundary)]
    rw [bodyPlace, if_neg boundary]

/-- The error of a read past the end of the source. -/
theorem readExactAt_short {pos count : Nat} (short : (readFull source pos count).length < count) :
    ∃ error, readExactAt source pos count = .error (.error error) :=
  ⟨_, if_pos short⟩

theorem readExactAt_eq {pos count : Nat} (whole : (readFull source pos count).length = count) :
    readExactAt source pos count = .ok (readFull source pos count) :=
  if_neg (by omega)

/-- The bytes of data that one pass reads after `count` of the payload. -/
def dataStep (chunkBegin count remaining : Nat) : Nat :=
  min remaining (65536 - bodyPlace (reach chunkBegin count) % 65536)

/-- The data loop reads all the data when all of it is there. -/
theorem chunkDataLoop_whole (standing : Standing chunkBegin stop payload)
    (shows : Shows ext source chunkBegin stop payload stop) {dataSize : Nat}
    (carried : 40 + dataSize ≤ payload.length)
    (visible : dataStop chunkBegin dataSize ≤ source.length) (fuel : Nat) :
    ∀ count, count ≤ dataSize → dataSize < fuel + count →
      chunkDataLoop ext source chunkBegin stop fuel (reach chunkBegin (40 + count))
          (dataSize - count) ((payload.drop 40).take count) =
        .ok ((payload.drop 40).take dataSize) := by
  induction fuel with
  | zero => intro count _ enough; omega
  | succ fuel ih =>
      intro count small enough
      rw [chunkDataLoop]
      rcases Nat.lt_or_ge count dataSize with more | done
      · have positive : 0 < dataStep chunkBegin (40 + count) (dataSize - count) := by
          unfold dataStep
          omega
        have short : dataStep chunkBegin (40 + count) (dataSize - count) ≤ dataSize - count :=
          Nat.min_le_left _ _
        have stepped := bodyPlace_add_eq_reach standing.possible positive (Nat.min_le_right _ _)
        have before : reach chunkBegin
            (40 + count + dataStep chunkBegin (40 + count) (dataSize - count)) ≤
              dataStop chunkBegin dataSize := reach_mono (by omega)
        have inside : dataStop chunkBegin dataSize ≤ stop :=
          Nat.le_trans (reach_mono carried) standing.room
        have passed := passBlockHeader_whole standing shows
          (by omega : bodyPlace (reach chunkBegin (40 + count)) ≤ stop) (by omega)
        have read : readFull source (bodyPlace (reach chunkBegin (40 + count)))
            (dataStep chunkBegin (40 + count) (dataSize - count)) =
            (payload.drop (40 + count)).take
              (dataStep chunkBegin (40 + count) (dataSize - count)) :=
          shows.readBody standing.possible (Nat.min_le_right _ _) (by omega) (by omega)
            (by omega)
        have whole : (readFull source (bodyPlace (reach chunkBegin (40 + count)))
            (dataStep chunkBegin (40 + count) (dataSize - count))).length =
            dataStep chunkBegin (40 + count) (dataSize - count) := by
          rw [read, List.length_take, List.length_drop]
          omega
        rw [if_pos (by omega), passed, Except.ok_bind]
        change (readExactAt source (bodyPlace (reach chunkBegin (40 + count)))
          (dataStep chunkBegin (40 + count) (dataSize - count)) >>= _) = _
        rw [readExactAt_eq whole, Except.ok_bind, read]
        have next := ih (count + dataStep chunkBegin (40 + count) (dataSize - count))
          (by omega) (by omega)
        rw [← Nat.add_assoc, ← stepped, Nat.sub_add_eq, List.take_add, List.drop_drop] at next
        exact next
      · have all : count = dataSize := by omega
        subst all
        rw [if_neg (by omega)]

/-- The data loop fails where the source ends before the data. -/
theorem chunkDataLoop_cut (standing : Standing chunkBegin stop payload)
    (shows : Shows ext source chunkBegin stop payload stop) {dataSize : Nat}
    (carried : 40 + dataSize ≤ payload.length)
    (cut : source.length < dataStop chunkBegin dataSize) (fuel : Nat) :
    ∀ count result, count < dataSize → dataSize < fuel + count →
      ∃ error, chunkDataLoop ext source chunkBegin stop fuel (reach chunkBegin (40 + count))
          (dataSize - count) result = .error (.error error) := by
  induction fuel with
  | zero => intro count _ _ enough; omega
  | succ fuel ih =>
      intro count result more enough
      have positive : 0 < dataStep chunkBegin (40 + count) (dataSize - count) := by
        unfold dataStep
        omega
      have short : dataStep chunkBegin (40 + count) (dataSize - count) ≤ dataSize - count :=
        Nat.min_le_left _ _
      have stepped := bodyPlace_add_eq_reach standing.possible positive (Nat.min_le_right _ _)
      have before : reach chunkBegin
          (40 + count + dataStep chunkBegin (40 + count) (dataSize - count)) ≤
            dataStop chunkBegin dataSize := reach_mono (by omega)
      have inside : dataStop chunkBegin dataSize ≤ stop :=
        Nat.le_trans (reach_mono carried) standing.room
      have ahead := le_reach chunkBegin (40 + count)
      have after : chunkBegin ≤ bodyPlace (reach chunkBegin (40 + count)) := by
        unfold bodyPlace
        split <;> omega
      rw [chunkDataLoop, if_pos (by omega)]
      rcases Nat.lt_or_ge source.length (bodyPlace (reach chunkBegin (40 + count)))
        with inHeader | visible
      · by_cases boundary : reach chunkBegin (40 + count) % 65536 = 0
        · -- the source ends inside the block header
          have placed : bodyPlace (reach chunkBegin (40 + count)) =
              reach chunkBegin (40 + count) + 24 := if_pos boundary
          have read := @Shows.length_readFull ext source chunkBegin stop payload stop shows
            (reach chunkBegin (40 + count)) 24 (by omega) (by omega)
          obtain ⟨error, failed⟩ := @readExactAt_short source (reach chunkBegin (40 + count)) 24
            (by omega)
          refine ⟨error, ?_⟩
          rw [passBlockHeader, if_pos (isBlockBoundary_iff.mpr boundary)]
          simp only [blockHeaderSize, failed, Except.error_bind]
        · have placed : bodyPlace (reach chunkBegin (40 + count)) =
              reach chunkBegin (40 + count) := if_neg boundary
          have read := @Shows.length_readFull ext source chunkBegin stop payload stop shows
            (bodyPlace (reach chunkBegin (40 + count)))
            (dataStep chunkBegin (40 + count) (dataSize - count)) after (by omega)
          obtain ⟨error, failed⟩ := @readExactAt_short source
            (bodyPlace (reach chunkBegin (40 + count)))
            (dataStep chunkBegin (40 + count) (dataSize - count)) (by omega)
          refine ⟨error, ?_⟩
          rw [passBlockHeader, if_neg (by simpa [isBlockBoundary_iff] using boundary),
            Except.ok_bind, ← placed]
          change (readExactAt source (bodyPlace (reach chunkBegin (40 + count)))
            (dataStep chunkBegin (40 + count) (dataSize - count)) >>= _) = _
          rw [failed, Except.error_bind]
      · have passed := passBlockHeader_whole standing shows
          (by omega : bodyPlace (reach chunkBegin (40 + count)) ≤ stop) visible
        rw [passed, Except.ok_bind]
        change ∃ error, (readExactAt source (bodyPlace (reach chunkBegin (40 + count)))
          (dataStep chunkBegin (40 + count) (dataSize - count)) >>= _) = _
        have read := @Shows.length_readFull ext source chunkBegin stop payload stop shows
          (bodyPlace (reach chunkBegin (40 + count)))
          (dataStep chunkBegin (40 + count) (dataSize - count)) after (by omega)
        rcases Nat.lt_or_ge source.length (reach chunkBegin
          (40 + count + dataStep chunkBegin (40 + count) (dataSize - count))) with inBody | whole
        · obtain ⟨error, failed⟩ := @readExactAt_short source
            (bodyPlace (reach chunkBegin (40 + count)))
            (dataStep chunkBegin (40 + count) (dataSize - count)) (by omega)
          exact ⟨error, by rw [failed, Except.error_bind]⟩
        · rw [readExactAt_eq (by omega), Except.ok_bind]
          have notAll : count + dataStep chunkBegin (40 + count) (dataSize - count) ≠
              dataSize := by
            intro all
            rw [Nat.add_assoc, all] at whole
            exact absurd cut (Nat.not_lt.mpr whole)
          have next := ih (count + dataStep chunkBegin (40 + count) (dataSize - count))
            (result ++ readFull source (bodyPlace (reach chunkBegin (40 + count)))
              (dataStep chunkBegin (40 + count) (dataSize - count)))
            (by omega) (by omega)
          rw [← Nat.add_assoc, ← stepped, Nat.sub_add_eq] at next
          exact next

/-- The data of a chunk that is all there. -/
theorem readChunkData_whole (standing : Standing chunkBegin stop payload)
    (shows : Shows ext source chunkBegin stop payload stop) {dataSize : Nat}
    (carried : 40 + dataSize ≤ payload.length)
    (visible : dataStop chunkBegin dataSize ≤ source.length) :
    readChunkData ext source chunkBegin stop (headerStop chunkBegin) dataSize =
      .ok ((payload.drop 40).take dataSize) :=
  chunkDataLoop_whole standing shows carried visible _ 0 (Nat.zero_le _) (by omega)

/-- Data of which only a part is there. -/
theorem readChunkData_cut (standing : Standing chunkBegin stop payload)
    (shows : Shows ext source chunkBegin stop payload stop) {dataSize : Nat}
    (carried : 40 + dataSize ≤ payload.length) (headed : headerStop chunkBegin ≤ source.length)
    (cut : source.length < dataStop chunkBegin dataSize) :
    ∃ error, readChunkData ext source chunkBegin stop (headerStop chunkBegin) dataSize =
      .error (.error error) := by
  have more : 0 < dataSize := by
    rcases Nat.eq_zero_or_pos dataSize with rfl | positive
    · exact absurd cut (Nat.not_lt.mpr headed)
    · exact positive
  exact chunkDataLoop_cut standing shows carried cut _ 0 [] more (by omega)

end Riegeli
