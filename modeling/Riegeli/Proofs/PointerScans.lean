/-
Module: Riegeli.Proofs.PointerScans
Purpose: Scans of a complete file that begin where a block header leads and go
  on from chunk header to chunk header.
Trusted boundary: the hash and the codecs
Main exports: FileChunks.covering, FileChunks.scanOrigin, peekChunkHeader_at,
  findChunkBefore_at
-/
import Riegeli.Proofs.PositionedReads

namespace Riegeli

open RecordReader

variable {ext : Externals} {projection : Option FieldProjection} {source : Bytes}
  {file earlier later : List HeldChunk} {chunk : HeldChunk} {reader : RecordReader}

namespace FileChunks

/-! ## Block headers -/

/-- Every place before the end of the file lies in a chunk.  The induction is
on the chunks that may hold it. -/
theorem covering_from (later : List HeldChunk) :
    ∀ {earlier : List HeldChunk} {place : Nat}, chunkPlace earlier ≤ place →
      place < chunkPlace (earlier ++ later) →
      ∃ between chunk rest, later = between ++ chunk :: rest ∧
        chunkPlace (earlier ++ between) ≤ place ∧
        place < chunkPlace (earlier ++ between ++ [chunk]) := by
  induction later with
  | nil =>
      intro earlier place after before
      rw [List.append_nil] at before
      omega
  | cons chunk rest ih =>
      intro earlier place after before
      by_cases here : place < chunkPlace (earlier ++ [chunk])
      · exact ⟨[], chunk, rest, rfl, by rw [List.append_nil]; exact after,
          by rw [List.append_nil]; exact here⟩
      · obtain ⟨between, next, left, split, lower, upper⟩ := @ih (earlier ++ [chunk]) place
          (Nat.le_of_not_lt here) (by rw [List.append_assoc]; exact before)
        rw [List.append_assoc earlier, List.singleton_append] at lower upper
        exact ⟨chunk :: between, next, left, by rw [split]; rfl, lower, upper⟩

theorem covering (chunks : FileChunks ext projection source file) {place : Nat}
    (within : place < source.length) :
    ∃ earlier chunk later, file = earlier ++ chunk :: later ∧ chunkPlace earlier ≤ place ∧
      place < chunkPlace (earlier ++ [chunk]) := by
  rw [chunks.length] at within
  obtain ⟨between, chunk, rest, split, lower, upper⟩ :=
    @covering_from file [] place (Nat.zero_le _) within
  exact ⟨between, chunk, rest, split, lower, upper⟩

/-- Of two places of the same list one is not behind the other. -/
theorem splits_ordered {first second firstRest secondRest : List HeldChunk}
    (split : file = first ++ firstRest) (other : file = second ++ secondRest) :
    (∃ between, second = first ++ between) ∨ ∃ between, first = second ++ between := by
  rcases List.prefix_or_prefix_of_prefix (show first <+: file from ⟨firstRest, split.symm⟩)
    (show second <+: file from ⟨secondRest, other.symm⟩) with ⟨between, same⟩ | ⟨between, same⟩
  · exact .inl ⟨between, same.symm⟩
  · exact .inr ⟨between, same.symm⟩

/-- A chunk in front of a place ends before it. -/
theorem stop_le (chunks : FileChunks ext projection source file)
    (split : file = earlier ++ chunk :: later) {first firstRest next : List HeldChunk}
    (other : file = first ++ firstRest) (further : first = earlier ++ next) (some : next ≠ []) :
    chunkPlace (earlier ++ [chunk]) ≤ chunkPlace first ∧
      (heldRecords (earlier ++ [chunk])).length ≤ (heldRecords first).length := by
  cases next with
  | nil => exact absurd rfl some
  | cons head rest =>
      have same : earlier ++ chunk :: later = earlier ++ (head :: (rest ++ firstRest)) := by
        rw [← split, other, further, List.append_assoc, List.cons_append]
      obtain ⟨rfl, _⟩ := List.cons.inj (List.append_cancel_left same)
      have cut : first = earlier ++ [chunk] ++ rest := by
        rw [further, List.append_assoc, List.singleton_append]
      rw [cut] at other
      have mono := (@FileChunks.place_mono ext projection source file (earlier ++ [chunk]) firstRest
        chunks rest other).2
      rw [cut, heldRecords_append (earlier ++ [chunk]), List.length_append]
      omega

/-- A place lies in one chunk only. -/
theorem covering_unique (chunks : FileChunks ext projection source file)
    (split : file = earlier ++ chunk :: later) {first firstRest : List HeldChunk}
    {other : HeldChunk} (cut : file = first ++ other :: firstRest) {place : Nat}
    (after : chunkPlace earlier ≤ place) (before : place < chunkPlace (earlier ++ [chunk]))
    (afterOther : chunkPlace first ≤ place)
    (beforeOther : place < chunkPlace (first ++ [other])) : first = earlier ∧ other = chunk := by
  have same : first = earlier := by
    rcases splits_ordered split cut with ⟨between, further⟩ | ⟨between, further⟩
    · by_cases none : between = []
      · rw [further, none, List.append_nil]
      · have late := (chunks.stop_le split cut further none).1
        omega
    · by_cases none : between = []
      · rw [further, none, List.append_nil]
      · have late := (chunks.stop_le cut split further none).1
        omega
  refine ⟨same, ?_⟩
  rw [same] at cut
  exact (List.cons.inj (List.append_cancel_left (cut.symm.trans split))).1

/-- A record is in one chunk only. -/
theorem holding_unique (chunks : FileChunks ext projection source file)
    (split : file = earlier ++ chunk :: later) {first firstRest : List HeldChunk}
    {other : HeldChunk} (cut : file = first ++ other :: firstRest) {index : Nat}
    (low : (heldRecords earlier).length ≤ index)
    (high : index < (heldRecords (earlier ++ [chunk])).length)
    (lowOther : (heldRecords first).length ≤ index)
    (highOther : index < (heldRecords (first ++ [other])).length) : first = earlier := by
  rcases splits_ordered split cut with ⟨between, further⟩ | ⟨between, further⟩
  · by_cases none : between = []
    · rw [further, none, List.append_nil]
    · have late := (chunks.stop_le split cut further none).2
      omega
  · by_cases none : between = []
    · rw [further, none, List.append_nil]
    · have late := (chunks.stop_le cut split further none).2
      omega

/-- A block boundary inside a chunk carries the distances to its ends. -/
theorem blockHeader (chunks : FileChunks ext projection source file)
    (split : file = earlier ++ chunk :: later) {boundary : Nat}
    (onBoundary : boundary % 65536 = 0) (after : chunkPlace earlier ≤ boundary)
    (before : boundary < chunkPlace (earlier ++ [chunk])) :
    BlockHeaderAt ext source boundary (boundary - chunkPlace earlier)
      (chunkPlace (earlier ++ [chunk]) - boundary) := by
  have listed : ⟨chunkPlace earlier, chunkPlace (earlier ++ [chunk]), chunk.chunk⟩ ∈
      placedChunks 0 (file.map HeldChunk.chunk) := by
    rw [split, List.map_append, placedChunks_append, List.map_cons, placedChunks,
      ← chunkPlace, ← chunkPlace_snoc]
    exact List.mem_append_right _ List.mem_cons_self
  have within := chunks.within
  rw [chunks.source_eq]
  exact chunks.placed.blockHeaderAt (Nat.le_of_lt within) onBoundary listed ⟨after, before⟩

/-- The first data chunk is the one behind the signature. -/
theorem first (chunks : FileChunks ext projection source file) :
    ∃ earlier later, file = earlier ++ later ∧ firstDataChunk = chunkPlace earlier ∧
      heldRecords earlier = [] ∧ earlier.length = 1 := by
  obtain ⟨rest, same⟩ := chunks.signed
  refine ⟨[(signatureChunk ext).bare], rest, same, ?_, rfl, rfl⟩
  change firstDataChunk = (signatureChunk ext).stop 0
  rw [signatureChunk_stop]
  rfl

/-- A scan begins in front of a chunk, and no record before it is at or behind
the target. -/
theorem scanOrigin (chunks : FileChunks ext projection source file) (target : Nat) :
    ∃ earlier later, file = earlier ++ later ∧
      RecordReader.scanOrigin ext source source.length target = chunkPlace earlier ∧
      (heldRecords earlier = [] ∧ earlier.length = 1 ∨
        firstDataChunk ≤ chunkPlace earlier ∧ chunkPlace earlier ≤ target) := by
  obtain ⟨signature, rest, opening, place, none, one⟩ := chunks.first
  have fallback : ∃ earlier later, file = earlier ++ later ∧
      firstDataChunk = chunkPlace earlier ∧
      (heldRecords earlier = [] ∧ earlier.length = 1 ∨
        firstDataChunk ≤ chunkPlace earlier ∧ chunkPlace earlier ≤ target) :=
    ⟨signature, rest, opening, place, .inl ⟨none, one⟩⟩
  unfold RecordReader.scanOrigin
  simp only
  split
  · exact fallback
  · split
    · exact fallback
    · rename_i whole
      split
      · exact fallback
      · -- the boundary lies in a chunk, and its block header leads to one of its ends
        generalize boundaryEq :
          roundDownToBlockBoundary (min target source.length) = boundary at *
        have low : boundary ≤ target := by
          unfold roundDownToBlockBoundary at boundaryEq
          omega
        have onBoundary : boundary % 65536 = 0 := by
          unfold roundDownToBlockBoundary blockSize at boundaryEq
          omega
        have within : boundary < source.length := by
          rw [readFull, List.length_take, List.length_drop] at whole
          unfold blockHeaderSize at whole
          omega
        obtain ⟨earlier, chunk, later, split, after, before⟩ := chunks.covering within
        have header := chunks.blockHeader split onBoundary after before
        have reads : readFull source boundary blockHeaderSize = (source.drop boundary).take 24 := rfl
        rw [reads, scanOriginOf, header.previousChunk, header.nextChunk]
        have fits := chunks.length_le (snoc_split split)
        have addressable := chunks.addressable
        rw [satAdd_eq (by omega)]
        have next : boundary + (chunkPlace (earlier ++ [chunk]) - boundary) =
            chunkPlace (earlier ++ [chunk]) := by omega
        have previous : checkedSub boundary (boundary - chunkPlace earlier) =
            some (chunkPlace earlier) := by
          rw [checkedSub, if_pos (by omega)]
          congr 1
          omega
        rw [next, previous]
        have reaches : ∀ {first second : List HeldChunk}, file = first ++ second →
            chunkPlace first ≤ target →
            ∃ earlier later, file = earlier ++ later ∧
              (if chunkPlace first < firstDataChunk ∨
                  isPossibleChunkBoundary (chunkPlace first) = false then firstDataChunk
                else chunkPlace first) = chunkPlace earlier ∧
              (heldRecords earlier = [] ∧ earlier.length = 1 ∨
                firstDataChunk ≤ chunkPlace earlier ∧ chunkPlace earlier ≤ target) := by
          intro first second cut small
          by_cases early : chunkPlace first < firstDataChunk
          · rw [if_pos (.inl early)]
            exact fallback
          · rw [if_neg (by simp [early, chunks.possible cut])]
            exact ⟨first, second, cut, rfl, .inr ⟨Nat.le_of_not_lt early, small⟩⟩
        by_cases begins : boundary - chunkPlace earlier = 0
        · have same : boundary = chunkPlace earlier := by omega
          rw [if_pos begins]
          simp only
          rw [same]
          exact reaches split (by omega)
        · rw [if_neg begins]
          by_cases short : target < chunkPlace (earlier ++ [chunk])
          · rw [if_pos short]
            exact reaches split (by omega)
          · rw [if_neg short]
            exact reaches (snoc_split split) (Nat.le_of_not_lt short)

end FileChunks

/-! ## Chunk headers -/

theorem resolveScanOrigin_run (known : Known reader) (target : Nat) :
    resolveScanOrigin ext target reader =
      (.ok (scanOrigin ext reader.source reader.source.length target), reader) := by
  have measured : Act.whenever (reader.streamLen < target) measureStream reader = (.ok (), reader) := by
    rw [Act.whenever_run]
    split
    · change (Except.ok (), { reader with streamLen := reader.source.length }) = (.ok (), reader)
      rw [← (show reader.streamLen = reader.source.length from known)]
    · rfl
  unfold resolveScanOrigin
  rw [Act.bind_run_ok (Act.get_run _), Act.bind_run_ok measured, Act.bind_run_ok (Act.get_run _),
    show reader.streamLen = reader.source.length from known]
  rfl

/-- The header of a chunk is read at its place. -/
theorem peekChunkHeader_at (chunks : FileChunks ext projection source file)
    (facing : Facing source projection reader) (split : file = earlier ++ chunk :: later) :
    peekChunkHeader ext (chunkPlace earlier) reader = (.ok (some chunk.chunk.header), reader) := by
  have holds := chunks.holdsAt split
  unfold peekChunkHeader
  rw [Act.bind_run, readChunkHeaderAt_static facing.known, facing.source, headerAt_held holds]
  simp only
  rw [if_neg (by rw [holds.made.headerValid]; decide)]
  rfl

/-- At the end of the file there is no header. -/
theorem peekChunkHeader_end (chunks : FileChunks ext projection source file)
    (facing : Facing source projection reader) :
    peekChunkHeader ext (chunkPlace file) reader = (.ok none, reader) := by
  unfold peekChunkHeader
  rw [Act.bind_run, readChunkHeaderAt_static facing.known, facing.source,
    headerAt_absent chunks.found_end]
  rfl

/-- A scan stops at the chunk that the target lies in. -/
theorem findChunkLoop_at (chunks : FileChunks ext projection source file)
    (facing : Facing source projection reader) {target : Nat} (between : List HeldChunk) :
    ∀ {fuel : Nat} {first later : List HeldChunk}, between.length < fuel →
      file = first ++ between ++ chunk :: later →
      chunkPlace (first ++ between) ≤ target →
      target < chunkPlace (first ++ between ++ [chunk]) →
      findChunkLoop ext target fuel (chunkPlace first) reader =
        (.ok (some (chunkPlace (first ++ between), chunk.chunk.header)), reader) := by
  induction between with
  | nil =>
      intro fuel first later few split after before
      obtain ⟨fuel, rfl⟩ : ∃ smaller, fuel = smaller + 1 := ⟨fuel - 1, by omega⟩
      rw [List.append_nil] at split before ⊢
      rw [findChunkLoop, Act.bind_run_ok (peekChunkHeader_at chunks facing split)]
      simp only
      rw [← Chunk.stop, ← chunkPlace_snoc, if_pos before]
      rfl
  | cons next rest ih =>
      intro fuel first later few split after before
      rw [List.length_cons] at few
      obtain ⟨fuel, rfl⟩ : ∃ smaller, fuel = smaller + 1 := ⟨fuel - 1, by omega⟩
      have here : file = first ++ next :: (rest ++ chunk :: later) := by
        rw [split, List.append_assoc, List.cons_append]
      have further : first ++ next :: rest = first ++ [next] ++ rest := by
        rw [List.append_assoc, List.singleton_append]
      rw [further] at split after before ⊢
      have low := (@FileChunks.place_mono ext projection source file (first ++ [next])
        (chunk :: later) chunks rest split).2
      rw [findChunkLoop, Act.bind_run_ok (peekChunkHeader_at chunks facing here)]
      simp only
      rw [← Chunk.stop, ← chunkPlace_snoc, if_neg (by omega)]
      exact ih (by omega) split after before

/-- The chunk that a place of the file behind the signature lies in is
found. -/
theorem findChunkBefore_at (chunks : FileChunks ext projection source file)
    (facing : Facing source projection reader) (split : file = earlier ++ chunk :: later)
    {target : Nat} (behind : firstDataChunk ≤ target) (after : chunkPlace earlier ≤ target)
    (before : target < chunkPlace (earlier ++ [chunk])) :
    findChunkBefore ext target reader =
      (.ok (some (chunkPlace earlier, chunk.chunk.header)), reader) := by
  obtain ⟨first, rest, opening, origin, near⟩ := chunks.scanOrigin target
  have low : chunkPlace first ≤ target := by
    rcases near with ⟨_, one⟩ | ⟨_, low⟩
    · obtain ⟨signature, others, same, place, _, single⟩ := chunks.first
      have firstEq : first = signature := by
        have prefixes := same.symm.trans opening
        exact ((List.append_inj prefixes (by rw [one, single])).1).symm
      rw [firstEq, ← place]
      exact behind
    · exact low
  obtain ⟨between, met, left, more, lower, upper⟩ := @FileChunks.covering_from rest first target low (by
    have fits := chunks.length_le (snoc_split split)
    rw [← opening, ← chunks.length]
    omega)
  have cut : file = (first ++ between) ++ met :: left := by
    rw [opening, more, List.append_assoc]
  obtain ⟨same, rfl⟩ := chunks.covering_unique split cut after before lower upper
  unfold findChunkBefore
  rw [Act.bind_run_ok (resolveScanOrigin_run facing.known target), facing.source, origin,
    Act.bind_run_ok (Act.get_run _)]
  rw [← same]
  have fits := chunks.length_le (cut.trans (List.append_assoc _ _ _))
  rw [List.length_append] at fits
  refine findChunkLoop_at chunks facing between ?_ cut lower upper
  unfold forwardFuel
  rw [facing.source]
  omega

end Riegeli
