/-
Module: Riegeli.Core.BlockArithmetic
Purpose: The position arithmetic of `block_arithmetic.rs` and its reading as a
  count of usable bytes: a block of 65536 bytes opens with a 24-byte header,
  and the rest of it carries chunk bytes.
Trusted boundary: none
Main exports: addWithOverhead, distanceWithoutOverhead, chunkEnd, usable,
  place, addWithOverhead_eq_place, distanceWithoutOverhead_eq, chunkEnd_spec
-/
import Riegeli.Core.Fault
import Mathlib.Tactic.Common

namespace Riegeli

/-- `BLOCK_SIZE`. -/
def blockSize : Nat := 65536

/-- `BLOCK_HEADER_SIZE`. -/
def blockHeaderSize : Nat := 24

/-- `CHUNK_HEADER_SIZE`. -/
def chunkHeaderSize : Nat := 40

/-- `USABLE_BLOCK_SIZE`. -/
def usableBlockSize : Nat := blockSize - blockHeaderSize

/-- `is_block_boundary`. -/
def isBlockBoundary (pos : Nat) : Bool := pos % blockSize == 0

/-- `round_down_to_block_boundary`. -/
def roundDownToBlockBoundary (pos : Nat) : Nat := pos - pos % blockSize

/-- `remaining_in_block`. -/
def remainingInBlock (pos : Nat) : Nat :=
  let offset := pos % blockSize
  if offset = 0 then 0 else blockSize - offset

/-- `is_possible_chunk_boundary`. -/
def isPossibleChunkBoundary (pos : Nat) : Bool :=
  decide (remainingInBlock pos < usableBlockSize)

/-- `round_up_to_possible_chunk_boundary`. -/
def roundUpToPossibleChunkBoundary (pos : Nat) : Nat :=
  satAdd pos (remainingInBlock pos - (usableBlockSize - 1))

/-- `canonical_chunk_address`. -/
def canonicalChunkAddress (pos : Nat) : Nat :=
  if pos % blockSize = blockHeaderSize then pos - blockHeaderSize else pos

/-- `remaining_in_block_header`. -/
def remainingInBlockHeader (pos : Nat) : Nat :=
  let offset := pos % blockSize
  if offset < blockHeaderSize then blockHeaderSize - offset else 0

/-- The loop of `add_with_overhead`.  Every pass that does not end the loop
uses up at least one of the remaining bytes. -/
def addWithOverheadLoop : Nat → Nat → Nat → Nat
  | 0, pos, _ => pos
  | fuel + 1, pos, remaining =>
      if remaining = 0 then pos
      else
        let pos := pos + remainingInBlockHeader pos
        let avail := remainingInBlock pos
        if avail = 0 then addWithOverheadLoop fuel (pos + blockHeaderSize) remaining
        else if remaining ≤ avail then addWithOverheadLoop fuel (pos + remaining) 0
        else addWithOverheadLoop fuel (pos + avail) (remaining - avail)

/-- `add_with_overhead`. -/
def addWithOverhead (chunkBegin length : Nat) : Nat :=
  addWithOverheadLoop (length + 1) chunkBegin length

/-- The loop of `distance_without_overhead`. -/
def distanceLoop (pos : Nat) : Nat → Nat → Nat → Nat
  | 0, _, dataBytes => dataBytes
  | fuel + 1, cur, dataBytes =>
      if cur < pos then
        let cur := cur + remainingInBlockHeader cur
        if pos ≤ cur then dataBytes
        else
          let avail := remainingInBlock cur
          let avail := if avail = 0 then blockSize - blockHeaderSize else avail
          let step := min avail (pos - cur)
          distanceLoop pos fuel (cur + step) (dataBytes + step)
      else dataBytes

/-- `distance_without_overhead`. -/
def distanceWithoutOverhead (chunkBegin pos : Nat) : Nat :=
  distanceLoop pos (pos - chunkBegin + 1) chunkBegin 0

/-- `chunk_end`. -/
def chunkEnd (chunkBegin dataSize numRecords : Nat) : Nat :=
  let start := canonicalChunkAddress chunkBegin
  let endFromData := addWithOverhead start (satAdd chunkHeaderSize dataSize)
  let endFromRecords := roundUpToPossibleChunkBoundary (satAdd start numRecords)
  max endFromData endFromRecords

/-! ## Usable bytes

`usable p` counts the bytes below `p` that lie outside block headers, and
`place u` is the position just after the `u`-th such byte. -/

/-- The number of bytes before `pos` that are not block-header bytes. -/
def usable (pos : Nat) : Nat := pos / 65536 * 65512 + (pos % 65536 - 24)

/-- The position after `count` usable bytes, `count ≥ 1`. -/
def place (count : Nat) : Nat := (count - 1) / 65512 * 65536 + 25 + (count - 1) % 65512

theorem isBlockBoundary_iff {pos : Nat} :
    isBlockBoundary pos = true ↔ pos % 65536 = 0 := by
  simp [isBlockBoundary, blockSize]

theorem isBlockBoundary_eq_false {pos : Nat} :
    isBlockBoundary pos = false ↔ pos % 65536 ≠ 0 := by
  simp [isBlockBoundary, blockSize]

/-- A chunk may start at a block boundary or past the first usable byte. -/
theorem isPossibleChunkBoundary_iff {pos : Nat} :
    isPossibleChunkBoundary pos = true ↔ pos % 65536 = 0 ∨ 25 ≤ pos % 65536 := by
  rw [isPossibleChunkBoundary, decide_eq_true_eq]
  unfold remainingInBlock usableBlockSize blockSize blockHeaderSize
  dsimp only
  split <;> omega

theorem canonicalChunkAddress_le (pos : Nat) : canonicalChunkAddress pos ≤ pos := by
  unfold canonicalChunkAddress
  split <;> omega

theorem le_canonicalChunkAddress (pos : Nat) : pos ≤ canonicalChunkAddress pos + 24 := by
  unfold canonicalChunkAddress blockHeaderSize
  split <;> omega

/-- A possible chunk boundary is its own canonical address. -/
theorem canonicalChunkAddress_eq {pos : Nat} (possible : isPossibleChunkBoundary pos = true) :
    canonicalChunkAddress pos = pos := by
  rw [isPossibleChunkBoundary_iff] at possible
  unfold canonicalChunkAddress blockSize blockHeaderSize
  split <;> omega

theorem canonicalChunkAddress_idem (pos : Nat) :
    canonicalChunkAddress (canonicalChunkAddress pos) = canonicalChunkAddress pos := by
  unfold canonicalChunkAddress blockSize blockHeaderSize
  by_cases atAlias : pos % 65536 = 24
  · rw [if_pos atAlias, if_neg (by omega)]
  · rw [if_neg atAlias, if_neg atAlias]

theorem usable_mono {first second : Nat} (ordered : first ≤ second) :
    usable first ≤ usable second := by
  unfold usable
  have := Nat.div_le_div_right (c := 65536) ordered
  omega

theorem usable_place {count : Nat} (positive : 0 < count) : usable (place count) = count := by
  unfold usable place
  omega

theorem place_le_place {first second : Nat} (ordered : first ≤ second) :
    place first ≤ place second := by
  unfold place
  omega

/-- `place` never stops inside a block header or right after one. -/
theorem place_possible (count : Nat) : isPossibleChunkBoundary (place count) = true := by
  rw [isPossibleChunkBoundary_iff]
  unfold place
  omega

/-- Counting up to a possible chunk boundary and walking back ends there. -/
theorem place_usable {pos : Nat} (possible : isPossibleChunkBoundary pos = true)
    (positive : 0 < pos) : place (usable pos) = pos := by
  rw [isPossibleChunkBoundary_iff] at possible
  unfold place usable
  omega

/-- Usable bytes after `pos` lie after `pos`. -/
theorem lt_place_usable_add {pos length : Nat} (positive : 0 < length) :
    pos < place (usable pos + length) := by
  unfold place usable
  omega

theorem place_le_iff {count pos : Nat} (positive : 0 < count) :
    place count ≤ pos ↔ count ≤ usable pos := by
  unfold place usable
  omega

theorem remainingInBlockHeader_eq (pos : Nat) :
    remainingInBlockHeader pos = 24 - pos % 65536 := by
  unfold remainingInBlockHeader blockSize blockHeaderSize
  dsimp only
  split <;> omega

theorem remainingInBlock_after_header {pos : Nat} (outside : 24 ≤ pos % 65536) :
    remainingInBlock pos = 65536 - pos % 65536 := by
  unfold remainingInBlock blockSize
  dsimp only
  split <;> omega

theorem addWithOverheadLoop_eq_place (remaining : Nat) :
    ∀ (fuel pos : Nat), remaining < fuel → 0 < remaining →
      addWithOverheadLoop fuel pos remaining = place (usable pos + remaining) := by
  induction remaining using Nat.strongRecOn with
  | ind remaining ih =>
      intro fuel pos enough positive
      obtain ⟨fuel, rfl⟩ : ∃ smaller, fuel = smaller + 1 := ⟨fuel - 1, by omega⟩
      have outside : 24 ≤ (pos + (24 - pos % 65536)) % 65536 := by omega
      have avail := remainingInBlock_after_header outside
      rw [addWithOverheadLoop, if_neg (by omega)]
      simp only [remainingInBlockHeader_eq, avail]
      rw [if_neg (by omega)]
      by_cases fits : remaining ≤ 65536 - (pos + (24 - pos % 65536)) % 65536
      · rw [if_pos fits]
        cases fuel with
        | zero => omega
        | succ fuel =>
            simp only [addWithOverheadLoop, ↓reduceIte]
            unfold place usable
            omega
      · rw [if_neg fits, ih _ (by omega) fuel _ (by omega) (by omega)]
        refine congrArg place ?_
        unfold usable
        omega

/-- Laying out `length ≥ 1` bytes from `chunkBegin` ends after the byte that
many usable bytes further on. -/
theorem addWithOverhead_eq_place {chunkBegin length : Nat} (positive : 0 < length) :
    addWithOverhead chunkBegin length = place (usable chunkBegin + length) :=
  addWithOverheadLoop_eq_place length (length + 1) chunkBegin (by omega) positive

theorem usable_add_header (cur : Nat) : usable (cur + (24 - cur % 65536)) = usable cur := by
  unfold usable
  omega

theorem usable_add_step {cur step : Nat} (outside : 24 ≤ cur % 65536)
    (inside : step ≤ 65536 - cur % 65536) : usable (cur + step) = usable cur + step := by
  unfold usable
  omega

theorem distanceLoop_eq (pos : Nat) :
    ∀ (fuel cur dataBytes : Nat), pos < fuel + cur →
      distanceLoop pos fuel cur dataBytes = dataBytes + (usable pos - usable cur) := by
  intro fuel
  induction fuel with
  | zero =>
      intro cur dataBytes enough
      have : usable pos ≤ usable cur := usable_mono (by omega)
      rw [distanceLoop]
      omega
  | succ fuel ih =>
      intro cur dataBytes enough
      rw [distanceLoop]
      by_cases more : cur < pos
      · rw [if_pos more]
        have outside : 24 ≤ (cur + (24 - cur % 65536)) % 65536 := by omega
        have skipped := usable_add_header cur
        simp only [remainingInBlockHeader_eq, remainingInBlock_after_header outside]
        have ahead : cur ≤ cur + (24 - cur % 65536) := Nat.le_add_right _ _
        generalize cur + (24 - cur % 65536) = start at *
        by_cases inHeader : pos ≤ start
        · have := usable_mono inHeader
          rw [if_pos inHeader]
          omega
        · have inBlock := Nat.mod_lt start (show 0 < 65536 by decide)
          rw [if_neg inHeader, if_neg (by omega), ih _ _ (by omega)]
          have counted := usable_add_step outside
            (Nat.min_le_left (65536 - start % 65536) (pos - start))
          have bounded : usable (start + min (65536 - start % 65536) (pos - start)) ≤ usable pos :=
            usable_mono (by omega)
          omega
      · have : usable pos ≤ usable cur := usable_mono (by omega)
        rw [if_neg more]
        omega

/-- The distance is a difference of usable counts. -/
theorem distanceWithoutOverhead_eq (chunkBegin pos : Nat) :
    distanceWithoutOverhead chunkBegin pos = usable pos - usable chunkBegin := by
  rw [distanceWithoutOverhead, distanceLoop_eq _ _ _ _ (by omega), Nat.zero_add]

/-! ## Chunk ends -/

theorem le_roundUp {pos : Nat} (fits : pos ≤ u64Max) :
    pos ≤ roundUpToPossibleChunkBoundary pos := by
  unfold roundUpToPossibleChunkBoundary satAdd
  omega

/-- Rounding up skips a block header and the byte after it.  The largest word,
where the sum saturates, is a possible chunk boundary too. -/
theorem roundUp_possible {pos : Nat} (fits : pos ≤ u64Max) :
    isPossibleChunkBoundary (roundUpToPossibleChunkBoundary pos) = true := by
  rw [isPossibleChunkBoundary_iff]
  unfold roundUpToPossibleChunkBoundary satAdd u64Max remainingInBlock usableBlockSize
    blockSize blockHeaderSize at *
  dsimp only
  split <;> omega

theorem roundUp_eq_self {pos : Nat} (possible : isPossibleChunkBoundary pos = true)
    (fits : pos ≤ u64Max) : roundUpToPossibleChunkBoundary pos = pos := by
  rw [isPossibleChunkBoundary_iff] at possible
  unfold roundUpToPossibleChunkBoundary satAdd u64Max remainingInBlock usableBlockSize
    blockSize blockHeaderSize at *
  dsimp only
  split <;> omega

theorem le_place {count : Nat} (positive : 0 < count) : count + 24 ≤ place count := by
  unfold place
  omega

/-- While positions fit, only the record count can saturate in `chunk_end`. -/
theorem chunkEnd_eq {chunkBegin dataSize numRecords : Nat}
    (possible : isPossibleChunkBoundary chunkBegin = true)
    (within : chunkEnd chunkBegin dataSize numRecords ≤ u64Max) :
    chunkEnd chunkBegin dataSize numRecords =
      max (place (usable chunkBegin + (40 + dataSize)))
        (roundUpToPossibleChunkBoundary (satAdd chunkBegin numRecords)) := by
  unfold chunkEnd at *
  simp only [canonicalChunkAddress_eq possible] at *
  have dataWithin := Nat.le_trans (Nat.le_max_left _ _) within
  have positive : 0 < satAdd chunkHeaderSize dataSize := by
    unfold satAdd chunkHeaderSize u64Max
    omega
  rw [addWithOverhead_eq_place positive] at *
  have counted : usable chunkBegin + satAdd chunkHeaderSize dataSize + 24 ≤
      place (usable chunkBegin + satAdd chunkHeaderSize dataSize) := le_place (by omega)
  have size : satAdd chunkHeaderSize dataSize = 40 + dataSize :=
    satAdd_eq_of_lt (by omega)
  rw [size]

/-- What the callers use of `chunk_end` while positions fit. -/
structure ChunkEndSpec (chunkBegin dataSize numRecords stop : Nat) : Prop where
  /-- The end is a possible chunk boundary. -/
  possible : isPossibleChunkBoundary stop = true
  /-- There is room for the header and the data. -/
  room : place (usable chunkBegin + (40 + dataSize)) ≤ stop
  /-- The chunk spans at least one byte a record. -/
  records : satAdd chunkBegin numRecords ≤ stop

theorem chunkEnd_spec {chunkBegin dataSize numRecords : Nat}
    (possible : isPossibleChunkBoundary chunkBegin = true)
    (within : chunkEnd chunkBegin dataSize numRecords ≤ u64Max) :
    ChunkEndSpec chunkBegin dataSize numRecords (chunkEnd chunkBegin dataSize numRecords) := by
  have fits := satAdd_le chunkBegin numRecords
  rw [chunkEnd_eq possible within]
  constructor
  · rcases Nat.le_total (place (usable chunkBegin + (40 + dataSize)))
      (roundUpToPossibleChunkBoundary (satAdd chunkBegin numRecords)) with ordered | ordered
    · rw [Nat.max_eq_right ordered]
      exact roundUp_possible fits
    · rw [Nat.max_eq_left ordered]
      exact place_possible _
  · exact Nat.le_max_left _ _
  · exact Nat.le_trans (le_roundUp fits) (Nat.le_max_right _ _)

/-- The usable bytes of a chunk hold its header and its data. -/
theorem ChunkEndSpec.usable_le {chunkBegin dataSize numRecords stop : Nat}
    (spec : ChunkEndSpec chunkBegin dataSize numRecords stop) :
    usable chunkBegin + 40 + dataSize ≤ usable stop := by
  have laid := @usable_place (usable chunkBegin + (40 + dataSize)) (by omega)
  have counted := usable_mono spec.room
  omega

theorem ChunkEndSpec.begin_add_le {chunkBegin dataSize numRecords stop : Nat}
    (spec : ChunkEndSpec chunkBegin dataSize numRecords stop) : chunkBegin + 40 ≤ stop := by
  have laid : chunkBegin + 40 ≤ place (usable chunkBegin + (40 + dataSize)) := by
    unfold place usable
    omega
  exact Nat.le_trans laid spec.room

/-- Every chunk end is a possible chunk boundary. -/
theorem chunkEnd_possible (chunkBegin dataSize numRecords : Nat) :
    isPossibleChunkBoundary (chunkEnd chunkBegin dataSize numRecords) = true := by
  have positive : 0 < satAdd chunkHeaderSize dataSize := by
    unfold satAdd chunkHeaderSize u64Max
    omega
  unfold chunkEnd
  simp only [addWithOverhead_eq_place positive]
  have rounded := roundUp_possible (satAdd_le (canonicalChunkAddress chunkBegin) numRecords)
  have laid := place_possible (usable (canonicalChunkAddress chunkBegin) +
    satAdd chunkHeaderSize dataSize)
  rcases Nat.le_total
      (place (usable (canonicalChunkAddress chunkBegin) + satAdd chunkHeaderSize dataSize))
      (roundUpToPossibleChunkBoundary (satAdd (canonicalChunkAddress chunkBegin) numRecords))
    with ordered | ordered
  · rw [Nat.max_eq_right ordered]
    exact rounded
  · rw [Nat.max_eq_left ordered]
    exact laid

/-- Every chunk spans at least its header. -/
theorem canonical_add_le_chunkEnd (chunkBegin dataSize numRecords : Nat) :
    canonicalChunkAddress chunkBegin + 40 ≤ chunkEnd chunkBegin dataSize numRecords := by
  have header : 40 ≤ satAdd chunkHeaderSize dataSize := by
    unfold satAdd chunkHeaderSize u64Max
    omega
  refine Nat.le_trans ?_ (Nat.le_max_left _ _)
  rw [addWithOverhead_eq_place (by omega)]
  unfold place usable
  omega

/-- A chunk ends past both of its addresses. -/
theorem lt_chunkEnd (chunkBegin dataSize numRecords : Nat) :
    chunkBegin < chunkEnd chunkBegin dataSize numRecords := by
  have spans := canonical_add_le_chunkEnd chunkBegin dataSize numRecords
  have near := le_canonicalChunkAddress chunkBegin
  omega

/-- The two addresses of one chunk give the same end. -/
theorem chunkEnd_canonical (chunkBegin dataSize numRecords : Nat) :
    chunkEnd (canonicalChunkAddress chunkBegin) dataSize numRecords =
      chunkEnd chunkBegin dataSize numRecords := by
  unfold chunkEnd
  simp only [canonicalChunkAddress_idem]

end Riegeli
