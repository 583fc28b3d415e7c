/-
Module: Riegeli.Proofs.BlockOverhead
Purpose: The laws of the position arithmetic: walking and measuring undo each
  other, the walk has a closed form, and chunk ends are legal and ordered.
Trusted boundary: none
Main exports: overhead_arithmetic, chunkEnd_laws
-/
import Riegeli.Core.BlockArithmetic

namespace Riegeli

/-! ## Walking and measuring -/

theorem addWithOverhead_zero (chunkBegin : Nat) : addWithOverhead chunkBegin 0 = chunkBegin := rfl

theorem distance_addWithOverhead (chunkBegin length : Nat) :
    distanceWithoutOverhead chunkBegin (addWithOverhead chunkBegin length) = length := by
  rw [distanceWithoutOverhead_eq]
  rcases Nat.eq_zero_or_pos length with rfl | positive
  · rw [addWithOverhead_zero, Nat.sub_self]
  · have laid : usable (place (usable chunkBegin + length)) = usable chunkBegin + length :=
      usable_place (by omega)
    rw [addWithOverhead_eq_place positive, laid, Nat.add_sub_cancel_left]

/-- Before a possible chunk boundary there is a usable byte. -/
theorem usable_lt_of_possible {first stop : Nat} (possible : isPossibleChunkBoundary stop = true)
    (before : first < stop) : usable first < usable stop := by
  have positive : 0 < usable stop := by
    rw [isPossibleChunkBoundary_iff] at possible
    unfold usable
    omega
  by_contra none
  have reached := (place_le_iff positive).mpr (Nat.le_of_not_lt none)
  rw [place_usable possible (by omega)] at reached
  omega

theorem addWithOverhead_distance {chunkBegin stop : Nat}
    (possible : isPossibleChunkBoundary stop = true) (ordered : chunkBegin ≤ stop) :
    addWithOverhead chunkBegin (distanceWithoutOverhead chunkBegin stop) = stop := by
  rw [distanceWithoutOverhead_eq]
  rcases Nat.eq_or_lt_of_le ordered with rfl | before
  · rw [Nat.sub_self, addWithOverhead_zero]
  · have counted := usable_lt_of_possible possible before
    have whole : usable chunkBegin + (usable stop - usable chunkBegin) = usable stop := by omega
    rw [addWithOverhead_eq_place (by omega), whole, place_usable possible (by omega)]

/-- The blocks that are crossed cost a header each. -/
theorem addWithOverhead_closed {chunkBegin : Nat}
    (possible : isPossibleChunkBoundary chunkBegin = true) (length : Nat) :
    addWithOverhead chunkBegin length =
      chunkBegin + length + 24 * ((length + (chunkBegin + 65511) % 65536) / 65512) := by
  rw [isPossibleChunkBoundary_iff] at possible
  rcases Nat.eq_zero_or_pos length with rfl | positive
  · rw [addWithOverhead_zero]
    omega
  · rw [addWithOverhead_eq_place positive]
    unfold place usable
    omega

/-- The two walks undo each other, and the walk from a possible chunk boundary is
the closed form. -/
theorem overhead_arithmetic :
    (∀ chunkBegin length,
      distanceWithoutOverhead chunkBegin (addWithOverhead chunkBegin length) = length) ∧
    (∀ chunkBegin stop, isPossibleChunkBoundary stop = true → chunkBegin ≤ stop →
      addWithOverhead chunkBegin (distanceWithoutOverhead chunkBegin stop) = stop) ∧
    ∀ chunkBegin length, isPossibleChunkBoundary chunkBegin = true →
      addWithOverhead chunkBegin length =
        chunkBegin + length + 24 * ((length + (chunkBegin + 65511) % 65536) / 65512) :=
  ⟨distance_addWithOverhead, fun _ _ => addWithOverhead_distance,
    fun _ length possible => addWithOverhead_closed possible length⟩

/-- From inside a block header to the end of its block. -/
theorem overhead_arithmetic_block :
    addWithOverhead 10 (distanceWithoutOverhead 10 65536) = 65536 ∧
      addWithOverhead 64 65473 = 64 + 65473 + 24 * ((65473 + (64 + 65511) % 65536) / 65512) :=
  ⟨overhead_arithmetic.2.1 10 65536 (by decide) (by decide),
    overhead_arithmetic.2.2 64 65473 (by decide)⟩

/-! ## Chunk ends -/

theorem satAdd_mono {left first second : Nat} (ordered : first ≤ second) :
    satAdd left first ≤ satAdd left second := by
  unfold satAdd
  omega

theorem addWithOverhead_mono {chunkBegin first second : Nat} (positive : 0 < first)
    (ordered : first ≤ second) :
    addWithOverhead chunkBegin first ≤ addWithOverhead chunkBegin second := by
  rw [addWithOverhead_eq_place positive, addWithOverhead_eq_place (by omega)]
  exact place_le_place (by omega)

theorem roundUp_mono {first second : Nat} (ordered : first ≤ second) :
    roundUpToPossibleChunkBoundary first ≤ roundUpToPossibleChunkBoundary second := by
  unfold roundUpToPossibleChunkBoundary satAdd u64Max remainingInBlock usableBlockSize blockSize
    blockHeaderSize
  dsimp only
  split <;> split <;> omega

/-- The end grows with the data and with the records. -/
theorem chunkEnd_mono {dataSize dataSize' numRecords numRecords' : Nat} (chunkBegin : Nat)
    (moreData : dataSize ≤ dataSize') (moreRecords : numRecords ≤ numRecords') :
    chunkEnd chunkBegin dataSize numRecords ≤ chunkEnd chunkBegin dataSize' numRecords' := by
  have header : 0 < satAdd chunkHeaderSize dataSize := by
    unfold satAdd chunkHeaderSize u64Max
    omega
  apply Nat.max_le.mpr
  constructor
  · exact (addWithOverhead_mono header (satAdd_mono moreData)).trans (Nat.le_max_left _ _)
  · exact (roundUp_mono (satAdd_mono moreRecords)).trans (Nat.le_max_right _ _)

/-- Every record has a position of its own before the end. -/
theorem add_records_le_chunkEnd {chunkBegin numRecords : Nat}
    (possible : isPossibleChunkBoundary chunkBegin = true) (dataSize : Nat)
    (fits : chunkBegin + numRecords ≤ u64Max) :
    chunkBegin + numRecords ≤ chunkEnd chunkBegin dataSize numRecords := by
  have whole : satAdd (canonicalChunkAddress chunkBegin) numRecords = chunkBegin + numRecords := by
    rw [canonicalChunkAddress_eq possible, satAdd]
    omega
  refine Nat.le_trans ?_ (Nat.le_max_right _ _)
  rw [whole]
  exact le_roundUp fits

/-- The address after a block header is that of the block. -/
theorem canonicalChunkAddress_alias {pos : Nat} (boundary : isBlockBoundary pos = true) :
    canonicalChunkAddress (pos + 24) = pos := by
  rw [isBlockBoundary_iff] at boundary
  unfold canonicalChunkAddress blockSize blockHeaderSize
  rw [if_pos (by omega), Nat.add_sub_cancel]

/-- A chunk ends where another may start, past its header and a byte for each
record; the end grows with both sizes, and both addresses of a chunk give it. -/
theorem chunkEnd_laws {chunkBegin : Nat} (possible : isPossibleChunkBoundary chunkBegin = true)
    (dataSize numRecords : Nat) :
    isPossibleChunkBoundary (chunkEnd chunkBegin dataSize numRecords) = true ∧
    chunkBegin + 40 ≤ chunkEnd chunkBegin dataSize numRecords ∧
    (chunkBegin + numRecords ≤ u64Max →
      chunkBegin + numRecords ≤ chunkEnd chunkBegin dataSize numRecords) ∧
    (∀ dataSize', dataSize ≤ dataSize' →
      chunkEnd chunkBegin dataSize numRecords ≤ chunkEnd chunkBegin dataSize' numRecords) ∧
    (∀ numRecords', numRecords ≤ numRecords' →
      chunkEnd chunkBegin dataSize numRecords ≤ chunkEnd chunkBegin dataSize numRecords') ∧
    (isBlockBoundary chunkBegin = true →
      chunkEnd chunkBegin dataSize numRecords = chunkEnd (chunkBegin + 24) dataSize numRecords) := by
  have header := canonical_add_le_chunkEnd chunkBegin dataSize numRecords
  rw [canonicalChunkAddress_eq possible] at header
  refine ⟨chunkEnd_possible _ _ _, header, add_records_le_chunkEnd possible dataSize,
    fun _ more => chunkEnd_mono chunkBegin more (Nat.le_refl _),
    fun _ more => chunkEnd_mono chunkBegin (Nat.le_refl _) more, fun boundary => ?_⟩
  rw [← chunkEnd_canonical (chunkBegin + 24), canonicalChunkAddress_alias boundary]

/-- A chunk at the first block boundary with more records than bytes. -/
theorem chunkEnd_laws_records :
    isPossibleChunkBoundary (chunkEnd 65536 53 131019) = true ∧
      65536 + 131019 ≤ chunkEnd 65536 53 131019 ∧
      chunkEnd 65536 53 131019 = chunkEnd (65536 + 24) 53 131019 := by
  obtain ⟨legal, _, records, _, _, same⟩ :=
    @chunkEnd_laws 65536 (by decide) 53 131019
  exact ⟨legal, records (by decide), same (by decide)⟩

end Riegeli
