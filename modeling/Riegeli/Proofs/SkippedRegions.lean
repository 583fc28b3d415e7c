/-
Module: Riegeli.Proofs.SkippedRegions
Purpose: The arithmetic of the regions that recovery reports: where a region
  begins, that it ends past the failure, and that its end does not depend on
  the region before.
Trusted boundary: the hash
Main exports: regionStart_cases, resyncLoop_ok, regionExtent_ok,
  lt_regionStop, regionStop_start
-/
import Riegeli.Core.RecordReader

namespace Riegeli

open RecordReader

variable {ext : Externals} {reader : RecordReader} {place start stop extent : Nat}
  {last : Option SkippedRegion} {trusted : Option Nat}

/-! ## The beginning of a region -/

/-- A region begins at the canonical address of its failure, or at the end of
the region before when that lies between the two addresses. -/
theorem regionStart_cases (last : Option SkippedRegion) (place : Nat) :
    regionStart last place = canonicalChunkAddress place ∨
      ∃ previous, last = some previous ∧ regionStart last place = previous.stop ∧
        previous.stop ≤ place ∧ canonicalChunkAddress place < previous.stop := by
  unfold regionStart
  cases last with
  | none => exact Or.inl rfl
  | some previous =>
      by_cases between : previous.stop ≤ place ∧ canonicalChunkAddress place < previous.stop
      · right
        simp only [if_pos between]
        exact ⟨previous, rfl, rfl, between.1, between.2⟩
      · left
        simp only [if_neg between]

theorem canonical_le_regionStart (last : Option SkippedRegion) (place : Nat) :
    canonicalChunkAddress place ≤ regionStart last place := by
  rcases regionStart_cases last place with same | ⟨previous, _, same, _, before⟩
  · exact Nat.le_of_eq same.symm
  · omega

theorem regionStart_le (last : Option SkippedRegion) (place : Nat) :
    regionStart last place ≤ place := by
  rcases regionStart_cases last place with same | ⟨previous, _, same, before, _⟩
  · rw [same]
    exact canonicalChunkAddress_le place
  · omega

/-- At a canonical address the region before makes no difference. -/
theorem regionStart_canonical (last : Option SkippedRegion)
    (canonical : canonicalChunkAddress place = place) : regionStart last place = place := by
  have above := canonical_le_regionStart last place
  have below := regionStart_le last place
  omega

/-! ## The end of a region -/

theorem lt_nextBlockBoundary {pos : Nat} (inside : isBlockBoundary pos = false) :
    pos < nextBlockBoundary pos := by
  rw [isBlockBoundary_eq_false] at inside
  unfold nextBlockBoundary roundDownToBlockBoundary isBlockBoundary blockSize
  rw [if_neg (by simpa using inside)]
  omega

/-- The search for a block to go on from ends, at or after its first
boundary. -/
theorem resyncLoop_ok (source : Bytes) (addressable : source.length ≤ u64Max)
    (streamLen : Nat) : ∀ {fuel boundary : Nat}, source.length < fuel + boundary → 0 < fuel →
    ∃ resync, resyncLoop ext source streamLen fuel boundary = .ok resync ∧ boundary ≤ resync := by
  intro fuel
  induction fuel with
  | zero => intro boundary _ none; omega
  | succ fuel ih =>
      intro boundary enough _
      unfold resyncLoop
      by_cases short : (readFull source boundary blockHeaderSize).length < blockHeaderSize
      · exact ⟨boundary, if_pos short, Nat.le_refl _⟩
      · simp only [if_neg short]
        have inside : boundary + 24 ≤ source.length := by
          simp only [readFull, List.length_take, List.length_drop, blockHeaderSize] at short
          omega
        split
        · obtain ⟨resync, ends, ahead⟩ := @ih (boundary + blockSize)
            (by unfold blockSize; omega) (by omega)
          exact ⟨resync, ends, by omega⟩
        · split
          · exact ⟨boundary, rfl, Nat.le_refl _⟩
          · have forward : boundary ≤ satAdd boundary
                (BlockHeader.fromBytes (readFull source boundary blockHeaderSize)).nextChunk := by
              unfold satAdd
              omega
            generalize satAdd boundary
              (BlockHeader.fromBytes (readFull source boundary blockHeaderSize)).nextChunk =
                target at forward ⊢
            split
            · exact ⟨target, rfl, forward⟩
            · split
              · exact ⟨target, rfl, forward⟩
              · rename_i impossible
                have between : isBlockBoundary target = false := by
                  rw [isBlockBoundary_eq_false]
                  rw [isPossibleChunkBoundary_iff] at impossible
                  omega
                have onward := lt_nextBlockBoundary between
                obtain ⟨resync, ends, ahead⟩ := @ih (nextBlockBoundary target) (by omega)
                  (by omega)
                exact ⟨resync, ends, by omega⟩

/-- The boundary from which an untrusted region looks for its end. -/
def resyncBoundary (start : Nat) : Nat :=
  if nextBlockBoundary start = start then start + blockSize else nextBlockBoundary start

theorem lt_resyncBoundary (start : Nat) : start < resyncBoundary start := by
  unfold resyncBoundary
  split
  · unfold blockSize
    omega
  · rename_i moves
    by_cases boundary : isBlockBoundary start = true
    · exact absurd (by rw [nextBlockBoundary, if_pos boundary]) moves
    · exact lt_nextBlockBoundary (by simpa using boundary)

/-- The extent of a region, trusted or not. -/
theorem regionExtent_eq (reader : RecordReader) (start : Nat) (trusted : Option Nat) :
    regionExtent ext reader start trusted =
      match trusted with
      | some stop => .ok stop
      | none =>
          match resolveBoundaryResync ext reader (resyncBoundary start) with
          | .ok resync => .ok (min resync (max reader.streamLen start))
          | .error fault => .error fault := by
  unfold regionExtent resyncBoundary
  cases trusted with
  | some stop => rfl
  | none =>
      simp only
      cases resolveBoundaryResync ext reader
          (if nextBlockBoundary start = start then start + blockSize
            else nextBlockBoundary start) with
      | ok resync => rfl
      | error fault => rfl

theorem regionExtent_ok (addressable : reader.source.length ≤ u64Max) (start : Nat)
    (trusted : Option Nat) : ∃ extent, regionExtent ext reader start trusted = .ok extent := by
  rw [regionExtent_eq]
  cases trusted with
  | some stop => exact ⟨stop, rfl⟩
  | none =>
      obtain ⟨resync, ends, _⟩ := @resyncLoop_ok ext reader.source addressable reader.streamLen
        (reader.source.length + 1) (resyncBoundary start) (by omega) (by omega)
      refine ⟨min resync (max reader.streamLen start), ?_⟩
      unfold resolveBoundaryResync
      rw [ends]

theorem lt_regionStop (start extent : Nat) (below : place < u64Max) :
    place < regionStop start place extent := by
  have next : satAdd place 1 = place + 1 := satAdd_eq (by omega)
  unfold regionStop
  rw [next]
  dsimp only
  split <;> omega

/-- Between the two addresses of a chunk a region ends past the second, wherever
it begins. -/
theorem regionStop_between {boundary : Nat} (aligned : boundary % 65536 = 0)
    (after : boundary ≤ start) (before : start ≤ boundary + 24)
    (below : boundary + 24 < u64Max) :
    regionStop start (boundary + 24) extent = max extent (boundary + 25) := by
  have next : satAdd (boundary + 24) 1 = boundary + 25 := satAdd_eq (by omega)
  unfold regionStop canonicalChunkAddress blockSize blockHeaderSize
  rw [next]
  dsimp only
  have same : max (max extent (start + 1)) (boundary + 25) = max extent (boundary + 25) := by
    omega
  rw [same]
  have past : ¬ (if max extent (boundary + 25) % 65536 = 24 then
      max extent (boundary + 25) - 24 else max extent (boundary + 25)) ≤ start := by
    split <;> omega
  rw [if_neg past]

/-- Where recovery goes on from a failure. -/
def recoveryStop (ext : Externals) (reader : RecordReader) (place : Nat)
    (trusted : Option Nat) : Rust Nat :=
  (regionExtent ext reader (canonicalChunkAddress place) trusted).map
    (regionStop (canonicalChunkAddress place) place)

/-- The region reported before has no part in where recovery goes on. -/
theorem recoveryStop_eq (last : Option SkippedRegion) (trusted : Option Nat)
    (below : place < u64Max) :
    (regionExtent ext reader (regionStart last place) trusted).map
        (regionStop (regionStart last place) place) =
      recoveryStop ext reader place trusted := by
  unfold recoveryStop
  rcases regionStart_cases last place with same | ⟨previous, _, same, upTo, past⟩
  · rw [same]
  · rw [same]
    generalize previous.stop = start at *
    obtain ⟨boundary, aligned, rfl, canonical⟩ : ∃ boundary, boundary % 65536 = 0 ∧
        place = boundary + 24 ∧ canonicalChunkAddress place = boundary := by
      unfold canonicalChunkAddress blockSize blockHeaderSize at past ⊢
      by_cases second : place % 65536 = 24
      · exact ⟨place - 24, by omega, by omega, if_pos second⟩
      · rw [if_neg second] at past
        omega
    rw [canonical] at past ⊢
    have boundaries : resyncBoundary start = resyncBoundary boundary := by
      unfold resyncBoundary nextBlockBoundary isBlockBoundary roundDownToBlockBoundary blockSize
      have inside : ¬ start % 65536 = 0 := by omega
      simp only [beq_iff_eq, if_pos aligned, if_neg inside]
      rw [if_pos trivial, if_neg (by omega)]
      omega
    rw [regionExtent_eq, regionExtent_eq, boundaries]
    cases trusted with
    | some stop =>
        simp only [Except.map]
        rw [regionStop_between aligned (by omega) upTo below,
          regionStop_between aligned (by omega) (by omega) below]
    | none =>
        cases resolveBoundaryResync ext reader (resyncBoundary boundary) with
        | error fault => rfl
        | ok resync =>
            simp only [Except.map]
            rw [regionStop_between aligned (by omega) upTo below,
              regionStop_between aligned (by omega) (by omega) below]
            have extents : max (min resync (max reader.streamLen start)) (boundary + 25) =
                max (min resync (max reader.streamLen boundary)) (boundary + 25) := by
              omega
            rw [extents]

end Riegeli
