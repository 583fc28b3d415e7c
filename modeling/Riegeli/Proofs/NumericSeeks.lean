/-
Module: Riegeli.Proofs.NumericSeeks
Purpose: Random access to a complete file: the numeric positions of its records
  increase, and seeks to positions and to numbers lead where they say.
Trusted boundary: the hash and the codecs
Main exports: NamesRecord.numeric_lt, seekNumeric_at, random_access
-/
import Riegeli.Proofs.BlockOverhead
import Riegeli.Proofs.PointerScans
import Riegeli.Proofs.CompleteFiles
import Riegeli.Spec.RandomAccess

namespace Riegeli

open RecordReader

variable {ext : Externals} {projection : Option FieldProjection} {source : Bytes}
  {file earlier later : List HeldChunk} {chunk : HeldChunk} {reader : RecordReader}
  {position : RecordPosition} {index : Nat}

/-! ## The order of the numeric positions -/

/-- The numeric position of a record is its index from the beginning of its
chunk. -/
theorem NamesRecord.numeric (chunks : FileChunks ext projection source file)
    (names : NamesRecord file position index) :
    ∃ earlier chunk later, file = earlier ++ chunk :: later ∧
      (heldRecords earlier).length ≤ index ∧
      index < (heldRecords (earlier ++ [chunk])).length ∧
      position.numeric + (heldRecords earlier).length = chunkPlace earlier + index := by
  obtain ⟨earlier, chunk, later, split, place, short, rfl⟩ := names
  have room := (chunks.ahead split).2
  have within := chunks.length_le (snoc_split split)
  have addressable := chunks.addressable
  refine ⟨earlier, chunk, later, split, Nat.le_add_right _ _, ?_, ?_⟩
  · rw [heldRecords_append, List.length_append, heldRecords_cons, heldRecords_nil, List.append_nil]
    omega
  · rw [RecordPosition.numeric, place, satAdd_eq (by omega)]
    omega

/-- A record in front of a chunk place has a lower numeric position, and one
behind it does not. -/
theorem NamesRecord.versus (chunks : FileChunks ext projection source file)
    (names : NamesRecord file position index) (split : file = earlier ++ later) :
    (position.numeric < chunkPlace earlier ∧ index < (heldRecords earlier).length) ∨
      (chunkPlace earlier ≤ position.numeric ∧ (heldRecords earlier).length ≤ index) := by
  obtain ⟨first, chunk, rest, cut, low, high, numeric⟩ := names.numeric chunks
  have room := (chunks.ahead cut).2
  have counted : (heldRecords (first ++ [chunk])).length =
      (heldRecords first).length + chunk.records.length := by
    rw [heldRecords_append, List.length_append, heldRecords_cons, heldRecords_nil, List.append_nil]
  rcases FileChunks.splits_ordered cut split with ⟨between, further⟩ | ⟨between, further⟩
  · by_cases none : between = []
    · rw [none, List.append_nil] at further
      rw [further]
      exact .inr ⟨by omega, low⟩
    · have late := chunks.stop_le cut split further none
      exact .inl ⟨by omega, by omega⟩
  · have mono := (@FileChunks.place_mono ext projection source file earlier (chunk :: rest) chunks
      between (by rw [← further]; exact cut)).2
    have fewer : (heldRecords earlier).length ≤ (heldRecords first).length := by
      rw [further, heldRecords_append, List.length_append]
      omega
    rw [← further] at mono
    exact .inr ⟨by omega, by omega⟩

/-- The numeric position of a record of this chunk. -/
theorem NamesRecord.inChunk (chunks : FileChunks ext projection source file)
    (names : NamesRecord file position index) (split : file = earlier ++ chunk :: later)
    (low : (heldRecords earlier).length ≤ index)
    (high : index < (heldRecords (earlier ++ [chunk])).length) :
    position.numeric + (heldRecords earlier).length = chunkPlace earlier + index := by
  obtain ⟨first, other, rest, cut, lowOther, highOther, numeric⟩ := names.numeric chunks
  have same := chunks.holding_unique split cut low high lowOther highOther
  rw [← same]
  exact numeric

/-- Later records have higher numeric positions. -/
theorem NamesRecord.numeric_lt (chunks : FileChunks ext projection source file)
    (names : NamesRecord file position index) {other : RecordPosition} {further : Nat}
    (namesOther : NamesRecord file other further) (ordered : index < further) :
    position.numeric < other.numeric := by
  obtain ⟨earlier, chunk, later, split, low, high, numeric⟩ := namesOther.numeric chunks
  rcases names.versus chunks split with ⟨before, _⟩ | ⟨_, within⟩
  · omega
  · have here := names.inChunk chunks split within (by omega)
    omega

/-! ## Numeric seeks -/

/-- Of the records of the file the first `before` have a numeric position below
the target. -/
structure FirstFrom (file : List HeldChunk) (numeric before : Nat) : Prop where
  within : before ≤ (heldRecords file).length
  below : ∀ position index, NamesRecord file position index →
    (position.numeric < numeric ↔ index < before)

/-- No record in front of this place is at or behind the target. -/
def Below (file earlier : List HeldChunk) (numeric : Nat) : Prop :=
  ∀ position index, NamesRecord file position index → index < (heldRecords earlier).length →
    position.numeric < numeric

theorem NamesRecord.lt (names : NamesRecord file position index) :
    index < (heldRecords file).length := by
  obtain ⟨earlier, chunk, later, rfl, _, short, rfl⟩ := names
  rw [heldRecords_append, heldRecords_cons, List.length_append, List.length_append]
  omega

/-- The scan of `seek_numeric` goes on from chunk to chunk.  The induction is on
the chunks ahead. -/
theorem seekNumericLoop_at (chunks : FileChunks ext projection source file) {numeric : Nat}
    (facing : Facing source projection reader) (later : List HeldChunk) :
    ∀ {fuel : Nat} {earlier : List HeldChunk}, later.length < fuel → file = earlier ++ later →
      Below file earlier numeric →
      ∃ before, FirstFrom file numeric before ∧
        SeeksTo file reader before (seekNumericLoop ext numeric fuel (chunkPlace earlier) reader) := by
  induction later with
  | nil =>
      intro fuel earlier few split below
      obtain ⟨fuel, rfl⟩ : ∃ smaller, fuel = smaller + 1 := ⟨fuel - 1, by omega⟩
      rw [List.append_nil] at split
      subst split
      have run : seekNumericLoop ext numeric (fuel + 1) (chunkPlace file) reader =
          parkAt (chunkPlace file) reader := by
        rw [seekNumericLoop, Act.bind_run]
        unfold attempt
        rw [peekChunkHeader_end chunks facing]
      have atEnd : StepsTo file { chunkBegin := chunkPlace file, recordIndex := 0 }
          (heldRecords file).length :=
        ⟨file, [], (List.append_nil file).symm, .inl rfl, Nat.zero_le _, rfl⟩
      refine ⟨(heldRecords file).length, ⟨Nat.le_refl _, fun position index names =>
        ⟨fun _ => names.lt, below position index names⟩⟩, ?_⟩
      rw [run]
      exact ⟨rfl, .between (List.append_nil file).symm rfl rfl atEnd, atEnd.points chunks, rfl⟩
  | cons chunk rest ih =>
      intro fuel earlier few split below
      rw [List.length_cons] at few
      obtain ⟨fuel, rfl⟩ : ∃ smaller, fuel = smaller + 1 := ⟨fuel - 1, by omega⟩
      have counted : chunk.chunk.header.numRecords = chunk.records.length :=
        (chunks.opens chunk (by rw [split]; simp)).numRecords
      have more : (heldRecords (earlier ++ [chunk])).length =
          (heldRecords earlier).length + chunk.records.length := by
        rw [heldRecords_append, List.length_append, heldRecords_cons, heldRecords_nil,
          List.append_nil]
      have total : (heldRecords file).length =
          (heldRecords earlier).length + chunk.records.length + (heldRecords rest).length := by
        rw [split, heldRecords_append, heldRecords_cons, List.length_append, List.length_append,
          Nat.add_assoc]
      rw [seekNumericLoop, Act.bind_run]
      unfold attempt
      rw [peekChunkHeader_at chunks facing split]
      simp only
      rw [counted]
      by_cases reached : numeric ≤ chunkPlace earlier
      · rw [if_pos reached]
        refine ⟨(heldRecords earlier).length, ⟨by omega, fun position index names => ?_⟩,
          seek_at chunks facing
            ⟨earlier, chunk :: rest, split, chunks.canonical split, by simp⟩⟩
        refine ⟨fun lower => ?_, below position index names⟩
        rcases names.versus chunks split with ⟨_, before⟩ | ⟨behind, _⟩
        · exact before
        · omega
      · rw [if_neg reached]
        by_cases inside : numeric < chunkPlace earlier + chunk.records.length
        · rw [if_pos inside]
          refine ⟨(heldRecords earlier).length + (numeric - chunkPlace earlier),
            ⟨by omega, fun position index names => ?_⟩,
            seek_at chunks facing ⟨earlier, chunk :: rest, split, chunks.canonical split, ?_⟩⟩
          · rcases names.versus chunks split with ⟨lower, before⟩ | ⟨_, behind⟩
            · exact ⟨fun _ => by omega, fun _ => by omega⟩
            · by_cases own : index < (heldRecords (earlier ++ [chunk])).length
              · have here := names.inChunk chunks split behind own
                exact ⟨fun _ => by omega, fun _ => by omega⟩
              · have past := names.versus chunks (snoc_split split)
                have room := (chunks.ahead split).2
                exact ⟨fun _ => by omega, fun _ => by omega⟩
          · change _ = _ + min (numeric - chunkPlace earlier) chunk.records.length
            omega
        · rw [if_neg inside]
          rw [← counted, ← Chunk.stop, ← chunkPlace_snoc]
          refine ih (by omega) (snoc_split split) fun position index names before => ?_
          by_cases own : index < (heldRecords earlier).length
          · exact below position index names own
          · have here := names.inChunk chunks split (Nat.le_of_not_lt own) before
            omega

/-- A numeric seek stops in front of the first record at or behind its
target. -/
theorem seekNumeric_at (chunks : FileChunks ext projection source file)
    (facing : Facing source projection reader) (numeric : Nat) :
    ∃ before, FirstFrom file numeric before ∧
      SeeksTo file reader before (seekNumeric ext numeric reader) := by
  have cleared : Facing source projection { reader with pendingTrustedEnd := none } :=
    ⟨facing.known, facing.source, facing.fieldProjection⟩
  obtain ⟨earlier, later, split, origin, near⟩ := chunks.scanOrigin numeric
  have within := chunks.length_le split
  obtain ⟨before, first, seeks⟩ := @seekNumericLoop_at ext projection source file
    { reader with pendingTrustedEnd := none } chunks numeric cleared later reader.forwardFuel earlier
    (by
      unfold forwardFuel
      rw [facing.source]
      omega)
    split (by
      intro position index names early
      rcases near with ⟨none, _⟩ | ⟨_, low⟩
      · rw [none] at early
        exact absurd early (Nat.not_lt_zero _)
      · rcases names.versus chunks split with ⟨lower, _⟩ | ⟨_, behind⟩
        · omega
        · omega)
  refine ⟨before, first, ?_⟩
  have run : seekNumeric ext numeric reader =
      seekNumericLoop ext numeric reader.forwardFuel (chunkPlace earlier)
        { reader with pendingTrustedEnd := none } := by
    rw [← origin, ← facing.source]
    unfold seekNumeric
    rw [setTrustedEnd, Act.bind_run_ok (Act.modify_run _ _),
      Act.bind_run_ok (resolveScanOrigin_run cleared.known numeric), Act.bind_run_ok (Act.get_run _)]
    rfl
  rw [run]
  exact ⟨seeks.result, seeks.stands, seeks.points, seeks.lastPos⟩

/-! ## Random access -/

/-- What a seek that stands in front of a record comes to. -/
theorem SeeksTo.arrives (chunks : FileChunks ext projection source file) {before : Nat}
    {outcome : Except Fault Unit × RecordReader} (seeks : SeeksTo file reader before outcome)
    (facing : Facing source projection outcome.2) :
    Arrives ext outcome (heldRecords file)[before]? :=
  ⟨seeks.result, (readRecord_at chunks facing seeks.stands).result⟩

/-- The records of chunks are counted by their headers. -/
theorem heldRecords_counted {file : List HeldChunk}
    (opens : ∀ chunk ∈ file, Opens ext projection chunk.chunk chunk.records) :
    (heldRecords file).length =
      ((file.map HeldChunk.chunk).map fun chunk => chunk.header.numRecords).sum := by
  induction file with
  | nil => rfl
  | cons first rest ih =>
      rw [heldRecords_cons, List.length_append, List.map_cons, List.map_cons, List.sum_cons,
        (opens first List.mem_cons_self).numRecords,
        ih fun chunk member => opens chunk (List.mem_cons_of_mem _ member)]

/-- The positions of records do not depend on what the records are read as. -/
theorem NamesRecord.transfer {first second : List HeldChunk} {other : Option FieldProjection}
    {position : RecordPosition} {index : Nat} (names : NamesRecord first position index)
    (opensFirst : ∀ chunk ∈ first, Opens ext other chunk.chunk chunk.records)
    (opensSecond : ∀ chunk ∈ second, Opens ext projection chunk.chunk chunk.records)
    (same : second.map HeldChunk.chunk = first.map HeldChunk.chunk) :
    NamesRecord second position index := by
  obtain ⟨earlier, chunk, later, rfl, place, within, counted⟩ := names
  rw [List.map_append, List.map_cons] at same
  obtain ⟨earlier', rest, rfl, sameEarlier, sameRest⟩ := List.map_eq_append_iff.mp same
  obtain ⟨chunk', later', rfl, sameChunk, _⟩ := List.map_eq_cons_iff.mp sameRest
  have first := heldRecords_counted fun chunk member => opensFirst chunk (List.mem_append_left _ member)
  have second := heldRecords_counted fun chunk member => opensSecond chunk (List.mem_append_left _ member)
  have here := (opensFirst chunk (List.mem_append_right _ List.mem_cons_self)).numRecords
  have there := (opensSecond chunk' (List.mem_append_right _ List.mem_cons_self)).numRecords
  rw [sameEarlier] at second
  rw [sameChunk] at there
  refine ⟨earlier', chunk', later', rfl, ?_, ?_, ?_⟩
  · rw [place, chunkPlace, chunkPlace, sameEarlier]
  · rw [← there, here]
    exact within
  · rw [counted, first, second]

/-- Random access to the chunks of a file, by the positions of a reader that is
opened on it, possibly under another projection. -/
theorem FileChunks.randomAccess {other : Option FieldProjection} {file first : List HeldChunk}
    {opened : RecordReader} (chunks : FileChunks ext projection source file)
    (chunksFirst : FileChunks ext other source first)
    (same : file.map HeldChunk.chunk = first.map HeldChunk.chunk)
    (facingOpened : Facing source other opened) (start : ReaderAt first opened 0)
    (facing : Facing source projection reader) :
    RandomAccess ext (heldRecords file) opened reader := by
  have total : (heldRecords first).length = (heldRecords file).length := by
    rw [heldRecords_counted chunksFirst.opens, heldRecords_counted chunks.opens, same]
  have named : ∀ {index : Nat}, index < (heldRecords file).length →
      NamesRecord file (positionRead ext opened index) index := fun within =>
    (lastPos_at chunksFirst facingOpened start (by rw [total]; exact within)).transfer
      chunksFirst.opens chunks.opens same
  constructor
  · intro first second ordered within
    exact (named (ordered.trans within)).numeric_lt chunks (named within) ordered
  · intro index target within addresses
    have points := (named within).stepsTo.points chunks
    have there : Points file target index := by
      rcases addresses with rfl | ⟨boundary, rfl⟩
      · exact points
      · obtain ⟨earlier, later, split, place, counted⟩ := points
        have possible : isPossibleChunkBoundary (positionRead ext opened index).chunkBegin = true := by
          rw [isPossibleChunkBoundary_iff]
          rw [isBlockBoundary_iff] at boundary
          exact .inl boundary
        rw [canonicalChunkAddress_eq possible] at place
        exact ⟨earlier, later, split, (canonicalChunkAddress_alias boundary).trans place, counted⟩
    exact (seek_at chunks facing there).arrives chunks
      (seek_stays facingFrame_repositions target reader facing)
  · intro numeric
    obtain ⟨before, first, seeks⟩ := seekNumeric_at chunks facing numeric
    have arrives := seeks.arrives chunks
      (seekNumeric_stays facingFrame_repositions numeric reader facing)
    exact ⟨before, first.within, fun other less => first.below _ _ (named less), arrives⟩

/-- Random access to a complete file, from every reader that some operations
lead to. -/
theorem random_access (lawful : ext.Lawful) {written : WriterOptions} {ops : List WriterOp}
    {writer after : RecordWriter}
    (complete : CompleteFile ext written ops source writer after)
    {sequential : ReaderOptions} {opened : RecordReader} (plain : sequential.fieldProjection = none)
    (isNew : RecordReader.new ext source sequential = .ok opened)
    {options : ReaderOptions} (reached : ReaderReached ext source options reader)
    (unprojected : reader.fieldProjection = none) :
    RandomAccess ext (writtenRecords ops) opened reader := by
  obtain ⟨held, holds, records⟩ := complete.holds lawful
  have chunks := holds.fileChunks
  have facing : Facing source none reader :=
    ⟨reached.measured.streamLen, reached.measured.source, unprojected⟩
  rw [← plain] at holds
  obtain ⟨facingOpened, start⟩ := holds.opened_at isNew
  rw [plain] at facingOpened
  have all : heldRecords ((signatureChunk ext).bare :: held) = writtenRecords ops := by
    rw [heldRecords_cons, records]
    rfl
  rw [← all]
  exact chunks.randomAccess chunks rfl facingOpened start facing

theorem random_access_plainFile :
    RandomAccess storingExternals [[1, 2, 3], [4]]
      (RecordReader.initial plainFile ReaderOptions.new)
      (RecordReader.readRecord storingExternals
        (RecordReader.initial plainFile ReaderOptions.new)).2 :=
  random_access storingExternals_lawful plainFile_complete rfl
    (plainFile_complete.opens storingExternals_lawful ReaderOptions.new)
    ⟨_, [.readRecord], plainFile_complete.opens storingExternals_lawful ReaderOptions.new, rfl⟩
    (@readRecord_stays storingExternals _ projectionFrame_repositions _)

end Riegeli
