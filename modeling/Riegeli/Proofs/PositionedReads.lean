/-
Module: Riegeli.Proofs.PositionedReads
Purpose: Reading and seeking on a complete file, in terms of the number of
  records behind the reader.
Trusted boundary: the hash and the codecs
Main exports: ReadsNext, readRecord_at, SeekOutcome, seek_at, opened_at
-/
import Riegeli.Proofs.FileChunks

namespace Riegeli

open RecordReader

variable {ext : Externals} {projection : Option FieldProjection} {source : Bytes}
  {file earlier later : List HeldChunk} {chunk : HeldChunk} {options : ReaderOptions}
  {reader : RecordReader} {before : Nat}

theorem Reading.known (reading : Reading source options reader) : Known reader :=
  reading.measured.streamLen

/-- A reader of this source under this projection. -/
structure Facing (source : Bytes) (projection : Option FieldProjection) (reader : RecordReader) :
    Prop where
  known : Known reader
  source : reader.source = source
  fieldProjection : reader.fieldProjection = projection

/-- The frame that keeps a reader facing its source. -/
def facingFrame (source : Bytes) (projection : Option FieldProjection) : Frame RecordReader where
  rel before after := Facing source projection before → Facing source projection after
  refl _ := id
  trans first second := second ∘ first

theorem facingFrame_repositions : Repositions (facingFrame source projection) where
  trusted _ _ facing := ⟨facing.known, facing.source, facing.fieldProjection⟩
  measured _ facing := ⟨rfl, facing.source, facing.fieldProjection⟩
  reported _ _ _ facing := ⟨facing.known, facing.source, facing.fieldProjection⟩
  moved before after same _ _ projected measured _ facing := by
    refine ⟨?_, same.trans facing.source, projected.trans facing.fieldProjection⟩
    rw [Known, measured, same]
    exact facing.known

theorem Reading.facing (reading : Reading source options reader) :
    Facing source options.fieldProjection reader :=
  ⟨reading.known, reading.measured.source, reading.projected⟩

/-- Where the reader says it is: so many records into the chunk at its
begin. -/
theorem ReaderAt.steps (stands : ReaderAt file reader before) :
    StepsTo file
      { chunkBegin := reader.currentChunkBegin, recordIndex := reader.currentRecordIndex } before := by
  cases stands with
  | between _ _ _ steps => exact steps
  | @inside earlier later chunk _ split _ begun _ within _ =>
      exact ⟨earlier, chunk :: later, split, .inl begun, within, rfl⟩

/-! ## Reading -/

/-- What a read comes to behind `before` records: the next record, whose
position is then the last one, or the end of the file. -/
structure ReadsNext (file : List HeldChunk) (reader : RecordReader) (before : Nat)
    (outcome : Except Fault (Option Bytes) × RecordReader) : Prop where
  result : outcome.1 = .ok (heldRecords file)[before]?
  stands : ReaderAt file outcome.2 (min (before + 1) (heldRecords file).length)
  record : before < (heldRecords file).length →
    NamesRecord file outcome.2.lastPos before ∧ Points file outcome.2.pos (before + 1) ∧
      outcome.2.lastPos.chunkBegin = outcome.2.currentChunkBegin
  ended : (heldRecords file).length ≤ before →
    outcome.2.lastPos = reader.lastPos ∧
      (outcome.2.pos = reader.pos ∨ Points file outcome.2.pos before)

theorem getElem?_split (first second : List Bytes) (index : Nat) :
    (first ++ second)[first.length + index]? = second[index]? := by
  rw [List.getElem?_append_right (Nat.le_add_right _ _), Nat.add_sub_cancel_left]

/-- An open decoder with a record left hands it over. -/
theorem readFromDecoder_record (chunks : FileChunks ext projection source file)
    {decoder : ActiveDecoder} (split : file = earlier ++ chunk :: later)
    (current : reader.currentDecoder = some decoder)
    (begun : reader.currentChunkBegin = chunkPlace earlier)
    (next : reader.nextChunkFilePos = chunkPlace (earlier ++ [chunk]))
    (left : reader.currentRecordIndex < chunk.records.length)
    (yields : decoder.Yields (chunk.records.drop reader.currentRecordIndex)) :
    ∃ record after, readFromDecoder reader = (.ok (some record), after) ∧
      ReadsNext file reader ((heldRecords earlier).length + reader.currentRecordIndex)
        (.ok (some record), after) := by
  rw [List.drop_eq_getElem_cons left] at yields
  obtain ⟨handed, read, yieldsRest⟩ := yields
  have counted : (heldRecords file).length =
      (heldRecords earlier).length + (chunk.records.length + (heldRecords later).length) := by
    rw [split, heldRecords_append, heldRecords_cons, List.length_append, List.length_append]
  refine ⟨chunk.records[reader.currentRecordIndex], handedRecord reader handed, ?_, ?_⟩
  · rw [readFromDecoder_run, current]
    simp only [read]
  constructor
  · rw [split, heldRecords_append, getElem?_split, heldRecords_cons,
      List.getElem?_append_left left, List.getElem?_eq_getElem left]
  · rw [Nat.min_eq_left (by omega)]
    exact @ReaderAt.inside file (handedRecord reader handed) _ _ _ _ split rfl begun next left yieldsRest
  · refine fun _ => ⟨⟨earlier, chunk, later, split, begun, left, rfl⟩,
      ⟨earlier, chunk :: later, split, ?_, ?_⟩, rfl⟩
    · change canonicalChunkAddress reader.currentChunkBegin = _
      rw [begun, chunks.canonical split]
    · change _ = _ + min (reader.currentRecordIndex + 1) chunk.records.length
      omega
  · intro past
    omega

/-- In front of a chunk, loading goes on to the next decoder or to the end of
the file. -/
theorem advanceChunk_at (chunks : FileChunks ext projection source file)
    (facing : Facing source projection reader) (split : file = earlier ++ later)
    (next : reader.nextChunkFilePos = chunkPlace earlier) :
    (∃ between chunk rest, ∃ decoder : ActiveDecoder, later = between ++ chunk :: rest ∧
        heldRecords between = [] ∧ decoder.Yields chunk.records ∧
        advanceChunk ext reader =
          (.ok true,
            { enteredChunk reader reader.streamLen (chunkPlace (earlier ++ between))
                (chunkPlace (earlier ++ between ++ [chunk])) decoder with atEof := false })) ∨
      (heldRecords later = [] ∧
        advanceChunk ext reader =
          (.ok false,
            { reader with
              nextChunkFilePos := chunkPlace file
              pendingTrustedEnd := none
              atEof := true })) := by
  have landed : reader.landed ext = landsAt ext source projection (chunkPlace earlier) := by
    unfold RecordReader.landed
    rw [facing.source, facing.fieldProjection, next]
  rcases chunks.lands later split with
    ⟨between, chunk, rest, decoder, ahead, none, yields, lands⟩ | ⟨none, lands⟩
  · refine .inl ⟨between, chunk, rest, decoder, ahead, none, yields, ?_⟩
    have canonical := chunks.canonical (show file = (earlier ++ between) ++ chunk :: rest by
      rw [split, ahead, List.append_assoc])
    rw [advanceChunk_lands facing.known, RecordReader.afterLanding, landed, lands]
    simp only [afterFinding, canonical]
    rfl
  · refine .inr ⟨none, ?_⟩
    rw [advanceChunk_lands facing.known, RecordReader.afterLanding, landed, lands]
    rfl

/-- A decoder with nothing left is as good as none. -/
theorem readRecordLoop_drained {decoder : ActiveDecoder} (fuel : Nat)
    (current : reader.currentDecoder = some decoder) (yields : decoder.Yields []) :
    readRecordLoop ext (fuel + 1) reader =
      readRecordLoop ext (fuel + 1) { reader with currentDecoder := none } := by
  have drained : decoder.readRecord = .ok (none, decoder) := yields
  rw [readRecordLoop_succ, readRecordLoop_succ, readFromDecoder_run, readFromDecoder_run, current]
  simp only [drained]

/-- The end of the file is read once more. -/
theorem ReadsNext.finished (split : file = earlier ++ later) (empty : heldRecords later = [])
    {after : RecordReader}
    (next : after.nextChunkFilePos = chunkPlace file) (drained : after.currentDecoder = none)
    (lastPos : after.lastPos = reader.lastPos) (pos : after.pos = reader.pos)
    (steps : StepsTo file { chunkBegin := after.currentChunkBegin, recordIndex := after.currentRecordIndex }
      (heldRecords earlier).length) :
    ReadsNext file reader (heldRecords earlier).length (.ok none, after) := by
  have total : (heldRecords file).length = (heldRecords earlier).length := by
    rw [split, heldRecords_append, empty, List.append_nil]
  constructor
  · rw [← total, List.getElem?_eq_none (Nat.le_refl _)]
  · rw [Nat.min_eq_right (by omega)]
    rw [← total] at steps
    exact .between (List.append_nil file).symm drained next steps
  · intro more
    omega
  · exact fun _ => ⟨lastPos, .inl pos⟩

/-- The loop of `read_record` in front of a chunk.  The induction is on the
passes: each opens one of the chunks ahead or ends. -/
theorem readRecordLoop_between (chunks : FileChunks ext projection source file) (fuel : Nat) :
    ∀ {earlier later : List HeldChunk} {reader : RecordReader},
      later.length < fuel → Facing source projection reader → file = earlier ++ later →
      reader.currentDecoder = none → reader.nextChunkFilePos = chunkPlace earlier →
      StepsTo file { chunkBegin := reader.currentChunkBegin, recordIndex := reader.currentRecordIndex }
        (heldRecords earlier).length →
      ReadsNext file reader (heldRecords earlier).length (readRecordLoop ext fuel reader) := by
  induction fuel with
  | zero => intro earlier later reader few; omega
  | succ fuel ih =>
      intro earlier later reader few facing split drained next steps
      rw [readRecordLoop_succ, readFromDecoder_run, drained]
      rcases advanceChunk_at chunks facing split next with
        ⟨between, chunk, rest, decoder, rfl, none, yields, opens⟩ | ⟨none, ends⟩
      · have here : file = (earlier ++ between) ++ chunk :: rest := by
          rw [split, List.append_assoc]
        have same : (heldRecords (earlier ++ between)).length = (heldRecords earlier).length := by
          rw [heldRecords_append, none, List.append_nil]
        rw [List.length_append, List.length_cons] at few
        obtain ⟨fuel, rfl⟩ : ∃ smaller, fuel = smaller + 1 := ⟨fuel - 1, by omega⟩
        simp only [opens]
        cases records : chunk.records with
        | cons record left =>
            -- the record is handed over in the next pass
            obtain ⟨first, after, read, outcome⟩ := @readFromDecoder_record ext projection source
              file (earlier ++ between) rest chunk
              { enteredChunk reader reader.streamLen (chunkPlace (earlier ++ between))
                  (chunkPlace (earlier ++ between ++ [chunk])) decoder with atEof := false }
              chunks decoder here rfl rfl rfl (by rw [records]; exact Nat.succ_pos _) yields
            rw [readRecordLoop_succ, read, ← same]
            exact ⟨outcome.result, outcome.stands, outcome.record, fun past => by
              have total : (heldRecords file).length = (heldRecords (earlier ++ between)).length +
                  (chunk.records.length + (heldRecords rest).length) := by
                rw [here, heldRecords_append, heldRecords_cons, List.length_append,
                  List.length_append]
              rw [records, List.length_cons] at total
              omega⟩
        | nil =>
            rw [records] at yields
            rw [readRecordLoop_drained fuel rfl yields]
            have counted : (heldRecords (earlier ++ between ++ [chunk])).length =
                (heldRecords earlier).length := by
              rw [heldRecords_append, List.length_append, same, heldRecords_cons, records]
              rfl
            have begun : StepsTo file
                { chunkBegin := chunkPlace (earlier ++ between), recordIndex := 0 }
                (heldRecords earlier).length :=
              ⟨_, _, here, .inl rfl, Nat.zero_le _, same.symm⟩
            have outcome := @ih (earlier ++ between ++ [chunk]) rest
              { enteredChunk reader reader.streamLen (chunkPlace (earlier ++ between))
                  (chunkPlace (earlier ++ between ++ [chunk])) decoder with
                atEof := false
                currentDecoder := Option.none } (by omega)
              ⟨facing.known, facing.source, facing.fieldProjection⟩ (snoc_split here) rfl rfl
              (by rw [counted]; exact begun)
            rw [counted] at outcome
            refine ⟨outcome.result, outcome.stands, outcome.record, fun past => ?_⟩
            obtain ⟨last, named⟩ := outcome.ended past
            refine ⟨last, .inr ?_⟩
            rcases named with same | points
            · rw [same]
              exact begun.points chunks
            · exact points
      · simp only [ends]
        exact .finished split none rfl drained rfl rfl steps

/-- A read, wherever between the records the reader is. -/
theorem readRecord_at (chunks : FileChunks ext projection source file)
    (facing : Facing source projection reader) (stands : ReaderAt file reader before) :
    ReadsNext file reader before (readRecord ext reader) := by
  have cleared : Facing source projection { reader with pendingTrustedEnd := none } :=
    ⟨facing.known, facing.source, facing.fieldProjection⟩
  have enough : ∀ {earlier later : List HeldChunk}, file = earlier ++ later →
      later.length < reader.forwardFuel := by
    intro earlier later split
    have within := chunks.length_le split
    unfold forwardFuel
    rw [facing.source]
    omega
  rw [readRecord_eq]
  cases stands with
  | between split drained next steps =>
      have outcome := readRecordLoop_between chunks reader.forwardFuel (enough split) cleared split
        drained next steps
      exact ⟨outcome.result, outcome.stands, outcome.record, outcome.ended⟩
  | @inside earlier later chunk decoder split current begun next within yields =>
      obtain ⟨fuel, passes⟩ : ∃ smaller, reader.forwardFuel = smaller + 1 := ⟨_, rfl⟩
      rw [passes]
      by_cases left : reader.currentRecordIndex < chunk.records.length
      · obtain ⟨record, after, read, outcome⟩ := @readFromDecoder_record ext projection source file
          earlier later chunk { reader with pendingTrustedEnd := none } chunks decoder split current
          begun next left yields
        rw [readRecordLoop_succ, read]
        exact ⟨outcome.result, outcome.stands, outcome.record, outcome.ended⟩
      · have drained : decoder.Yields [] := by
          rw [List.drop_eq_nil_of_le (Nat.le_of_not_lt left)] at yields
          exact yields
        have all : reader.currentRecordIndex = chunk.records.length := by omega
        have counted : (heldRecords (earlier ++ [chunk])).length =
            (heldRecords earlier).length + reader.currentRecordIndex := by
          rw [heldRecords_append, List.length_append, heldRecords_cons, all]
          rw [heldRecords_nil, List.append_nil]
        have steps : StepsTo file
            { chunkBegin := reader.currentChunkBegin, recordIndex := reader.currentRecordIndex }
            (heldRecords (earlier ++ [chunk])).length := by
          exact ⟨earlier, chunk :: later, split, .inl begun, within, counted⟩
        rw [@readRecordLoop_drained ext { reader with pendingTrustedEnd := none } decoder fuel current
          drained, ← counted]
        have outcome := @readRecordLoop_between ext projection source file chunks (fuel + 1)
          (earlier ++ [chunk]) later
          { reader with pendingTrustedEnd := none, currentDecoder := none }
          (by rw [← passes]; exact enough (snoc_split split))
          ⟨facing.known, facing.source, facing.fieldProjection⟩ (snoc_split split) rfl next steps
        exact ⟨outcome.result, outcome.stands, outcome.record, outcome.ended⟩

/-! ## Opening -/

/-- A file is opened in front of its first record. -/
theorem HoldsRecords.opened_at {held : List HeldChunk}
    (holds : HoldsRecords ext options.fieldProjection source held) {opened : RecordReader}
    (isNew : RecordReader.new ext source options = .ok opened) :
    Facing source options.fieldProjection opened ∧
      ReaderAt ((signatureChunk ext).bare :: held) opened 0 := by
  refine ⟨(new_reading isNew).facing, ?_⟩
  rw [holds.source_eq, holds.whole.opened options] at isNew
  obtain rfl := Except.ok.inj isNew
  have none : (heldRecords [(signatureChunk ext).bare]).length = 0 := by
    rw [heldRecords_cons, heldRecords_nil, List.append_nil, Chunk.bare, List.length_nil]
  rw [← none]
  refine .between (List.singleton_append).symm rfl ?_ ?_
  · change firstDataChunk = (signatureChunk ext).stop 0
    rw [signatureChunk_stop, firstDataChunk, blockHeaderSize, chunkHeaderSize]
  · rw [none]
    exact ⟨[], _, (List.nil_append _).symm, .inr ⟨rfl, rfl⟩, Nat.zero_le _, rfl⟩

/-- Reads from the beginning come behind as many records. -/
theorem reads_at (chunks : FileChunks ext projection source file) (count : Nat) :
    ∀ {reader : RecordReader} {before : Nat}, Facing source projection reader →
      ReaderAt file reader before → before + count ≤ (heldRecords file).length →
      Facing source projection (runReader ext (List.replicate count .readRecord) reader) ∧
        ReaderAt file (runReader ext (List.replicate count .readRecord) reader) (before + count) := by
  induction count with
  | zero => exact fun facing stands _ => ⟨facing, stands⟩
  | succ count ih =>
      intro reader before facing stands within
      have next := (readRecord_at chunks facing stands).stands
      rw [Nat.min_eq_left (by omega)] at next
      have after := @readRecord_stays ext _ facingFrame_repositions reader facing
      have further := ih after next (by omega)
      rw [Nat.add_right_comm, Nat.add_assoc] at further
      exact further

/-- The last position behind a number of reads is that of the record read
last. -/
theorem lastPos_at (chunks : FileChunks ext projection source file)
    (facing : Facing source projection reader) (stands : ReaderAt file reader 0) {index : Nat}
    (within : index < (heldRecords file).length) :
    NamesRecord file
      (runReader ext (List.replicate (index + 1) .readRecord) reader).lastPos index := by
  obtain ⟨facingThere, there⟩ := reads_at chunks index facing stands (by omega)
  rw [Nat.zero_add] at there
  rw [List.replicate_succ', runReader_append]
  exact ((readRecord_at chunks facingThere there).record within).1

/-! ## Seeking -/

/-- The reader with another place and another chunk. -/
def RecordReader.sought (reader : RecordReader) (trusted : Option Nat) (next begun : Nat) :
    RecordReader :=
  { reader with
    pendingTrustedEnd := trusted
    nextChunkFilePos := next
    currentChunkBegin := begun }

/-- `load_chunk_at` in front of a chunk.  The induction is on the chunks
ahead. -/
theorem loadChunkAtLoop_at (chunks : FileChunks ext projection source file)
    (later : List HeldChunk) :
    ∀ {fuel : Nat} {earlier : List HeldChunk} {reader : RecordReader}, later.length < fuel →
      Facing source projection reader → file = earlier ++ later →
      Seeking reader (chunkPlace earlier) →
      StepsTo file { chunkBegin := reader.currentChunkBegin, recordIndex := 0 }
        (heldRecords earlier).length →
      ∃ trusted,
        (∃ between chunk rest, ∃ decoder : ActiveDecoder, later = between ++ chunk :: rest ∧
          heldRecords between = [] ∧ decoder.Yields chunk.records ∧
          loadChunkAtLoop ext fuel (chunkPlace earlier) reader =
            (.ok (some decoder),
              reader.sought trusted (chunkPlace (earlier ++ between ++ [chunk]))
                (chunkPlace (earlier ++ between)))) ∨
        (heldRecords later = [] ∧ ∃ begun,
          StepsTo file { chunkBegin := begun, recordIndex := 0 } (heldRecords earlier).length ∧
          loadChunkAtLoop ext fuel (chunkPlace earlier) reader =
            (.ok none, reader.sought trusted (chunkPlace file) begun)) := by
  induction later with
  | nil =>
      intro fuel earlier reader few facing split seeking steps
      obtain ⟨fuel, rfl⟩ : ∃ smaller, fuel = smaller + 1 := ⟨fuel - 1, by omega⟩
      rw [List.append_nil] at split
      subst split
      have absent := chunks.found_end
      rw [← facing.source, ← facing.fieldProjection] at absent
      have stands := seeking.stands
      refine ⟨none, .inr ⟨rfl, reader.currentChunkBegin, steps, ?_⟩⟩
      rw [loadChunkAtLoop_absent facing.known fuel absent, RecordReader.sought, ← stands]
  | cons chunk rest ih =>
      intro fuel earlier reader few facing split seeking steps
      rw [List.length_cons] at few
      obtain ⟨fuel, rfl⟩ : ∃ smaller, fuel = smaller + 1 := ⟨fuel - 1, by omega⟩
      rcases chunks.found split with ⟨decoder, yields, found⟩ | ⟨empty, passes⟩
      · rw [← facing.source, ← facing.fieldProjection] at found
        refine ⟨some (chunkPlace (earlier ++ [chunk])),
          .inl ⟨[], chunk, rest, decoder, rfl, rfl, yields, ?_⟩⟩
        rw [loadChunkAtLoop_holds seeking fuel found, List.append_nil]
        rfl
      · have split' := snoc_split split
        rw [← facing.source, ← facing.fieldProjection] at passes
        have same : (heldRecords (earlier ++ [chunk])).length = (heldRecords earlier).length := by
          rw [heldRecords_append, heldRecords_cons, empty]
          simp
        obtain ⟨trusted, outcome⟩ := @ih fuel (earlier ++ [chunk])
          (afterSeekFinding reader (chunkPlace earlier) (chunkPlace earlier)
            (.passes (chunkPlace (earlier ++ [chunk])))) (by omega)
          ⟨facing.known, facing.source, facing.fieldProjection⟩ split'
          ⟨facing.known, rfl, chunks.canonical split', seeking.fresh⟩
          ⟨earlier, chunk :: rest, split, .inl rfl, Nat.zero_le _, same⟩
        rw [loadChunkAtLoop_passes seeking fuel passes]
        refine ⟨trusted, ?_⟩
        rcases outcome with ⟨between, next, left, decoder, ahead, nothing, yields, loaded⟩ |
          ⟨nothing, begun, begins, loaded⟩
        · refine .inl ⟨chunk :: between, next, left, decoder, by rw [ahead]; rfl, ?_, yields, ?_⟩
          · rw [heldRecords_cons, empty, nothing, List.nil_append]
          · rw [loaded, List.append_assoc earlier, List.singleton_append]
            rfl
        · refine .inr ⟨?_, begun, by rw [← same]; exact begins, loaded⟩
          rw [heldRecords_cons, empty, nothing, List.nil_append]

/-- Skipping records in an open chunk, up to its end. -/
theorem skipRecords_yields (left : Nat) :
    ∀ {reader : RecordReader} {decoder : ActiveDecoder} {records : List Bytes},
      reader.currentDecoder = some decoder → decoder.Yields records →
      ∃ next : ActiveDecoder, next.Yields (records.drop left) ∧
        skipRecords left reader =
          (.ok (),
            { reader with
              currentDecoder := some next
              currentRecordIndex := reader.currentRecordIndex + min left records.length }) := by
  induction left with
  | zero =>
      intro reader decoder records current yields
      refine ⟨decoder, yields, ?_⟩
      rw [skipRecords, Nat.zero_min, Nat.add_zero, ← current]
      rfl
  | succ left ih =>
      intro reader decoder records current yields
      rw [skipRecords, Act.bind_run_ok (Act.get_run _), current]
      simp only [Act.bind_run, Act.lift_run, Act.modify_run]
      cases records with
      | nil =>
          have read : decoder.readRecord = .ok (none, decoder) := yields
          refine ⟨decoder, yields, ?_⟩
          simp only [read, Act.pure_run, List.length_nil, Nat.min_zero, Nat.add_zero]
      | cons record rest =>
          obtain ⟨handed, read, yieldsRest⟩ := yields
          obtain ⟨next, more, skipped⟩ := @ih
            { reader with
              currentDecoder := some handed
              currentRecordIndex := reader.currentRecordIndex + 1 } handed rest rfl yieldsRest
          refine ⟨next, more, ?_⟩
          simp only [read, Act.bind_run, Act.modify_run]
          rw [skipped, List.length_cons]
          have counted : reader.currentRecordIndex + 1 + min left rest.length =
              reader.currentRecordIndex + min (left + 1) (rest.length + 1) := by omega
          rw [counted]

/-- The end of a seek, once the decoder of a chunk is there. -/
theorem seekWithin_at (split : file = earlier ++ chunk :: later) {decoder : ActiveDecoder}
    (begun : reader.currentChunkBegin = chunkPlace earlier)
    (next : reader.nextChunkFilePos = chunkPlace (earlier ++ [chunk]))
    (fresh : reader.currentRecordIndex = 0) (yields : decoder.Yields chunk.records)
    {chunkFilePos recordIndex skips : Nat}
    (skipping : (if reader.currentChunkBegin = chunkFilePos then recordIndex else 0) = skips) :
    ∃ after, seekWithin chunkFilePos recordIndex decoder reader = (.ok (), after) ∧
      ReaderAt file after ((heldRecords earlier).length + min skips chunk.records.length) ∧
      after.pos =
        { chunkBegin := chunkFilePos, recordIndex := min skips chunk.records.length } ∧
      after.lastPos = reader.lastPos := by
  obtain ⟨handed, more, skipped⟩ := @skipRecords_yields skips
    { reader with currentDecoder := some decoder } decoder chunk.records rfl yields
  have index : reader.currentRecordIndex + min skips chunk.records.length =
      min skips chunk.records.length := by
    rw [fresh, Nat.zero_add]
  rw [seekWithin_run, skipping, skipped]
  simp only [index]
  refine ⟨_, rfl, ?_, rfl, rfl⟩
  refine .inside split rfl begun next (Nat.min_le_right _ _) ?_
  rcases Nat.le_total skips chunk.records.length with short | long
  · simp only [Nat.min_eq_left short]
    exact more
  · simp only [Nat.min_eq_right long]
    rw [List.drop_eq_nil_of_le long] at more
    rw [List.drop_length]
    exact more

theorem headRecords_nil (empty : heldRecords later = []) : headRecords later = [] := by
  cases later with
  | nil => rfl
  | cons chunk rest =>
      rw [heldRecords_cons] at empty
      exact (List.append_eq_nil_iff.mp empty).1

/-- What a seek behind `before` records comes to. -/
structure SeeksTo (file : List HeldChunk) (reader : RecordReader) (before : Nat)
    (outcome : Except Fault Unit × RecordReader) : Prop where
  result : outcome.1 = .ok ()
  stands : ReaderAt file outcome.2 before
  points : Points file outcome.2.pos before
  lastPos : outcome.2.lastPos = reader.lastPos

/-- A seek to a position of the file, from wherever the reader is. -/
theorem seek_at (chunks : FileChunks ext projection source file)
    (facing : Facing source projection reader) {target : RecordPosition}
    (points : Points file target before) : SeeksTo file reader before (seek ext target reader) := by
  obtain ⟨earlier, later, split, place, rfl⟩ := points
  have canonical := chunks.canonical split
  have within := chunks.length_le split
  have few : later.length < (reader.aimed (chunkPlace earlier)).forwardFuel := by
    change later.length < reader.source.length + 64
    rw [facing.source]
    omega
  obtain ⟨trusted, outcome⟩ := @loadChunkAtLoop_at ext projection source file chunks later
    (reader.aimed (chunkPlace earlier)).forwardFuel earlier (reader.aimed (chunkPlace earlier)) few
    ⟨facing.known, facing.source, facing.fieldProjection⟩ split ⟨facing.known, rfl, canonical, rfl⟩
    ⟨earlier, later, split, .inl rfl, Nat.zero_le _, rfl⟩
  rw [seek_eq, place, loadChunkAt, Act.bind_run_ok (Act.get_run _)]
  rcases outcome with ⟨between, chunk, rest, decoder, rfl, empty, yields, loaded⟩ |
    ⟨empty, begun, begins, loaded⟩
  · have here : file = (earlier ++ between) ++ chunk :: rest := by
      rw [split, List.append_assoc]
    simp only [loaded]
    cases between with
    | nil =>
        rw [List.append_nil] at here
        rw [List.append_nil, List.nil_append]
        obtain ⟨after, sought, stands, pos, lastPos⟩ := @seekWithin_at file earlier rest chunk
          ((reader.aimed (chunkPlace earlier)).sought trusted (chunkPlace (earlier ++ [chunk]))
            (chunkPlace earlier)) here decoder rfl rfl rfl yields (chunkPlace earlier)
          target.recordIndex target.recordIndex (if_pos rfl)
        rw [sought]
        refine ⟨rfl, stands, ⟨earlier, chunk :: rest, here, ?_, ?_⟩, lastPos⟩
        · rw [pos, canonical]
        · rw [pos, Nat.min_assoc]
          change _ = _ + min target.recordIndex (min chunk.records.length chunk.records.length)
          rw [Nat.min_self]
          rfl
    | cons first others =>
        -- the chunk at the place has no records, and the decoder is that of a later one
        have mono := (chunks.place_mono here).2
        rw [List.length_cons] at mono
        obtain ⟨after, sought, stands, pos, lastPos⟩ := @seekWithin_at file
          (earlier ++ first :: others) rest chunk
          ((reader.aimed (chunkPlace earlier)).sought trusted
            (chunkPlace (earlier ++ first :: others ++ [chunk]))
            (chunkPlace (earlier ++ first :: others))) here decoder rfl rfl rfl yields
          (chunkPlace earlier) target.recordIndex 0
          (if_neg (by
            change ¬ chunkPlace (earlier ++ first :: others) = chunkPlace earlier
            omega))
        have head : headRecords (first :: others ++ chunk :: rest) = [] :=
          @headRecords_nil (first :: others) empty
        have count : (heldRecords (earlier ++ first :: others)).length =
            (heldRecords earlier).length := by
          rw [heldRecords_append, empty, List.append_nil]
        rw [count, Nat.zero_min, Nat.add_zero] at stands
        rw [head, List.length_nil, Nat.min_zero, Nat.add_zero, sought]
        refine ⟨rfl, stands, ⟨earlier, first :: others ++ chunk :: rest, split, ?_, ?_⟩, lastPos⟩
        · rw [pos, canonical]
        · rw [head, List.length_nil, Nat.min_zero, Nat.add_zero]
  · have head : headRecords later = [] := headRecords_nil empty
    have total : (heldRecords file).length = (heldRecords earlier).length := by
      rw [split, heldRecords_append, empty, List.append_nil]
    rw [head, List.length_nil, Nat.min_zero, Nat.add_zero]
    simp only [loaded]
    refine ⟨rfl, ?_, ⟨earlier, later, split, canonical, ?_⟩, rfl⟩
    · rw [← total] at begins ⊢
      exact .between (List.append_nil file).symm rfl rfl begins
    · rw [head, List.length_nil, Nat.min_zero, Nat.add_zero]

end Riegeli
