/-
Module: Riegeli.Proofs.AnchoredReaders
Purpose: Wherever reads and seeks that succeed have led a reader, on any bytes,
  its position leads back to where it reads on.
Trusted boundary: the hash and the codecs
Main exports: Handed, Beside, SamePlace, Inside, Anchored, Anchored.names,
  readRecord_anchors, seek_anchors, seekBack_anchors
-/
import Riegeli.Proofs.ChunkSafety
import Riegeli.Proofs.Recovery
import Riegeli.Proofs.SeekAgreement
import Riegeli.Spec.ReaderWalks

namespace Riegeli

open RecordReader

variable {ext : Externals} {reader other after : RecordReader} {place chunkBegin stop count : Nat}
  {first decoder : ActiveDecoder}

/-! ## Records handed over -/

/-- The decoder is what is left of the first after so many records. -/
inductive Handed : ActiveDecoder → Nat → ActiveDecoder → Prop where
  | fresh {decoder : ActiveDecoder} : Handed decoder 0 decoder
  | record {first second decoder : ActiveDecoder} {count : Nat} {bytes : Bytes} :
      first.readRecord = .ok (some bytes, second) → Handed second count decoder →
      Handed first (count + 1) decoder

theorem Handed.onward {next : ActiveDecoder} {bytes : Bytes} (handed : Handed first count decoder)
    (read : decoder.readRecord = .ok (some bytes, next)) : Handed first (count + 1) next := by
  induction handed with
  | fresh => exact .record read .fresh
  | record earlier _ ih => exact .record earlier (ih read)

/-- Skipping the records that were handed over leads to the same decoder. -/
theorem skipRecords_handed (handed : Handed first count decoder) :
    ∀ {reader : RecordReader}, reader.currentDecoder = some first →
      skipRecords count reader =
        (.ok (),
          { reader with
            currentDecoder := some decoder
            currentRecordIndex := reader.currentRecordIndex + count }) := by
  induction handed with
  | fresh =>
      intro reader current
      rw [skipRecords, Nat.add_zero, ← current]
      rfl
  | @record first second decoder count bytes read _ ih =>
      intro reader current
      rw [skipRecords, Act.bind_run_ok (Act.get_run _), current]
      simp only [Act.bind_run, Act.lift_run, Act.modify_run, read]
      rw [ih rfl, Nat.add_assoc, Nat.add_comm 1 count]

/-- Skipping records, up to the end of the chunk, hands some of them over. -/
theorem skipRecords_hands (left : Nat) :
    ∀ {reader : RecordReader} {first : ActiveDecoder} {records : List Bytes},
      reader.currentDecoder = some first → first.Yields records →
      ∃ decoder, Handed first (min left records.length) decoder ∧
        skipRecords left reader =
          (.ok (),
            { reader with
              currentDecoder := some decoder
              currentRecordIndex := reader.currentRecordIndex + min left records.length }) := by
  induction left with
  | zero =>
      intro reader first records current _
      rw [Nat.zero_min]
      exact ⟨first, .fresh, skipRecords_handed .fresh current⟩
  | succ left ih =>
      intro reader first records current yields
      cases records with
      | nil =>
          have read : first.readRecord = .ok (none, first) := yields
          refine ⟨first, by rw [List.length_nil, Nat.min_zero]; exact .fresh, ?_⟩
          rw [skipRecords, Act.bind_run_ok (Act.get_run _), current]
          simp only [Act.bind_run, Act.lift_run, Act.modify_run, read, Act.pure_run,
            List.length_nil, Nat.min_zero, Nat.add_zero]
      | cons record rest =>
          obtain ⟨second, read, yieldsRest⟩ := yields
          obtain ⟨decoder, handed, skipped⟩ := @ih
            { reader with
              currentDecoder := some second
              currentRecordIndex := reader.currentRecordIndex + 1 } second rest rfl yieldsRest
          have counted : min (left + 1) (rest.length + 1) = min left rest.length + 1 := by omega
          rw [List.length_cons, counted]
          refine ⟨decoder, .record read handed, ?_⟩
          rw [skipRecords, Act.bind_run_ok (Act.get_run _), current]
          simp only [Act.bind_run, Act.lift_run, Act.modify_run, read]
          rw [skipped, Nat.add_assoc, Nat.add_comm 1]

/-! ## Seeks -/

/-- Where a reader of this source lands from a place. -/
def RecordReader.landsFrom (ext : Externals) (reader : RecordReader) (place : Nat) : Nat × Finding :=
  landsAt ext reader.source reader.fieldProjection place

/-- The reader behind a seek into a chunk. -/
def RecordReader.inside (reader : RecordReader) (position : RecordPosition) (chunkBegin stop : Nat)
    (decoder : ActiveDecoder) : RecordReader :=
  { reader with
    pendingTrustedEnd := some stop
    atEof := false
    nextChunkFilePos := stop
    currentChunkBegin := chunkBegin
    currentDecoder := some decoder
    currentRecordIndex := position.recordIndex
    pos := position }

/-- How a seek goes on where there is a chunk to read from. -/
theorem seek_holds (known : Known reader) {target : RecordPosition}
    (canonical : canonicalChunkAddress target.chunkBegin = place)
    (lands : reader.landsFrom ext place = (chunkBegin, .holds first stop)) :
    seek ext target reader =
      seekWithin place target.recordIndex first
        { passedChunk (reader.aimed place) reader.streamLen stop with
          currentChunkBegin := chunkBegin } := by
  obtain ⟨begun, entered, loaded⟩ := @loadChunkAt_lands ext reader known place
    (by rw [← canonical, canonicalChunkAddress_idem])
  unfold RecordReader.landsFrom at lands
  rw [lands] at entered loaded
  obtain rfl := entered first stop rfl
  rw [seek_eq, canonical, loaded]
  rfl

/-- A seek to a position whose chunk has handed over so many records. -/
theorem seek_inside (known : Known reader) (canonical : canonicalChunkAddress place = place)
    (lands : reader.landsFrom ext place = (chunkBegin, .holds first stop))
    (handed : Handed first count decoder) (within : chunkBegin = place ∨ count = 0) :
    seek ext { chunkBegin := place, recordIndex := count } reader =
      (.ok (), reader.inside { chunkBegin := place, recordIndex := count } chunkBegin stop decoder) := by
  have skips : (if chunkBegin = place then count else 0) = count := by
    rcases within with same | none
    · exact if_pos same
    · rw [none, ite_self]
  rw [seek_holds known canonical lands, seekWithin_run]
  dsimp only [passedChunk]
  rw [skips, skipRecords_handed handed rfl]
  simp only [RecordReader.aimed, Nat.zero_add]
  rfl

/-! ## Readers beside each other -/

/-- The readers face the same source alike, wherever they stand. -/
structure Beside (first second : RecordReader) : Prop where
  known : Known first
  knownSecond : Known second
  source : second.source = first.source
  recovery : second.recovery = first.recovery
  fieldProjection : second.fieldProjection = first.fieldProjection

/-- The frame that keeps a reader beside what it was. -/
def besideFrame : Frame RecordReader where
  rel before after := Known before → Beside before after
  refl _ known := ⟨known, known, rfl, rfl, rfl⟩
  trans first second known := by
    have early := first known
    have late := second early.knownSecond
    exact ⟨known, late.knownSecond, late.source.trans early.source,
      late.recovery.trans early.recovery, late.fieldProjection.trans early.fieldProjection⟩

theorem besideFrame_repositions : Repositions besideFrame where
  trusted _ _ known := ⟨known, known, rfl, rfl, rfl⟩
  measured _ known := ⟨known, rfl, rfl, rfl, rfl⟩
  reported _ _ _ known := ⟨known, known, rfl, rfl, rfl⟩
  moved before after source recovery _ projected measured _ known := by
    refine ⟨known, ?_, source, recovery, projected⟩
    rw [Known, measured, source]
    exact known

theorem Beside.streamLen {first second : RecordReader} (beside : Beside first second) :
    second.streamLen = first.streamLen := by
  have known := beside.known
  have knownSecond := beside.knownSecond
  unfold Known at known knownSecond
  rw [knownSecond, beside.source, known]

/-- A seek comes to the same wherever the reader stands. -/
theorem Beside.seek {first second : RecordReader} (beside : Beside first second)
    (unwavering : Unwavering first.recovery) (addressable : first.source.length ≤ u64Max)
    (target : RecordPosition) :
    (RecordReader.seek ext target second).1 = (RecordReader.seek ext target first).1 ∧
      Alike (RecordReader.seek ext target first).2 (RecordReader.seek ext target second).2 := by
  have moved : RecordReader.seek ext target
      { second with
        currentDecoder := first.currentDecoder
        nextChunkFilePos := first.nextChunkFilePos } = RecordReader.seek ext target second := by
    rw [seek_eq, seek_eq]
    rfl
  have agrees := @seek_agreeing ext first
    { second with
      currentDecoder := first.currentDecoder
      nextChunkFilePos := first.nextChunkFilePos }
    ⟨beside.known, beside.source, beside.streamLen, beside.recovery, beside.fieldProjection, rfl,
      rfl⟩ unwavering addressable target
  rw [moved] at agrees
  exact ⟨agrees.result, agrees.alike⟩

/-- So does what a position leads to. -/
theorem Beside.leadsTo {first second : RecordReader} (beside : Beside first second)
    (unwavering : Unwavering first.recovery) (addressable : first.source.length ≤ u64Max)
    (pos : second.pos = first.pos) {record : Option Bytes} (leads : LeadsTo ext first record) :
    LeadsTo ext second record := by
  obtain ⟨sought, read⟩ := leads
  obtain ⟨same, alike⟩ := @Beside.seek ext first second beside unwavering addressable first.pos
  have stays := @seek_stays ext _ besideFrame_repositions first.pos first beside.known
  have agrees := @readRecord_agreeing ext _ _ alike (by rw [stays.recovery]; exact unwavering)
    (by rw [stays.source]; exact addressable)
  refine ⟨?_, ?_⟩
  · rw [pos, same, sought]
  · rw [pos, agrees.result, read]

/-- The readers are beside each other, at the same place. -/
structure SamePlace (first second : RecordReader) : Prop extends Beside first second where
  decoder : second.currentDecoder = first.currentDecoder
  begun : second.currentChunkBegin = first.currentChunkBegin
  next : second.nextChunkFilePos = first.nextChunkFilePos
  index : second.currentRecordIndex = first.currentRecordIndex
  pos : second.pos = first.pos

/-- The frame that keeps a reader at its place. -/
def samePlaceFrame : Frame RecordReader where
  rel before after := Known before → SamePlace before after
  refl _ known := ⟨⟨known, known, rfl, rfl, rfl⟩, rfl, rfl, rfl, rfl, rfl⟩
  trans first second known := by
    have early := first known
    have late := second early.knownSecond
    exact ⟨besideFrame.trans (fun _ => early.toBeside) (fun _ => late.toBeside) known,
      late.decoder.trans early.decoder, late.begun.trans early.begun, late.next.trans early.next,
      late.index.trans early.index, late.pos.trans early.pos⟩

theorem samePlaceFrame_inspects : Inspects samePlaceFrame where
  trusted _ _ known := ⟨⟨known, known, rfl, rfl, rfl⟩, rfl, rfl, rfl, rfl, rfl⟩
  measured _ known := ⟨⟨known, rfl, rfl, rfl, rfl⟩, rfl, rfl, rfl, rfl, rfl⟩
  reported _ _ _ known := ⟨⟨known, known, rfl, rfl, rfl⟩, rfl, rfl, rfl, rfl, rfl⟩

/-! ## Anchored readers -/

/-- The reader is in a chunk that it has opened from the place. -/
structure Inside (ext : Externals) (reader : RecordReader) (place : Nat) : Prop where
  canonical : canonicalChunkAddress place = place
  opened : ∃ first decoder,
    reader.landsFrom ext place = (reader.currentChunkBegin, .holds first reader.nextChunkFilePos) ∧
      Handed first reader.currentRecordIndex decoder ∧ reader.currentDecoder = some decoder
  within : reader.currentChunkBegin = place ∨ reader.currentRecordIndex = 0

/-- The position leads back to where the reader reads on: the reader is in a
chunk that it has opened from the position, it is in front of a chunk that the
position names, or it is at the end. -/
inductive Anchored (ext : Externals) (reader : RecordReader) : Prop where
  | inside : Inside ext reader reader.pos.chunkBegin →
      reader.pos.recordIndex = reader.currentRecordIndex → Anchored ext reader
  | ahead : reader.currentDecoder = none →
      canonicalChunkAddress reader.nextChunkFilePos = reader.nextChunkFilePos →
      reader.pos = { chunkBegin := reader.nextChunkFilePos, recordIndex := 0 } →
      Anchored ext reader
  | ended : reader.currentDecoder = none →
      findChunk ext reader.source reader.fieldProjection reader.nextChunkFilePos = .absent →
      LeadsTo ext reader none → Anchored ext reader

/-- A reader at the end stays there. -/
theorem readRecord_ended (known : Known reader) (drained : reader.currentDecoder = none)
    (absent : findChunk ext reader.source reader.fieldProjection reader.nextChunkFilePos = .absent) :
    readRecord ext reader = (.ok none, { reader with pendingTrustedEnd := none, atEof := true }) :=
  readRecord_absent drained known (landsAt_of_found absent (by simp))

/-- A reader in a chunk goes on behind a seek as it does without one. -/
theorem Inside.names {place : Nat} (inside : Inside ext reader place) (known : Known reader)
    (unwavering : Unwavering reader.recovery) (addressable : reader.source.length ≤ u64Max)
    (pos : reader.pos = { chunkBegin := place, recordIndex := reader.currentRecordIndex }) :
    NamesPlace ext reader := by
  intro record read
  obtain ⟨first, decoder, lands, handed, current⟩ := inside.opened
  have sought := seek_inside known inside.canonical lands handed inside.within
  have alike : Alike reader
      (reader.inside { chunkBegin := place, recordIndex := reader.currentRecordIndex }
        reader.currentChunkBegin reader.nextChunkFilePos decoder) :=
    ⟨known, rfl, rfl, rfl, rfl, current.symm, rfl⟩
  have agrees := @readRecord_agreeing ext _ _ alike unwavering addressable
  unfold LeadsTo
  rw [pos, sought]
  exact ⟨rfl, agrees.result.trans read⟩

/-- What an anchored reader reads it reads behind a seek to its position too. -/
theorem Anchored.names (anchored : Anchored ext reader) (known : Known reader)
    (unwavering : Unwavering reader.recovery) (addressable : reader.source.length ≤ u64Max) :
    NamesPlace ext reader := by
  cases anchored with
  | inside inside index =>
      exact inside.names known unwavering addressable (by rw [← index])
  | ahead drained canonical pos =>
      intro record read
      have agrees := @seekThere_agrees ext reader reader
        ⟨known, known, rfl, rfl, rfl, drained, canonical⟩ unwavering addressable
      unfold seekThere at agrees
      rw [← pos] at agrees
      unfold LeadsTo
      generalize seek ext reader.pos reader = outcome at agrees ⊢
      obtain ⟨result, sought⟩ := outcome
      cases result with
      | ok done => exact ⟨rfl, agrees.1.trans read⟩
      | error fault => cases agrees.1.symm.trans read
  | ended drained absent leads =>
      intro record read
      rw [readRecord_ended known drained absent] at read
      cases read
      exact leads

/-- A reader that stays at its place stays anchored. -/
theorem Anchored.samePlace (anchored : Anchored ext reader) (placed : SamePlace reader other)
    (unwavering : Unwavering reader.recovery) (addressable : reader.source.length ≤ u64Max) :
    Anchored ext other := by
  cases anchored with
  | inside inside index =>
      obtain ⟨first, decoder, lands, handed, current⟩ := inside.opened
      refine .inside ⟨?_, ⟨first, decoder, ?_, ?_, ?_⟩, ?_⟩ ?_
      · rw [placed.pos]
        exact inside.canonical
      · unfold RecordReader.landsFrom at lands ⊢
        rw [placed.source, placed.fieldProjection, placed.pos, lands, placed.begun, placed.next]
      · rw [placed.index]
        exact handed
      · rw [placed.decoder, current]
      · rw [placed.begun, placed.pos, placed.index]
        exact inside.within
      · rw [placed.pos, placed.index, index]
  | ahead drained canonical pos =>
      refine .ahead (placed.decoder.trans drained) ?_ ?_
      · rw [placed.next, canonical]
      · rw [placed.pos, placed.next, pos]
  | ended drained absent leads =>
      refine .ended (placed.decoder.trans drained) ?_ ?_
      · rw [placed.source, placed.fieldProjection, placed.next, absent]
      · exact placed.toBeside.leadsTo unwavering addressable placed.pos leads

/-! ## Reads -/

/-- A chunk that the source lands the reader in front of is opened from its own
place. -/
theorem landsFrom_landed {found : Finding} (lands : reader.landed ext = (place, found)) :
    reader.landsFrom ext (canonicalChunkAddress place) = (canonicalChunkAddress place, found) := by
  have stands := @RecordReader.landed_lands ext reader
  rw [lands] at stands
  refine landsAt_of_found ?_ stands.settled
  rw [findChunk_canonical]
  exact stands.found

/-- Recovery that lets a reader go on leaves it behind a region. -/
theorem recoverOrFail_resumes (addressable : reader.source.length ≤ u64Max) {error : RiegeliError}
    {more : Bool} (resumed : recoverOrFail ext error reader = (.ok more, after)) :
    more = true ∧ ∃ extent,
      regionExtent ext reader (regionStart reader.lastSkippedRegion reader.nextChunkFilePos)
          reader.pendingTrustedEnd = .ok extent ∧
        after = reader.recovered (reader.regionOf reader.nextChunkFilePos extent error) := by
  cases recovery : reader.recovery with
  | none =>
      rw [recoverOrFail_none recovery] at resumed
      cases resumed
  | some callback =>
      obtain ⟨extent, extended, goes⟩ := @recoverOrFail_some ext reader callback recovery
        addressable error
      rw [goes] at resumed
      obtain ⟨verdict, rfl⟩ := Prod.mk.inj resumed
      refine ⟨?_, extent, extended, rfl⟩
      split at verdict
      · exact (Except.ok.inj verdict).symm
      · cases verdict

/-- A load that succeeds opens the next chunk, or goes past a region. -/
theorem advanceChunk_enters (known : Known reader) (addressable : reader.source.length ≤ u64Max)
    (advanced : advanceChunk ext reader = (.ok true, after)) :
    (after.currentDecoder = none ∧ after.pos = reader.pos) ∨
      (Inside ext after after.currentChunkBegin ∧
        after.pos =
          { chunkBegin := after.currentChunkBegin, recordIndex := after.currentRecordIndex }) := by
  rw [advanceChunk_lands known, RecordReader.afterLanding] at advanced
  cases landed : reader.landed ext with
  | mk place found =>
      rw [landed] at advanced
      cases found with
      | absent => cases advanced
      | passes stop => cases advanced
      | holds decoder stop =>
          have opened := landsFrom_landed landed
          cases advanced
          exact .inr ⟨⟨canonicalChunkAddress_idem place, ⟨decoder, decoder, opened, .fresh, rfl⟩,
            .inl rfl⟩, rfl⟩
      | fails fault trusted =>
          cases fault with
          | panic kind => cases advanced
          | outOfFuel => cases advanced
          | error error =>
              have resumed := @recoverOrFail_resumes ext
                (afterFinding { reader with nextChunkFilePos := place } place
                  (.fails (.error error) trusted)) after addressable error true advanced
              obtain ⟨_, extent, _, rfl⟩ := resumed
              exact .inl ⟨rfl, rfl⟩

/-- A load that finds nothing leaves the reader at the end. -/
theorem advanceChunk_ends (known : Known reader) (addressable : reader.source.length ≤ u64Max)
    (advanced : advanceChunk ext reader = (.ok false, after)) :
    after.currentDecoder = reader.currentDecoder ∧ after.pos = reader.pos ∧
      findChunk ext after.source after.fieldProjection after.nextChunkFilePos = .absent := by
  have stands := @RecordReader.landed_lands ext reader
  rw [advanceChunk_lands known, RecordReader.afterLanding] at advanced
  cases landed : reader.landed ext with
  | mk place found =>
      rw [landed] at advanced stands
      cases found with
      | absent =>
          cases advanced
          exact ⟨rfl, rfl, stands.found⟩
      | passes stop => exact absurd rfl (stands.settled stop)
      | holds decoder stop => cases advanced
      | fails fault trusted =>
          cases fault with
          | panic kind => cases advanced
          | outOfFuel => cases advanced
          | error error =>
              have resumed := @recoverOrFail_resumes ext
                (afterFinding { reader with nextChunkFilePos := place } place
                  (.fails (.error error) trusted)) after addressable error false advanced
              cases resumed.1

/-- The record that a chunk hands over leaves the position behind it. -/
theorem Inside.handed {next : ActiveDecoder} {bytes : Bytes} (inside : Inside ext reader place)
    (current : reader.currentDecoder = some decoder)
    (read : decoder.readRecord = .ok (some bytes, next)) :
    Anchored ext (handedRecord reader next) := by
  obtain ⟨first, same, lands, handed, opened⟩ := inside.opened
  obtain rfl := Option.some.inj (current.symm.trans opened)
  have stands := @landsAt_lands ext reader.source reader.fieldProjection place
  have again := @landsAt_idem ext reader.source reader.fieldProjection place
  unfold RecordReader.landsFrom at lands
  rw [lands] at stands again
  refine .inside ⟨?_, ⟨first, next, again, handed.onward read, rfl⟩, .inl rfl⟩ rfl
  rcases stands.possible with same | possible
  · have begun : reader.currentChunkBegin = place := same
    show canonicalChunkAddress reader.currentChunkBegin = reader.currentChunkBegin
    rw [begun, inside.canonical]
  · exact canonicalChunkAddress_eq possible

/-- The open chunk of the reader, if there is one, was opened from a place. -/
def Enclosed (ext : Externals) (reader : RecordReader) : Prop :=
  reader.currentDecoder ≠ none → ∃ place, Inside ext reader place

theorem Anchored.enclosed (anchored : Anchored ext reader) : Enclosed ext reader := by
  intro opened
  cases anchored with
  | inside inside _ => exact ⟨_, inside⟩
  | ahead drained _ _ => exact absurd drained opened
  | ended drained _ _ => exact absurd drained opened

/-- A read that returns a record leaves the position behind it. -/
theorem readRecordLoop_hands {bytes : Bytes} : ∀ {fuel : Nat} {reader after : RecordReader},
    Known reader → reader.source.length ≤ u64Max → Enclosed ext reader →
    readRecordLoop ext fuel reader = (.ok (some bytes), after) → Anchored ext after := by
  intro fuel
  induction fuel with
  | zero =>
      intro reader after _ _ _ ran
      cases ran
  | succ fuel ih =>
      intro reader after known addressable enclosed ran
      rw [readRecordLoop_succ] at ran
      generalize handed : readFromDecoder reader = outcome at ran
      cases handed ▸ readFromDecoder_handing reader with
      | record current read =>
          obtain ⟨place, inside⟩ := enclosed (by rw [current]; simp)
          cases ran
          exact inside.handed current read
      | faulty _ => cases ran
      | drained _ =>
          have ready : Known { reader with currentDecoder := none } := known
          simp only at ran
          generalize advanced : advanceChunk ext { reader with currentDecoder := none } = outcome
            at ran
          obtain ⟨result, entered⟩ := outcome
          have beside := @advanceChunk_stays ext _ besideFrame_repositions
            { reader with currentDecoder := none } ready
          rw [advanced] at beside
          cases result with
          | error fault => cases ran
          | ok more =>
              cases more with
              | false => cases ran
              | true =>
                  have enters := @advanceChunk_enters ext { reader with currentDecoder := none }
                    entered ready addressable advanced
                  refine ih beside.knownSecond (by rw [beside.source]; exact addressable) ?_ ran
                  rcases enters with ⟨drained, _⟩ | ⟨inside, _⟩
                  · exact fun opened => absurd drained opened
                  · exact fun _ => ⟨_, inside⟩

/-- A read that comes to the end leaves the position where it leads to the end. -/
theorem readRecordLoop_ends : ∀ {fuel : Nat} {reader after : RecordReader},
    Known reader → Unwavering reader.recovery → reader.source.length ≤ u64Max →
    reader.source.length + 25 < fuel + reader.nextChunkFilePos → LeadsTo ext reader none →
    readRecordLoop ext fuel reader = (.ok none, after) → Anchored ext after := by
  intro fuel
  induction fuel with
  | zero =>
      intro reader after _ _ _ _ _ ran
      cases ran
  | succ fuel ih =>
      intro reader after known unwavering addressable enough leads ran
      rw [readRecordLoop_succ] at ran
      generalize handed : readFromDecoder reader = outcome at ran
      cases handed ▸ readFromDecoder_handing reader with
      | record current read => cases ran
      | faulty _ => cases ran
      | drained _ =>
          have ready : Known { reader with currentDecoder := none } := known
          have moved : Beside reader { reader with currentDecoder := none } :=
            ⟨known, known, rfl, rfl, rfl⟩
          have stays := @Beside.leadsTo ext _ _ moved unwavering addressable rfl _ leads
          simp only at ran
          generalize advanced : advanceChunk ext { reader with currentDecoder := none } = outcome
            at ran
          obtain ⟨result, entered⟩ := outcome
          have beside := @advanceChunk_stays ext _ besideFrame_repositions
            { reader with currentDecoder := none } ready
          rw [advanced] at beside
          cases result with
          | error fault => cases ran
          | ok more =>
              cases more with
              | false =>
                  cases ran
                  obtain ⟨drained, pos, absent⟩ := @advanceChunk_ends ext
                    { reader with currentDecoder := none } after ready addressable advanced
                  exact .ended drained absent (beside.leadsTo unwavering addressable pos stays)
              | true =>
                  simp only at ran
                  have positive : 0 < fuel := by
                    cases fuel with
                    | zero => cases ran
                    | succ fuel => exact Nat.succ_pos fuel
                  have onward := (@advanceChunk_on ext { reader with currentDecoder := none }
                    entered ready addressable advanced).1
                  have known' := beside.knownSecond
                  have unwavering' : Unwavering entered.recovery := by
                    rw [beside.recovery]
                    exact unwavering
                  have source : entered.source = reader.source := beside.source
                  have addressable' : entered.source.length ≤ u64Max := by
                    rw [source]
                    exact addressable
                  have enough' : entered.source.length + 25 < fuel + entered.nextChunkFilePos := by
                    rw [source]
                    dsimp only at onward
                    omega
                  refine ih known' unwavering' addressable' enough' ?_ ran
                  rcases @advanceChunk_enters ext { reader with currentDecoder := none } entered ready
                    addressable advanced with ⟨_, pos⟩ | ⟨inside, pos⟩
                  · exact beside.leadsTo unwavering addressable pos stays
                  · -- a chunk without records: its position leads on past it
                    refine inside.names known' unwavering' addressable' pos none ?_
                    have same : Alike entered { entered with pendingTrustedEnd := none } :=
                      ⟨known', rfl, rfl, rfl, rfl, rfl, rfl⟩
                    have agrees := @readRecordLoop_agreeing ext fuel entered.forwardFuel _ _ same
                      unwavering' addressable' enough' positive
                      (by unfold forwardFuel; omega) (by unfold forwardFuel; omega)
                    rw [readRecord_eq, agrees.result, ran]

/-- A read that succeeds leaves an anchored reader anchored. -/
theorem readRecord_anchors (known : Known reader) (unwavering : Unwavering reader.recovery)
    (addressable : reader.source.length ≤ u64Max) (anchored : Anchored ext reader)
    {record : Option Bytes} (read : readRecord ext reader = (.ok record, after)) :
    Anchored ext after := by
  have moved : Beside reader { reader with pendingTrustedEnd := none } :=
    ⟨known, known, rfl, rfl, rfl⟩
  have names := anchored.names known unwavering addressable record (by rw [read])
  have ran := read
  rw [readRecord_eq] at ran
  cases record with
  | some bytes =>
      refine readRecordLoop_hands (by exact known) (by exact addressable) ?_ ran
      intro opened
      obtain ⟨place, inside⟩ := anchored.enclosed opened
      exact ⟨place, inside.canonical, inside.opened, inside.within⟩
  | none =>
      refine readRecordLoop_ends (by exact known) (by exact unwavering) (by exact addressable) ?_
        (moved.leadsTo unwavering addressable rfl names) ran
      unfold forwardFuel
      dsimp only
      omega

/-! ## Seeks that succeed -/

/-- A position with no chunk at or behind it leads to the end. -/
theorem leadsTo_absent (known : Known reader)
    (absent : (reader.landsFrom ext (canonicalChunkAddress reader.pos.chunkBegin)).2 = .absent) :
    LeadsTo ext reader none := by
  obtain ⟨begun, _, loaded⟩ := @loadChunkAt_lands ext reader known
    (canonicalChunkAddress reader.pos.chunkBegin) (canonicalChunkAddress_idem _)
  have lands := @landsAt_lands ext reader.source reader.fieldProjection
    (canonicalChunkAddress reader.pos.chunkBegin)
  have found := lands.found
  unfold RecordReader.landsFrom at absent
  rw [absent] at found loaded
  unfold LeadsTo
  rw [seek_eq, loaded]
  simp only [seekResult]
  refine ⟨trivial, congrArg Prod.fst (readRecord_ended ?_ rfl ?_)⟩
  · exact known
  · exact found

/-- The region behind a failure ends where a chunk may begin, or past the end of
the source. -/
theorem recovered_stop (known : Known reader) (addressable : reader.source.length ≤ u64Max)
    {error : RiegeliError} {trusted : Option Nat}
    (fails : findChunk ext reader.source reader.fieldProjection place = .fails (.error error) trusted)
    (canonical : canonicalChunkAddress place = place) (last : Option SkippedRegion) {extent : Nat}
    (extended : regionExtent ext reader (regionStart last place) trusted = .ok extent) :
    isPossibleChunkBoundary (regionStop (regionStart last place) place extent) = true ∨
      reader.source.length ≤ regionStop (regionStart last place) place extent := by
  have below : place < u64Max := findChunk_below addressable (by rw [fails]; simp)
  rw [regionStart_canonical last canonical] at extended ⊢
  cases trusted with
  | none =>
      obtain ⟨other, same, ends⟩ := @untrusted_stop ext _ _ addressable below
      rw [regionExtent_known known, extended] at same
      cases same
      exact ends
  | some stop =>
      cases extended
      have found : (findChunk ext reader.source reader.fieldProjection place).stop = some extent := by
        rw [fails]
        rfl
      have possible := findChunk_stop_possible found
      rw [trusted_stop possible (findChunk_stop_lt found) below]
      exact .inl possible

/-- Behind a region that a seek has gone past, the reader is in front of a chunk
or at the end. -/
theorem recovered_anchors (known : Known reader)
    (whole : isPossibleChunkBoundary reader.source.length = true)
    (drained : reader.currentDecoder = none)
    (pos : reader.pos = { chunkBegin := reader.nextChunkFilePos, recordIndex := 0 })
    (stops : isPossibleChunkBoundary reader.nextChunkFilePos = true ∨
      reader.source.length ≤ reader.nextChunkFilePos) : Anchored ext reader := by
  by_cases canonical : canonicalChunkAddress reader.nextChunkFilePos = reader.nextChunkFilePos
  · exact .ahead drained canonical pos
  · -- only the second address of a boundary that is past the end is left
    have past : reader.source.length ≤ canonicalChunkAddress reader.nextChunkFilePos := by
      rcases stops with possible | past
      · exact absurd (canonicalChunkAddress_eq possible) canonical
      · rw [isPossibleChunkBoundary_iff] at whole
        unfold canonicalChunkAddress blockSize blockHeaderSize at canonical ⊢
        by_cases second : reader.nextChunkFilePos % 65536 = 24
        · rw [if_pos second]
          omega
        · exact absurd (if_neg second) canonical
    refine .ended drained (findChunk_past past) (leadsTo_absent known ?_)
    have absent := @findChunk_past ext reader.source reader.fieldProjection
      (canonicalChunkAddress reader.nextChunkFilePos) (by rw [canonicalChunkAddress_idem]; exact past)
    rw [pos]
    unfold RecordReader.landsFrom
    rw [landsAt_of_found absent (by simp)]

/-- A seek into a chunk leaves the reader behind the records that it skips. -/
theorem seekWithin_anchors {index : Nat} {records : List Bytes}
    (canonical : canonicalChunkAddress place = place)
    (lands : reader.landsFrom ext place = (reader.currentChunkBegin, .holds first reader.nextChunkFilePos))
    (yields : first.Yields records) (fresh : reader.currentRecordIndex = 0)
    (sought : seekWithin place index first reader = (.ok (), after)) : Anchored ext after := by
  rw [seekWithin_run] at sought
  obtain ⟨current, handed, skipped⟩ := @skipRecords_hands
    (if reader.currentChunkBegin = place then index else 0)
    { reader with currentDecoder := some first } first records rfl yields
  rw [skipped] at sought
  obtain ⟨_, rfl⟩ := Prod.mk.inj sought
  refine .inside ⟨canonical, ⟨first, current, lands, ?_, rfl⟩, ?_⟩ rfl
  · dsimp only
    rw [fresh, Nat.zero_add]
    exact handed
  · by_cases same : reader.currentChunkBegin = place
    · exact .inl same
    · right
      dsimp only
      rw [fresh, if_neg same, Nat.zero_min]

/-- A seek that recovers from a failure leaves the reader behind the region. -/
theorem recoverSeek_anchors (known : Known reader) (addressable : reader.source.length ≤ u64Max)
    (whole : isPossibleChunkBoundary reader.source.length = true) {error : RiegeliError}
    (canonical : canonicalChunkAddress reader.nextChunkFilePos = reader.nextChunkFilePos)
    (fails : findChunk ext reader.source reader.fieldProjection reader.nextChunkFilePos =
      .fails (.error error) reader.pendingTrustedEnd)
    (sought : recoverSeek ext error reader = (.ok (), after)) : Anchored ext after := by
  rw [recoverSeek_eq] at sought
  generalize recovers : recoverOrFail ext error reader = outcome at sought
  obtain ⟨result, resumed⟩ := outcome
  cases result with
  | error fault => cases sought
  | ok more =>
      obtain ⟨_, extent, extended, rfl⟩ := recoverOrFail_resumes addressable recovers
      have stops := recovered_stop known addressable fails canonical _ extended
      obtain ⟨_, rfl⟩ := Prod.mk.inj sought
      exact recovered_anchors (by exact known) (by exact whole) rfl rfl stops

/-- A seek that succeeds leaves the reader anchored, wherever it stood. -/
theorem seek_anchors (known : Known reader) (addressable : reader.source.length ≤ u64Max)
    (whole : isPossibleChunkBoundary reader.source.length = true) {target : RecordPosition}
    (sought : seek ext target reader = (.ok (), after)) : Anchored ext after := by
  have canonical := canonicalChunkAddress_idem target.chunkBegin
  obtain ⟨begun, entered, loaded⟩ := @loadChunkAt_lands ext reader known _ canonical
  have lands := @landsAt_lands ext reader.source reader.fieldProjection
    (canonicalChunkAddress target.chunkBegin)
  have secure := @landsAt_secure ext reader.source reader.fieldProjection
    (canonicalChunkAddress target.chunkBegin)
  rw [seek_eq, loaded] at sought
  clear loaded
  generalize canonicalChunkAddress target.chunkBegin = aim at canonical sought entered lands secure
  cases landed : landsAt ext reader.source reader.fieldProjection aim with
  | mk place found =>
      rw [landed] at sought entered lands secure
      cases found with
      | absent =>
          simp only [seekResult] at sought
          obtain ⟨_, rfl⟩ := Prod.mk.inj sought
          refine .ended rfl lands.found (leadsTo_absent (by exact known) ?_)
          show (landsAt ext reader.source reader.fieldProjection (canonicalChunkAddress aim)).2 =
            .absent
          rw [canonical, landed]
      | passes stop => exact absurd rfl (lands.settled stop)
      | holds decoder stop =>
          obtain ⟨records, yields⟩ := secure
          obtain rfl := entered decoder stop rfl
          exact seekWithin_anchors canonical (by exact landed) yields rfl sought
      | fails fault trusted =>
          cases fault with
          | panic kind => cases sought
          | outOfFuel => cases sought
          | error error =>
              have unmoved : canonicalChunkAddress place = place := by
                rcases lands.possible with same | possible
                · have here : place = aim := same
                  rw [here, canonical]
                · exact canonicalChunkAddress_eq possible
              exact recoverSeek_anchors (by exact known) (by exact addressable) (by exact whole)
                unmoved lands.found sought

/-- A step back that succeeds is a seek, or leaves the reader at its place. -/
theorem seekBackLoop_anchors : ∀ {fuel chunkPos : Nat} {reader after : RecordReader} {stepped : Bool},
    Known reader → Unwavering reader.recovery → reader.source.length ≤ u64Max →
    isPossibleChunkBoundary reader.source.length = true → Anchored ext reader →
    seekBackLoop ext fuel chunkPos reader = (.ok stepped, after) → Anchored ext after := by
  intro fuel
  induction fuel with
  | zero =>
      intro chunkPos reader after stepped _ _ _ _ _ ran
      cases ran
  | succ fuel ih =>
      intro chunkPos reader after stepped known unwavering addressable whole anchored ran
      rw [seekBackLoop] at ran
      by_cases more : firstDataChunk < chunkPos
      · rw [if_pos more] at ran
        obtain ⟨found, next, before, ran⟩ := Act.run_bind_ok.mp ran
        have placed := @findChunkBefore_stays ext _ samePlaceFrame_inspects (chunkPos - 1) reader known
        rw [before] at placed
        have still := anchored.samePlace placed unwavering addressable
        have source : next.source = reader.source := placed.source
        have known' : Known next := placed.knownSecond
        rw [← source] at addressable whole
        cases found with
        | none =>
            cases ran
            exact still
        | some found =>
            obtain ⟨chunkBegin, header⟩ := found
            dsimp only at ran
            by_cases filled : 0 < header.numRecords
            · rw [if_pos filled] at ran
              obtain ⟨_, _, sought, ran⟩ := Act.run_bind_ok.mp ran
              cases ran
              exact seek_anchors known' addressable whole sought
            · rw [if_neg filled] at ran
              by_cases stuck : chunkPos ≤ chunkBegin
              · rw [if_pos stuck] at ran
                cases ran
                exact still
              · rw [if_neg stuck] at ran
                exact ih known' (by rw [placed.recovery]; exact unwavering) addressable whole still
                  ran
      · rw [if_neg more] at ran
        cases ran
        exact anchored

theorem seekBack_anchors (known : Known reader) (unwavering : Unwavering reader.recovery)
    (addressable : reader.source.length ≤ u64Max)
    (whole : isPossibleChunkBoundary reader.source.length = true) (anchored : Anchored ext reader)
    {stepped : Bool} (ran : seekBack ext reader = (.ok stepped, after)) : Anchored ext after := by
  have cleared : SamePlace reader { reader with pendingTrustedEnd := none } :=
    samePlaceFrame_inspects.trusted reader none known
  have still := anchored.samePlace cleared unwavering addressable
  unfold seekBack at ran
  rw [Act.bind_run_ok (by rfl : setTrustedEnd none reader = (.ok (), _)),
    Act.bind_run_ok (Act.get_run _)] at ran
  split at ran
  · obtain ⟨_, _, sought, ran⟩ := Act.run_bind_ok.mp ran
    cases ran
    exact seek_anchors cleared.knownSecond addressable whole sought
  · exact seekBackLoop_anchors cleared.knownSecond unwavering addressable whole still ran

end Riegeli
