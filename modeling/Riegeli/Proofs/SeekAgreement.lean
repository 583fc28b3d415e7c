/-
Module: Riegeli.Proofs.SeekAgreement
Purpose: Seeking to a chunk that a sequential read comes to, on a fresh reader
  of the same source, goes on as the sequential read does.
Trusted boundary: the hash and the codecs
Main exports: Sequential.reading, readRecord_drained, seekThere_agrees,
  reads_agreeing, loaders_agree, seek_sequential
-/
import Riegeli.Spec.SequentialReads
import Riegeli.Proofs.InspectionCalls

namespace Riegeli

open RecordReader

variable {ext : Externals} {reader fresh : RecordReader}

/-! ## The states of a sequential read -/

/-- The frame that keeps the projection. -/
def projectionFrame : Frame RecordReader := Frame.ofView RecordReader.fieldProjection

theorem projectionFrame_repositions : Repositions projectionFrame where
  trusted _ _ := rfl
  measured _ := rfl
  reported _ _ _ := rfl
  moved _ _ _ _ _ projection _ _ := projection

/-- What holds of a reader in every state of a sequential read. -/
structure Reading (source : Bytes) (options : ReaderOptions) (reader : RecordReader) :
    Prop where
  measured : Measured source options.recovery reader
  projected : reader.fieldProjection = options.fieldProjection

theorem Reading.after {source : Bytes} {options : ReaderOptions} {before after : RecordReader}
    (reading : Reading source options before) (stays : sourceFrame.rel before after)
    (projected : projectionFrame.rel before after) : Reading source options after :=
  ⟨reading.measured.after stays, Eq.trans projected reading.projected⟩

theorem new_reading {source : Bytes} {options : ReaderOptions} {opened : RecordReader}
    (isNew : RecordReader.new ext source options = .ok opened) :
    Reading source options opened :=
  ⟨new_measured isNew, new_stays projectionFrame_repositions isNew⟩

theorem Sequential.reading {source : Bytes} {options : ReaderOptions}
    (sequential : Sequential ext source options reader) : Reading source options reader := by
  have kept := sourceFrame_repositions
  have projected := projectionFrame_repositions
  induction sequential with
  | opened isNew => exact new_reading isNew
  | @handed reader next record _ read ih =>
      have first := readFromDecoder_stays kept reader
      have second := readFromDecoder_stays projected reader
      rw [read] at first second
      exact ih.after first second
  | @passed reader middle next header chunkBegin dataBegin _ _ read body ih =>
      have cleared : Reading source options { reader with pendingTrustedEnd := none } :=
        ⟨⟨ih.measured.source, ih.measured.recovery, ih.measured.streamLen⟩, ih.projected⟩
      have first := @readChunkHeaderAt_stays ext _ kept.toInspects reader.nextChunkFilePos
        { reader with pendingTrustedEnd := none }
      have second := @readChunkHeaderAt_stays ext _ projected.toInspects reader.nextChunkFilePos
        { reader with pendingTrustedEnd := none }
      rw [read] at first second
      have third := @loadChunkBody_stays ext _ kept header chunkBegin dataBegin middle
      have fourth := @loadChunkBody_stays ext _ projected header chunkBegin dataBegin middle
      rw [body] at third fourth
      exact (cleared.after first second).after third fourth
  | @advanced reader next result _ _ advance ih =>
      have first := @advanceChunk_stays ext _ kept reader
      have second := @advanceChunk_stays ext _ projected reader
      rw [advance] at first second
      exact ih.after first second

/-! ## The first read after a seek -/

/-- A read with nothing left of the current chunk. -/
theorem readRecord_drained (drained : reader.currentDecoder = none) :
    readRecord ext reader =
      match advanceChunk ext { reader with pendingTrustedEnd := none } with
      | (.ok true, after) => readRecordLoop ext (reader.source.length + 63) after
      | (.ok false, after) => (.ok none, after)
      | (.error fault, after) => (.error fault, after) := by
  have empty : readFromDecoder { reader with pendingTrustedEnd := none } =
      (.ok none, { reader with pendingTrustedEnd := none }) := by
    rw [readFromDecoder_run, drained]
  rw [readRecord_eq]
  exact readRecordLoop_empty _ empty

/-- Readers of the same source under the same options, one drained and one
fresh. -/
structure Rivals (reader fresh : RecordReader) : Prop where
  known : Known reader
  knownFresh : Known fresh
  source : fresh.source = reader.source
  recovery : fresh.recovery = reader.recovery
  fieldProjection : fresh.fieldProjection = reader.fieldProjection
  drained : reader.currentDecoder = none
  canonical : canonicalChunkAddress reader.nextChunkFilePos = reader.nextChunkFilePos

theorem Rivals.streamLen (rivals : Rivals reader fresh) :
    fresh.streamLen = reader.streamLen := by
  have known := rivals.known
  have knownFresh := rivals.knownFresh
  unfold Known at known knownFresh
  rw [knownFresh, rivals.source, known]

/-- The seek to the drained reader's next chunk. -/
def seekThere (ext : Externals) (reader fresh : RecordReader) : Except Fault Unit × RecordReader :=
  seek ext { chunkBegin := reader.nextChunkFilePos, recordIndex := 0 } fresh

/-- What the first read after the seek and the drained reader's next read have
in common. -/
def ReadsAgree (ext : Externals) (reader fresh sought : RecordReader) : Prop :=
  (readRecord ext sought).1 = (readRecord ext reader).1 ∧
    Alike (readRecord ext reader).2 (readRecord ext sought).2 ∧
    SameRegions (reader.reported, fresh.reported) (readRecord ext reader).2
      (readRecord ext sought).2

/-- How the seek ends, by where the source lands the drained reader. -/
theorem seekThere_lands (rivals : Rivals reader fresh) :
    ∃ chunkBegin,
      (∀ decoder stop, (reader.landed ext).2 = .holds decoder stop →
        chunkBegin = (reader.landed ext).1) ∧
      seekThere ext reader fresh =
        match (seekResult (reader.landed ext).2,
          afterSeekFinding (fresh.aimed reader.nextChunkFilePos) (reader.landed ext).1 chunkBegin
            (reader.landed ext).2) with
        | (.ok (some decoder), after) => seekWithin reader.nextChunkFilePos 0 decoder after
        | (.ok none, after) =>
            (.ok (),
              { after with
                atEof := true
                pos := { chunkBegin := reader.nextChunkFilePos, recordIndex := 0 } })
        | (.error (.error error), after) => recoverSeek ext error after
        | (.error fault, after) => (.error fault, after) := by
  have canonical := rivals.canonical
  obtain ⟨chunkBegin, entered, loaded⟩ := @loadChunkAt_lands ext fresh rivals.knownFresh
    reader.nextChunkFilePos canonical
  have landed : landsAt ext fresh.source fresh.fieldProjection reader.nextChunkFilePos =
      reader.landed ext := by
    unfold RecordReader.landed
    rw [rivals.source, rivals.fieldProjection]
  rw [landed] at entered loaded
  refine ⟨chunkBegin, entered, ?_⟩
  unfold seekThere
  rw [seek_eq]
  simp only [canonical]
  rewrite [loaded]
  rfl

/-- With enough passes left on both sides, readers at the same place finish
their reads alike. -/
theorem finish_reads {first second : RecordReader} (alike : Alike first second)
    (unwavering : Unwavering first.recovery) (addressable : first.source.length ≤ u64Max)
    (length : first.source.length = reader.source.length)
    {earlier : List SkippedRegion × List SkippedRegion}
    (regions : SameRegions earlier first second) :
    (readRecord ext second).1 = (readRecordLoop ext (reader.source.length + 63) first).1 ∧
      Alike (readRecordLoop ext (reader.source.length + 63) first).2 (readRecord ext second).2 ∧
      SameRegions earlier (readRecordLoop ext (reader.source.length + 63) first).2
        (readRecord ext second).2 := by
  have cleared : Alike first { second with pendingTrustedEnd := none } :=
    ⟨alike.known, alike.source, alike.streamLen, alike.recovery, alike.fieldProjection,
      alike.decoder, alike.next⟩
  have fuel : second.forwardFuel = reader.source.length + 64 := by
    unfold forwardFuel
    rw [alike.source, length]
  have loops := @readRecordLoop_agreeing ext (reader.source.length + 63)
    (reader.source.length + 64) _ _ cleared unwavering addressable (by omega) (by omega) (by omega)
    (by omega)
  rw [readRecord_eq, fuel]
  exact ⟨loops.result, loops.alike, loops.regions earlier ⟨regions.reported, regions.last⟩⟩

/-- What a seek to the next chunk of a sequential read owes that read. -/
def SeekAgrees (ext : Externals) (reader fresh : RecordReader) :
    Except Fault Unit × RecordReader → Prop
  | (.ok (), sought) => ReadsAgree ext reader fresh sought
  | (.error fault, sought) =>
      (readRecord ext reader).1 = .error fault ∧
        (readRecord ext reader).2.reported = reader.reported ∧ sought.reported = fresh.reported

/-- How the read goes on, by where the source lands the drained reader. -/
theorem readRecord_lands (rivals : Rivals reader fresh) {place : Nat} {found : Finding}
    (landed : reader.landed ext = (place, found)) :
    readRecord ext reader =
      match
          (match found with
          | .holds _ _ =>
              ((.ok true,
                { afterFinding { reader with nextChunkFilePos := place } place found with
                  atEof := false }) : Except Fault Bool × RecordReader)
          | .fails (.error error) _ =>
              recoverOrFail ext error
                (afterFinding { reader with nextChunkFilePos := place } place found)
          | .fails fault _ =>
              (.error fault, afterFinding { reader with nextChunkFilePos := place } place found)
          | _ =>
              (.ok false,
                { afterFinding { reader with nextChunkFilePos := place } place found with
                  atEof := true })) with
      | (.ok true, after) => readRecordLoop ext (reader.source.length + 63) after
      | (.ok false, after) => (.ok none, after)
      | (.error fault, after) => (.error fault, after) := by
  have known : Known { reader with pendingTrustedEnd := none } := rivals.known
  have landed' : RecordReader.landed ext { reader with pendingTrustedEnd := none } =
      (place, found) := landed
  rw [readRecord_drained rivals.drained, advanceChunk_lands known, RecordReader.afterLanding,
    landed']
  cases found with
  | fails fault trusted => cases fault <;> rfl
  | _ => rfl

/-- A load that fails is recovered from alike by the read and the seek. -/
theorem recoverSeek_agrees (rivals : Rivals reader fresh)
    (unwavering : Unwavering reader.recovery) (addressable : reader.source.length ≤ u64Max)
    {place chunkBegin : Nat} {error : RiegeliError} {trusted : Option Nat}
    (landed : reader.landed ext = (place, .fails (.error error) trusted))
    (unmoved : canonicalChunkAddress place = place) :
    SeekAgrees ext reader fresh
      (recoverSeek ext error
        (afterSeekFinding (fresh.aimed reader.nextChunkFilePos) place chunkBegin
          (.fails (.error error) trusted))) := by
  have lands := @RecordReader.landed_lands ext reader
  have below : place < u64Max := by
    have found := lands.found
    rw [landed] at found
    exact findChunk_below addressable (by rw [found]; simp)
  have resumes : resumeAfter place (.error error) trusted = place := by
    cases trusted with
    | none => rfl
    | some stop => exact unmoved
  have both : Alike
      (afterFinding { reader with nextChunkFilePos := place } place (.fails (.error error) trusted))
      (afterSeekFinding (fresh.aimed reader.nextChunkFilePos) place chunkBegin
        (.fails (.error error) trusted)) :=
    ⟨rivals.known, rivals.source, rivals.streamLen, rivals.recovery, rivals.fieldProjection,
      rivals.drained.symm, resumes.symm⟩
  have here : (afterFinding { reader with nextChunkFilePos := place } place
      (.fails (.error error) trusted)).nextChunkFilePos = place := resumes
  have recovers := @recoverOrFail_agreeing ext _ _ both rfl unwavering addressable
    (by rw [here]; exact below) error
  have same := recovers.regions (reader.reported, fresh.reported)
    ⟨⟨[], (List.append_nil _).symm, (List.append_nil _).symm⟩, Or.inr (by rw [here, unmoved])⟩
  have read := readRecord_lands rivals landed
  rw [recoverSeek_eq]
  cases recovery : reader.recovery with
  | none =>
      have alone : (afterFinding { reader with nextChunkFilePos := place } place
          (.fails (.error error) trusted)).recovery = none := recovery
      have alone' : (afterSeekFinding (fresh.aimed reader.nextChunkFilePos) place chunkBegin
          (.fails (.error error) trusted)).recovery = none := rivals.recovery.trans recovery
      simp only [recoverOrFail_none alone] at read
      rw [recoverOrFail_none alone']
      exact ⟨congrArg Prod.fst read, congrArg (fun run => run.2.reported) read, rfl⟩
  | some callback =>
      obtain ⟨extent, _, goes⟩ := @recoverOrFail_some ext
        (afterFinding { reader with nextChunkFilePos := place } place
          (.fails (.error error) trusted)) callback recovery addressable error
      rw [if_pos (unwavering callback recovery _)] at goes
      simp only [goes] at read
      rw [goes] at recovers same
      generalize recoverOrFail ext error
        (afterSeekFinding (fresh.aimed reader.nextChunkFilePos) place chunkBegin
          (.fails (.error error) trusted)) = right at recovers same ⊢
      obtain ⟨result, sought⟩ := right
      obtain rfl : result = .ok true := recovers.result
      have still := recovers.alike
      have moved : ∀ reader : RecordReader, Alike reader sought →
          Alike reader { sought with
            pos := { chunkBegin := sought.nextChunkFilePos, recordIndex := 0 } } :=
        fun _ alike => ⟨alike.known, alike.source, alike.streamLen, alike.recovery,
          alike.fieldProjection, alike.decoder, alike.next⟩
      have finished := @finish_reads ext reader _ _ (moved _ still) unwavering addressable rfl
        _ ⟨same.reported, same.last⟩
      simp only [SeekAgrees, ReadsAgree]
      rw [read]
      exact finished

/-- A drained reader with no chunk ahead is at the end. -/
theorem readRecord_absent {reader : RecordReader} {place : Nat}
    (drained : reader.currentDecoder = none) (known : Known reader)
    (landed : reader.landed ext = (place, .absent)) :
    readRecord ext reader =
      (.ok none,
        { reader with
          nextChunkFilePos := place
          pendingTrustedEnd := none
          atEof := true }) := by
  have cleared : Known { reader with pendingTrustedEnd := none } := known
  have landed' : RecordReader.landed ext { reader with pendingTrustedEnd := none } =
      (place, .absent) := landed
  rw [readRecord_drained drained, advanceChunk_lands cleared, RecordReader.afterLanding, landed']
  rfl

/-- Seeking to the next chunk comes to what reading on comes to. -/
theorem seekThere_agrees (rivals : Rivals reader fresh)
    (unwavering : Unwavering reader.recovery) (addressable : reader.source.length ≤ u64Max) :
    SeekAgrees ext reader fresh (seekThere ext reader fresh) := by
  obtain ⟨chunkBegin, _, sought⟩ := @seekThere_lands ext _ _ rivals
  have lands := @RecordReader.landed_lands ext reader
  have unmoved : canonicalChunkAddress (reader.landed ext).1 = (reader.landed ext).1 := by
    rcases lands.possible with same | possible
    · rw [same, rivals.canonical]
    · exact canonicalChunkAddress_eq possible
  cases landed : reader.landed ext with
  | mk place found =>
      rw [landed] at lands sought unmoved
      have read := readRecord_lands rivals landed
      cases found with
      | absent =>
          have ended := @readRecord_absent ext
            { afterSeekFinding (fresh.aimed reader.nextChunkFilePos) place chunkBegin .absent with
              atEof := true
              pos := { chunkBegin := reader.nextChunkFilePos, recordIndex := 0 } }
            place rfl rivals.knownFresh (by
              have idem := @landsAt_idem ext reader.source reader.fieldProjection
                reader.nextChunkFilePos
              unfold RecordReader.landed at landed
              rw [landed] at idem
              rw [RecordReader.landed, ← idem, ← rivals.source, ← rivals.fieldProjection]
              rfl)
          rw [sought]
          simp only [seekResult, SeekAgrees, ReadsAgree]
          rw [read, ended]
          exact ⟨rfl, ⟨rivals.known, rivals.source, rivals.streamLen, rivals.recovery,
            rivals.fieldProjection, rivals.drained.symm, rfl⟩,
            ⟨[], (List.append_nil _).symm, (List.append_nil _).symm⟩, Or.inr unmoved⟩
      | passes stop => exact absurd rfl (lands.settled stop)
      | holds decoder stop =>
          have stopped : isPossibleChunkBoundary stop = true :=
            findChunk_stop_possible (by rw [lands.found]; rfl)
          have both : Alike
              { afterFinding { reader with nextChunkFilePos := place } place
                  (.holds decoder stop) with atEof := false }
              { afterSeekFinding (fresh.aimed reader.nextChunkFilePos) place chunkBegin
                  (.holds decoder stop) with
                currentDecoder := some decoder
                pos := { chunkBegin := reader.nextChunkFilePos, recordIndex := 0 } } :=
            ⟨rivals.known, rivals.source, rivals.streamLen, rivals.recovery,
              rivals.fieldProjection, rfl, rfl⟩
          have finished := @finish_reads ext reader _ _ both unwavering addressable rfl
            (reader.reported, fresh.reported)
            ⟨⟨[], (List.append_nil _).symm, (List.append_nil _).symm⟩,
              Or.inr (canonicalChunkAddress_eq stopped)⟩
          rw [sought]
          simp only [seekResult, seekWithin_run, ite_self, skipRecords, Act.pure_run, SeekAgrees,
            ReadsAgree]
          rw [read]
          exact finished
      | fails fault trusted =>
          cases fault with
          | error error =>
              rw [sought]
              exact recoverSeek_agrees rivals unwavering addressable landed unmoved
          | panic kind =>
              rw [sought]
              exact ⟨congrArg Prod.fst read, congrArg (fun run => run.2.reported) read, rfl⟩
          | outOfFuel =>
              rw [sought]
              exact ⟨congrArg Prod.fst read, congrArg (fun run => run.2.reported) read, rfl⟩

/-! ## Whole reads -/

/-- Readers at the same place go on alike for any number of reads. -/
theorem reads_agreeing (count : Nat) :
    ∀ {first second : RecordReader}, Alike first second → Unwavering first.recovery →
      first.source.length ≤ u64Max →
      ∀ earlier, SameRegions earlier first second →
        observe ext (List.replicate count .readRecord) second =
            observe ext (List.replicate count .readRecord) first ∧
          SameRegions earlier (runReader ext (List.replicate count .readRecord) first)
            (runReader ext (List.replicate count .readRecord) second) := by
  induction count with
  | zero => exact fun _ _ _ _ same => ⟨rfl, same⟩
  | succ count ih =>
      intro first second alike unwavering addressable earlier same
      have agrees := @readRecord_agreeing ext _ _ alike unwavering addressable
      have stays : sourceFrame.rel first (readRecord ext first).2 :=
        @ReaderOp.after_stays ext .readRecord first
      obtain ⟨seen, regions⟩ := ih agrees.alike (by rw [stays.2.1]; exact unwavering)
        (by rw [stays.1]; exact addressable) earlier (agrees.regions earlier same)
      rw [List.replicate_succ, observe, observe, agrees.result]
      exact ⟨congrArg _ seen, regions⟩

/-- Both loaders come to the same chunk, skip the same chunks and fail alike. -/
def LoadersAgree (ext : Externals) (reader fresh : RecordReader) : Prop :=
  let sought :=
    loadChunkAt ext reader.nextChunkFilePos (fresh.aimed reader.nextChunkFilePos)
  let loaded := loadNextChunk ext reader
  sought.1 = loaded.1.map (fun _ => loaded.2.currentDecoder) ∧
    sought.1.map Option.isSome = loaded.1 ∧
    (Rust.Safe sought.1 → sought.2.nextChunkFilePos = loaded.2.nextChunkFilePos)

theorem loaders_agree (rivals : Rivals reader fresh) : LoadersAgree ext reader fresh := by
  obtain ⟨chunkBegin, _, loaded⟩ := @loadChunkAt_lands ext fresh rivals.knownFresh
    reader.nextChunkFilePos rivals.canonical
  have same : landsAt ext fresh.source fresh.fieldProjection reader.nextChunkFilePos =
      reader.landed ext := by
    unfold RecordReader.landed
    rw [rivals.source, rivals.fieldProjection]
  have lands := @RecordReader.landed_lands ext reader
  have unmoved : canonicalChunkAddress (reader.landed ext).1 = (reader.landed ext).1 := by
    rcases lands.possible with same | possible
    · rw [same, rivals.canonical]
    · exact canonicalChunkAddress_eq possible
  unfold LoadersAgree
  rw [loaded, same, loadNextChunk_lands rivals.known]
  generalize reader.landed ext = landed at lands unmoved
  obtain ⟨place, found⟩ := landed
  cases found with
  | absent => exact ⟨congrArg Except.ok rivals.drained.symm, rfl, fun _ => rfl⟩
  | passes stop => exact absurd rfl (lands.settled stop)
  | holds decoder stop => exact ⟨rfl, rfl, fun _ => rfl⟩
  | fails fault trusted =>
      refine ⟨rfl, rfl, fun safe => ?_⟩
      rcases safe with ⟨value, impossible⟩ | ⟨error, failed⟩
      · cases impossible
      · obtain rfl : fault = .error error := Except.error.inj failed
        cases trusted with
        | none => rfl
        | some stop => exact unmoved.symm

/-- A seek to the next chunk of a sequential read, on a reader just opened on
the same source, goes on as the sequential read does. -/
theorem seek_sequential {source : Bytes} {options : ReaderOptions}
    (addressable : source.length ≤ u64Max) (unwavering : Unwavering options.recovery)
    (sequential : Sequential ext source options reader) (drained : reader.currentDecoder = none)
    (canonical : canonicalChunkAddress reader.nextChunkFilePos = reader.nextChunkFilePos)
    (isNew : RecordReader.new ext source options = .ok fresh) :
    (∀ fault sought,
      seek ext { chunkBegin := reader.nextChunkFilePos, recordIndex := 0 } fresh =
        (.error fault, sought) →
      (readRecord ext reader).1 = .error fault ∧
        (readRecord ext reader).2.reported = reader.reported ∧
        sought.reported = fresh.reported) ∧
    (∀ sought,
      seek ext { chunkBegin := reader.nextChunkFilePos, recordIndex := 0 } fresh =
        (.ok (), sought) →
      ∀ count, 0 < count →
        observe ext (List.replicate count .readRecord) sought =
            observe ext (List.replicate count .readRecord) reader ∧
          ∃ regions,
            (runReader ext (List.replicate count .readRecord) reader).reported =
                reader.reported ++ regions ∧
              (runReader ext (List.replicate count .readRecord) sought).reported =
                fresh.reported ++ regions) ∧
    LoadersAgree ext reader fresh := by
  have reading := sequential.reading
  have opened := new_reading isNew
  have rivals : Rivals reader fresh :=
    { known := reading.measured.streamLen
      knownFresh := opened.measured.streamLen
      source := opened.measured.source.trans reading.measured.source.symm
      recovery := opened.measured.recovery.trans reading.measured.recovery.symm
      fieldProjection := opened.projected.trans reading.projected.symm
      drained := drained
      canonical := canonical }
  have confident : Unwavering reader.recovery := by
    rw [reading.measured.recovery]
    exact unwavering
  have length : reader.source.length ≤ u64Max := by
    rw [reading.measured.source]
    exact addressable
  have agrees := @seekThere_agrees ext _ _ rivals confident length
  unfold seekThere at agrees
  refine ⟨fun fault sought failed => ?_, fun sought found count positive => ?_,
    loaders_agree rivals⟩
  · rw [failed] at agrees
    exact agrees
  · rw [found] at agrees
    obtain ⟨count, rfl⟩ : ∃ less, count = less + 1 := ⟨count - 1, by omega⟩
    obtain ⟨first, alike, regions⟩ := agrees
    have stays : sourceFrame.rel reader (readRecord ext reader).2 :=
      @ReaderOp.after_stays ext .readRecord reader
    obtain ⟨seen, later⟩ := @reads_agreeing ext count _ _ alike
      (by rw [stays.2.1]; exact confident) (by rw [stays.1]; exact length) _ regions
    rw [List.replicate_succ, observe, observe, first]
    exact ⟨congrArg _ seen, later.reported⟩

theorem Sequential.hands {source : Bytes} {options : ReaderOptions}
    (sequential : Sequential ext source options reader) (record : Option Bytes)
    (read : (readFromDecoder reader).1 = .ok record) :
    Sequential ext source options (readFromDecoder reader).2 :=
  .handed sequential (Prod.ext read rfl)

theorem Sequential.loads {source : Bytes} {options : ReaderOptions}
    (sequential : Sequential ext source options reader) (drained : reader.currentDecoder = none) :
    Sequential ext source options (advanceChunk ext reader).2 :=
  .advanced sequential drained rfl

/-- A file with two chunks of records and a padding chunk between them, and a chunk
whose compression type is none of the format. -/
def refusedSource : Bytes :=
  preambleSource ++ simpleChunkBytes [0, 2, 3, 1, 1, 2, 3, 4] 2 4 ++
    (ChunkHeader.fromParts storingExternals [] .padding 0 0).toBytes ++
    simpleChunkBytes [0, 1, 2, 5, 6] 1 2 ++ simpleChunkBytes [7] 1 1

/-- The reader that is opened on it. -/
def refusedReader : RecordReader := RecordReader.initial refusedSource ReaderOptions.new

/-- The reader that has drained the first chunk. -/
def firstDrained : RecordReader :=
  (readFromDecoder (readFromDecoder
    (readFromDecoder (advanceChunk storingExternals refusedReader).2).2).2).2

/-- The reader that has drained the second one. -/
def secondDrained : RecordReader :=
  (readFromDecoder (readFromDecoder (advanceChunk storingExternals firstDrained).2).2).2

theorem firstDrained_sequential :
    Sequential storingExternals refusedSource ReaderOptions.new firstDrained := by
  have isNew : RecordReader.new storingExternals refusedSource ReaderOptions.new =
      .ok refusedReader :=
    new_valid _ (by decide +kernel)
  have loaded := (Sequential.opened isNew).loads (by decide +kernel)
  have handsFirst := loaded.hands (some [1, 2, 3]) (by decide +kernel)
  have handsSecond := handsFirst.hands (some [4]) (by decide +kernel)
  exact handsSecond.hands none (by decide +kernel)

theorem secondDrained_sequential :
    Sequential storingExternals refusedSource ReaderOptions.new secondDrained := by
  have loaded := firstDrained_sequential.loads (by decide +kernel)
  have hands := loaded.hands (some [5, 6]) (by decide +kernel)
  exact hands.hands none (by decide +kernel)

/-- A seek over the padding to the second chunk, and one to the chunk that is
refused. -/
theorem seek_sequential_refused :
    (∃ sought, seek storingExternals { chunkBegin := 112, recordIndex := 0 } refusedReader =
        (.ok (), sought) ∧
      observe storingExternals [.readRecord, .readRecord] sought =
        observe storingExternals [.readRecord, .readRecord] firstDrained) ∧
      LoadersAgree storingExternals firstDrained refusedReader ∧
      (readRecord storingExternals secondDrained).1 =
        .error (.error (.unsupportedCompression 7)) ∧
      LoadersAgree storingExternals secondDrained refusedReader := by
  have addressable : refusedSource.length ≤ u64Max := by decide +kernel
  have unwavering : Unwavering ReaderOptions.new.recovery := fun _ given => nomatch given
  have isNew : RecordReader.new storingExternals refusedSource ReaderOptions.new =
      .ok refusedReader :=
    new_valid _ (by decide +kernel)
  have first := seek_sequential addressable unwavering firstDrained_sequential
    (by decide +kernel) (by decide +kernel) isNew
  have second := seek_sequential addressable unwavering secondDrained_sequential
    (by decide +kernel) (by decide +kernel) isNew
  rw [show firstDrained.nextChunkFilePos = 112 by decide +kernel] at first
  have found : (seek storingExternals { chunkBegin := 112, recordIndex := 0 } refusedReader).1 =
      .ok () := by
    decide +kernel
  have refused :
      (seek storingExternals { chunkBegin := secondDrained.nextChunkFilePos, recordIndex := 0 }
        refusedReader).1 = .error (.error (.unsupportedCompression 7)) := by
    decide +kernel
  obtain ⟨_, follows, agree⟩ := first
  obtain ⟨fails, _, agreeAtRefused⟩ := second
  have sought := Prod.fst_eq_iff.mp found
  exact ⟨⟨_, sought, (follows _ sought 2 (by decide)).1⟩, agree,
    (fails _ _ (Prod.fst_eq_iff.mp refused)).1, agreeAtRefused⟩

end Riegeli
