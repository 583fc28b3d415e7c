/-
Module: Riegeli.Proofs.ReaderAgreement
Purpose: Two readers of one source that stand at the same place go on alike,
  whatever they have reported before.
Trusted boundary: the hash and the codecs
Main exports: Unwavering, Alike, SameRegions, Agreeing, advanceChunk_agreeing,
  readRecord_agreeing, seek_agreeing
-/
import Riegeli.Proofs.StaticReading
import Riegeli.Proofs.SkippedRegions

namespace Riegeli

open RecordReader

variable {ext : Externals} {first second : RecordReader}

/-- There is no recovery callback, or one that always says to go on. -/
def Unwavering (recovery : Option (List SkippedRegion → Bool)) : Prop :=
  ∀ callback, recovery = some callback → ∀ regions, callback regions = true

/-- The readers stand at the same place of the same source. -/
structure Alike (first second : RecordReader) : Prop where
  known : Known first
  source : second.source = first.source
  streamLen : second.streamLen = first.streamLen
  recovery : second.recovery = first.recovery
  fieldProjection : second.fieldProjection = first.fieldProjection
  decoder : second.currentDecoder = first.currentDecoder
  next : second.nextChunkFilePos = first.nextChunkFilePos

/-- Since they had reported `earlier` the readers have reported the same, and
they will begin their next region alike. -/
structure SameRegions (earlier : List SkippedRegion × List SkippedRegion)
    (first second : RecordReader) : Prop where
  reported : ∃ regions,
    first.reported = earlier.1 ++ regions ∧ second.reported = earlier.2 ++ regions
  last : second.lastSkippedRegion = first.lastSkippedRegion ∨
    canonicalChunkAddress first.nextChunkFilePos = first.nextChunkFilePos

/-- Two runs from these readers end alike. -/
structure Agreeing {Value : Type} (first second : RecordReader)
    (left right : Except Fault Value × RecordReader) : Prop where
  result : right.1 = left.1
  alike : Alike left.2 right.2
  regions : ∀ earlier, SameRegions earlier first second → SameRegions earlier left.2 right.2

theorem Alike.symmKnown (alike : Alike first second) : Known second := by
  have known := alike.known
  unfold Known at known ⊢
  rw [alike.streamLen, alike.source, known]

theorem Alike.landed (alike : Alike first second) :
    second.landed ext = first.landed ext := by
  unfold RecordReader.landed
  rw [alike.source, alike.fieldProjection, alike.next]

theorem Agreeing.trans {Value Result : Type}
    {left right : Except Fault Value × RecordReader}
    {leftAfter rightAfter : Except Fault Result × RecordReader}
    (before : Agreeing first second left right)
    (after : Agreeing left.2 right.2 leftAfter rightAfter) :
    Agreeing first second leftAfter rightAfter :=
  ⟨after.result, after.alike, fun earlier same => after.regions earlier (before.regions earlier same)⟩

/-! ## Recovery -/

theorem recoverOrFail_none {reader : RecordReader} (alone : reader.recovery = none)
    (error : RiegeliError) :
    recoverOrFail ext error reader =
      (.error (.error error), { reader with pendingTrustedEnd := none }) := by
  unfold recoverOrFail
  rw [tryRecoverAt_none alone]

/-- With a callback a failed load goes past a region, and the verdict decides
only whether the read fails. -/
theorem recoverOrFail_some {reader : RecordReader} {callback : List SkippedRegion → Bool}
    (recovery : reader.recovery = some callback) (addressable : reader.source.length ≤ u64Max)
    (error : RiegeliError) :
    ∃ extent, regionExtent ext reader
        (regionStart reader.lastSkippedRegion reader.nextChunkFilePos) reader.pendingTrustedEnd =
          .ok extent ∧
      recoverOrFail ext error reader =
        (if callback
              (reader.reported ++ [reader.regionOf reader.nextChunkFilePos extent error]) = true
            then .ok true else .error (.error error),
          reader.recovered (reader.regionOf reader.nextChunkFilePos extent error)) := by
  obtain ⟨extent, extended⟩ := @regionExtent_ok ext reader addressable
    (regionStart reader.lastSkippedRegion reader.nextChunkFilePos) reader.pendingTrustedEnd
  refine ⟨extent, extended, ?_⟩
  unfold recoverOrFail
  rw [tryRecoverAt_some recovery, extended]
  cases verdict : callback
      (reader.reported ++ [reader.regionOf reader.nextChunkFilePos extent error]) with
  | true => simp only [verdict]; rfl
  | false => simp only [verdict]; rfl

theorem recoveryStop_congr {place : Nat} {trusted : Option Nat}
    (source : second.source = first.source) (streamLen : second.streamLen = first.streamLen) :
    recoveryStop ext second place trusted = recoveryStop ext first place trusted := by
  unfold recoveryStop
  rw [regionExtent_eq, regionExtent_eq]
  unfold resolveBoundaryResync
  rw [source, streamLen]

/-- Both readers recover alike, past the same end. -/
theorem recoverOrFail_agreeing (alike : Alike first second)
    (trusted : second.pendingTrustedEnd = first.pendingTrustedEnd)
    (unwavering : Unwavering first.recovery) (addressable : first.source.length ≤ u64Max)
    (below : first.nextChunkFilePos < u64Max) (error : RiegeliError) :
    Agreeing first second (recoverOrFail ext error first) (recoverOrFail ext error second) := by
  cases recovery : first.recovery with
  | none =>
      have alone := alike.recovery.trans recovery
      rw [recoverOrFail_none recovery, recoverOrFail_none alone]
      exact
        ⟨rfl, ⟨alike.known, alike.source, alike.streamLen, alike.recovery, alike.fieldProjection,
          alike.decoder, alike.next⟩, fun earlier same => ⟨same.reported, same.last⟩⟩
  | some callback =>
      have both := alike.recovery.trans recovery
      have goes := unwavering callback recovery
      obtain ⟨extent, extended, recovered⟩ := @recoverOrFail_some ext _ _ recovery addressable error
      obtain ⟨extent', extended', recovered'⟩ := @recoverOrFail_some ext _ _ both
        (by rw [alike.source]; exact addressable) error
      rw [recovered, recovered', if_pos (goes _), if_pos (goes _)]
      -- the end does not depend on what was reported before
      have stops : regionStop (regionStart second.lastSkippedRegion second.nextChunkFilePos)
            second.nextChunkFilePos extent' =
          regionStop (regionStart first.lastSkippedRegion first.nextChunkFilePos)
            first.nextChunkFilePos extent := by
        have stop := @recoveryStop_eq ext first _ first.lastSkippedRegion
          first.pendingTrustedEnd below
        have stop' := @recoveryStop_eq ext second second.nextChunkFilePos
          second.lastSkippedRegion second.pendingTrustedEnd (by rw [alike.next]; exact below)
        rw [extended] at stop
        rw [extended', alike.next, trusted,
          recoveryStop_congr alike.source alike.streamLen, ← stop] at stop'
        rw [alike.next]
        exact Except.ok.inj stop'
      refine ⟨rfl, ⟨alike.known, alike.source, alike.streamLen, alike.recovery,
        alike.fieldProjection, rfl, stops⟩, ?_⟩
      intro earlier same
      have starts : regionStart second.lastSkippedRegion second.nextChunkFilePos =
          regionStart first.lastSkippedRegion first.nextChunkFilePos := by
        rw [alike.next]
        rcases same.last with last | canonical
        · rw [last]
        · rw [regionStart_canonical _ canonical, regionStart_canonical _ canonical]
      have regions : second.regionOf second.nextChunkFilePos extent' error =
          first.regionOf first.nextChunkFilePos extent error := by
        simp only [RecordReader.regionOf, SkippedRegion.mk.injEq]
        exact ⟨starts, stops, trivial⟩
      obtain ⟨reported, left, right⟩ := same.reported
      refine ⟨⟨reported ++ [first.regionOf first.nextChunkFilePos extent error], ?_, ?_⟩,
        Or.inl ?_⟩
      · simp only [RecordReader.recovered, left, List.append_assoc]
      · simp only [RecordReader.recovered, right, regions, List.append_assoc]
      · simp only [RecordReader.recovered, regions]

/-! ## Reading -/

theorem RecordReader.landed_lands (reader : RecordReader) :
    Lands ext reader.source reader.fieldProjection reader.nextChunkFilePos (reader.landed ext) :=
  landsAt_lands _ _ _

/-- A load from a canonical place ends at one. -/
theorem afterLanding_canonical {reader : RecordReader}
    (canonical : canonicalChunkAddress reader.nextChunkFilePos = reader.nextChunkFilePos) :
    canonicalChunkAddress (reader.afterLanding ext).nextChunkFilePos =
      (reader.afterLanding ext).nextChunkFilePos := by
  have lands := @RecordReader.landed_lands ext reader
  have here : canonicalChunkAddress (reader.landed ext).1 = (reader.landed ext).1 := by
    rcases lands.possible with same | possible
    · rw [same, canonical]
    · exact canonicalChunkAddress_eq possible
  unfold RecordReader.afterLanding
  cases found : (reader.landed ext).2 with
  | absent => exact here
  | passes stop => exact absurd found (lands.settled stop)
  | holds decoder stop =>
      exact canonicalChunkAddress_eq (findChunk_stop_possible (by rw [lands.found, found]; rfl))
  | fails fault trusted =>
      cases trusted with
      | none => exact here
      | some stop =>
          have possible : isPossibleChunkBoundary stop = true :=
            findChunk_stop_possible (by rw [lands.found, found]; rfl)
          cases fault with
          | error error => exact canonicalChunkAddress_idem _
          | panic kind => exact canonicalChunkAddress_eq possible
          | outOfFuel => exact canonicalChunkAddress_eq possible

/-- Both readers load alike. -/
theorem afterLanding_alike (alike : Alike first second) :
    Alike (first.afterLanding ext) (second.afterLanding ext) ∧
      (second.afterLanding ext).pendingTrustedEnd = (first.afterLanding ext).pendingTrustedEnd := by
  unfold RecordReader.afterLanding
  rw [alike.landed]
  cases (first.landed ext).2 with
  | absent =>
      exact ⟨⟨alike.known, alike.source, alike.streamLen, alike.recovery, alike.fieldProjection,
        alike.decoder, rfl⟩, rfl⟩
  | passes stop =>
      exact ⟨⟨alike.known, alike.source, alike.streamLen, alike.recovery, alike.fieldProjection,
        alike.decoder, rfl⟩, rfl⟩
  | holds decoder stop =>
      exact ⟨⟨alike.known, alike.source, alike.streamLen, alike.recovery, alike.fieldProjection,
        rfl, rfl⟩, rfl⟩
  | fails fault trusted =>
      exact ⟨⟨alike.known, alike.source, alike.streamLen, alike.recovery, alike.fieldProjection,
        alike.decoder, rfl⟩, rfl⟩

/-- A load reports nothing. -/
theorem afterLanding_quiet (reader : RecordReader) :
    (reader.afterLanding ext).reported = reader.reported ∧
      (reader.afterLanding ext).lastSkippedRegion = reader.lastSkippedRegion := by
  unfold RecordReader.afterLanding
  cases (reader.landed ext).2 <;> exact ⟨rfl, rfl⟩

theorem SameRegions.afterLanding {earlier : List SkippedRegion × List SkippedRegion}
    (same : SameRegions earlier first second) :
    SameRegions earlier (first.afterLanding ext) (second.afterLanding ext) := by
  obtain ⟨reported, last⟩ := @afterLanding_quiet ext first
  obtain ⟨reported', last'⟩ := @afterLanding_quiet ext second
  refine ⟨?_, ?_⟩
  · rw [reported, reported']
    exact same.reported
  · rcases same.last with equal | canonical
    · left
      rw [last, last', equal]
    · right
      exact afterLanding_canonical canonical

/-- Both readers go on alike once their chunks are drained. -/
theorem advanceChunk_agreeing (alike : Alike first second)
    (unwavering : Unwavering first.recovery) (addressable : first.source.length ≤ u64Max) :
    Agreeing first second (advanceChunk ext first) (advanceChunk ext second) := by
  obtain ⟨landed, trusted⟩ := @afterLanding_alike ext _ _ alike
  have regions : ∀ earlier, SameRegions earlier first second →
      SameRegions earlier (first.afterLanding ext) (second.afterLanding ext) :=
    fun earlier same => same.afterLanding
  have lands := @RecordReader.landed_lands ext first
  rw [advanceChunk_lands alike.known, advanceChunk_lands alike.symmKnown, alike.landed]
  cases found : (first.landed ext).2 with
  | absent =>
      exact ⟨rfl, ⟨landed.known, landed.source, landed.streamLen, landed.recovery,
        landed.fieldProjection, landed.decoder, landed.next⟩,
        fun earlier same => ⟨(regions earlier same).reported, (regions earlier same).last⟩⟩
  | passes stop => exact absurd found (lands.settled stop)
  | holds decoder stop =>
      exact ⟨rfl, ⟨landed.known, landed.source, landed.streamLen, landed.recovery,
        landed.fieldProjection, landed.decoder, landed.next⟩,
        fun earlier same => ⟨(regions earlier same).reported, (regions earlier same).last⟩⟩
  | fails fault extent =>
      cases fault with
      | panic kind => exact ⟨rfl, landed, regions⟩
      | outOfFuel => exact ⟨rfl, landed, regions⟩
      | error error =>
          have below : (first.landed ext).1 < u64Max :=
            findChunk_below addressable (by rw [lands.found, found]; simp)
          have resumes : (first.afterLanding ext).nextChunkFilePos ≤ (first.landed ext).1 := by
            unfold RecordReader.afterLanding
            rw [found]
            cases extent with
            | none => exact Nat.le_refl _
            | some stop => exact canonicalChunkAddress_le _
          have kept : (first.afterLanding ext).recovery = first.recovery ∧
              (first.afterLanding ext).source = first.source := by
            unfold RecordReader.afterLanding
            rw [found]
            exact ⟨rfl, rfl⟩
          have recovers := @recoverOrFail_agreeing ext _ _ landed trusted
            (by rw [kept.1]; exact unwavering) (by rw [kept.2]; exact addressable)
            (by omega) error
          exact ⟨recovers.result, recovers.alike,
            fun earlier same => recovers.regions earlier (regions earlier same)⟩

/-- A region takes in the extent it was given. -/
theorem le_regionStop (start place extent : Nat) : extent ≤ regionStop start place extent := by
  unfold regionStop
  dsimp only
  split <;> omega

/-- A pass that goes on has moved the reader on. -/
theorem advanceChunk_on {reader after : RecordReader} (known : Known reader)
    (addressable : reader.source.length ≤ u64Max)
    (advanced : advanceChunk ext reader = (.ok true, after)) :
    reader.nextChunkFilePos < after.nextChunkFilePos ∧
      reader.nextChunkFilePos < reader.source.length + 24 := by
  have lands := @RecordReader.landed_lands ext reader
  have ahead := lands.ahead
  have near := le_canonicalChunkAddress (reader.landed ext).1
  rw [advanceChunk_lands known] at advanced
  cases found : (reader.landed ext).2 with
  | absent => simp [found] at advanced
  | passes stop => simp [found] at advanced
  | holds decoder stop =>
      have inside := findChunk_inside (by rw [lands.found, found]; simp)
      have further : (reader.landed ext).1 < stop :=
        findChunk_stop_lt (by rw [lands.found, found]; rfl)
      simp only [found, Prod.mk.injEq, true_and, RecordReader.afterLanding] at advanced
      subst advanced
      exact ⟨Nat.lt_of_le_of_lt ahead further, by omega⟩
  | fails fault trusted =>
      cases fault with
      | panic kind => simp [found] at advanced
      | outOfFuel => simp [found] at advanced
      | error error =>
          have present : findChunk ext reader.source reader.fieldProjection
              (reader.landed ext).1 ≠ .absent := by rw [lands.found, found]; simp
          have inside := findChunk_inside present
          have below := findChunk_below addressable present
          refine ⟨?_, by omega⟩
          simp only [found] at advanced
          have kept : (reader.afterLanding ext).recovery = reader.recovery ∧
              (reader.afterLanding ext).source = reader.source ∧
              (reader.afterLanding ext).pendingTrustedEnd = trusted ∧
              (reader.afterLanding ext).nextChunkFilePos =
                resumeAfter (reader.landed ext).1 (.error error) trusted := by
            unfold RecordReader.afterLanding
            rw [found]
            exact ⟨rfl, rfl, rfl, rfl⟩
          obtain ⟨recovery, source, pending, resumes⟩ := kept
          cases present : reader.recovery with
          | none =>
              rw [recoverOrFail_none (recovery.trans present)] at advanced
              cases advanced
          | some callback =>
              obtain ⟨extent, extended, recovered⟩ := @recoverOrFail_some ext _ _
                (recovery.trans present) (by rw [source]; exact addressable) error
              rw [recovered] at advanced
              have stands : after.nextChunkFilePos = regionStop
                  (regionStart (reader.afterLanding ext).lastSkippedRegion
                    (reader.afterLanding ext).nextChunkFilePos)
                  (reader.afterLanding ext).nextChunkFilePos extent := by
                rw [← (Prod.mk.inj advanced).2]
                rfl
              rw [stands]
              cases trusted with
              | none =>
                  have past := @lt_regionStop (reader.landed ext).1
                    (regionStart (reader.afterLanding ext).lastSkippedRegion
                      (reader.landed ext).1) extent below
                  rw [resumes]
                  exact Nat.lt_of_le_of_lt ahead past
              | some stop =>
                  have further : (reader.landed ext).1 < stop :=
                    findChunk_stop_lt (by rw [lands.found, found]; rfl)
                  rw [regionExtent_eq, pending] at extended
                  cases extended
                  have reaches := le_regionStop
                    (regionStart (reader.afterLanding ext).lastSkippedRegion
                      (reader.afterLanding ext).nextChunkFilePos)
                    (reader.afterLanding ext).nextChunkFilePos extent
                  omega

/-- Reading a record from the open chunk. -/
theorem readFromDecoder_agreeing (alike : Alike first second) :
    Agreeing first second (readFromDecoder first) (readFromDecoder second) := by
  rw [readFromDecoder_run, readFromDecoder_run, alike.decoder]
  cases first.currentDecoder with
  | none => exact ⟨rfl, alike, fun _ same => same⟩
  | some decoder =>
      simp only
      cases decoder.readRecord with
      | error fault => exact ⟨rfl, alike, fun _ same => same⟩
      | ok read =>
          obtain ⟨record, next⟩ := read
          cases record with
          | none =>
              exact ⟨rfl, ⟨alike.known, alike.source, alike.streamLen, alike.recovery,
                alike.fieldProjection, rfl, alike.next⟩,
                fun _ same => ⟨same.reported, same.last⟩⟩
          | some record =>
              exact ⟨rfl, ⟨alike.known, alike.source, alike.streamLen, alike.recovery,
                alike.fieldProjection, rfl, alike.next⟩,
                fun _ same => ⟨same.reported, same.last⟩⟩

/-- With enough passes both readers read alike, however many they have. -/
theorem readRecordLoop_agreeing : ∀ {fuel fuel' : Nat} {first second : RecordReader},
    Alike first second → Unwavering first.recovery → first.source.length ≤ u64Max →
    first.source.length + 25 < fuel + first.nextChunkFilePos → 0 < fuel →
    first.source.length + 25 < fuel' + first.nextChunkFilePos → 0 < fuel' →
    Agreeing first second (readRecordLoop ext fuel first) (readRecordLoop ext fuel' second) := by
  intro fuel
  induction fuel with
  | zero => intro fuel' first second _ _ _ _ none; omega
  | succ fuel ih =>
      intro fuel' first second alike unwavering addressable enough _ enough' more
      obtain ⟨fuel', rfl⟩ : ∃ smaller, fuel' = smaller + 1 := ⟨fuel' - 1, by omega⟩
      have handed := readFromDecoder_agreeing alike
      have handing := readFromDecoder_handing first
      rw [readRecordLoop_succ, readRecordLoop_succ]
      match left : readFromDecoder first, right : readFromDecoder second with
      | (result, first'), (result', second') =>
          rw [left, right] at handed
          rw [left] at handing
          obtain rfl := handed.result
          cases handing with
          | record current read => exact handed
          | faulty notError => exact handed
          | drained empty =>
              have passes := @advanceChunk_agreeing ext _ _ handed.alike unwavering addressable
              simp only
              generalize rightPass : advanceChunk ext second' = right at passes ⊢
              generalize leftPass : advanceChunk ext { first with currentDecoder := none } = left
                at passes ⊢
              obtain ⟨result, first''⟩ := left
              obtain ⟨result', second''⟩ := right
              have both := handed.trans passes
              obtain rfl := passes.result
              cases result' with
              | error fault => exact ⟨rfl, both.alike, both.regions⟩
              | ok goes =>
                  cases goes with
                  | false => exact ⟨rfl, both.alike, both.regions⟩
                  | true =>
                      have stays := @advanceChunk_stays ext _ sourceFrame_repositions
                        { first with currentDecoder := none }
                      rw [leftPass] at stays
                      obtain ⟨source, recovery, _⟩ := stays
                      obtain ⟨on, inside⟩ := @advanceChunk_on ext
                        { first with currentDecoder := none } _ alike.known addressable leftPass
                      have still : Alike first'' second'' := passes.alike
                      have length : first''.source.length = first.source.length :=
                        congrArg List.length source
                      simp only at on inside
                      have rest := @ih fuel' first'' second'' still
                        (by rw [recovery]; exact unwavering) (by omega) (by omega) (by omega)
                        (by omega) (by omega)
                      exact both.trans rest

/-- Readers at the same place read alike. -/
theorem readRecord_agreeing (alike : Alike first second) (unwavering : Unwavering first.recovery)
    (addressable : first.source.length ≤ u64Max) :
    Agreeing first second (readRecord ext first) (readRecord ext second) := by
  have cleared : Alike { first with pendingTrustedEnd := none }
      { second with pendingTrustedEnd := none } :=
    ⟨alike.known, alike.source, alike.streamLen, alike.recovery, alike.fieldProjection,
      alike.decoder, alike.next⟩
  have fuel : second.forwardFuel = first.forwardFuel := by
    unfold forwardFuel
    rw [alike.source]
  have enough : first.source.length + 25 < first.forwardFuel + first.nextChunkFilePos := by
    unfold forwardFuel
    omega
  have loops := @readRecordLoop_agreeing ext first.forwardFuel first.forwardFuel _ _ cleared
    unwavering addressable enough (Nat.succ_pos _) enough (Nat.succ_pos _)
  rw [readRecord_eq, readRecord_eq, fuel]
  exact ⟨loops.result, loops.alike,
    fun earlier same => loops.regions earlier ⟨same.reported, same.last⟩⟩

/-! ## Seeking -/

/-- A seek recovers as a read does. -/
theorem recoverSeek_eq (error : RiegeliError) (reader : RecordReader) :
    recoverSeek ext error reader =
      match recoverOrFail ext error reader with
      | (.ok _, after) =>
          (.ok (),
            { after with pos := { chunkBegin := after.nextChunkFilePos, recordIndex := 0 } })
      | (.error fault, after) => (.error fault, after) := by
  unfold recoverSeek recoverOrFail
  match tryRecoverAt ext reader.nextChunkFilePos error reader with
  | (.ok true, after) => rfl
  | (.ok false, after) => rfl
  | (.error fault, after) => rfl

theorem recoverSeek_agreeing (alike : Alike first second)
    (trusted : second.pendingTrustedEnd = first.pendingTrustedEnd)
    (unwavering : Unwavering first.recovery) (addressable : first.source.length ≤ u64Max)
    (below : first.nextChunkFilePos < u64Max) (error : RiegeliError) :
    Agreeing first second (recoverSeek ext error first) (recoverSeek ext error second) := by
  have recovers := @recoverOrFail_agreeing ext _ _ alike trusted unwavering addressable below error
  rw [recoverSeek_eq, recoverSeek_eq]
  generalize recoverOrFail ext error second = right at recovers ⊢
  generalize recoverOrFail ext error first = left at recovers ⊢
  obtain ⟨result, first'⟩ := left
  obtain ⟨result', second'⟩ := right
  obtain rfl := recovers.result
  have still : Alike first' second' := recovers.alike
  cases result' with
  | error fault => exact ⟨rfl, still, recovers.regions⟩
  | ok goes =>
      exact ⟨rfl, ⟨still.known, still.source, still.streamLen, still.recovery,
        still.fieldProjection, still.decoder, still.next⟩,
        fun earlier same =>
          ⟨(recovers.regions earlier same).reported, (recovers.regions earlier same).last⟩⟩

/-- Skipping records of the open chunk. -/
theorem skipRecords_agreeing (left : Nat) :
    ∀ {first second : RecordReader}, Alike first second →
      Agreeing first second (skipRecords left first) (skipRecords left second) := by
  induction left with
  | zero => exact fun alike => ⟨rfl, alike, fun _ same => same⟩
  | succ left ih =>
      intro first second alike
      unfold skipRecords
      simp only [Act.bind_run, Act.get_run, alike.decoder]
      cases first.currentDecoder with
      | none => exact ⟨rfl, alike, fun _ same => same⟩
      | some decoder =>
          simp only [Act.bind_run, Act.lift_run]
          cases decoder.readRecord with
          | error fault => exact ⟨rfl, alike, fun _ same => same⟩
          | ok read =>
              obtain ⟨record, next⟩ := read
              cases record with
              | none =>
                  exact ⟨rfl, ⟨alike.known, alike.source, alike.streamLen, alike.recovery,
                    alike.fieldProjection, rfl, alike.next⟩,
                    fun _ same => ⟨same.reported, same.last⟩⟩
              | some record =>
                  simp only [Act.bind_run, Act.modify_run]
                  have still : Alike
                      { first with
                        currentDecoder := some next
                        currentRecordIndex := first.currentRecordIndex + 1 }
                      { second with
                        currentDecoder := some next
                        currentRecordIndex := second.currentRecordIndex + 1 } :=
                    ⟨alike.known, alike.source, alike.streamLen, alike.recovery,
                      alike.fieldProjection, rfl, alike.next⟩
                  have rest := ih still
                  exact ⟨rest.result, rest.alike,
                    fun earlier same => rest.regions earlier ⟨same.reported, same.last⟩⟩

theorem seekWithin_agreeing (alike : Alike first second)
    (chunk : second.currentChunkBegin = first.currentChunkBegin)
    (chunkFilePos recordIndex : Nat) (decoder : ActiveDecoder) :
    Agreeing first second (seekWithin chunkFilePos recordIndex decoder first)
      (seekWithin chunkFilePos recordIndex decoder second) := by
  have opened : Alike { first with currentDecoder := some decoder }
      { second with currentDecoder := some decoder } :=
    ⟨alike.known, alike.source, alike.streamLen, alike.recovery, alike.fieldProjection, rfl,
      alike.next⟩
  have skips := skipRecords_agreeing
    (if first.currentChunkBegin = chunkFilePos then recordIndex else 0) opened
  have count : (if second.currentChunkBegin = chunkFilePos then recordIndex else 0) =
      if first.currentChunkBegin = chunkFilePos then recordIndex else 0 := by rw [chunk]
  rw [seekWithin_run, seekWithin_run, count]
  generalize skipRecords (if first.currentChunkBegin = chunkFilePos then recordIndex else 0)
    { second with currentDecoder := some decoder } = right at skips ⊢
  generalize skipRecords (if first.currentChunkBegin = chunkFilePos then recordIndex else 0)
    { first with currentDecoder := some decoder } = left at skips ⊢
  obtain ⟨result, first'⟩ := left
  obtain ⟨result', second'⟩ := right
  obtain rfl := skips.result
  have still : Alike first' second' := skips.alike
  have regions : ∀ earlier, SameRegions earlier first second → SameRegions earlier first' second' :=
    fun earlier same => skips.regions earlier ⟨same.reported, same.last⟩
  cases result' with
  | error fault => exact ⟨rfl, still, regions⟩
  | ok done =>
      exact ⟨rfl, ⟨still.known, still.source, still.streamLen, still.recovery,
        still.fieldProjection, still.decoder, still.next⟩,
        fun earlier same => ⟨(regions earlier same).reported, (regions earlier same).last⟩⟩

/-- Readers of one source seek alike, wherever they stand. -/
theorem seek_agreeing (alike : Alike first second) (unwavering : Unwavering first.recovery)
    (addressable : first.source.length ≤ u64Max) (target : RecordPosition) :
    Agreeing first second (seek ext target first) (seek ext target second) := by
  have canonical := canonicalChunkAddress_idem target.chunkBegin
  obtain ⟨begun, entered, loaded⟩ := @loadChunkAt_lands ext first alike.known _ canonical
  obtain ⟨begun', entered', loaded'⟩ := @loadChunkAt_lands ext second alike.symmKnown _ canonical
  have lands := @landsAt_lands ext first.source first.fieldProjection
    (canonicalChunkAddress target.chunkBegin)
  rw [seek_eq, seek_eq, loaded, loaded']
  rw [alike.source, alike.fieldProjection] at *
  generalize landsAt ext first.source first.fieldProjection
    (canonicalChunkAddress target.chunkBegin) = landed at *
  obtain ⟨place, found⟩ := landed
  have here : canonicalChunkAddress place = place := by
    rcases lands.possible with same | possible
    · rw [show place = canonicalChunkAddress target.chunkBegin from same, canonical]
    · exact canonicalChunkAddress_eq possible
  cases found with
  | absent =>
      exact ⟨rfl, ⟨alike.known, alike.source, alike.streamLen, alike.recovery,
        alike.fieldProjection, rfl, rfl⟩, fun earlier same => ⟨same.reported, Or.inr here⟩⟩
  | passes stop => exact absurd rfl (lands.settled stop)
  | holds decoder stop =>
      have possible : isPossibleChunkBoundary stop = true :=
        findChunk_stop_possible (by rw [lands.found]; rfl)
      have chunk : begun' = begun := (entered' decoder stop rfl).trans (entered decoder stop rfl).symm
      have opened : Alike
          (afterSeekFinding (first.aimed (canonicalChunkAddress target.chunkBegin)) place begun
            (.holds decoder stop))
          (afterSeekFinding (second.aimed (canonicalChunkAddress target.chunkBegin)) place begun'
            (.holds decoder stop)) :=
        ⟨alike.known, alike.source, alike.streamLen, alike.recovery, alike.fieldProjection, rfl,
          rfl⟩
      have within := seekWithin_agreeing opened chunk (canonicalChunkAddress target.chunkBegin)
        target.recordIndex decoder
      exact ⟨within.result, within.alike, fun earlier same =>
        within.regions earlier ⟨same.reported, Or.inr (canonicalChunkAddress_eq possible)⟩⟩
  | fails fault trusted =>
      have failed : Alike
          (afterSeekFinding (first.aimed (canonicalChunkAddress target.chunkBegin)) place begun
            (.fails fault trusted))
          (afterSeekFinding (second.aimed (canonicalChunkAddress target.chunkBegin)) place begun'
            (.fails fault trusted)) :=
        ⟨alike.known, alike.source, alike.streamLen, alike.recovery, alike.fieldProjection, rfl,
          rfl⟩
      cases fault with
      | panic kind =>
          exact ⟨rfl, failed, fun earlier same => ⟨same.reported, Or.inr here⟩⟩
      | outOfFuel =>
          exact ⟨rfl, failed, fun earlier same => ⟨same.reported, Or.inr here⟩⟩
      | error error =>
          have below : place < u64Max :=
            findChunk_below addressable (by rw [lands.found]; simp)
          have recovers := @recoverSeek_agreeing ext _ _ failed rfl unwavering addressable below
            error
          exact ⟨recovers.result, recovers.alike, fun earlier same =>
            recovers.regions earlier ⟨same.reported, Or.inr here⟩⟩

end Riegeli
