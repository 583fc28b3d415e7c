/-
Module: Riegeli.Proofs.Recovery
Purpose: Recovery is total: any bytes come to finitely many records and skipped
  regions, one after the other, and the verdicts of the callback decide only which
  reads fail.
Trusted boundary: the hash and the codecs
Main exports: Forward, regionAt_forward, exists_recovers, RecoversTo.ordered,
  reportOf_course, recovery_total
-/
import Riegeli.Spec.Recovery
import Riegeli.Proofs.ReaderSafety

namespace Riegeli

open RecordReader

variable {ext : Externals} {source : Bytes} {projection : Option FieldProjection}
  {last : Option SkippedRegion} {place : Nat} {trusted : Option Nat} {error : RiegeliError}

/-! ## Regions -/

/-- A reader that moves forward stands at a chunk boundary past the region it has
reported last, or right behind that region past the end of the source. -/
inductive Forward (source : Bytes) : Option SkippedRegion → Nat → Prop where
  | boundary {last : Option SkippedRegion} {place : Nat} :
      isPossibleChunkBoundary place = true → (∀ region, last = some region → region.stop ≤ place) →
      Forward source last place
  | beyond {region : SkippedRegion} :
      source.length ≤ region.stop → Forward source (some region) region.stop

/-- A region begins where the reader stands. -/
theorem Forward.start (forward : Forward source last place) : regionStart last place = place := by
  cases forward with
  | boundary possible _ => exact regionStart_canonical last (canonicalChunkAddress_eq possible)
  | @beyond region _ =>
      unfold regionStart
      dsimp only
      by_cases second : canonicalChunkAddress region.stop < region.stop
      · rw [if_pos ⟨Nat.le_refl _, second⟩]
      · rw [if_neg fun both => second both.2]
        exact Nat.le_antisymm (canonicalChunkAddress_le _) (Nat.not_lt.mp second)

/-- A chunk whose extent can be trusted stands at its own address. -/
theorem Forward.canonical (forward : Forward source last place)
    (trusted : (findChunk ext source projection place).stop ≠ none) :
    canonicalChunkAddress place = place := by
  cases forward with
  | boundary possible _ => exact canonicalChunkAddress_eq possible
  | @beyond region past =>
      obtain ⟨stop, held⟩ := Option.ne_none_iff_exists'.mp trusted
      obtain ⟨header, dataBegin, found, _⟩ := findChunk_stop held
      have inside := ((@headerAt_meets ext source region.stop).of_ok found _ _ _ rfl).inside
      have near := le_canonicalChunkAddress region.stop
      omega

theorem nextBlockBoundary_aligned (pos : Nat) : isBlockBoundary (nextBlockBoundary pos) = true := by
  unfold nextBlockBoundary
  split
  · assumption
  · rw [isBlockBoundary_iff]
    unfold roundDownToBlockBoundary blockSize
    omega

theorem possible_of_aligned (aligned : isBlockBoundary place = true) :
    isPossibleChunkBoundary place = true := by
  rw [isBlockBoundary_iff] at aligned
  exact isPossibleChunkBoundary_iff.mpr (.inl aligned)

/-- The search for a block to go on from ends at a chunk boundary, or past the
end. -/
theorem resyncLoop_possible (source : Bytes) (streamLen : Nat) :
    ∀ {fuel boundary resync : Nat}, isBlockBoundary boundary = true →
      resyncLoop ext source streamLen fuel boundary = .ok resync →
      isPossibleChunkBoundary resync = true ∨ streamLen < resync := by
  intro fuel
  induction fuel with
  | zero =>
      intro boundary resync _ ran
      cases ran
  | succ fuel ih =>
      intro boundary resync aligned ran
      have possible := possible_of_aligned aligned
      unfold resyncLoop at ran
      dsimp only at ran
      split at ran
      · cases ran
        exact .inl possible
      · split at ran
        · refine ih ?_ ran
          rw [isBlockBoundary_iff] at aligned ⊢
          unfold blockSize
          omega
        · split at ran
          · cases ran
            exact .inl possible
          · split at ran
            · rename_i past
              cases ran
              exact .inr past
            · split at ran
              · rename_i lands
                cases ran
                exact .inl lands
              · exact ih (nextBlockBoundary_aligned _) ran

theorem resyncBoundary_aligned (start : Nat) : isBlockBoundary (resyncBoundary start) = true := by
  unfold resyncBoundary
  split
  · rename_i same
    have aligned := nextBlockBoundary_aligned start
    rw [same, isBlockBoundary_iff] at aligned
    rw [isBlockBoundary_iff]
    unfold blockSize
    omega
  · exact nextBlockBoundary_aligned start

/-- The end of an untrusted region is a chunk boundary, or past the end of the
source. -/
theorem untrusted_stop (addressable : source.length ≤ u64Max) (below : place < u64Max) :
    ∃ extent, regionExtent ext (initial source ReaderOptions.new) place none = .ok extent ∧
      (isPossibleChunkBoundary (regionStop place place extent) = true ∨
        source.length ≤ regionStop place place extent) := by
  obtain ⟨resync, ends, ahead⟩ := @resyncLoop_ok ext source addressable source.length
    (source.length + 1) (resyncBoundary place) (by omega) (by omega)
  have onward := lt_resyncBoundary place
  refine ⟨min resync (max source.length place), ?_, ?_⟩
  · rw [regionExtent_eq]
    unfold resolveBoundaryResync
    dsimp only [initial]
    rw [ends]
  · have takes := le_regionStop place place (min resync (max source.length place))
    by_cases within : resync ≤ source.length
    · have possible := (resyncLoop_possible source source.length (resyncBoundary_aligned place)
        ends).resolve_right (Nat.not_lt.mpr within)
      have extent : min resync (max source.length place) = resync := by omega
      have next : satAdd place 1 = place + 1 := satAdd_eq (by omega)
      left
      rw [extent]
      unfold regionStop
      dsimp only
      rw [next]
      have same : max (max resync (place + 1)) (place + 1) = resync := by omega
      rw [same, canonicalChunkAddress_eq possible, if_neg (by omega)]
      exact possible
    · right
      omega

/-- The end of a trusted region is that of the chunk. -/
theorem trusted_stop {stop : Nat} (possible : isPossibleChunkBoundary stop = true)
    (past : place < stop) (below : place < u64Max) : regionStop place place stop = stop := by
  have next : satAdd place 1 = place + 1 := satAdd_eq (by omega)
  unfold regionStop
  dsimp only
  rw [next]
  have same : max (max stop (place + 1)) (place + 1) = stop := by omega
  rw [same, canonicalChunkAddress_eq possible, if_neg (by omega)]

/-- The region of a failure begins where the reader stands, takes in at least a
byte, and leaves the reader moving forward behind it. -/
theorem regionAt_forward (addressable : source.length ≤ u64Max)
    (forward : Forward source last place)
    (fails : findChunk ext source projection place = .fails (.error error) trusted) :
    ∃ region, regionAt ext source last (resumeAfter place (.error error) trusted) trusted error =
        .ok region ∧
      region.start = place ∧ place < region.stop ∧ Forward source (some region) region.stop := by
  have below : place < u64Max := findChunk_below addressable (by rw [fails]; simp)
  have resumes : resumeAfter place (.error error) trusted = place := by
    cases trusted with
    | none => rfl
    | some stop => exact forward.canonical (by rw [fails]; simp [Finding.stop])
  rw [resumes]
  unfold regionAt
  rw [forward.start]
  dsimp only
  cases trusted with
  | none =>
      obtain ⟨extent, extended, ends⟩ := @untrusted_stop ext _ _ addressable below
      rw [extended]
      refine ⟨_, rfl, rfl, lt_regionStop _ _ below, ?_⟩
      rcases ends with possible | past
      · refine .boundary possible fun region same => ?_
        cases same
        exact Nat.le_refl _
      · exact .beyond past
  | some stop =>
      have found : (findChunk ext source projection place).stop = some stop := by rw [fails]; rfl
      have possible := findChunk_stop_possible found
      have past := findChunk_stop_lt found
      have ends := trusted_stop possible past below
      refine ⟨_, rfl, rfl, ?_, ?_⟩
      · dsimp only
        rw [ends]
        exact past
      · refine .boundary ?_ fun region same => ?_
        · dsimp only
          rw [ends]
          exact possible
        · cases same
          exact Nat.le_refl _

/-! ## Events -/

/-- What a chunk that is not a failure leaves a reader to go on with. -/
theorem Forward.onward {stop : Nat} (forward : Forward source last place)
    (trusted : (findChunk ext source projection place).stop = some stop) :
    Forward source last stop := by
  have past := findChunk_stop_lt trusted
  refine .boundary (findChunk_stop_possible trusted) fun region same => ?_
  cases forward with
  | boundary _ behind => exact (behind region same).trans (Nat.le_of_lt past)
  | beyond _ =>
      cases same
      exact Nat.le_of_lt past

/-- Any bytes come to some events, and to no more than there are bytes left. -/
theorem exists_recovers (addressable : source.length ≤ u64Max)
    (projection : Option FieldProjection) : ∀ (left : Nat) {last : Option SkippedRegion}
      {place : Nat}, source.length + 24 ≤ left + place → Forward source last place →
        ∃ events, RecoversTo ext source projection last place events := by
  intro left
  induction left with
  | zero =>
      intro last place enough _
      have near := le_canonicalChunkAddress place
      exact ⟨[], .ended (findChunk_past (by omega))⟩
  | succ left ih =>
      intro last place enough forward
      have secure := @findChunk_secure ext source projection place
      cases found : findChunk ext source projection place with
      | absent => exact ⟨[], .ended found⟩
      | passes stop =>
          have past : place < stop := findChunk_stop_lt (by rw [found]; rfl)
          obtain ⟨events, rest⟩ := @ih last stop (by omega) (forward.onward (by rw [found]; rfl))
          exact ⟨events, .passes found rest⟩
      | holds decoder stop =>
          rw [found] at secure
          obtain ⟨records, yields⟩ := secure
          have past : place < stop := findChunk_stop_lt (by rw [found]; rfl)
          obtain ⟨events, rest⟩ := @ih last stop (by omega) (forward.onward (by rw [found]; rfl))
          exact ⟨_, .holds found yields rest⟩
      | fails fault trusted =>
          rw [found] at secure
          obtain ⟨error, rfl⟩ := secure
          obtain ⟨region, made, _, past, behind⟩ := regionAt_forward addressable forward found
          obtain ⟨events, rest⟩ := @ih (some region) region.stop (by omega) behind
          exact ⟨_, .fails found made rest⟩

/-- What follows from the order of the events of a source. -/
structure InOrder (place : Nat) (events : List ReadEvent) : Prop where
  ahead : ∀ event ∈ events, place ≤ event.begins
  ordered : events.Pairwise Before
  nonempty : ∀ region error, .skipped region error ∈ events → region.start < region.stop

theorem InOrder.later {stop : Nat} {events : List ReadEvent} (inOrder : InOrder stop events)
    (past : place < stop) : InOrder place events :=
  ⟨fun event member => (Nat.le_of_lt past).trans (inOrder.ahead event member), inOrder.ordered,
    inOrder.nonempty⟩

/-- The records of a chunk come before what lies past the chunk. -/
theorem InOrder.records {stop : Nat} {events : List ReadEvent} (inOrder : InOrder stop events)
    (past : place < stop) (records : List Bytes) :
    InOrder place (records.map (.record place) ++ events) := by
  induction records with
  | nil => exact inOrder.later past
  | cons record rest ih =>
      refine ⟨?_, List.pairwise_cons.mpr ⟨?_, ih.ordered⟩, ?_⟩
      · rintro event (_ | ⟨_, member⟩)
        · exact Nat.le_refl place
        · exact ih.ahead event member
      · intro event member
        have begins := ih.ahead event member
        cases event with
        | record chunkBegin bytes => exact begins
        | skipped region error =>
            have listed : ReadEvent.skipped region error ∈ events := by
              rcases List.mem_append.mp member with made | listed
              · obtain ⟨_, _, impossible⟩ := List.mem_map.mp made
                cases impossible
              · exact listed
            exact Nat.lt_of_lt_of_le past (inOrder.ahead _ listed)
      · rintro region error (_ | ⟨_, member⟩)
        exact ih.nonempty region error member

/-- The events of a source follow one another, and a region ends before what is met
after it begins. -/
theorem RecoversTo.inOrder {events : List ReadEvent} (addressable : source.length ≤ u64Max)
    (recovers : RecoversTo ext source projection last place events)
    (forward : Forward source last place) : InOrder place events := by
  induction recovers with
  | ended _ =>
      exact ⟨fun _ impossible => absurd impossible List.not_mem_nil, List.Pairwise.nil,
        fun _ _ impossible => absurd impossible List.not_mem_nil⟩
  | passes found _ ih =>
      exact (ih (forward.onward (by rw [found]; rfl))).later (findChunk_stop_lt (by rw [found]; rfl))
  | @holds last place stop decoder records events found _ _ ih =>
      have same : canonicalChunkAddress place = place :=
        forward.canonical (by rw [found]; simp [Finding.stop])
      rw [same]
      exact (ih (forward.onward (by rw [found]; rfl))).records
        (findChunk_stop_lt (by rw [found]; rfl)) records
  | @fails last place error trusted region events found made _ ih =>
      obtain ⟨other, same, start, past, behind⟩ := regionAt_forward addressable forward found
      obtain rfl := Except.ok.inj (made.symm.trans same)
      have inOrder := ih behind
      refine ⟨?_, List.pairwise_cons.mpr ⟨inOrder.ahead, inOrder.ordered⟩, ?_⟩
      · rintro event (_ | ⟨_, member⟩)
        · exact start.ge
        · exact (Nat.le_of_lt past).trans (inOrder.ahead event member)
      · rintro other failure (_ | ⟨_, member⟩)
        · rw [start]
          exact past
        · exact inOrder.nonempty other failure member

/-! ## Reads -/

section Reads

variable {callback : List SkippedRegion → Bool} {reader : RecordReader} {events : List ReadEvent}

/-- The events that a reader has ahead of it under a callback. -/
structure OnCourse (ext : Externals) (callback : List SkippedRegion → Bool) (reader : RecordReader)
    (events : List ReadEvent) : Prop where
  known : Known reader
  addressable : reader.source.length ≤ u64Max
  recovery : reader.recovery = some callback
  course : ∃ held later, events = held.map (.record reader.currentChunkBegin) ++ later ∧
    Holding reader held ∧
      RecoversTo ext reader.source reader.fieldProjection reader.lastSkippedRegion
        reader.nextChunkFilePos later

/-! ### What stands at a place -/

theorem RecoversTo.of_absent (recovers : RecoversTo ext source projection last place events)
    (stands : findChunk ext source projection place = .absent) : events = [] := by
  cases recovers with
  | ended _ => rfl
  | passes found _ => cases stands.symm.trans found
  | holds found _ _ => cases stands.symm.trans found
  | fails found _ _ => cases stands.symm.trans found

theorem RecoversTo.of_passes {stop : Nat}
    (recovers : RecoversTo ext source projection last place events)
    (stands : findChunk ext source projection place = .passes stop) :
    RecoversTo ext source projection last stop events := by
  cases recovers with
  | ended found => cases stands.symm.trans found
  | passes found rest =>
      cases stands.symm.trans found
      exact rest
  | holds found _ _ => cases stands.symm.trans found
  | fails found _ _ => cases stands.symm.trans found

theorem RecoversTo.of_holds {stop : Nat} {decoder : ActiveDecoder}
    (recovers : RecoversTo ext source projection last place events)
    (stands : findChunk ext source projection place = .holds decoder stop) :
    ∃ records rest, decoder.Yields records ∧
      events = records.map (.record (canonicalChunkAddress place)) ++ rest ∧
      RecoversTo ext source projection last stop rest := by
  cases recovers with
  | ended found => cases stands.symm.trans found
  | passes found _ => cases stands.symm.trans found
  | holds found yields rest =>
      cases stands.symm.trans found
      exact ⟨_, _, yields, rfl, rest⟩
  | fails found _ _ => cases stands.symm.trans found

theorem RecoversTo.of_fails (recovers : RecoversTo ext source projection last place events)
    (stands : findChunk ext source projection place = .fails (.error error) trusted) :
    ∃ region rest,
      regionAt ext source last (resumeAfter place (.error error) trusted) trusted error =
        .ok region ∧
      events = .skipped region error :: rest ∧
      RecoversTo ext source projection (some region) region.stop rest := by
  cases recovers with
  | ended found => cases stands.symm.trans found
  | passes found _ => cases stands.symm.trans found
  | holds found _ _ => cases stands.symm.trans found
  | fails found made rest =>
      cases stands.symm.trans found
      exact ⟨_, _, made, rfl, rest⟩

/-- Going past chunks changes nothing of what is ahead. -/
theorem RecoversTo.landing : ∀ {fuel place : Nat},
    RecoversTo ext source projection last place events →
      RecoversTo ext source projection last (landing ext source projection fuel place).1 events := by
  intro fuel
  induction fuel with
  | zero => exact fun recovers => recovers
  | succ fuel ih =>
      intro place recovers
      unfold Riegeli.landing
      cases found : findChunk ext source projection place with
      | absent => exact recovers
      | holds decoder stop => exact recovers
      | fails fault trusted => exact recovers
      | passes stop => exact ih (recovers.of_passes found)

/-! ### Passes of a read -/

theorem regionExtent_known (known : Known reader) (start : Nat) (trusted : Option Nat) :
    regionExtent ext (initial reader.source ReaderOptions.new) start trusted =
      regionExtent ext reader start trusted := by
  rw [regionExtent_eq, regionExtent_eq]
  unfold resolveBoundaryResync
  rw [show reader.streamLen = reader.source.length from known]
  rfl

/-- The region that a reader reports is that of its source. -/
theorem regionAt_known {extent : Nat} (known : Known reader)
    (extended : regionExtent ext reader (regionStart reader.lastSkippedRegion place)
      reader.pendingTrustedEnd = .ok extent) :
    regionAt ext reader.source reader.lastSkippedRegion place reader.pendingTrustedEnd error =
      .ok (reader.regionOf place extent error) := by
  unfold regionAt
  dsimp only
  rw [regionExtent_known known, extended]
  rfl

theorem readFromDecoder_drained (empty : Holding reader []) :
    readFromDecoder reader = (.ok none, { reader with currentDecoder := none }) := by
  rw [readFromDecoder_run]
  rcases empty with ⟨none, _⟩ | ⟨decoder, current, yields⟩
  · rw [none]
    exact congrArg (Prod.mk _) (by cases reader; cases none; rfl)
  · rw [current]
    dsimp only
    rw [show decoder.readRecord = .ok (none, decoder) from yields]

/-- How a pass of a read without an open decoder ends: it meets the end, it opens a
chunk, or it reports a region. -/
inductive Advanced (ext : Externals) (callback : List SkippedRegion → Bool)
    (reported : List SkippedRegion) : List ReadEvent → Rust Bool × RecordReader → Prop where
  | ended {after : RecordReader} : after.reported = reported → OnCourse ext callback after [] →
      Advanced ext callback reported [] (.ok false, after)
  | opens {events : List ReadEvent} {after : RecordReader} : after.reported = reported →
      OnCourse ext callback after events → Advanced ext callback reported events (.ok true, after)
  | skips {region : SkippedRegion} {error : RiegeliError} {rest : List ReadEvent}
      {after : RecordReader} : after.reported = reported ++ [region] →
      OnCourse ext callback after rest →
      Advanced ext callback reported (.skipped region error :: rest)
        (if callback (reported ++ [region]) = true then .ok true else .error (.error error), after)

theorem advanceChunk_course (known : Known reader) (addressable : reader.source.length ≤ u64Max)
    (recovery : reader.recovery = some callback) (drained : reader.currentDecoder = none)
    (recovers : RecoversTo ext reader.source reader.fieldProjection reader.lastSkippedRegion
      reader.nextChunkFilePos events) :
    Advanced ext callback reader.reported events (advanceChunk ext reader) := by
  have lands := @RecordReader.landed_lands ext reader
  have secure : (reader.landed ext).2.Secure := landsAt_secure _ _ _
  have there : RecoversTo ext reader.source reader.fieldProjection reader.lastSkippedRegion
      (reader.landed ext).1 events := recovers.landing
  have after : reader.afterLanding ext =
      afterFinding { reader with nextChunkFilePos := (reader.landed ext).1 } (reader.landed ext).1
        (reader.landed ext).2 := rfl
  have stands := lands.found
  rw [advanceChunk_lands known]
  cases found : (reader.landed ext).2 with
  | passes stop => exact absurd found (lands.settled stop)
  | absent =>
      rw [found] at stands after
      rw [there.of_absent stands, after]
      exact .ended rfl ⟨known, addressable, recovery, [], [], rfl, .inl ⟨drained, rfl⟩,
        .ended stands⟩
  | holds decoder stop =>
      rw [found] at stands after
      obtain ⟨records, rest, yields, rfl, later⟩ := there.of_holds stands
      rw [after]
      exact .opens rfl ⟨known, addressable, recovery, records, rest, rfl,
        .inr ⟨decoder, rfl, yields⟩, later⟩
  | fails fault trusted =>
      rw [found] at stands after secure
      obtain ⟨error, rfl⟩ := secure
      obtain ⟨region, rest, made, rfl, later⟩ := there.of_fails stands
      obtain ⟨extent, extended, recovered⟩ := @recoverOrFail_some ext (reader.afterLanding ext)
        callback (by rw [after]; exact recovery) (by rw [after]; exact addressable) error
      have knownAfter : Known (reader.afterLanding ext) := by rw [after]; exact known
      have same := @regionAt_known ext _ error _ _ knownAfter extended
      rw [after] at same
      obtain rfl := Except.ok.inj (made.symm.trans same)
      dsimp only
      rw [recovered, after]
      exact .skips rfl ⟨known, addressable, recovery, [], rest, rfl, .inl ⟨rfl, rfl⟩, later⟩

/-! ### Calls -/

theorem readRecordLoop_course : ∀ {fuel : Nat} {reader : RecordReader} {events : List ReadEvent},
    OnCourse ext callback reader events → 0 < fuel →
      reader.source.length + 24 < fuel + reader.nextChunkFilePos →
      reportOf (readRecordLoop ext fuel reader) =
          (expectedReport callback reader.reported events).1 ∧
        OnCourse ext callback (readRecordLoop ext fuel reader).2
          (expectedReport callback reader.reported events).2 := by
  intro fuel
  induction fuel with
  | zero =>
      intro reader events _ positive
      exact absurd positive (Nat.lt_irrefl 0)
  | succ fuel ih =>
      intro reader events onCourse _ enough
      obtain ⟨known, addressable, recovery, held, later, rfl, holding, recovers⟩ := onCourse
      rw [readRecordLoop_succ]
      cases held with
      | cons record more =>
          rcases holding with ⟨_, impossible⟩ | ⟨decoder, current, next, handed, yields⟩
          · cases impossible
          · have read : readFromDecoder reader = (.ok (some record), handedRecord reader next) := by
              rw [readFromDecoder_run, current]
              dsimp only
              rw [handed]
            rw [read]
            exact ⟨rfl, known, addressable, recovery, more, later, rfl, .inr ⟨next, rfl, yields⟩,
              recovers⟩
      | nil =>
          have read := readFromDecoder_drained holding
          have advanced := @advanceChunk_course ext callback { reader with currentDecoder := none }
            later known addressable recovery rfl recovers
          have moves := fun after => @advanceChunk_on ext { reader with currentDecoder := none } after
            known addressable
          have stays := @advanceChunk_stays ext _ sourceFrame_repositions
            { reader with currentDecoder := none }
          have positions : reader.nextChunkFilePos =
              { reader with currentDecoder := none }.nextChunkFilePos := rfl
          have sources : reader.source = { reader with currentDecoder := none }.source := rfl
          have regions : reader.reported = { reader with currentDecoder := none }.reported := rfl
          rw [positions, sources] at enough
          rw [List.map_nil, List.nil_append, read, regions]
          generalize ({ reader with currentDecoder := none } : RecordReader) = emptied at *
          dsimp only
          cases ran : advanceChunk ext emptied with
          | mk outcome after =>
              rw [ran] at advanced stays moves
              have source := stays.1
              dsimp only at source
              cases advanced with
              | ended same course =>
                  refine ⟨?_, course⟩
                  rw [← same]
                  rfl
              | opens same course =>
                  obtain ⟨onward, inside⟩ := moves _ rfl
                  rw [← same]
                  exact ih course (by omega) (by rw [source]; omega)
              | @skips region error rest _ same course =>
                  rw [expectedReport]
                  cases verdict : callback (emptied.reported ++ [region]) with
                  | true =>
                      rw [verdict] at moves
                      obtain ⟨onward, inside⟩ := moves _ rfl
                      rw [← same]
                      exact ih course (by omega) (by rw [source]; omega)
                  | false =>
                      refine ⟨?_, course⟩
                      rw [← same]
                      rfl

theorem readRecord_course (onCourse : OnCourse ext callback reader events) :
    reportOf (readRecord ext reader) = (expectedReport callback reader.reported events).1 ∧
      OnCourse ext callback (readRecord ext reader).2
        (expectedReport callback reader.reported events).2 := by
  obtain ⟨known, addressable, recovery, course⟩ := onCourse
  have begun : OnCourse ext callback { reader with pendingTrustedEnd := none } events :=
    ⟨known, addressable, recovery, course⟩
  rw [readRecord_eq]
  refine readRecordLoop_course begun (Nat.succ_pos _) ?_
  unfold forwardFuel
  dsimp only
  omega

theorem reportOf_reported (ran : Rust (Option Bytes) × RecordReader) :
    (reportOf ran).reported = ran.2.reported := by
  obtain ⟨result, next⟩ := ran
  cases result with
  | error fault => rfl
  | ok record => cases record <;> rfl

theorem reports_course (count : Nat) : ∀ {reader : RecordReader} {events : List ReadEvent},
    OnCourse ext callback reader events →
      reports ext count reader = expectedReports callback count reader.reported events := by
  induction count with
  | zero => exact fun _ => rfl
  | succ count ih =>
      intro reader events onCourse
      obtain ⟨report, later⟩ := readRecord_course onCourse
      rw [reports, expectedReports, ih later, ← reportOf_reported, report]

/-! ### Lenient callbacks -/

/-- With a callback that always goes on, a read comes to the first record ahead. -/
theorem expectedReport_lenient (lenient : ∀ regions, callback regions = true) :
    ∀ (events : List ReadEvent) (reported : List SkippedRegion),
      (expectedReport callback reported events).1.result =
          .ok (events.filterMap ReadEvent.record?).head? ∧
        (expectedReport callback reported events).2.filterMap ReadEvent.record? =
          (events.filterMap ReadEvent.record?).tail := by
  intro events
  induction events with
  | nil => exact fun _ => ⟨rfl, rfl⟩
  | cons event rest ih =>
      intro reported
      cases event with
      | record chunkBegin bytes => exact ⟨rfl, rfl⟩
      | skipped region error =>
          rw [expectedReport, if_pos (lenient _)]
          exact ih _

theorem expectedReports_lenient (lenient : ∀ regions, callback regions = true) (count : Nat) :
    ∀ (events : List ReadEvent) (reported : List SkippedRegion),
      (expectedReports callback count reported events).map ReadReport.result =
        (((events.filterMap ReadEvent.record?).map some ++ List.replicate count none).take count).map
          Except.ok := by
  induction count with
  | zero => exact fun _ _ => rfl
  | succ count ih =>
      intro events reported
      obtain ⟨first, rest⟩ := expectedReport_lenient lenient events reported
      rw [expectedReports, List.map_cons, ih, first, rest]
      cases events.filterMap ReadEvent.record? with
      | nil => simp [List.replicate_succ]
      | cons record more =>
          rw [List.map_cons, List.cons_append, List.take_succ_cons, List.map_cons]
          refine congrArg _ (congrArg _ ?_)
          rw [List.replicate_succ', ← List.append_assoc]
          exact (List.take_append_of_le_length (by simp)).symm

end Reads

/-! ## Opening -/

/-- A reader that has been opened moves forward from where it stands, behind what it
has reported. -/
structure Poised (source : Bytes) (opened : RecordReader) : Prop where
  known : Known opened
  drained : opened.currentDecoder = none
  forward : Forward source opened.lastSkippedRegion opened.nextChunkFilePos
  opening : opened.reported.length ≤ 1
  reported : ∀ region ∈ opened.reported,
    region.start < region.stop ∧ region.stop ≤ opened.nextChunkFilePos
  source : opened.source = source

theorem initial_poised (source : Bytes) (options : ReaderOptions) :
    Poised source (initial source options) :=
  ⟨rfl, rfl, .boundary (show isPossibleChunkBoundary 64 = true by decide) (fun _ impossible => by cases impossible),
    Nat.zero_le _, fun _ impossible => absurd impossible List.not_mem_nil, rfl⟩

/-- Recovery from a bad preamble leaves the reader behind its region. -/
theorem recovered_poised (addressable : source.length ≤ u64Max) {options : ReaderOptions}
    {extent : Nat}
    (extended : regionExtent ext (initial source options) (regionStart none 0) none = .ok extent) :
    Poised source
      ((initial source options).recovered ((initial source options).regionOf 0 extent error)) := by
  obtain ⟨other, same, ends⟩ := @untrusted_stop ext source 0 addressable (by decide)
  have start : regionStart none 0 = 0 := rfl
  have known : Known (initial source options) := rfl
  rw [start] at extended
  rw [← @regionExtent_known ext _ known] at extended
  obtain rfl := Except.ok.inj (same.symm.trans extended)
  refine ⟨rfl, rfl, ?_, Nat.le_refl _, fun region member => ?_, rfl⟩
  · rcases ends with possible | past
    · refine .boundary possible fun region same => ?_
      cases same
      exact Nat.le_refl _
    · exact .beyond past
  · obtain rfl := List.mem_singleton.mp member
    exact ⟨lt_regionStop 0 _ (show 0 < u64Max by decide), Nat.le_refl _⟩

theorem openFile_poised (addressable : source.length ≤ u64Max) {options : ReaderOptions}
    {opened : RecordReader} (ran : openFile ext (initial source options) = (.ok (), opened)) :
    Poised source opened := by
  have preamble := @validateFilePreamble_meets ext source
  have same : (initial source options).source = source := rfl
  unfold openFile at ran
  rw [Act.bind_run_ok (Act.get_run _), same] at ran
  cases validated : validateFilePreamble ext source with
  | ok _ =>
      have attempted : attempt (Act.lift (validateFilePreamble ext source))
          (initial source options) = (.ok (.ok ()), initial source options) :=
        attempt_run_ok (by rw [Act.lift_run, validated])
      rw [Act.bind_run_ok attempted] at ran
      cases ran
      exact initial_poised source options
  | error fault =>
      rw [validated] at preamble
      obtain ⟨error, rfl⟩ := preamble
      have attempted : attempt (Act.lift (validateFilePreamble ext source))
          (initial source options) = (.ok (.error error), initial source options) := by
        unfold attempt
        rw [Act.lift_run, validated]
      rw [Act.bind_run_ok attempted] at ran
      cases recovery : options.recovery with
      | none =>
          have alone : (initial source options).recovery = none := recovery
          dsimp only at ran
          rw [Act.bind_run_ok (tryRecoverAt_none alone 0 error)] at ran
          cases ran
      | some callback =>
          have present : (initial source options).recovery = some callback := recovery
          obtain ⟨extent, extended⟩ := @regionExtent_ok ext (initial source options) addressable
            (regionStart none 0) none
          have tried := @tryRecoverAt_some ext _ callback present 0 error
          have extends' : regionExtent ext (initial source options)
              (regionStart (initial source options).lastSkippedRegion 0)
              (initial source options).pendingTrustedEnd = .ok extent := extended
          rw [extends'] at tried
          dsimp only at ran
          rw [Act.bind_run_ok tried] at ran
          split at ran
          · cases ran
            exact recovered_poised addressable extended
          · cases ran

theorem new_poised (addressable : source.length ≤ u64Max) {options : ReaderOptions}
    {opened : RecordReader} (isNew : RecordReader.new ext source options = .ok opened) :
    Poised source opened := by
  unfold RecordReader.new at isNew
  split at isNew
  · cases isNew
    exact initial_poised source options
  · split at isNew
    · rename_i reader ran
      cases isNew
      exact openFile_poised addressable ran
    · cases isNew

/-- The events ahead of a reader that has been opened are all that it meets. -/
theorem RecoversTo.totally {opened : RecordReader} {events : List ReadEvent}
    (addressable : opened.source.length ≤ u64Max) (poised : Poised opened.source opened)
    (recovers : RecoversTo ext opened.source opened.fieldProjection opened.lastSkippedRegion
      opened.nextChunkFilePos events) :
    RecoversTotally ext opened events := by
  have inOrder := recovers.inOrder addressable poised.forward
  have follows : ∀ callback count, reports ext count { opened with recovery := some callback } =
      expectedReports callback count opened.reported events := fun callback count =>
    reports_course count ⟨poised.known, addressable, rfl, [], events, rfl, .inl ⟨poised.drained, rfl⟩,
      recovers⟩
  refine ⟨follows, poised.opening, ?_, inOrder.ordered, fun region member event listed => ?_,
    fun callback lenient count => ?_⟩
  · rintro region (member | ⟨error, listed⟩)
    · exact (poised.reported region member).1
    · exact inOrder.nonempty region error listed
  · exact (poised.reported region member).2.trans (inOrder.ahead event listed)
  · rw [follows, expectedReports_lenient lenient]

/-- Whatever bytes a source holds, a reader opened on it comes to finitely many
records and skipped regions, one after the other and none inside another, whatever
the callback answers. -/
theorem recovery_total (addressable : source.length ≤ u64Max) {options : ReaderOptions}
    {opened : RecordReader} (isNew : RecordReader.new ext source options = .ok opened) :
    ∃ events, RecoversTotally ext opened events := by
  have poised := new_poised addressable isNew
  obtain rfl := poised.source
  obtain ⟨events, recovers⟩ := @exists_recovers ext opened.source addressable
    opened.fieldProjection (opened.source.length + 24) _ _ (Nat.le_add_right _ _) poised.forward
  exact ⟨events, recovers.totally addressable poised⟩

/-- Options with a callback that always goes on. -/
def lenientOptions : ReaderOptions := { ReaderOptions.new with recovery := some fun _ => true }

/-- A file with two chunks of records, a chunk between them whose compression type
is none of the format, and stray bytes at its end. -/
def damagedSource : Bytes :=
  preambleSource ++ simpleChunkBytes [0, 2, 3, 1, 1, 2, 3, 4] 2 4 ++ simpleChunkBytes [7] 1 1 ++
    simpleChunkBytes [0, 1, 2, 5, 6] 1 2 ++ [1, 2, 3]

/-- The reader that is opened on it. -/
def damagedReader : RecordReader := RecordReader.initial damagedSource lenientOptions

/-- Every record is met, and the region of the chunk and that of the stray bytes are
skipped. -/
theorem recovery_total_damaged :
    ∃ events, RecoversTotally storingExternals damagedReader events ∧
      expectedReports (fun _ => true) 4 [] events = reports storingExternals 4 damagedReader ∧
      (reports storingExternals 4 damagedReader).map (fun report =>
          (report.result, report.reported.map fun region => (region.start, region.stop))) =
        [(.ok (some [1, 2, 3]), []), (.ok (some [4]), []), (.ok (some [5, 6]), [(112, 153)]),
          (.ok none, [(112, 153), (198, 201)])] := by
  obtain ⟨events, recovers⟩ := @recovery_total storingExternals damagedSource (by decide +kernel)
    lenientOptions damagedReader (new_valid _ (by decide +kernel))
  exact ⟨events, recovers, (recovers.follows (fun _ => true) 4).symm, by decide +kernel⟩

end Riegeli
