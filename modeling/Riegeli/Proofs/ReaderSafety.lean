/-
Module: Riegeli.Proofs.ReaderSafety
Purpose: Whatever bytes a source holds, whatever the recovery callback answers and
  whatever was called before, every call of a reader returns.
Trusted boundary: the hash and the codecs
Main exports: readRecord_secured, seek_secured, reader_never_panics
-/
import Riegeli.Spec.SoundReaders
import Riegeli.Proofs.ReaderAgreement
import Riegeli.Proofs.PointerScans
import Riegeli.Proofs.ErrorPersistence

namespace Riegeli

open RecordReader

variable {ext : Externals} {source : Bytes} {reader : RecordReader} {place : Nat}

namespace Secured

variable {Value Result : Type} {first : RecordReader.Method Value}
  {second : Value → RecordReader.Method Result} {middle after : Value → RecordReader → Prop}
  {final : Result → RecordReader → Prop} {run : Except Fault Value × RecordReader}

theorem bind (begins : Secured source (first reader) middle)
    (rest : ∀ value next, SoundReader source next → middle value next →
      Secured source (second value next) final) :
    Secured source ((first >>= second) reader) final :=
  Ends.bind begins fun value next reached => rest value next reached.1 reached.2

theorem pure {value : Value} (sound : SoundReader source reader) (holds : after value reader) :
    Secured source ((Pure.pure value : RecordReader.Method Value) reader) after :=
  ⟨sound, holds⟩

/-- Reading the state first. -/
theorem get_bind {rest : RecordReader → RecordReader.Method Result}
    (secured : Secured source (rest reader reader) final) :
    Secured source ((Act.get >>= rest) reader) final := secured

/-- Updating the state first. -/
theorem modify_bind {update : RecordReader → RecordReader} {rest : Unit → RecordReader.Method Result}
    (secured : Secured source (rest () (update reader)) final) :
    Secured source ((Act.modify update >>= rest) reader) final := secured

theorem ite {condition : Prop} [Decidable condition] {other : RecordReader.Method Value}
    (yes : condition → Secured source (first reader) after)
    (no : ¬ condition → Secured source (other reader) after) :
    Secured source ((if condition then first else other) reader) after :=
  Ends.ite yes no

theorem fail {fault : Fault} (sound : SoundReader source reader) (returned : fault.Returned) :
    Secured source ((Act.fail fault : RecordReader.Method Value) reader) after :=
  ⟨returned, sound⟩

theorem lift {call : Rust Value} {post : Value → Prop} (sound : SoundReader source reader)
    (meets : Meets Fault.Returned call post) :
    Secured source (Act.lift call reader) fun value next => next = reader ∧ post value :=
  (Ends.lift meets fun _ returned => ⟨returned, sound⟩).mono fun _ _ ended =>
    ⟨ended.1 ▸ sound, ended⟩

theorem lift_bind {call : Rust Value} {post : Value → Prop} (sound : SoundReader source reader)
    (meets : Meets Fault.Returned call post)
    (rest : ∀ value, post value → Secured source (second value reader) final) :
    Secured source ((Act.lift call >>= second) reader) final :=
  Ends.lift_bind meets (fun _ returned => ⟨returned, sound⟩) rest

theorem mono (secured : Secured source run middle)
    (weaker : ∀ value next, middle value next → after value next) : Secured source run after :=
  Ends.mono secured fun value next reached => ⟨reached.1, weaker value next reached.2⟩

/-- The `Result` of the call is handed over as a value. -/
theorem attempt (secured : Secured source (first reader) after) :
    Secured source (Riegeli.attempt first reader) fun result next =>
      ∀ value, result = .ok value → after value next := by
  unfold Riegeli.attempt
  cases ran : first reader with
  | mk outcome next =>
      rw [ran] at secured
      cases outcome with
      | ok value =>
          refine ⟨secured.1, fun other same => ?_⟩
          cases same
          exact secured.2
      | error fault =>
          obtain ⟨⟨error, rfl⟩, sound⟩ := secured
          exact ⟨sound, fun value impossible => by cases impossible⟩

/-- The call returns. -/
theorem safe (secured : Secured source run after) : Rust.Safe run.1 := by
  obtain ⟨outcome, next⟩ := run
  cases outcome with
  | ok value => exact Rust.safe_ok value
  | error fault =>
      obtain ⟨⟨error, rfl⟩, _⟩ := secured
      exact Rust.safe_error error

/-- The reader stays sound, however the call ends. -/
theorem sound (secured : Secured source run after) : SoundReader source run.2 := by
  obtain ⟨outcome, next⟩ := run
  cases outcome with
  | ok value => exact secured.1
  | error fault => exact secured.2

end Secured

/-! ## Recovery -/

theorem lastRegionStop_run {region : SkippedRegion}
    (held : reader.lastSkippedRegion = some region) :
    lastRegionStop reader = (.ok region.stop, reader) := by
  unfold lastRegionStop
  rw [Act.bind_run_ok (Act.get_run _), held]
  rfl

/-- A region that is reported ends past the failure. -/
theorem reportRegionAt_secured (addressable : source.length ≤ u64Max)
    (sound : SoundReader source reader) (below : place < u64Max) (error : RiegeliError) :
    Secured source (reportRegionAt ext place error reader) fun verdict next =>
      verdict ≠ none → ∃ region, next.lastSkippedRegion = some region ∧ place < region.stop := by
  unfold reportRegionAt
  refine .get_bind (.modify_bind ?_)
  cases recovery : reader.recovery with
  | none =>
      exact Secured.pure ⟨sound.source, sound.known, sound.decoder⟩ fun impossible =>
        absurd rfl impossible
  | some callback =>
      obtain ⟨extent, extended⟩ := @regionExtent_ok ext reader (by rw [sound.source]; exact addressable)
        (regionStart reader.lastSkippedRegion place) reader.pendingTrustedEnd
      dsimp only
      rw [extended]
      exact ⟨⟨sound.source, sound.known, sound.decoder⟩, fun _ => ⟨_, rfl, lt_regionStop _ _ below⟩⟩

theorem tryRecoverAt_secured (addressable : source.length ≤ u64Max)
    (sound : SoundReader source reader) (below : place < u64Max) (error : RiegeliError) :
    Secured source (tryRecoverAt ext place error reader) fun go next =>
      go = true → place < next.nextChunkFilePos := by
  unfold tryRecoverAt
  refine .bind (reportRegionAt_secured addressable sound below error) fun verdict next kept reported => ?_
  cases verdict with
  | none => exact .pure kept fun impossible => by cases impossible
  | some go =>
      obtain ⟨region, held, past⟩ := reported (by simp)
      dsimp only
      rw [Act.bind_run_ok (lastRegionStop_run held)]
      exact ⟨⟨kept.source, kept.known, fun decoder impossible => by cases impossible⟩, fun _ => past⟩

/-! ## Headers -/

/-- A place where a chunk may be found leaves room below the largest word. -/
theorem below_of_inside (addressable : source.length ≤ u64Max)
    (inside : canonicalChunkAddress place < source.length) : place < u64Max := by
  unfold canonicalChunkAddress blockSize blockHeaderSize at inside
  unfold u64Max at *
  split at inside <;> omega

theorem headerAt_past (past : source.length ≤ canonicalChunkAddress place) :
    headerAt ext source place = .ok none := by
  unfold headerAt
  simp only [readHeaderBytes_absent past]

theorem readChunkHeaderAt_secured (sound : SoundReader source reader) (place : Nat) :
    Secured source (readChunkHeaderAt ext place reader) fun found next =>
      next = reader ∧ ∀ header chunkBegin dataBegin, found = some (header, chunkBegin, dataBegin) →
        HeaderFound source place header chunkBegin := by
  rw [readChunkHeaderAt_static sound.known, sound.source]
  exact Secured.lift sound (headerAt_meets source place)

theorem readChunkHeaderAt_past (sound : SoundReader source reader)
    (past : source.length ≤ canonicalChunkAddress place) :
    readChunkHeaderAt ext place reader = (.ok none, reader) := by
  rw [readChunkHeaderAt_static sound.known, sound.source, headerAt_past past]

theorem peekChunkHeader_secured (sound : SoundReader source reader) (place : Nat) :
    Secured source (peekChunkHeader ext place reader) fun _ next => next = reader := by
  unfold peekChunkHeader
  refine .bind (readChunkHeaderAt_secured sound place) fun found next kept reached => ?_
  cases found with
  | none => exact .pure kept reached.1
  | some found =>
      obtain ⟨header, chunkBegin, dataBegin⟩ := found
      exact .ite (fun _ => .fail kept ⟨_, rfl⟩) fun _ => .pure kept reached.1

theorem peekChunkHeader_past (sound : SoundReader source reader)
    (past : source.length ≤ canonicalChunkAddress place) :
    peekChunkHeader ext place reader = (.ok none, reader) := by
  unfold peekChunkHeader
  rw [Act.bind_run_ok (readChunkHeaderAt_past sound past)]
  rfl

/-! ## Reading -/

theorem readFromDecoder_secured (sound : SoundReader source reader) :
    Secured source (readFromDecoder reader) fun _ next =>
      next.nextChunkFilePos = reader.nextChunkFilePos := by
  rw [readFromDecoder_run]
  cases current : reader.currentDecoder with
  | none => exact ⟨sound, rfl⟩
  | some decoder =>
      obtain ⟨records, yields⟩ := sound.decoder decoder current
      dsimp only
      cases records with
      | nil =>
          rw [show decoder.readRecord = .ok (none, decoder) from yields]
          exact ⟨⟨sound.source, sound.known, fun other impossible => by cases impossible⟩, rfl⟩
      | cons record rest =>
          obtain ⟨after, handed, later⟩ := yields
          rw [handed]
          refine ⟨⟨sound.source, sound.known, fun other same => ?_⟩, rfl⟩
          cases same
          exact ⟨rest, later⟩

/-- The reader past what a load has found. -/
theorem SoundReader.afterFinding (sound : SoundReader source reader) {found : Finding}
    (secure : found.Secure) : SoundReader source (Riegeli.afterFinding reader place found) := by
  cases found with
  | absent => exact ⟨sound.source, sound.known, sound.decoder⟩
  | passes stop => exact ⟨sound.source, sound.known, sound.decoder⟩
  | fails fault trusted => exact ⟨sound.source, sound.known, sound.decoder⟩
  | holds decoder stop =>
      refine ⟨sound.source, sound.known, fun other same => ?_⟩
      cases same
      exact secure

theorem recoverOrFail_secured (addressable : source.length ≤ u64Max)
    (sound : SoundReader source reader) (below : reader.nextChunkFilePos < u64Max)
    (error : RiegeliError) :
    Secured source (recoverOrFail ext error reader) fun _ _ => True := by
  have recovers := @tryRecoverAt_secured ext _ _ _ addressable sound below error
  unfold recoverOrFail
  cases ran : tryRecoverAt ext reader.nextChunkFilePos error reader with
  | mk outcome next =>
      rw [ran] at recovers
      cases outcome with
      | error fault => exact recovers
      | ok go =>
          cases go with
          | true => exact ⟨recovers.1, trivial⟩
          | false => exact ⟨⟨error, rfl⟩, recovers.1⟩

/-- A failure goes back to a place where a chunk may be found. -/
theorem resumeAfter_below {fault : Fault} (trusted : Option Nat) (below : place < u64Max)
    (returned : fault.Returned) : resumeAfter place fault trusted < u64Max := by
  obtain ⟨error, rfl⟩ := returned
  cases trusted with
  | none => exact below
  | some stop => exact Nat.lt_of_le_of_lt (canonicalChunkAddress_le place) below

/-- A pass that goes on has moved the reader, from within the source. -/
theorem advanceChunk_secured (addressable : source.length ≤ u64Max)
    (sound : SoundReader source reader) :
    Secured source (advanceChunk ext reader) fun more next => more = true →
      reader.nextChunkFilePos < next.nextChunkFilePos ∧
        reader.nextChunkFilePos < source.length + 24 := by
  have within : reader.source.length ≤ u64Max := by rw [sound.source]; exact addressable
  have lands := @RecordReader.landed_lands ext reader
  have secure : (reader.landed ext).2.Secure := landsAt_secure _ _ _
  have aimed : SoundReader source { reader with nextChunkFilePos := (reader.landed ext).1 } :=
    ⟨sound.source, sound.known, sound.decoder⟩
  have landed : SoundReader source (reader.afterLanding ext) := aimed.afterFinding secure
  have ends : Secured source (advanceChunk ext reader) fun _ _ => True := by
    rw [advanceChunk_lands sound.known]
    cases found : (reader.landed ext).2 with
    | absent => exact ⟨⟨landed.source, landed.known, landed.decoder⟩, trivial⟩
    | passes stop => exact ⟨⟨landed.source, landed.known, landed.decoder⟩, trivial⟩
    | holds decoder stop => exact ⟨⟨landed.source, landed.known, landed.decoder⟩, trivial⟩
    | fails fault trusted =>
        have present : findChunk ext reader.source reader.fieldProjection
            (reader.landed ext).1 ≠ .absent := by rw [lands.found, found]; simp
        have below := findChunk_below within present
        have resumes : (reader.afterLanding ext).nextChunkFilePos < u64Max := by
          unfold RecordReader.afterLanding
          rw [found] at secure ⊢
          exact resumeAfter_below trusted below secure
        rw [found] at secure
        obtain ⟨error, rfl⟩ := secure
        exact recoverOrFail_secured addressable landed resumes error
  have moves := fun after => @advanceChunk_on ext reader after sound.known within
  rw [sound.source] at moves
  cases ran : advanceChunk ext reader with
  | mk outcome next =>
      rw [ran] at ends
      cases outcome with
      | error fault => exact ends
      | ok more =>
          refine ⟨ends.1, fun goes => ?_⟩
          rw [goes] at ran
          exact moves next ran

theorem readRecordLoop_secured (addressable : source.length ≤ u64Max) :
    ∀ {fuel : Nat} {reader : RecordReader}, SoundReader source reader → 0 < fuel →
      source.length + 24 < fuel + reader.nextChunkFilePos →
      Secured source (readRecordLoop ext fuel reader) fun _ _ => True := by
  intro fuel
  induction fuel with
  | zero =>
      intro reader sound positive
      exact absurd positive (Nat.lt_irrefl 0)
  | succ fuel ih =>
      intro reader sound _ enough
      rw [readRecordLoop]
      refine .bind (readFromDecoder_secured sound) fun record next kept same => ?_
      cases record with
      | some record => exact .pure kept trivial
      | none =>
          refine .bind (advanceChunk_secured addressable kept) fun more after later moved => ?_
          refine .ite (fun goes => ?_) fun _ => .pure later trivial
          obtain ⟨onward, inside⟩ := moved goes
          exact ih later (by omega) (by omega)

theorem readRecord_secured (addressable : source.length ≤ u64Max)
    (sound : SoundReader source reader) :
    Secured source (readRecord ext reader) fun _ _ => True := by
  rw [readRecord_eq]
  have enough : source.length + 24 < reader.forwardFuel + reader.nextChunkFilePos := by
    unfold forwardFuel
    rw [sound.source]
    omega
  have positive : 0 < reader.forwardFuel := Nat.succ_pos _
  exact readRecordLoop_secured addressable ⟨sound.source, sound.known, sound.decoder⟩ positive enough

/-! ## Seeking -/

theorem skipRecords_secured (left : Nat) : ∀ {reader : RecordReader}, SoundReader source reader →
    Secured source (skipRecords left reader) fun _ _ => True := by
  induction left with
  | zero => exact fun sound => .pure sound trivial
  | succ left ih =>
      intro reader sound
      rw [skipRecords]
      refine .get_bind ?_
      cases current : reader.currentDecoder with
      | none => exact Secured.pure sound trivial
      | some decoder =>
          obtain ⟨records, yields⟩ := sound.decoder decoder current
          dsimp only
          cases records with
          | nil =>
              rw [show decoder.readRecord = .ok (none, decoder) from yields]
              refine ⟨⟨sound.source, sound.known, fun other same => ?_⟩, trivial⟩
              cases same
              exact ⟨[], yields⟩
          | cons record rest =>
              obtain ⟨after, handed, later⟩ := yields
              rw [handed]
              refine @ih _ ⟨sound.source, sound.known, fun other same => ?_⟩
              cases same
              exact ⟨rest, later⟩

theorem seekWithin_secured (chunkFilePos recordIndex : Nat) {decoder : ActiveDecoder}
    (opened : decoder.Sound) (sound : SoundReader source reader) :
    Secured source (seekWithin chunkFilePos recordIndex decoder reader) fun _ _ => True := by
  unfold seekWithin
  refine .modify_bind (.get_bind ?_)
  have entered : SoundReader source { reader with currentDecoder := some decoder } := by
    refine ⟨sound.source, sound.known, fun other same => ?_⟩
    cases same
    exact opened
  refine .bind (skipRecords_secured _ entered) fun _ next kept _ => ?_
  exact ⟨⟨kept.source, kept.known, kept.decoder⟩, trivial⟩

theorem recoverSeek_secured (addressable : source.length ≤ u64Max)
    (sound : SoundReader source reader) (below : reader.nextChunkFilePos < u64Max)
    (error : RiegeliError) :
    Secured source (recoverSeek ext error reader) fun _ _ => True := by
  have recovers := @tryRecoverAt_secured ext _ _ _ addressable sound below error
  unfold recoverSeek
  cases ran : tryRecoverAt ext reader.nextChunkFilePos error reader with
  | mk outcome next =>
      rw [ran] at recovers
      cases outcome with
      | error fault => exact recovers
      | ok go =>
          cases go with
          | true => exact ⟨⟨recovers.1.source, recovers.1.known, recovers.1.decoder⟩, trivial⟩
          | false => exact ⟨⟨error, rfl⟩, recovers.1⟩

theorem SoundReader.afterSeekFinding (sound : SoundReader source reader) (chunkBegin : Nat)
    (found : Finding) :
    SoundReader source (Riegeli.afterSeekFinding reader place chunkBegin found) := by
  cases found <;> exact ⟨sound.source, sound.known, sound.decoder⟩

theorem seek_secured (addressable : source.length ≤ u64Max) (sound : SoundReader source reader)
    (target : RecordPosition) :
    Secured source (seek ext target reader) fun _ _ => True := by
  have within : reader.source.length ≤ u64Max := by rw [sound.source]; exact addressable
  rw [seek_eq]
  generalize same : canonicalChunkAddress target.chunkBegin = chunkFilePos
  have canonical : canonicalChunkAddress chunkFilePos = chunkFilePos := by
    rw [← same, canonicalChunkAddress_idem]
  obtain ⟨chunkBegin, _, loads⟩ := @loadChunkAt_lands ext _ sound.known _ canonical
  have lands := @landsAt_lands ext reader.source reader.fieldProjection chunkFilePos
  have secure := @landsAt_secure ext reader.source reader.fieldProjection chunkFilePos
  rw [loads]
  have aimed : SoundReader source (reader.aimed chunkFilePos) :=
    ⟨sound.source, sound.known, fun other impossible => by cases impossible⟩
  generalize landed : landsAt ext reader.source reader.fieldProjection chunkFilePos = landing at *
  obtain ⟨place, found⟩ := landing
  have sought := @SoundReader.afterSeekFinding _ _ place aimed chunkBegin found
  have finds := lands.found
  dsimp only at secure sought finds ⊢
  cases found with
  | absent => exact ⟨⟨sought.source, sought.known, sought.decoder⟩, trivial⟩
  | passes stop => exact ⟨⟨sought.source, sought.known, sought.decoder⟩, trivial⟩
  | holds decoder stop => exact seekWithin_secured _ _ secure sought
  | fails fault trusted =>
      have below : place < u64Max := findChunk_below within (by rw [finds]; simp)
      obtain ⟨error, rfl⟩ := secure
      exact recoverSeek_secured addressable sought below error

/-! ## Numeric seeks and steps back -/

theorem resolveScanOrigin_secured (sound : SoundReader source reader) (target : Nat) :
    Secured source (resolveScanOrigin ext target reader) fun _ next => next = reader := by
  rw [resolveScanOrigin_run sound.known]
  exact ⟨sound, rfl⟩

theorem seekNumericLoop_secured (addressable : source.length ≤ u64Max) (numeric : Nat) :
    ∀ {fuel scanPos : Nat} {reader : RecordReader}, SoundReader source reader → 0 < fuel →
      source.length + 24 < fuel + scanPos →
      Secured source (seekNumericLoop ext numeric fuel scanPos reader) fun _ _ => True := by
  intro fuel
  induction fuel with
  | zero =>
      intro scanPos reader _ positive
      exact absurd positive (Nat.lt_irrefl 0)
  | succ fuel ih =>
      intro scanPos reader sound _ enough
      rw [seekNumericLoop]
      have near := le_canonicalChunkAddress scanPos
      by_cases inside : canonicalChunkAddress scanPos < source.length
      · have below := below_of_inside addressable inside
        refine .bind (peekChunkHeader_secured sound scanPos).attempt fun peeked next kept _ => ?_
        cases peeked with
        | error error =>
            refine .bind (tryRecoverAt_secured addressable kept below error)
              fun recovered after later past => ?_
            refine .ite (fun go => .get_bind ?_) fun _ => .fail later ⟨error, rfl⟩
            have onward := past go
            exact ih later (by omega) (by omega)
        | ok peeked =>
            cases peeked with
            | none => exact ⟨⟨kept.source, kept.known, fun _ impossible => by cases impossible⟩, trivial⟩
            | some header =>
                have onward := lt_chunkEnd scanPos header.dataSize header.numRecords
                refine .ite (fun _ => seek_secured addressable kept _) fun _ => ?_
                refine .ite (fun _ => seek_secured addressable kept _) fun _ => ?_
                exact ih kept (by omega) (by omega)
      · rw [Act.bind_run_ok (attempt_run_ok (peekChunkHeader_past sound (Nat.not_lt.mp inside)))]
        exact ⟨⟨sound.source, sound.known, fun _ impossible => by cases impossible⟩, trivial⟩

theorem forwardFuel_enough (sound : SoundReader source reader) (place : Nat) :
    0 < reader.forwardFuel ∧ source.length + 24 < reader.forwardFuel + place := by
  unfold forwardFuel
  rw [sound.source]
  omega

theorem seekNumeric_secured (addressable : source.length ≤ u64Max)
    (sound : SoundReader source reader) (numeric : Nat) :
    Secured source (seekNumeric ext numeric reader) fun _ _ => True := by
  unfold seekNumeric
  refine .modify_bind ?_
  have begun : SoundReader source { reader with pendingTrustedEnd := none } :=
    ⟨sound.source, sound.known, sound.decoder⟩
  refine .bind (resolveScanOrigin_secured begun numeric) fun origin next kept _ => .get_bind ?_
  obtain ⟨positive, enough⟩ := forwardFuel_enough kept origin
  exact seekNumericLoop_secured addressable numeric kept positive enough

theorem findChunkLoop_secured (target : Nat) :
    ∀ {fuel scanPos : Nat} {reader : RecordReader}, SoundReader source reader → 0 < fuel →
      source.length + 24 < fuel + scanPos →
      Secured source (findChunkLoop ext target fuel scanPos reader) fun _ _ => True := by
  intro fuel
  induction fuel with
  | zero =>
      intro scanPos reader _ positive
      exact absurd positive (Nat.lt_irrefl 0)
  | succ fuel ih =>
      intro scanPos reader sound _ enough
      rw [findChunkLoop]
      have near := le_canonicalChunkAddress scanPos
      by_cases inside : canonicalChunkAddress scanPos < source.length
      · refine .bind (peekChunkHeader_secured sound scanPos) fun peeked next kept _ => ?_
        cases peeked with
        | none => exact .pure kept trivial
        | some header =>
            have onward := lt_chunkEnd scanPos header.dataSize header.numRecords
            refine .ite (fun _ => .pure kept trivial) fun _ => ?_
            exact ih kept (by omega) (by omega)
      · rw [Act.bind_run_ok (peekChunkHeader_past sound (Nat.not_lt.mp inside))]
        exact Secured.pure sound trivial

theorem findChunkBefore_secured (sound : SoundReader source reader) (target : Nat) :
    Secured source (findChunkBefore ext target reader) fun _ _ => True := by
  unfold findChunkBefore
  refine .bind (resolveScanOrigin_secured sound target) fun origin next kept _ => .get_bind ?_
  obtain ⟨positive, enough⟩ := forwardFuel_enough kept origin
  exact findChunkLoop_secured target kept positive enough

/-- Every pass goes on from an earlier place. -/
theorem seekBackLoop_secured (addressable : source.length ≤ u64Max) :
    ∀ {fuel chunkPos : Nat} {reader : RecordReader}, SoundReader source reader →
      chunkPos < fuel → Secured source (seekBackLoop ext fuel chunkPos reader) fun _ _ => True := by
  intro fuel
  induction fuel with
  | zero =>
      intro chunkPos reader _ enough
      exact absurd enough (Nat.not_lt_zero _)
  | succ fuel ih =>
      intro chunkPos reader sound enough
      rw [seekBackLoop]
      refine .ite (fun _ => ?_) fun _ => .pure sound trivial
      refine .bind (findChunkBefore_secured sound _) fun found next kept _ => ?_
      cases found with
      | none => exact .pure kept trivial
      | some found =>
          obtain ⟨chunkBegin, header⟩ := found
          refine .ite (fun _ => ?_) fun _ => ?_
          · exact .bind (seek_secured addressable kept _) fun _ _ later _ => .pure later trivial
          · refine .ite (fun _ => .pure kept trivial) fun earlier => ?_
            exact ih kept (by omega)

theorem seekBack_secured (addressable : source.length ≤ u64Max)
    (sound : SoundReader source reader) :
    Secured source (seekBack ext reader) fun _ _ => True := by
  unfold seekBack
  refine .modify_bind (.get_bind ?_)
  have begun : SoundReader source { reader with pendingTrustedEnd := none } :=
    ⟨sound.source, sound.known, sound.decoder⟩
  refine .ite (fun _ => ?_) fun _ => ?_
  · exact .bind (seek_secured addressable begun _) fun _ _ later _ => .pure later trivial
  · exact seekBackLoop_secured addressable begun (Nat.lt_succ_self _)

/-! ## Scans -/

theorem sizeLoop_secured (addressable : source.length ≤ u64Max) :
    ∀ {fuel scanPos total : Nat} {reader : RecordReader}, SoundReader source reader → 0 < fuel →
      source.length + 24 < fuel + scanPos →
      Secured source (sizeLoop ext fuel scanPos total reader) fun _ _ => True := by
  intro fuel
  induction fuel with
  | zero =>
      intro scanPos total reader _ positive
      exact absurd positive (Nat.lt_irrefl 0)
  | succ fuel ih =>
      intro scanPos total reader sound _ enough
      rw [sizeLoop]
      have near := le_canonicalChunkAddress scanPos
      by_cases inside : canonicalChunkAddress scanPos < source.length
      · have below := below_of_inside addressable inside
        have skips : ∀ {error : RiegeliError} {next : RecordReader}, SoundReader source next →
            Secured source
              ((reportRegionAt ext scanPos error >>= fun verdict =>
                if verdict = some true then lastRegionStop >>= fun stop => sizeLoop ext fuel stop total
                else Act.fail (.error error)) next) fun _ _ => True := by
          intro error next kept
          refine .bind (reportRegionAt_secured addressable kept below error)
            fun verdict after later reported => ?_
          refine .ite (fun go => ?_) fun _ => .fail later ⟨error, rfl⟩
          obtain ⟨region, held, past⟩ := reported (by rw [go]; simp)
          rw [Act.bind_run_ok (lastRegionStop_run held)]
          exact ih later (by omega) (by omega)
        refine .bind (readChunkHeaderAt_secured sound scanPos).attempt fun read next kept reached => ?_
        cases read with
        | error error => exact skips kept
        | ok found =>
            cases found with
            | none => exact .pure kept trivial
            | some found =>
                obtain ⟨header, chunkBegin, dataBegin⟩ := found
                obtain rfl := ((reached _ rfl).2 _ _ _ rfl).begins
                refine .ite (fun _ => ?_) fun _ => skips kept
                have onward := lt_chunkEnd scanPos header.dataSize header.numRecords
                rw [← chunkEnd_canonical] at onward
                exact ih kept (by omega) (by omega)
      · rw [Act.bind_run_ok (attempt_run_ok (readChunkHeaderAt_past sound (Nat.not_lt.mp inside)))]
        exact Secured.pure sound trivial

theorem size_secured (addressable : source.length ≤ u64Max) (sound : SoundReader source reader) :
    Secured source (size ext reader) fun _ _ => True := by
  unfold size
  refine .modify_bind (.get_bind ?_)
  have begun : SoundReader source { reader with pendingTrustedEnd := none } :=
    ⟨sound.source, sound.known, sound.decoder⟩
  obtain ⟨positive, enough⟩ := forwardFuel_enough begun firstDataChunk
  exact sizeLoop_secured addressable begun positive enough

theorem checkFormatLoop_secured :
    ∀ {fuel scanPos : Nat} {reader : RecordReader}, SoundReader source reader → 0 < fuel →
      source.length + 24 < fuel + scanPos →
      Secured source (checkFormatLoop ext fuel scanPos reader) fun _ _ => True := by
  intro fuel
  induction fuel with
  | zero =>
      intro scanPos reader _ positive
      exact absurd positive (Nat.lt_irrefl 0)
  | succ fuel ih =>
      intro scanPos reader sound _ enough
      rw [checkFormatLoop]
      refine .bind (readChunkHeaderAt_secured sound scanPos) fun read next kept reached => ?_
      cases read with
      | none => exact .pure kept trivial
      | some found =>
          obtain ⟨header, chunkBegin, dataBegin⟩ := found
          have found := reached.2 _ _ _ rfl
          obtain rfl := found.begins
          have inside := found.inside
          have near := le_canonicalChunkAddress scanPos
          have onward := lt_chunkEnd scanPos header.dataSize header.numRecords
          rw [← chunkEnd_canonical] at onward
          refine .ite (fun _ => .fail kept ⟨_, rfl⟩) fun _ => .get_bind ?_
          refine .lift_bind kept (readChunkData_meets _ _ _ _ _) fun data _ => ?_
          refine .ite (fun _ => .fail kept ⟨_, rfl⟩) fun _ => ?_
          exact ih kept (by omega) (by omega)

theorem checkFileFormat_secured (sound : SoundReader source reader) :
    Secured source (checkFileFormat ext reader) fun _ _ => True := by
  unfold checkFileFormat
  refine .get_bind (.lift_bind sound (readExactAt_meets _ _ _) fun bytes _ => ?_)
  refine .ite (fun _ => .fail sound ⟨_, rfl⟩) fun _ => ?_
  obtain ⟨positive, enough⟩ := forwardFuel_enough sound blockHeaderSize
  exact checkFormatLoop_secured sound positive enough

/-! ## Metadata -/

/-- A decoder that has records to hand over returns from each call. -/
theorem TransposeChunkDecoder.readRecord_meets {decoder : TransposeChunkDecoder}
    (sound : (ActiveDecoder.transposed decoder).Sound) :
    Meets Fault.Returned decoder.readRecord fun _ => True := by
  have called : ∃ read, (ActiveDecoder.transposed decoder).readRecord = .ok read := by
    obtain ⟨records, yields⟩ := sound
    cases records with
    | nil => exact ⟨_, yields⟩
    | cons record rest =>
        obtain ⟨next, handed, _⟩ := yields
        exact ⟨_, handed⟩
  obtain ⟨read, handed⟩ := called
  obtain ⟨inner, ran, _⟩ := Except.bind_eq_ok.mp handed
  rw [ran]
  exact trivial

theorem decodeMetadata_meets (data : Bytes) (decodedDataSize : Nat) :
    Meets Fault.Returned (decodeMetadata ext data decodedDataSize) fun _ => True := by
  unfold decodeMetadata
  refine .bind (newWithProjection_meets _ none) fun decoder decodes => ?_
  obtain ⟨records, yields, _⟩ := decodes
  refine .bind (TransposeChunkDecoder.readRecord_meets ⟨records, yields⟩) fun read _ => ?_
  obtain ⟨record, after⟩ := read
  cases record with
  | none => exact malformed_meets _
  | some record => exact trivial

theorem readMetadataPayload_secured (sound : SoundReader source reader) (metadataPos : Nat)
    (header : ChunkHeader) :
    Secured source (readMetadataPayload ext metadataPos header reader) fun _ _ => True := by
  unfold readMetadataPayload
  refine .lift_bind sound (validateSpecialChunk_meets _ _ _) fun _ _ => .get_bind ?_
  refine .lift_bind sound (readChunkData_meets _ _ _ _ _) fun data _ => .modify_bind ?_
  have kept : SoundReader source
      { reader with pendingTrustedEnd := some (chunkEnd metadataPos header.dataSize header.numRecords) } :=
    ⟨sound.source, sound.known, sound.decoder⟩
  refine .ite (fun _ => .fail kept ⟨_, rfl⟩) fun _ => ?_
  exact (Secured.lift kept (decodeMetadata_meets _ _)).mono fun _ _ _ => trivial

theorem reportMetadata_secured (addressable : source.length ≤ u64Max)
    (sound : SoundReader source reader) (below : place < u64Max) (error : RiegeliError) :
    Secured source (reportMetadata ext place error reader) fun _ _ => True := by
  unfold reportMetadata
  refine .bind (reportRegionAt_secured addressable sound below error) fun verdict next kept _ => ?_
  exact .ite (fun _ => .pure kept trivial) fun _ => .fail kept ⟨error, rfl⟩

theorem readSerializedMetadata_secured (addressable : source.length ≤ u64Max)
    (sound : SoundReader source reader) :
    Secured source (readSerializedMetadata ext reader) fun _ _ => True := by
  have below : firstDataChunk < u64Max := by decide
  unfold readSerializedMetadata
  refine .modify_bind ?_
  have begun : SoundReader source { reader with pendingTrustedEnd := none } :=
    ⟨sound.source, sound.known, sound.decoder⟩
  refine .bind (peekChunkHeader_secured begun firstDataChunk).attempt fun peeked next kept _ => ?_
  cases peeked with
  | error error => exact reportMetadata_secured addressable kept below error
  | ok peeked =>
      cases peeked with
      | none => exact .pure kept trivial
      | some header =>
          refine .ite (fun _ => .pure kept trivial) fun _ => ?_
          refine .bind (readMetadataPayload_secured kept firstDataChunk header).attempt
            fun payload after later _ => ?_
          cases payload with
          | ok metadata => exact .pure later trivial
          | error error => exact reportMetadata_secured addressable later below error

/-! ## Search -/

theorem collectLoop_secured (addressable : source.length ≤ u64Max) :
    ∀ {fuel scanPos : Nat} {chunks : List (Nat × Nat)} {reader : RecordReader},
      SoundReader source reader → 0 < fuel → source.length + 24 < fuel + scanPos →
      Secured source (RecordReader.collectLoop ext fuel scanPos chunks reader) fun _ _ => True := by
  intro fuel
  induction fuel with
  | zero =>
      intro scanPos chunks reader _ positive
      exact absurd positive (Nat.lt_irrefl 0)
  | succ fuel ih =>
      intro scanPos chunks reader sound _ enough
      rw [RecordReader.collectLoop]
      have near := le_canonicalChunkAddress scanPos
      by_cases inside : canonicalChunkAddress scanPos < source.length
      · have below := below_of_inside addressable inside
        have skips : ∀ {error : RiegeliError} {next : RecordReader}, SoundReader source next →
            Secured source
              ((tryRecoverAt ext scanPos error >>= fun recovered =>
                if recovered = true then
                  Act.get >>= fun self => RecordReader.collectLoop ext fuel self.nextChunkFilePos chunks
                else Act.fail (.error error)) next) fun _ _ => True := by
          intro error next kept
          refine .bind (tryRecoverAt_secured addressable kept below error)
            fun recovered after later past => ?_
          refine .ite (fun go => .get_bind ?_) fun _ => .fail later ⟨error, rfl⟩
          have onward := past go
          exact ih later (by omega) (by omega)
        refine .bind (readChunkHeaderAt_secured sound scanPos).attempt fun read next kept reached => ?_
        cases read with
        | error error => exact skips kept
        | ok found =>
            cases found with
            | none => exact .pure kept trivial
            | some found =>
                obtain ⟨header, chunkBegin, dataBegin⟩ := found
                obtain rfl := ((reached _ rfl).2 _ _ _ rfl).begins
                refine .ite (fun _ => skips kept) fun _ => ?_
                have onward := lt_chunkEnd scanPos header.dataSize header.numRecords
                rw [← chunkEnd_canonical] at onward
                exact ih kept (by omega) (by omega)
      · rw [Act.bind_run_ok (attempt_run_ok (readChunkHeaderAt_past sound (Nat.not_lt.mp inside)))]
        exact Secured.pure sound trivial

theorem collectDataChunks_secured (addressable : source.length ≤ u64Max)
    (sound : SoundReader source reader) :
    Secured source (collectDataChunks ext reader) fun _ _ => True := by
  unfold collectDataChunks
  refine .modify_bind (.get_bind ?_)
  have begun : SoundReader source { reader with pendingTrustedEnd := none } :=
    ⟨sound.source, sound.known, sound.decoder⟩
  obtain ⟨positive, enough⟩ := forwardFuel_enough begun firstDataChunk
  exact collectLoop_secured addressable begun positive enough

theorem parkAtEndOfStream_secured (sound : SoundReader source reader) :
    Secured source (parkAtEndOfStream reader) fun _ _ => True :=
  ⟨⟨sound.source, sound.known, fun _ impossible => by cases impossible⟩, trivial⟩

theorem readRecordAt_secured (addressable : source.length ≤ u64Max)
    (sound : SoundReader source reader) (chunkPos recordIndex : Nat) :
    Secured source (readRecordAt ext chunkPos recordIndex reader) fun _ _ => True := by
  unfold readRecordAt
  refine .bind (seek_secured addressable sound _) fun _ next kept _ => ?_
  refine .bind (readRecord_secured addressable kept) fun record after later _ => .get_bind ?_
  cases record with
  | none => exact .pure later trivial
  | some record => exact .pure later trivial

section Search

variable {test : Bytes → Ordering} {chunks : List (Nat × Nat)}

/-- A probe stays inside the chunks that are searched. -/
theorem probeLoop_secured (addressable : source.length ≤ u64Max) {hi : Nat}
    (listed : hi ≤ chunks.length) :
    ∀ {fuel probe : Nat} {reader : RecordReader}, SoundReader source reader → hi - probe < fuel →
      Secured source (probeLoop ext test chunks hi fuel probe reader) fun found _ =>
        ∀ reached, found = some reached → probe ≤ reached.1 ∧ reached.1 < hi := by
  intro fuel
  induction fuel with
  | zero =>
      intro probe reader _ enough
      exact absurd enough (Nat.not_lt_zero _)
  | succ fuel ih =>
      intro probe reader sound enough
      rw [probeLoop]
      refine .ite (fun within => ?_) fun _ => .pure sound fun _ impossible => by cases impossible
      refine .lift_bind sound (indexAt_meets (by omega)) fun chunk _ => ?_
      obtain ⟨chunkPos, numRecords⟩ := chunk
      refine .bind (readRecordAt_secured addressable sound chunkPos 0) fun first next kept _ => ?_
      cases first with
      | none =>
          refine (ih kept (by omega)).mono fun found _ later reached same => ?_
          obtain ⟨onward, inside⟩ := later reached same
          exact ⟨(Nat.le_succ probe).trans onward, inside⟩
      | some record =>
          refine .pure kept fun reached same => ?_
          cases same
          exact ⟨Nat.le_refl probe, within⟩

theorem withinChunkLoop_secured (addressable : source.length ≤ u64Max) (chunkPos : Nat) :
    ∀ {fuel lo hi : Nat} {reader : RecordReader}, SoundReader source reader → hi - lo < fuel →
      Secured source (withinChunkLoop ext test chunkPos fuel lo hi reader) fun _ _ => True := by
  intro fuel
  induction fuel with
  | zero =>
      intro lo hi reader _ enough
      exact absurd enough (Nat.not_lt_zero _)
  | succ fuel ih =>
      intro lo hi reader sound enough
      rw [withinChunkLoop]
      refine .ite (fun within => ?_) fun _ => .pure sound trivial
      refine .bind (readRecordAt_secured addressable sound _ _) fun read next kept _ => ?_
      cases read with
      | none => exact .pure kept trivial
      | some record =>
          dsimp only
          cases test record with
          | lt => exact ih kept (by omega)
          | gt => exact ih kept (by omega)
          | eq =>
              refine .bind (seek_secured addressable kept _) fun _ _ later _ => ?_
              exact .pure later trivial

theorem binarySearchWithinChunk_secured (addressable : source.length ≤ u64Max)
    (sound : SoundReader source reader) (chunkPos numRecords : Nat) :
    Secured source (binarySearchWithinChunk ext test chunkPos numRecords reader) fun _ _ => True := by
  unfold binarySearchWithinChunk
  refine .ite (fun _ => .pure sound trivial) fun _ => ?_
  exact withinChunkLoop_secured addressable chunkPos sound (by omega)

theorem searchLoop_secured (addressable : source.length ≤ u64Max) :
    ∀ {fuel lo hi : Nat} {reader : RecordReader}, SoundReader source reader →
      lo ≤ hi → hi ≤ chunks.length → hi - lo < fuel →
      Secured source (searchLoop ext test chunks fuel lo hi reader) fun outcome _ =>
        ∀ left, outcome = .left left → left ≤ chunks.length := by
  intro fuel
  induction fuel with
  | zero =>
      intro lo hi reader _ _ _ enough
      exact absurd enough (Nat.not_lt_zero _)
  | succ fuel ih =>
      intro lo hi reader sound ordered listed enough
      rw [searchLoop]
      refine .ite (fun within => ?_) fun _ => .pure sound fun left same => ?_
      · refine .bind (probeLoop_secured addressable listed sound (by omega))
          fun ordering next kept reached => ?_
        cases ordering with
        | none => exact ih kept (by omega) (by omega) (by omega)
        | some found =>
            obtain ⟨probe, chunkPos, versus⟩ := found
            obtain ⟨onward, inside⟩ := reached _ rfl
            dsimp only at onward inside
            cases versus with
            | lt => exact ih kept (by omega) (by omega) (by omega)
            | gt => exact ih kept (by omega) (by omega) (by omega)
            | eq =>
                refine .bind (seek_secured addressable kept _) fun _ _ later _ => ?_
                exact .pure later fun left impossible => by cases impossible
      · cases same
        exact ordered.trans listed

theorem searchBefore_secured (addressable : source.length ≤ u64Max)
    (sound : SoundReader source reader) {lo : Nat} (listed : lo ≤ chunks.length) :
    Secured source (searchBefore ext test chunks lo reader) fun _ _ => True := by
  unfold searchBefore
  refine .ite (fun positive => ?_) fun _ => ?_
  · refine .lift_bind sound (indexAt_meets (by omega)) fun chunk _ => ?_
    obtain ⟨chunkPos, numRecords⟩ := chunk
    refine .bind (binarySearchWithinChunk_secured addressable sound _ _) fun found next kept _ => ?_
    refine .ite (fun _ => .pure kept trivial) fun _ => ?_
    exact .bind (parkAtEndOfStream_secured kept) fun _ _ later _ => .pure later trivial
  · exact .bind (parkAtEndOfStream_secured sound) fun _ _ later _ => .pure later trivial

theorem search_secured (addressable : source.length ≤ u64Max) (sound : SoundReader source reader) :
    Secured source (search ext test reader) fun _ _ => True := by
  unfold search
  refine .bind (collectDataChunks_secured addressable sound) fun chunks next kept _ => ?_
  refine .ite (fun _ => ?_) fun _ => ?_
  · exact .bind (parkAtEndOfStream_secured kept) fun _ _ later _ => .pure later trivial
  · refine .bind (searchLoop_secured addressable kept (Nat.zero_le _) (Nat.le_refl _) (by omega))
      fun outcome after later left => ?_
    cases outcome with
    | found => exact .pure later trivial
    | left lo => exact searchBefore_secured addressable later (left lo rfl)

end Search

/-! ## Opening -/

theorem validateFilePreamble_meets (source : Bytes) :
    Meets Fault.Returned (validateFilePreamble ext source) fun _ => True := by
  unfold validateFilePreamble
  refine .ite (fun _ => malformed_meets _) fun _ => .ite (fun _ => malformed_meets _) fun _ => ?_
  exact .ite (fun _ => malformed_meets _) fun _ => .ite (fun _ => malformed_meets _) fun _ => trivial

theorem initial_sound (source : Bytes) (options : ReaderOptions) :
    SoundReader source (initial source options) :=
  ⟨rfl, rfl, fun _ impossible => by cases impossible⟩

theorem openFile_secured (addressable : source.length ≤ u64Max)
    (sound : SoundReader source reader) :
    Secured source (openFile ext reader) fun _ _ => True := by
  unfold openFile
  refine .get_bind (.bind (Secured.lift sound (validateFilePreamble_meets _)).attempt
    fun validated next kept _ => ?_)
  cases validated with
  | ok _ => exact .pure kept trivial
  | error error =>
      refine .bind (tryRecoverAt_secured addressable kept (by decide) error)
        fun recovered after later _ => ?_
      exact .ite (fun _ => .pure later trivial) fun _ => .fail later ⟨error, rfl⟩

/-- A reader that opens is sound, and one that does not open returns an error. -/
theorem new_meets (addressable : source.length ≤ u64Max) (options : ReaderOptions) :
    Meets Fault.Returned (RecordReader.new ext source options) (SoundReader source) := by
  have opens := @openFile_secured ext _ _ addressable (initial_sound source options)
  unfold RecordReader.new
  refine .ite (fun _ => initial_sound source options) fun _ => ?_
  cases ran : openFile ext (initial source options) with
  | mk outcome next =>
      rw [ran] at opens
      cases outcome with
      | ok _ => exact opens.1
      | error fault => exact opens.1

/-! ## Runs -/

theorem ReaderOp.after_sound (addressable : source.length ≤ u64Max)
    (sound : SoundReader source reader) (op : ReaderOp) :
    SoundReader source (op.after ext reader) := by
  cases op with
  | readRecord => exact (readRecord_secured addressable sound).sound
  | seek target => exact (seek_secured addressable sound target).sound
  | seekNumeric numeric => exact (seekNumeric_secured addressable sound numeric).sound
  | seekBack => exact (seekBack_secured addressable sound).sound
  | search test => exact (search_secured addressable sound).sound
  | size => exact (size_secured addressable sound).sound
  | checkFileFormat => exact (checkFileFormat_secured sound).sound
  | readSerializedMetadata => exact (readSerializedMetadata_secured addressable sound).sound
  | setFieldProjection projection => exact ⟨sound.source, sound.known, sound.decoder⟩

theorem runReader_sound (addressable : source.length ≤ u64Max) :
    ∀ (ops : List ReaderOp) {reader : RecordReader}, SoundReader source reader →
      SoundReader source (runReader ext ops reader) := by
  intro ops
  induction ops with
  | nil => exact fun sound => sound
  | cons op rest ih => exact fun sound => ih (op.after_sound addressable sound)

theorem SoundReader.neverPanics (addressable : source.length ≤ u64Max)
    (sound : SoundReader source reader) : NeverPanics ext reader where
  readRecord := (readRecord_secured addressable sound).safe
  seek target := (seek_secured addressable sound target).safe
  seekNumeric numeric := (seekNumeric_secured addressable sound numeric).safe
  seekBack := (seekBack_secured addressable sound).safe
  search _ := (search_secured addressable sound).safe
  size := (size_secured addressable sound).safe
  checkFileFormat := (checkFileFormat_secured sound).safe
  readSerializedMetadata := (readSerializedMetadata_secured addressable sound).safe

/-- Whatever bytes a source holds, opening it returns, and so does every call after
any calls on it, whatever the recovery callback answers. -/
theorem reader_never_panics (ext : Externals) (addressable : source.length ≤ u64Max)
    (options : ReaderOptions) :
    Rust.Safe (RecordReader.new ext source options) ∧
      ∀ reader, ReaderReached ext source options reader → NeverPanics ext reader := by
  have meets := @new_meets ext _ addressable options
  refine ⟨meets.safe, fun reader reached => ?_⟩
  obtain ⟨opened, ops, isNew, rfl⟩ := reached
  exact (runReader_sound addressable ops (meets.of_ok isNew)).neverPanics addressable

/-- A file cut inside its first chunk, with a callback that goes on. -/
theorem reader_never_panics_cut_chunk :
    Rust.Safe (RecordReader.new storingExternals cutSource
        { ReaderOptions.new with recovery := some fun _ => true }) ∧
      ∀ reader, ReaderReached storingExternals cutSource
        { ReaderOptions.new with recovery := some fun _ => true } reader →
          NeverPanics storingExternals reader :=
  reader_never_panics storingExternals (by decide) _

end Riegeli
