/-
Module: Riegeli.Proofs.FileWalk
Purpose: A sequential read that reaches the end of the file has walked over
  its chunks: the scans that walk over chunk headers meet the same ones.
Trusted boundary: the hash and the codecs
Main exports: Walk, Reads, reads_of_seen, Reads.walk, SoundChunk,
  sizeLoop_walk
-/
import Riegeli.Proofs.StaticReading
import Riegeli.Proofs.OpenDecoders

namespace Riegeli

open RecordReader

variable (ext : Externals)

/-- The chunks from a place to the end of the source are all good, and hold
these records. -/
inductive Walk (source : Bytes) (projection : Option FieldProjection) :
    Nat → List Bytes → Prop where
  | ended {place : Nat} :
      findChunk ext source projection place = .absent → Walk source projection place []
  | passes {place stop : Nat} {records : List Bytes} :
      findChunk ext source projection place = .passes stop →
      Walk source projection stop records → Walk source projection place records
  | holds {place stop : Nat} {decoder : ActiveDecoder} {chunk records : List Bytes} :
      findChunk ext source projection place = .holds decoder stop → decoder.Yields chunk →
      Walk source projection stop records → Walk source projection place (chunk ++ records)

/-- Read these records one after the other. -/
inductive Reads : RecordReader → List Bytes → RecordReader → Prop where
  | stop (reader : RecordReader) : Reads reader [] reader
  | more {reader next after : RecordReader} {record : Bytes} {records : List Bytes} :
      readRecord ext reader = (.ok (some record), next) → Reads next records after →
      Reads reader (record :: records) after

variable {ext} in
/-- A reader whose reads return these records, and then no more, hands them over and
is done. -/
theorem reads_of_seen (records : List Bytes) :
    ∀ {reader : RecordReader},
      observe ext (List.replicate (records.length + 1) .readRecord) reader =
        (records.map some ++ [none]).map (fun result => .record (.ok result)) →
      ∃ last, Reads ext reader records last ∧ (readRecord ext last).1 = .ok none := by
  induction records with
  | nil =>
      intro reader seen
      exact ⟨reader, .stop _, Seen.record.inj (List.cons.inj seen).1⟩
  | cons record rest ih =>
      intro reader seen
      obtain ⟨handed, later⟩ := List.cons.inj seen
      obtain ⟨last, reads, finished⟩ := ih later
      exact ⟨last, .more (Prod.ext (Seen.record.inj handed) rfl) reads, finished⟩

/-- These records are ahead of the reader, and then the end of the source. -/
def Ahead (reader : RecordReader) (records : List Bytes) : Prop :=
  ∃ current rest, Holding reader current ∧
    Walk ext reader.source reader.fieldProjection reader.nextChunkFilePos rest ∧
    records = current ++ rest

variable {ext} {reader : RecordReader}

theorem Walk.of_landing {source : Bytes} {projection : Option FieldProjection}
    {records : List Bytes} : ∀ {fuel place : Nat},
    Walk ext source projection (landing ext source projection fuel place).1 records →
    Walk ext source projection place records := by
  intro fuel
  induction fuel with
  | zero => exact id
  | succ fuel ih =>
      intro place walk
      unfold landing at walk
      cases found : findChunk ext source projection place with
      | absent => rw [found] at walk; exact walk
      | holds decoder stop => rw [found] at walk; exact walk
      | fails fault trusted => rw [found] at walk; exact walk
      | passes stop =>
          rw [found] at walk
          exact .passes found (ih walk)

/-- What an open decoder hands over first is ahead of the reader. -/
theorem Ahead.handed {decoder next : ActiveDecoder} {record : Bytes} {records : List Bytes}
    (current : reader.currentDecoder = some decoder)
    (read : decoder.readRecord = .ok (some record, next))
    (ahead : Ahead ext (handedRecord reader next) records) : Ahead ext reader (record :: records) := by
  obtain ⟨left, rest, holding, walk, rfl⟩ := ahead
  rcases holding with ⟨impossible, _⟩ | ⟨decoder', current', yields⟩
  · cases impossible
  · cases current'
    exact ⟨record :: left, rest, Or.inr ⟨decoder, current, next, read, yields⟩, walk, rfl⟩

/-- What is ahead once the next chunk is loaded was ahead before. -/
theorem Ahead.advanced {after : RecordReader} {records : List Bytes} {more : Bool}
    (known : Known reader) (alone : reader.recovery = none)
    (drained : Holding reader [])
    (advanced : advanceChunk ext { reader with currentDecoder := none } = (.ok more, after))
    (ahead : more = true → Ahead ext after records) (ended : more = false → records = []) :
    Ahead ext reader records := by
  have lands := @landsAt_lands ext reader.source reader.fieldProjection reader.nextChunkFilePos
  have same : RecordReader.landed ext { reader with currentDecoder := none } =
    landsAt ext reader.source reader.fieldProjection reader.nextChunkFilePos := rfl
  rw [advanceChunk_lands (by exact known)] at advanced
  unfold RecordReader.afterLanding at advanced
  rw [same] at advanced
  cases found : (landsAt ext reader.source reader.fieldProjection reader.nextChunkFilePos).2 with
  | passes stop => exact absurd found (lands.settled stop)
  | absent =>
      simp only [found, Prod.mk.injEq, Except.ok.injEq] at advanced
      refine ⟨[], [], drained, ?_, ended advanced.1.symm⟩
      exact Walk.of_landing (.ended (lands.found.trans found))
  | holds decoder stop =>
      simp only [found, Prod.mk.injEq, Except.ok.injEq] at advanced
      obtain ⟨rfl, rfl⟩ := advanced
      obtain ⟨left, rest, holding, walk, rfl⟩ := ahead rfl
      rcases holding with ⟨impossible, _⟩ | ⟨decoder', current', yields⟩
      · cases impossible
      · cases current'
        refine ⟨[], left ++ rest, drained, ?_, rfl⟩
        exact Walk.of_landing (.holds (lands.found.trans found) yields walk)
  | fails fault trusted =>
      cases fault with
      | panic kind => simp [found] at advanced
      | outOfFuel => simp [found] at advanced
      | error error =>
          have still : (afterFinding
              { reader with
                currentDecoder := none
                nextChunkFilePos := (landsAt ext reader.source reader.fieldProjection
                  reader.nextChunkFilePos).1 }
              (landsAt ext reader.source reader.fieldProjection reader.nextChunkFilePos).1
              (.fails (.error error) trusted)).recovery = none := alone
          simp only [found, recoverOrFail, tryRecoverAt_none still, Prod.mk.injEq] at advanced
          cases advanced.1

/-- What a read returns, and what is ahead after it, was ahead before. -/
theorem readRecordLoop_ahead : ∀ {fuel : Nat} {reader after : RecordReader}
    {result : Option Bytes} {records : List Bytes}, Known reader → reader.recovery = none →
    readRecordLoop ext fuel reader = (.ok result, after) →
    (result = none → records = []) →
    (∀ record, result = some record → ∃ rest, records = record :: rest ∧ Ahead ext after rest) →
    Ahead ext reader records := by
  intro fuel
  induction fuel with
  | zero =>
      intro reader after result records _ _ ran
      cases ran
  | succ fuel ih =>
      intro reader after result records known alone ran ended handed
      rw [readRecordLoop_succ] at ran
      have handing := readFromDecoder_handing reader
      generalize readFromDecoder reader = read at ran handing
      cases handing with
      | record current read =>
          simp only [Prod.mk.injEq, Except.ok.injEq] at ran
          obtain ⟨rfl, rfl⟩ := ran
          obtain ⟨rest, rfl, ahead⟩ := handed _ rfl
          exact ahead.handed current read
      | faulty notError => cases ran
      | drained empty =>
          have stays := @advanceChunk_stays ext _ sourceFrame_repositions
            { reader with currentDecoder := none }
          simp only at ran
          cases advanced : advanceChunk ext { reader with currentDecoder := none } with
          | mk more next =>
              rw [advanced] at ran stays
              obtain ⟨_, recovery, measured⟩ := stays
              cases more with
              | error fault => cases ran
              | ok more =>
                  cases more with
                  | false =>
                      simp only [Prod.mk.injEq, Except.ok.injEq] at ran
                      exact Ahead.advanced known alone empty advanced (fun no => nomatch no)
                        fun _ => ended ran.1.symm
                  | true =>
                      have later := ih (measured known) (recovery.trans alone) ran ended handed
                      exact Ahead.advanced known alone empty advanced (fun _ => later)
                        fun no => nomatch no

theorem readRecord_ahead {after : RecordReader} {result : Option Bytes} {records : List Bytes}
    (known : Known reader) (alone : reader.recovery = none)
    (ran : readRecord ext reader = (.ok result, after)) (ended : result = none → records = [])
    (handed : ∀ record, result = some record →
      ∃ rest, records = record :: rest ∧ Ahead ext after rest) : Ahead ext reader records := by
  rw [readRecord_eq] at ran
  obtain ⟨current, rest, holding, walk, same⟩ :=
    @readRecordLoop_ahead ext _ { reader with pendingTrustedEnd := none } after result records
      known alone ran ended handed
  exact ⟨current, rest, holding, walk, same⟩

/-- A read that has come to the end had all of its records ahead. -/
theorem Reads.ahead {records : List Bytes} {last ended : RecordReader} (known : Known reader)
    (alone : reader.recovery = none) (reads : Reads ext reader records last)
    (finished : readRecord ext last = (.ok none, ended)) : Ahead ext reader records := by
  induction reads with
  | stop reader =>
      exact readRecord_ahead known alone finished (fun _ => rfl) fun _ no => nomatch no
  | @more reader next after record records read reads ih =>
      have stays := @readRecord_stays ext _ sourceFrame_repositions reader
      rw [read] at stays
      obtain ⟨_, recovery, measured⟩ := stays
      have later := ih (measured known) (recovery.trans alone) finished
      refine readRecord_ahead known alone read (fun no => nomatch no) fun other same => ?_
      cases same
      exact ⟨records, rfl, later⟩

/-! ## Scans -/

/-- A chunk of a walk: a good header and data with a good hash. -/
structure SoundChunk (ext : Externals) (source : Bytes) (place stop : Nat) (header : ChunkHeader)
    (dataBegin : Nat) (data : Bytes) : Prop where
  read : headerAt ext source place = .ok (some (header, canonicalChunkAddress place, dataBegin))
  headerValid : header.isHeaderValid ext = true
  ends : stop = chunkEnd (canonicalChunkAddress place) header.dataSize header.numRecords
  dataRead :
    readChunkData ext source (canonicalChunkAddress place) stop dataBegin header.dataSize =
      .ok data
  dataValid : header.isDataValid ext data = true

/-- A finding that does not fail comes from a sound chunk. -/
theorem findChunk_sound {source : Bytes} {projection : Option FieldProjection}
    {place stop : Nat} (reaches : (findChunk ext source projection place).stop = some stop)
    (good : ∀ fault trusted, findChunk ext source projection place ≠ .fails fault trusted) :
    ∃ header dataBegin data, SoundChunk ext source place stop header dataBegin data ∧
      findChunk ext source projection place =
        findInChunk ext projection header (canonicalChunkAddress place) stop data := by
  generalize stands : findChunk ext source projection place = found at reaches good
  unfold findChunk at stands
  split at stands
  · exact absurd stands.symm (good _ _)
  · rw [← stands] at reaches
    cases reaches
  · rename_i header chunkBegin dataBegin read
    obtain rfl := headerAt_begin read
    unfold findBody at stands
    split at stands
    · exact absurd stands.symm (good _ _)
    · rename_i valid
      simp only at stands
      split at stands
      · exact absurd stands.symm (good _ _)
      · rename_i data dataRead
        split at stands
        · exact absurd stands.symm (good _ _)
        · rename_i dataValid
          rw [← stands, findInChunk_stop] at reaches
          have ends := Option.some.inj reaches
          rw [ends] at stands dataRead
          exact ⟨header, dataBegin, data,
            ⟨read, by simpa using valid, ends.symm, dataRead, by simpa using dataValid⟩,
            stands.symm⟩

/-- The number of records that `size` counts for a chunk. -/
def countedRecords (header : ChunkHeader) : Nat :=
  match header.chunkType with
  | .ok .simple => header.numRecords
  | .ok .transposed => header.numRecords
  | _ => 0

/-- A chunk that is gone past counts no records. -/
theorem countedRecords_passes {projection : Option FieldProjection} {header : ChunkHeader}
    {chunkBegin extent stop : Nat} {data : Bytes}
    (passes : findInChunk ext projection header chunkBegin extent data = .passes stop) :
    countedRecords header = 0 := by
  unfold findInChunk at passes
  unfold countedRecords
  split at passes
  · rename_i chunkType typed
    rw [typed]
    cases chunkType with
    | simple =>
        unfold openAt at passes
        cases opened : simpleDecoder ext { header := header, data := data } with
        | ok decoder => simp [opened] at passes
        | error fault => simp [opened] at passes
    | transposed =>
        unfold openAt at passes
        cases opened : transposedDecoder ext { header := header, data := data } projection with
        | ok decoder => simp [opened] at passes
        | error fault => simp [opened] at passes
    | fileSignature => rfl
    | fileMetadata => rfl
    | padding => rfl
  · rename_i error typed
    rw [typed]

/-- A chunk with an open decoder counts the records the decoder hands over. -/
theorem countedRecords_holds {projection : Option FieldProjection} {header : ChunkHeader}
    {chunkBegin extent stop : Nat} {data : Bytes} {decoder : ActiveDecoder}
    {records : List Bytes}
    (holds : findInChunk ext projection header chunkBegin extent data = .holds decoder stop)
    (yields : decoder.Yields records) : countedRecords header = records.length := by
  unfold findInChunk at holds
  unfold countedRecords
  split at holds
  · rename_i chunkType typed
    rw [typed]
    cases chunkType with
    | simple =>
        unfold openAt at holds
        cases opened : simpleDecoder ext { header := header, data := data } with
        | error fault => simp [opened] at holds
        | ok other =>
            simp only [opened, Except.ok_bind, Finding.holds.injEq] at holds
            obtain ⟨rfl, _⟩ := holds
            obtain ⟨all, yieldsAll, counted⟩ := simpleDecoder_yields opened
            rw [yieldsAll.unique yields]
            exact counted.symm
    | transposed =>
        unfold openAt at holds
        cases opened : transposedDecoder ext { header := header, data := data } projection with
        | error fault => simp [opened] at holds
        | ok other =>
            simp only [opened, Except.ok_bind, Finding.holds.injEq] at holds
            obtain ⟨rfl, _⟩ := holds
            obtain ⟨all, yieldsAll, counted⟩ := transposedDecoder_yields opened
            rw [yieldsAll.unique yields]
            exact counted.symm
    | fileSignature =>
        unfold openAt at holds
        cases validated : validateSpecialChunk header chunkBegin .fileSignature with
        | error fault => simp [validated] at holds
        | ok valid => simp [validated] at holds
    | fileMetadata =>
        unfold openAt at holds
        cases validated : validateSpecialChunk header chunkBegin .fileMetadata with
        | error fault => simp [validated] at holds
        | ok valid => simp [validated] at holds
    | padding =>
        unfold openAt at holds
        cases validated : validateSpecialChunk header chunkBegin .padding with
        | error fault => simp [validated] at holds
        | ok valid => simp [validated] at holds
  · split at holds <;> cases holds

/-- A pass of `size` over a sound chunk. -/
theorem sizeLoop_sound (known : Known reader) {place stop fuel total : Nat}
    {header : ChunkHeader} {dataBegin : Nat} {data : Bytes}
    (sound : SoundChunk ext reader.source place stop header dataBegin data) :
    sizeLoop ext (fuel + 1) place total reader =
      sizeLoop ext fuel stop (total + countedRecords header) reader := by
  rw [sizeLoop, Act.bind_run]
  unfold attempt
  rw [readChunkHeaderAt_static known, sound.read]
  simp only [sound.headerValid, ↓reduceIte, ← sound.ends]
  rfl

/-- `size` counts the records of a walk. -/
theorem sizeLoop_walk {source : Bytes} {projection : Option FieldProjection} {place : Nat}
    {records : List Bytes} (walk : Walk ext source projection place records) :
    ∀ {fuel total : Nat} {reader : RecordReader}, Known reader → reader.source = source →
      0 < fuel → source.length + 24 < fuel + place →
      sizeLoop ext fuel place total reader = (.ok (total + records.length), reader) := by
  induction walk with
  | @ended place absent =>
      rintro fuel total reader known rfl positive _
      obtain ⟨fuel, rfl⟩ : ∃ smaller, fuel = smaller + 1 := ⟨fuel - 1, by omega⟩
      rw [sizeLoop, Act.bind_run]
      unfold attempt
      rw [readChunkHeaderAt_static known, headerAt_absent absent]
      rfl
  | @passes place stop records found walk ih =>
      rintro fuel total reader known rfl positive enough
      obtain ⟨fuel, rfl⟩ : ∃ smaller, fuel = smaller + 1 := ⟨fuel - 1, by omega⟩
      have on := findChunk_passes_lt found
      have inside := findChunk_passes_inside found
      obtain ⟨header, dataBegin, data, sound, same⟩ := @findChunk_sound ext reader.source
        projection place stop (by rw [found]; rfl) (by rw [found]; simp)
      rw [sizeLoop_sound known sound, countedRecords_passes (same.symm.trans found),
        ih known rfl (by omega) (by omega), Nat.add_zero]
  | @holds place stop decoder chunk records found yields walk ih =>
      rintro fuel total reader known rfl positive enough
      obtain ⟨fuel, rfl⟩ : ∃ smaller, fuel = smaller + 1 := ⟨fuel - 1, by omega⟩
      have on : place < stop :=
        @findChunk_stop_lt ext reader.source projection place stop (by rw [found]; rfl)
      have inside := @findChunk_inside ext reader.source projection place (by rw [found]; simp)
      have near := le_canonicalChunkAddress place
      obtain ⟨header, dataBegin, data, sound, same⟩ := @findChunk_sound ext reader.source
        projection place stop (by rw [found]; rfl) (by rw [found]; simp)
      rw [sizeLoop_sound known sound, countedRecords_holds (same.symm.trans found) yields,
        ih known rfl (by omega) (by omega), List.length_append, Nat.add_assoc]

theorem size_walk {records : List Bytes} (known : Known reader)
    {projection : Option FieldProjection}
    (walk : Walk ext reader.source projection firstDataChunk records) :
    (size ext reader).1 = .ok records.length := by
  have ready : Known { reader with pendingTrustedEnd := none } := known
  have counted := @sizeLoop_walk ext _ _ _ _ walk reader.forwardFuel 0 _ ready rfl
    (Nat.succ_pos _) (by unfold forwardFuel firstDataChunk blockHeaderSize chunkHeaderSize; omega)
  unfold size
  simp only [Act.bind_run, setTrustedEnd, Act.modify_run, Act.get_run]
  rw [show ({ reader with pendingTrustedEnd := none } : RecordReader).forwardFuel =
    reader.forwardFuel from rfl, counted, Nat.zero_add]

end Riegeli
