/-
Module: Riegeli.Proofs.ReadAlong
Purpose: Reading a whole file is going along its chunks, and chunks without
  records to read make no difference to what is returned.
Trusted boundary: the hash and the codecs
Main exports: Stands, readRecord_along, observe_along, readsAlong_data,
  new_stands
-/
import Riegeli.Proofs.ReaderAgreement
import Riegeli.Proofs.StoredChunks

namespace Riegeli

open RecordReader

variable {ext : Externals}

/-- The reader stands before these chunks of its file, with this decoder
open. -/
structure Stands (ext : Externals) (projection : Option FieldProjection) (lenient : Bool)
    (chunks : List Chunk) (decoder : Option ActiveDecoder) (reader : RecordReader) : Prop where
  known : Known reader
  addressable : reader.source.length ≤ u64Max
  unwavering : Unwavering reader.recovery
  recovery : reader.recovery.isSome = lenient
  fieldProjection : reader.fieldProjection = projection
  decoder : reader.currentDecoder = decoder
  holds : HoldsFrom ext reader.source reader.nextChunkFilePos chunks

variable {projection : Option FieldProjection} {lenient : Bool} {reader : RecordReader}
  {chunk : Chunk} {rest : List Chunk} {decoder : Option ActiveDecoder}

/-! ## Chunks with nothing to read -/

/-- A decoder with a record left hands it over, whatever is ahead. -/
theorem readAlong_record (chunks : List Chunk) {record : Bytes} {next : ActiveDecoder}
    (handed : handOver decoder = .ok (some (record, next))) :
    readAlong ext projection lenient chunks decoder = (.ok (some record), some next, chunks) := by
  cases chunks with
  | nil => rw [readAlong, handed]
  | cons chunk rest => rw [readAlong, handed]

theorem readAlong_fault (chunks : List Chunk) {fault : Fault}
    (handed : handOver decoder = .error fault) :
    readAlong ext projection lenient chunks decoder = (.error fault, decoder, chunks) := by
  cases chunks with
  | nil => rw [readAlong, handed]
  | cons chunk rest => rw [readAlong, handed]

/-- A decoder with nothing left is as good as none. -/
theorem readAlong_drained (chunks : List Chunk) (handed : handOver decoder = .ok none) :
    readAlong ext projection lenient chunks decoder =
      readAlong ext projection lenient chunks none := by
  have nothing : handOver none = .ok none := rfl
  cases chunks with
  | nil => rw [readAlong, readAlong, handed, nothing]
  | cons chunk rest => rw [readAlong, readAlong, handed, nothing]

/-- With no decoder at hand, reading along opens the next chunk. -/
theorem readAlong_opens (chunk : Chunk) (rest : List Chunk) :
    readAlong ext projection lenient (chunk :: rest) none =
      match openedAs ext projection chunk with
      | .ok opened => readAlong ext projection lenient rest opened
      | .error (.error error) =>
          if lenient then readAlong ext projection lenient rest none
          else (.error (.error error), none, chunk :: rest)
      | .error fault => (.error fault, none, rest) := rfl

/-- A read comes to the same without the chunks that have nothing to read. -/
theorem readAlong_data (chunks : List Chunk) :
    ∀ {decoder : Option ActiveDecoder}, (∀ chunk ∈ chunks, MadeChunk ext chunk) →
      (∀ chunk ∈ (readAlong ext projection lenient chunks decoder).2.2, MadeChunk ext chunk) ∧
        readAlong ext projection lenient (chunks.filter isDataChunk) decoder =
          ((readAlong ext projection lenient chunks decoder).1,
            (readAlong ext projection lenient chunks decoder).2.1,
            (readAlong ext projection lenient chunks decoder).2.2.filter isDataChunk) := by
  induction chunks with
  | nil =>
      intro decoder made
      cases handed : handOver decoder with
      | error fault =>
          rw [readAlong_fault _ handed]
          exact ⟨made, readAlong_fault _ handed⟩
      | ok given =>
          cases given with
          | some given =>
              rw [readAlong_record _ handed]
              exact ⟨made, readAlong_record _ handed⟩
          | none =>
              rw [readAlong_drained _ handed, List.filter_nil, readAlong_drained _ handed]
              exact ⟨made, rfl⟩
  | cons chunk rest ih =>
      intro decoder made
      have madeRest : ∀ other ∈ rest, MadeChunk ext other :=
        fun other member => made other (List.mem_cons_of_mem _ member)
      cases handed : handOver decoder with
      | error fault =>
          rw [readAlong_fault _ handed, readAlong_fault _ handed]
          exact ⟨made, rfl⟩
      | ok given =>
          cases given with
          | some given =>
              rw [readAlong_record _ handed, readAlong_record _ handed]
              exact ⟨made, rfl⟩
          | none =>
              rw [readAlong_drained _ handed, readAlong_drained _ handed]
              cases isData : isDataChunk chunk with
              | false =>
                  have opened := openedAs_special (made chunk (List.mem_cons_self ..)) isData
                    projection
                  rw [List.filter_cons_of_neg (by simp [isData]), readAlong_opens, opened]
                  exact ih madeRest
              | true =>
                  rw [List.filter_cons_of_pos isData, readAlong_opens, readAlong_opens]
                  cases openedAs ext projection chunk with
                  | ok opened => exact ih madeRest
                  | error fault =>
                      cases fault with
                      | panic kind => exact ⟨madeRest, rfl⟩
                      | outOfFuel => exact ⟨madeRest, rfl⟩
                      | error error =>
                          cases lenient with
                          | true => exact ih madeRest
                          | false =>
                              refine ⟨made, ?_⟩
                              simp only [Bool.false_eq_true, ↓reduceIte,
                                List.filter_cons_of_pos isData]

/-- So do any number of reads. -/
theorem readsAlong_data (count : Nat) :
    ∀ {chunks : List Chunk} {decoder : Option ActiveDecoder},
      (∀ chunk ∈ chunks, MadeChunk ext chunk) →
      readsAlong ext projection lenient count (chunks.filter isDataChunk) decoder =
        readsAlong ext projection lenient count chunks decoder := by
  induction count with
  | zero => exact fun _ => rfl
  | succ count ih =>
      intro chunks decoder made
      obtain ⟨left, same⟩ := @readAlong_data ext projection lenient chunks decoder made
      rw [readsAlong, readsAlong, same]
      exact congrArg _ (ih left)

/-! ## The open decoder -/

/-- Reading from the decoder is handing over. -/
theorem Stands.handOver {chunks : List Chunk}
    (stands : Stands ext projection lenient chunks decoder reader) :
    (∃ record next, handOver decoder = .ok (some (record, next)) ∧
        readFromDecoder reader = (.ok (some record), handedRecord reader next)) ∨
      (handOver decoder = .ok none ∧
        readFromDecoder reader = (.ok none, { reader with currentDecoder := none })) ∨
      ∃ fault, handOver decoder = .error fault ∧ readFromDecoder reader = (.error fault, reader) := by
  have current := stands.decoder
  rw [readFromDecoder_run]
  cases decoder with
  | none =>
      refine .inr (.inl ⟨rfl, ?_⟩)
      rw [current]
      exact congrArg (Prod.mk _) (by rw [← current])
  | some decoder =>
      rw [current]
      simp only [Riegeli.handOver]
      cases read : decoder.readRecord with
      | error fault => exact .inr (.inr ⟨fault, rfl, rfl⟩)
      | ok handed =>
          obtain ⟨record, next⟩ := handed
          cases record with
          | none => exact .inr (.inl ⟨rfl, rfl⟩)
          | some record => exact .inl ⟨record, next, rfl, rfl⟩

/-- With the decoder dropped the reader stands where it stood. -/
theorem Stands.dropped {chunks : List Chunk}
    (stands : Stands ext projection lenient chunks decoder reader) :
    Stands ext projection lenient chunks none { reader with currentDecoder := none } :=
  ⟨stands.known, stands.addressable, stands.unwavering, stands.recovery, stands.fieldProjection,
    rfl, stands.holds⟩

/-! ## The next chunk -/

/-- A chunk with nothing to read may as well be behind the reader. -/
theorem advanceChunk_special
    (stands : Stands ext projection lenient (chunk :: rest) decoder reader)
    (opened : openedAs ext projection chunk = .ok none) :
    advanceChunk ext reader =
      advanceChunk ext
        { reader with nextChunkFilePos := chunk.stop reader.nextChunkFilePos } := by
  have lands := landsAt_special stands.holds.1 opened
  have known : Known { reader with nextChunkFilePos := chunk.stop reader.nextChunkFilePos } :=
    stands.known
  have landed : RecordReader.landed ext
      { reader with nextChunkFilePos := chunk.stop reader.nextChunkFilePos } =
        reader.landed ext := by
    unfold RecordReader.landed
    rw [stands.fieldProjection]
    exact lands.symm
  rw [advanceChunk_lands stands.known, advanceChunk_lands known]
  unfold RecordReader.afterLanding
  rw [landed]

/-- Where a reader lands that has a chunk in front of it. -/
theorem Stands.landed (stands : Stands ext projection lenient (chunk :: rest) decoder reader)
    {found : Finding}
    (stopsAt : findChunk ext reader.source projection reader.nextChunkFilePos = found)
    (settled : ∀ stop, found ≠ .passes stop) :
    reader.landed ext = (reader.nextChunkFilePos, found) := by
  unfold RecordReader.landed
  rw [stands.fieldProjection]
  exact landsAt_of_found stopsAt settled

/-- A chunk that opens is entered. -/
theorem advanceChunk_opens {opened : ActiveDecoder}
    (stands : Stands ext projection lenient (chunk :: rest) decoder reader)
    (opens : openedAs ext projection chunk = .ok (some opened)) :
    ∃ after, advanceChunk ext reader = (.ok true, after) ∧ after.source = reader.source ∧
      Stands ext projection lenient rest (some opened) after := by
  have found := findChunk_held stands.holds.1 projection
  rw [opens] at found
  have landed := stands.landed found (by simp)
  refine ⟨_, by rw [advanceChunk_lands stands.known, landed], ?_, ?_⟩
  · rw [RecordReader.afterLanding, landed]
    rfl
  · rw [RecordReader.afterLanding, landed]
    exact ⟨stands.known, stands.addressable, stands.unwavering, stands.recovery,
      stands.fieldProjection, rfl, stands.holds.2⟩

/-- Recovery from a chunk whose end is trusted goes on at that end. -/
theorem recoverOrFail_trusted {callback : List SkippedRegion → Bool} {stop : Nat}
    (recovery : reader.recovery = some callback) (always : ∀ regions, callback regions = true)
    (addressable : reader.source.length ≤ u64Max) (within : stop ≤ u64Max)
    (canonical : canonicalChunkAddress reader.nextChunkFilePos = reader.nextChunkFilePos)
    (possible : canonicalChunkAddress stop = stop) (ahead : reader.nextChunkFilePos < stop)
    (error : RiegeliError) :
    ∃ region, recoverOrFail ext error { reader with pendingTrustedEnd := some stop } =
        (.ok true, RecordReader.recovered { reader with pendingTrustedEnd := some stop } region) ∧
      region.stop = stop := by
  obtain ⟨extent, extended, recovered⟩ := @recoverOrFail_some ext
    { reader with pendingTrustedEnd := some stop } callback recovery addressable error
  rw [if_pos (always _)] at recovered
  rw [regionExtent_eq] at extended
  cases extended
  refine ⟨_, recovered, ?_⟩
  have next : satAdd reader.nextChunkFilePos 1 = reader.nextChunkFilePos + 1 :=
    satAdd_eq (by omega)
  have longest : max (max stop (reader.nextChunkFilePos + 1)) (reader.nextChunkFilePos + 1) =
      stop := by
    omega
  simp only [RecordReader.regionOf, regionStart_canonical _ canonical]
  unfold regionStop
  simp only [next, longest, possible]
  rw [if_neg (by omega)]

/-- A chunk that does not open is gone past by a lenient reader only. -/
theorem advanceChunk_fails {error : RiegeliError}
    (stands : Stands ext projection lenient (chunk :: rest) none reader)
    (fails : openedAs ext projection chunk = .error (.error error)) :
    ∃ after, after.source = reader.source ∧
      if lenient then
        advanceChunk ext reader = (.ok true, after) ∧
          Stands ext projection lenient rest none after
      else
        advanceChunk ext reader = (.error (.error error), after) ∧
          Stands ext projection lenient (chunk :: rest) none after := by
  have canonical := canonicalChunkAddress_eq stands.holds.1.standing.possible
  have found := findChunk_held stands.holds.1 projection
  rw [fails] at found
  have landed := stands.landed found (by simp)
  have advanced : advanceChunk ext reader = recoverOrFail ext error (reader.afterLanding ext) := by
    rw [advanceChunk_lands stands.known, landed]
  have after : reader.afterLanding ext =
      { reader with pendingTrustedEnd := some (chunk.stop reader.nextChunkFilePos) } := by
    rw [RecordReader.afterLanding, landed]
    simp only [afterFinding, resumeAfter, canonical]
  rw [advanced, after]
  rcases Option.eq_none_or_eq_some reader.recovery with recovery | ⟨callback, recovery⟩
  · have alone := stands.recovery
    rw [recovery] at alone
    subst alone
    refine ⟨{ reader with pendingTrustedEnd := none }, rfl, ?_⟩
    rw [if_neg (by decide)]
    refine ⟨@recoverOrFail_none ext
      { reader with pendingTrustedEnd := some (chunk.stop reader.nextChunkFilePos) } recovery error, ?_⟩
    exact ⟨stands.known, stands.addressable, stands.unwavering, stands.recovery,
      stands.fieldProjection, stands.decoder, stands.holds⟩
  · have present := stands.recovery
    rw [recovery] at present
    subst present
    have possible := canonicalChunkAddress_eq stands.holds.2.possible
    have further := stands.holds.1.spec.begin_add_le
    obtain ⟨region, recovered, stop⟩ := @recoverOrFail_trusted ext reader callback
      (chunk.stop reader.nextChunkFilePos) recovery (stands.unwavering callback recovery)
      stands.addressable stands.holds.1.standing.within canonical possible (by omega) error
    refine ⟨RecordReader.recovered
      { reader with pendingTrustedEnd := some (chunk.stop reader.nextChunkFilePos) } region, rfl, ?_⟩
    rw [Option.isSome_some, if_pos rfl]
    refine ⟨recovered, stands.known, stands.addressable, stands.unwavering, stands.recovery,
      stands.fieldProjection, rfl, ?_⟩
    simp only [RecordReader.recovered, stop]
    exact stands.holds.2

/-- A panic is never recovered from. -/
theorem advanceChunk_panics {fault : Fault}
    (stands : Stands ext projection lenient (chunk :: rest) none reader)
    (fails : openedAs ext projection chunk = .error fault)
    (panics : ∀ error, fault ≠ .error error) :
    ∃ after, advanceChunk ext reader = (.error fault, after) ∧ after.source = reader.source ∧
      Stands ext projection lenient rest none after := by
  have found := findChunk_held stands.holds.1 projection
  rw [fails] at found
  have landed := stands.landed found (by simp)
  have after : reader.afterLanding ext =
      { reader with
        pendingTrustedEnd := some (chunk.stop reader.nextChunkFilePos)
        nextChunkFilePos := chunk.stop reader.nextChunkFilePos } := by
    rw [RecordReader.afterLanding, landed]
    cases fault with
    | error error => exact absurd rfl (panics error)
    | panic kind => rfl
    | outOfFuel => rfl
  refine ⟨reader.afterLanding ext, ?_, by rw [after], ?_⟩
  · rw [advanceChunk_lands stands.known, landed]
    cases fault with
    | error error => exact absurd rfl (panics error)
    | panic kind => rfl
    | outOfFuel => rfl
  · rw [after]
    exact ⟨stands.known, stands.addressable, stands.unwavering, stands.recovery,
      stands.fieldProjection, stands.decoder, stands.holds.2⟩

/-- At the end of the file there is nothing to load. -/
theorem advanceChunk_end (stands : Stands ext projection lenient [] none reader) :
    ∃ after, advanceChunk ext reader = (.ok false, after) ∧ after.source = reader.source ∧
      Stands ext projection lenient [] none after := by
  have canonical := canonicalChunkAddress_eq stands.holds.1
  have found : findChunk ext reader.source projection reader.nextChunkFilePos = .absent := by
    refine findChunk_past ?_
    rw [canonical]
    exact Nat.le_of_eq stands.holds.2.symm
  have landed : reader.landed ext = (reader.nextChunkFilePos, .absent) := by
    unfold RecordReader.landed
    rw [stands.fieldProjection]
    exact landsAt_of_found found (by simp)
  refine ⟨_, by rw [advanceChunk_lands stands.known, landed], ?_, ?_⟩
  · rw [RecordReader.afterLanding, landed]
    rfl
  · rw [RecordReader.afterLanding, landed]
    exact ⟨stands.known, stands.addressable, stands.unwavering, stands.recovery,
      stands.fieldProjection, stands.decoder, stands.holds⟩

/-! ## Reading along -/

/-- The loop of `read_record` goes along the chunks.  The induction is on the
chunks still ahead, each of which takes at most one pass. -/
theorem readRecordLoop_along (chunks : List Chunk) :
    ∀ {fuel : Nat} {decoder : Option ActiveDecoder} {reader : RecordReader},
      Stands ext projection lenient chunks decoder reader → chunks.length < fuel →
      ∃ result next left after, readAlong ext projection lenient chunks decoder =
          (result, next, left) ∧ readRecordLoop ext fuel reader = (result, after) ∧
        after.source = reader.source ∧ Stands ext projection lenient left next after := by
  induction chunks with
  | nil =>
      intro fuel decoder reader stands enough
      obtain ⟨fuel, rfl⟩ : ∃ smaller, fuel = smaller + 1 := ⟨fuel - 1, by simp at enough; omega⟩
      rw [readRecordLoop_succ]
      rcases stands.handOver with ⟨record, next, handed, read⟩ | ⟨handed, read⟩ | ⟨fault, handed, read⟩
      · rw [read]
        refine ⟨_, _, _, _, by rw [readAlong, handed], rfl, rfl, ?_⟩
        exact ⟨stands.known, stands.addressable, stands.unwavering, stands.recovery,
          stands.fieldProjection, rfl, stands.holds⟩
      · obtain ⟨after, advanced, source, further⟩ := advanceChunk_end stands.dropped
        rw [read]
        simp only [advanced]
        exact ⟨_, _, _, _, by rw [readAlong, handed], rfl, source, further⟩
      · rw [read]
        exact ⟨_, _, _, _, by rw [readAlong, handed], rfl, rfl, stands⟩
  | cons chunk rest ih =>
      intro fuel decoder reader stands enough
      obtain ⟨fuel, rfl⟩ : ∃ smaller, fuel = smaller + 1 := ⟨fuel - 1, by simp at enough; omega⟩
      rw [List.length_cons] at enough
      rcases stands.handOver with ⟨record, next, handed, read⟩ | ⟨handed, read⟩ | ⟨fault, handed, read⟩
      · rw [readRecordLoop_succ, read]
        refine ⟨_, _, _, _, by rw [readAlong, handed], rfl, rfl, ?_⟩
        exact ⟨stands.known, stands.addressable, stands.unwavering, stands.recovery,
          stands.fieldProjection, rfl, stands.holds⟩
      · have dropped := stands.dropped
        rw [readAlong_drained _ handed, readAlong_opens]
        cases opens : openedAs ext projection chunk with
        | ok opened =>
            cases opened with
            | none =>
                -- the same loop from behind the chunk
                have behind : Stands ext projection lenient rest none
                    { reader with
                      currentDecoder := none
                      nextChunkFilePos := chunk.stop reader.nextChunkFilePos } :=
                  ⟨stands.known, stands.addressable, stands.unwavering, stands.recovery,
                    stands.fieldProjection, rfl, stands.holds.2⟩
                obtain ⟨result, next, left, after, same, ran, source, further⟩ :=
                  @ih (fuel + 1) none _ behind (by omega)
                refine ⟨result, next, left, after, same, ?_, source, further⟩
                rw [← ran, readRecordLoop_succ, readRecordLoop_succ, read]
                simp only [readFromDecoder_run]
                rw [advanceChunk_special dropped opens]
            | some opened =>
                obtain ⟨after, advanced, source, further⟩ := advanceChunk_opens dropped opens
                obtain ⟨result, next, left, last, same, ran, lastSource, stood⟩ :=
                  ih further (show rest.length < fuel by omega)
                rw [readRecordLoop_succ, read]
                simp only [advanced]
                exact ⟨result, next, left, last, same, ran, lastSource.trans source, stood⟩
        | error fault =>
            cases fault with
            | error error =>
                obtain ⟨after, source, advanced⟩ := advanceChunk_fails dropped opens
                rw [readRecordLoop_succ, read]
                cases lenient with
                | true =>
                    rw [if_pos rfl] at advanced
                    obtain ⟨advanced, further⟩ := advanced
                    obtain ⟨result, next, left, last, same, ran, lastSource, stood⟩ :=
                      ih further (show rest.length < fuel by omega)
                    simp only [advanced]
                    exact ⟨result, next, left, last, same, ran, lastSource.trans source, stood⟩
                | false =>
                    rw [if_neg (by decide)] at advanced
                    obtain ⟨advanced, further⟩ := advanced
                    simp only [advanced]
                    exact ⟨_, _, _, _, rfl, rfl, source, further⟩
            | panic kind =>
                obtain ⟨after, advanced, source, further⟩ :=
                  advanceChunk_panics dropped opens (by simp)
                rw [readRecordLoop_succ, read]
                simp only [advanced]
                exact ⟨_, _, _, _, rfl, rfl, source, further⟩
            | outOfFuel =>
                obtain ⟨after, advanced, source, further⟩ :=
                  advanceChunk_panics dropped opens (by simp)
                rw [readRecordLoop_succ, read]
                simp only [advanced]
                exact ⟨_, _, _, _, rfl, rfl, source, further⟩
      · rw [readRecordLoop_succ, read]
        exact ⟨_, _, _, _, by rw [readAlong, handed], rfl, rfl, stands⟩

/-- `read_record` goes along the chunks of a whole file. -/
theorem readRecord_along {chunks : List Chunk}
    (stands : Stands ext projection lenient chunks decoder reader) :
    ∃ result next left after, readAlong ext projection lenient chunks decoder =
        (result, next, left) ∧ readRecord ext reader = (result, after) ∧
      Stands ext projection lenient left next after := by
  have room := stands.holds.length_le
  have cleared : Stands ext projection lenient chunks decoder
      { reader with pendingTrustedEnd := none } :=
    ⟨stands.known, stands.addressable, stands.unwavering, stands.recovery, stands.fieldProjection,
      stands.decoder, stands.holds⟩
  obtain ⟨result, next, left, after, same, ran, _, further⟩ :=
    @readRecordLoop_along ext projection lenient chunks reader.forwardFuel decoder _ cleared
      (by unfold forwardFuel; omega)
  exact ⟨result, next, left, after, same, (readRecord_eq reader).trans ran, further⟩

/-- So do any number of reads. -/
theorem observe_along (count : Nat) :
    ∀ {chunks : List Chunk} {decoder : Option ActiveDecoder} {reader : RecordReader},
      Stands ext projection lenient chunks decoder reader →
      observe ext (List.replicate count .readRecord) reader =
        (readsAlong ext projection lenient count chunks decoder).map Seen.record := by
  induction count with
  | zero => exact fun _ => rfl
  | succ count ih =>
      intro chunks decoder reader stands
      obtain ⟨result, next, left, after, same, ran, further⟩ := readRecord_along stands
      rw [List.replicate_succ, observe, readsAlong, same, ran]
      simp only [List.map_cons]
      rw [ReaderOp.after, ran]
      exact congrArg _ (ih further)

end Riegeli
