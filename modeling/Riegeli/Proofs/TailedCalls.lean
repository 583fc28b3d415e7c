/-
Module: Riegeli.Proofs.TailedCalls
Purpose: Along every schedule of growth and reads each call at the tail of a file
  returns the next record exactly when its chunk has arrived.
Trusted boundary: the hash, the codecs and the sink
Main exports: FileChunks.holdsRecords, tail_run, tail_exact
-/
import Riegeli.Proofs.SingleDamage
import Riegeli.Proofs.Tailing

namespace Riegeli

open RecordReader

variable {ext : Externals} {projection : Option FieldProjection} {source : Bytes}
  {file chunks earlier : List HeldChunk} {seen returned : Nat} {reader : RecordReader}

/-! ## The chunks behind the signature -/

/-- A file without its signature chunk. -/
theorem FileChunks.holdsRecords (chunks : FileChunks ext projection source file) :
    ∃ held, file = (signatureChunk ext).bare :: held ∧
      HoldsRecords ext projection source held := by
  obtain ⟨held, rfl⟩ := chunks.signed
  refine ⟨held, rfl, chunks.source_eq, ⟨?_, chunks.placed, chunks.within⟩,
    fun chunk member => chunks.opens chunk (List.mem_cons_of_mem _ member)⟩
  intro made member
  obtain ⟨chunk, inside, rfl⟩ := List.mem_map.mp member
  exact chunks.made chunk (List.mem_cons_of_mem _ inside)

theorem chunkPlace_signed (earlier : List HeldChunk) :
    chunkPlace ((signatureChunk ext).bare :: earlier) =
      fileStop firstDataChunk (earlier.map HeldChunk.chunk) := by
  have stop : (signatureChunk ext).bare.chunk.stop 0 = firstDataChunk := signatureChunk_stop
  rw [chunkPlace, List.map_cons, fileStop, stop]

theorem allVisible_iff (chunks : List HeldChunk) : ∀ {chunkBegin : Nat},
    AllVisible seen chunkBegin chunks ↔
      ∀ front chunk back, chunks = front ++ chunk :: back →
        Visible seen (fileStop chunkBegin (front.map HeldChunk.chunk)) chunk.chunk.header := by
  induction chunks with
  | nil => exact ⟨fun _ front chunk back impossible => by simp at impossible, fun _ => trivial⟩
  | cons held rest ih =>
      intro chunkBegin
      constructor
      · rintro ⟨visible, others⟩ front chunk back split
        cases front with
        | nil =>
            obtain ⟨rfl, _⟩ := List.cons.inj split
            exact visible
        | cons first front =>
            obtain ⟨rfl, further⟩ := List.cons.inj split
            exact ih.mp others front chunk back further
      · intro all
        exact ⟨all [] held rest rfl, ih.mpr fun front chunk back split =>
          all (held :: front) chunk back (congrArg (held :: ·) split)⟩

/-- The chunks behind the signature are there as far as they are visible. -/
theorem allThere_signed (signed : firstDataChunk ≤ seen) :
    AllThere seen ((signatureChunk ext).bare :: earlier) ↔ AllVisible seen firstDataChunk earlier := by
  rw [allVisible_iff]
  constructor
  · intro all front chunk back split
    rw [← @chunkPlace_signed ext]
    exact all (_ :: front) chunk back (congrArg (_ :: ·) split)
  · intro visible front chunk back split
    cases front with
    | nil =>
        obtain ⟨rfl, _⟩ := List.cons.inj split
        have none : (signatureChunk ext).header.numRecords = 0 :=
          ChunkHeader.numRecords_fromParts _ _ _ (by decide)
        have size : (signatureChunk ext).header.dataSize = 0 := rfl
        have ends : dataStop 0 0 = firstDataChunk := by decide
        refine ⟨?_, ?_⟩
        · change dataStop 0 (signatureChunk ext).header.dataSize ≤ seen
          rw [size, ends]
          exact signed
        · change 0 + (signatureChunk ext).header.numRecords ≤ seen
          rw [none]
          exact Nat.zero_le _
    | cons first front =>
        obtain ⟨rfl, further⟩ := List.cons.inj split
        rw [chunkPlace_signed]
        exact visible front chunk back further

/-! ## What has arrived -/

/-- The records that have arrived are those of the longest visible part. -/
theorem arrived_longest (chunks : List HeldChunk) : ∀ {chunkBegin : Nat},
    ∃ passed rest, chunks = passed ++ rest ∧ AllVisible seen chunkBegin passed ∧
      arrived seen chunkBegin chunks = heldRecords passed := by
  induction chunks with
  | nil => exact ⟨[], [], rfl, trivial, rfl⟩
  | cons held rest ih =>
      intro chunkBegin
      by_cases visible : Visible seen chunkBegin held.chunk.header
      · obtain ⟨passed, others, split, all, same⟩ := @ih (held.chunk.stop chunkBegin)
        refine ⟨held :: passed, others, congrArg (held :: ·) split, ⟨visible, all⟩, ?_⟩
        rw [arrived, if_pos visible, same, heldRecords_cons]
      · refine ⟨[], held :: rest, rfl, trivial, ?_⟩
        rw [arrived, if_neg visible, heldRecords_nil]

/-- Every record is in one of the chunks. -/
theorem exists_holding (chunks : List HeldChunk) : ∀ {index : Nat},
    index < (heldRecords chunks).length → ∃ earlier chunk later, chunks = earlier ++ chunk :: later ∧
      (heldRecords earlier).length ≤ index ∧ index < (heldRecords (earlier ++ [chunk])).length := by
  induction chunks with
  | nil => exact fun impossible => absurd impossible (Nat.not_lt_zero _)
  | cons held rest ih =>
      intro index within
      rw [heldRecords_cons, List.length_append] at within
      by_cases here : index < held.records.length
      · refine ⟨[], held, rest, rfl, Nat.zero_le _, ?_⟩
        rw [List.nil_append, heldRecords_cons, List.length_append]
        omega
      · obtain ⟨earlier, chunk, later, split, low, high⟩ := @ih (index - held.records.length) (by omega)
        refine ⟨held :: earlier, chunk, later, congrArg (held :: ·) split, ?_, ?_⟩
        · rw [heldRecords_cons, List.length_append]
          omega
        · rw [List.cons_append, heldRecords_cons, List.length_append]
          omega

/-- A record has arrived when its chunk and those in front of it are visible. -/
theorem arrived_iff {chunkBegin index : Nat} :
    (∃ record, (arrived seen chunkBegin chunks)[index]? = some record) ↔
      ∃ earlier chunk later, chunks = earlier ++ chunk :: later ∧
        (heldRecords earlier).length ≤ index ∧ index < (heldRecords (earlier ++ [chunk])).length ∧
        AllVisible seen chunkBegin (earlier ++ [chunk]) := by
  constructor
  · rintro ⟨record, there⟩
    obtain ⟨passed, rest, split, visible, same⟩ := @arrived_longest seen chunks chunkBegin
    rw [same] at there
    obtain ⟨within, _⟩ := List.getElem?_eq_some_iff.mp there
    obtain ⟨earlier, chunk, later, cut, low, high⟩ := exists_holding passed within
    refine ⟨earlier, chunk, later ++ rest, ?_, low, high, ?_⟩
    · rw [split, cut, List.append_assoc, List.cons_append]
    · refine (allVisible_iff _).mpr fun front next back further => ?_
      refine (allVisible_iff _).mp visible front next (back ++ later) ?_
      rw [cut, List.append_cons, further, List.append_assoc, List.cons_append]
  · rintro ⟨earlier, chunk, later, split, _, high, visible⟩
    have same := @AllVisible.arrived (earlier ++ [chunk]) later seen chunkBegin visible
    rw [List.append_assoc, List.singleton_append, ← split] at same
    rw [same, List.getElem?_append_left high]
    exact ⟨_, List.getElem?_eq_getElem high⟩

/-- If all that has begun to arrive is visible, so are a chunk that has begun and
those in front of it. -/
theorem CaughtUp.visible {chunk : HeldChunk} {later : List HeldChunk} (earlier : List HeldChunk) :
    ∀ {chunkBegin : Nat}, CaughtUp seen chunkBegin (earlier ++ chunk :: later) →
      fileStop chunkBegin (earlier.map HeldChunk.chunk) < seen →
      AllVisible seen chunkBegin (earlier ++ [chunk]) := by
  induction earlier with
  | nil => exact fun caught begun => ⟨caught.1 begun, trivial⟩
  | cons held rest ih =>
      intro chunkBegin caught begun
      have behind := le_fileStop ((held :: rest).map HeldChunk.chunk) chunkBegin
      exact ⟨caught.1 (by omega), ih caught.2 begun⟩

/-! ## One call -/

/-- A visible chunk behind the signature has the signature in front of it. -/
theorem signed_of_visible {chunk : HeldChunk}
    (visible : Visible seen (fileStop firstDataChunk (earlier.map HeldChunk.chunk)) chunk.chunk.header) :
    firstDataChunk ≤ seen := by
  have behind := le_fileStop (earlier.map HeldChunk.chunk) firstDataChunk
  have within := le_reach (fileStop firstDataChunk (earlier.map HeldChunk.chunk))
    (40 + chunk.chunk.header.dataSize)
  exact behind.trans ((Nat.le_add_right ..).trans (within.trans visible.1))

/-- The chunks of a file that hold a record behind its signature. -/
theorem holding_signed {index : Nat} :
    (∃ earlier chunk later, chunks = earlier ++ chunk :: later ∧
        (heldRecords earlier).length ≤ index ∧ index < (heldRecords (earlier ++ [chunk])).length ∧
        AllVisible seen firstDataChunk (earlier ++ [chunk])) ↔
      ∃ earlier chunk later, (signatureChunk ext).bare :: chunks = earlier ++ chunk :: later ∧
        (heldRecords earlier).length ≤ index ∧ index < (heldRecords (earlier ++ [chunk])).length ∧
        AllThere seen (earlier ++ [chunk]) := by
  constructor
  · rintro ⟨earlier, chunk, later, split, low, high, visible⟩
    have signed := signed_of_visible ((allVisible_iff _).mp visible earlier chunk [] rfl)
    exact ⟨(signatureChunk ext).bare :: earlier, chunk, later, congrArg (_ :: ·) split, low, high,
      (allThere_signed signed).mpr visible⟩
  · rintro ⟨earlier, chunk, later, split, low, high, there⟩
    cases earlier with
    | nil =>
        obtain ⟨rfl, _⟩ := List.cons.inj split
        exact absurd high (Nat.not_lt_zero _)
    | cons first front =>
        obtain ⟨rfl, further⟩ := List.cons.inj split
        have visible := there (_ :: front) chunk [] rfl
        rw [chunkPlace_signed] at visible
        exact ⟨front, chunk, later, further, low, high,
          (allThere_signed (signed_of_visible visible)).mp there⟩

/-- A caller is told that there is no record only when all that has begun to
arrive is there and read. -/
theorem tailRead_caughtUp (shown : (tailRead chunks seen returned).Shown (.ok none)) :
    CaughtUp seen firstDataChunk chunks ∧
      (arrived seen firstDataChunk chunks).length ≤ returned := by
  unfold tailRead at shown
  split at shown
  · cases shown
  · rename_i none
    split at shown
    · rename_i caught
      exact ⟨caught, List.getElem?_eq_none_iff.mp none⟩
    · obtain ⟨_, failed⟩ := shown
      cases failed

/-- What is asked of a call at the tail, chunk by chunk. -/
theorem tailRead_call {result : Rust (Option Bytes)}
    (shown : (tailRead chunks seen returned).Shown result) :
    TailCall ((signatureChunk ext).bare :: chunks) seen returned result := by
  have returns : ∀ record, result = .ok (some record) ↔
      (arrived seen firstDataChunk chunks)[returned]? = some record := by
    intro record
    unfold tailRead at shown
    split at shown
    · rename_i there same
      rw [same, show result = .ok (some there) from shown]
      exact ⟨fun equal => Except.ok.inj equal, fun equal => congrArg _ equal⟩
    · rename_i none
      refine ⟨fun some => ?_, fun some => nomatch none.symm.trans some⟩
      split at shown
      · exact nomatch some.symm.trans shown
      · obtain ⟨_, failed⟩ := shown
        exact nomatch some.symm.trans failed
  refine ⟨?_, fun record same => ?_, fun same earlier chunk later split behind begun => ?_, ?_⟩
  · rw [← holding_signed, ← arrived_iff]
    exact exists_congr returns
  · obtain ⟨rest, whole⟩ := arrived_prefix seen chunks firstDataChunk
    have there := (returns record).mp same
    have within := (List.getElem?_eq_some_iff.mp there).1
    change (heldRecords chunks)[returned]? = _
    rw [← whole, List.getElem?_append_left within]
    exact there
  · cases earlier with
    | nil => exact absurd behind (by decide)
    | cons first front =>
        obtain ⟨rfl, further⟩ := List.cons.inj split
        change chunks = front ++ chunk :: later at further
        rw [same] at shown
        obtain ⟨caught, all⟩ := tailRead_caughtUp shown
        rw [further] at caught all
        rw [chunkPlace_signed] at begun ⊢
        have visible := caught.visible front begun
        have there := @AllVisible.arrived (front ++ [chunk]) later seen firstDataChunk visible
        rw [List.append_assoc, List.singleton_append] at there
        rw [there, List.length_append] at all
        refine ⟨((allVisible_iff _).mp visible front chunk [] rfl).1, ?_⟩
        change (heldRecords (front ++ [chunk])).length ≤ returned
        omega
  · cases read : tailRead chunks seen returned with
    | record bytes =>
        rw [read] at shown
        exact .inl ⟨_, shown⟩
    | caughtUp =>
        rw [read] at shown
        exact .inl ⟨_, shown⟩
    | waiting =>
        rw [read] at shown
        exact .inr shown

/-! ## Schedules -/

/-- The last call of a schedule is that of the reader behind the others. -/
theorem tail_snoc (steps : List TailStep) : ∀ {reader : RecordReader},
    tail ext source (steps ++ [.readRecord]) reader =
      tail ext source steps reader ++ [(readRecord ext (tailEnd ext source steps reader)).1] := by
  induction steps with
  | nil => exact fun {reader} => rfl
  | cons step rest ih =>
      intro reader
      cases step with
      | grow count => exact ih
      | readRecord => exact congrArg ((readRecord ext reader).1 :: ·) ih

/-- Along a schedule the reader stays behind the records that it has returned. -/
theorem tail_run (holds : HoldsRecords ext projection source chunks) (steps : List TailStep) :
    ∀ {seen returned : Nat} {reader : RecordReader},
      Tails ext projection source chunks seen returned reader →
      Tails ext projection source chunks (seenAfter source.length steps seen)
        (returned + ((tail ext source steps reader).filterMap recordOf).length)
        (tailEnd ext source steps reader) := by
  induction steps with
  | nil => exact fun tails => tails
  | cons step rest ih =>
      intro seen returned reader tails
      cases step with
      | grow count => exact ih (tails.grown holds count)
      | readRecord =>
          obtain ⟨shown, after⟩ := readRecord_tails holds.stop tails
          have counted : (tailRead chunks seen returned).count +
              ((tail ext source rest (readRecord ext reader).2).filterMap recordOf).length =
                ((tail ext source (.readRecord :: rest) reader).filterMap recordOf).length := by
            rw [tail, List.filterMap_cons, shown_record shown]
            cases tailRead chunks seen returned with
            | record bytes => exact Nat.add_comm _ _
            | caughtUp => exact Nat.zero_add _
            | waiting => exact Nat.zero_add _
          rw [← counted, ← Nat.add_assoc]
          exact ih after

/-- At the tail of a complete file that grows, from no bytes of it or from any prefix
with its preamble, every call along every schedule returns the next record exactly
when its chunk has arrived, whatever the projection. -/
theorem tail_exact (lawful : ext.Lawful) {options : WriterOptions} {ops : List WriterOp}
    {writer after : RecordWriter} (complete : CompleteFile ext options ops source writer after)
    {start : Nat} (cut : start = 0 ∨ firstDataChunk ≤ start) {reading : ReaderOptions}
    (plain : reading.recovery = none) (fit : PathsFit reading.fieldProjection) :
    (∃ file, FileChunks ext reading.fieldProjection source file) ∧
      ∀ file, FileChunks ext reading.fieldProjection source file →
        List.Forall₂ (ReadsAs options reading.fieldProjection) (writtenRecords ops)
            (heldRecords file) ∧
          ∃ reader, RecordReader.new ext (source.take start) reading = .ok reader ∧
            ∀ steps, (tail ext source steps reader).filterMap recordOf <+: heldRecords file ∧
              ∃ result, tail ext source (steps ++ [.readRecord]) reader =
                  tail ext source steps reader ++ [result] ∧
                TailCall file (seenAfter source.length steps (min start source.length))
                  ((tail ext source steps reader).filterMap recordOf).length result := by
  obtain ⟨_, under⟩ := complete.readsUnder lawful
  obtain ⟨held, _, holds, read⟩ := under _ fit
  refine ⟨⟨_, holds.fileChunks⟩, fun file chunks => ⟨?_, ?_⟩⟩
  · have same := chunks.heldRecords_unique holds.fileChunks
    rw [heldRecords_cons] at same
    rw [same]
    exact read
  · obtain ⟨behind, rfl, holds⟩ := chunks.holdsRecords
    refine ⟨_, new_prefix holds cut reading, fun steps => ⟨?_, _, tail_snoc steps, ?_⟩⟩
    · have shown := tail_tailed holds steps (initial_tails holds start plain rfl)
      obtain ⟨count, records⟩ :=
        @tailed_records behind source.length steps (min start source.length) 0
      rw [shown_records shown, records, List.drop_zero]
      exact List.take_prefix _ _
    · have tails := tail_run holds steps (initial_tails holds start plain rfl)
      rw [Nat.zero_add] at tails
      exact tailRead_call (readRecord_tails holds.stop tails).1

/-- The reads fail in the first header, return the first record once it is all
there, and fail again in the header behind it. -/
def shortSteps : List TailStep :=
  [.readRecord, .grow 38, .readRecord, .readRecord, .grow 10, .readRecord, .grow 34]

theorem tail_exact_short :
    ∃ reader, RecordReader.new summingExternals (shortBytes.take 70) ReaderOptions.new = .ok reader ∧
      (tail summingExternals shortBytes shortSteps reader).filterMap recordOf = [[7]] ∧
      tail summingExternals shortBytes (shortSteps ++ [.readRecord]) reader =
        tail summingExternals shortBytes shortSteps reader ++ [.ok (some [9])] := by
  obtain ⟨_, tails⟩ := @tail_exact summingExternals shortBytes summingExternals_lawful plainOptions
    shortOps shortWriter shortFlushed shortBytes_complete 70 (.inr (by decide)) ReaderOptions.new rfl
    .unprojected
  obtain ⟨_, reader, opened, calls⟩ := tails _ alteredChunks_file
  obtain ⟨_, result, ran, call⟩ := calls shortSteps
  have reads : (tail summingExternals shortBytes shortSteps reader).filterMap recordOf = [[7]] := by
    have start : RecordReader.new summingExternals (shortBytes.take 70) ReaderOptions.new =
        .ok (initial (shortBytes.take 70) ReaderOptions.new) := new_valid _ (by decide +kernel)
    obtain rfl := Except.ok.inj (opened.symm.trans start)
    decide +kernel
  rw [reads] at call
  obtain ⟨record, same⟩ := call.record.mpr ⟨[(signatureChunk summingExternals).bare,
    { chunk := shortChunk 7, records := [[7]] }], _, [], rfl, by decide, by decide, by
      intro front chunk back split
      rcases front with _ | ⟨_, _ | ⟨_, _ | ⟨_, front⟩⟩⟩
      · cases split
        decide +kernel
      · cases split
        decide +kernel
      · cases split
        decide +kernel
      · cases front <;> cases split⟩
  have next := call.next record same
  obtain rfl : [9] = record := Option.some.inj next
  refine ⟨reader, opened, reads, ?_⟩
  rw [ran, same]

end Riegeli
