/-
Module: Riegeli.Proofs.Tailing
Purpose: A reader at the tail of a growing file returns every record once and in
  order, as soon as its chunk is there, and tells a clean end from a chunk that
  is still arriving.
Trusted boundary: the hash, the codecs and the sink
Main exports: new_prefix, stored_prefix, Behind, readFrom_passes,
  readRecord_tails, tailing
-/
import Riegeli.Spec.Tailing
import Riegeli.Proofs.ReadSequence
import Riegeli.Proofs.CompleteFiles
import Riegeli.Proofs.FileChunks

namespace Riegeli

open RecordReader

variable {ext : Externals} {projection : Option FieldProjection} {file : Bytes}
  {chunks earlier later passed : List HeldChunk}

/-! ## A file of which a prefix is there -/

theorem readFull_take {source : Bytes} {pos count seen : Nat} (within : pos + count ≤ seen) :
    readFull (source.take seen) pos count = readFull source pos count := by
  rw [readFull, readFull, List.drop_take, List.take_take, Nat.min_eq_left (by omega)]

/-- The preamble is all that is validated. -/
theorem validateFilePreamble_take {source : Bytes} {seen : Nat} (within : firstDataChunk ≤ seen) :
    validateFilePreamble ext (source.take seen) = validateFilePreamble ext source := by
  have places : firstDataChunk = 64 ∧ blockHeaderSize = 24 ∧ chunkHeaderSize = 40 := by decide
  unfold validateFilePreamble
  rw [readFull_take (by omega), readFull_take (by omega)]

/-- A file is opened when none of it is there, and when its preamble is. -/
theorem new_prefix (holds : HoldsRecords ext projection file chunks) {seen : Nat}
    (cut : seen = 0 ∨ firstDataChunk ≤ seen) (options : ReaderOptions) :
    RecordReader.new ext (file.take seen) options = .ok (initial (file.take seen) options) := by
  unfold RecordReader.new
  split
  · rfl
  · rename_i some
    have preamble : validateFilePreamble ext (file.take seen) = .ok () := by
      rcases cut with rfl | within
      · exact absurd rfl some
      · rw [validateFilePreamble_take within, holds.source_eq]
        exact validateFilePreamble_file _
    have opened : openFile ext (initial (file.take seen) options) =
        (.ok (), initial (file.take seen) options) := by
      unfold openFile
      rw [Act.bind_run_ok (Act.get_run _), Act.bind_run, attempt, Act.lift_run,
        show (initial (file.take seen) options).source = file.take seen from rfl, preamble]
      rfl
    rw [opened]

/-- What is there of a source shows no more than the source. -/
theorem Shows.take {source payload : Bytes} {chunkBegin stop upTo : Nat}
    (shows : Shows ext source chunkBegin stop payload upTo) (seen : Nat) :
    Shows ext (source.take seen) chunkBegin stop payload upTo := by
  intro pos begun before within
  rw [List.length_take] at within
  rw [List.getElem?_take_of_lt (by omega)]
  exact shows pos begun before (by omega)

theorem stored_take {chunkBegin : Nat} (seen : Nat)
    (holds : HoldsFrom ext file chunkBegin (chunks.map HeldChunk.chunk))
    (opens : ∀ held ∈ chunks, Opens ext projection held.chunk held.records) :
    Stored ext projection (file.take seen) chunkBegin chunks := by
  induction chunks generalizing chunkBegin with
  | nil => exact holds.1
  | cons held rest ih =>
      obtain ⟨first, rest⟩ := holds
      refine ⟨⟨first.standing.possible, first.spec, first.standing.within, first.sized, ?_,
        first.shows.take seen⟩, ih rest fun other member => opens other (List.mem_cons_of_mem _ member)⟩
      exact ⟨first.made.fits, first.made.headerValid, first.made.dataValid,
        opens held List.mem_cons_self⟩

/-- Every prefix of a file shows its chunks as far as it goes. -/
theorem stored_prefix (holds : HoldsRecords ext projection file chunks) (seen : Nat) :
    Stored ext projection (file.take seen) firstDataChunk chunks := by
  refine stored_take seen ?_ holds.opens
  rw [holds.source_eq]
  exact holds.whole.holdsFrom

theorem Stored.drop {source : Bytes} {chunkBegin : Nat}
    (stored : Stored ext projection source chunkBegin (earlier ++ later)) :
    Stored ext projection source (fileStop chunkBegin (earlier.map HeldChunk.chunk)) later := by
  induction earlier generalizing chunkBegin with
  | nil => exact stored
  | cons held rest ih => exact ih stored.2

theorem HoldsFrom.stop {stored : List Chunk} {chunkBegin : Nat}
    (holds : HoldsFrom ext file chunkBegin stored) : fileStop chunkBegin stored = file.length := by
  induction stored generalizing chunkBegin with
  | nil => exact holds.2
  | cons chunk rest ih => exact ih holds.2

/-! ## Chunks that are visible -/

/-- All of these chunks are visible. -/
def AllVisible (seen : Nat) : Nat → List HeldChunk → Prop
  | _, [] => True
  | chunkBegin, held :: rest =>
      Visible seen chunkBegin held.chunk.header ∧ AllVisible seen (held.chunk.stop chunkBegin) rest

theorem AllVisible.mono {seen more chunkBegin : Nat} (visible : AllVisible seen chunkBegin chunks)
    (grown : seen ≤ more) : AllVisible more chunkBegin chunks := by
  induction chunks generalizing chunkBegin with
  | nil => exact trivial
  | cons held rest ih =>
      exact ⟨⟨visible.1.1.trans grown, visible.1.2.trans grown⟩, ih visible.2⟩

theorem AllVisible.append {seen chunkBegin : Nat} (visible : AllVisible seen chunkBegin earlier)
    (further : AllVisible seen (fileStop chunkBegin (earlier.map HeldChunk.chunk)) later) :
    AllVisible seen chunkBegin (earlier ++ later) := by
  induction earlier generalizing chunkBegin with
  | nil => exact further
  | cons held rest ih => exact ⟨visible.1, ih visible.2 further⟩

theorem AllVisible.arrived {seen chunkBegin : Nat} (visible : AllVisible seen chunkBegin earlier) :
    arrived seen chunkBegin (earlier ++ later) =
      heldRecords earlier ++
        arrived seen (fileStop chunkBegin (earlier.map HeldChunk.chunk)) later := by
  induction earlier generalizing chunkBegin with
  | nil => rfl
  | cons held rest ih =>
      rw [List.cons_append, Riegeli.arrived, if_pos visible.1, ih visible.2, heldRecords_cons,
        List.append_assoc]
      rfl

theorem AllVisible.caughtUp {seen chunkBegin : Nat} (visible : AllVisible seen chunkBegin earlier) :
    CaughtUp seen chunkBegin (earlier ++ later) ↔
      CaughtUp seen (fileStop chunkBegin (earlier.map HeldChunk.chunk)) later := by
  induction earlier generalizing chunkBegin with
  | nil => rfl
  | cons held rest ih =>
      rw [List.cons_append, CaughtUp, ih visible.2]
      exact and_iff_right fun _ => visible.1

/-- Nothing that begins behind the end of what is there has begun to arrive. -/
theorem Stored.caughtUp {source : Bytes} {seen chunkBegin : Nat}
    (stored : Stored ext projection source chunkBegin chunks) (past : seen ≤ chunkBegin) :
    CaughtUp seen chunkBegin chunks := by
  induction chunks generalizing chunkBegin with
  | nil => exact trivial
  | cons held rest ih =>
      have room := stored.1.spec.begin_add_le
      exact ⟨fun begun => absurd begun (Nat.not_lt.mpr past), ih stored.2 (by omega)⟩

/-! ## One read of the cursor -/

theorem numbered_snd (chunkBegin : Nat) (records : List Bytes) :
    ∀ index, (numbered chunkBegin index records).map Prod.snd = records := by
  induction records with
  | nil => exact fun _ => rfl
  | cons record rest ih => exact fun index => congrArg (record :: ·) (ih (index + 1))

/-- What a read comes to when these records are owed to it: the first of them,
or the end of what is there. -/
inductive Owed (seen : Nat) (owed : List Bytes) (cursor : Cursor) : ReadOutcome → Prop where
  | record {position : RecordPosition} {record : Bytes} :
      owed = record :: cursor.pending.map Prod.snd → Owed seen owed cursor (.record position record)
  | finished :
      owed = [] → cursor.pending = [] → arrived seen cursor.chunkBegin cursor.chunks = [] →
      CaughtUp seen cursor.chunkBegin cursor.chunks → Owed seen owed cursor .finished
  | refused :
      owed = [] → cursor.pending = [] → arrived seen cursor.chunkBegin cursor.chunks = [] →
      ¬ CaughtUp seen cursor.chunkBegin cursor.chunks → Owed seen owed cursor .refused

/-- The cursor is behind these of the chunks, all of which are visible. -/
structure Passes (seen chunkBegin : Nat) (chunks passed : List HeldChunk) (cursor : Cursor) :
    Prop where
  split : chunks = passed ++ cursor.chunks
  place : cursor.chunkBegin = fileStop chunkBegin (passed.map HeldChunk.chunk)
  visible : AllVisible seen chunkBegin passed

/-- A read passes visible chunks until one of them has a record for it. -/
theorem readFrom_passes {source : Bytes} (seen : Nat) (chunks : List HeldChunk) :
    ∀ (chunkBegin : Nat) (pending : List (RecordPosition × Bytes)),
      Stored ext projection source chunkBegin chunks →
      ∃ passed outcome cursor, readFrom seen chunks chunkBegin pending = (outcome, cursor) ∧
        Passes seen chunkBegin chunks passed cursor ∧
        Owed seen (pending.map Prod.snd ++ heldRecords passed) cursor outcome := by
  induction chunks with
  | nil =>
      intro chunkBegin pending stored
      cases pending with
      | nil => exact ⟨[], _, _, rfl, ⟨rfl, rfl, trivial⟩, .finished rfl rfl rfl trivial⟩
      | cons head pending =>
          exact ⟨[], _, _, rfl, ⟨rfl, rfl, trivial⟩, .record (List.append_nil _)⟩
  | cons held rest ih =>
      intro chunkBegin pending stored
      cases pending with
      | cons head pending =>
          exact ⟨[], _, _, rfl, ⟨rfl, rfl, trivial⟩, .record (List.append_nil _)⟩
      | nil =>
          by_cases visible : Visible seen chunkBegin held.chunk.header
          · obtain ⟨passed, outcome, cursor, ran, passes, owed⟩ :=
              ih (held.chunk.stop chunkBegin) (numbered chunkBegin 0 held.records) stored.2
            rw [numbered_snd] at owed
            refine ⟨held :: passed, outcome, cursor, ?_, ⟨?_, passes.place, visible, passes.visible⟩,
              ?_⟩
            · rw [readFrom, if_pos visible, ran]
            · rw [passes.split, List.cons_append]
            · rw [heldRecords_cons]
              exact owed
          · have hidden : arrived seen chunkBegin (held :: rest) = [] := by
              rw [arrived, if_neg visible]
            refine ⟨[], if seen ≤ chunkBegin then .finished else .refused,
              { chunkBegin := chunkBegin, pending := [], chunks := held :: rest }, ?_,
              ⟨rfl, rfl, trivial⟩, ?_⟩
            · rw [readFrom, if_neg visible]
            · split
              · rename_i past
                exact .finished rfl rfl hidden (stored.caughtUp past)
              · rename_i begun
                exact .refused rfl rfl hidden fun caught =>
                  visible (caught.1 (Nat.not_le.mp begun))

/-! ## The reader -/

/-- The cursor stands behind so many records of the chunks, all of them in
visible chunks. -/
def Behind (chunks : List HeldChunk) (seen returned : Nat) (cursor : Cursor) : Prop :=
  ∃ passed, Passes seen firstDataChunk chunks passed cursor ∧
    returned ≤ (heldRecords passed).length ∧
    (heldRecords passed).drop returned = cursor.pending.map Prod.snd

theorem Behind.mono {seen more returned : Nat} {cursor : Cursor}
    (behind : Behind chunks seen returned cursor) (grown : seen ≤ more) :
    Behind chunks more returned cursor := by
  obtain ⟨passed, passes, within, left⟩ := behind
  exact ⟨passed, ⟨passes.split, passes.place, passes.visible.mono grown⟩, within, left⟩

/-- One read of the cursor is what is asked of a reader at the tail. -/
theorem Behind.read {source : Bytes} {seen returned : Nat} {cursor : Cursor}
    (behind : Behind chunks seen returned cursor)
    (stored : Stored ext projection source cursor.chunkBegin cursor.chunks) :
    ∃ outcome next, cursor.read seen = (outcome, next) ∧
      Behind chunks seen (returned + (tailRead chunks seen returned).count) next ∧
      ((∃ position record, outcome = .record position record ∧
          tailRead chunks seen returned = .record record) ∨
        outcome = .finished ∧ tailRead chunks seen returned = .caughtUp ∨
        outcome = .refused ∧ tailRead chunks seen returned = .waiting) := by
  obtain ⟨earlier, before, within, left⟩ := behind
  obtain ⟨passed, outcome, next, ran, passes, owed⟩ :=
    readFrom_passes seen cursor.chunks cursor.chunkBegin cursor.pending stored
  have split : chunks = (earlier ++ passed) ++ next.chunks := by
    rw [before.split, passes.split, List.append_assoc]
  have place : next.chunkBegin =
      fileStop firstDataChunk ((earlier ++ passed).map HeldChunk.chunk) := by
    rw [passes.place, before.place, List.map_append, fileStop_append]
  have visible : AllVisible seen firstDataChunk (earlier ++ passed) := by
    refine before.visible.append ?_
    rw [← before.place]
    exact passes.visible
  have rest : (heldRecords (earlier ++ passed)).drop returned =
      cursor.pending.map Prod.snd ++ heldRecords passed := by
    rw [heldRecords_append, List.drop_append_of_le_length within, left]
  have bounded : returned ≤ (heldRecords (earlier ++ passed)).length := by
    rw [heldRecords_append, List.length_append]
    omega
  have shown : (arrived seen firstDataChunk chunks)[returned]? =
      ((cursor.pending.map Prod.snd ++ heldRecords passed) ++
        arrived seen next.chunkBegin next.chunks)[0]? := by
    rw [split, visible.arrived, ← place, ← rest, ← List.drop_append_of_le_length bounded,
      List.getElem?_drop, Nat.add_zero]
  have caught : CaughtUp seen firstDataChunk chunks ↔
      CaughtUp seen next.chunkBegin next.chunks := by
    rw [split, place]
    exact visible.caughtUp
  have still (none : cursor.pending.map Prod.snd ++ heldRecords passed = [])
      (drained : next.pending = []) : Behind chunks seen returned next := by
    refine ⟨_, ⟨split, place, visible⟩, bounded, ?_⟩
    rw [rest, none, drained, List.map_nil]
  refine ⟨outcome, next, ran, ?_⟩
  cases owed with
  | @record position record first =>
      have read : tailRead chunks seen returned = .record record := by
        rw [tailRead, shown, first]
        rfl
      rw [read]
      refine ⟨⟨_, ⟨split, place, visible⟩, ?_, ?_⟩, .inl ⟨position, record, rfl, rfl⟩⟩
      · have some : 0 < ((heldRecords (earlier ++ passed)).drop returned).length := by
          rw [rest, first]
          exact Nat.succ_pos _
        rw [List.length_drop] at some
        change returned + 1 ≤ _
        omega
      · change (heldRecords (earlier ++ passed)).drop (returned + 1) = _
        rw [← List.drop_drop, rest, first]
        rfl
  | finished none drained hidden caughtUp =>
      have read : tailRead chunks seen returned = .caughtUp := by
        rw [tailRead, shown, none, hidden]
        exact if_pos (caught.mpr caughtUp)
      rw [read]
      exact ⟨still none drained, .inr (.inl ⟨rfl, rfl⟩)⟩
  | refused none drained hidden waiting =>
      have read : tailRead chunks seen returned = .waiting := by
        rw [tailRead, shown, none, hidden]
        exact if_neg (mt caught.mp waiting)
      rw [read]
      exact ⟨still none drained, .inr (.inr ⟨rfl, rfl⟩)⟩

/-- A reader of what is there of a file, behind so many of its records. -/
structure Tails (ext : Externals) (projection : Option FieldProjection) (file : Bytes)
    (chunks : List HeldChunk) (seen returned : Nat) (reader : RecordReader) : Prop where
  source : reader.source = file.take seen
  within : seen ≤ file.length
  plain : reader.recovery = none
  projected : reader.fieldProjection = projection
  follows : ∃ cursor, Following ext reader cursor ∧ Behind chunks seen returned cursor

theorem Tails.length {seen returned : Nat} {reader : RecordReader}
    (tails : Tails ext projection file chunks seen returned reader) : reader.source.length = seen := by
  rw [tails.source, List.length_take, Nat.min_eq_left tails.within]

/-- A read leaves the reader behind what it returned. -/
theorem readRecord_tails {seen returned : Nat} {reader : RecordReader}
    (stop : fileStop firstDataChunk (chunks.map HeldChunk.chunk) = file.length)
    (tails : Tails ext projection file chunks seen returned reader) :
    (tailRead chunks seen returned).Shown (readRecord ext reader).1 ∧
      Tails ext projection file chunks seen (returned + (tailRead chunks seen returned).count)
        (readRecord ext reader).2 := by
  have length := tails.length
  obtain ⟨cursor, following, behind⟩ := tails.follows
  have whole : reader.source.length ≤ cursor.stop := by
    obtain ⟨passed, passes, _⟩ := behind
    have within := tails.within
    rw [Cursor.stop, passes.place, ← fileStop_append, ← List.map_append, ← passes.split, stop, length]
    exact within
  obtain ⟨result, after, ran, same, delivered⟩ := readRecord_follows following tails.plain whole
  obtain ⟨outcome, next, read, moved, shown⟩ := behind.read following.stored
  rw [ran]
  rw [length] at delivered
  have left : ∃ cursor, Following ext after cursor ∧
      Behind chunks seen (returned + (tailRead chunks seen returned).count) cursor := by
    cases delivered with
    | record follows came _ => exact ⟨_, follows, (Prod.mk.inj (came.symm.trans read)).2 ▸ moved⟩
    | finished follows came => exact ⟨_, follows, (Prod.mk.inj (came.symm.trans read)).2 ▸ moved⟩
    | refused follows came => exact ⟨_, follows, (Prod.mk.inj (came.symm.trans read)).2 ▸ moved⟩
  refine ⟨?_, same.source.trans tails.source, tails.within, same.recovery.trans tails.plain,
    same.fieldProjection.trans tails.projected, left⟩
  cases delivered with
  | record _ came _ =>
      rcases shown with ⟨_, _, rfl, seen⟩ | ⟨rfl, seen⟩ | ⟨rfl, seen⟩
      · cases came.symm.trans read
        rw [seen]
        rfl
      · cases came.symm.trans read
      · cases came.symm.trans read
  | finished _ came =>
      rcases shown with ⟨_, _, rfl, seen⟩ | ⟨rfl, seen⟩ | ⟨rfl, seen⟩
      · cases came.symm.trans read
      · rw [seen]
        rfl
      · cases came.symm.trans read
  | refused _ came =>
      rcases shown with ⟨_, _, rfl, seen⟩ | ⟨rfl, seen⟩ | ⟨rfl, seen⟩
      · cases came.symm.trans read
      · cases came.symm.trans read
      · rw [seen]
        exact ⟨_, rfl⟩

/-- More of the file changes nothing about what has been read. -/
theorem Tails.grown {seen returned : Nat} {reader : RecordReader}
    (holds : HoldsRecords ext projection file chunks) (count : Nat)
    (tails : Tails ext projection file chunks seen returned reader) :
    Tails ext projection file chunks (min (seen + count) file.length) returned (reader.grown file count) := by
  have length := tails.length
  have within := tails.within
  obtain ⟨cursor, following, behind⟩ := tails.follows
  have source : (reader.grown file count).source = file.take (min (seen + count) file.length) := by
    change file.take (reader.source.length + count) = _
    rw [length, List.take_eq_take_min]
  refine ⟨source, Nat.min_le_right _ _, tails.plain, tails.projected, cursor, ?_, behind.mono (by omega)⟩
  refine ⟨following.next, following.decoder, ?_, ?_⟩
  · have known := following.known
    rw [source, List.length_take]
    change reader.streamLen ≤ _
    omega
  · rw [source]
    obtain ⟨passed, passes, _⟩ := behind
    have stored := stored_prefix holds (min (seen + count) file.length)
    rw [passes.split] at stored
    rw [passes.place, show (reader.grown file count).fieldProjection = projection from tails.projected]
    exact stored.drop

/-- A reader of a prefix of a file is behind nothing. -/
theorem initial_tails (holds : HoldsRecords ext projection file chunks) (start : Nat)
    {options : ReaderOptions} (plain : options.recovery = none)
    (projected : options.fieldProjection = projection) :
    Tails ext projection file chunks (min start file.length) 0
      (initial (file.take start) options) where
  source := by rw [← List.take_eq_take_min]; rfl
  within := Nat.min_le_right _ _
  plain := plain
  projected := projected
  follows := by
    refine ⟨{ chunkBegin := firstDataChunk, pending := [], chunks := chunks },
      ⟨rfl, .inl ⟨rfl, rfl⟩, Nat.le_refl _, ?_⟩, [], ⟨rfl, rfl, trivial⟩, Nat.le_refl _, rfl⟩
    rw [show (initial (file.take start) options).fieldProjection = projection from projected]
    exact stored_prefix holds start

/-! ## Schedules -/

theorem HoldsRecords.stop (holds : HoldsRecords ext projection file chunks) :
    fileStop firstDataChunk (chunks.map HeldChunk.chunk) = file.length := by
  have held := holds.whole.holdsFrom
  rw [← holds.source_eq] at held
  exact held.stop

/-- Along every schedule the reads return what is asked of them. -/
theorem tail_tailed (holds : HoldsRecords ext projection file chunks) (steps : List TailStep) :
    ∀ {seen returned : Nat} {reader : RecordReader},
      Tails ext projection file chunks seen returned reader →
      List.Forall₂ TailRead.Shown (tailed chunks file.length steps seen returned)
        (tail ext file steps reader) := by
  induction steps with
  | nil => exact fun _ => .nil
  | cons step rest ih =>
      intro seen returned reader tails
      cases step with
      | grow count => exact ih (tails.grown holds count)
      | readRecord =>
          obtain ⟨shown, after⟩ := readRecord_tails holds.stop tails
          exact .cons shown (ih after)

theorem arrived_prefix (seen : Nat) (chunks : List HeldChunk) :
    ∀ chunkBegin, arrived seen chunkBegin chunks <+: heldRecords chunks := by
  induction chunks with
  | nil => exact fun _ => List.nil_prefix
  | cons held rest ih =>
      intro chunkBegin
      rw [arrived, heldRecords_cons]
      split
      · exact (List.prefix_append_right_inj _).mpr (ih _)
      · exact List.nil_prefix

/-- The records handed over along a schedule are the next ones, in order. -/
theorem tailed_records (length : Nat) (steps : List TailStep) :
    ∀ seen returned, ∃ count,
      (tailed chunks length steps seen returned).filterMap TailRead.record? =
        ((heldRecords chunks).drop returned).take count := by
  induction steps with
  | nil => exact fun _ _ => ⟨0, rfl⟩
  | cons step rest ih =>
      intro seen returned
      cases step with
      | grow count => exact ih _ _
      | readRecord =>
          rw [tailed]
          obtain ⟨count, next⟩ := ih seen (returned + (tailRead chunks seen returned).count)
          cases read : tailRead chunks seen returned with
          | record bytes =>
              rw [read] at next
              have there : (heldRecords chunks)[returned]? = some bytes := by
                have shown : (arrived seen firstDataChunk chunks)[returned]? = some bytes := by
                  unfold tailRead at read
                  split at read
                  · rename_i shown
                    cases read
                    exact shown
                  · split at read <;> cases read
                obtain ⟨later, whole⟩ := arrived_prefix seen chunks firstDataChunk
                rw [← whole]
                exact List.getElem?_append_left (List.getElem?_eq_some_iff.mp shown).1 ▸ shown
              obtain ⟨within, same⟩ := List.getElem?_eq_some_iff.mp there
              refine ⟨count + 1, ?_⟩
              rw [List.drop_eq_getElem_cons within, same, List.take_succ_cons]
              exact congrArg (bytes :: ·) next
          | caughtUp =>
              rw [read] at next
              exact ⟨count, next⟩
          | waiting =>
              rw [read] at next
              exact ⟨count, next⟩

theorem shown_record {read : TailRead} {result : Rust (Option Bytes)} (shown : read.Shown result) :
    recordOf result = read.record? := by
  cases read with
  | record bytes => rw [show result = .ok (some bytes) from shown]; rfl
  | caughtUp => rw [show result = .ok none from shown]; rfl
  | waiting =>
      obtain ⟨error, failed⟩ := shown
      rw [failed]
      rfl

theorem shown_records {reads : List TailRead} {results : List (Rust (Option Bytes))}
    (shown : List.Forall₂ TailRead.Shown reads results) :
    results.filterMap recordOf = reads.filterMap TailRead.record? := by
  induction shown with
  | nil => rfl
  | cons first _ ih => rw [List.filterMap_cons, List.filterMap_cons, shown_record first, ih]

/-- A reader opened on the first `start` bytes of a file tails it, however it
grows: each read returns what the chunks that are there call for, and the
records come once and in order. -/
def TailsFile (ext : Externals) (file : Bytes) (records : List Bytes) (start : Nat)
    (options : ReaderOptions) : Prop :=
  ∃ chunks reader, HoldsRecords ext options.fieldProjection file chunks ∧
    heldRecords chunks = records ∧
    RecordReader.new ext (file.take start) options = .ok reader ∧
    ∀ steps,
      List.Forall₂ TailRead.Shown (tailed chunks file.length steps (min start file.length) 0)
        (tail ext file steps reader) ∧
      ∃ count, (tail ext file steps reader).filterMap recordOf = records.take count

/-- Every complete file is tailed, from no bytes of it or from any prefix with
its preamble. -/
theorem tailing (lawful : ext.Lawful) {written : WriterOptions} {ops : List WriterOp}
    {writer flushed : RecordWriter}
    (complete : CompleteFile ext written ops file writer flushed) {start : Nat}
    (cut : start = 0 ∨ firstDataChunk ≤ start) {options : ReaderOptions}
    (plain : options.recovery = none) (whole : options.fieldProjection = none) :
    TailsFile ext file (writtenRecords ops) start options := by
  obtain ⟨chunks, holds, all⟩ := complete.holds lawful
  have shown := fun steps => tail_tailed holds steps (initial_tails holds start plain whole)
  rw [← whole] at holds
  refine ⟨chunks, _, holds, all, new_prefix holds cut options, fun steps => ⟨shown steps, ?_⟩⟩
  obtain ⟨count, records⟩ := @tailed_records chunks file.length steps (min start file.length) 0
  refine ⟨count, ?_⟩
  rw [shown_records (shown steps), records, all, List.drop_zero]

theorem tailing_plainFile :
    TailsFile storingExternals plainFile [[1, 2, 3], [4]] 70 ReaderOptions.new :=
  tailing storingExternals_lawful plainFile_complete (.inr (by decide)) rfl rfl

end Riegeli
