/-
Module: Riegeli.Proofs.WriterLedger
Purpose: Every operation of a writer on a reliable sink keeps its ledger: the
  chunks of the file and the pending records account for what was written.
Trusted boundary: the hash, the codecs and the sink
Main exports: writeChunkRaw_outcome, HoldsFile.flushChunk, HoldsFile.pad,
  HoldsFile.writeRecord, HoldsFile.flush, WriterOp.run_balanced,
  LedgerBalanced.runs, opened_balanced
-/
import Riegeli.Proofs.FailedWriter
import Riegeli.Proofs.PaddingEnd
import Riegeli.Proofs.TagCollection
import Riegeli.Spec.WriterLedger

namespace Riegeli

variable {ext : Externals}

/-! ## Records -/

@[simp] theorem accountedSize_nil : accountedSize [] = 0 := rfl

@[simp] theorem accountedSize_snoc (records : List Bytes) (record : Bytes) :
    accountedSize (records ++ [record]) = accountedSize records + (record.length + 8) := by
  simp [accountedSize]

/-- Each record is accounted for with at least 8 bytes. -/
theorem le_accountedSize (records : List Bytes) : records.length * 8 ≤ accountedSize records := by
  induction records with
  | nil => exact Nat.zero_le _
  | cons record rest ih =>
      have step : accountedSize (record :: rest) = record.length + 8 + accountedSize rest := rfl
      rw [List.length_cons, step]
      omega

theorem Filled.snoc {fresh encoder next : ActiveEncoder} {records : List Bytes} {record : Bytes}
    (filled : Filled fresh records encoder) (added : encoder.addRecord record = .ok next) :
    Filled fresh (records ++ [record]) next := by
  unfold Filled at filled ⊢
  rw [List.foldlM_append, filled, Except.ok_bind, List.foldlM_cons, added, Except.ok_bind]
  rfl

/-- Taking a record never fails. -/
theorem ActiveEncoder.addRecord_ok (encoder : ActiveEncoder) {record : Bytes}
    (fits : record.length ≤ u64Max) : ∃ next, encoder.addRecord record = .ok next := by
  cases encoder with
  | simple encoder => exact ⟨_, rfl⟩
  | transpose encoder =>
      obtain ⟨after, ran, _⟩ := TransposeChunkEncoder.addRecord_collected encoder fits
      exact ⟨.transpose after, by rw [ActiveEncoder.addRecord, ran, Except.ok_bind]⟩

theorem writtenRecords_append (first second : List WriterOp) :
    writtenRecords (first ++ second) = writtenRecords first ++ writtenRecords second := by
  induction first with
  | nil => rfl
  | cons op rest ih =>
      cases op with
      | writeRecord record => exact congrArg (record :: ·) ih
      | flush => exact ih

theorem ledgerRecords_append (first second : List LedgerEntry) :
    ledgerRecords (first ++ second) = ledgerRecords first ++ ledgerRecords second := by
  rw [ledgerRecords, List.map_append, List.flatten_append]
  rfl

/-! Entries of padding hold no records. -/

theorem data_not_mem_padding {padding : List Chunk} {records : List Bytes} {chunk : Chunk} :
    LedgerEntry.data records chunk ∉ padding.map LedgerEntry.padding := by
  intro member
  obtain ⟨_, _, wrong⟩ := List.mem_map.mp member
  cases wrong

theorem padding_mem_padding {padding : List Chunk} {chunk : Chunk}
    (member : LedgerEntry.padding chunk ∈ padding.map LedgerEntry.padding) : chunk ∈ padding := by
  obtain ⟨other, listed, same⟩ := List.mem_map.mp member
  cases same
  exact listed

theorem chunk_padding (padding : List Chunk) :
    (padding.map LedgerEntry.padding).map LedgerEntry.chunk = padding := by
  rw [List.map_map]
  exact List.map_id _

theorem ledgerRecords_padding (padding : List Chunk) :
    ledgerRecords (padding.map LedgerEntry.padding) = [] := by
  induction padding with
  | nil => rfl
  | cons chunk rest ih => exact ih

/-! ## Writing a chunk -/

/-- What the bytes of a chunk do not touch. -/
def RecordWriter.bookkeeping (self : RecordWriter) :
    ActiveEncoder × Nat × Nat × Option String :=
  (self.encoder, self.accumulatedBytes, self.pendingRecordCount, self.failed)

/-- A chunk is written whole, or is too large for a vector and nothing is. -/
theorem writeChunkRaw_outcome {self : RecordWriter} {chunks : List Chunk} {header : ChunkHeader}
    {data : Bytes} (reliable : self.sink.Reliable) (laid : LaidOut ext self chunks)
    (sized : header.dataSize = data.length)
    (within : (RecordWriter.writeChunkRaw ext header data self).2.filePos ≤ u64Max) :
    (∃ after, RecordWriter.writeChunkRaw ext header data self = (.ok (), after) ∧
        after.filePos = chunkEnd self.filePos header.dataSize header.numRecords ∧
        LaidOut ext after (chunks ++ [{ header := header, data := data }]) ∧
        after.sink.Reliable ∧ after.settings = self.settings ∧ after.closed = self.closed ∧
        after.bookkeeping = self.bookkeeping) ∨
      RecordWriter.writeChunkRaw ext header data self =
        (.error (.panic .capacityOverflow), self) := by
  by_cases collected : (header.toBytes ++ data).length ≤ isizeMax
  · left
    have pieces := (@writeChunkRaw_eq ext header data self sized collected laid.possible).trans
      (emitPieces_ok (Sink.Reliable.accepts (by exact reliable) _))
    have reached : chunkEnd self.filePos header.dataSize header.numRecords ≤ u64Max := by
      rw [pieces] at within
      exact Nat.le_trans (le_chunkPieces_length laid.possible) within
    obtain ⟨after, ran, filePos, laidAfter⟩ :=
      writeChunkRaw_laidOut reliable laid sized collected reached
    obtain rfl := (Prod.mk.inj (pieces.symm.trans ran)).2
    exact ⟨_, ran, filePos, laidAfter, reliable, rfl, rfl, rfl⟩
  · right
    have refused : (Act.lift (collectVec (header.toBytes ++ data)) : RecordWriter.Method Bytes)
        self = (.error (.panic .capacityOverflow), self) := by
      rw [Act.lift_run, collectVec, if_neg collected]
    rw [RecordWriter.writeChunkRaw, Act.bind_run_ok (Act.get_run self),
      Act.bind_run_error refused]

section Holds

variable {fresh : ActiveEncoder} {chunkSize : Nat} {chunks : List Chunk} {pending : List Bytes}
  {self : RecordWriter}

theorem freshEncoder_of_settings {before after : RecordWriter}
    (same : after.settings = before.settings) : after.freshEncoder = before.freshEncoder := by
  unfold RecordWriter.settings at same
  simp only [Prod.mk.injEq] at same
  obtain ⟨compression, _, _, transpose, bucketSize, opts⟩ := same
  rw [RecordWriter.freshEncoder, RecordWriter.freshEncoder, compression, transpose, bucketSize, opts]

theorem chunkSize_of_settings {before after : RecordWriter}
    (same : after.settings = before.settings) : after.chunkSize = before.chunkSize := by
  unfold RecordWriter.settings at same
  simp only [Prod.mk.injEq] at same
  exact same.2.1

/-- A chunk written for what is pending nowhere. -/
theorem HoldsFile.wrote {after : RecordWriter} {more : List Chunk}
    (holds : HoldsFile ext fresh chunkSize chunks pending self)
    (laid : LaidOut ext after (chunks ++ more)) (reliable : after.sink.Reliable)
    (settings : after.settings = self.settings) (books : after.bookkeeping = self.bookkeeping) :
    HoldsFile ext fresh chunkSize (chunks ++ more) pending after := by
  unfold RecordWriter.bookkeeping at books
  simp only [Prod.mk.injEq] at books
  obtain ⟨encoder, accumulated, counted, _⟩ := books
  refine ⟨reliable, laid, (chunkSize_of_settings settings).trans holds.chunkSize_eq,
    (freshEncoder_of_settings settings).trans holds.fresh_eq, holds.countable, ?_,
    accumulated.trans holds.accumulated, counted.trans holds.counted⟩
  rw [encoder]
  exact holds.filled

/-- Flushing the pending records writes them as one chunk, or loses them to
the codec or the allocator. -/
theorem HoldsFile.flushChunk (holds : HoldsFile ext fresh chunkSize chunks pending self)
    (within : (RecordWriter.flushChunk ext self).2.filePos ≤ u64Max) :
    ∃ after, (RecordWriter.flushChunk ext self).2 = after ∧ after.failed = self.failed ∧
      after.closed = self.closed ∧ after.settings = self.settings ∧
      ((∃ chunk, (RecordWriter.flushChunk ext self).1 = .ok () ∧
          EncodesRecords ext fresh pending chunk ∧
          HoldsFile ext fresh chunkSize (chunks ++ [chunk]) [] after) ∨
        (∃ fault, (RecordWriter.flushChunk ext self).1 = .error fault) ∧
          HoldsFile ext fresh chunkSize chunks [] after) := by
  have emptied : HoldsFile ext fresh chunkSize chunks []
      { self with encoder := self.freshEncoder, accumulatedBytes := 0, pendingRecordCount := 0 } :=
    ⟨holds.reliable, holds.laid.of_same rfl rfl, holds.chunkSize_eq, holds.fresh_eq,
      (fun _ member => absurd member List.not_mem_nil), congrArg Except.ok holds.fresh_eq.symm, rfl, rfl⟩
  have ran : RecordWriter.flushChunk ext self =
      ((Act.lift (self.encoder.encode ext) >>= fun chunk =>
        RecordWriter.writeChunkRaw ext chunk.header chunk.data) : RecordWriter.Method Unit)
        { self with
          encoder := self.freshEncoder, accumulatedBytes := 0, pendingRecordCount := 0 } := rfl
  rw [ran] at within ⊢
  cases encoded : self.encoder.encode ext with
  | error fault =>
      rw [Act.bind_run_error (show (Act.lift (Except.error fault) : RecordWriter.Method Chunk) _ =
        (.error fault, _) from rfl)]
      exact ⟨_, rfl, rfl, rfl, rfl, .inr ⟨⟨fault, rfl⟩, emptied⟩⟩
  | ok chunk =>
      rw [encoded, Act.bind_run_ok (show (Act.lift (Except.ok chunk) : RecordWriter.Method Chunk) _ =
        (.ok chunk, _) from rfl)] at within
      rw [Act.bind_run_ok (show (Act.lift (Except.ok chunk) : RecordWriter.Method Chunk) _ =
        (.ok chunk, _) from rfl)]
      rcases writeChunkRaw_outcome emptied.reliable emptied.laid (ActiveEncoder.encode_sized encoded)
        within with ⟨after, wrote, _, laid, reliable, settings, closed, books⟩ | refused
      · rw [wrote]
        have kept := emptied.wrote laid reliable settings books
        unfold RecordWriter.bookkeeping at books
        simp only [Prod.mk.injEq] at books
        exact ⟨after, rfl, books.2.2.2, closed, settings,
          .inl ⟨chunk, rfl, ⟨holds.countable, self.encoder, holds.filled, encoded⟩, kept⟩⟩
      · rw [refused]
        exact ⟨_, rfl, rfl, rfl, rfl, .inr ⟨⟨_, rfl⟩, emptied⟩⟩

/-- Padding writes at most one chunk of zeros, which ends where it should. -/
theorem HoldsFile.pad (holds : HoldsFile ext fresh chunkSize chunks pending self) (alignment : Nat)
    (within : (RecordWriter.writePaddingToMultiple ext alignment self).2.filePos ≤ u64Max) :
    ∃ after, (RecordWriter.writePaddingToMultiple ext alignment self).2 = after ∧
      after.failed = self.failed ∧ after.closed = self.closed ∧ after.settings = self.settings ∧
      (((RecordWriter.writePaddingToMultiple ext alignment self).1 = .ok () ∧
          posAfterPadding self.filePos alignment = .ok after.filePos ∧
          (after = self ∨ ∃ chunk, IsPadding ext chunk ∧
            HoldsFile ext fresh chunkSize (chunks ++ [chunk]) pending after)) ∨
        (∃ fault, (RecordWriter.writePaddingToMultiple ext alignment self).1 = .error fault) ∧
          after = self) := by
  rw [RecordWriter.writePaddingToMultiple, Act.bind_run_ok (Act.get_run self)] at within ⊢
  simp only at within ⊢
  cases ends : posAfterPadding self.filePos alignment with
  | error fault =>
      rw [Act.bind_run_error (Act.lift_run _ _)]
      exact ⟨self, rfl, rfl, rfl, rfl, .inr ⟨⟨_, rfl⟩, rfl⟩⟩
  | ok endPos =>
      rw [ends, Act.bind_run_ok (Act.lift_run _ _)] at within
      rw [Act.bind_run_ok (Act.lift_run _ _)]
      rcases posAfterPadding_cases ends with ⟨_, rfl⟩ | ⟨_, _, stops⟩
      · rw [if_pos rfl]
        exact ⟨self, rfl, rfl, rfl, rfl, .inl ⟨rfl, rfl, .inl rfl⟩⟩
      · have apart : endPos ≠ self.filePos := Nat.ne_of_gt stops.ahead
        rw [if_neg apart, Act.bind_run_ok (by rw [Act.lift_run, subWord_eq stops.2])] at within ⊢
        rcases writeChunkRaw_outcome holds.reliable holds.laid rfl within with
          ⟨after, wrote, filePos, laid, reliable, settings, closed, books⟩ | refused
        · rw [wrote] at within ⊢
          have kept := holds.wrote laid reliable settings books
          unfold RecordWriter.bookkeeping at books
          simp only [Prod.mk.injEq] at books
          refine ⟨after, rfl, books.2.2.2, closed, settings,
            .inl ⟨rfl, ?_, .inr ⟨_, ⟨_, rfl, rfl⟩, kept⟩⟩⟩
          have stop : after.filePos = chunkEnd self.filePos
              (distanceWithoutOverhead self.filePos endPos - chunkHeaderSize) 0 := by
            rw [filePos, ChunkHeader.numRecords_fromParts _ _ _ (by decide)]
            change chunkEnd _ (List.replicate _ (0 : UInt8)).length 0 = _
            rw [List.length_replicate]
          rw [stop] at within ⊢
          exact congrArg Except.ok (chunkEnd_padding holds.laid.possible stops.1 stops.2 within).symm
        · rw [refused]
          exact ⟨self, rfl, rfl, rfl, rfl, .inr ⟨⟨_, rfl⟩, rfl⟩⟩

/-- The outcome of an operation: its row of the ledger, and the file with it. -/
structure Accounts (ext : Externals) (fresh : ActiveEncoder) (chunkSize : Nat)
    (chunks : List Chunk) (op : WriterOp) (pending : List Bytes) (added : List LedgerEntry)
    (left : List Bytes) (result : Rust Unit) (after : RecordWriter) : Prop where
  file : HoldsFile ext fresh chunkSize (chunks ++ added.map LedgerEntry.chunk) left after
  row : LedgerRow ext fresh chunkSize op pending added left result
  lost : (∃ fault, result = .error fault) → left = []

/-- A method that goes on after another has not moved the position back. -/
theorem within_of_bind {Value Result : Type} {first : RecordWriter.Method Value}
    {second : Value → RecordWriter.Method Result} {self : RecordWriter}
    (moves : ∀ value, Act.Moves (Extends ext) (second value))
    (within : ((first >>= second) self).2.filePos ≤ u64Max) :
    (first self).2.filePos ≤ u64Max := by
  rw [Act.bind_run] at within
  match outcome : first self with
  | (.ok value, next) =>
      rw [outcome] at within
      exact (moves value next).steady.filePos.trans within
  | (.error fault, next) =>
      rw [outcome] at within
      exact within

/-- The second half of `write_record_impl`. -/
def takeRecord (ext : Externals) (data : Bytes) : RecordWriter.Method Unit := do
  Act.modify fun self =>
    { self with
      accumulatedBytes := self.accumulatedBytes + (data.length + 8)
      pendingRecordCount := self.pendingRecordCount + 1 }
  let self ← Act.get
  let encoder ← Act.lift (self.encoder.addRecord data)
  Act.modify fun self => { self with encoder := encoder }
  let self ← Act.get
  Act.whenever (self.chunkSize < self.accumulatedBytes + 8) (RecordWriter.flushChunk ext)

theorem takeRecord_extends (data : Bytes) : Act.Moves (Extends ext) (takeRecord ext data) := by
  refine Act.Moves.bind Extends.trans
    (Act.Moves.modify fun _ => Extends.of_same rfl rfl rfl rfl) fun _ => ?_
  refine Act.Moves.bind Extends.trans (Act.Moves.get (Extends.refl _)) fun _ => ?_
  refine Act.Moves.bind Extends.trans (Act.Moves.lift Extends.refl _) fun _ => ?_
  refine Act.Moves.bind Extends.trans
    (Act.Moves.modify fun _ => Extends.of_same rfl rfl rfl rfl) fun _ => ?_
  refine Act.Moves.bind Extends.trans (Act.Moves.get (Extends.refl _)) fun _ => ?_
  exact Act.Moves.whenever (Extends.refl _) flushChunk_extends

theorem writeRecordImpl_eq (data : Bytes) (self : RecordWriter) :
    RecordWriter.writeRecordImpl ext data self =
      (Act.whenever (self.chunkSize < self.accumulatedBytes + (data.length + 8) ∧
          0 < self.accumulatedBytes) (RecordWriter.flushChunk ext) >>=
        fun _ => takeRecord ext data) self := rfl

/-- A row without entries, for an operation that fails. -/
theorem LedgerRow.empty {op : WriterOp} (fault : Fault) :
    LedgerRow ext fresh chunkSize op pending [] [] (.error fault) := by
  refine ⟨fun _ _ member => ?_, fun _ member => ?_, .inl rfl, fun ok => ?_⟩
  · cases member
  · cases member
  · cases ok

/-- Taking a record when it fits, or when nothing else is pending. -/
theorem HoldsFile.takeRecord {record : Bytes}
    (holds : HoldsFile ext fresh chunkSize chunks pending self)
    (small : record.length ≤ u64Max)
    (fits : pending = [] ∨ accountedSize pending + (record.length + 8) ≤ chunkSize)
    (within : (takeRecord ext record self).2.filePos ≤ u64Max) :
    ∃ added left, Accounts ext fresh chunkSize chunks (.writeRecord record) pending added left
        (takeRecord ext record self).1 (takeRecord ext record self).2 ∧
      (takeRecord ext record self).2.failed = self.failed := by
  obtain ⟨encoder, addedRan⟩ := self.encoder.addRecord_ok small
  have ran : Riegeli.takeRecord ext record self =
      Act.whenever (self.chunkSize < self.accumulatedBytes + (record.length + 8) + 8)
        (RecordWriter.flushChunk ext)
        { self with
          accumulatedBytes := self.accumulatedBytes + (record.length + 8)
          pendingRecordCount := self.pendingRecordCount + 1
          encoder := encoder } := by
    unfold Riegeli.takeRecord
    rw [Act.bind_run_ok (Act.modify_run _ _), Act.bind_run_ok (Act.get_run _),
      Act.bind_run_ok (show (Act.lift (self.encoder.addRecord record) :
        RecordWriter.Method ActiveEncoder) _ = (.ok encoder, _) by rw [addedRan]; rfl),
      Act.bind_run_ok (Act.modify_run _ _), Act.bind_run_ok (Act.get_run _)]
  have taken : HoldsFile ext fresh chunkSize chunks (pending ++ [record])
      { self with
        accumulatedBytes := self.accumulatedBytes + (record.length + 8)
        pendingRecordCount := self.pendingRecordCount + 1
        encoder := encoder } := by
    refine ⟨holds.reliable, holds.laid.of_same rfl rfl, holds.chunkSize_eq, holds.fresh_eq, ?_,
      holds.filled.snoc addedRan, ?_, ?_⟩
    · intro other member
      rcases List.mem_append.mp member with old | new
      · exact holds.countable other old
      · rw [List.mem_singleton.mp new]
        exact small
    · rw [accountedSize_snoc, ← holds.accumulated]
    · rw [List.length_append, ← holds.counted]
      rfl
  rw [ran] at within ⊢
  by_cases full : self.chunkSize < self.accumulatedBytes + (record.length + 8) + 8
  · rw [Act.whenever_pos full] at within ⊢
    rw [holds.chunkSize_eq, holds.accumulated] at full
    have rule : DataChunkRule chunkSize pending (.writeRecord record) (pending ++ [record]) := by
      refine ⟨by simp, ?_, .full (.inl rfl) ?_⟩
      · rcases fits with empty | room
        · subst empty
          exact .inl rfl
        · rw [accountedSize_snoc]
          exact .inr room
      · rw [accountedSize_snoc]
        exact full
    obtain ⟨after, same, failed, _, _, outcome⟩ := taken.flushChunk within
    rw [same]
    rcases outcome with ⟨chunk, ok, encodes, empty⟩ | ⟨⟨fault, error⟩, empty⟩
    · refine ⟨[.data (pending ++ [record]) chunk], [], ⟨empty, ⟨?_, ?_, .inl rfl, fun _ => ?_⟩,
        fun _ => rfl⟩, failed⟩
      · intro records other member
        cases List.mem_singleton.mp member
        exact ⟨encodes, rule⟩
      · intro other member
        cases List.mem_singleton.mp member
      · rw [List.append_nil]
        exact List.append_nil _
    · rw [error]
      exact ⟨[], [], ⟨by simpa using empty, LedgerRow.empty fault, fun _ => rfl⟩, failed⟩
  · rw [Act.whenever_neg full]
    rw [holds.chunkSize_eq, holds.accumulated] at full
    refine ⟨[], pending ++ [record], ⟨by simpa using taken, ⟨fun _ _ member => ?_,
      fun _ member => ?_, ?_, fun _ => rfl⟩, ?_⟩, rfl⟩
    · cases member
    · cases member
    · rw [accountedSize_snoc]
      exact .inr (Nat.le_of_not_lt full)
    · rintro ⟨fault, error⟩
      cases error

/-- A chunk taken right after another one was written. -/
theorem DataChunkRule.ofFresh {record : Bytes} {records : List Bytes}
    (rule : DataChunkRule chunkSize [] (.writeRecord record) records) :
    DataChunkRule chunkSize pending (.writeRecord record) records := by
  refine ⟨rule.present, rule.sized, ?_⟩
  cases rule.ended with
  | overfull _ => exact absurd rfl rule.present
  | full start exceeds => exact .full (.inr (start.elim id id)) exceeds

/-- `write_record_impl` accounts for its record. -/
theorem HoldsFile.writeRecord {record : Bytes}
    (holds : HoldsFile ext fresh chunkSize chunks pending self)
    (small : record.length ≤ u64Max)
    (bounded : pending = [] ∨ accountedSize pending + 8 ≤ chunkSize)
    (within : (RecordWriter.writeRecordImpl ext record self).2.filePos ≤ u64Max) :
    ∃ added left, Accounts ext fresh chunkSize chunks (.writeRecord record) pending added left
        (RecordWriter.writeRecordImpl ext record self).1
        (RecordWriter.writeRecordImpl ext record self).2 ∧
      (RecordWriter.writeRecordImpl ext record self).2.failed = self.failed := by
  rw [writeRecordImpl_eq] at within ⊢
  by_cases exceeds : self.chunkSize < self.accumulatedBytes + (record.length + 8) ∧
      0 < self.accumulatedBytes
  · rw [Act.whenever_pos exceeds] at within ⊢
    rw [holds.chunkSize_eq, holds.accumulated] at exceeds
    have present : pending ≠ [] := by
      rintro rfl
      exact absurd exceeds.2 (Nat.lt_irrefl 0)
    have rule : DataChunkRule chunkSize pending (.writeRecord record) pending := by
      have room := bounded.resolve_left present
      exact ⟨present, .inr (by omega), .overfull exceeds.1⟩
    have flushed : (RecordWriter.flushChunk ext self).2.filePos ≤ u64Max :=
      within_of_bind (fun _ => takeRecord_extends record) within
    obtain ⟨middle, same, failed, _, _, outcome⟩ := holds.flushChunk flushed
    rcases outcome with ⟨chunk, ok, encodes, empty⟩ | ⟨⟨fault, error⟩, empty⟩
    · have ran : RecordWriter.flushChunk ext self = (.ok (), middle) := Prod.ext ok same
      rw [Act.bind_run_ok ran] at within ⊢
      obtain ⟨added, left, accounts, unfailed⟩ := empty.takeRecord small (.inl rfl) within
      refine ⟨.data pending chunk :: added, left, ⟨?_, ⟨?_, ?_, accounts.row.bounded,
        fun whole => ?_⟩, accounts.lost⟩, unfailed.trans failed⟩
      · have file := accounts.file
        rw [List.append_assoc] at file
        exact file
      · intro records other member
        rcases List.mem_cons.mp member with here | later
        · cases here
          exact ⟨encodes, rule⟩
        · obtain ⟨encoded, ruled⟩ := accounts.row.data records other later
          exact ⟨encoded, ruled.ofFresh⟩
      · intro other member
        rcases List.mem_cons.mp member with here | later
        · cases here
        · exact accounts.row.padding other later
      · have rest := accounts.row.whole whole
        rw [List.nil_append] at rest
        rw [← rest, ← List.append_assoc]
        rfl
    · have ran : RecordWriter.flushChunk ext self = (.error fault, middle) := Prod.ext error same
      rw [Act.bind_run_error ran]
      exact ⟨[], [], ⟨by simpa using empty, LedgerRow.empty fault, fun _ => rfl⟩, failed⟩
  · rw [Act.whenever_neg exceeds] at within ⊢
    rw [Act.bind_run_ok (Act.pure_run () self)] at within ⊢
    rw [holds.chunkSize_eq, holds.accumulated] at exceeds
    refine holds.takeRecord small ?_ within
    by_cases empty : pending = []
    · exact .inl empty
    · have positive : 0 < accountedSize pending :=
        lt_of_lt_of_le (Nat.mul_pos (List.length_pos_of_ne_nil empty) (by decide))
          (le_accountedSize pending)
      right
      omega

/-- The second half of `flush_impl`. -/
def padAndSync (ext : Externals) : RecordWriter.Method Unit := do
  let self ← Act.get
  Act.whenever (0 < self.finalPadding)
    (RecordWriter.writePaddingToMultiple ext self.finalPadding)
  RecordWriter.callSink .flush

theorem padAndSync_extends : Act.Moves (Extends ext) (padAndSync ext) := by
  refine Act.Moves.bind Extends.trans (Act.Moves.get (Extends.refl _)) fun _ => ?_
  refine Act.Moves.bind Extends.trans
    (Act.Moves.whenever (Extends.refl _) (writePaddingToMultiple_extends _)) fun _ => ?_
  exact callSink_flush_extends

theorem flushImpl_eq (self : RecordWriter) :
    RecordWriter.flushImpl ext self =
      (Act.whenever (0 < self.pendingRecordCount) (RecordWriter.flushChunk ext) >>=
        fun _ => padAndSync ext) self := rfl

/-- Flushing the sink changes nothing that the ledger speaks of. -/
theorem HoldsFile.sync (holds : HoldsFile ext fresh chunkSize chunks pending self) :
    RecordWriter.callSink .flush self = (.ok (), self.called .flush) ∧
      HoldsFile ext fresh chunkSize chunks pending (self.called .flush) := by
  refine ⟨callSink_ok (holds.reliable _), holds.reliable, ⟨?_, holds.laid.filePos,
    holds.laid.wellPlaced⟩, holds.chunkSize_eq, holds.fresh_eq, holds.countable, holds.filled,
    holds.accumulated,
    holds.counted⟩
  rw [← holds.laid.bytes]
  simp [RecordWriter.called, Sink.bytes, SinkCall.bytes, List.flatMap_append]

/-- Padding and flushing the sink, when nothing is pending. -/
theorem HoldsFile.padAndSync (holds : HoldsFile ext fresh chunkSize chunks [] self)
    (within : (padAndSync ext self).2.filePos ≤ u64Max) :
    ∃ padding : List Chunk, (∀ chunk ∈ padding, IsPadding ext chunk) ∧
      HoldsFile ext fresh chunkSize (chunks ++ padding) [] (padAndSync ext self).2 ∧
      (padAndSync ext self).2.failed = self.failed ∧
      ((padAndSync ext self).1 = .ok () → 0 < self.finalPadding →
        PadsInWord self.filePos self.finalPadding →
        (padAndSync ext self).2.filePos % self.finalPadding = 0) := by
  have ran : Riegeli.padAndSync ext self =
      (Act.whenever (0 < self.finalPadding)
          (RecordWriter.writePaddingToMultiple ext self.finalPadding) >>=
        fun _ => RecordWriter.callSink .flush) self := rfl
  rw [ran] at within ⊢
  by_cases pads : 0 < self.finalPadding
  · rw [Act.whenever_pos pads] at within ⊢
    have padded := @within_of_bind ext _ _ _ _ _ (fun _ => callSink_flush_extends) within
    obtain ⟨after, same, failed, _, _, outcome⟩ := holds.pad self.finalPadding padded
    rcases outcome with ⟨ok, ends, added⟩ | ⟨⟨fault, error⟩, rfl⟩
    · have whole : RecordWriter.writePaddingToMultiple ext self.finalPadding self = (.ok (), after) :=
        Prod.ext ok same
      have aligned : PadsInWord self.filePos self.finalPadding →
          after.filePos % self.finalPadding = 0 :=
        fun words => posAfterPadding_mod pads words ends
      rw [Act.bind_run_ok whole]
      rcases added with rfl | ⟨chunk, zeros, kept⟩
      · obtain ⟨synced, kept⟩ := holds.sync
        rw [synced]
        exact ⟨[], by simp, by simpa using kept, rfl, fun _ _ => aligned⟩
      · obtain ⟨synced, kept⟩ := kept.sync
        rw [synced]
        exact ⟨[chunk], by simpa using zeros, kept, failed, fun _ _ => aligned⟩
    · have whole : RecordWriter.writePaddingToMultiple ext after.finalPadding after =
          (.error fault, after) := Prod.ext error same
      rw [Act.bind_run_error whole]
      exact ⟨[], by simp, by simpa using holds, rfl, fun ok => by cases ok⟩
  · rw [Act.whenever_neg pads, Act.bind_run_ok (Act.pure_run () self)]
    obtain ⟨synced, kept⟩ := holds.sync
    rw [synced]
    exact ⟨[], by simp, by simpa using kept, rfl, fun _ some => absurd some pads⟩

/-- `flush_impl` accounts for everything pending, and a flush that succeeds
ends at a multiple of the final padding if that is a word. -/
theorem HoldsFile.flush (holds : HoldsFile ext fresh chunkSize chunks pending self)
    (bounded : pending = [] ∨ accountedSize pending + 8 ≤ chunkSize)
    (within : (RecordWriter.flushImpl ext self).2.filePos ≤ u64Max) :
    (∃ added, Accounts ext fresh chunkSize chunks .flush pending added []
        (RecordWriter.flushImpl ext self).1 (RecordWriter.flushImpl ext self).2) ∧
      (RecordWriter.flushImpl ext self).2.failed = self.failed ∧
      ((RecordWriter.flushImpl ext self).1 = .ok () → 0 < self.finalPadding →
        PadsInWord (paddingStart ext self) self.finalPadding →
        (RecordWriter.flushImpl ext self).2.filePos % self.finalPadding = 0) := by
  rw [flushImpl_eq] at within ⊢
  unfold paddingStart
  by_cases waiting : 0 < self.pendingRecordCount
  · rw [Act.whenever_pos waiting] at within ⊢
    have present : pending ≠ [] := by
      rintro rfl
      rw [holds.counted] at waiting
      exact absurd waiting (Nat.lt_irrefl 0)
    have rule : DataChunkRule chunkSize pending .flush pending := by
      have room := bounded.resolve_left present
      exact ⟨present, .inr (by omega), .flushed⟩
    obtain ⟨middle, same, failed, _, settings, outcome⟩ :=
      holds.flushChunk (within_of_bind (fun _ => padAndSync_extends) within)
    have padding_eq : middle.finalPadding = self.finalPadding := by
      unfold RecordWriter.settings at settings
      simp only [Prod.mk.injEq] at settings
      exact settings.2.2.1
    rcases outcome with ⟨chunk, ok, encodes, empty⟩ | ⟨⟨fault, error⟩, empty⟩
    · have ran : RecordWriter.flushChunk ext self = (.ok (), middle) := Prod.ext ok same
      rw [Act.bind_run_ok ran] at within ⊢
      rw [ran]
      obtain ⟨padding, zeros, kept, unfailed, aligned⟩ := empty.padAndSync within
      rw [padding_eq] at aligned
      refine ⟨⟨.data pending chunk :: padding.map .padding, ?_, ⟨?_, ?_, .inl rfl, fun _ => ?_⟩,
        fun _ => rfl⟩, unfailed.trans failed, aligned⟩
      · rw [List.append_assoc] at kept
        rw [List.map_cons, chunk_padding]
        exact kept
      · intro records other member
        rcases List.mem_cons.mp member with here | later
        · cases here
          exact ⟨encodes, rule⟩
        · exact absurd later data_not_mem_padding
      · intro other member
        rcases List.mem_cons.mp member with here | later
        · cases here
        · exact zeros _ (padding_mem_padding later)
      · have rest := ledgerRecords_padding padding
        unfold ledgerRecords at rest ⊢
        rw [List.map_cons, List.flatten_cons, rest]
        exact List.append_nil _
    · have ran : RecordWriter.flushChunk ext self = (.error fault, middle) := Prod.ext error same
      rw [Act.bind_run_error ran]
      exact ⟨⟨[], by simpa using empty, LedgerRow.empty fault, fun _ => rfl⟩, failed,
        fun whole => by cases whole⟩
  · rw [Act.whenever_neg waiting, Act.bind_run_ok (Act.pure_run () self)] at within ⊢
    rw [holds.counted] at waiting
    obtain rfl : pending = [] := List.eq_nil_of_length_eq_zero (Nat.eq_zero_of_not_pos waiting)
    obtain ⟨padding, zeros, kept, unfailed, aligned⟩ := holds.padAndSync within
    refine ⟨⟨padding.map .padding, ?_, ⟨?_, ?_, .inl rfl, fun _ => ?_⟩, fun _ => rfl⟩, unfailed,
      aligned⟩
    · rw [chunk_padding]
      exact kept
    · exact fun records other member => absurd member data_not_mem_padding
    · exact fun other member => zeros _ (padding_mem_padding member)
    · rw [ledgerRecords_padding]
      rfl

end Holds

/-! ## Runs -/

section Runs

variable {fresh : ActiveEncoder} {chunkSize : Nat} {chunks : List Chunk} {pending : List Bytes}
  {self : RecordWriter}

/-- The latch and the mark of a closed writer are not part of the file. -/
theorem HoldsFile.mark (holds : HoldsFile ext fresh chunkSize chunks pending self)
    (failed : Option String) (closed : Bool) :
    HoldsFile ext fresh chunkSize chunks pending
      { self with failed := failed, closed := closed } :=
  ⟨holds.reliable, holds.laid.of_same rfl rfl, holds.chunkSize_eq, holds.fresh_eq,
    holds.countable, holds.filled, holds.accumulated, holds.counted⟩

/-- What the ledger needs of an open writer between its operations. -/
structure LedgerBalanced (ext : Externals) (fresh : ActiveEncoder) (chunkSize : Nat)
    (chunks : List Chunk) (pending : List Bytes) (writer : RecordWriter) : Prop where
  file : HoldsFile ext fresh chunkSize chunks pending writer
  bounded : pending = [] ∨ accountedSize pending + 8 ≤ chunkSize
  latched : writer.failed.isSome = true → pending = []
  isOpen : writer.closed = false

/-- A body that succeeds leaves no latch, and one that fails nothing pending. -/
theorem Accounts.latched {op : WriterOp} {added : List LedgerEntry} {left : List Bytes}
    {body : RecordWriter.Method Unit}
    (accounts : Accounts ext fresh chunkSize chunks op pending added left (body self).1
      (body self).2)
    (unfailed : (body self).2.failed = none) :
    (RecordWriter.latchFailure body self).2.failed.isSome = true → left = [] := by
  intro latched
  cases outcome : (body self).1 with
  | error fault => exact accounts.lost ⟨fault, outcome⟩
  | ok value =>
      have ran : RecordWriter.latchFailure body self = body self := by
        unfold RecordWriter.latchFailure
        split
        · rename_i wrong
          rw [wrong] at outcome
          cases outcome
        · rfl
      rw [ran, unfailed] at latched
      cases latched

/-- An operation that accounts for its records keeps the ledger balanced. -/
theorem Accounts.balanced {op : WriterOp} {added : List LedgerEntry} {left : List Bytes}
    {body : RecordWriter.Method Unit}
    (accounts : Accounts ext fresh chunkSize chunks op pending added left (body self).1
      (body self).2)
    (unfailed : (body self).2.failed = none) (isOpen : (body self).2.closed = false) :
    LedgerBalanced ext fresh chunkSize (chunks ++ added.map LedgerEntry.chunk) left
        (RecordWriter.latchFailure body self).2 ∧
      LedgerRow ext fresh chunkSize op pending added left
        (RecordWriter.latchFailure body self).1 := by
  have latched := accounts.latched unfailed
  obtain ⟨failed, ran⟩ := latchFailure_eq body self
  rw [ran] at latched ⊢
  exact ⟨⟨accounts.file.mark failed _, accounts.row.bounded, latched, isOpen⟩, accounts.row⟩

/-- Every operation keeps the ledger balanced. -/
theorem WriterOp.run_balanced (op : WriterOp)
    (balanced : LedgerBalanced ext fresh chunkSize chunks pending self)
    (small : ∀ record, op = .writeRecord record → record.length ≤ u64Max)
    (within : (op.run ext self).2.filePos ≤ u64Max) :
    ∃ added left, LedgerBalanced ext fresh chunkSize (chunks ++ added.map LedgerEntry.chunk) left
        (op.run ext self).2 ∧
      LedgerRow ext fresh chunkSize op pending added left (op.run ext self).1 := by
  cases latch : self.failed.isSome with
  | true =>
      obtain ⟨body, _, ran⟩ := @WriterOp.run_open ext op
      obtain ⟨error, refused⟩ := checkNotFailed_error latch
      obtain rfl := balanced.latched latch
      rw [ran self balanced.isOpen, guarded, Act.bind_run_error refused]
      exact ⟨[], [], by simpa using balanced, LedgerRow.empty _⟩
  | false =>
      have unfailed : self.failed = none := Option.not_isSome_iff_eq_none.mp (by simp [latch])
      cases op with
      | writeRecord record =>
          have ran : WriterOp.run ext (.writeRecord record) self =
              RecordWriter.latchFailure (RecordWriter.writeRecordImpl ext record) self := by
            rw [WriterOp.run, writeRecord_open balanced.isOpen, guarded,
              Act.bind_run_ok (checkNotFailed_ok latch)]
          obtain ⟨failed, latched⟩ :=
            latchFailure_eq (RecordWriter.writeRecordImpl ext record) self
          rw [ran] at within ⊢
          rw [latched] at within
          obtain ⟨added, left, accounts, same⟩ :=
            balanced.file.writeRecord (small record rfl) balanced.bounded within
          exact ⟨added, left, accounts.balanced (same.trans unfailed)
            ((writeRecordImpl_extends record self).steady.closed.trans balanced.isOpen)⟩
      | flush =>
          have ran : WriterOp.run ext .flush self =
              RecordWriter.latchFailure (RecordWriter.flushImpl ext) self := by
            rw [WriterOp.run, flush_open balanced.isOpen, guarded,
              Act.bind_run_ok (checkNotFailed_ok latch)]
          obtain ⟨failed, latched⟩ := latchFailure_eq (RecordWriter.flushImpl ext) self
          rw [ran] at within ⊢
          rw [latched] at within
          obtain ⟨⟨added, accounts⟩, same, _⟩ := balanced.file.flush balanced.bounded within
          exact ⟨added, [], accounts.balanced (same.trans unfailed)
            ((flushImpl_extends self).steady.closed.trans balanced.isOpen)⟩

/-- Closing a balanced writer flushes what is pending. -/
theorem LedgerBalanced.closes (balanced : LedgerBalanced ext fresh chunkSize chunks pending self) :
    ClosesLedger ext fresh chunkSize chunks pending self := by
  intro within
  rw [RecordWriter.close, flushInternal_open balanced.isOpen] at within ⊢
  have closed := balanced.file.mark self.failed true
  cases latch : self.failed.isSome with
  | true =>
      obtain ⟨error, refused⟩ := @checkNotFailed_error { self with closed := true } latch
      obtain rfl := balanced.latched latch
      rw [guarded, Act.bind_run_error refused]
      exact ⟨[], LedgerRow.empty _, by simpa using closed.laid⟩
  | false =>
      rw [guarded, Act.bind_run_ok (@checkNotFailed_ok { self with closed := true } latch)]
        at within ⊢
      obtain ⟨failed, latched⟩ :=
        latchFailure_eq (RecordWriter.flushImpl ext) { self with closed := true }
      rw [latched] at within ⊢
      obtain ⟨⟨added, accounts⟩, _⟩ := closed.flush balanced.bounded within
      exact ⟨added, accounts.row, accounts.file.laid.of_same rfl rfl⟩

/-- Every run has a ledger. -/
theorem LedgerBalanced.runs (ops : List WriterOp)
    (balanced : LedgerBalanced ext fresh chunkSize chunks pending self)
    (small : ∀ record, .writeRecord record ∈ ops → record.length ≤ u64Max)
    (within : (runWriter ext ops self).filePos ≤ u64Max) :
    ∃ rows, LedgerRun ext fresh chunkSize chunks pending self ops rows := by
  induction ops generalizing chunks pending self with
  | nil => exact ⟨[], .stop balanced.file balanced.closes⟩
  | cons op rest ih =>
      obtain ⟨_, ahead, _⟩ := @runWriter_extends ext rest (op.run ext self).2
      obtain ⟨added, left, next, row⟩ := op.run_balanced balanced
        (fun record same => small record (by rw [same]; exact List.mem_cons_self ..))
        (ahead.trans within)
      obtain ⟨rows, run⟩ := ih next
        (fun record member => small record (List.mem_cons_of_mem _ member)) within
      exact ⟨added :: rows, .step balanced.file row run⟩

end Runs

/-! ## Construction -/

/-- The chunk size of a writer, capped. -/
def cappedChunkSize (options : WriterOptions) : Nat :=
  min options.chunkSize (RecordWriter.maxNumRecords * 8)

theorem encodeMetadata_isHead {options : WriterOptions} {opts : CompressOptions}
    {metadata : Bytes} {chunk : Chunk} (given : options.metadata = some metadata)
    (encoded : RecordWriter.encodeMetadata ext options.compression opts metadata = .ok chunk) :
    IsHead ext options chunk := by
  obtain ⟨encoder, _, encoded⟩ := Except.bind_eq_ok.mp encoded
  obtain ⟨data, _, built⟩ := Except.bind_eq_ok.mp encoded
  cases built
  exact .metadata given

/-- The chunks between the signature and the first record of a new writer. -/
inductive StartsWith (ext : Externals) (options : WriterOptions) : List Chunk → Prop where
  | bare (given : options.metadata = none) : StartsWith ext options []
  | metadata {metadata : Bytes} {chunk : Chunk} (given : options.metadata = some metadata)
      (encoded : RecordWriter.encodeMetadata ext options.compression
        { level := options.compressionLevel, windowLog := options.windowLog } metadata = .ok chunk) :
      StartsWith ext options [chunk]

theorem StartsWith.isHead {options : WriterOptions} {head : List Chunk}
    (starts : StartsWith ext options head) : ∀ chunk ∈ head, IsHead ext options chunk := by
  cases starts with
  | bare => exact fun chunk member => absurd member List.not_mem_nil
  | metadata given encoded =>
      intro other member
      rw [List.mem_singleton.mp member]
      exact encodeMetadata_isHead given encoded

/-- A new writer has written its signature and its metadata, and nothing is
pending. -/
theorem opened_starts {options : WriterOptions} {self : RecordWriter}
    (opened : Opened ext options self) (within : self.filePos ≤ u64Max) :
    ∃ head, StartsWith ext options head ∧
      LedgerBalanced ext self.freshEncoder (cappedChunkSize options)
        (signatureChunk ext :: head) [] self := by
  have laid := @initial_laidOut ext options (signedSink ext fun _ => none)
    (by simp [signedSink, signaturePieces, Sink.bytes, SinkCall.bytes])
  have started : HoldsFile ext
      (RecordWriter.initial (signedSink ext fun _ => none) options).freshEncoder
      (cappedChunkSize options) [signatureChunk ext] []
      (RecordWriter.initial (signedSink ext fun _ => none) options) :=
    ⟨fun _ => rfl, laid, rfl, rfl, (fun _ member => absurd member List.not_mem_nil), rfl, rfl, rfl⟩
  have ran := opened_eq opened
  unfold RecordWriter.writeMetadata at ran
  cases given : options.metadata with
  | none =>
      rw [given] at ran
      cases ran
      exact ⟨[], .bare given, started, .inl rfl, fun _ => rfl, rfl⟩
  | some metadata =>
      rw [given] at ran
      simp only at ran
      rw [Act.bind_run_ok (Act.get_run _)] at ran
      obtain ⟨chunk, next, lifted, wrote⟩ := Act.run_bind_ok.mp ran
      rw [Act.lift_run] at lifted
      cases encoded : RecordWriter.encodeMetadata ext options.compression
          (RecordWriter.initial (signedSink ext fun _ => none) options).compressOpts metadata with
      | error fault =>
          rw [encoded] at lifted
          cases lifted
      | ok made =>
          rw [encoded] at lifted
          cases lifted
          rcases writeChunkRaw_outcome started.reliable started.laid (encodeMetadata_sized encoded)
              (by rw [wrote]; exact within) with
            ⟨after, same, _, laidAfter, reliable, settings, closed, books⟩ | refused
          · rw [wrote] at same
            cases same
            have kept := started.wrote laidAfter reliable settings books
            rw [← freshEncoder_of_settings settings] at kept
            unfold RecordWriter.bookkeeping at books
            simp only [Prod.mk.injEq] at books
            exact ⟨[chunk], .metadata given encoded, kept, .inl rfl, fun _ => rfl, closed⟩
          · rw [wrote] at refused
            cases refused

/-- A new writer has a balanced ledger, with nothing pending. -/
theorem opened_balanced {options : WriterOptions} {self : RecordWriter}
    (opened : Opened ext options self) (within : self.filePos ≤ u64Max) :
    ∃ rest, (∀ chunk ∈ rest, IsHead ext options chunk) ∧
      LedgerBalanced ext self.freshEncoder (cappedChunkSize options)
        (signatureChunk ext :: rest) [] self := by
  obtain ⟨head, starts, balanced⟩ := opened_starts opened within
  exact ⟨head, starts.isHead, balanced⟩

end Riegeli
