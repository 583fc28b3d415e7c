/-
Module: Riegeli.Proofs.SyncedFiles
Purpose: Right after a flush or a close that succeeded the file holds every
  record handed to the writer.
Trusted boundary: the hash, the codecs and the sink
Main exports: runResults_ok, synced_holds
-/
import Riegeli.Library.Related
import Riegeli.Spec.FileRecords

namespace Riegeli

variable {ext : Externals} {options : WriterOptions} {self : RecordWriter}

/-! ## A failure is final -/

theorem WriterOp.run_closed (op : WriterOp) (self : RecordWriter) :
    (op.run ext self).2.closed = self.closed :=
  (@WriterOp.run_extends ext op self).steady.closed

/-- An operation on a failed writer does nothing. -/
theorem WriterOp.run_failed (op : WriterOp) (isOpen : self.closed = false)
    (failed : self.failed.isSome = true) :
    ∃ error, op.run ext self = (.error (.error error), self) := by
  obtain ⟨body, _, ran⟩ := @WriterOp.run_open ext op
  obtain ⟨error, refused⟩ := checkNotFailed_error failed
  rw [ran self isOpen, guarded, Act.bind_run_error refused]
  exact ⟨error, rfl⟩

theorem runWriter_failed (ops : List WriterOp) (isOpen : self.closed = false)
    (failed : self.failed.isSome = true) : runWriter ext ops self = self := by
  induction ops with
  | nil => rfl
  | cons op rest ih =>
      obtain ⟨error, ran⟩ := @WriterOp.run_failed ext self op isOpen failed
      rw [runWriter, ran]
      exact ih

/-- An operation that fails leaves a failed writer. -/
theorem WriterOp.run_error (op : WriterOp) (isOpen : self.closed = false) {error : RiegeliError}
    (ran : (op.run ext self).1 = .error (.error error)) :
    (op.run ext self).2.failed.isSome = true := by
  obtain ⟨body, _, opened⟩ := @WriterOp.run_open ext op
  rw [opened self isOpen, guarded] at ran ⊢
  cases whole : self.failed.isSome with
  | true =>
      obtain ⟨error, refused⟩ := checkNotFailed_error whole
      rw [Act.bind_run_error refused]
      exact whole
  | false =>
      rw [Act.bind_run_ok (checkNotFailed_ok whole)] at ran ⊢
      obtain ⟨failed, same⟩ := latchFailure_eq body self
      have outcome : (body self).1 = .error (.error error) := by
        rw [same] at ran
        exact ran
      exact @latchFailure_latched body self error (by rw [outcome]; rfl)

/-- Where a run ends without a failure every operation succeeded. -/
theorem runResults_ok (ops : List WriterOp) (isOpen : self.closed = false)
    (returns : CallsReturn ext self ops)
    (unfailed : (runWriter ext ops self).failed.isSome = false) :
    ∀ result ∈ runResults ext ops self, result = .ok () := by
  induction ops generalizing self with
  | nil => exact fun _ member => (nomatch member)
  | cons op rest ih =>
      have openNext := (@WriterOp.run_closed ext op self).trans isOpen
      intro result member
      rcases List.mem_cons.mp member with rfl | later
      · rcases returns _ (List.mem_cons_self ..) with ⟨_, ok⟩ | ⟨error, failed⟩
        · exact ok
        · have latched := op.run_error isOpen failed
          rw [runWriter, runWriter_failed rest openNext latched, latched] at unfailed
          cases unfailed
      · exact ih openNext (fun result member => returns result (List.mem_cons_of_mem _ member))
          unfailed result later

theorem Synced.unfailed {ops : List WriterOp} {after : RecordWriter}
    (synced : Synced ext self ops after) (isOpen : (runWriter ext ops self).closed = false) :
    (runWriter ext ops self).failed.isSome = false := by
  cases latch : (runWriter ext ops self).failed.isSome with
  | false => rfl
  | true =>
      cases synced with
      | flushed ran =>
          obtain ⟨error, refused⟩ := @guarded_refused (RecordWriter.flushImpl ext) _ latch
          rw [flush_open isOpen] at ran
          rw [ran] at refused
          cases refused
      | closed ran =>
          obtain ⟨error, refused⟩ := @guarded_refused (RecordWriter.flushImpl ext)
            { runWriter ext ops self with closed := true } latch
          rw [RecordWriter.close, flushInternal_open isOpen] at ran
          rw [ran] at refused
          cases refused

/-! ## The last flush -/

theorem Synced.ahead {ops : List WriterOp} {after : RecordWriter}
    (synced : Synced ext self ops after) :
    (runWriter ext ops self).filePos ≤ after.filePos := by
  cases synced with
  | flushed ran =>
      have moved := (@WriterOp.run_extends ext .flush (runWriter ext ops self)).steady.filePos
      rw [WriterOp.run, ran] at moved
      exact moved
  | closed ran =>
      have moved := @close_ahead ext (runWriter ext ops self)
      rw [ran] at moved
      exact moved

/-- A flush or a close that succeeds leaves nothing pending. -/
theorem LedgerBalanced.synced {fresh : ActiveEncoder} {chunkSize : Nat} {chunks : List Chunk}
    {pending : List Bytes} {ops : List WriterOp} {after : RecordWriter}
    (balanced : LedgerBalanced ext fresh chunkSize chunks pending (runWriter ext ops self))
    (synced : Synced ext self ops after) (within : after.filePos ≤ u64Max) :
    ∃ added, LedgerRow ext fresh chunkSize .flush pending added [] (.ok ()) ∧
      LaidOut ext after (chunks ++ added.map LedgerEntry.chunk) := by
  have unfailed := synced.unfailed balanced.isOpen
  cases synced with
  | flushed ran =>
      rw [flush_open balanced.isOpen, guarded, Act.bind_run_ok (checkNotFailed_ok unfailed)] at ran
      obtain ⟨failed, latched⟩ := latchFailure_eq (RecordWriter.flushImpl ext) (runWriter ext ops self)
      rw [latched, Prod.mk.injEq] at ran
      obtain ⟨ok, rfl⟩ := ran
      obtain ⟨⟨added, accounts⟩, _⟩ := balanced.file.flush balanced.bounded within
      have row := accounts.row
      rw [ok] at row
      exact ⟨added, row, accounts.file.laid.of_same rfl rfl⟩
  | closed ran =>
      obtain ⟨added, row, laid⟩ := balanced.closes (by rw [ran]; exact within)
      rw [ran] at row laid
      exact ⟨added, row, laid⟩

/-! ## Records of the file -/

/-- A chunk with nothing to read opens to no records. -/
theorem MadeChunk.opens_special {chunk : Chunk} (made : MadeChunk ext chunk)
    (special : isDataChunk chunk = false) (none : chunk.header.numRecords = 0)
    (projection : Option FieldProjection) : Opens ext projection chunk [] := by
  obtain ⟨chunkType, typed, valid⟩ := made.typed
  unfold isDataChunk at special
  rw [typed] at special
  refine .special typed ?_ ?_ valid rfl none
  · rintro rfl
    cases special
  · rintro rfl
    cases special

theorem IsHead.special {chunk : Chunk} (opens : IsHead ext options chunk) :
    isDataChunk chunk = false := by
  cases opens with
  | signature =>
      have typed : (signatureChunk ext).header.chunkType = .ok .fileSignature :=
        ChunkHeader.chunkType_fromParts _ _ _ _
      unfold isDataChunk
      rw [typed]
  | metadata given =>
      unfold isDataChunk
      simp only [ChunkHeader.chunkType_fromParts]

/-- The chunk of an entry opens to what its records are read as, if every chunk
made of records does. -/
theorem Entered.opensAs {projection : Option FieldProjection} {related : Bytes → Bytes → Prop}
    {entry : LedgerEntry} (entered : Entered ext self options entry)
    (fits : entry.chunk.data.length ≤ u64Max)
    (decodes : ∀ op pending, EncodesRecords ext self.freshEncoder entry.records entry.chunk →
      DataChunkRule (cappedChunkSize options) pending op entry.records →
      ∃ left, Opens ext projection entry.chunk left ∧ List.Forall₂ related entry.records left) :
    ∃ left, Opens ext projection entry.chunk left ∧ List.Forall₂ related entry.records left := by
  obtain ⟨op, pending, added, left, result, row, listed⟩ := entered
  have made := row.made entry listed fits
  cases entry with
  | data records chunk =>
      obtain ⟨encodes, rule⟩ := row.data records chunk listed
      exact decodes op pending encodes rule
  | padding chunk =>
      obtain ⟨size, _, header⟩ := row.padding chunk listed
      refine ⟨[], made.opens_special ?_ ?_ projection, .nil⟩
      · unfold isDataChunk LedgerEntry.chunk
        rw [header]
        simp only [ChunkHeader.chunkType_fromParts]
      · unfold LedgerEntry.chunk
        rw [header]
        exact ChunkHeader.numRecords_fromParts _ _ _ (by decide)

/-- The chunk of an entry, with what the records of the entry are read as. -/
structure OpensAs (ext : Externals) (projection : Option FieldProjection)
    (related : Bytes → Bytes → Prop) (entry : LedgerEntry) (held : HeldChunk) : Prop where
  chunk : held.chunk = entry.chunk
  opens : Opens ext projection held.chunk held.records
  records : List.Forall₂ related entry.records held.records

theorem opensAs_chunks {projection : Option FieldProjection} {related : Bytes → Bytes → Prop}
    {entries : List LedgerEntry} {held : List HeldChunk}
    (all : List.Forall₂ (OpensAs ext projection related) entries held) :
    held.map HeldChunk.chunk = entries.map LedgerEntry.chunk := by
  induction all with
  | nil => rfl
  | cons first _ ih => rw [List.map_cons, List.map_cons, first.chunk, ih]

theorem opensAs_records {projection : Option FieldProjection} {related : Bytes → Bytes → Prop}
    {entries : List LedgerEntry} {held : List HeldChunk}
    (all : List.Forall₂ (OpensAs ext projection related) entries held) :
    List.Forall₂ related (ledgerRecords entries) (heldRecords held) := by
  induction all with
  | nil => exact .nil
  | cons first _ ih => exact List.rel_append first.records ih

/-- A chunk that holds no records. -/
def Chunk.bare (chunk : Chunk) : HeldChunk := { chunk := chunk, records := [] }

theorem heldRecords_bare (head : List Chunk) : heldRecords (head.map Chunk.bare) = [] := by
  unfold heldRecords
  rw [List.flatMap_map]
  exact List.flatMap_eq_nil_iff.mpr fun _ _ => rfl

/-- A flush or a close that succeeds behind a run adds entries with the records
handed over, in order, to the file that the run began with. -/
theorem LedgerBalanced.entries {chunks : List Chunk} {ops : List WriterOp}
    (balanced : LedgerBalanced ext self.freshEncoder (cappedChunkSize options) chunks [] self)
    (words : HandsWords options ops) (returns : CallsReturn ext self ops) {after : RecordWriter}
    (synced : Synced ext self ops after) (within : after.filePos ≤ u64Max) :
    ∃ entries, (∀ entry ∈ entries, Entered ext self options entry) ∧
      LaidOut ext after (chunks ++ entries.map LedgerEntry.chunk) ∧
      ledgerRecords entries = writtenRecords ops := by
  obtain ⟨entries, left, final, entered, whole⟩ :=
    balanced.reaches ops words.records (synced.ahead.trans within)
  have records :=
    whole (runResults_ok ops balanced.isOpen returns (synced.unfailed final.isOpen))
  obtain ⟨added, row, laid⟩ := final.synced synced within
  rw [List.append_assoc, ← List.map_append] at laid
  refine ⟨entries ++ added, ?_, laid, ?_⟩
  · intro entry member
    rcases List.mem_append.mp member with before | last
    · exact entered entry before
    · exact ⟨_, _, _, _, _, row, last⟩
  · have last := row.whole rfl
    rw [List.append_nil] at last
    rw [ledgerRecords_append, last, ← List.append_assoc, records]
    simp [writtenRecords]

theorem opened_within {ops : List WriterOp} {after : RecordWriter}
    (synced : Synced ext self ops after) (within : after.filePos ≤ u64Max) :
    self.filePos ≤ u64Max :=
  (@runWriter_extends ext ops self).2.1.trans (synced.ahead.trans within)

/-- What a file is right after a flush or a close that succeeded: chunks that
open it, and entries with the records handed over, in order. -/
theorem synced_entries (opened : Opened ext options self) {ops : List WriterOp}
    (words : HandsWords options ops) (returns : CallsReturn ext self ops) {after : RecordWriter}
    (synced : Synced ext self ops after) (within : after.filePos < u64Max) :
    ∃ head entries, (∀ chunk ∈ head, IsHead ext options chunk) ∧
      (∀ entry ∈ entries, Entered ext self options entry) ∧
      LaidOut ext after (signatureChunk ext :: (head ++ entries.map LedgerEntry.chunk)) ∧
      ledgerRecords entries = writtenRecords ops := by
  obtain ⟨head, opens, balanced⟩ := opened_balanced opened (opened_within synced (Nat.le_of_lt within))
  obtain ⟨entries, entered, laid, records⟩ :=
    balanced.entries words returns synced (Nat.le_of_lt within)
  exact ⟨head, entries, opens, entered, laid, records⟩

/-- Each entry's records are some of those that follow one another. -/
theorem ledgerRecords_part {entries : List LedgerEntry} {entry : LedgerEntry}
    (listed : entry ∈ entries) : entry.records <:+: ledgerRecords entries := by
  obtain ⟨before, later, rfl⟩ := List.append_of_mem listed
  refine ⟨ledgerRecords before, ledgerRecords later, ?_⟩
  simp [ledgerRecords]

/-- A file of chunks that open it and of entries holds what the records of the
entries are read as, in order, when the chunks that the writer made of them do. -/
theorem LaidOut.opensAs {ops : List WriterOp} (words : HandsWords options ops)
    {after : RecordWriter} {head : List Chunk} {entries : List LedgerEntry}
    (opens : ∀ chunk ∈ head, IsHead ext options chunk)
    (entered : ∀ entry ∈ entries, Entered ext self options entry)
    (laid : LaidOut ext after (signatureChunk ext :: (head ++ entries.map LedgerEntry.chunk)))
    (within : after.filePos < u64Max) {projection : Option FieldProjection}
    {related : Bytes → Bytes → Prop}
    (decodes : ∀ op pending records chunk, EncodesRecords ext self.freshEncoder records chunk →
      DataChunkRule (cappedChunkSize options) pending op records →
      records <:+: ledgerRecords entries → chunk.data.length ≤ u64Max →
      ∃ left, Opens ext projection chunk left ∧ List.Forall₂ related records left) :
    ∃ held, held.map HeldChunk.chunk = head ++ entries.map LedgerEntry.chunk ∧
      HoldsRecords ext projection after.sink.bytes held ∧
      List.Forall₂ related (ledgerRecords entries) (heldRecords held) := by
  have file := laid.wholeFile words opens entered within
  have each : ∀ entry ∈ entries, ∃ held, OpensAs ext projection related entry held := by
    intro entry listed
    have small := laid.wellPlaced.data_le
      (List.mem_cons_of_mem _ (List.mem_append_right _ (List.mem_map_of_mem listed)))
    rw [← laid.filePos] at small
    obtain ⟨left, opens, same⟩ := (entered entry listed).opensAs (small.trans (Nat.le_of_lt within))
      fun op pending encodes rule => decodes op pending entry.records entry.chunk encodes rule
        (ledgerRecords_part listed) (small.trans (Nat.le_of_lt within))
    exact ⟨{ chunk := entry.chunk, records := left }, rfl, opens, same⟩
  obtain ⟨held, all⟩ := forall₂_exists each
  have chunks : (head.map Chunk.bare ++ held).map HeldChunk.chunk =
      head ++ entries.map LedgerEntry.chunk := by
    rw [List.map_append, List.map_map, opensAs_chunks all]
    exact congrArg (· ++ _) (List.map_id head)
  refine ⟨head.map Chunk.bare ++ held, chunks, ⟨?_, ?_, ?_⟩, ?_⟩
  · rw [chunks]
    exact laid.bytes
  · rw [chunks]
    exact file
  · intro chunk member
    rcases List.mem_append.mp member with early | late
    · obtain ⟨plain, listed, rfl⟩ := List.mem_map.mp early
      exact (file.made plain (List.mem_append_left _ listed)).opens_special
        (opens plain listed).special (opens plain listed).numRecords projection
    · obtain ⟨_, _, made⟩ := forall₂_left all late
      exact made.opens
  · have split : heldRecords (head.map Chunk.bare ++ held) = heldRecords held := by
      rw [heldRecords, List.flatMap_append]
      exact congrArg (· ++ _) (heldRecords_bare head)
    rw [split]
    exact opensAs_records all

/-- Such a file holds what the records handed over are read as, in order, when the
chunks that the writer made of them do. -/
theorem synced_opensAs (opened : Opened ext options self) {ops : List WriterOp}
    (words : HandsWords options ops) (returns : CallsReturn ext self ops) {after : RecordWriter}
    (synced : Synced ext self ops after) (within : after.filePos < u64Max)
    {projection : Option FieldProjection} {related : Bytes → Bytes → Prop}
    (decodes : ∀ op pending records chunk, EncodesRecords ext self.freshEncoder records chunk →
      DataChunkRule (cappedChunkSize options) pending op records →
      records <:+: writtenRecords ops → chunk.data.length ≤ u64Max →
      ∃ left, Opens ext projection chunk left ∧ List.Forall₂ related records left) :
    ∃ held, HoldsRecords ext projection after.sink.bytes held ∧
      List.Forall₂ related (writtenRecords ops) (heldRecords held) := by
  obtain ⟨head, entries, opens, entered, laid, records⟩ :=
    synced_entries opened words returns synced within
  rw [← records] at decodes ⊢
  obtain ⟨held, _, holds⟩ := laid.opensAs words opens entered within decodes
  exact ⟨held, holds⟩

/-- It holds the records handed over when the chunks open to them. -/
theorem synced_opens (opened : Opened ext options self) {ops : List WriterOp}
    (words : HandsWords options ops) (returns : CallsReturn ext self ops) {after : RecordWriter}
    (synced : Synced ext self ops after) (within : after.filePos < u64Max)
    {projection : Option FieldProjection}
    (decodes : ∀ op pending records chunk, EncodesRecords ext self.freshEncoder records chunk →
      DataChunkRule (cappedChunkSize options) pending op records →
      records <:+: writtenRecords ops → chunk.data.length ≤ u64Max →
      Opens ext projection chunk records) :
    ∃ held, HoldsRecords ext projection after.sink.bytes held ∧
      heldRecords held = writtenRecords ops := by
  obtain ⟨held, holds, same⟩ := @synced_opensAs _ _ _ opened ops words returns _ synced within
    projection Eq fun op pending records chunk encodes rule part fits =>
      ⟨records, decodes op pending records chunk encodes rule part fits,
        List.forall₂_same.mpr fun _ _ => rfl⟩
  rw [List.forall₂_eq_eq_eq] at same
  exact ⟨held, holds, same.symm⟩

/-- Right after a flush or a close that succeeded the file holds the records
handed over, in order. -/
theorem synced_holds (opened : Opened ext options self) {ops : List WriterOp}
    (words : HandsWords options ops) (returns : CallsReturn ext self ops) {after : RecordWriter}
    (synced : Synced ext self ops after) (within : after.filePos < u64Max)
    {projection : Option FieldProjection}
    (decodes : DecodesChunks ext projection options self.freshEncoder) :
    ∃ held, HoldsRecords ext projection after.sink.bytes held ∧
      heldRecords held = writtenRecords ops :=
  synced_opens opened words returns synced within fun op pending records chunk encodes rule _ =>
    decodes op pending records chunk encodes rule

end Riegeli
