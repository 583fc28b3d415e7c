/-
Module: Riegeli.Proofs.ReaderWalks
Purpose: Anywhere in a walk over a complete file the reader is between two of
  its records, steps back one by one, and returns positions that lead back.
Trusted boundary: the hash and the codecs
Main exports: Settled, Walks.settled, steps_back, Tracked, Walks.tracked,
  checkpoints
-/
import Riegeli.Proofs.BackwardSteps
import Riegeli.Proofs.ProjectedAccess
import Riegeli.Spec.ReaderWalks

namespace Riegeli

open RecordReader

variable {ext : Externals} {projection : Option FieldProjection} {source : Bytes}
  {file : List HeldChunk} {reader opened : RecordReader} {before : Nat}
  {positions : List RecordPosition}
  {allowed : List RecordPosition → RecordReader → ReaderOp → Prop}

/-! ## What is left to read -/

/-- The reads that are left return the records behind the reader's place. -/
theorem ReaderAt.remaining (chunks : FileChunks ext projection source file)
    (facing : Facing source projection reader) (stands : ReaderAt file reader before) :
    Remaining ext reader ((heldRecords file).drop before) := by
  intro count
  induction count generalizing reader before with
  | zero => rfl
  | succ count ih =>
      have reads := readRecord_at chunks facing stands
      have next := @readRecord_stays ext _ facingFrame_repositions reader facing
      have left : ((heldRecords file).drop before).tail =
          (heldRecords file).drop (min (before + 1) (heldRecords file).length) := by
        rw [List.tail_drop]
        rcases Nat.le_total (before + 1) (heldRecords file).length with more | past
        · rw [Nat.min_eq_left more]
        · rw [Nat.min_eq_right past, List.drop_length, List.drop_eq_nil_of_le past]
      rw [readsOf_succ, List.map_cons, List.replicate_succ, observe, reads.result, left,
        ← ih next reads.stands, List.getElem?_drop, Nat.add_zero]
      rfl

/-! ## The invariant of a walk -/

/-- The reader faces the file between two records, and its positions lead to
records. -/
structure Settled (source : Bytes) (projection : Option FieldProjection) (file : List HeldChunk)
    (reader : RecordReader) (before : Nat) : Prop where
  facing : Facing source projection reader
  stands : ReaderAt file reader before
  marked : Marked file reader

/-- Operations that only look at the file leave a reader where it is. -/
def settledFrame (source : Bytes) (projection : Option FieldProjection) (file : List HeldChunk)
    (before : Nat) : Frame RecordReader where
  rel first second :=
    Settled source projection file first before → Settled source projection file second before
  refl _ := id
  trans first second := second ∘ first

/-- What a place depends on. -/
theorem ReaderAt.congr {other : RecordReader} (stands : ReaderAt file reader before)
    (decoder : other.currentDecoder = reader.currentDecoder)
    (begun : other.currentChunkBegin = reader.currentChunkBegin)
    (next : other.nextChunkFilePos = reader.nextChunkFilePos)
    (index : other.currentRecordIndex = reader.currentRecordIndex) : ReaderAt file other before := by
  cases stands with
  | between split drained place steps =>
      refine .between split (decoder.trans drained) (next.trans place) ?_
      rw [begun, index]
      exact steps
  | @inside earlier later chunk open_ split current place stop within yields =>
      rw [← index] at within yields ⊢
      exact .inside split (decoder.trans current) (begun.trans place) (next.trans stop) within yields

theorem settledFrame_inspects : Inspects (settledFrame source projection file before) where
  trusted _ _ settled :=
    ⟨⟨settled.facing.known, settled.facing.source, settled.facing.fieldProjection⟩,
      settled.stands.congr rfl rfl rfl rfl, ⟨settled.marked.pos, settled.marked.lastPos⟩⟩
  measured _ settled :=
    ⟨⟨rfl, settled.facing.source, settled.facing.fieldProjection⟩,
      settled.stands.congr rfl rfl rfl rfl, ⟨settled.marked.pos, settled.marked.lastPos⟩⟩
  reported _ _ _ settled :=
    ⟨⟨settled.facing.known, settled.facing.source, settled.facing.fieldProjection⟩,
      settled.stands.congr rfl rfl rfl rfl, ⟨settled.marked.pos, settled.marked.lastPos⟩⟩

/-- A seek settles the reader where it leads. -/
theorem SeeksTo.settled {outcome : Except Fault Unit × RecordReader} (marked : Marked file reader)
    (seeks : SeeksTo file reader before outcome) (facing : Facing source projection outcome.2) :
    Settled source projection file outcome.2 before :=
  ⟨facing, seeks.stands, ⟨before, seeks.points⟩, by rw [seeks.lastPos]; exact marked.lastPos⟩

theorem readRecord_settled (chunks : FileChunks ext projection source file)
    (settled : Settled source projection file reader before) :
    Settled source projection file (readRecord ext reader).2
      (min (before + 1) (heldRecords file).length) := by
  have reads := readRecord_at chunks settled.facing settled.stands
  refine ⟨@readRecord_stays ext _ facingFrame_repositions reader settled.facing, reads.stands, ?_⟩
  by_cases more : before < (heldRecords file).length
  · obtain ⟨names, points, _⟩ := reads.record more
    exact ⟨⟨_, points⟩, _, names.stepsTo.points chunks⟩
  · obtain ⟨lastPos, pos⟩ := reads.ended (Nat.le_of_not_lt more)
    refine ⟨?_, by rw [lastPos]; exact settled.marked.lastPos⟩
    rcases pos with same | points
    · rw [same]
      exact settled.marked.pos
    · exact ⟨_, points⟩

theorem seekBack_settled (chunks : FileChunks ext projection source file)
    (settled : Settled source projection file reader before) :
    Settled source projection file (seekBack ext reader).2 (before - 1) := by
  have steps := seekBack_at chunks settled.facing settled.stands
  refine ⟨@seekBack_stays ext _ facingFrame_repositions reader settled.facing, steps.stands, ?_, ?_⟩
  · rcases steps.pos with ⟨_, points⟩ | ⟨_, same⟩
    · exact ⟨_, points⟩
    · rw [same]
      exact settled.marked.pos
  · rw [steps.lastPos]
    exact settled.marked.lastPos

/-- Every operation of a walk settles the reader between two records. -/
theorem Walkable.settled (chunks : FileChunks ext projection source file) {op : ReaderOp}
    (settled : Settled source projection file reader before) (walkable : Walkable positions reader op)
    (lead : ∀ position ∈ positions, ∃ index, Points file position index) :
    ∃ place, Settled source projection file (op.after ext reader) place := by
  cases op with
  | readRecord => exact ⟨_, readRecord_settled chunks settled⟩
  | seek target =>
      obtain ⟨index, points⟩ := lead target walkable
      exact ⟨index, (seek_at chunks settled.facing points).settled settled.marked
        (seek_stays facingFrame_repositions target reader settled.facing)⟩
  | seekNumeric numeric =>
      obtain ⟨place, _, seeks⟩ := seekNumeric_at chunks settled.facing numeric
      exact ⟨place, seeks.settled settled.marked
        (seekNumeric_stays facingFrame_repositions numeric reader settled.facing)⟩
  | seekBack => exact ⟨_, seekBack_settled chunks settled⟩
  | search test =>
      obtain ⟨entries, _, _, searched⟩ := search_at chunks settled.facing test
      exact ⟨_, searched.kept.facing, searched.stands, searched.kept.marked settled.marked⟩
  | size => exact ⟨before, size_stays settledFrame_inspects reader settled⟩
  | checkFileFormat => exact ⟨before, checkFileFormat_stays settledFrame_inspects reader settled⟩
  | readSerializedMetadata =>
      exact ⟨before, readSerializedMetadata_stays settledFrame_inspects reader settled⟩
  | setFieldProjection projection => exact absurd walkable id

/-- Anywhere in a walk the reader is between two records, and all positions it
has returned lead to records. -/
theorem Walks.settled (chunks : FileChunks ext projection source file)
    (start : Settled source projection file opened 0)
    (walkable : ∀ {positions : List RecordPosition} {reader : RecordReader} {op : ReaderOp},
      Walks ext allowed opened reader positions → allowed positions reader op →
        Walkable positions reader op)
    (walks : Walks ext allowed opened reader positions) :
    (∃ before, Settled source projection file reader before) ∧
      ∀ position ∈ positions, ∃ index, Points file position index := by
  have ends : ∀ {reader : RecordReader} {before : Nat}, Settled source projection file reader before →
      ∀ position ∈ [reader.pos, reader.lastPos], ∃ index, Points file position index := by
    intro reader before settled
    exact List.forall_mem_cons.mpr ⟨settled.marked.pos,
      List.forall_mem_cons.mpr ⟨settled.marked.lastPos, fun _ member => absurd member List.not_mem_nil⟩⟩
  induction walks with
  | opened => exact ⟨⟨0, start⟩, ends start⟩
  | step walks taken ih =>
      obtain ⟨⟨before, settled⟩, lead⟩ := ih
      obtain ⟨place, after⟩ := (walkable walks taken).settled chunks settled lead
      exact ⟨⟨place, after⟩, List.forall_mem_append.mpr ⟨lead, ends after⟩⟩

/-! ## Stepping back -/

theorem seekBacks_settled (chunks : FileChunks ext projection source file) (steps : Nat) :
    ∀ {reader : RecordReader} {before : Nat}, Settled source projection file reader before →
      Settled source projection file (runReader ext (List.replicate steps .seekBack) reader)
        (before - steps) := by
  induction steps with
  | zero => exact fun settled => settled
  | succ steps ih =>
      intro reader before settled
      have further := ih (seekBack_settled chunks settled)
      rw [Nat.sub_sub, Nat.add_comm 1] at further
      exact further

/-- A file is opened in front of its first record, with positions that lead
there. -/
theorem HoldsRecords.settled {held : List HeldChunk} {options : ReaderOptions}
    (holds : HoldsRecords ext options.fieldProjection source held)
    (isNew : RecordReader.new ext source options = .ok opened) :
    Settled source options.fieldProjection ((signatureChunk ext).bare :: held) opened 0 ∧
      Points ((signatureChunk ext).bare :: held) opened.pos 0 := by
  obtain ⟨facing, stands⟩ := holds.opened_at isNew
  rw [holds.source_eq, holds.whole.opened options] at isNew
  obtain rfl := Except.ok.inj isNew
  have start : Points ((signatureChunk ext).bare :: held) { chunkBegin := 0, recordIndex := 0 } 0 := by
    refine ⟨[], _, (List.nil_append _).symm, by decide, ?_⟩
    rw [Nat.zero_min]
    rfl
  exact ⟨⟨facing, stands, ⟨0, start⟩, 0, start⟩, start⟩

/-- The records of a complete file as a reader with a projection has them, and
the state in which the file is opened. -/
theorem CompleteFile.settledUnder (lawful : ext.Lawful) {written : WriterOptions}
    {ops : List WriterOp} {writer flushed : RecordWriter}
    (complete : CompleteFile ext written ops source writer flushed) {options : ReaderOptions}
    (fit : PathsFit options.fieldProjection)
    (isNew : RecordReader.new ext source options = .ok opened) :
    ∃ file, FileChunks ext options.fieldProjection source file ∧
      List.Forall₂ (ReadsAs written options.fieldProjection) (writtenRecords ops)
        (heldRecords file) ∧
      Settled source options.fieldProjection file opened 0 ∧ Points file opened.pos 0 := by
  obtain ⟨_, under⟩ := complete.readsUnder lawful
  obtain ⟨held, _, holds, read⟩ := under _ fit
  refine ⟨_, holds.fileChunks, ?_, holds.settled isNew⟩
  rw [heldRecords_cons]
  exact read

theorem Settled.stepsBack (chunks : FileChunks ext projection source file)
    (settled : Settled source projection file reader before) :
    StepsBack ext (heldRecords file) reader before := by
  have steps := seekBack_at chunks settled.facing settled.stands
  have after := seekBack_settled chunks settled
  refine ⟨settled.stands.steps.le, settled.stands.remaining chunks settled.facing, steps.result,
    fun _ => (readRecord_at chunks after.facing after.stands).result, fun count => ?_⟩
  have there := @seekBacks_settled ext _ _ _ chunks count _ _ settled
  exact there.stands.remaining chunks there.facing

/-- Anywhere in a walk over a complete file the reader steps back over the
records before it one by one. -/
theorem steps_back (lawful : ext.Lawful) {written : WriterOptions} {ops : List WriterOp}
    {writer flushed : RecordWriter}
    (complete : CompleteFile ext written ops source writer flushed) {options : ReaderOptions}
    (fit : PathsFit options.fieldProjection)
    (isNew : RecordReader.new ext source options = .ok opened)
    (walks : Walks ext Walkable opened reader positions) :
    ∃ left before,
      List.Forall₂ (ReadsAs written options.fieldProjection) (writtenRecords ops) left ∧
        StepsBack ext left reader before := by
  obtain ⟨file, chunks, read, start, _⟩ := complete.settledUnder lawful fit isNew
  obtain ⟨⟨before, settled⟩, _⟩ := walks.settled chunks start fun _ taken => taken
  exact ⟨heldRecords file, before, read, settled.stepsBack chunks⟩

/-- The reader that has read two records, has searched in vain, has gone back to
where the file was opened and has read the first record again. -/
def wanderedReader : RecordReader :=
  runReader storingExternals
    [.readRecord, .readRecord, .search fun _ => .gt, .seek { chunkBegin := 0, recordIndex := 0 },
      .readRecord]
    (RecordReader.initial alignedFile ReaderOptions.new)

theorem wanderedReader_walks :
    ∃ positions, Walks storingExternals Walkable (RecordReader.initial alignedFile ReaderOptions.new)
      wanderedReader positions := by
  refine ⟨_, @Walks.step _ _ _ _ _ .readRecord (@Walks.step _ _ _ _ _
    (.seek { chunkBegin := 0, recordIndex := 0 }) (@Walks.step _ _ _ _ _ (.search fun _ => .gt)
      (@Walks.step _ _ _ _ _ .readRecord (@Walks.step _ _ _ _ _ .readRecord .opened trivial) trivial)
      trivial) ?_) trivial⟩
  exact List.mem_append_left _ (List.mem_append_left _ (List.mem_append_left _ (List.mem_cons_self ..)))

theorem steps_back_wandered :
    ∃ before, StepsBack storingExternals [[1, 2, 3], [4], [5, 6], [7]] wanderedReader before := by
  obtain ⟨positions, walks⟩ := wanderedReader_walks
  obtain ⟨left, before, read, steps⟩ := @steps_back storingExternals alignedFile _ _ _
    storingExternals_lawful _ _ _ _ alignedFile_complete ReaderOptions.new .unprojected
    (alignedFile_complete.opens storingExternals_lawful ReaderOptions.new) walks
  obtain rfl := readsAs_plain read
  exact ⟨before, steps⟩

/-! ## Checkpoints -/

/-- The reader faces the file between two records, and its position names the
place. -/
structure Tracked (source : Bytes) (projection : Option FieldProjection) (file : List HeldChunk)
    (reader : RecordReader) (before : Nat) : Prop where
  facing : Facing source projection reader
  stands : ReaderAt file reader before
  points : Points file reader.pos before

/-- The frame that keeps the position at the reader's place. -/
def trackedFrame (source : Bytes) (projection : Option FieldProjection) (file : List HeldChunk)
    (before : Nat) : Frame RecordReader where
  rel first second :=
    Tracked source projection file first before → Tracked source projection file second before
  refl _ := id
  trans first second := second ∘ first

theorem trackedFrame_inspects : Inspects (trackedFrame source projection file before) where
  trusted _ _ tracked :=
    ⟨⟨tracked.facing.known, tracked.facing.source, tracked.facing.fieldProjection⟩,
      tracked.stands.congr rfl rfl rfl rfl, tracked.points⟩
  measured _ tracked :=
    ⟨⟨rfl, tracked.facing.source, tracked.facing.fieldProjection⟩,
      tracked.stands.congr rfl rfl rfl rfl, tracked.points⟩
  reported _ _ _ tracked :=
    ⟨⟨tracked.facing.known, tracked.facing.source, tracked.facing.fieldProjection⟩,
      tracked.stands.congr rfl rfl rfl rfl, tracked.points⟩

theorem Settled.tracked (settled : Settled source projection file reader before)
    (points : Points file reader.pos before) : Tracked source projection file reader before :=
  ⟨settled.facing, settled.stands, points⟩

theorem SeeksTo.tracked {outcome : Except Fault Unit × RecordReader}
    (seeks : SeeksTo file reader before outcome) (facing : Facing source projection outcome.2) :
    Tracked source projection file outcome.2 before :=
  ⟨facing, seeks.stands, seeks.points⟩

theorem readRecord_tracked (chunks : FileChunks ext projection source file)
    (tracked : Tracked source projection file reader before) :
    Tracked source projection file (readRecord ext reader).2
      (min (before + 1) (heldRecords file).length) := by
  have reads := readRecord_at chunks tracked.facing tracked.stands
  refine ⟨@readRecord_stays ext _ facingFrame_repositions reader tracked.facing, reads.stands, ?_⟩
  by_cases more : before < (heldRecords file).length
  · rw [Nat.min_eq_left more]
    exact (reads.record more).2.1
  · have same : min (before + 1) (heldRecords file).length = before := by
      have within := tracked.stands.steps.le
      omega
    rw [same]
    rcases (reads.ended (Nat.le_of_not_lt more)).2 with still | there
    · exact still ▸ tracked.points
    · exact there

theorem seekBack_tracked (chunks : FileChunks ext projection source file)
    (tracked : Tracked source projection file reader before) :
    Tracked source projection file (seekBack ext reader).2 (before - 1) := by
  have steps := seekBack_at chunks tracked.facing tracked.stands
  refine ⟨@seekBack_stays ext _ facingFrame_repositions reader tracked.facing, steps.stands, ?_⟩
  rcases steps.pos with ⟨_, there⟩ | ⟨none, still⟩
  · exact there
  · have points := tracked.points
    rw [none] at points ⊢
    exact still ▸ points

/-- Where a search that keeps to the condition leaves the reader: at a record, or
at the end of a file without records. -/
theorem search_tracked (chunks : FileChunks ext projection source file)
    (facing : Facing source projection reader) {test : Bytes → Ordering}
    (keeps : KeepsPlace ext (heldRecords file) reader (.search test)) :
    (∃ place, Tracked source projection file (search ext test reader).2 place) ∨
      (heldRecords file = [] ∧ LeadsTo ext reader none ∧
        (search ext test reader).2.pos = reader.pos ∧
        ReaderAt file (search ext test reader).2 0 ∧
        (search ext test reader).2.currentDecoder = none ∧
        (search ext test reader).2.nextChunkFilePos = chunkPlace file) := by
  obtain ⟨entries, lists, collected, searched⟩ := search_at chunks facing test
  obtain ⟨listed, same, keeps⟩ := keeps test rfl
  obtain rfl : entries = listed := Except.ok.inj (collected.symm.trans same)
  have facing' := searched.kept.facing
  have stands := searched.stands
  have total := lists.total
  rw [Nat.zero_add] at total
  cases found : bisectGroups (comparisonAt test (heldRecords file)) (entries.map Prod.snd) with
  | some index =>
      rw [found] at stands
      exact .inl ⟨index, facing', stands, searched.points index found⟩
  | none =>
      obtain ⟨rests, drained, next⟩ := searched.missed found
      rw [found] at stands keeps
      rcases keeps with impossible | last | ⟨none, leads⟩
      · cases impossible
      · rw [last] at rests
        have points : Points file (search ext test reader).2.pos ((heldRecords file).length - 1 + 1) :=
          rests
        have some := points.le
        rw [show (heldRecords file).length - 1 + 1 = (heldRecords file).length by omega] at points
        exact .inl ⟨_, facing', stands, points⟩
      · have unlisted : entries = [] := by
          cases entries with
          | nil => rfl
          | cons entry rest =>
              have more := lists.positive entry.2 (List.mem_cons_self ..)
              rw [none, List.length_nil, List.map_cons, List.sum_cons] at total
              omega
        rw [unlisted] at rests
        rw [none] at stands
        exact .inr ⟨none, leads, rests, stands, drained, next⟩

/-- Every operation of a walk that keeps to the condition leaves the position at
the reader's place. -/
theorem Walkable.tracked (chunks : FileChunks ext projection source file) {op : ReaderOp}
    (tracked : Tracked source projection file reader before) (walkable : Walkable positions reader op)
    (keeps : KeepsPlace ext (heldRecords file) reader op)
    (lead : ∀ position ∈ positions, ∃ index, Points file position index) :
    ∃ place, Tracked source projection file (op.after ext reader) place := by
  have looks : ∀ {op : ReaderOp}, op.Inspection →
      ∃ place, Tracked source projection file (op.after ext reader) place := by
    intro op inspection
    exact ⟨before, inspection.after_stays trackedFrame_inspects reader tracked⟩
  cases op with
  | readRecord => exact ⟨_, readRecord_tracked chunks tracked⟩
  | seek target =>
      obtain ⟨index, there⟩ := lead target walkable
      exact ⟨index, (seek_at chunks tracked.facing there).tracked
        (seek_stays facingFrame_repositions target reader tracked.facing)⟩
  | seekNumeric numeric =>
      obtain ⟨place, _, seeks⟩ := seekNumeric_at chunks tracked.facing numeric
      exact ⟨place, seeks.tracked
        (seekNumeric_stays facingFrame_repositions numeric reader tracked.facing)⟩
  | seekBack => exact ⟨_, seekBack_tracked chunks tracked⟩
  | search test =>
      rcases search_tracked chunks tracked.facing keeps with found | ⟨none, _, still, stands, _⟩
      · exact found
      · have short := tracked.points.le
        have points := tracked.points
        rw [none, List.length_nil, Nat.le_zero] at short
        rw [short] at points
        exact ⟨0, search_stays facingFrame_repositions test reader tracked.facing, stands,
          still ▸ points⟩
  | size => exact looks trivial
  | checkFileFormat => exact looks trivial
  | readSerializedMetadata => exact looks trivial
  | setFieldProjection projection => exact absurd walkable id

/-- Anywhere in a walk that keeps to the condition, the position names the
reader's place. -/
theorem Walks.tracked (chunks : FileChunks ext projection source file)
    (start : Settled source projection file opened 0) (points : Points file opened.pos 0)
    (walkable : ∀ {positions : List RecordPosition} {reader : RecordReader} {op : ReaderOp},
      Walks ext allowed opened reader positions → allowed positions reader op →
        Walkable positions reader op)
    (keeps : ∀ {positions : List RecordPosition} {reader : RecordReader} {op : ReaderOp},
      allowed positions reader op → KeepsPlace ext (heldRecords file) reader op)
    (walks : Walks ext allowed opened reader positions) :
    ∃ before, Tracked source projection file reader before := by
  induction walks with
  | opened => exact ⟨0, start.tracked points⟩
  | step walks taken ih =>
      obtain ⟨before, tracked⟩ := ih
      exact (walkable walks taken).tracked chunks tracked (keeps taken)
        (walks.settled chunks start walkable).2

end Riegeli
