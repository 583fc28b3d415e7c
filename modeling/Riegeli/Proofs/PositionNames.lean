/-
Module: Riegeli.Proofs.PositionNames
Purpose: Wherever operations that succeed have led a reader of a complete file,
  its position names where it reads on, unless a search has left it at a record.
Trusted boundary: the hash, the codecs and the sink
Main exports: OnPlace, Wanders.onPlace, position_names, position_unnamed
-/
import Riegeli.Proofs.AnchoredReaders
import Riegeli.Proofs.ReaderWalks

namespace Riegeli

open RecordReader

variable {ext : Externals} {projection : Option FieldProjection} {source : Bytes}
  {file : List HeldChunk} {reader opened : RecordReader} {before : Nat}
  {positions : List RecordPosition}

/-! ## Places -/

/-- The position names the reader's place: among the records of the file, or
among whatever a seek has come to. -/
inductive OnPlace (ext : Externals) (source : Bytes) (projection : Option FieldProjection)
    (file : List HeldChunk) (reader : RecordReader) : Prop where
  | tracked {before : Nat} : Tracked source projection file reader before →
      OnPlace ext source projection file reader
  | anchored : Facing source projection reader → Anchored ext reader →
      OnPlace ext source projection file reader

theorem OnPlace.facing (place : OnPlace ext source projection file reader) :
    Facing source projection reader := by
  cases place with
  | tracked tracked => exact tracked.facing
  | anchored facing _ => exact facing

/-- A tracked position leads to the record that is next. -/
theorem Tracked.leadsTo (chunks : FileChunks ext projection source file)
    (tracked : Tracked source projection file reader before) :
    LeadsTo ext reader (heldRecords file)[before]? := by
  have seeks := seek_at chunks tracked.facing tracked.points
  exact ⟨seeks.result,
    (readRecord_at chunks (seek_stays facingFrame_repositions reader.pos reader tracked.facing)
      seeks.stands).result⟩

theorem Tracked.names (chunks : FileChunks ext projection source file)
    (tracked : Tracked source projection file reader before) : NamesPlace ext reader := by
  intro record read
  have next := (readRecord_at chunks tracked.facing tracked.stands).result
  obtain rfl : (heldRecords file)[before]? = record := Except.ok.inj (next.symm.trans read)
  exact tracked.leadsTo chunks

theorem OnPlace.names (chunks : FileChunks ext projection source file)
    (unwavering : Unwavering reader.recovery) (place : OnPlace ext source projection file reader) :
    NamesPlace ext reader := by
  cases place with
  | tracked tracked => exact tracked.names chunks
  | anchored facing anchored =>
      exact anchored.names facing.known unwavering (by rw [facing.source]; exact chunks.addressable)

/-! ## Steps -/

/-- A search that keeps to the condition leaves the position at the reader's
place. -/
theorem search_onPlace (chunks : FileChunks ext projection source file)
    (unwavering : Unwavering reader.recovery) (place : OnPlace ext source projection file reader)
    {test : Bytes → Ordering} (keeps : KeepsPlace ext (heldRecords file) reader (.search test)) :
    OnPlace ext source projection file (search ext test reader).2 := by
  have facing := place.facing
  have facing' := @search_stays ext _ facingFrame_repositions test reader facing
  rcases search_tracked chunks facing keeps with
    ⟨index, tracked⟩ | ⟨none, leads, still, _, drained, next⟩
  · exact .tracked tracked
  · have beside := @search_stays ext _ besideFrame_repositions test reader facing.known
    refine .anchored facing' (.ended drained ?_ (beside.leadsTo unwavering
      (by rw [facing.source]; exact chunks.addressable) still leads))
    rw [facing'.source, facing'.fieldProjection, next]
    exact chunks.found_end

/-- Every operation that succeeds and keeps to the condition leaves the position
at the reader's place. -/
theorem Wanders.onPlace (chunks : FileChunks ext projection source file) {op : ReaderOp}
    (unwavering : Unwavering reader.recovery) (place : OnPlace ext source projection file reader)
    (wanders : Wanders ext positions reader op) (keeps : KeepsPlace ext (heldRecords file) reader op) :
    OnPlace ext source projection file (op.after ext reader) := by
  have facing := place.facing
  have known := facing.known
  have addressable : reader.source.length ≤ u64Max := by
    rw [facing.source]
    exact chunks.addressable
  have whole : isPossibleChunkBoundary reader.source.length = true := by
    rw [facing.source, chunks.length]
    exact chunks.possible (List.append_nil file).symm
  have looks : ∀ {op : ReaderOp}, op.Inspection →
      OnPlace ext source projection file (op.after ext reader) := by
    intro op inspection
    cases place with
    | tracked tracked =>
        exact .tracked (inspection.after_stays trackedFrame_inspects reader tracked)
    | anchored facing anchored =>
        have same := @ReaderOp.Inspection.after_stays ext _ _ inspection samePlaceFrame_inspects
          reader known
        exact .anchored ⟨same.knownSecond, same.source.trans facing.source,
          same.fieldProjection.trans facing.fieldProjection⟩
          (anchored.samePlace same unwavering addressable)
  obtain ⟨succeeds, kept, _⟩ := wanders
  cases op with
  | readRecord =>
      obtain ⟨record, read⟩ := succeeds
      cases place with
      | tracked tracked => exact .tracked (readRecord_tracked chunks tracked)
      | anchored facing anchored =>
          exact .anchored (@readRecord_stays ext _ facingFrame_repositions reader facing)
            (readRecord_anchors known unwavering addressable anchored (Prod.ext read rfl))
  | seek target =>
      exact .anchored (@seek_stays ext _ facingFrame_repositions target reader facing)
        (seek_anchors known addressable whole (Prod.ext succeeds rfl))
  | seekNumeric numeric =>
      obtain ⟨_, _, seeks⟩ := seekNumeric_at chunks facing numeric
      exact .tracked (seeks.tracked
        (@seekNumeric_stays ext _ facingFrame_repositions numeric reader facing))
  | seekBack =>
      obtain ⟨stepped, ran⟩ := succeeds
      cases place with
      | tracked tracked => exact .tracked (seekBack_tracked chunks tracked)
      | anchored facing anchored =>
          exact .anchored (@seekBack_stays ext _ facingFrame_repositions reader facing)
            (seekBack_anchors known unwavering addressable whole anchored (Prod.ext ran rfl))
  | search test => exact search_onPlace chunks unwavering place keeps
  | size => exact looks trivial
  | checkFileFormat => exact looks trivial
  | readSerializedMetadata => exact looks trivial
  | setFieldProjection projection => exact absurd rfl (kept projection)

/-! ## Walks -/

/-- A walk keeps the recovery callback. -/
theorem Walks.recovery {allowed : List RecordPosition → RecordReader → ReaderOp → Prop}
    (walks : Walks ext allowed opened reader positions) : reader.recovery = opened.recovery := by
  induction walks with
  | opened => rfl
  | @step reader _ op _ _ ih => exact (op.after_stays reader).2.1.trans ih

theorem Walks.onPlace (chunks : FileChunks ext projection source file)
    (unwavering : Unwavering opened.recovery) (start : OnPlace ext source projection file opened)
    (walks : Walks ext (Namable ext (heldRecords file)) opened reader positions) :
    OnPlace ext source projection file reader := by
  induction walks with
  | opened => exact start
  | step walks taken ih =>
      exact taken.1.onPlace chunks (by rw [walks.recovery]; exact unwavering) ih taken.2

/-! ## The condition on searches -/

theorem Beside.symm {first second : RecordReader} (beside : Beside first second) :
    Beside second first :=
  ⟨beside.knownSecond, beside.known, beside.source.symm, beside.recovery.symm,
    beside.fieldProjection.symm⟩

/-- A seek to the position leads to one record only. -/
theorem LeadsTo.unique {first second : Option Bytes} (leads : LeadsTo ext reader first)
    (other : LeadsTo ext reader second) : second = first :=
  Except.ok.inj (other.2.symm.trans leads.2)

/-- A search behind which the position names the reader's place keeps to the
condition. -/
theorem search_keepsPlace (chunks : FileChunks ext projection source file)
    (facing : Facing source projection reader) {test : Bytes → Ordering}
    (names : NamesPlace ext (search ext test reader).2)
    (back : (search ext test reader).2.pos = reader.pos → heldRecords file = [] →
      LeadsTo ext (search ext test reader).2 none → LeadsTo ext reader none) :
    KeepsPlace ext (heldRecords file) reader (.search test) := by
  obtain ⟨entries, lists, collected, searched⟩ := search_at chunks facing test
  have total := lists.total
  have stands := searched.stands
  rw [Nat.zero_add] at total
  intro other same
  cases same
  refine ⟨entries, collected, ?_⟩
  cases found : bisectGroups (comparisonAt test (heldRecords file)) (entries.map Prod.snd) with
  | some index => exact .inl rfl
  | none =>
      right
      obtain ⟨rests, _⟩ := searched.missed found
      rw [found] at stands
      have read := (readRecord_at chunks searched.kept.facing stands).result
      rw [Option.getD_none, List.getElem?_eq_none (Nat.le_refl _)] at read
      have leads := names none read
      cases last : lastProbe (comparisonAt test (heldRecords file)) (entries.map Prod.snd) with
      | some index =>
          rw [last] at rests
          have points : Points file (search ext test reader).2.pos (index + 1) := rests
          have short := points.le
          have seeks := seek_at chunks searched.kept.facing points
          have here : LeadsTo ext (search ext test reader).2 (heldRecords file)[index + 1]? :=
            ⟨seeks.result, (readRecord_at chunks (seek_stays facingFrame_repositions _ _
              searched.kept.facing) seeks.stands).result⟩
          have past := List.getElem?_eq_none_iff.mp (leads.unique here)
          exact .inl (congrArg some (by omega))
      | none =>
          rw [last] at rests
          have unlisted : entries.map Prod.snd = [] := by
            by_contra listed
            have probed := @lastProbe_isSome (comparisonAt test (heldRecords file)) _ listed
            rw [last] at probed
            cases probed
          rw [unlisted, List.sum_nil] at total
          have none := List.length_eq_zero_iff.mp total.symm
          exact .inr ⟨none, back rests none leads⟩

/-! ## Complete files -/

/-- Wherever operations that succeed lead a reader of a complete file, its
position names where it reads on, as long as no search leaves the position at a
record while it parks the reader at the end.  A search does so exactly when it
finds nothing and the last record that it compares is not the last of all. -/
theorem position_names (lawful : ext.Lawful) {written : WriterOptions} {ops : List WriterOp}
    {writer flushed : RecordWriter}
    (complete : CompleteFile ext written ops source writer flushed) {options : ReaderOptions}
    (fit : PathsFit options.fieldProjection)
    (isNew : RecordReader.new ext source options = .ok opened) :
    ∃ left, List.Forall₂ (ReadsAs written options.fieldProjection) (writtenRecords ops) left ∧
      ∀ reader positions, Walks ext (Namable ext left) opened reader positions →
        NamesPlace ext reader ∧
          ∀ test, KeepsPlace ext left reader (.search test) ↔
            NamesPlace ext (search ext test reader).2 := by
  obtain ⟨file, chunks, read, start, points⟩ := complete.settledUnder lawful fit isNew
  refine ⟨heldRecords file, read, fun reader positions walks => ?_⟩
  by_cases unwavering : Unwavering opened.recovery
  · have confident : Unwavering reader.recovery := by
      rw [walks.recovery]
      exact unwavering
    have place := walks.onPlace chunks unwavering (.tracked (start.tracked points))
    refine ⟨place.names chunks confident, fun test => ⟨fun keeps => ?_, fun names => ?_⟩⟩
    · have after := search_onPlace chunks confident place keeps
      have kept : (search ext test reader).2.recovery = reader.recovery :=
        (@ReaderOp.after_stays ext (.search test) reader).2.1
      refine after.names chunks ?_
      rw [kept]
      exact confident
    · have beside := @search_stays ext _ besideFrame_repositions test reader place.facing.known
      refine search_keepsPlace chunks place.facing names fun still _ leads => ?_
      exact beside.symm.leadsTo (by rw [beside.recovery]; exact confident)
        (by rw [beside.source, place.facing.source]; exact chunks.addressable) still.symm leads
  · have walkable : ∀ {positions : List RecordPosition} {reader : RecordReader} {op : ReaderOp},
        Walks ext (Namable ext (heldRecords file)) opened reader positions →
          Namable ext (heldRecords file) positions reader op → Walkable positions reader op := by
      intro positions reader op walks taken
      rcases taken.1.2.2 with confident | walkable
      · rw [walks.recovery] at confident
        exact absurd confident unwavering
      · exact walkable
    obtain ⟨before, tracked⟩ := walks.tracked chunks start points walkable fun taken => taken.2
    refine ⟨tracked.names chunks, fun test => ⟨fun keeps => ?_, fun names => ?_⟩⟩
    · obtain ⟨place, after⟩ := @Walkable.tracked ext _ _ _ _ _ _ chunks (.search test) tracked trivial
        keeps (walks.settled chunks start walkable).2
      exact after.names chunks
    · refine search_keepsPlace chunks tracked.facing names fun _ none _ => ?_
      have leads := tracked.leadsTo chunks
      rw [none] at leads
      exact leads

/-- Options with a callback that always says to go on. -/
def recoveringOptions : ReaderOptions := { ReaderOptions.new with recovery := some fun _ => true }

/-- The reader that is opened with them on the file of three chunks. -/
def recoveringReader : RecordReader := RecordReader.initial alignedFile recoveringOptions

/-- The reader that has read a record, has searched past the last one, has stepped
back, has been sent into the middle of the second chunk and has stepped back from
the end of the region behind it. -/
def strayedReader : RecordReader :=
  runReader storingExternals
    [.readRecord, .search fun _ => .lt, .seekBack, .seek { chunkBegin := 130, recordIndex := 7 },
      .seekBack]
    recoveringReader

theorem position_names_strayed : NamesPlace storingExternals strayedReader := by
  obtain ⟨left, read, names⟩ := @position_names storingExternals alignedFile _
    storingExternals_lawful _ _ _ _ alignedFile_complete recoveringOptions .unprojected
    (alignedFile_complete.opens storingExternals_lawful _)
  obtain rfl := readsAs_plain read
  have recovers : ∀ {reader : RecordReader}, reader.recovery = some (fun _ => true) →
      ∀ callback, reader.recovery = some callback → ∀ regions, callback regions = true := by
    intro reader given callback same regions
    cases given.symm.trans same
    rfl
  have other : ∀ {reader : RecordReader} {op : ReaderOp}, (∀ test, op ≠ .search test) →
      KeepsPlace storingExternals (writtenRecords alignedOps) reader op :=
    fun different test same => absurd same (different test)
  have read := @Walks.step storingExternals _ _ _ _ .readRecord
    (@Walks.opened _ (Namable storingExternals (writtenRecords alignedOps)) recoveringReader)
    ⟨⟨⟨some [1, 2, 3], by decide +kernel⟩, by simp, .inr trivial⟩, other (by simp)⟩
  have searched := @Walks.step _ _ _ _ _ (.search fun _ => .lt) read
    ⟨⟨⟨false, by decide +kernel⟩, by simp, .inr trivial⟩, fun test same =>
      ⟨[(64, 2), (112, 1), (200, 1)], by cases same; decide +kernel,
        by cases same; exact .inr (.inl (by decide))⟩⟩
  have stepped := @Walks.step _ _ _ _ _ .seekBack searched
    ⟨⟨⟨true, by decide +kernel⟩, by simp, .inr trivial⟩, other (by simp)⟩
  have strayed := @Walks.step _ _ _ _ _ (.seek { chunkBegin := 130, recordIndex := 7 }) stepped
    ⟨⟨by unfold ReaderOp.Succeeds; decide +kernel, by simp, .inl (recovers stepped.recovery)⟩,
      other (by simp)⟩
  exact (names _ _ (@Walks.step _ _ _ _ _ .seekBack strayed
    ⟨⟨⟨true, by decide +kernel⟩, by simp, .inr trivial⟩, other (by simp)⟩)).1

/-- A search that finds nothing leaves the position behind the first record, with
the reader at the end. -/
theorem position_unnamed :
    ¬ ∀ reader positions, Walks storingExternals (Wanders storingExternals)
      (RecordReader.initial alignedFile ReaderOptions.new) reader positions →
        NamesPlace storingExternals reader := by
  intro named
  have walks := @Walks.step storingExternals (Wanders storingExternals) _ _ _
    (.search fun _ => .gt) (@Walks.opened _ _ (RecordReader.initial alignedFile ReaderOptions.new))
    ⟨⟨false, by decide +kernel⟩, by simp, .inr trivial⟩
  have leads := named _ _ walks none (by decide +kernel)
  have other : LeadsTo storingExternals
      ((ReaderOp.search fun _ => .gt).after storingExternals
        (RecordReader.initial alignedFile ReaderOptions.new)) (some [4]) := by
    unfold LeadsTo
    decide +kernel
  cases leads.unique other

end Riegeli
