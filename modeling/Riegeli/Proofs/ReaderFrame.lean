/-
Module: Riegeli.Proofs.ReaderFrame
Purpose: What the methods of the reader may change: the inspection calls no
  part of the cursor, and no method the source or the callback.
Trusted boundary: the hash and the codecs
Main exports: Inspects, Repositions, readRecord_stays, seek_stays,
  size_stays, ReaderOp.after_stays, runReader_keeps, Measured, ReaderReached.measured
-/
import Riegeli.Spec.ReaderRuns

namespace Riegeli

open RecordReader

variable {ext : Externals} {frame : Frame RecordReader}

/-- The frame allows what the inspection calls do. -/
structure Inspects (frame : Frame RecordReader) : Prop where
  trusted : ∀ reader trusted, frame.rel reader { reader with pendingTrustedEnd := trusted }
  measured : ∀ reader, frame.rel reader { reader with streamLen := reader.source.length }
  reported : ∀ reader region reported,
    frame.rel reader { reader with lastSkippedRegion := some region, reported := reported }

/-- The frame allows every change of the position too. -/
structure Repositions (frame : Frame RecordReader) : Prop extends Inspects frame where
  moved : ∀ before after : RecordReader, after.source = before.source →
    after.recovery = before.recovery → after.reported = before.reported →
    after.fieldProjection = before.fieldProjection → after.streamLen = before.streamLen →
    after.lastSkippedRegion = before.lastSkippedRegion → frame.rel before after

/-! ## Parts of the methods -/

theorem setTrustedEnd_stays (inspects : Inspects frame) (trusted : Option Nat) :
    Act.Stays frame (setTrustedEnd trusted) :=
  .modify fun reader => inspects.trusted reader trusted

theorem measureStream_stays (inspects : Inspects frame) : Act.Stays frame measureStream :=
  .modify fun reader => inspects.measured reader

theorem setNextChunk_stays (repositions : Repositions frame) (pos : Nat) :
    Act.Stays frame (setNextChunk pos) :=
  .modify fun reader => repositions.moved reader _ rfl rfl rfl rfl rfl rfl

theorem reportRegionAt_stays (inspects : Inspects frame) (place : Nat) (error : RiegeliError) :
    Act.Stays frame (reportRegionAt ext place error) := by
  refine .get_bind fun reader => ?_
  refine .bind (setTrustedEnd_stays inspects none) fun _ => ?_
  split
  · exact .pure _
  · refine .bind (.lift _) fun extent => ?_
    refine .bind (.modify fun state => inspects.reported state _ _) fun _ => ?_
    exact .get_bind fun state => .pure _

theorem lastRegionStop_stays : Act.Stays frame lastRegionStop := by
  refine .get_bind fun reader => ?_
  split
  · exact .pure _
  · exact .fail _

theorem tryRecoverAt_stays (repositions : Repositions frame) (place : Nat)
    (error : RiegeliError) : Act.Stays frame (tryRecoverAt ext place error) := by
  refine .bind (reportRegionAt_stays repositions.toInspects place error) fun verdict => ?_
  split
  · exact .pure _
  · refine .bind lastRegionStop_stays fun stop => ?_
    refine .bind (.modify fun state => ?_) fun _ => .pure _
    exact repositions.moved state _ rfl rfl rfl rfl rfl rfl

theorem boundClaims_stays (inspects : Inspects frame) (header : ChunkHeader)
    (chunkBegin dataBegin : Nat) :
    Act.Stays frame (boundClaims header chunkBegin dataBegin) := by
  refine .get_bind fun reader => .ite ?_ (.pure ())
  refine .bind (measureStream_stays inspects) fun _ => ?_
  exact .get_bind fun _ => .lift _

theorem readChunkHeaderAt_stays (inspects : Inspects frame) (place : Nat) :
    Act.Stays frame (readChunkHeaderAt ext place) := by
  refine .get_bind fun reader => .bind (.lift _) fun scanned => ?_
  split
  · exact .pure _
  · refine .bind (.whenever ?_) fun _ => .pure _
    exact .bind (boundClaims_stays inspects _ _ _) fun _ => .lift _

theorem peekChunkHeader_stays (inspects : Inspects frame) (place : Nat) :
    Act.Stays frame (peekChunkHeader ext place) := by
  refine .bind (readChunkHeaderAt_stays inspects place) fun read => ?_
  split
  · exact .pure _
  · exact .ite (.fail _) (.pure _)

/-! ## Reading -/

theorem enterChunk_stays (repositions : Repositions frame) (chunkBegin : Nat)
    (decoder : ActiveDecoder) : Act.Stays frame (enterChunk chunkBegin decoder) :=
  .modify fun reader => repositions.moved reader _ rfl rfl rfl rfl rfl rfl

theorem rewindOnError_stays (repositions : Repositions frame) {Value : Type} (chunkBegin : Nat)
    (check : Rust Value) : Act.Stays frame (rewindOnError chunkBegin check) := by
  refine .bind (attempt_stays (.lift _)) fun checked => ?_
  split
  · exact .pure _
  · exact .bind (setNextChunk_stays repositions _) fun _ => .fail _

theorem openChunk_stays (repositions : Repositions frame) (chunkBegin : Nat) (chunk : Chunk)
    (chunkType : ChunkType) : Act.Stays frame (openChunk ext chunkBegin chunk chunkType) := by
  unfold openChunk
  split
  · refine .bind (rewindOnError_stays repositions _ _) fun decoder => ?_
    exact .bind (enterChunk_stays repositions _ _) fun _ => .pure _
  · refine .get_bind fun reader => .bind (rewindOnError_stays repositions _ _) fun decoder => ?_
    exact .bind (enterChunk_stays repositions _ _) fun _ => .pure _
  · exact .bind (rewindOnError_stays repositions _ _) fun _ => .pure _

theorem loadChunkBody_stays (repositions : Repositions frame) (header : ChunkHeader)
    (chunkBegin dataBegin : Nat) :
    Act.Stays frame (loadChunkBody ext header chunkBegin dataBegin) := by
  refine .ite (.fail _) ?_
  refine .get_bind fun reader => .bind (.lift _) fun data => ?_
  refine .bind (setTrustedEnd_stays repositions.toInspects _) fun _ => ?_
  refine .ite (.bind (setNextChunk_stays repositions _) fun _ => .fail _) ?_
  refine .bind (setNextChunk_stays repositions _) fun _ => ?_
  split
  · exact openChunk_stays repositions _ _ _
  · exact .ite (.pure _) (.bind (setNextChunk_stays repositions _) fun _ => .fail _)

theorem loadNextLoop_stays (repositions : Repositions frame) (fuel : Nat) :
    Act.Stays frame (loadNextLoop ext fuel) := by
  induction fuel with
  | zero => exact .fail _
  | succ fuel ih =>
      refine .bind (setTrustedEnd_stays repositions.toInspects _) fun _ => ?_
      refine .get_bind fun reader => ?_
      refine .bind (readChunkHeaderAt_stays repositions.toInspects _) fun read => ?_
      split
      · exact .pure _
      · refine .bind (loadChunkBody_stays repositions _ _ _) fun ready => ?_
        exact .ite (.pure _) ih

theorem loadNextChunk_stays (repositions : Repositions frame) :
    Act.Stays frame (loadNextChunk ext) :=
  .get_bind fun _ => loadNextLoop_stays repositions _

theorem readFromDecoder_stays (repositions : Repositions frame) :
    Act.Stays frame readFromDecoder := by
  refine .get_bind fun reader => ?_
  split
  · exact .pure _
  · refine .bind (.lift _) fun read => ?_
    obtain ⟨record, decoder⟩ := read
    cases record with
    | none =>
        refine .bind (.modify fun state => ?_) fun _ => .pure _
        exact repositions.moved state _ rfl rfl rfl rfl rfl rfl
    | some record =>
        refine .bind (.modify fun state => ?_) fun _ => .pure _
        exact repositions.moved state _ rfl rfl rfl rfl rfl rfl

theorem advanceChunk_stays (repositions : Repositions frame) :
    Act.Stays frame (advanceChunk ext) := by
  refine .bind (attempt_stays (loadNextChunk_stays repositions)) fun loaded => ?_
  split
  · refine .bind (.modify fun state => ?_) fun _ => .pure _
    exact repositions.moved state _ rfl rfl rfl rfl rfl rfl
  · refine .bind (.modify fun state => ?_) fun _ => .pure _
    exact repositions.moved state _ rfl rfl rfl rfl rfl rfl
  · refine .get_bind fun reader => ?_
    refine .bind (tryRecoverAt_stays repositions _ _) fun recovered => ?_
    exact .ite (.get_bind fun _ => .pure _) (.fail _)

theorem readRecordLoop_stays (repositions : Repositions frame) (fuel : Nat) :
    Act.Stays frame (readRecordLoop ext fuel) := by
  induction fuel with
  | zero => exact .fail _
  | succ fuel ih =>
      refine .bind (readFromDecoder_stays repositions) fun record => ?_
      split
      · exact .pure _
      · exact .bind (advanceChunk_stays repositions) fun more => .ite ih (.pure _)

theorem readRecord_stays (repositions : Repositions frame) :
    Act.Stays frame (readRecord ext) :=
  .bind (setTrustedEnd_stays repositions.toInspects _) fun _ =>
    .get_bind fun _ => readRecordLoop_stays repositions _

/-! ## Seeking -/

theorem openChunkAt_stays (repositions : Repositions frame) (chunkBegin : Nat) (chunk : Chunk) :
    Act.Stays frame (openChunkAt ext chunkBegin chunk) := by
  unfold openChunkAt
  split
  · exact .bind (.lift _) fun _ => .pure _
  · exact .get_bind fun _ => .bind (.lift _) fun _ => .pure _
  · exact .bind (rewindOnError_stays repositions _ _) fun _ => .pure _
  · exact .ite (.pure _) (.bind (setNextChunk_stays repositions _) fun _ => .fail _)

theorem loadChunkAtBody_stays (repositions : Repositions frame) (header : ChunkHeader)
    (chunkBegin dataBegin : Nat) :
    Act.Stays frame (loadChunkAtBody ext header chunkBegin dataBegin) := by
  refine .ite (.fail _) ?_
  refine .get_bind fun reader => .bind (.lift _) fun data => ?_
  refine .bind (setTrustedEnd_stays repositions.toInspects _) fun _ => ?_
  refine .ite (.fail _) ?_
  refine .bind (.modify fun state => repositions.moved state _ rfl rfl rfl rfl rfl rfl) fun _ => ?_
  refine .bind (openChunkAt_stays repositions _ _) fun decoder => ?_
  exact .bind (setNextChunk_stays repositions _) fun _ => .pure _

theorem loadChunkAtLoop_stays (repositions : Repositions frame) (fuel : Nat) :
    ∀ filePos, Act.Stays frame (loadChunkAtLoop ext fuel filePos) := by
  induction fuel with
  | zero => exact fun _ => .fail _
  | succ fuel ih =>
      intro filePos
      refine .bind (setTrustedEnd_stays repositions.toInspects _) fun _ => ?_
      refine .bind (readChunkHeaderAt_stays repositions.toInspects _) fun read => ?_
      split
      · exact .pure _
      · refine .bind (loadChunkAtBody_stays repositions _ _ _) fun loaded => ?_
        obtain ⟨decoder, stop⟩ := loaded
        cases decoder with
        | none => exact ih stop
        | some decoder => exact .pure _

theorem loadChunkAt_stays (repositions : Repositions frame) (filePos : Nat) :
    Act.Stays frame (loadChunkAt ext filePos) :=
  .get_bind fun _ => loadChunkAtLoop_stays repositions _ _

theorem skipRecords_stays (repositions : Repositions frame) (left : Nat) :
    Act.Stays frame (skipRecords left) := by
  induction left with
  | zero => exact .pure _
  | succ left ih =>
      refine .get_bind fun reader => ?_
      split
      · exact .pure _
      · refine .bind (.lift _) fun read => ?_
        obtain ⟨record, decoder⟩ := read
        refine .bind (.modify fun state => repositions.moved state _ rfl rfl rfl rfl rfl rfl)
          fun _ => ?_
        cases record with
        | none => exact .pure _
        | some record =>
            refine .bind (.modify fun state => ?_) fun _ => ih
            exact repositions.moved state _ rfl rfl rfl rfl rfl rfl

theorem seekWithin_stays (repositions : Repositions frame) (chunkFilePos recordIndex : Nat)
    (decoder : ActiveDecoder) :
    Act.Stays frame (seekWithin chunkFilePos recordIndex decoder) := by
  refine .bind (.modify fun state => repositions.moved state _ rfl rfl rfl rfl rfl rfl) fun _ => ?_
  refine .get_bind fun reader => .bind (skipRecords_stays repositions _) fun _ => ?_
  exact .modify fun state => repositions.moved state _ rfl rfl rfl rfl rfl rfl

theorem seek_stays (repositions : Repositions frame) (target : RecordPosition) :
    Act.Stays frame (seek ext target) := by
  refine .bind (setTrustedEnd_stays repositions.toInspects _) fun _ => ?_
  refine .bind (.modify fun state => repositions.moved state _ rfl rfl rfl rfl rfl rfl) fun _ => ?_
  refine .bind (attempt_stays (loadChunkAt_stays repositions _)) fun loaded => ?_
  split
  · exact seekWithin_stays repositions _ _ _
  · exact .modify fun state => repositions.moved state _ rfl rfl rfl rfl rfl rfl
  · refine .get_bind fun reader => .bind (tryRecoverAt_stays repositions _ _) fun recovered => ?_
    refine .ite (.modify fun state => ?_) (.fail _)
    exact repositions.moved state _ rfl rfl rfl rfl rfl rfl

theorem resolveScanOrigin_stays (inspects : Inspects frame) (target : Nat) :
    Act.Stays frame (resolveScanOrigin ext target) := by
  refine .get_bind fun reader => ?_
  refine .bind (.whenever (measureStream_stays inspects)) fun _ => ?_
  exact .get_bind fun _ => .pure _

theorem seekNumericLoop_stays (repositions : Repositions frame) (numeric fuel : Nat) :
    ∀ scanPos, Act.Stays frame (seekNumericLoop ext numeric fuel scanPos) := by
  induction fuel with
  | zero => exact fun _ => .fail _
  | succ fuel ih =>
      intro scanPos
      refine .bind (attempt_stays (peekChunkHeader_stays repositions.toInspects _)) fun peeked => ?_
      split
      · exact .modify fun state => repositions.moved state _ rfl rfl rfl rfl rfl rfl
      · exact .ite (seek_stays repositions _) (.ite (seek_stays repositions _) (ih _))
      · refine .bind (tryRecoverAt_stays repositions _ _) fun recovered => ?_
        exact .ite (.get_bind fun _ => ih _) (.fail _)

theorem seekNumeric_stays (repositions : Repositions frame) (numeric : Nat) :
    Act.Stays frame (seekNumeric ext numeric) := by
  refine .bind (setTrustedEnd_stays repositions.toInspects _) fun _ => ?_
  refine .bind (resolveScanOrigin_stays repositions.toInspects _) fun origin => ?_
  exact .get_bind fun _ => seekNumericLoop_stays repositions _ _ _

theorem findChunkLoop_stays (inspects : Inspects frame) (target fuel : Nat) :
    ∀ scanPos, Act.Stays frame (findChunkLoop ext target fuel scanPos) := by
  induction fuel with
  | zero => exact fun _ => .fail _
  | succ fuel ih =>
      intro scanPos
      refine .bind (peekChunkHeader_stays inspects _) fun peeked => ?_
      split
      · exact .pure _
      · exact .ite (.pure _) (ih _)

theorem findChunkBefore_stays (inspects : Inspects frame) (target : Nat) :
    Act.Stays frame (findChunkBefore ext target) := by
  refine .bind (resolveScanOrigin_stays inspects _) fun origin => ?_
  exact .get_bind fun _ => findChunkLoop_stays inspects _ _ _

theorem seekBackLoop_stays (repositions : Repositions frame) (fuel : Nat) :
    ∀ chunkPos, Act.Stays frame (seekBackLoop ext fuel chunkPos) := by
  induction fuel with
  | zero => exact fun _ => .fail _
  | succ fuel ih =>
      intro chunkPos
      refine .ite ?_ (.pure _)
      refine .bind (findChunkBefore_stays repositions.toInspects _) fun found => ?_
      split
      · exact .pure _
      · refine .ite (.bind (seek_stays repositions _) fun _ => .pure _) ?_
        exact .ite (.pure _) (ih _)

theorem seekBack_stays (repositions : Repositions frame) : Act.Stays frame (seekBack ext) := by
  refine .bind (setTrustedEnd_stays repositions.toInspects _) fun _ => .get_bind fun reader => ?_
  exact .ite (.bind (seek_stays repositions _) fun _ => .pure _)
    (seekBackLoop_stays repositions _ _)

/-! ## Scans -/

theorem sizeLoop_stays (inspects : Inspects frame) (fuel : Nat) :
    ∀ scanPos total, Act.Stays frame (sizeLoop ext fuel scanPos total) := by
  induction fuel with
  | zero => exact fun _ _ => .fail _
  | succ fuel ih =>
      intro scanPos total
      refine .bind (attempt_stays (readChunkHeaderAt_stays inspects _)) fun read => ?_
      split
      · exact .pure _
      · refine .ite (ih _ _) (.bind (reportRegionAt_stays inspects _ _) fun verdict => ?_)
        exact .ite (.bind lastRegionStop_stays fun _ => ih _ _) (.fail _)
      · refine .bind (reportRegionAt_stays inspects _ _) fun verdict => ?_
        exact .ite (.bind lastRegionStop_stays fun _ => ih _ _) (.fail _)

theorem size_stays (inspects : Inspects frame) : Act.Stays frame (size ext) :=
  .bind (setTrustedEnd_stays inspects _) fun _ =>
    .get_bind fun _ => sizeLoop_stays inspects _ _ _

theorem checkFormatLoop_stays (inspects : Inspects frame) (fuel : Nat) :
    ∀ scanPos, Act.Stays frame (checkFormatLoop ext fuel scanPos) := by
  induction fuel with
  | zero => exact fun _ => .fail _
  | succ fuel ih =>
      intro scanPos
      refine .bind (readChunkHeaderAt_stays inspects _) fun read => ?_
      split
      · exact .pure _
      · refine .ite (.fail _) ?_
        exact .get_bind fun _ => .bind (.lift _) fun _ => .ite (.fail _) (ih _)

theorem checkFileFormat_stays (inspects : Inspects frame) :
    Act.Stays frame (checkFileFormat ext) := by
  refine .get_bind fun reader => .bind (.lift _) fun bytes => .ite (.fail _) ?_
  exact checkFormatLoop_stays inspects _ _

theorem readMetadataPayload_stays (inspects : Inspects frame) (metadataPos : Nat)
    (header : ChunkHeader) : Act.Stays frame (readMetadataPayload ext metadataPos header) := by
  refine .bind (.lift _) fun _ => .get_bind fun reader => .bind (.lift _) fun data => ?_
  exact .bind (setTrustedEnd_stays inspects _) fun _ => .ite (.fail _) (.lift _)

theorem reportMetadata_stays (inspects : Inspects frame) (metadataPos : Nat)
    (error : RiegeliError) : Act.Stays frame (reportMetadata ext metadataPos error) :=
  .bind (reportRegionAt_stays inspects _ _) fun _ => .ite (.pure _) (.fail _)

theorem readSerializedMetadata_stays (inspects : Inspects frame) :
    Act.Stays frame (readSerializedMetadata ext) := by
  refine .bind (setTrustedEnd_stays inspects _) fun _ => ?_
  refine .bind (attempt_stays (peekChunkHeader_stays inspects _)) fun peeked => ?_
  split
  · exact .pure _
  · exact reportMetadata_stays inspects _ _
  · refine .ite (.pure _) ?_
    refine .bind (attempt_stays (readMetadataPayload_stays inspects _ _)) fun payload => ?_
    split
    · exact .pure _
    · exact reportMetadata_stays inspects _ _

/-! ## Search -/

theorem collectLoop_stays (repositions : Repositions frame) (fuel : Nat) :
    ∀ scanPos chunks, Act.Stays frame (collectLoop ext fuel scanPos chunks) := by
  induction fuel with
  | zero => exact fun _ _ => .fail _
  | succ fuel ih =>
      intro scanPos chunks
      refine .bind (attempt_stays (readChunkHeaderAt_stays repositions.toInspects _))
        fun read => ?_
      split
      · exact .pure _
      · refine .ite (.bind (tryRecoverAt_stays repositions _ _) fun recovered => ?_) (ih _ _)
        exact .ite (.get_bind fun _ => ih _ _) (.fail _)
      · refine .bind (tryRecoverAt_stays repositions _ _) fun recovered => ?_
        exact .ite (.get_bind fun _ => ih _ _) (.fail _)

theorem collectDataChunks_stays (repositions : Repositions frame) :
    Act.Stays frame (collectDataChunks ext) :=
  .bind (setTrustedEnd_stays repositions.toInspects _) fun _ =>
    .get_bind fun _ => collectLoop_stays repositions _ _ _

theorem parkAtEndOfStream_stays (repositions : Repositions frame) :
    Act.Stays frame parkAtEndOfStream :=
  .modify fun state => repositions.moved state _ rfl rfl rfl rfl rfl rfl

theorem readRecordAt_stays (repositions : Repositions frame) (chunkPos recordIndex : Nat) :
    Act.Stays frame (readRecordAt ext chunkPos recordIndex) := by
  refine .bind (seek_stays repositions _) fun _ => ?_
  refine .bind (readRecord_stays repositions) fun record => .get_bind fun reader => ?_
  split
  · exact .pure _
  · exact .pure _

theorem probeLoop_stays (repositions : Repositions frame) (test : Bytes → Ordering)
    (chunks : List (Nat × Nat)) (hi fuel : Nat) :
    ∀ probe, Act.Stays frame (probeLoop ext test chunks hi fuel probe) := by
  induction fuel with
  | zero => exact fun _ => .fail _
  | succ fuel ih =>
      intro probe
      refine .ite (.bind (.lift _) fun chunk => ?_) (.pure _)
      obtain ⟨chunkPos, count⟩ := chunk
      refine .bind (readRecordAt_stays repositions _ _) fun first => ?_
      split
      · exact .pure _
      · exact ih _

theorem withinChunkLoop_stays (repositions : Repositions frame) (test : Bytes → Ordering)
    (chunkPos fuel : Nat) :
    ∀ lo hi, Act.Stays frame (withinChunkLoop ext test chunkPos fuel lo hi) := by
  induction fuel with
  | zero => exact fun _ _ => .fail _
  | succ fuel ih =>
      intro lo hi
      refine .ite (.bind (readRecordAt_stays repositions _ _) fun read => ?_) (.pure _)
      split
      · exact .pure _
      · split
        · exact ih _ _
        · exact ih _ _
        · exact .bind (seek_stays repositions _) fun _ => .pure _

theorem searchLoop_stays (repositions : Repositions frame) (test : Bytes → Ordering)
    (chunks : List (Nat × Nat)) (fuel : Nat) :
    ∀ lo hi, Act.Stays frame (searchLoop ext test chunks fuel lo hi) := by
  induction fuel with
  | zero => exact fun _ _ => .fail _
  | succ fuel ih =>
      intro lo hi
      refine .ite (.bind (probeLoop_stays repositions _ _ _ _ _) fun ordering => ?_) (.pure _)
      split
      · exact ih _ _
      · exact ih _ _
      · exact ih _ _
      · exact .bind (seek_stays repositions _) fun _ => .pure _

theorem searchBefore_stays (repositions : Repositions frame) (test : Bytes → Ordering)
    (chunks : List (Nat × Nat)) (lo : Nat) :
    Act.Stays frame (searchBefore ext test chunks lo) := by
  have parked : Act.Stays frame (parkAtEndOfStream >>= fun _ => pure false) :=
    .bind (parkAtEndOfStream_stays repositions) fun _ => .pure _
  refine .ite (.bind (.lift _) fun chunk => ?_) parked
  obtain ⟨chunkPos, numRecords⟩ := chunk
  refine .bind (.ite (.pure _) (withinChunkLoop_stays repositions _ _ _ _ _)) fun found => ?_
  exact .ite (.pure _) parked

theorem search_stays (repositions : Repositions frame) (test : Bytes → Ordering) :
    Act.Stays frame (search ext test) := by
  refine .bind (collectDataChunks_stays repositions) fun chunks => ?_
  refine .ite (.bind (parkAtEndOfStream_stays repositions) fun _ => .pure _) ?_
  refine .bind (searchLoop_stays repositions _ _ _ _ _) fun outcome => ?_
  split
  · exact .pure _
  · exact searchBefore_stays repositions _ _ _

/-! ## Runs -/

/-- The frame of every operation: the source and the callback stay, and so does
a stream length that is up to date. -/
def sourceFrame : Frame RecordReader where
  rel before after :=
    after.source = before.source ∧ after.recovery = before.recovery ∧
      (before.streamLen = before.source.length → after.streamLen = after.source.length)
  refl _ := ⟨rfl, rfl, id⟩
  trans first second :=
    ⟨second.1.trans first.1, second.2.1.trans first.2.1,
      fun measured => second.2.2 (first.2.2 measured)⟩

theorem sourceFrame_repositions : Repositions sourceFrame where
  trusted _ _ := ⟨rfl, rfl, id⟩
  measured _ := ⟨rfl, rfl, fun _ => rfl⟩
  reported _ _ _ := ⟨rfl, rfl, id⟩
  moved before after source recovery _ _ streamLen _ :=
    ⟨source, recovery, fun measured => by rw [streamLen, source, measured]⟩

/-- The operation is not the one that sets another projection. -/
def ReaderOp.KeepsProjection : ReaderOp → Prop
  | .setFieldProjection _ => False
  | _ => True

/-- All other operations stay within every frame that allows repositioning. -/
theorem ReaderOp.KeepsProjection.after_stays {op : ReaderOp} (keeps : op.KeepsProjection)
    (repositions : Repositions frame) (reader : RecordReader) :
    frame.rel reader (op.after ext reader) := by
  cases op with
  | readRecord => exact readRecord_stays repositions reader
  | seek target => exact seek_stays repositions target reader
  | seekNumeric numeric => exact seekNumeric_stays repositions numeric reader
  | seekBack => exact seekBack_stays repositions reader
  | search test => exact search_stays repositions test reader
  | size => exact size_stays repositions.toInspects reader
  | checkFileFormat => exact checkFileFormat_stays repositions.toInspects reader
  | readSerializedMetadata => exact readSerializedMetadata_stays repositions.toInspects reader
  | setFieldProjection projection => exact keeps.elim

theorem ReaderOp.after_stays (op : ReaderOp) (reader : RecordReader) :
    sourceFrame.rel reader (op.after ext reader) := by
  cases op with
  | setFieldProjection projection => exact ⟨rfl, rfl, id⟩
  | _ =>
      refine KeepsProjection.after_stays ?_ sourceFrame_repositions reader
      exact trivial

/-- The inspection calls stay within every frame that allows what they do. -/
theorem ReaderOp.Inspection.after_stays {op : ReaderOp} (inspection : op.Inspection)
    (inspects : Inspects frame) (reader : RecordReader) : frame.rel reader (op.after ext reader) := by
  cases op with
  | size => exact size_stays inspects reader
  | checkFileFormat => exact checkFileFormat_stays inspects reader
  | readSerializedMetadata => exact readSerializedMetadata_stays inspects reader
  | readRecord => exact inspection.elim
  | seek target => exact inspection.elim
  | seekNumeric numeric => exact inspection.elim
  | seekBack => exact inspection.elim
  | search test => exact inspection.elim
  | setFieldProjection projection => exact inspection.elim

theorem runReader_append (first second : List ReaderOp) (reader : RecordReader) :
    runReader ext (first ++ second) reader = runReader ext second (runReader ext first reader) := by
  induction first generalizing reader with
  | nil => rfl
  | cons op rest ih => exact ih (op.after ext reader)

theorem runReader_stays (ops : List ReaderOp) (reader : RecordReader) :
    sourceFrame.rel reader (runReader ext ops reader) := by
  induction ops generalizing reader with
  | nil => exact sourceFrame.refl reader
  | cons op rest ih => exact sourceFrame.trans (op.after_stays reader) (ih _)

theorem runReader_keeps (repositions : Repositions frame) (ops : List ReaderOp) :
    ∀ reader : RecordReader, (∀ op ∈ ops, op.KeepsProjection) →
      frame.rel reader (runReader ext ops reader) := by
  induction ops with
  | nil => exact fun reader _ => frame.refl reader
  | cons op rest ih =>
      intro reader keep
      obtain ⟨first, later⟩ := List.forall_mem_cons.mp keep
      exact frame.trans (first.after_stays repositions reader) (ih _ later)

theorem openFile_stays (repositions : Repositions frame) : Act.Stays frame (openFile ext) := by
  refine .get_bind fun reader => .bind (attempt_stays (.lift _)) fun validated => ?_
  split
  · exact .pure _
  · refine .bind (tryRecoverAt_stays repositions _ _) fun recovered => ?_
    exact .ite (.pure _) (.fail _)

/-- An opened reader is the initial one, up to what the frame allows. -/
theorem new_stays {source : Bytes} {options : ReaderOptions} {reader : RecordReader}
    (repositions : Repositions frame)
    (opened : RecordReader.new ext source options = .ok reader) :
    frame.rel (initial source options) reader := by
  unfold RecordReader.new at opened
  split at opened
  · cases opened
    exact frame.refl _
  · have stays := @openFile_stays ext _ repositions (initial source options)
    split at opened
    · rename_i after outcome
      cases opened
      rwa [outcome] at stays
    · simp at opened

/-- The reader of a source that does not change knows its length. -/
structure Measured (source : Bytes) (recovery : Option (List SkippedRegion → Bool))
    (reader : RecordReader) : Prop where
  source : reader.source = source
  recovery : reader.recovery = recovery
  streamLen : reader.streamLen = reader.source.length

/-- What stays within the source frame stays measured. -/
theorem Measured.after {source : Bytes} {recovery : Option (List SkippedRegion → Bool)}
    {before after : RecordReader} (measured : Measured source recovery before)
    (stays : sourceFrame.rel before after) : Measured source recovery after :=
  ⟨stays.1.trans measured.source, stays.2.1.trans measured.recovery,
    stays.2.2 measured.streamLen⟩

theorem new_measured {source : Bytes} {options : ReaderOptions} {reader : RecordReader}
    (opened : RecordReader.new ext source options = .ok reader) :
    Measured source options.recovery reader :=
  (⟨rfl, rfl, rfl⟩ : Measured source options.recovery (initial source options)).after
    (new_stays sourceFrame_repositions opened)

theorem ReaderReached.measured {source : Bytes} {options : ReaderOptions} {reader : RecordReader}
    (reached : ReaderReached ext source options reader) :
    Measured source options.recovery reader := by
  obtain ⟨opened, ops, isNew, rfl⟩ := reached
  exact (new_measured isNew).after (runReader_stays ops opened)

end Riegeli
