/-
Module: Riegeli.Proofs.InspectionCalls
Purpose: The size of a file is the number of records that reading returns, and
  the calls that only look at the file change no later read or seek.
Trusted boundary: the hash and the codecs
Main exports: new_alone, new_valid, size_reads, observe_inspections, inspection_calls
-/
import Riegeli.Proofs.FileWalk
import Riegeli.Proofs.ReaderAgreement

namespace Riegeli

open RecordReader

variable {ext : Externals}

/-- Without a callback, opening a file is the check of its preamble. -/
theorem openFile_alone {source : Bytes} {options : ReaderOptions}
    (alone : options.recovery = none) :
    openFile ext (initial source options) =
      match validateFilePreamble ext source with
      | .ok () => (.ok (), initial source options)
      | .error (.error error) =>
          (.error (.error error), { initial source options with pendingTrustedEnd := none })
      | .error fault => (.error fault, initial source options) := by
  have plain : (initial source options).recovery = none := alone
  unfold openFile
  rw [Act.bind_run_ok (Act.get_run _), Act.bind_run]
  unfold attempt
  rw [Act.lift_run]
  rw [show (initial source options).source = source from rfl]
  cases validateFilePreamble ext source with
  | ok valid => rfl
  | error fault =>
      cases fault with
      | panic kind => rfl
      | outOfFuel => rfl
      | error error =>
          simp only [Act.bind_run, tryRecoverAt_none plain]
          rfl

/-- Without a callback the reader that is opened has not moved. -/
theorem new_alone {source : Bytes} {options : ReaderOptions} {opened : RecordReader}
    (alone : options.recovery = none)
    (isNew : RecordReader.new ext source options = .ok opened) :
    opened = initial source options := by
  unfold RecordReader.new at isNew
  split at isNew
  · exact (Except.ok.inj isNew).symm
  · rw [openFile_alone alone] at isNew
    cases valid : validateFilePreamble ext source with
    | ok done =>
        rw [valid] at isNew
        exact (Except.ok.inj isNew).symm
    | error fault =>
        rw [valid] at isNew
        cases fault <;> cases isNew

/-- A source with a valid preamble is opened as it is. -/
theorem new_valid {source : Bytes} (options : ReaderOptions)
    (valid : validateFilePreamble ext source = .ok ()) :
    RecordReader.new ext source options = .ok (initial source options) := by
  have opened : openFile ext (initial source options) = (.ok (), initial source options) := by
    unfold openFile
    rw [Act.bind_run_ok (Act.get_run _), Act.bind_run, attempt, Act.lift_run,
      show (initial source options).source = source from rfl, valid]
    rfl
  unfold RecordReader.new
  rw [opened]
  exact ite_self _

/-- At any point of a read that reaches the end, `size` counts its records. -/
theorem size_reads {source : Bytes} {opened last ended : RecordReader} {records : List Bytes}
    (isNew : RecordReader.new ext source ReaderOptions.new = .ok opened)
    (reads : Reads ext opened records last) (finished : readRecord ext last = (.ok none, ended))
    (count : Nat) :
    (size ext (runReader ext (List.replicate count .readRecord) opened)).1 =
      .ok records.length := by
  have isInitial := new_alone rfl isNew
  have measured := new_measured isNew
  obtain ⟨current, rest, holding, walk, rfl⟩ := reads.ahead measured.streamLen measured.recovery
    finished
  have later := measured.after (@runReader_stays ext (List.replicate count .readRecord) opened)
  rw [isInitial] at holding walk
  rcases holding with ⟨_, rfl⟩ | ⟨decoder, impossible, _⟩
  · refine @size_walk ext _ rest later.streamLen none ?_
    rw [later.source]
    exact walk
  · cases impossible

/-! ## Inspections -/

theorem Alike.refl {reader : RecordReader} (known : Known reader) : Alike reader reader :=
  ⟨known, rfl, rfl, rfl, rfl, rfl, rfl⟩

theorem Alike.trans {first second third : RecordReader} (left : Alike first second)
    (right : Alike second third) : Alike first third :=
  ⟨left.known, right.source.trans left.source, right.streamLen.trans left.streamLen,
    right.recovery.trans left.recovery, right.fieldProjection.trans left.fieldProjection,
    right.decoder.trans left.decoder, right.next.trans left.next⟩

/-- The frame of what reads and seeks do not depend on. -/
def alikeFrame : Frame RecordReader where
  rel before after := Known before → Alike before after
  refl _ := Alike.refl
  trans first second known := (first known).trans (second (first known).symmKnown)

theorem alikeFrame_inspects : Inspects alikeFrame where
  trusted _ _ known := ⟨known, rfl, rfl, rfl, rfl, rfl, rfl⟩
  measured _ known := ⟨known, rfl, known.symm, rfl, rfl, rfl, rfl⟩
  reported _ _ _ known := ⟨known, rfl, rfl, rfl, rfl, rfl, rfl⟩

/-- Reads and seeks with inspection calls in between. -/
def ReadsSeeksInspects (calls : List ReaderOp) : Prop :=
  ∀ op ∈ calls, (op = .readRecord ∨ ∃ target, op = .seek target) ∨ op.Inspection

/-- The inspection calls of a run can be left out. -/
theorem observe_inspections (calls : List ReaderOp) :
    ∀ {first second : RecordReader}, Alike first second → Unwavering first.recovery →
      first.source.length ≤ u64Max → ReadsSeeksInspects calls →
      observe ext calls second =
        observe ext (calls.filter fun op => ¬ op.Inspection) first := by
  induction calls with
  | nil => exact fun _ _ _ _ => rfl
  | cons op rest ih =>
      intro first second alike unwavering addressable allowed
      have later : ReadsSeeksInspects rest :=
        fun other member => allowed other (List.mem_cons_of_mem _ member)
      rcases allowed op List.mem_cons_self with (rfl | ⟨target, rfl⟩) | inspection
      · have agrees := @readRecord_agreeing ext _ _ alike unwavering addressable
        have stays := @ReaderOp.after_stays ext .readRecord first
        rw [List.filter_cons_of_pos (by simp [ReaderOp.Inspection]), observe, observe,
          agrees.result]
        exact congrArg _ (ih agrees.alike (by rw [stays.2.1]; exact unwavering)
          (by rw [stays.1]; exact addressable) later)
      · have agrees := @seek_agreeing ext _ _ alike unwavering addressable target
        have stays := @ReaderOp.after_stays ext (.seek target) first
        rw [List.filter_cons_of_pos (by simp [ReaderOp.Inspection]), observe, observe,
          agrees.result]
        exact congrArg _ (ih agrees.alike (by rw [stays.2.1]; exact unwavering)
          (by rw [stays.1]; exact addressable) later)
      · have same : observe ext (op :: rest) second = observe ext rest (op.after ext second) := by
          cases op with
          | readRecord => exact inspection.elim
          | seek target => exact inspection.elim
          | seekNumeric numeric => rfl
          | seekBack => rfl
          | search test => rfl
          | size => rfl
          | checkFileFormat => rfl
          | readSerializedMetadata => rfl
          | setFieldProjection projection => rfl
        have stays := @ReaderOp.Inspection.after_stays ext _ op inspection alikeFrame_inspects
          second alike.symmKnown
        rw [same, List.filter_cons_of_neg (by simpa using inspection)]
        exact ih (alike.trans stays) unwavering addressable later

/-- `size` counts what reading returns, and inspection calls disturb nothing. -/
theorem inspection_calls {source : Bytes} (addressable : source.length ≤ u64Max) :
    (∀ opened records last,
      RecordReader.new ext source ReaderOptions.new = .ok opened →
      Reads ext opened records last → (readRecord ext last).1 = .ok none →
      ∀ count,
        (size ext (runReader ext (List.replicate count .readRecord) opened)).1 =
          .ok records.length) ∧
    (∀ options reader,
      ReaderReached ext source options reader → Unwavering options.recovery →
      ∀ calls, ReadsSeeksInspects calls →
        observe ext calls reader =
          observe ext (calls.filter fun op => ¬ op.Inspection) reader) := by
  constructor
  · intro opened records last isNew reads finished count
    exact size_reads isNew reads (Prod.ext finished rfl) count
  · intro options reader reached unwavering calls allowed
    have measured := reached.measured
    refine observe_inspections calls (Alike.refl measured.streamLen) ?_ ?_ allowed
    · rw [measured.recovery]
      exact unwavering
    · rw [measured.source]
      exact addressable

/-- A preamble and no chunk after it. -/
def preambleSource : Bytes :=
  (BlockHeader.fromParts storingExternals 0 64).toBytes ++
    (ChunkHeader.fromParts storingExternals [] .fileSignature 0 0).toBytes

/-- The bytes of a simple chunk with this data. -/
def simpleChunkBytes (data : Bytes) (numRecords decodedDataSize : Nat) : Bytes :=
  (ChunkHeader.fromParts storingExternals data .simple numRecords decodedDataSize).toBytes ++ data

/-- A file with a chunk of two records and a chunk of one. -/
def twoChunkSource : Bytes :=
  preambleSource ++ simpleChunkBytes [0, 2, 3, 1, 1, 2, 3, 4] 2 4 ++
    simpleChunkBytes [0, 1, 2, 5, 6] 1 2

/-- The reader that is opened on it. -/
def twoChunkReader : RecordReader := RecordReader.initial twoChunkSource ReaderOptions.new

theorem twoChunkReader_reads :
    ∃ last, Reads storingExternals twoChunkReader [[1, 2, 3], [4], [5, 6]] last ∧
      (readRecord storingExternals last).1 = .ok none :=
  reads_of_seen _ (by decide +kernel)

/-- Behind the first record the decoder of the first chunk is open. -/
theorem inspection_calls_two_chunks :
    (size storingExternals (runReader storingExternals [.readRecord] twoChunkReader)).1 = .ok 3 ∧
      (runReader storingExternals [.readRecord] twoChunkReader).currentDecoder.isSome = true ∧
      observe storingExternals
          [.size, .readRecord, .checkFileFormat, .seek ⟨64, 1⟩, .readSerializedMetadata, .readRecord]
          (runReader storingExternals [.readRecord] twoChunkReader) =
        observe storingExternals [.readRecord, .seek ⟨64, 1⟩, .readRecord]
          (runReader storingExternals [.readRecord] twoChunkReader) := by
  obtain ⟨last, reads, finished⟩ := twoChunkReader_reads
  have both := @inspection_calls storingExternals twoChunkSource (by decide +kernel)
  have isNew : RecordReader.new storingExternals twoChunkSource ReaderOptions.new =
      .ok twoChunkReader :=
    new_valid _ (by decide +kernel)
  refine ⟨both.1 twoChunkReader _ last isNew reads finished 1, by decide +kernel, ?_⟩
  exact both.2 ReaderOptions.new _ ⟨twoChunkReader, [.readRecord], isNew, rfl⟩
    (fun _ no => nomatch no)
    [.size, .readRecord, .checkFileFormat, .seek ⟨64, 1⟩, .readSerializedMetadata, .readRecord]
    (by simp [ReadsSeeksInspects, ReaderOp.Inspection])

end Riegeli
