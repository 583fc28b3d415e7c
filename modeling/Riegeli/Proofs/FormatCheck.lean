/-
Module: Riegeli.Proofs.FormatCheck
Purpose: When `check_file_format` accepts a file that reads to its end: the
  empty file and a first block header that points back are refused.
Trusted boundary: the hash and the codecs
Main exports: checkFormatLoop_walk, headerAt_preamble, checkFileFormat_iff
-/
import Riegeli.Proofs.InspectionCalls

namespace Riegeli

open RecordReader

variable {ext : Externals} {reader : RecordReader}

/-- A pass of the checker over a sound chunk. -/
theorem checkFormatLoop_sound (known : Known reader) {place stop fuel : Nat}
    {header : ChunkHeader} {dataBegin : Nat} {data : Bytes}
    (sound : SoundChunk ext reader.source place stop header dataBegin data) :
    checkFormatLoop ext (fuel + 1) place reader = checkFormatLoop ext fuel stop reader := by
  rw [checkFormatLoop, Act.bind_run, readChunkHeaderAt_static known, sound.read]
  simp only [sound.headerValid, ← sound.ends]
  rw [if_neg (by decide)]
  simp only [Act.bind_run, Act.get_run, Act.lift_run, sound.dataRead]
  rw [sound.dataValid, if_neg (by decide)]

/-- The checker accepts the chunks of a walk. -/
theorem checkFormatLoop_walk {source : Bytes} {projection : Option FieldProjection} {place : Nat}
    {records : List Bytes} (walk : Walk ext source projection place records) :
    ∀ {fuel : Nat} {reader : RecordReader}, Known reader → reader.source = source → 0 < fuel →
      source.length + 24 < fuel + place →
      checkFormatLoop ext fuel place reader = (.ok (), reader) := by
  induction walk with
  | @ended place absent =>
      rintro fuel reader known rfl positive _
      obtain ⟨fuel, rfl⟩ : ∃ smaller, fuel = smaller + 1 := ⟨fuel - 1, by omega⟩
      rw [checkFormatLoop, Act.bind_run, readChunkHeaderAt_static known, headerAt_absent absent]
      rfl
  | @passes place stop records found walk ih =>
      rintro fuel reader known rfl positive enough
      obtain ⟨fuel, rfl⟩ : ∃ smaller, fuel = smaller + 1 := ⟨fuel - 1, by omega⟩
      have on := findChunk_passes_lt found
      have inside := findChunk_passes_inside found
      obtain ⟨header, dataBegin, data, sound, _⟩ := @findChunk_sound ext reader.source
        projection place stop (by rw [found]; rfl) (by rw [found]; simp)
      rw [checkFormatLoop_sound known sound, ih known rfl (by omega) (by omega)]
  | @holds place stop decoder chunk records found yields walk ih =>
      rintro fuel reader known rfl positive enough
      obtain ⟨fuel, rfl⟩ : ∃ smaller, fuel = smaller + 1 := ⟨fuel - 1, by omega⟩
      have on : place < stop :=
        @findChunk_stop_lt ext reader.source projection place stop (by rw [found]; rfl)
      have inside := @findChunk_inside ext reader.source projection place (by rw [found]; simp)
      have near := le_canonicalChunkAddress place
      obtain ⟨header, dataBegin, data, sound, _⟩ := @findChunk_sound ext reader.source
        projection place stop (by rw [found]; rfl) (by rw [found]; simp)
      rw [checkFormatLoop_sound known sound, ih known rfl (by omega) (by omega)]

/-! ## The preamble -/

/-- What a validated preamble holds. -/
structure Preamble (ext : Externals) (source : Bytes) : Prop where
  long : 64 ≤ source.length
  blockValid : (BlockHeader.fromBytes (source.take 24)).isValid ext = true
  signature :
    (source.drop 24).take 40 = (ChunkHeader.fromParts ext [] .fileSignature 0 0).toBytes

theorem validateFilePreamble_ok {source : Bytes}
    (valid : validateFilePreamble ext source = .ok ()) : Preamble ext source := by
  rw [validateFilePreamble] at valid
  dsimp only at valid
  split at valid
  · cases valid
  · split at valid
    · cases valid
    · rename_i blockValid
      split at valid
      · cases valid
      · rename_i long
        split at valid
        · cases valid
        · rename_i same
          have valid : (BlockHeader.fromBytes (readFull source 0 blockHeaderSize)).isValid ext =
              true := by simpa using blockValid
          refine ⟨?_, valid, Classical.not_not.mp same⟩
          simp only [readFull, List.length_take, List.length_drop, chunkHeaderSize,
            blockHeaderSize] at long
          omega

/-- The header scan ends with the fortieth byte. -/
theorem headerLoop_done {source : Bytes} {chunkBegin fuel : Nat} {scan : HeaderScan}
    (more : 0 < fuel) (whole : 40 ≤ scan.bytes.length) :
    headerLoop ext source chunkBegin fuel scan = .ok (some scan) := by
  obtain ⟨fuel, rfl⟩ : ∃ smaller, fuel = smaller + 1 := ⟨fuel - 1, by omega⟩
  rw [headerLoop, if_neg (by simpa [chunkHeaderSize] using whole)]

/-- The bytes of the signature chunk are read in one piece. -/
theorem scanHeaderBytes_preamble {source : Bytes} (preamble : Preamble ext source) :
    scanHeaderBytes source 0
        { filePos := 24, bytes := [], consumedAny := true, interiorBlockHeader := none } =
      .ok
        (some
          { filePos := 64
            bytes := (ChunkHeader.fromParts ext [] .fileSignature 0 0).toBytes
            consumedAny := true
            interiorBlockHeader := none }) := by
  have body : readFull source 24 40 = (ChunkHeader.fromParts ext [] .fileSignature 0 0).toBytes :=
    preamble.signature
  have length : (readFull source 24 40).length = 40 := by rw [body, ChunkHeader.length_toBytes]
  have whole : ¬ (readFull source 24 40).length < 40 := by omega
  rw [← body]
  exact if_neg whole

/-- The header scan of the signature chunk. -/
theorem readHeaderBytes_preamble {source : Bytes} (preamble : Preamble ext source) :
    readHeaderBytes ext source 0 =
      if (BlockHeader.fromBytes (source.take 24)).previousChunk = 0 then
        .ok
          (some
            { filePos := 64
              bytes := (ChunkHeader.fromParts ext [] .fileSignature 0 0).toBytes
              consumedAny := true
              interiorBlockHeader := none })
      else .error (previousMismatch 0 0) := by
  have long := preamble.long
  have block : readFull source 0 blockHeaderSize = source.take 24 := rfl
  have blockLength : ¬ (source.take 24).length < blockHeaderSize := by
    rw [List.length_take]
    unfold blockHeaderSize
    omega
  unfold readHeaderBytes
  rw [headerLoop, if_pos (by simp [chunkHeaderSize])]
  unfold scanBlockHeader
  rw [if_pos (by rfl), block]
  simp only
  rw [if_neg blockLength, preamble.blockValid, if_neg (by decide)]
  generalize (BlockHeader.fromBytes (source.take 24)).previousChunk = previous
  by_cases first : previous = 0
  · subst first
    rw [if_neg (by simp [checkedSub]), if_pos rfl, Except.ok_bind]
    refine (congrArg (· >>= _) (scanHeaderBytes_preamble preamble)).trans ?_
    rw [Except.ok_bind]
    exact headerLoop_done (by decide) (Nat.le_of_eq (ChunkHeader.length_toBytes _).symm)
  · rw [if_neg first, if_pos (by simp [checkedSub]; omega), Except.error_bind]

/-- What stands at the signature chunk. -/
theorem headerAt_preamble {source : Bytes} (preamble : Preamble ext source) :
    headerAt ext source blockHeaderSize =
      if (BlockHeader.fromBytes (source.take 24)).previousChunk = 0 then
        .ok (some (ChunkHeader.fromParts ext [] .fileSignature 0 0, 0, 64))
      else .error (previousMismatch 0 0) := by
  have fits : (ChunkHeader.fromParts ext [] .fileSignature 0 0).Fits :=
    ChunkHeader.fits_fromParts _ 0 (Nat.zero_le _) (Nat.zero_le _)
  have valid := @ChunkHeader.fromParts_isHeaderValid ext [] .fileSignature 0 0
  have canonical : canonicalChunkAddress blockHeaderSize = 0 := by decide
  unfold headerAt
  simp only [canonical, readHeaderBytes_preamble preamble]
  by_cases first : (BlockHeader.fromBytes (source.take 24)).previousChunk = 0
  · rw [if_pos first, if_pos first]
    simp only [ChunkHeader.fromBytes_toBytes fits, valid, ↓reduceIte]
    have claims : checkClaims (ChunkHeader.fromParts ext [] .fileSignature 0 0) 0 64
        source.length = .ok () := by
      unfold checkClaims
      rw [if_neg (by simp [ChunkHeader.fromParts]),
        if_neg (by rw [ChunkHeader.numRecords_fromParts _ _ _ (by decide)]; omega)]
    rw [claims, Except.ok_bind]
    rfl
  · rw [if_neg first, if_neg first]

/-- The checker passes the signature chunk if and only if the first block
header does not point back. -/
theorem checkFormatLoop_preamble (known : Known reader) (preamble : Preamble ext reader.source)
    (fuel : Nat) :
    checkFormatLoop ext (fuel + 1) blockHeaderSize reader =
      if (BlockHeader.fromBytes (reader.source.take 24)).previousChunk = 0 then
        checkFormatLoop ext fuel firstDataChunk reader
      else (.error (previousMismatch 0 0), reader) := by
  by_cases first : (BlockHeader.fromBytes (reader.source.take 24)).previousChunk = 0
  · have canonical : canonicalChunkAddress blockHeaderSize = 0 := by decide
    have records := @ChunkHeader.numRecords_fromParts ext [] .fileSignature 0 0 (by decide)
    rw [if_pos first]
    refine checkFormatLoop_sound known
      (⟨?_, ChunkHeader.fromParts_isHeaderValid _ _ _ _, ?_, ?_,
        ChunkHeader.fromParts_isDataValid _ _ _ _⟩ : SoundChunk ext reader.source blockHeaderSize
          firstDataChunk (ChunkHeader.fromParts ext [] .fileSignature 0 0) 64 [])
    · rw [headerAt_preamble preamble, if_pos first, canonical]
    · have size : (ChunkHeader.fromParts ext [] .fileSignature 0 0).dataSize = 0 := rfl
      rw [records, canonical, size]
      decide
    · rfl
  · rw [if_neg first, checkFormatLoop, Act.bind_run, readChunkHeaderAt_static known,
      headerAt_preamble preamble, if_neg first]

/-! ## The checker -/

/-- The checker on a validated preamble. -/
theorem checkFileFormat_preamble (known : Known reader) (preamble : Preamble ext reader.source) :
    checkFileFormat ext reader =
      if (BlockHeader.fromBytes (reader.source.take 24)).previousChunk = 0 then
        checkFormatLoop ext (reader.source.length + 63) firstDataChunk reader
      else (.error (previousMismatch 0 0), reader) := by
  have long := preamble.long
  have whole : (readFull reader.source 0 blockHeaderSize).length = blockHeaderSize := by
    simp only [readFull, List.drop_zero, List.length_take, blockHeaderSize]
    omega
  have block : readFull reader.source 0 blockHeaderSize = reader.source.take 24 := rfl
  unfold checkFileFormat
  rw [Act.bind_run_ok (Act.get_run _), Act.bind_run, Act.lift_run, readExactAt_eq whole, block]
  simp only
  rw [preamble.blockValid, if_neg (by decide)]
  exact checkFormatLoop_preamble known preamble _

/-- The checker has nothing to read in an empty file. -/
theorem checkFileFormat_empty (empty : reader.source = []) :
    (checkFileFormat ext reader).1 ≠ .ok () := by
  obtain ⟨error, short⟩ := @readExactAt_short [] 0 blockHeaderSize (by decide)
  unfold checkFileFormat
  rw [Act.bind_run_ok (Act.get_run _), Act.bind_run, Act.lift_run, empty, short]
  simp

theorem new_preamble {source : Bytes} {opened : RecordReader} (some : source ≠ [])
    (isNew : RecordReader.new ext source ReaderOptions.new = .ok opened) :
    Preamble ext source := by
  refine validateFilePreamble_ok ?_
  unfold RecordReader.new at isNew
  rw [if_neg (by simpa using some)] at isNew
  unfold openFile at isNew
  rw [Act.bind_run_ok (Act.get_run _), Act.bind_run] at isNew
  unfold attempt at isNew
  rw [Act.lift_run] at isNew
  cases valid : validateFilePreamble ext source with
  | ok done => rfl
  | error fault =>
      have initially : validateFilePreamble ext (initial source ReaderOptions.new).source =
          .error fault := valid
      rw [initially] at isNew
      have plain : (initial source ReaderOptions.new).recovery = none := rfl
      cases fault with
      | panic kind => cases isNew
      | outOfFuel => cases isNew
      | error error =>
          simp only [Act.bind_run, tryRecoverAt_none plain] at isNew
          cases isNew

/-- On a file that reads to its end, the checker accepts at every point of the
read if and only if the file is not empty and its first block header does not
point back. -/
theorem checkFileFormat_iff {source : Bytes} {opened last : RecordReader} {records : List Bytes}
    (isNew : RecordReader.new ext source ReaderOptions.new = .ok opened)
    (reads : Reads ext opened records last) (finished : (readRecord ext last).1 = .ok none) :
    (∀ count,
      (checkFileFormat ext (runReader ext (List.replicate count .readRecord) opened)).1 =
        .ok ()) ↔
      source ≠ [] ∧ (BlockHeader.fromBytes (source.take 24)).previousChunk = 0 := by
  have isInitial := new_alone rfl isNew
  have measured := new_measured isNew
  obtain ⟨current, rest, holding, walk, rfl⟩ := reads.ahead measured.streamLen measured.recovery
    (Prod.ext finished rfl)
  rw [isInitial] at walk
  by_cases empty : source = []
  · constructor
    · intro accepts
      exact absurd (accepts 0) (checkFileFormat_empty (measured.source.trans empty))
    · rintro ⟨some, _⟩
      exact absurd empty some
  · have preamble := new_preamble empty isNew
    have outcome : ∀ count,
        (checkFileFormat ext (runReader ext (List.replicate count .readRecord) opened)).1 =
          if (BlockHeader.fromBytes (source.take 24)).previousChunk = 0 then .ok ()
          else .error (previousMismatch 0 0) := by
      intro count
      have later := measured.after
        (@runReader_stays ext (List.replicate count .readRecord) opened)
      generalize runReader ext (List.replicate count .readRecord) opened = reader at later
      obtain ⟨rfl, _, known⟩ := later
      rw [checkFileFormat_preamble known preamble]
      split
      · have start : Walk ext reader.source none firstDataChunk rest := walk
        rw [checkFormatLoop_walk start known rfl (by omega)
          (by unfold firstDataChunk blockHeaderSize chunkHeaderSize; omega)]
      · rfl
    constructor
    · intro accepts
      refine ⟨empty, ?_⟩
      by_contra pointsBack
      have refuses := (outcome 0).symm.trans (accepts 0)
      rw [if_neg pointsBack] at refuses
      cases refuses
    · rintro ⟨_, first⟩ count
      rw [outcome, if_pos first]

theorem checkFileFormat_iff_two_chunks :
    (∀ count,
      (checkFileFormat storingExternals
        (runReader storingExternals (List.replicate count .readRecord) twoChunkReader)).1 =
          .ok ()) ↔
      twoChunkSource ≠ [] ∧ (BlockHeader.fromBytes (twoChunkSource.take 24)).previousChunk = 0 := by
  obtain ⟨last, reads, finished⟩ := twoChunkReader_reads
  exact checkFileFormat_iff (new_valid _ (by decide +kernel)) reads finished

/-- The empty file reads to its end, and the checker refuses it. -/
theorem checkFileFormat_refuses_empty :
    ¬ ∀ (source : Bytes) (opened last : RecordReader) (records : List Bytes),
      RecordReader.new storingExternals source ReaderOptions.new = .ok opened →
      Reads storingExternals opened records last →
      (readRecord storingExternals last).1 = .ok none →
      ∀ count,
        (checkFileFormat storingExternals
          (runReader storingExternals (List.replicate count .readRecord) opened)).1 = .ok () := by
  intro accepts
  exact checkFileFormat_empty rfl
    (accepts [] (initial [] ReaderOptions.new) (initial [] ReaderOptions.new) [] rfl (.stop _)
      rfl 0)

end Riegeli
