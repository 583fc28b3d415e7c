/-
Module: Riegeli.Core.RecordReader
Purpose: The file reader of `record_reader.rs` over a byte string whose reads
  never fail, with recovery, seeking and the scans of the file.
Trusted boundary: the hash and the codecs
Main exports: SkippedRegion, RecordPosition, ActiveDecoder, RecordReader,
  RecordReader.new, RecordReader.readRecord, RecordReader.seek,
  RecordReader.seekNumeric
-/
import Riegeli.Core.ChunkReading
import Riegeli.Core.SimpleChunk
import Riegeli.Core.TransposeDecoder

namespace Riegeli

variable (ext : Externals)

/-- `SkippedRegion`: the half-open range from `start` to `stop`. -/
structure SkippedRegion where
  start : Nat
  stop : Nat
  message : String
deriving Repr, DecidableEq

/-- `RecordPosition`. -/
structure RecordPosition where
  chunkBegin : Nat
  recordIndex : Nat
deriving Repr, DecidableEq

/-- `RecordPosition::numeric`. -/
def RecordPosition.numeric (self : RecordPosition) : Nat :=
  satAdd self.chunkBegin self.recordIndex

/-- `ActiveDecoder`. -/
inductive ActiveDecoder where
  | simple (decoder : SimpleChunkDecoder)
  | transposed (decoder : TransposeChunkDecoder)
deriving Repr, DecidableEq

/-- `ActiveDecoder::read_record`. -/
def ActiveDecoder.readRecord : ActiveDecoder → Rust (Option Bytes × ActiveDecoder)
  | .simple decoder => do
      let (record, decoder) ← decoder.readRecord
      .ok (record, .simple decoder)
  | .transposed decoder => do
      let (record, decoder) ← decoder.readRecord
      .ok (record, .transposed decoder)

/-- `RecordReader`.  The verdict of the recovery callback may depend on all
regions reported so far, the last of which it is asked about; `reported`
records them. -/
structure RecordReader where
  source : Bytes
  recovery : Option (List SkippedRegion → Bool)
  reported : List SkippedRegion
  fieldProjection : Option FieldProjection
  currentChunkBegin : Nat
  nextChunkFilePos : Nat
  currentDecoder : Option ActiveDecoder
  currentRecordIndex : Nat
  pos : RecordPosition
  lastPos : RecordPosition
  atEof : Bool
  lastRecordIsValid : Bool
  streamLen : Nat
  lastSkippedRegion : Option SkippedRegion
  pendingTrustedEnd : Option Nat

/-- `ReaderOptions`. -/
structure ReaderOptions where
  recovery : Option (List SkippedRegion → Bool)
  fieldProjection : Option FieldProjection

/-- `ReaderOptions::new`. -/
def ReaderOptions.new : ReaderOptions := { recovery := none, fieldProjection := none }

namespace RecordReader

/-- A method of the reader. -/
abbrev Method (Value : Type) := Act RecordReader Fault Value

/-- Enough passes for a loop that moves forward through the source. -/
def forwardFuel (self : RecordReader) : Nat := self.source.length + 64

/-- The end of the file preamble, where the first data chunk begins. -/
def firstDataChunk : Nat := blockHeaderSize + chunkHeaderSize

/-- `self.pending_trusted_end = end`. -/
def setTrustedEnd (trusted : Option Nat) : Method Unit :=
  Act.modify fun self => { self with pendingTrustedEnd := trusted }

/-- `self.next_chunk_file_pos = pos`. -/
def setNextChunk (pos : Nat) : Method Unit :=
  Act.modify fun self => { self with nextChunkFilePos := pos }

/-- `self.stream_len = self.reader.seek(SeekFrom::End(0))?`. -/
def measureStream : Method Unit :=
  Act.modify fun self => { self with streamLen := self.source.length }

/-! ## Recovery -/

/-- The loop of `resolve_boundary_resync`. -/
def resyncLoop (source : Bytes) (streamLen : Nat) : Nat → Nat → Rust Nat
  | 0, _ => .error .outOfFuel
  | fuel + 1, boundary =>
      let bytes := readFull source boundary blockHeaderSize
      if bytes.length < blockHeaderSize then .ok boundary
      else
        let header := BlockHeader.fromBytes bytes
        if header.isValid ext = false then resyncLoop source streamLen fuel (boundary + blockSize)
        else if header.previousChunk = 0 then .ok boundary
        else
          let target := satAdd boundary header.nextChunk
          if streamLen < target then .ok target
          else if isPossibleChunkBoundary target then .ok target
          else resyncLoop source streamLen fuel (nextBlockBoundary target)

/-- `resolve_boundary_resync`. -/
def resolveBoundaryResync (self : RecordReader) (boundary : Nat) : Rust Nat :=
  resyncLoop ext self.source self.streamLen (self.source.length + 1) boundary

/-- The beginning of the region for a failure at `place`: the canonical
address, held past the region reported before. -/
def regionStart (lastSkippedRegion : Option SkippedRegion) (place : Nat) : Nat :=
  let start := canonicalChunkAddress place
  match lastSkippedRegion with
  | some previous => if previous.stop ≤ place ∧ start < previous.stop then previous.stop else start
  | none => start

/-- The end of the region before the adjustments for progress. -/
def regionExtent (self : RecordReader) (start : Nat) (trustedEnd : Option Nat) : Rust Nat :=
  match trustedEnd with
  | some stop => .ok stop
  | none => do
      let boundary := nextBlockBoundary start
      let boundary := if boundary = start then start + blockSize else boundary
      let resync ← resolveBoundaryResync ext self boundary
      .ok (min resync (max self.streamLen start))

/-- The adjustments: past the beginning, past the failure, and not an alias of
the beginning. -/
def regionStop (start place extent : Nat) : Nat :=
  let stop := max (max extent (start + 1)) (satAdd place 1)
  if canonicalChunkAddress stop ≤ start then stop + 1 else stop

/-- `report_region_at`. -/
def reportRegionAt (place : Nat) (error : RiegeliError) : Method (Option Bool) := do
  let self ← Act.get
  let trustedEnd := self.pendingTrustedEnd
  setTrustedEnd none
  match self.recovery with
  | none => pure none
  | some callback => do
      let start := regionStart self.lastSkippedRegion place
      let extent ← Act.lift (regionExtent ext self start trustedEnd)
      let region : SkippedRegion :=
        { start := start, stop := regionStop start place extent, message := error.toText }
      Act.modify fun self =>
        { self with
          lastSkippedRegion := some region
          reported := self.reported ++ [region] }
      let self ← Act.get
      pure (some (callback self.reported))

/-- The end of the region reported last. -/
def lastRegionStop : Method Nat := do
  let self ← Act.get
  match self.lastSkippedRegion with
  | some region => pure region.stop
  | none => Act.fail (.panic .unwrapOnNone)

/-- `try_recover_at`. -/
def tryRecoverAt (place : Nat) (error : RiegeliError) : Method Bool := do
  let verdict ← reportRegionAt ext place error
  match verdict with
  | none => pure false
  | some go => do
      let stop ← lastRegionStop
      Act.modify fun self =>
        { self with
          lastRecordIsValid := false
          currentDecoder := none
          atEof := false
          nextChunkFilePos := stop }
      pure go

/-! ## Construction -/

/-- `validate_file_preamble`. -/
def validateFilePreamble (source : Bytes) : Rust Unit :=
  let blockBytes := readFull source 0 blockHeaderSize
  if blockBytes.length < blockHeaderSize then
    .error (malformed "truncated Riegeli/records file: incomplete file preamble")
  else if (BlockHeader.fromBytes blockBytes).isValid ext = false then
    .error (malformed "invalid block header hash at offset 0")
  else
    let chunkBytes := readFull source blockHeaderSize chunkHeaderSize
    if chunkBytes.length < chunkHeaderSize then
      .error (malformed "truncated Riegeli/records file: incomplete file preamble")
    else if chunkBytes ≠ (ChunkHeader.fromParts ext [] .fileSignature 0 0).toBytes then
      .error (malformed "invalid file signature chunk at offset 24")
    else .ok ()

/-- The reader before the preamble is validated.  It is at the end of an empty
source. -/
def initial (source : Bytes) (options : ReaderOptions) : RecordReader :=
  { source := source
    recovery := options.recovery
    reported := []
    fieldProjection := options.fieldProjection
    currentChunkBegin := blockHeaderSize
    nextChunkFilePos := firstDataChunk
    currentDecoder := none
    currentRecordIndex := 0
    pos := { chunkBegin := 0, recordIndex := 0 }
    lastPos := { chunkBegin := 0, recordIndex := 0 }
    atEof := source.isEmpty
    lastRecordIsValid := true
    streamLen := source.length
    lastSkippedRegion := none
    pendingTrustedEnd := none }

/-- The validation in `new`, with recovery. -/
def openFile : Method Unit := do
  let self ← Act.get
  let validated ← attempt (Act.lift (validateFilePreamble ext self.source))
  match validated with
  | .ok () => pure ()
  | .error error => do
      let recovered ← tryRecoverAt ext 0 error
      if recovered then pure () else Act.fail (.error error)

/-- `RecordReader::new`. -/
def new (source : Bytes) (options : ReaderOptions) : Rust RecordReader :=
  if source.length = 0 then .ok (initial source options)
  else
    match openFile ext (initial source options) with
    | (.ok (), self) => .ok self
    | (.error fault, _) => .error fault

/-! ## Chunks -/

/-- The check of the claims of a hash-valid header, with the stream measured
again before they are refused. -/
def boundClaims (header : ChunkHeader) (chunkBegin dataBegin : Nat) : Method Unit := do
  let self ← Act.get
  if claimsExceed header chunkBegin dataBegin self.streamLen then do
    measureStream
    let self ← Act.get
    Act.lift (checkClaims header chunkBegin dataBegin self.streamLen)
  else pure ()

/-- `read_chunk_header_at`: the header, the chunk's beginning and that of its
data. -/
def readChunkHeaderAt (place : Nat) : Method (Option (ChunkHeader × Nat × Nat)) := do
  let chunkBegin := canonicalChunkAddress place
  let self ← Act.get
  let scanned ← Act.lift (readHeaderBytes ext self.source chunkBegin)
  match scanned with
  | none => pure none
  | some scan => do
      let header := ChunkHeader.fromBytes scan.bytes
      Act.whenever (header.isHeaderValid ext = true) do
        boundClaims header chunkBegin scan.filePos
        Act.lift (checkInterior header chunkBegin scan.interiorBlockHeader)
      pure (some (header, chunkBegin, scan.filePos))

/-- `peek_chunk_header`. -/
def peekChunkHeader (place : Nat) : Method (Option ChunkHeader) := do
  let read ← readChunkHeaderAt ext place
  match read with
  | none => pure none
  | some (header, chunkBegin, _) =>
      if header.isHeaderValid ext = false then
        Act.fail (malformed s!"invalid chunk header hash at file position {chunkBegin}")
      else pure (some header)

/-- Record the chunk that is now being decoded. -/
def enterChunk (chunkBegin : Nat) (decoder : ActiveDecoder) : Method Unit :=
  Act.modify fun self =>
    { self with
      currentChunkBegin := chunkBegin
      currentRecordIndex := 0
      pos := { chunkBegin := chunkBegin, recordIndex := 0 }
      currentDecoder := some decoder }

/-- Run a check of the chunk at `chunkBegin`, and go back there when it
fails. -/
def rewindOnError {Value : Type} (chunkBegin : Nat) (check : Rust Value) : Method Value := do
  let checked ← attempt (Act.lift check)
  match checked with
  | .ok value => pure value
  | .error error => do
      setNextChunk chunkBegin
      Act.fail (.error error)

/-- A simple decoder. -/
def simpleDecoder (chunk : Chunk) : Rust ActiveDecoder := do
  let decoder ← SimpleChunkDecoder.new ext chunk
  .ok (.simple decoder)

/-- A transposed decoder. -/
def transposedDecoder (chunk : Chunk) (projection : Option FieldProjection) :
    Rust ActiveDecoder := do
  let decoder ← TransposeChunkDecoder.newWithProjection ext chunk projection
  .ok (.transposed decoder)

/-- The `match` on the chunk type in `load_next_chunk`: whether a decoder is
ready. -/
def openChunk (chunkBegin : Nat) (chunk : Chunk) (chunkType : ChunkType) : Method Bool := do
  match chunkType with
  | .simple => do
      let decoder ← rewindOnError chunkBegin (simpleDecoder ext chunk)
      enterChunk chunkBegin decoder
      pure true
  | .transposed => do
      let self ← Act.get
      let decoder ←
        rewindOnError chunkBegin (transposedDecoder ext chunk self.fieldProjection)
      enterChunk chunkBegin decoder
      pure true
  | special => do
      rewindOnError chunkBegin (validateSpecialChunk chunk.header chunkBegin special)
      pure false

/-- One chunk of `load_next_chunk`, once its header is known: whether a decoder
is ready. -/
def loadChunkBody (header : ChunkHeader) (chunkBegin dataBegin : Nat) : Method Bool := do
  if header.isHeaderValid ext = false then
    Act.fail (malformed s!"invalid chunk header hash at file position {chunkBegin}")
  else do
    let dataFileEnd := chunkEnd chunkBegin header.dataSize header.numRecords
    let self ← Act.get
    let data ←
      Act.lift
        (readChunkData ext self.source chunkBegin dataFileEnd dataBegin header.dataSize)
    setTrustedEnd (some dataFileEnd)
    if header.isDataValid ext data = false then do
      setNextChunk chunkBegin
      Act.fail (malformed s!"chunk data hash mismatch at file position {chunkBegin}")
    else do
      setNextChunk dataFileEnd
      match header.chunkType with
      | .ok chunkType => openChunk ext chunkBegin { header := header, data := data } chunkType
      | .error error =>
          if header.numRecords = 0 then pure false
          else do
            setNextChunk chunkBegin
            Act.fail (.error error)

/-- The loop of `load_next_chunk`. -/
def loadNextLoop : Nat → Method Bool
  | 0 => Act.fail .outOfFuel
  | fuel + 1 => do
      setTrustedEnd none
      let self ← Act.get
      let read ← readChunkHeaderAt ext self.nextChunkFilePos
      match read with
      | none => pure false
      | some (header, chunkBegin, dataBegin) => do
          let ready ← loadChunkBody ext header chunkBegin dataBegin
          if ready then pure true else loadNextLoop fuel

/-- `load_next_chunk`. -/
def loadNextChunk : Method Bool := do
  let self ← Act.get
  loadNextLoop ext self.forwardFuel

/-! ## Reading -/

/-- Read from the active decoder, and drop it when it is exhausted. -/
def readFromDecoder : Method (Option Bytes) := do
  let self ← Act.get
  match self.currentDecoder with
  | none => pure none
  | some decoder => do
      let (record, decoder) ← Act.lift decoder.readRecord
      match record with
      | some record => do
          Act.modify fun self =>
            { self with
              currentDecoder := some decoder
              lastPos :=
                { chunkBegin := self.currentChunkBegin
                  recordIndex := self.currentRecordIndex }
              currentRecordIndex := self.currentRecordIndex + 1
              pos :=
                { chunkBegin := self.currentChunkBegin
                  recordIndex := self.currentRecordIndex + 1 }
              lastRecordIsValid := true }
          pure (some record)
      | none => do
          Act.modify fun self => { self with currentDecoder := none }
          pure none

/-- The second half of a pass of `read_record`: load the next chunk or recover.
The result says whether the loop goes on. -/
def advanceChunk : Method Bool := do
  let loaded ← attempt (loadNextChunk ext)
  match loaded with
  | .ok true => do
      Act.modify fun self => { self with atEof := false }
      pure true
  | .ok false => do
      Act.modify fun self => { self with atEof := true }
      pure false
  | .error error => do
      let self ← Act.get
      let recovered ← tryRecoverAt ext self.nextChunkFilePos error
      if recovered then do
        let self ← Act.get
        pure (!self.atEof)
      else Act.fail (.error error)

/-- The loop of `read_record`. -/
def readRecordLoop : Nat → Method (Option Bytes)
  | 0 => Act.fail .outOfFuel
  | fuel + 1 => do
      let record ← readFromDecoder
      match record with
      | some record => pure (some record)
      | none => do
          let more ← advanceChunk ext
          if more then readRecordLoop fuel else pure none

/-- `read_record`. -/
def readRecord : Method (Option Bytes) := do
  setTrustedEnd none
  let self ← Act.get
  readRecordLoop ext self.forwardFuel

/-! ## Seeking -/

/-- The `match` on the chunk type in `load_chunk_at`: the decoder, or `none`
for a chunk to be skipped. -/
def openChunkAt (chunkBegin : Nat) (chunk : Chunk) : Method (Option ActiveDecoder) := do
  match chunk.header.chunkType with
  | .ok .simple => do
      let decoder ← Act.lift (simpleDecoder ext chunk)
      pure (some decoder)
  | .ok .transposed => do
      let self ← Act.get
      let decoder ← Act.lift (transposedDecoder ext chunk self.fieldProjection)
      pure (some decoder)
  | .ok special => do
      rewindOnError chunkBegin (validateSpecialChunk chunk.header chunkBegin special)
      pure none
  | .error error =>
      if chunk.header.numRecords = 0 then pure none
      else do
        setNextChunk chunkBegin
        Act.fail (.error error)

/-- One chunk of `load_chunk_at`, once its header is known: the decoder, or
`none` for a chunk to be skipped, and the chunk's end. -/
def loadChunkAtBody (header : ChunkHeader) (chunkBegin dataBegin : Nat) :
    Method (Option ActiveDecoder × Nat) := do
  if header.isHeaderValid ext = false then
    Act.fail (malformed s!"invalid chunk header hash at file position {chunkBegin}")
  else do
    let chunkEndPos := chunkEnd chunkBegin header.dataSize header.numRecords
    let self ← Act.get
    let data ←
      Act.lift
        (readChunkData ext self.source chunkBegin chunkEndPos dataBegin header.dataSize)
    setTrustedEnd (some chunkEndPos)
    if header.isDataValid ext data = false then
      Act.fail (malformed s!"chunk data hash mismatch at file position {chunkBegin}")
    else do
      Act.modify fun self =>
        { self with currentChunkBegin := chunkBegin, currentRecordIndex := 0 }
      let decoder ← openChunkAt ext chunkBegin { header := header, data := data }
      setNextChunk chunkEndPos
      pure (decoder, chunkEndPos)

/-- The loop of `load_chunk_at`. -/
def loadChunkAtLoop : Nat → Nat → Method (Option ActiveDecoder)
  | 0, _ => Act.fail .outOfFuel
  | fuel + 1, filePos => do
      setTrustedEnd none
      let read ← readChunkHeaderAt ext filePos
      match read with
      | none => pure none
      | some (header, chunkBegin, dataBegin) => do
          let (decoder, chunkEndPos) ← loadChunkAtBody ext header chunkBegin dataBegin
          match decoder with
          | some decoder => pure (some decoder)
          | none => loadChunkAtLoop fuel chunkEndPos

/-- `load_chunk_at`. -/
def loadChunkAt (filePos : Nat) : Method (Option ActiveDecoder) := do
  let self ← Act.get
  loadChunkAtLoop ext self.forwardFuel filePos

/-- The loop of `seek` that skips records, up to the end of the chunk. -/
def skipRecords : Nat → Method Unit
  | 0 => pure ()
  | left + 1 => do
      let self ← Act.get
      match self.currentDecoder with
      | none => pure ()
      | some decoder => do
          let (record, decoder) ← Act.lift decoder.readRecord
          Act.modify fun self => { self with currentDecoder := some decoder }
          match record with
          | none => pure ()
          | some _ => do
              Act.modify fun self =>
                { self with currentRecordIndex := self.currentRecordIndex + 1 }
              skipRecords left

/-- The rest of `seek` once the chunk is loaded. -/
def seekWithin (chunkFilePos recordIndex : Nat) (decoder : ActiveDecoder) : Method Unit := do
  Act.modify fun self => { self with currentDecoder := some decoder }
  let self ← Act.get
  skipRecords (if self.currentChunkBegin = chunkFilePos then recordIndex else 0)
  Act.modify fun self =>
    { self with
      pos := { chunkBegin := chunkFilePos, recordIndex := self.currentRecordIndex } }

/-- `seek`. -/
def seek (target : RecordPosition) : Method Unit := do
  setTrustedEnd none
  let chunkFilePos := canonicalChunkAddress target.chunkBegin
  Act.modify fun self =>
    { self with
      currentDecoder := none
      atEof := false
      nextChunkFilePos := chunkFilePos
      currentChunkBegin := chunkFilePos
      currentRecordIndex := 0 }
  let loaded ← attempt (loadChunkAt ext chunkFilePos)
  match loaded with
  | .ok (some decoder) => seekWithin chunkFilePos target.recordIndex decoder
  | .ok none =>
      Act.modify fun self =>
        { self with
          atEof := true
          pos := { chunkBegin := chunkFilePos, recordIndex := target.recordIndex } }
  | .error error => do
      let self ← Act.get
      let recovered ← tryRecoverAt ext self.nextChunkFilePos error
      if recovered then
        Act.modify fun self =>
          { self with pos := { chunkBegin := self.nextChunkFilePos, recordIndex := 0 } }
      else Act.fail (.error error)

/-- The chunk address that a valid block header leads to. -/
def scanOriginOf (blockBegin target : Nat) (header : BlockHeader) : Option Nat :=
  if header.previousChunk = 0 then some blockBegin
  else
    let next := satAdd blockBegin header.nextChunk
    if target < next then checkedSub blockBegin header.previousChunk else some next

/-- `resolve_scan_origin`, once the stream is measured. -/
def scanOrigin (source : Bytes) (streamLen target : Nat) : Nat :=
  let blockBegin := roundDownToBlockBoundary (min target streamLen)
  if blockBegin = 0 then firstDataChunk
  else
    let bytes := readFull source blockBegin blockHeaderSize
    if bytes.length < blockHeaderSize then firstDataChunk
    else
      let header := BlockHeader.fromBytes bytes
      if header.isValid ext = false then firstDataChunk
      else
        match scanOriginOf blockBegin target header with
        | none => firstDataChunk
        | some chunkBegin =>
            if chunkBegin < firstDataChunk ∨ isPossibleChunkBoundary chunkBegin = false then
              firstDataChunk
            else chunkBegin

/-- `resolve_scan_origin`. -/
def resolveScanOrigin (target : Nat) : Method Nat := do
  let self ← Act.get
  Act.whenever (self.streamLen < target) measureStream
  let self ← Act.get
  pure (scanOrigin ext self.source self.streamLen target)

/-- `seek_numeric` at the end of the file. -/
def parkAt (scanPos : Nat) : Method Unit :=
  Act.modify fun self =>
    { self with
      atEof := true
      pos := { chunkBegin := scanPos, recordIndex := 0 }
      currentDecoder := none
      currentChunkBegin := scanPos
      currentRecordIndex := 0
      nextChunkFilePos := scanPos }

/-- The loop of `seek_numeric`. -/
def seekNumericLoop (numeric : Nat) : Nat → Nat → Method Unit
  | 0, _ => Act.fail .outOfFuel
  | fuel + 1, scanPos => do
      let peeked ← attempt (peekChunkHeader ext scanPos)
      match peeked with
      | .ok none => parkAt scanPos
      | .ok (some header) =>
          if numeric ≤ scanPos then seek ext { chunkBegin := scanPos, recordIndex := 0 }
          else if numeric < scanPos + header.numRecords then
            seek ext { chunkBegin := scanPos, recordIndex := numeric - scanPos }
          else seekNumericLoop numeric fuel (chunkEnd scanPos header.dataSize header.numRecords)
      | .error error => do
          let recovered ← tryRecoverAt ext scanPos error
          if recovered then do
            let self ← Act.get
            seekNumericLoop numeric fuel self.nextChunkFilePos
          else Act.fail (.error error)

/-- `seek_numeric`. -/
def seekNumeric (numeric : Nat) : Method Unit := do
  setTrustedEnd none
  let origin ← resolveScanOrigin ext numeric
  let self ← Act.get
  seekNumericLoop ext numeric self.forwardFuel origin

/-- The loop of `find_chunk_before`. -/
def findChunkLoop (target : Nat) : Nat → Nat → Method (Option (Nat × ChunkHeader))
  | 0, _ => Act.fail .outOfFuel
  | fuel + 1, scanPos => do
      let peeked ← peekChunkHeader ext scanPos
      match peeked with
      | none => pure none
      | some header =>
          let stop := chunkEnd scanPos header.dataSize header.numRecords
          if target < stop then pure (some (scanPos, header))
          else findChunkLoop target fuel stop

/-- `find_chunk_before`. -/
def findChunkBefore (target : Nat) : Method (Option (Nat × ChunkHeader)) := do
  let origin ← resolveScanOrigin ext target
  let self ← Act.get
  findChunkLoop ext target self.forwardFuel origin

/-- The loop of `seek_back` over the chunks before. -/
def seekBackLoop : Nat → Nat → Method Bool
  | 0, _ => Act.fail .outOfFuel
  | fuel + 1, chunkPos =>
      if firstDataChunk < chunkPos then do
        let found ← findChunkBefore ext (chunkPos - 1)
        match found with
        | none => pure false
        | some (chunkBegin, header) =>
            if 0 < header.numRecords then do
              seek ext { chunkBegin := chunkBegin, recordIndex := header.numRecords - 1 }
              pure true
            else if chunkPos ≤ chunkBegin then pure false
            else seekBackLoop fuel chunkBegin
      else pure false

/-- `seek_back`.  Every pass of the loop moves to an earlier position. -/
def seekBack : Method Bool := do
  setTrustedEnd none
  let self ← Act.get
  if 0 < self.currentRecordIndex then do
    seek ext
      { chunkBegin := self.currentChunkBegin, recordIndex := self.currentRecordIndex - 1 }
    pure true
  else seekBackLoop ext (self.currentChunkBegin + 1) self.currentChunkBegin

/-! ## Scans -/

/-- The loop of `size`. -/
def sizeLoop : Nat → Nat → Nat → Method Nat
  | 0, _, _ => Act.fail .outOfFuel
  | fuel + 1, scanPos, total => do
      let read ← attempt (readChunkHeaderAt ext scanPos)
      match read with
      | .ok none => pure total
      | .ok (some (header, chunkBegin, _)) =>
          if header.isHeaderValid ext then
            let counted :=
              match header.chunkType with
              | .ok .simple => header.numRecords
              | .ok .transposed => header.numRecords
              | _ => 0
            sizeLoop fuel (chunkEnd chunkBegin header.dataSize header.numRecords)
              (total + counted)
          else do
            let error : RiegeliError :=
              .malformedData s!"invalid chunk header at {chunkBegin} during size scan"
            let verdict ← reportRegionAt ext scanPos error
            if verdict = some true then do
              let stop ← lastRegionStop
              sizeLoop fuel stop total
            else Act.fail (.error error)
      | .error error => do
          let verdict ← reportRegionAt ext scanPos error
          if verdict = some true then do
            let stop ← lastRegionStop
            sizeLoop fuel stop total
          else Act.fail (.error error)

/-- `size`. -/
def size : Method Nat := do
  setTrustedEnd none
  let self ← Act.get
  sizeLoop ext self.forwardFuel firstDataChunk 0

/-- The loop of `check_file_format`. -/
def checkFormatLoop : Nat → Nat → Method Unit
  | 0, _ => Act.fail .outOfFuel
  | fuel + 1, scanPos => do
      let read ← readChunkHeaderAt ext scanPos
      match read with
      | none => pure ()
      | some (header, chunkBegin, dataBegin) =>
          if header.isHeaderValid ext = false then
            Act.fail (malformed s!"invalid chunk header hash at offset {chunkBegin}")
          else do
            let stop := chunkEnd chunkBegin header.dataSize header.numRecords
            let self ← Act.get
            let data ←
              Act.lift (readChunkData ext self.source chunkBegin stop dataBegin header.dataSize)
            if header.isDataValid ext data = false then
              Act.fail (malformed s!"chunk data hash mismatch at offset {chunkBegin}")
            else checkFormatLoop fuel stop

/-- `check_file_format`. -/
def checkFileFormat : Method Unit := do
  let self ← Act.get
  let bytes ← Act.lift (readExactAt self.source 0 blockHeaderSize)
  if (BlockHeader.fromBytes bytes).isValid ext = false then
    Act.fail (malformed "invalid block header hash at offset 0")
  else checkFormatLoop ext self.forwardFuel blockHeaderSize

/-! ## Metadata -/

/-- The record of a metadata chunk, decoded under a header of its own. -/
def decodeMetadata (data : Bytes) (decodedDataSize : Nat) : Rust Bytes := do
  let decoder ←
    TransposeChunkDecoder.new ext
      { header := ChunkHeader.fromParts ext data .transposed 1 decodedDataSize, data := data }
  let (record, _) ← decoder.readRecord
  match record with
  | some record => .ok record
  | none => .error (malformed "file metadata chunk decoded to no records")

/-- `read_metadata_chunk_payload`. -/
def readMetadataPayload (metadataPos : Nat) (header : ChunkHeader) : Method Bytes := do
  Act.lift (validateSpecialChunk header metadataPos .fileMetadata)
  let stop := chunkEnd metadataPos header.dataSize header.numRecords
  let self ← Act.get
  let data ←
    Act.lift
      (readChunkData ext self.source metadataPos stop (metadataPos + chunkHeaderSize)
        header.dataSize)
  setTrustedEnd (some stop)
  if header.isDataValid ext data = false then
    Act.fail (malformed "metadata chunk data hash mismatch")
  else Act.lift (decodeMetadata ext data header.decodedDataSize)

/-- A failure of a metadata read: report the region and leave the position. -/
def reportMetadata (metadataPos : Nat) (error : RiegeliError) : Method (Option Bytes) := do
  let verdict ← reportRegionAt ext metadataPos error
  if verdict = some true then pure none else Act.fail (.error error)

/-- `read_serialized_metadata`. -/
def readSerializedMetadata : Method (Option Bytes) := do
  setTrustedEnd none
  let peeked ← attempt (peekChunkHeader ext firstDataChunk)
  match peeked with
  | .ok none => pure none
  | .error error => reportMetadata ext firstDataChunk error
  | .ok (some header) =>
      if header.chunkType.toOption ≠ some .fileMetadata then pure none
      else do
        let payload ← attempt (readMetadataPayload ext firstDataChunk header)
        match payload with
        | .ok metadata => pure (some metadata)
        | .error error => reportMetadata ext firstDataChunk error

/-- `set_field_projection`. -/
def setFieldProjection (projection : FieldProjection) : Method Unit :=
  Act.modify fun self =>
    { self with fieldProjection := if projection.isAll then none else some projection }

/-! ## Search -/

/-- The loop of `collect_data_chunks`. -/
def collectLoop : Nat → Nat → List (Nat × Nat) → Method (List (Nat × Nat))
  | 0, _, _ => Act.fail .outOfFuel
  | fuel + 1, scanPos, chunks => do
      let read ← attempt (readChunkHeaderAt ext scanPos)
      match read with
      | .ok none => pure chunks
      | .ok (some (header, chunkBegin, _)) =>
          if header.isHeaderValid ext = false then do
            let error : RiegeliError :=
              .malformedData s!"invalid chunk header at {chunkBegin} during search scan"
            let recovered ← tryRecoverAt ext scanPos error
            if recovered then do
              let self ← Act.get
              collectLoop fuel self.nextChunkFilePos chunks
            else Act.fail (.error error)
          else
            let isData :=
              header.chunkType.toOption = some .simple ∨
                header.chunkType.toOption = some .transposed
            let chunks :=
              if 0 < header.numRecords ∧ isData then chunks ++ [(chunkBegin, header.numRecords)]
              else chunks
            collectLoop fuel (chunkEnd chunkBegin header.dataSize header.numRecords) chunks
      | .error error => do
          let recovered ← tryRecoverAt ext scanPos error
          if recovered then do
            let self ← Act.get
            collectLoop fuel self.nextChunkFilePos chunks
          else Act.fail (.error error)

/-- `collect_data_chunks`. -/
def collectDataChunks : Method (List (Nat × Nat)) := do
  setTrustedEnd none
  let self ← Act.get
  collectLoop ext self.forwardFuel firstDataChunk []

/-- `park_at_end_of_stream`. -/
def parkAtEndOfStream : Method Unit :=
  Act.modify fun self =>
    { self with
      atEof := true
      currentDecoder := none
      nextChunkFilePos := max self.streamLen firstDataChunk
      currentChunkBegin := max self.streamLen firstDataChunk
      currentRecordIndex := 0 }

/-- `read_record_at`. -/
def readRecordAt (chunkPos recordIndex : Nat) : Method (Option Bytes) := do
  seek ext { chunkBegin := chunkPos, recordIndex := recordIndex }
  let record ← readRecord ext
  let self ← Act.get
  match record with
  | some record => pure (if self.currentChunkBegin = chunkPos then some record else none)
  | none => pure none

/-- The loop of `search` that looks for a readable pivot. -/
def probeLoop (test : Bytes → Ordering) (chunks : List (Nat × Nat)) (hi : Nat) :
    Nat → Nat → Method (Option (Nat × Nat × Ordering))
  | 0, _ => Act.fail .outOfFuel
  | fuel + 1, probe =>
      if probe < hi then do
        let (chunkPos, _) ← Act.lift (indexAt chunks probe)
        let first ← readRecordAt ext chunkPos 0
        match first with
        | some record => pure (some (probe, chunkPos, test record))
        | none => probeLoop test chunks hi fuel (probe + 1)
      else pure none

/-- The loop of `binary_search_within_chunk`. -/
def withinChunkLoop (test : Bytes → Ordering) (chunkPos : Nat) : Nat → Nat → Nat → Method Bool
  | 0, _, _ => Act.fail .outOfFuel
  | fuel + 1, lo, hi =>
      if lo < hi then do
        let mid := lo + (hi - lo) / 2
        let read ← readRecordAt ext chunkPos mid
        match read with
        | none => pure false
        | some record =>
            match test record with
            | .lt => withinChunkLoop test chunkPos fuel (mid + 1) hi
            | .gt => withinChunkLoop test chunkPos fuel lo mid
            | .eq => do
                seek ext { chunkBegin := chunkPos, recordIndex := mid }
                pure true
      else pure false

/-- `binary_search_within_chunk`. -/
def binarySearchWithinChunk (test : Bytes → Ordering) (chunkPos numRecords : Nat) :
    Method Bool :=
  if numRecords = 0 then pure false
  else withinChunkLoop ext test chunkPos (numRecords + 1) 1 numRecords

/-- The outcome of the binary search over the chunks. -/
inductive ChunkSearch where
  | found
  | left (lo : Nat)
deriving Repr, DecidableEq

/-- The binary search over the first records of the chunks in `search`. -/
def searchLoop (test : Bytes → Ordering) (chunks : List (Nat × Nat)) :
    Nat → Nat → Nat → Method ChunkSearch
  | 0, _, _ => Act.fail .outOfFuel
  | fuel + 1, lo, hi =>
      if lo < hi then do
        let mid := lo + (hi - lo) / 2
        let ordering ← probeLoop ext test chunks hi (hi - mid + 1) mid
        match ordering with
        | none => searchLoop test chunks fuel lo mid
        | some (probe, _, .lt) => searchLoop test chunks fuel (probe + 1) hi
        | some (_, _, .gt) => searchLoop test chunks fuel lo mid
        | some (_, chunkPos, .eq) => do
            seek ext { chunkBegin := chunkPos, recordIndex := 0 }
            pure .found
      else pure (.left lo)

/-- The search inside the chunk before `lo`, and the end of `search`. -/
def searchBefore (test : Bytes → Ordering) (chunks : List (Nat × Nat)) (lo : Nat) :
    Method Bool :=
  if 0 < lo then do
    let (chunkPos, numRecords) ← Act.lift (indexAt chunks (lo - 1))
    let found ← binarySearchWithinChunk ext test chunkPos numRecords
    if found then pure true
    else do
      parkAtEndOfStream
      pure false
  else do
    parkAtEndOfStream
    pure false

/-- `search`. -/
def search (test : Bytes → Ordering) : Method Bool := do
  let chunks ← collectDataChunks ext
  if chunks.isEmpty then do
    parkAtEndOfStream
    pure false
  else do
    let outcome ← searchLoop ext test chunks (chunks.length + 1) 0 chunks.length
    match outcome with
    | .found => pure true
    | .left lo => searchBefore ext test chunks lo

end RecordReader

end Riegeli
