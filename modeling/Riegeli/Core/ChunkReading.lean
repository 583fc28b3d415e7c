/-
Module: Riegeli.Core.ChunkReading
Purpose: How `record_reader.rs` reads one chunk header and one chunk's data
  from a source, block headers included, and the checks on special chunks.
Trusted boundary: the hash
Main exports: readFull, readExactAt, HeaderScan, readHeaderBytes,
  readChunkData, validateSpecialChunk, nextBlockBoundary
-/
import Riegeli.Core.Headers

namespace Riegeli

variable (ext : Externals)

/-- `read_full` after a seek to `pos`: the bytes that are there, at most
`count` of them. -/
def readFull (source : Bytes) (pos count : Nat) : Bytes := (source.drop pos).take count

/-- `read_exact` after a seek to `pos`. -/
def readExactAt (source : Bytes) (pos count : Nat) : Rust Bytes :=
  let bytes := readFull source pos count
  if bytes.length < count then
    .error
      (.error (.ioError { kind := .unexpectedEof, message := "failed to fill whole buffer" }))
  else .ok bytes

/-- `next_block_boundary`. -/
def nextBlockBoundary (pos : Nat) : Nat :=
  if isBlockBoundary pos then pos else roundDownToBlockBoundary pos + blockSize

/-! ## The chunk header -/

/-- The variables of `read_chunk_header_at`. -/
structure HeaderScan where
  filePos : Nat
  bytes : Bytes
  consumedAny : Bool
  interiorBlockHeader : Option (Nat × BlockHeader)
deriving Repr, DecidableEq

/-- The text for a stream that ends inside a chunk. -/
def truncatedChunk (chunkBegin : Nat) : Fault :=
  malformed s!"truncated Riegeli/records file: incomplete chunk at {chunkBegin}"

/-- The text for a block header that points back elsewhere. -/
def previousMismatch (chunkBegin filePos : Nat) : Fault :=
  malformed
    s!"chunk boundary is {chunkBegin} but block header at {filePos} implies a different previous chunk boundary"

/-- The text for a block header that points forward elsewhere. -/
def nextMismatch (chunkStop filePos : Nat) : Fault :=
  malformed
    s!"chunk boundary is {chunkStop} but block header at {filePos} implies a different next chunk boundary"

/-- The first half of a pass: the block header, if one is due.  `none` is a
clean end of file. -/
def scanBlockHeader (source : Bytes) (chunkBegin : Nat) (scan : HeaderScan) :
    Rust (Option HeaderScan) :=
  if isBlockBoundary scan.filePos then
    let bytes := readFull source scan.filePos blockHeaderSize
    if bytes.length < blockHeaderSize then
      if bytes.length = 0 ∧ scan.consumedAny = false then .ok none
      else .error (truncatedChunk chunkBegin)
    else
      let header := BlockHeader.fromBytes bytes
      if header.isValid ext = false then
        .error (malformed s!"invalid block header hash at file position {scan.filePos}")
      else if checkedSub scan.filePos header.previousChunk ≠ some chunkBegin then
        .error (previousMismatch chunkBegin scan.filePos)
      else
        .ok
          (some
            { scan with
              filePos := scan.filePos + blockHeaderSize
              consumedAny := true
              interiorBlockHeader :=
                if 0 < scan.bytes.length then some (scan.filePos, header)
                else scan.interiorBlockHeader })
  else .ok (some scan)

/-- The second half of a pass: header bytes up to the next boundary. -/
def scanHeaderBytes (source : Bytes) (chunkBegin : Nat) (scan : HeaderScan) :
    Rust (Option HeaderScan) :=
  let untilBoundary := blockSize - scan.filePos % blockSize
  let toRead := min (chunkHeaderSize - scan.bytes.length) untilBoundary
  let bytes := readFull source scan.filePos toRead
  if bytes.length < toRead then
    if bytes.length = 0 ∧ scan.consumedAny = false then .ok none
    else .error (truncatedChunk chunkBegin)
  else
    .ok
      (some
        { scan with
          filePos := scan.filePos + toRead
          bytes := scan.bytes ++ bytes
          consumedAny := true })

/-- The loop of `read_chunk_header_at`.  Every pass reads a byte. -/
def headerLoop (source : Bytes) (chunkBegin : Nat) :
    Nat → HeaderScan → Rust (Option HeaderScan)
  | 0, _ => .error .outOfFuel
  | fuel + 1, scan =>
      if scan.bytes.length < chunkHeaderSize then do
        let atHeader ← scanBlockHeader ext source chunkBegin scan
        match atHeader with
        | none => .ok none
        | some scan => do
            let advanced ← scanHeaderBytes source chunkBegin scan
            match advanced with
            | none => .ok none
            | some scan => headerLoop source chunkBegin fuel scan
      else .ok (some scan)

/-- The header bytes of the chunk at a canonical address, as far as
`read_chunk_header_at` reads them before it parses them. -/
def readHeaderBytes (source : Bytes) (chunkBegin : Nat) : Rust (Option HeaderScan) :=
  headerLoop ext source chunkBegin (chunkHeaderSize + 1)
    { filePos := chunkBegin, bytes := [], consumedAny := false, interiorBlockHeader := none }

/-- The claims of a hash-valid header that leave the stream. -/
def claimsExceed (header : ChunkHeader) (chunkBegin dataBegin streamLen : Nat) : Bool :=
  decide (streamLen - dataBegin < header.dataSize) ||
    decide (streamLen - chunkBegin < header.numRecords)

/-- The errors for claims that leave the stream as it is measured now. -/
def checkClaims (header : ChunkHeader) (chunkBegin dataBegin streamLen : Nat) : Rust Unit :=
  if streamLen - dataBegin < header.dataSize then
    .error
      (malformed
        s!"chunk at {chunkBegin} claims {header.dataSize} data bytes with only {streamLen - dataBegin} bytes left in the stream")
  else if streamLen - chunkBegin < header.numRecords then
    .error
      (malformed
        s!"chunk at {chunkBegin} claims {header.numRecords} records with only {streamLen - chunkBegin} bytes left in the stream")
  else .ok ()

/-- A block header inside the chunk header must point to the chunk's end. -/
def checkInterior (header : ChunkHeader) (chunkBegin : Nat) :
    Option (Nat × BlockHeader) → Rust Unit
  | none => .ok ()
  | some (blockBegin, blockHeader) =>
      let stop := chunkEnd chunkBegin header.dataSize header.numRecords
      if checkedAdd blockBegin blockHeader.nextChunk ≠ some stop then
        .error (nextMismatch stop blockBegin)
      else .ok ()

/-! ## The chunk data -/

/-- The block header of a boundary inside the data, if one is due: the place
after it. -/
def passBlockHeader (source : Bytes) (chunkBegin chunkStop filePos : Nat) : Rust Nat :=
  if isBlockBoundary filePos then do
    let bytes ← readExactAt source filePos blockHeaderSize
    let header := BlockHeader.fromBytes bytes
    if header.isValid ext = false then
      .error
        (malformed
          s!"invalid block header hash at file position {filePos} (during data read)")
    else if checkedSub filePos header.previousChunk ≠ some chunkBegin then
      .error (previousMismatch chunkBegin filePos)
    else if checkedAdd filePos header.nextChunk ≠ some chunkStop then
      .error (nextMismatch chunkStop filePos)
    else .ok (filePos + blockHeaderSize)
  else .ok filePos

/-- The loop of `read_chunk_data`.  Every pass reads a byte. -/
def chunkDataLoop (source : Bytes) (chunkBegin chunkStop : Nat) :
    Nat → Nat → Nat → Bytes → Rust Bytes
  | 0, _, _, _ => .error .outOfFuel
  | fuel + 1, filePos, remaining, result =>
      if 0 < remaining then do
        let filePos ← passBlockHeader ext source chunkBegin chunkStop filePos
        let untilBoundary := blockSize - filePos % blockSize
        let toRead := min remaining untilBoundary
        let bytes ← readExactAt source filePos toRead
        chunkDataLoop source chunkBegin chunkStop fuel (filePos + toRead) (remaining - toRead)
          (result ++ bytes)
      else .ok result

/-- `read_chunk_data`. -/
def readChunkData (source : Bytes) (chunkBegin chunkStop dataBegin dataSize : Nat) :
    Rust Bytes :=
  chunkDataLoop ext source chunkBegin chunkStop (dataSize + 1) dataBegin dataSize []

/-! ## Special chunks -/

/-- `validate_special_chunk`. -/
def validateSpecialChunk (header : ChunkHeader) (chunkBegin : Nat) (chunkType : ChunkType) :
    Rust Unit :=
  match chunkType with
  | .fileSignature =>
      if header.dataSize ≠ 0 ∨ header.numRecords ≠ 0 ∨ header.decodedDataSize ≠ 0 then
        .error
          (malformed
            s!"invalid file signature chunk at {chunkBegin}: data size {header.dataSize}, number of records {header.numRecords}, and decoded data size {header.decodedDataSize} must all be zero")
      else .ok ()
  | .fileMetadata =>
      if header.numRecords ≠ 0 then
        .error
          (malformed
            s!"invalid file metadata chunk at {chunkBegin}: number of records is not zero: {header.numRecords}")
      else .ok ()
  | .padding =>
      if header.numRecords ≠ 0 ∨ header.decodedDataSize ≠ 0 then
        .error
          (malformed
            s!"invalid padding chunk at {chunkBegin}: number of records {header.numRecords} and decoded data size {header.decodedDataSize} must both be zero")
      else .ok ()
  | .simple => .ok ()
  | .transposed => .ok ()

end Riegeli
