/-
Module: Riegeli.Core.SimpleChunk
Purpose: The simple chunk encoder and decoder of `simple_chunk.rs`.
Trusted boundary: the hash and the codecs
Main exports: SimpleChunkEncoder, SimpleChunkEncoder.encode,
  SimpleChunkDecoder, SimpleChunkDecoder.new, SimpleChunkDecoder.readRecord
-/
import Riegeli.Core.Headers

namespace Riegeli

variable (ext : Externals)

/-- `SimpleChunkEncoder`. -/
structure SimpleChunkEncoder where
  records : List Bytes
  compression : CompressionType
  compressOpts : CompressOptions
deriving Repr, DecidableEq

/-- The concatenated varint sizes of the records. -/
def sizesSection (records : List Bytes) : Bytes :=
  records.flatMap fun record => encodeU64 record.length

/-- `encode_compressed`. -/
def encodeCompressed (records : List Bytes) (compression : CompressionType)
    (opts : CompressOptions) : Rust Bytes := do
  let sizes := sizesSection records
  let values := records.flatten
  let compressedSizes ← compressData ext sizes compression opts
  let compressedValues ← compressData ext values compression opts
  let totalSizesBlobLen := lengthVarintU64 sizes.length + compressedSizes.length
  .ok
    ([compression.toByte] ++ encodeU64 totalSizesBlobLen ++ encodeU64 sizes.length ++
      compressedSizes ++ encodeU64 values.length ++ compressedValues)

namespace SimpleChunkEncoder

/-- `SimpleChunkEncoder::with_options`. -/
def withOptions (compression : CompressionType) (compressOpts : CompressOptions) :
    SimpleChunkEncoder :=
  { records := [], compression := compression, compressOpts := compressOpts }

/-- `SimpleChunkEncoder::add_record`. -/
def addRecord (self : SimpleChunkEncoder) (data : Bytes) : SimpleChunkEncoder :=
  { self with records := self.records ++ [data] }

/-- The data of the chunk, the `match` of `encode`. -/
def encodeData (self : SimpleChunkEncoder) : Rust Bytes :=
  match self.compression with
  | .none =>
      let sizes := sizesSection self.records
      .ok ([0] ++ encodeU64 sizes.length ++ sizes ++ self.records.flatten)
  | other => encodeCompressed ext self.records other self.compressOpts

/-- `SimpleChunkEncoder::encode`. -/
def encode (self : SimpleChunkEncoder) : Rust Chunk := do
  let numRecords := self.records.length
  let decodedDataSize := (self.records.map List.length).sum
  let data ← self.encodeData ext
  .ok
    { header := ChunkHeader.fromParts ext data .simple numRecords decodedDataSize
      data := data }

end SimpleChunkEncoder

/-- `SimpleChunkDecoder`. -/
structure SimpleChunkDecoder where
  recordRanges : List (Nat × Nat)
  values : Bytes
  nextRecord : Nat
deriving Repr, DecidableEq

/-! ## The sizes section -/

/-- The words in which the two decode paths report a bad sizes section. -/
structure SizesTexts where
  unexpectedEnd : Nat → String
  varint : Nat → VarintError → String

/-- The variables of the sizes loop. -/
structure SizesState where
  pos : Nat
  decodedTotal : Nat
  sizes : List Nat
deriving Repr, DecidableEq

/-- The loop over the records of a sizes section, shared by both paths.  The
first argument counts the records left and `index` those read. -/
def parseSizesLoop (texts : SizesTexts) (sizesData : Bytes) (decodedDataSize : Nat) :
    Nat → Nat → SizesState → Rust SizesState
  | 0, _, state => .ok state
  | left + 1, index, state =>
      if sizesData.length ≤ state.pos then .error (malformed (texts.unexpectedEnd index))
      else
        match decodeU64 (sizesData.drop state.pos) with
        | .error error => .error (malformed (texts.varint index error))
        | .ok (size, consumed) =>
            match (checkedAdd state.decodedTotal size).filter (· ≤ decodedDataSize) with
            | none => .error (malformed "decoded data size larger than expected")
            | some total =>
                parseSizesLoop texts sizesData decodedDataSize left (index + 1)
                  { pos := state.pos + consumed
                    decodedTotal := total
                    sizes := state.sizes ++ [size] }

/-- The sizes loop with the checks after it. -/
def parseSizes (texts : SizesTexts) (sizesData : Bytes) (numRecords decodedDataSize : Nat) :
    Rust (List Nat) := do
  let state ←
    parseSizesLoop texts sizesData decodedDataSize numRecords 0
      { pos := 0, decodedTotal := 0, sizes := [] }
  if state.pos ≠ sizesData.length then
    .error
      (malformed
        s!"trailing data in sizes section: {state.pos} of {sizesData.length} bytes consumed")
  else if state.decodedTotal ≠ decodedDataSize then
    .error (malformed "decoded data size smaller than expected")
  else .ok state.sizes

/-- `sizes.iter().try_fold(0, checked_add)`. -/
def checkedSum : List Nat → Nat → Option Nat
  | [], total => some total
  | size :: rest, total => (checkedAdd total size).bind (checkedSum rest)

/-- The `(offset, length)` pairs of consecutive records. -/
def recordRangesFrom : Nat → List Nat → List (Nat × Nat)
  | _, [] => []
  | offset, size :: rest => (offset, size) :: recordRangesFrom (offset + size) rest

/-! ## The two decode paths -/

/-- `decode_uncompressed`. -/
def decodeUncompressed (payload : Bytes) (numRecords decodedDataSize : Nat) :
    Rust SimpleChunkDecoder :=
  match decodeU64 payload with
  | .error error =>
      .error (malformed s!"failed to read sizes_byte_length: {error.toText}")
  | .ok (sizesByteLen, sizesStart) => do
      let available ← subWord payload.length sizesStart
      if available < sizesByteLen then
        .error
          (malformed
            s!"sizes section truncated: need {sizesByteLen} bytes starting at offset {sizesStart}, but payload is only {payload.length} bytes")
      else
        let sizesEnd := sizesStart + sizesByteLen
        let sizesData ← sliceRange payload sizesStart sizesEnd
        let sizes ←
          parseSizes
            { unexpectedEnd := fun index => s!"unexpected end of sizes section at record {index}"
              varint := fun index error =>
                s!"varint decode error at record {index}: {error.toText}" }
            sizesData numRecords decodedDataSize
        match checkedSum sizes 0 with
        | none => .error (malformed "record sizes sum overflows")
        | some totalValuesLen =>
            match checkedAdd sizesEnd totalValuesLen with
            | none => .error (malformed "values section end overflows")
            | some valuesEnd =>
                if payload.length < valuesEnd then
                  .error
                    (malformed
                      s!"values section truncated: need {totalValuesLen} bytes but only {payload.length - sizesEnd} available")
                else if valuesEnd < payload.length then
                  .error
                    (malformed
                      s!"trailing data after values section: {payload.length - valuesEnd} extra bytes")
                else do
                  let values ← sliceRange payload sizesEnd (sizesEnd + totalValuesLen)
                  .ok
                    { recordRanges := recordRangesFrom 0 sizes
                      values := values
                      nextRecord := 0 }

/-- `decode_compressed`. -/
def decodeCompressed (payload : Bytes) (numRecords : Nat) (compression : CompressionType)
    (decodedDataSize : Nat) : Rust SimpleChunkDecoder :=
  if payload.isEmpty then .error (malformed "compressed payload is empty")
  else
    match decodeU64 payload with
    | .error error => .error (malformed s!"failed to read sizes_blob_len: {error.toText}")
    | .ok (sizesBlobLen, pos) => do
        let available ← subWord payload.length pos
        if available < sizesBlobLen then
          .error
            (malformed
              s!"sizes blob truncated: need {sizesBlobLen} bytes at offset {pos}, payload is {payload.length} bytes")
        else
          let sizesBlobEnd := pos + sizesBlobLen
          let sizesBlob ← sliceRange payload pos sizesBlobEnd
          match decodeU64 sizesBlob with
          | .error error =>
              .error (malformed s!"failed to read uncompressed_sizes_len: {error.toText}")
          | .ok (uncompressedSizesLen, consumed) => do
              let compressedSizes ← sliceRange sizesBlob consumed sizesBlob.length
              let maxSizesLen := satMul numRecords 10
              if maxSizesLen < uncompressedSizesLen then
                .error
                  (malformed
                    s!"claimed sizes length {uncompressedSizesLen} exceeds {maxSizesLen} ({numRecords} records x 10-byte varints)")
              else
                let sizesBytes ←
                  decompressDataCapped ext compressedSizes compression uncompressedSizesLen
                if sizesBytes.length ≠ uncompressedSizesLen then
                  .error
                    (malformed
                      s!"decompressed sizes length {sizesBytes.length} != expected {uncompressedSizesLen}")
                else
                  let sizes ←
                    parseSizes
                      { unexpectedEnd := fun index =>
                          s!"unexpected end of decompressed sizes at record {index}"
                        varint := fun index error =>
                          s!"varint decode in sizes at record {index}: {error.toText}" }
                      sizesBytes numRecords decodedDataSize
                  let valuesBlob ← sliceRange payload sizesBlobEnd payload.length
                  match decodeU64 valuesBlob with
                  | .error error =>
                      .error (malformed s!"failed to read uncompressed_values_len: {error.toText}")
                  | .ok (uncompressedValuesLen, consumed) =>
                      if uncompressedValuesLen ≠ decodedDataSize then
                        .error
                          (malformed
                            s!"claimed values length {uncompressedValuesLen} != decoded data size {decodedDataSize}")
                      else do
                        let compressedValues ← sliceRange valuesBlob consumed valuesBlob.length
                        let valuesBytes ←
                          decompressDataCapped ext compressedValues compression decodedDataSize
                        match checkedSum sizes 0 with
                        | none => .error (malformed "record sizes sum overflows")
                        | some totalValuesLen =>
                            if totalValuesLen ≠ valuesBytes.length then
                              .error
                                (malformed
                                  s!"values length mismatch: sizes sum {totalValuesLen} != decompressed values {valuesBytes.length}")
                            else
                              .ok
                                { recordRanges := recordRangesFrom 0 sizes
                                  values := valuesBytes
                                  nextRecord := 0 }

namespace SimpleChunkDecoder

/-- `SimpleChunkDecoder::new`.  A claim of `chunk.header` always fits in
`usize` here. -/
def new (chunk : Chunk) : Rust SimpleChunkDecoder :=
  if chunk.header.isDataValid ext chunk.data = false then .error (.error .dataHashMismatch)
  else
    let numRecords := chunk.header.numRecords
    let decodedDataSize := chunk.header.decodedDataSize
    match chunk.data with
    | [] => .error (malformed "chunk data is empty")
    | compressionByte :: payload =>
        if compressionByte = 0 then decodeUncompressed payload numRecords decodedDataSize
        else if compressionByte = 98 then
          decodeCompressed ext payload numRecords .brotli decodedDataSize
        else if compressionByte = 122 then
          decodeCompressed ext payload numRecords .zstd decodedDataSize
        else if compressionByte = 115 then
          decodeCompressed ext payload numRecords .snappy decodedDataSize
        else .error (.error (.unsupportedCompression compressionByte))

/-- `SimpleChunkDecoder::read_record`. -/
def readRecord (self : SimpleChunkDecoder) : Rust (Option Bytes × SimpleChunkDecoder) :=
  match self.recordRanges[self.nextRecord]? with
  | none => .ok (none, self)
  | some (offset, length) => do
      let record ← sliceRange self.values offset (offset + length)
      .ok (some record, { self with nextRecord := self.nextRecord + 1 })

end SimpleChunkDecoder

end Riegeli
