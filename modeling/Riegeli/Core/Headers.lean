/-
Module: Riegeli.Core.Headers
Purpose: The block header of `block_header.rs` and the chunk header of
  `chunk_header.rs`: layout, hashes, and the round trip through the bytes.
Trusted boundary: the hash
Main exports: BlockHeader, ChunkType, ChunkHeader, Chunk,
  BlockHeader.fromBytes_toBytes, ChunkHeader.fromBytes_toBytes
-/
import Riegeli.Core.Externals
import Riegeli.Core.BlockArithmetic

namespace Riegeli

variable (ext : Externals)

/-- `BlockHeader`. -/
structure BlockHeader where
  headerHash : Nat
  previousChunk : Nat
  nextChunk : Nat
deriving Repr, DecidableEq

/-- `BlockHeader::from_parts`. -/
def BlockHeader.fromParts (previousChunk nextChunk : Nat) : BlockHeader :=
  { headerHash := highwayHash64 ext (toLeBytes 8 previousChunk ++ toLeBytes 8 nextChunk)
    previousChunk := previousChunk
    nextChunk := nextChunk }

/-- `BlockHeader::from_bytes` on its 24 bytes. -/
def BlockHeader.fromBytes (bytes : Bytes) : BlockHeader :=
  { headerHash := fromLeBytes (bytes.take 8)
    previousChunk := fromLeBytes ((bytes.drop 8).take 8)
    nextChunk := fromLeBytes ((bytes.drop 16).take 8) }

/-- `BlockHeader::to_bytes`. -/
def BlockHeader.toBytes (header : BlockHeader) : Bytes :=
  toLeBytes 8 header.headerHash ++ toLeBytes 8 header.previousChunk ++
    toLeBytes 8 header.nextChunk

/-- `BlockHeader::computed_hash`. -/
def BlockHeader.computedHash (header : BlockHeader) : Nat :=
  highwayHash64 ext ((header.toBytes.drop 8).take 16)

/-- `BlockHeader::is_valid`. -/
def BlockHeader.isValid (header : BlockHeader) : Bool :=
  header.headerHash == header.computedHash ext

/-- `ChunkType`. -/
inductive ChunkType where
  | fileSignature
  | fileMetadata
  | padding
  | simple
  | transposed
deriving Repr, DecidableEq

/-- The discriminant, `chunk_type as u64`. -/
def ChunkType.toNat : ChunkType → Nat
  | .fileSignature => 115
  | .fileMetadata => 109
  | .padding => 112
  | .simple => 114
  | .transposed => 116

/-- `ChunkHeader`. -/
structure ChunkHeader where
  headerHash : Nat
  dataSize : Nat
  dataHash : Nat
  chunkTypeAndNumRecords : Nat
  decodedDataSize : Nat
deriving Repr, DecidableEq

/-- The 32 bytes of a chunk header its hash covers. -/
def chunkHeaderBody (dataSize dataHash chunkTypeAndNumRecords decodedDataSize : Nat) :
    Bytes :=
  toLeBytes 8 dataSize ++ toLeBytes 8 dataHash ++ toLeBytes 8 chunkTypeAndNumRecords ++
    toLeBytes 8 decodedDataSize

/-- `ChunkHeader::from_parts`.  The shift drops the bits that leave the word. -/
def ChunkHeader.fromParts (data : Bytes) (chunkType : ChunkType)
    (numRecords decodedDataSize : Nat) : ChunkHeader :=
  let dataHash := highwayHash64 ext data
  let chunkTypeAndNumRecords := numRecords * 256 % 2 ^ 64 + chunkType.toNat
  { headerHash :=
      highwayHash64 ext
        (chunkHeaderBody data.length dataHash chunkTypeAndNumRecords decodedDataSize)
    dataSize := data.length
    dataHash := dataHash
    chunkTypeAndNumRecords := chunkTypeAndNumRecords
    decodedDataSize := decodedDataSize }

/-- `ChunkHeader::from_bytes` on its 40 bytes. -/
def ChunkHeader.fromBytes (bytes : Bytes) : ChunkHeader :=
  { headerHash := fromLeBytes (bytes.take 8)
    dataSize := fromLeBytes ((bytes.drop 8).take 8)
    dataHash := fromLeBytes ((bytes.drop 16).take 8)
    chunkTypeAndNumRecords := fromLeBytes ((bytes.drop 24).take 8)
    decodedDataSize := fromLeBytes ((bytes.drop 32).take 8) }

/-- `ChunkHeader::to_bytes`. -/
def ChunkHeader.toBytes (header : ChunkHeader) : Bytes :=
  toLeBytes 8 header.headerHash ++
    chunkHeaderBody header.dataSize header.dataHash header.chunkTypeAndNumRecords
      header.decodedDataSize

/-- `ChunkHeader::chunk_type`. -/
def ChunkHeader.chunkType (header : ChunkHeader) : Except RiegeliError ChunkType :=
  let byte := header.chunkTypeAndNumRecords % 256
  if byte = 115 then .ok .fileSignature
  else if byte = 109 then .ok .fileMetadata
  else if byte = 112 then .ok .padding
  else if byte = 114 then .ok .simple
  else if byte = 116 then .ok .transposed
  else
    .error (.malformedData
      ("unknown chunk type byte: " ++ hexByte (UInt8.ofNat byte)))

/-- `ChunkHeader::num_records`. -/
def ChunkHeader.numRecords (header : ChunkHeader) : Nat :=
  header.chunkTypeAndNumRecords / 256

/-- `ChunkHeader::is_header_valid`. -/
def ChunkHeader.isHeaderValid (header : ChunkHeader) : Bool :=
  header.headerHash == highwayHash64 ext ((header.toBytes.drop 8).take 32)

/-- `ChunkHeader::is_data_valid`. -/
def ChunkHeader.isDataValid (header : ChunkHeader) (data : Bytes) : Bool :=
  header.dataHash == highwayHash64 ext data

/-- `Chunk` of `simple_chunk.rs`. -/
structure Chunk where
  header : ChunkHeader
  data : Bytes
deriving Repr, DecidableEq

/-! ## Layout -/

variable {ext}

theorem highwayHash64_le (data : Bytes) : highwayHash64 ext data ≤ u64Max := by
  have := (ext.hash data).toNat_lt
  unfold highwayHash64 u64Max
  omega

@[simp] theorem BlockHeader.length_toBytes (header : BlockHeader) :
    header.toBytes.length = 24 := by
  simp [BlockHeader.toBytes]

@[simp] theorem length_chunkHeaderBody (dataSize dataHash chunkTypeAndNumRecords
    decodedDataSize : Nat) :
    (chunkHeaderBody dataSize dataHash chunkTypeAndNumRecords decodedDataSize).length = 32 := by
  simp [chunkHeaderBody]

@[simp] theorem ChunkHeader.length_toBytes (header : ChunkHeader) :
    header.toBytes.length = 40 := by
  simp [ChunkHeader.toBytes]

/-- A block header survives its bytes when its fields are words. -/
theorem BlockHeader.fromBytes_toBytes {header : BlockHeader}
    (hashFits : header.headerHash ≤ u64Max) (previousFits : header.previousChunk ≤ u64Max)
    (nextFits : header.nextChunk ≤ u64Max) :
    BlockHeader.fromBytes header.toBytes = header := by
  have first : header.toBytes.take 8 = toLeBytes 8 header.headerHash := by
    simp [BlockHeader.toBytes]
  have second : (header.toBytes.drop 8).take 8 = toLeBytes 8 header.previousChunk := by
    simp [BlockHeader.toBytes]
  have third : (header.toBytes.drop 16).take 8 = toLeBytes 8 header.nextChunk := by
    simp [BlockHeader.toBytes, List.drop_append,
      List.drop_of_length_le, List.take_of_length_le]
  unfold BlockHeader.fromBytes
  rw [first, second, third, fromLeBytes_toLeBytes_eight hashFits,
    fromLeBytes_toLeBytes_eight previousFits, fromLeBytes_toLeBytes_eight nextFits]

/-- The hash stored by `from_parts` is the one `is_valid` computes. -/
theorem BlockHeader.fromParts_isValid (previousChunk nextChunk : Nat) :
    (BlockHeader.fromParts ext previousChunk nextChunk).isValid ext = true := by
  simp [BlockHeader.isValid, BlockHeader.computedHash, BlockHeader.fromParts,
    BlockHeader.toBytes,
      List.take_of_length_le]

/-- What a reader finds in the 24 bytes the writer emits for a block. -/
theorem BlockHeader.fromBytes_fromParts {previousChunk nextChunk : Nat}
    (previousFits : previousChunk ≤ u64Max) (nextFits : nextChunk ≤ u64Max) :
    BlockHeader.fromBytes (BlockHeader.fromParts ext previousChunk nextChunk).toBytes =
      BlockHeader.fromParts ext previousChunk nextChunk :=
  BlockHeader.fromBytes_toBytes (highwayHash64_le _) previousFits nextFits

/-- The fields of a chunk header are words. -/
structure ChunkHeader.Fits (header : ChunkHeader) : Prop where
  headerHash : header.headerHash ≤ u64Max
  dataSize : header.dataSize ≤ u64Max
  dataHash : header.dataHash ≤ u64Max
  chunkTypeAndNumRecords : header.chunkTypeAndNumRecords ≤ u64Max
  decodedDataSize : header.decodedDataSize ≤ u64Max

theorem ChunkHeader.fromBytes_toBytes {header : ChunkHeader} (fits : header.Fits) :
    ChunkHeader.fromBytes header.toBytes = header := by
  have first : header.toBytes.take 8 = toLeBytes 8 header.headerHash := by
    simp [ChunkHeader.toBytes]
  have second : (header.toBytes.drop 8).take 8 = toLeBytes 8 header.dataSize := by
    simp [ChunkHeader.toBytes, chunkHeaderBody]
  have third : (header.toBytes.drop 16).take 8 = toLeBytes 8 header.dataHash := by
    simp [ChunkHeader.toBytes, chunkHeaderBody, List.drop_append,
      List.drop_of_length_le]
  have fourth :
      (header.toBytes.drop 24).take 8 = toLeBytes 8 header.chunkTypeAndNumRecords := by
    simp [ChunkHeader.toBytes, chunkHeaderBody, List.drop_append,
      List.drop_of_length_le]
  have fifth : (header.toBytes.drop 32).take 8 = toLeBytes 8 header.decodedDataSize := by
    simp [ChunkHeader.toBytes, chunkHeaderBody, List.drop_append,
      List.drop_of_length_le, List.take_of_length_le]
  unfold ChunkHeader.fromBytes
  rw [first, second, third, fourth, fifth, fromLeBytes_toLeBytes_eight fits.headerHash,
    fromLeBytes_toLeBytes_eight fits.dataSize, fromLeBytes_toLeBytes_eight fits.dataHash,
    fromLeBytes_toLeBytes_eight fits.chunkTypeAndNumRecords,
    fromLeBytes_toLeBytes_eight fits.decodedDataSize]

theorem fromLeBytes_take_eight_le (bytes : Bytes) : fromLeBytes (bytes.take 8) ≤ u64Max := by
  have bound := fromLeBytes_lt (bytes.take 8)
  have short : (bytes.take 8).length ≤ 8 := List.length_take_le 8 bytes
  have power : 256 ^ (bytes.take 8).length ≤ 256 ^ 8 := Nat.pow_le_pow_right (by omega) short
  unfold u64Max
  omega

/-- A chunk header read from bytes has words for fields. -/
theorem ChunkHeader.fits_fromBytes (bytes : Bytes) : (ChunkHeader.fromBytes bytes).Fits where
  headerHash := fromLeBytes_take_eight_le _
  dataSize := fromLeBytes_take_eight_le _
  dataHash := fromLeBytes_take_eight_le _
  chunkTypeAndNumRecords := fromLeBytes_take_eight_le _
  decodedDataSize := fromLeBytes_take_eight_le _

theorem ChunkHeader.fromParts_isHeaderValid (data : Bytes) (chunkType : ChunkType)
    (numRecords decodedDataSize : Nat) :
    (ChunkHeader.fromParts ext data chunkType numRecords decodedDataSize).isHeaderValid ext =
      true := by
  simp [ChunkHeader.isHeaderValid, ChunkHeader.fromParts, ChunkHeader.toBytes,
      List.take_of_length_le]

theorem ChunkHeader.fromParts_isDataValid (data : Bytes) (chunkType : ChunkType)
    (numRecords decodedDataSize : Nat) :
    (ChunkHeader.fromParts ext data chunkType numRecords decodedDataSize).isDataValid ext data =
      true := by
  simp [ChunkHeader.isDataValid, ChunkHeader.fromParts]

theorem ChunkType.toNat_lt (chunkType : ChunkType) : chunkType.toNat < 256 := by
  cases chunkType <;> decide

/-- Packing loses nothing while the count fits in 56 bits. -/
theorem ChunkHeader.numRecords_fromParts (data : Bytes) (chunkType : ChunkType)
    {numRecords : Nat} (decodedDataSize : Nat) (fits : numRecords < 2 ^ 56) :
    (ChunkHeader.fromParts ext data chunkType numRecords decodedDataSize).numRecords =
      numRecords := by
  have small := chunkType.toNat_lt
  simp only [ChunkHeader.numRecords, ChunkHeader.fromParts]
  omega

theorem ChunkHeader.chunkType_fromParts (data : Bytes) (chunkType : ChunkType)
    (numRecords decodedDataSize : Nat) :
    (ChunkHeader.fromParts ext data chunkType numRecords decodedDataSize).chunkType =
      .ok chunkType := by
  have small := chunkType.toNat_lt
  have low : (numRecords * 256 % 2 ^ 64 + chunkType.toNat) % 256 = chunkType.toNat := by
    omega
  simp only [ChunkHeader.chunkType, ChunkHeader.fromParts, low]
  cases chunkType <;> rfl

theorem ChunkHeader.fits_fromParts {data : Bytes} (chunkType : ChunkType)
    (numRecords : Nat) {decodedDataSize : Nat} (dataFits : data.length ≤ u64Max)
    (decodedFits : decodedDataSize ≤ u64Max) :
    (ChunkHeader.fromParts ext data chunkType numRecords decodedDataSize).Fits where
  headerHash := highwayHash64_le _
  dataSize := dataFits
  dataHash := highwayHash64_le _
  chunkTypeAndNumRecords := by
    have small := chunkType.toNat_lt
    simp only [ChunkHeader.fromParts, u64Max]
    omega
  decodedDataSize := decodedFits

end Riegeli
