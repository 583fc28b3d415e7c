/-
Module: Riegeli.Proofs.SimpleRoundTrip
Purpose: The decoder of a simple chunk hands over the records that were
  encoded, with and without compression.
Trusted boundary: the hash and the codecs
Main exports: lengthVarintU64_eq, parseSizes_sizesSection,
  SimpleChunkDecoder.new_encode, SimpleChunkEncoder.encode_opens
-/
import Riegeli.Spec.HeldRecords

namespace Riegeli

variable {ext : Externals}

/-! ## The encoded length -/

theorem log2_div_128 {value : Nat} (large : 128 ≤ value) :
    Nat.log2 value = Nat.log2 (value / 128) + 7 := by
  have halve : ∀ {value : Nat}, 2 ≤ value → Nat.log2 value = Nat.log2 (value / 2) + 1 := by
    intro value atLeast
    rw [Nat.log2_def, if_pos atLeast]
  have parts : value / 128 = value / 2 / 2 / 2 / 2 / 2 / 2 / 2 := by omega
  rw [parts, halve (by omega : 2 ≤ value), halve (by omega : 2 ≤ value / 2),
    halve (by omega : 2 ≤ value / 2 / 2), halve (by omega : 2 ≤ value / 2 / 2 / 2),
    halve (by omega : 2 ≤ value / 2 / 2 / 2 / 2), halve (by omega : 2 ≤ value / 2 / 2 / 2 / 2 / 2),
    halve (by omega : 2 ≤ value / 2 / 2 / 2 / 2 / 2 / 2)]

theorem encodeVarintLoop_length (fuel : Nat) :
    ∀ value, value < 2 ^ (7 * (fuel + 1)) →
      (encodeVarintLoop (fuel + 1) value).length = lengthVarintU64 value := by
  induction fuel with
  | zero =>
      intro value small
      have done : value / 128 = 0 := by omega
      rw [encodeVarintLoop, if_pos done, lengthVarintU64]
      split
      · rfl
      · rename_i positive
        have bits : Nat.log2 value < 7 := (Nat.log2_lt positive).mpr (by omega)
        simp only [List.length_singleton, bitLength, if_neg positive]
        omega
  | succ fuel ih =>
      intro value small
      rw [encodeVarintLoop]
      by_cases done : value / 128 = 0
      · rw [if_pos done, lengthVarintU64]
        split
        · rfl
        · rename_i positive
          have bits : Nat.log2 value < 7 := (Nat.log2_lt positive).mpr (by omega)
          simp only [List.length_singleton, bitLength, if_neg positive]
          omega
      · have shrunk : value / 128 < 2 ^ (7 * (fuel + 1)) := by
          rw [Nat.div_lt_iff_lt_mul (by omega)]
          calc
            value < 2 ^ (7 * (fuel + 1 + 1)) := small
            _ = 2 ^ (7 * (fuel + 1)) * 128 := by
              rw [show 7 * (fuel + 1 + 1) = 7 * (fuel + 1) + 7 by omega, Nat.pow_add]
        have bits := @log2_div_128 value (by omega)
        rw [if_neg done, List.length_cons, ih _ shrunk]
        unfold lengthVarintU64 bitLength
        rw [if_neg done, if_neg done, if_neg (by omega), if_neg (by omega)]
        omega

/-- `length_varint_u64` is the length of what `encode_u64` writes. -/
theorem lengthVarintU64_eq {value : Nat} (fits : value ≤ u64Max) :
    lengthVarintU64 value = (encodeU64 value).length := by
  unfold u64Max at fits
  exact (encodeVarintLoop_length 9 value (by norm_num; omega)).symm

/-! ## The sizes section -/

theorem sizesSection_cons (record : Bytes) (rest : List Bytes) :
    sizesSection (record :: rest) = encodeU64 record.length ++ sizesSection rest := rfl

theorem sizesSection_append (first second : List Bytes) :
    sizesSection (first ++ second) = sizesSection first ++ sizesSection second :=
  List.flatMap_append

theorem length_sizesSection_le (records : List Bytes) :
    (sizesSection records).length ≤ records.length * 10 := by
  induction records with
  | nil => exact Nat.zero_le _
  | cons record rest ih =>
      have short := encodeU64_length_le record.length
      rw [sizesSection_cons, List.length_append, List.length_cons]
      omega

/-- The loop reads the sizes of the records left back. -/
theorem parseSizesLoop_sizesSection (texts : SizesTexts) {decodedDataSize : Nat}
    (fits : decodedDataSize ≤ u64Max) (todo : List Bytes) :
    ∀ (done : List Bytes) (index : Nat),
      ((done ++ todo).map List.length).sum ≤ decodedDataSize →
      parseSizesLoop texts (sizesSection (done ++ todo)) decodedDataSize todo.length index
          { pos := (sizesSection done).length
            decodedTotal := (done.map List.length).sum
            sizes := done.map List.length } =
        .ok
          { pos := (sizesSection (done ++ todo)).length
            decodedTotal := ((done ++ todo).map List.length).sum
            sizes := (done ++ todo).map List.length } := by
  induction todo with
  | nil => intro done index _; simp [parseSizesLoop]
  | cons record rest ih =>
      intro done index bounded
      have positive := encodeU64_length_pos record.length
      have split : done ++ record :: rest = (done ++ [record]) ++ rest := by simp
      have total : ((done ++ record :: rest).map List.length).sum =
          (done.map List.length).sum + record.length + (rest.map List.length).sum := by
        simp [Nat.add_assoc]
      have some : ¬ (sizesSection (done ++ record :: rest)).length ≤
          (sizesSection done).length := by
        rw [sizesSection_append, sizesSection_cons, List.length_append, List.length_append]
        omega
      have size : decodeU64 ((sizesSection (done ++ record :: rest)).drop
          (sizesSection done).length) =
          .ok (record.length, (encodeU64 record.length).length) := by
        rw [sizesSection_append, List.drop_left, sizesSection_cons]
        exact decodeU64_encodeU64 (by omega) _
      have added : (checkedAdd (done.map List.length).sum record.length).filter
          (· ≤ decodedDataSize) = Option.some ((done.map List.length).sum + record.length) := by
        rw [checkedAdd, if_pos (by omega)]
        simp only [Option.filter_some, decide_eq_true_eq]
        rw [if_pos (by omega)]
      rw [List.length_cons, parseSizesLoop]
      simp only
      rw [if_neg some, size]
      simp only [added]
      have next := ih (done ++ [record]) (index + 1) (by rw [← split]; exact bounded)
      rw [← split] at next
      rw [← next]
      simp [sizesSection]

theorem parseSizes_sizesSection (texts : SizesTexts) {records : List Bytes}
    (fits : (records.map List.length).sum ≤ u64Max) :
    parseSizes texts (sizesSection records) records.length (records.map List.length).sum =
      .ok (records.map List.length) := by
  have loop := parseSizesLoop_sizesSection texts fits records [] 0 (Nat.le_refl _)
  simp only [List.nil_append] at loop
  unfold parseSizes
  rw [show ({ pos := 0, decodedTotal := 0, sizes := [] } : SizesState) =
    { pos := (sizesSection []).length
      decodedTotal := (([] : List Bytes).map List.length).sum
      sizes := ([] : List Bytes).map List.length } from rfl, loop, Except.ok_bind]
  simp

theorem checkedSum_eq (sizes : List Nat) :
    ∀ total, total + sizes.sum ≤ u64Max → checkedSum sizes total = some (total + sizes.sum) := by
  induction sizes with
  | nil => intro total _; rfl
  | cons size rest ih =>
      intro total bounded
      rw [List.sum_cons] at bounded ⊢
      rw [checkedSum, checkedAdd, if_pos (by omega), Option.bind_some, ih _ (by omega),
        Nat.add_assoc]

/-! ## The records of a decoder -/

theorem recordRangesFrom_append (first second : List Nat) (offset : Nat) :
    recordRangesFrom offset (first ++ second) =
      recordRangesFrom offset first ++ recordRangesFrom (offset + first.sum) second := by
  induction first generalizing offset with
  | nil => simp [recordRangesFrom]
  | cons size rest ih => simp [recordRangesFrom, ih, Nat.add_assoc]

@[simp] theorem length_recordRangesFrom (sizes : List Nat) (offset : Nat) :
    (recordRangesFrom offset sizes).length = sizes.length := by
  induction sizes generalizing offset with
  | nil => rfl
  | cons size rest ih => simp [recordRangesFrom, ih]

/-- The decoder of these records, `index` of them read. -/
def simpleDecoderOf (records : List Bytes) (index : Nat) : SimpleChunkDecoder :=
  { recordRanges := recordRangesFrom 0 (records.map List.length)
    values := records.flatten
    nextRecord := index }

/-- Reading from record `done.length` on yields the rest. -/
theorem simpleDecoderOf_yields (todo : List Bytes) :
    ∀ done : List Bytes,
      (ActiveDecoder.simple (simpleDecoderOf (done ++ todo) done.length)).Yields todo := by
  induction todo with
  | nil =>
      intro done
      simp [ActiveDecoder.Yields, ActiveDecoder.readRecord, SimpleChunkDecoder.readRecord,
        simpleDecoderOf]
  | cons record rest ih =>
      intro done
      have range : (simpleDecoderOf (done ++ record :: rest) done.length).recordRanges[
          done.length]? = some ((done.map List.length).sum, record.length) := by
        simp [simpleDecoderOf, recordRangesFrom_append, recordRangesFrom]
      have values : sliceRange (simpleDecoderOf (done ++ record :: rest) done.length).values
          (done.map List.length).sum ((done.map List.length).sum + record.length) =
          .ok record := by
        have before : (done.map List.length).sum = done.flatten.length :=
          List.length_flatten.symm
        simp only [simpleDecoderOf, List.flatten_append, List.flatten_cons, before]
        rw [sliceRange_eq (by omega) (by simp only [List.length_append]; omega),
          List.drop_left, Nat.add_sub_cancel_left, List.take_left]
      refine ⟨.simple (simpleDecoderOf (done ++ record :: rest) (done.length + 1)), ?_, ?_⟩
      · simp only [ActiveDecoder.readRecord, SimpleChunkDecoder.readRecord]
        rw [show (simpleDecoderOf (done ++ record :: rest) done.length).nextRecord =
          done.length from rfl, range]
        simp only [values, Except.ok_bind]
        rfl
      · have next := ih (done ++ [record])
        simpa using next

/-! ## The two forms of the data -/

/-- Decoding the plain form. -/
theorem decodeUncompressed_eq {records : List Bytes}
    (fits : (encodeU64 (sizesSection records).length ++ sizesSection records ++
      records.flatten).length ≤ u64Max) :
    decodeUncompressed
        (encodeU64 (sizesSection records).length ++ sizesSection records ++ records.flatten)
        records.length (records.map List.length).sum =
      .ok (simpleDecoderOf records 0) := by
  have total : (records.map List.length).sum = records.flatten.length :=
    List.length_flatten.symm
  have lengths := fits
  simp only [List.length_append] at lengths
  have size := @decodeU64_encodeU64 (sizesSection records).length (by omega)
    (sizesSection records ++ records.flatten)
  rw [← List.append_assoc] at size
  have parsed := fun texts => @parseSizes_sizesSection texts records (by omega)
  have summed := checkedSum_eq (records.map List.length) 0 (by omega)
  unfold decodeUncompressed
  rw [size]
  simp only [List.length_append]
  rw [subWord_eq (by omega), Except.ok_bind, if_neg (by omega), sliceRange_middle rfl rfl,
    Except.ok_bind, parsed, Except.ok_bind]
  simp only [summed]
  rw [checkedAdd, if_pos (by omega)]
  simp only
  rw [if_neg (by omega), if_neg (by omega),
    sliceRange_suffix List.length_append.symm
      (by simp only [List.length_append]; omega), Except.ok_bind]
  rfl

/-- Decoding the compressed form. -/
theorem decodeCompressed_eq (lawful : ext.Lawful) {records : List Bytes}
    {compression : CompressionType} {opts : CompressOptions}
    {compressedSizes compressedValues : Bytes}
    (sizesRan : compressData ext (sizesSection records) compression opts = .ok compressedSizes)
    (valuesRan : compressData ext records.flatten compression opts = .ok compressedValues)
    (counted : records.length < 2 ^ 56) (total : records.flatten.length ≤ u64Max)
    (fits : (encodeU64 (lengthVarintU64 (sizesSection records).length + compressedSizes.length) ++
      (encodeU64 (sizesSection records).length ++ compressedSizes) ++
        (encodeU64 records.flatten.length ++ compressedValues)).length ≤ u64Max) :
    decodeCompressed ext
        (encodeU64 (lengthVarintU64 (sizesSection records).length + compressedSizes.length) ++
          (encodeU64 (sizesSection records).length ++ compressedSizes) ++
            (encodeU64 records.flatten.length ++ compressedValues))
        records.length compression (records.map List.length).sum =
      .ok (simpleDecoderOf records 0) := by
  have sum : (records.map List.length).sum = records.flatten.length :=
    List.length_flatten.symm
  have short := length_sizesSection_le records
  have sizesFit : (sizesSection records).length ≤ u64Max := by
    unfold u64Max
    omega
  rw [lengthVarintU64_eq sizesFit] at *
  have lengths := fits
  simp only [List.length_append] at lengths
  have positive := encodeU64_length_pos
    ((encodeU64 (sizesSection records).length).length + compressedSizes.length)
  have blob := @decodeU64_encodeU64
    ((encodeU64 (sizesSection records).length).length + compressedSizes.length) (by omega)
    ((encodeU64 (sizesSection records).length ++ compressedSizes) ++
      (encodeU64 records.flatten.length ++ compressedValues))
  rw [← List.append_assoc] at blob
  have sizesLen := @decodeU64_encodeU64 (sizesSection records).length sizesFit compressedSizes
  have valuesLen := @decodeU64_encodeU64 records.flatten.length total compressedValues
  have parsed := fun texts => @parseSizes_sizesSection texts records (by omega)
  have summed := checkedSum_eq (records.map List.length) 0 (by omega)
  have sizesBack := decompressDataCapped_compressData lawful sizesRan (Nat.le_refl _)
  have valuesBack := decompressDataCapped_compressData lawful valuesRan (Nat.le_refl _)
  have capped : ¬ satMul records.length 10 < (sizesSection records).length := by
    unfold satMul
    omega
  have some : ¬ (encodeU64 ((encodeU64 (sizesSection records).length).length +
      compressedSizes.length) ++ (encodeU64 (sizesSection records).length ++ compressedSizes) ++
        (encodeU64 records.flatten.length ++ compressedValues)).isEmpty = true := by
    intro empty
    have := congrArg List.length (List.isEmpty_iff.mp empty)
    simp only [List.length_append, List.length_nil] at this
    omega
  unfold decodeCompressed
  rw [if_neg some, blob]
  simp only
  rw [subWord_eq (by simp), Except.ok_bind, if_neg (by simp only [List.length_append]; omega),
    sliceRange_middle rfl (by simp only [List.length_append]), Except.ok_bind, sizesLen]
  simp only
  rw [sliceRange_suffix rfl rfl, Except.ok_bind, if_neg capped, sizesBack, Except.ok_bind,
    if_neg (by simp), parsed, Except.ok_bind,
    sliceRange_suffix (by simp only [List.length_append]) rfl, Except.ok_bind, valuesLen]
  simp only
  rw [if_neg (fun differ => differ sum.symm), sliceRange_suffix rfl rfl, Except.ok_bind, sum, valuesBack,
    Except.ok_bind]
  simp only [summed, sum]
  rw [if_neg (by simp)]
  rfl

/-! ## Chunks -/

/-- The simple decoder of what the simple encoder made. -/
theorem SimpleChunkDecoder.new_encode (lawful : ext.Lawful) {encoder : SimpleChunkEncoder}
    {chunk : Chunk} (encoded : encoder.encode ext = .ok chunk)
    (counted : encoder.records.length < 2 ^ 56)
    (total : encoder.records.flatten.length ≤ u64Max) (fits : chunk.data.length ≤ u64Max) :
    SimpleChunkDecoder.new ext chunk = .ok (simpleDecoderOf encoder.records 0) := by
  obtain ⟨data, dataRan, built⟩ := Except.bind_eq_ok.mp encoded
  cases built
  have numRecords := @ChunkHeader.numRecords_fromParts ext data .simple encoder.records.length
    (encoder.records.map List.length).sum counted
  have decoded := @ChunkHeader.fromParts_isDataValid ext data .simple encoder.records.length
    (encoder.records.map List.length).sum
  unfold SimpleChunkEncoder.encodeData at dataRan
  unfold SimpleChunkDecoder.new
  simp only [decoded, numRecords]
  rw [if_neg (by decide)]
  split at dataRan
  · cases dataRan
    exact decodeUncompressed_eq (by simp at fits ⊢; omega)
  · rename_i stored
    obtain ⟨compressedSizes, sizesRan, dataRan⟩ := Except.bind_eq_ok.mp dataRan
    obtain ⟨compressedValues, valuesRan, dataRan⟩ := Except.bind_eq_ok.mp dataRan
    have shape := Except.ok.inj dataRan
    simp only [List.append_assoc, List.singleton_append] at shape
    subst shape
    have payload := decodeCompressed_eq lawful sizesRan valuesRan counted total
      (by simp only [List.append_assoc]; simp at fits ⊢; omega)
    simp only [List.append_assoc] at payload
    cases kind : encoder.compression with
    | none => exact absurd kind stored
    | brotli => rw [kind] at payload; exact payload
    | zstd => rw [kind] at payload; exact payload
    | snappy => rw [kind] at payload; exact payload

/-- A chunk of the simple encoder opens to the records that were added. -/
theorem SimpleChunkEncoder.encode_opens (lawful : ext.Lawful) {encoder : SimpleChunkEncoder}
    {chunk : Chunk} (encoded : encoder.encode ext = .ok chunk)
    (counted : encoder.records.length < 2 ^ 56)
    (total : encoder.records.flatten.length ≤ u64Max) (fits : chunk.data.length ≤ u64Max)
    (projection : Option FieldProjection) : Opens ext projection chunk encoder.records := by
  have decoder := SimpleChunkDecoder.new_encode lawful encoded counted total fits
  obtain ⟨data, _, built⟩ := Except.bind_eq_ok.mp encoded
  cases built
  refine @Opens.simple ext projection _ encoder.records
    (.simple (simpleDecoderOf encoder.records 0))
    (ChunkHeader.chunkType_fromParts _ _ _ _) ?_ (simpleDecoderOf_yields encoder.records [])
    (ChunkHeader.numRecords_fromParts _ _ _ counted)
  rw [RecordReader.simpleDecoder, decoder]
  rfl

end Riegeli
