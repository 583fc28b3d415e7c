/-
Module: Riegeli.Proofs.SimpleGrammar
Purpose: The simple chunk decoder accepts exactly the grammar of the data, and
  hands over the slices the sizes cut.
Trusted boundary: the hash and the codecs
Main exports: decodeU64_eq_ok, parseSizes_eq_ok, decodeUncompressed_eq_ok,
  decodeCompressed_eq_ok, SimpleChunkDecoder.new_accepts
-/
import Riegeli.Spec.SimpleGrammar
import Riegeli.Proofs.OpenDecoders

namespace Riegeli

variable {ext : Externals}

/-! ## Numbers -/

/-- From byte `index` on, the loop accepts a LEB128 string that ends in time
and whose last byte is small enough. -/
theorem decodeVarintLoop_eq_ok {maxLen lastMax : Nat} (lastSmall : lastMax < 128) {data : Bytes} :
    ∀ {index result value consumed : Nat}, index ≤ maxLen →
      (decodeVarintLoop maxLen lastMax index result data = .ok (value, consumed) ↔
        ∃ part rest number, data = part ++ rest ∧ Leb128 part number ∧
          index + part.length ≤ maxLen ∧
          number < 2 ^ (7 * (maxLen - (index + 1))) * (lastMax + 1) ∧
          value = result + number * 2 ^ (7 * index) ∧ consumed = index + part.length) := by
  induction data with
  | nil =>
      intro index result value consumed _
      constructor
      · intro accepted
        cases accepted
      · rintro ⟨part, rest, number, split, spelled, _⟩
        have positive := spelled.length_pos
        rw [(List.append_eq_nil_iff.mp split.symm).1] at positive
        cases positive
  | cons byte data ih =>
      intro index result value consumed within
      rw [decodeVarintLoop]
      by_cases ended : index = maxLen
      · rw [if_pos ended]
        constructor
        · intro accepted
          cases accepted
        · rintro ⟨part, rest, number, _, spelled, short, _⟩
          have positive := spelled.length_pos
          omega
      rw [if_neg ended]
      have step : index + 1 + 1 ≤ maxLen → 2 ^ (7 * (maxLen - (index + 1))) * (lastMax + 1) =
          2 ^ (7 * (maxLen - (index + 1 + 1))) * (lastMax + 1) * 128 := by
        intro more
        rw [show 7 * (maxLen - (index + 1)) = 7 * (maxLen - (index + 1 + 1)) + 7 by omega,
          Nat.pow_add]
        ring
      by_cases overflows : index + 1 = maxLen ∧ lastMax < byte.toNat % 128
      · rw [if_pos overflows]
        constructor
        · intro accepted
          cases accepted
        · rintro ⟨part, rest, number, split, spelled, short, bound, _⟩
          cases spelled with
          | last small =>
              cases split
              rw [show maxLen - (index + 1) = 0 by omega] at bound
              omega
          | more high later =>
              have positive := later.length_pos
              rw [List.length_cons] at short
              omega
      rw [if_neg overflows]
      by_cases final : byte.toNat < 128
      · rw [if_pos final, Nat.mod_eq_of_lt final]
        constructor
        · intro accepted
          cases accepted
          refine ⟨[byte], data, byte.toNat, rfl, .last final, ?_, ?_, rfl, rfl⟩
          · rw [List.length_singleton]
            omega
          · rcases Nat.lt_or_ge (index + 1) maxLen with more | last
            · have positive : 0 < 2 ^ (7 * (maxLen - (index + 1 + 1))) * (lastMax + 1) :=
                Nat.mul_pos (Nat.two_pow_pos _) (Nat.succ_pos _)
              rw [step more]
              omega
            · rw [show maxLen - (index + 1) = 0 by omega]
              omega
        · rintro ⟨part, rest, number, split, spelled, short, bound, rfl, rfl⟩
          cases spelled with
          | last small =>
              cases split
              rfl
          | more high later =>
              cases split
              omega
      · rw [if_neg final, ih (by omega)]
        constructor
        · rintro ⟨part, rest, number, rfl, spelled, short, bound, rfl, rfl⟩
          refine ⟨byte :: part, rest, byte.toNat % 128 + 128 * number, rfl,
            .more (by omega) spelled, ?_, ?_, ?_, ?_⟩
          · rw [List.length_cons]
            omega
          · have positive := spelled.length_pos
            rw [step (by omega)]
            omega
          · rw [show 7 * (index + 1) = 7 * index + 7 by omega, Nat.pow_add]
            ring
          · rw [List.length_cons]
            omega
        · rintro ⟨part, rest, number, split, spelled, short, bound, rfl, rfl⟩
          cases spelled with
          | last small =>
              cases split
              exact absurd small final
          | @more _ later number high spelled =>
              cases split
              refine ⟨later, rest, number, rfl, spelled, ?_, ?_, ?_, ?_⟩
              · rw [List.length_cons] at short
                omega
              · have positive := spelled.length_pos
                rw [List.length_cons] at short
                rw [step (by omega)] at bound
                omega
              · rw [show 7 * (index + 1) = 7 * index + 7 by omega, Nat.pow_add]
                ring
              · rw [List.length_cons]
                omega

/-- `decode_u64` accepts a varint, whatever follows it. -/
theorem decodeU64_eq_ok {data : Bytes} {value consumed : Nat} :
    decodeU64 data = .ok (value, consumed) ↔
      ∃ part rest, data = part ++ rest ∧ Varint part value ∧ consumed = part.length := by
  unfold decodeU64 maxU64VarintLen
  rw [decodeVarintLoop_eq_ok (by omega) (Nat.zero_le _)]
  simp only [Nat.zero_add, Nat.mul_zero, Nat.pow_zero, Nat.mul_one]
  constructor
  · rintro ⟨part, rest, number, split, spelled, short, bound, rfl, rfl⟩
    refine ⟨part, rest, split, ⟨spelled, short, ?_⟩, rfl⟩
    unfold u64Max
    norm_num at bound
    omega
  · rintro ⟨part, rest, split, varint, rfl⟩
    have fits := varint.fits
    unfold u64Max at fits
    refine ⟨part, rest, value, split, varint.leb128, varint.short, ?_, rfl, rfl⟩
    norm_num
    omega

theorem Varint.decodeU64 {part : Bytes} {value : Nat} (varint : Varint part value)
    (rest : Bytes) : decodeU64 (part ++ rest) = .ok (value, part.length) :=
  decodeU64_eq_ok.mpr ⟨part, rest, rfl, varint, rfl⟩

/-! ## The sizes section -/

/-- From a state within the budget, the loop accepts the sizes left that stay
within it. -/
theorem parseSizesLoop_eq_ok (texts : SizesTexts) {sizesData : Bytes} {decodedDataSize : Nat}
    (fits : decodedDataSize ≤ u64Max) (left : Nat) :
    ∀ {index : Nat} {state final : SizesState}, state.decodedTotal ≤ decodedDataSize →
      (parseSizesLoop texts sizesData decodedDataSize left index state = .ok final ↔
        ∃ part rest sizes, sizesData.drop state.pos = part ++ rest ∧ Sizes part sizes ∧
          sizes.length = left ∧ state.decodedTotal + sizes.sum ≤ decodedDataSize ∧
          final = { pos := state.pos + part.length
                    decodedTotal := state.decodedTotal + sizes.sum
                    sizes := state.sizes ++ sizes }) := by
  induction left with
  | zero =>
      intro index state final within
      constructor
      · intro ran
        cases ran
        exact ⟨[], sizesData.drop state.pos, [], rfl, .nil, rfl, within, by simp⟩
      · rintro ⟨part, rest, sizes, _, spelled, counted, _, rfl⟩
        cases spelled with
        | nil => simp [parseSizesLoop]
        | cons size later => cases counted
  | succ left ih =>
      intro index state final within
      rw [parseSizesLoop]
      by_cases ended : sizesData.length ≤ state.pos
      · rw [if_pos ended]
        constructor
        · intro ran
          cases ran
        · rintro ⟨part, rest, sizes, split, spelled, counted, _, _⟩
          rw [List.drop_eq_nil_of_le ended] at split
          cases spelled with
          | nil => cases counted
          | cons size later =>
              have positive := size.leb128.length_pos
              have total := congrArg List.length split
              simp only [List.length_nil, List.length_append] at total
              omega
      rw [if_neg ended]
      constructor
      · intro ran
        split at ran
        · cases ran
        rename_i size consumed read
        obtain ⟨part, after, split, varint, rfl⟩ := decodeU64_eq_ok.mp read
        split at ran
        · cases ran
        rename_i total added
        obtain ⟨added, admitted⟩ := Option.filter_eq_some_iff.mp added
        obtain ⟨rfl, _⟩ := checkedAdd_eq_some.mp added
        have admitted : state.decodedTotal + size ≤ decodedDataSize := by simpa using admitted
        obtain ⟨later, rest, sizes, splitLater, spelled, rfl, bounded, rfl⟩ :=
          (ih admitted).mp ran
        rw [← List.drop_drop, split, List.drop_left] at splitLater
        subst splitLater
        refine ⟨part ++ later, rest, size :: sizes, ?_, .cons varint spelled, rfl, ?_, ?_⟩
        · rw [split, List.append_assoc]
        · simp only at bounded
          rw [List.sum_cons]
          omega
        · simp [Nat.add_assoc]
      · rintro ⟨_, rest, _, split, spelled, counted, bounded, rfl⟩
        cases spelled with
        | nil => cases counted
        | @cons part later size sizes varint spelled =>
            rw [List.sum_cons] at bounded
            rw [List.append_assoc] at split
            have added : (checkedAdd state.decodedTotal size).filter (· ≤ decodedDataSize) =
                some (state.decodedTotal + size) := by
              rw [checkedAdd, if_pos (by omega), Option.filter_some, if_pos]
              exact decide_eq_true (by omega)
            rw [split, varint.decodeU64]
            simp only
            rw [added]
            refine (ih (by simp only; omega)).mpr
              ⟨later, rest, sizes, ?_, spelled, Nat.succ.inj counted, ?_, ?_⟩
            · rw [← List.drop_drop, split, List.drop_left]
            · simp only
              omega
            · simp [Nat.add_assoc]

/-- The sizes section is accepted when it is the claimed number of varints and
they add up to the claimed size. -/
theorem parseSizes_eq_ok {texts : SizesTexts} {sizesData : Bytes}
    {numRecords decodedDataSize : Nat} {sizes : List Nat} (fits : decodedDataSize ≤ u64Max) :
    parseSizes texts sizesData numRecords decodedDataSize = .ok sizes ↔
      Sizes sizesData sizes ∧ sizes.length = numRecords ∧ sizes.sum = decodedDataSize := by
  unfold parseSizes
  constructor
  · intro parsed
    obtain ⟨state, ran, parsed⟩ := Except.bind_eq_ok.mp parsed
    obtain ⟨part, rest, found, split, spelled, counted, bounded, rfl⟩ :=
      (parseSizesLoop_eq_ok texts fits numRecords (Nat.zero_le _)).mp ran
    simp only [Nat.zero_add, List.nil_append, List.drop_zero] at parsed split
    split at parsed
    · cases parsed
    rename_i whole
    split at parsed
    · cases parsed
    rename_i total
    cases parsed
    have nothing : rest = [] := by
      have lengths := congrArg List.length split
      rw [List.length_append] at lengths
      exact List.length_eq_zero_iff.mp (by omega)
    rw [split, nothing, List.append_nil]
    exact ⟨spelled, counted, by omega⟩
  · rintro ⟨spelled, counted, total⟩
    have ran := (@parseSizesLoop_eq_ok texts sizesData _ fits numRecords 0 ⟨0, 0, []⟩ _
      (Nat.zero_le _)).mpr
      ⟨sizesData, [], sizes, by simp, spelled, counted, by simp [total], rfl⟩
    rw [ran, Except.ok_bind]
    simp [total]

/-! ## The two decode paths -/

/-- The decoder of values cut into these sizes, nothing read yet. -/
def decoderOf (sizes : List Nat) (values : Bytes) : SimpleChunkDecoder :=
  { recordRanges := recordRangesFrom 0 sizes, values := values, nextRecord := 0 }

variable {payload : Bytes} {numRecords decodedDataSize : Nat} {decoder : SimpleChunkDecoder}

/-- `decode_uncompressed` accepts the plain layout. -/
theorem decodeUncompressed_eq_ok (fits : decodedDataSize ≤ u64Max)
    (small : payload.length ≤ u64Max) :
    decodeUncompressed payload numRecords decodedDataSize = .ok decoder ↔
      ∃ sizes values, PlainGrammar payload numRecords decodedDataSize sizes values ∧
        decoder = decoderOf sizes values := by
  constructor
  · intro decoded
    unfold decodeUncompressed at decoded
    split at decoded
    · cases decoded
    rename_i sizesByteLen sizesStart read
    obtain ⟨sectionLen, rest, rfl, varint, rfl⟩ := decodeU64_eq_ok.mp read
    rw [List.length_append, subWord_eq (Nat.le_add_right _ _), Except.ok_bind] at decoded
    split at decoded
    · cases decoded
    rename_i enough
    obtain ⟨sizesData, values, rfl, counted⟩ : ∃ sizesData values, rest = sizesData ++ values ∧
        sizesData.length = sizesByteLen :=
      ⟨rest.take sizesByteLen, rest.drop sizesByteLen, (List.take_append_drop _ _).symm, by
        rw [List.length_take]
        omega⟩
    subst counted
    rw [← List.append_assoc] at decoded
    simp only at decoded
    rw [sliceRange_middle rfl rfl, Except.ok_bind] at decoded
    obtain ⟨sizes, parsed, decoded⟩ := Except.bind_eq_ok.mp decoded
    obtain ⟨spelled, records, total⟩ := (parseSizes_eq_ok fits).mp parsed
    rw [checkedSum_eq sizes 0 (by omega), Nat.zero_add] at decoded
    simp only at decoded
    split at decoded
    · cases decoded
    rename_i valuesEnd added
    obtain ⟨rfl, _⟩ := checkedAdd_eq_some.mp added
    split at decoded
    · cases decoded
    split at decoded
    · cases decoded
    rename_i noMore noLess
    simp only [List.length_append] at noMore noLess
    rw [sliceRange_suffix List.length_append.symm (by
      simp only [List.length_append]
      omega), Except.ok_bind] at decoded
    cases decoded
    exact ⟨sizes, values, ⟨⟨sectionLen, sizesData, varint, spelled, (List.append_assoc _ _ _).symm⟩,
      records, total, by omega⟩, rfl⟩
  · rintro ⟨sizes, values, ⟨⟨sectionLen, sizesData, varint, spelled, rfl⟩, claimed⟩, rfl⟩
    have read := varint.decodeU64 (sizesData ++ values)
    rw [← List.append_assoc] at read
    have parsed := fun texts => (@parseSizes_eq_ok texts _ numRecords _ _ fits).mpr
      ⟨spelled, claimed.counted, claimed.total⟩
    have total := claimed.total
    have filled := claimed.filled
    have summed := checkedSum_eq sizes 0 (by omega)
    simp only [List.length_append] at small
    unfold decodeUncompressed
    rw [read]
    simp only [List.length_append]
    rw [subWord_eq (by omega), Except.ok_bind, if_neg (by omega), sliceRange_middle rfl rfl,
      Except.ok_bind, parsed, Except.ok_bind, summed, Nat.zero_add]
    simp only
    rw [checkedAdd, if_pos (by omega)]
    simp only
    rw [if_neg (by omega), if_neg (by omega), sliceRange_suffix List.length_append.symm (by
      simp only [List.length_append]
      omega), Except.ok_bind]
    rfl

/-- A capped decompression to a length that is checked. -/
theorem decompressDataCapped_eq_ok {data out : Bytes} {compression : CompressionType}
    {maxLen : Nat} :
    decompressDataCapped ext data compression maxLen = .ok out ↔
      decompressData ext data compression = .ok out ∧ out.length ≤ maxLen := by
  unfold decompressDataCapped
  constructor
  · intro ran
    obtain ⟨found, decoded, ran⟩ := Except.bind_eq_ok.mp ran
    split at ran
    · cases ran
    · cases ran
      exact ⟨decoded, by omega⟩
  · rintro ⟨decoded, short⟩
    rw [decoded, Except.ok_bind, if_neg (by omega)]

/-- `decode_compressed` accepts the compressed layout. -/
theorem decodeCompressed_eq_ok {compression : CompressionType} (fits : decodedDataSize ≤ u64Max) :
    decodeCompressed ext payload numRecords compression decodedDataSize = .ok decoder ↔
      ∃ sizes values,
        CompressedGrammar ext compression payload numRecords decodedDataSize sizes values ∧
        decoder = decoderOf sizes values := by
  constructor
  · intro decoded
    unfold decodeCompressed at decoded
    split at decoded
    · cases decoded
    split at decoded
    · cases decoded
    rename_i blobSize _ read
    obtain ⟨blobLen, rest, rfl, blobVarint, rfl⟩ := decodeU64_eq_ok.mp read
    rw [List.length_append, subWord_eq (Nat.le_add_right _ _), Except.ok_bind] at decoded
    split at decoded
    · cases decoded
    rename_i enough
    obtain ⟨sizesBlob, valuesBlob, rfl, counted⟩ : ∃ sizesBlob valuesBlob,
        rest = sizesBlob ++ valuesBlob ∧ sizesBlob.length = blobSize :=
      ⟨rest.take blobSize, rest.drop blobSize, (List.take_append_drop _ _).symm, by
        rw [List.length_take]
        omega⟩
    subst counted
    rw [← List.append_assoc] at decoded
    simp only at decoded
    rw [sliceRange_middle rfl rfl, Except.ok_bind] at decoded
    split at decoded
    · cases decoded
    rename_i sizesLen _ readSizes
    obtain ⟨sectionLen, compressedSizes, rfl, sectionVarint, rfl⟩ := decodeU64_eq_ok.mp readSizes
    rw [sliceRange_suffix rfl rfl, Except.ok_bind] at decoded
    split at decoded
    · cases decoded
    obtain ⟨sizesData, sizesRan, decoded⟩ := Except.bind_eq_ok.mp decoded
    split at decoded
    · cases decoded
    rename_i sizesExact
    obtain ⟨sizes, parsed, decoded⟩ := Except.bind_eq_ok.mp decoded
    obtain ⟨spelled, records, total⟩ := (parseSizes_eq_ok fits).mp parsed
    rw [sliceRange_suffix List.length_append.symm (by simp only [List.length_append]; omega),
      Except.ok_bind] at decoded
    split at decoded
    · cases decoded
    rename_i valuesSize _ readValues
    obtain ⟨valuesLen, compressedValues, rfl, valuesVarint, rfl⟩ := decodeU64_eq_ok.mp readValues
    split at decoded
    · cases decoded
    rename_i valuesExact
    rw [sliceRange_suffix rfl rfl, Except.ok_bind] at decoded
    obtain ⟨values, valuesRan, decoded⟩ := Except.bind_eq_ok.mp decoded
    rw [checkedSum_eq sizes 0 (by omega), Nat.zero_add] at decoded
    simp only at decoded
    split at decoded
    · cases decoded
    rename_i agree
    cases decoded
    obtain rfl : sizesData.length = sizesLen := by omega
    obtain rfl : valuesSize = decodedDataSize := by omega
    exact ⟨sizes, values, ⟨⟨blobLen, sectionLen, compressedSizes, sizesData, valuesLen,
      compressedValues, blobVarint, sectionVarint, (decompressDataCapped_eq_ok.mp sizesRan).1,
      spelled, valuesVarint, (decompressDataCapped_eq_ok.mp valuesRan).1,
      (List.append_assoc _ _ _).symm⟩, records, total, by omega⟩, rfl⟩
  · rintro ⟨sizes, values, ⟨⟨blobLen, sectionLen, compressedSizes, sizesData, valuesLen,
      compressedValues, blobVarint, sectionVarint, sizesRan, spelled, valuesVarint, valuesRan,
      rfl⟩, claimed⟩, rfl⟩
    have read := blobVarint.decodeU64 ((sectionLen ++ compressedSizes) ++
      (valuesLen ++ compressedValues))
    rw [← List.append_assoc] at read
    have parsed := fun texts => (@parseSizes_eq_ok texts _ numRecords _ _ fits).mpr
      ⟨spelled, claimed.counted, claimed.total⟩
    have counted := claimed.counted
    have total := claimed.total
    have filled := claimed.filled
    have summed := checkedSum_eq sizes 0 (by omega)
    have sectionFits := sectionVarint.fits
    have spent := spelled.length_le
    have capped : ¬ satMul numRecords 10 < sizesData.length := by
      unfold satMul
      omega
    have sizesBack := (@decompressDataCapped_eq_ok ext _ _ _ sizesData.length).mpr
      ⟨sizesRan, Nat.le_refl _⟩
    have valuesBack := (@decompressDataCapped_eq_ok ext _ _ _ decodedDataSize).mpr
      ⟨valuesRan, by omega⟩
    have positive := blobVarint.leb128.length_pos
    have nonempty : ¬ (blobLen ++ (sectionLen ++ compressedSizes) ++
        (valuesLen ++ compressedValues)).isEmpty = true := by
      intro empty
      have lengths := congrArg List.length (List.isEmpty_iff.mp empty)
      simp only [List.length_append, List.length_nil] at lengths
      omega
    unfold decodeCompressed
    rw [if_neg nonempty, read]
    simp only
    rw [subWord_eq (by simp), Except.ok_bind, if_neg (by simp only [List.length_append]; omega),
      sliceRange_middle rfl rfl, Except.ok_bind, sectionVarint.decodeU64]
    simp only
    rw [sliceRange_suffix rfl rfl, Except.ok_bind, if_neg capped, sizesBack, Except.ok_bind,
      if_neg (by simp), parsed, Except.ok_bind,
      sliceRange_suffix List.length_append.symm rfl, Except.ok_bind, valuesVarint.decodeU64]
    simp only
    rw [if_neg (by simp), sliceRange_suffix rfl rfl, Except.ok_bind, valuesBack, Except.ok_bind,
      summed, Nat.zero_add]
    simp only
    rw [if_neg (by omega)]
    rfl

/-! ## No panics -/

theorem parseSizesLoop_safe (texts : SizesTexts) (sizesData : Bytes) (decodedDataSize left : Nat) :
    ∀ (index : Nat) (state : SizesState),
      Rust.Safe (parseSizesLoop texts sizesData decodedDataSize left index state) := by
  induction left with
  | zero => exact fun _ _ => Rust.safe_ok _
  | succ left ih =>
      intro index state
      rw [parseSizesLoop]
      split
      · exact Rust.safe_malformed _
      split
      · exact Rust.safe_malformed _
      split
      · exact Rust.safe_malformed _
      · exact ih _ _

theorem parseSizes_safe (texts : SizesTexts) (sizesData : Bytes)
    (numRecords decodedDataSize : Nat) :
    Rust.Safe (parseSizes texts sizesData numRecords decodedDataSize) := by
  apply Rust.Safe.bind (parseSizesLoop_safe _ _ _ _ _ _)
  intro state _
  split
  · exact Rust.safe_malformed _
  split
  · exact Rust.safe_malformed _
  · exact Rust.safe_ok _

theorem sliceRange_safe {Item : Type} {items : List Item} {start stop : Nat}
    (ordered : start ≤ stop) (inside : stop ≤ items.length) :
    Rust.Safe (sliceRange items start stop) := by
  rw [sliceRange_eq ordered inside]
  exact Rust.safe_ok _

/-- What the decoder consumed lies in the buffer. -/
theorem decodeU64_consumed_le {data : Bytes} {value consumed : Nat}
    (read : decodeU64 data = .ok (value, consumed)) : consumed ≤ data.length := by
  obtain ⟨part, rest, rfl, _, rfl⟩ := decodeU64_eq_ok.mp read
  rw [List.length_append]
  exact Nat.le_add_right _ _

theorem decodeUncompressed_safe (payload : Bytes) (numRecords decodedDataSize : Nat) :
    Rust.Safe (decodeUncompressed payload numRecords decodedDataSize) := by
  unfold decodeUncompressed
  split
  · exact Rust.safe_malformed _
  rename_i sizesByteLen sizesStart read
  have inside := decodeU64_consumed_le read
  rw [subWord_eq inside, Except.ok_bind]
  split
  · exact Rust.safe_malformed _
  apply Rust.Safe.bind (sliceRange_safe (Nat.le_add_right _ _) (by omega))
  intro sizesData _
  apply Rust.Safe.bind (parseSizes_safe _ _ _ _)
  intro sizes _
  split
  · exact Rust.safe_malformed _
  split
  · exact Rust.safe_malformed _
  rename_i valuesEnd added
  obtain ⟨rfl, _⟩ := checkedAdd_eq_some.mp added
  split
  · exact Rust.safe_malformed _
  split
  · exact Rust.safe_malformed _
  apply Rust.Safe.bind (sliceRange_safe (Nat.le_add_right _ _) (by omega))
  intro values _
  exact Rust.safe_ok _

theorem decodeCompressed_safe (payload : Bytes) (numRecords : Nat)
    (compression : CompressionType) (decodedDataSize : Nat) :
    Rust.Safe (decodeCompressed ext payload numRecords compression decodedDataSize) := by
  unfold decodeCompressed
  split
  · exact Rust.safe_malformed _
  split
  · exact Rust.safe_malformed _
  rename_i sizesBlobLen pos read
  have inside := decodeU64_consumed_le read
  rw [subWord_eq inside, Except.ok_bind]
  split
  · exact Rust.safe_malformed _
  apply Rust.Safe.bind (sliceRange_safe (Nat.le_add_right _ _) (by omega))
  intro sizesBlob _
  split
  · exact Rust.safe_malformed _
  rename_i readSizes
  apply Rust.Safe.bind (sliceRange_safe (decodeU64_consumed_le readSizes) (Nat.le_refl _))
  intro compressedSizes _
  simp only
  split
  · exact Rust.safe_malformed _
  apply Rust.Safe.bind (decompressDataCapped_safe _ _ _)
  intro sizesBytes _
  split
  · exact Rust.safe_malformed _
  apply Rust.Safe.bind (parseSizes_safe _ _ _ _)
  intro sizes _
  apply Rust.Safe.bind (sliceRange_safe (by omega) (Nat.le_refl _))
  intro valuesBlob _
  split
  · exact Rust.safe_malformed _
  rename_i readValues
  split
  · exact Rust.safe_malformed _
  apply Rust.Safe.bind (sliceRange_safe (decodeU64_consumed_le readValues) (Nat.le_refl _))
  intro compressedValues _
  apply Rust.Safe.bind (decompressDataCapped_safe _ _ _)
  intro values _
  split
  · exact Rust.safe_malformed _
  split
  · exact Rust.safe_malformed _
  · exact Rust.safe_ok _

/-- Whatever the chunk, the decoder does not reach past a slice. -/
theorem SimpleChunkDecoder.new_safe (chunk : Chunk) :
    Rust.Safe (SimpleChunkDecoder.new ext chunk) := by
  unfold SimpleChunkDecoder.new
  split
  · exact Rust.safe_error _
  simp only
  split
  · exact Rust.safe_malformed _
  split
  · exact decodeUncompressed_safe _ _ _
  split
  · exact decodeCompressed_safe _ _ _ _
  split
  · exact decodeCompressed_safe _ _ _ _
  split
  · exact decodeCompressed_safe _ _ _ _
  · exact Rust.safe_error _

/-! ## Chunks -/

/-- The decoder of values cut into sizes hands over the slices. -/
theorem decoderOf_yields {sizes : List Nat} {values : Bytes} (filled : values.length = sizes.sum) :
    (ActiveDecoder.simple (decoderOf sizes values)).Yields (slicesOf sizes values) := by
  have yields := simpleDecoderOf_yields (slicesOf sizes values) []
  rw [List.nil_append, simpleDecoderOf, map_length_slicesOf sizes values filled,
    flatten_slicesOf sizes values filled] at yields
  exact yields

/-- The byte of a compression type other than `none` selects its codec. -/
theorem SimpleChunkDecoder.new_eq_ok {chunk : Chunk} {decoder : SimpleChunkDecoder}
    (hashed : chunk.header.isDataValid ext chunk.data = true)
    (fits : chunk.header.decodedDataSize ≤ u64Max) (small : chunk.data.length ≤ u64Max) :
    SimpleChunkDecoder.new ext chunk = .ok decoder ↔
      ∃ sizes values, SimpleGrammar ext chunk.data chunk.header.numRecords
        chunk.header.decodedDataSize sizes values ∧ decoder = decoderOf sizes values := by
  have valid : ¬ chunk.header.isDataValid ext chunk.data = false := by
    rw [hashed]
    decide
  unfold SimpleChunkDecoder.new
  rw [if_neg valid]
  cases stored : chunk.data with
  | nil =>
      constructor
      · intro opened
        cases opened
      · rintro ⟨sizes, values, ⟨payload, shape, _⟩ | ⟨compression, payload, _, shape, _⟩, _⟩
        · cases shape
        · cases shape
  | cons byte payload =>
      rw [stored, List.length_cons] at small
      have plain := @decodeUncompressed_eq_ok payload chunk.header.numRecords _ decoder fits
        (by omega)
      have compressed := fun compression =>
        @decodeCompressed_eq_ok ext payload chunk.header.numRecords _ decoder compression fits
      constructor
      · intro opened
        simp only at opened
        split at opened
        · rename_i zero
          obtain ⟨sizes, values, grammar, rfl⟩ := plain.mp opened
          exact ⟨sizes, values, .inl ⟨payload, by rw [zero], grammar⟩, rfl⟩
        have selected : ∀ compression : CompressionType, compression ≠ .none →
            byte = compression.toByte →
            decodeCompressed ext payload chunk.header.numRecords compression
              chunk.header.decodedDataSize = .ok decoder →
            ∃ sizes values, SimpleGrammar ext (byte :: payload) chunk.header.numRecords
              chunk.header.decodedDataSize sizes values ∧ decoder = decoderOf sizes values := by
          intro compression coded same decoded
          obtain ⟨sizes, values, grammar, rfl⟩ := (compressed compression).mp decoded
          exact ⟨sizes, values, .inr ⟨compression, payload, coded, by rw [same], grammar⟩, rfl⟩
        split at opened
        · rename_i brotli
          exact selected .brotli nofun brotli opened
        split at opened
        · rename_i zstd
          exact selected .zstd nofun zstd opened
        split at opened
        · rename_i snappy
          exact selected .snappy nofun snappy opened
        · cases opened
      · rintro ⟨sizes, values, ⟨rest, shape, grammar⟩ | ⟨compression, rest, coded, shape, grammar⟩,
          built⟩
        · cases shape
          exact plain.mpr ⟨sizes, values, grammar, built⟩
        · cases shape
          have decoded := (compressed compression).mpr ⟨sizes, values, grammar, built⟩
          cases compression with
          | none => exact absurd rfl coded
          | brotli => exact decoded
          | zstd => exact decoded
          | snappy => exact decoded

/-- The simple chunk decoder accepts exactly its grammar, hands over the
slices of the values by the sizes, and panics on nothing. -/
theorem SimpleChunkDecoder.new_accepts (ext : Externals) (chunk : Chunk)
    (hashed : chunk.header.isDataValid ext chunk.data = true)
    (fits : chunk.header.decodedDataSize ≤ u64Max) (small : chunk.data.length ≤ isizeMax) :
    Rust.Safe (SimpleChunkDecoder.new ext chunk) ∧
      (∀ decoder, SimpleChunkDecoder.new ext chunk = .ok decoder →
        ∃ sizes values, SimpleGrammar ext chunk.data chunk.header.numRecords
          chunk.header.decodedDataSize sizes values) ∧
      ∀ sizes values, SimpleGrammar ext chunk.data chunk.header.numRecords
          chunk.header.decodedDataSize sizes values →
        ∃ decoder, SimpleChunkDecoder.new ext chunk = .ok decoder ∧
          (ActiveDecoder.simple decoder).Yields (slicesOf sizes values) ∧
          (slicesOf sizes values).length = chunk.header.numRecords := by
  have wordSize : isizeMax ≤ u64Max := by decide
  have accepts := fun decoder =>
    @SimpleChunkDecoder.new_eq_ok ext chunk decoder hashed fits (by omega)
  refine ⟨SimpleChunkDecoder.new_safe chunk, ?_, ?_⟩
  · intro decoder opened
    obtain ⟨sizes, values, grammar, _⟩ := (accepts decoder).mp opened
    exact ⟨sizes, values, grammar⟩
  · intro sizes values grammar
    have claimed : ClaimedSizes chunk.header.numRecords chunk.header.decodedDataSize sizes
        values := by
      rcases grammar with ⟨_, _, plain⟩ | ⟨_, _, _, _, compressed⟩
      · exact plain.claimed
      · exact compressed.claimed
    have filled : values.length = sizes.sum := claimed.filled.trans claimed.total.symm
    refine ⟨decoderOf sizes values, (accepts _).mpr ⟨sizes, values, grammar, rfl⟩,
      decoderOf_yields filled, ?_⟩
    rw [← claimed.counted, ← List.length_map (f := List.length),
      map_length_slicesOf sizes values filled]

/-- Two records, the second size spelled with a byte to spare. -/
theorem SimpleChunkDecoder.new_accepts_overlong :
    ∃ decoder, SimpleChunkDecoder.new storingExternals
        { header := ChunkHeader.fromParts storingExternals [0, 3, 2, 129, 0, 97, 98, 99] .simple 2 3
          data := [0, 3, 2, 129, 0, 97, 98, 99] } = .ok decoder ∧
      (ActiveDecoder.simple decoder).Yields [[97, 98], [99]] ∧ [[97, 98], [99]].length = 2 :=
  (SimpleChunkDecoder.new_accepts storingExternals
    { header := ChunkHeader.fromParts storingExternals [0, 3, 2, 129, 0, 97, 98, 99] .simple 2 3
      data := [0, 3, 2, 129, 0, 97, 98, 99] }
    (by decide) (by decide) (by decide)).2.2 [2, 1] [97, 98, 99]
    (.inl ⟨[3, 2, 129, 0, 97, 98, 99], rfl,
      ⟨[3], [2, 129, 0], ⟨.last (by decide), by decide, by decide⟩,
        @Sizes.cons [2] _ _ _ ⟨.last (by decide), by decide, by decide⟩
          (@Sizes.cons [129, 0] _ _ _
            ⟨.more (by decide) (.last (by decide)), by decide, by decide⟩ .nil), rfl⟩,
        rfl, rfl, rfl⟩)

end Riegeli
