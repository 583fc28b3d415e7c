/-
Module: Riegeli.Proofs.VarintAgreement
Purpose: The varint routines of `varint.rs` and `proto/wire.rs` draw the same
  line: the strict readers accept what the permissive ones decode and the
  encoder writes.
Trusted boundary: none
Main exports: decodeU32_fits, canonical64_iff_decode, canonical32_iff_decode,
  varints_agree
-/
import Riegeli.Proofs.SimpleGrammar
import Riegeli.Proofs.SimpleRoundTrip
import Riegeli.Proofs.CanonicalVarints

namespace Riegeli

variable {data : Bytes} {value consumed : Nat}

/-- What is consumed lies in the buffer. -/
theorem decodeVarintLoop_fits {maxLen lastMax : Nat} (lastSmall : lastMax < 128)
    (decoded : decodeVarintLoop maxLen lastMax 0 0 data = .ok (value, consumed)) :
    value < 2 ^ (7 * (maxLen - 1)) * (lastMax + 1) ∧ consumed ≤ data.length := by
  obtain ⟨part, rest, number, rfl, _, _, bound, same, length⟩ :=
    (decodeVarintLoop_eq_ok lastSmall (Nat.zero_le _)).mp decoded
  rw [Nat.mul_zero, Nat.pow_zero, Nat.mul_one, Nat.zero_add] at same
  rw [Nat.zero_add] at bound length
  rw [same, length, List.length_append]
  exact ⟨bound, Nat.le_add_right _ _⟩

theorem decodeU64_fits (decoded : decodeU64 data = .ok (value, consumed)) :
    value ≤ u64Max ∧ consumed ≤ data.length := by
  obtain ⟨bound, inside⟩ := decodeVarintLoop_fits (by decide) decoded
  refine ⟨?_, inside⟩
  unfold u64Max
  norm_num [maxU64VarintLen] at bound
  omega

theorem decodeU32_fits (decoded : decodeU32 data = .ok (value, consumed)) :
    value ≤ u32Max ∧ consumed ≤ data.length := by
  obtain ⟨bound, inside⟩ := decodeVarintLoop_fits (by decide) decoded
  refine ⟨?_, inside⟩
  unfold u32Max
  norm_num [maxU32VarintLen] at bound
  omega

/-- Bytes that are consumed and are an encoding stand at the front. -/
theorem front_of_consumed {encoded : Bytes} (inside : consumed ≤ data.length)
    (taken : data.take consumed = encoded) :
    consumed = encoded.length ∧ ∃ rest, data = encoded ++ rest := by
  constructor
  · rw [← taken, List.length_take, Nat.min_eq_left inside]
  · exact ⟨data.drop consumed, by rw [← taken, List.take_append_drop]⟩

variable {pos : Nat}

/-- The canonical `u64` reader accepts what decodes and is written the way the
encoder writes it. -/
theorem canonical64_iff_decode :
    readCanonicalVarint64 data pos = some (value, consumed) ↔
      decodeU64 (data.drop pos) = .ok (value, consumed) ∧
        (data.drop pos).take consumed = encodeU64 value := by
  constructor
  · intro read
    obtain ⟨fits, rfl, rest, split⟩ := readCanonicalVarint64_iff.mp read
    rw [split]
    exact ⟨decodeU64_encodeU64 fits rest, List.take_left⟩
  · rintro ⟨decoded, taken⟩
    obtain ⟨fits, inside⟩ := decodeU64_fits decoded
    exact readCanonicalVarint64_iff.mpr ⟨fits, front_of_consumed inside taken⟩

theorem canonical32_iff_decode :
    readCanonicalVarint32 data pos = some (value, consumed) ↔
      decodeU32 (data.drop pos) = .ok (value, consumed) ∧
        (data.drop pos).take consumed = encodeU32 value := by
  constructor
  · intro read
    obtain ⟨fits, rfl, rest, split⟩ := readCanonicalVarint32_iff.mp read
    rw [split]
    exact ⟨decodeU32_encodeU32 fits rest, List.take_left⟩
  · rintro ⟨decoded, taken⟩
    obtain ⟨fits, inside⟩ := decodeU32_fits decoded
    exact readCanonicalVarint32_iff.mpr ⟨fits, front_of_consumed inside taken⟩

/-- What is written is read back with its length, and the strict readers, the
one that skips among them, accept exactly the encodings that decode. -/
theorem varints_agree :
    (∀ value ≤ u64Max, ∀ trailing,
      decodeU64 (encodeU64 value ++ trailing) = .ok (value, (encodeU64 value).length) ∧
        (encodeU64 value).length = lengthVarintU64 value) ∧
    (∀ value ≤ u32Max, ∀ trailing,
      decodeU32 (encodeU32 value ++ trailing) = .ok (value, (encodeU32 value).length) ∧
        (encodeU32 value).length = lengthVarintU64 value) ∧
    ∀ (data : Bytes) (pos : Nat), pos ≤ data.length →
      (∀ value consumed, readCanonicalVarint64 data pos = some (value, consumed) ↔
        decodeU64 (data.drop pos) = .ok (value, consumed) ∧
          (data.drop pos).take consumed = encodeU64 value) ∧
      (∀ value consumed, readCanonicalVarint32 data pos = some (value, consumed) ↔
        decodeU32 (data.drop pos) = .ok (value, consumed) ∧
          (data.drop pos).take consumed = encodeU32 value) ∧
      ∀ consumed, skipCanonicalVarint64 data pos = some consumed ↔
        ∃ value, readCanonicalVarint64 data pos = some (value, consumed) := by
  refine ⟨fun value fits trailing => ?_, fun value fits trailing => ?_, fun data pos _ => ?_⟩
  · exact ⟨decodeU64_encodeU64 fits trailing, (lengthVarintU64_eq fits).symm⟩
  · have wide : value ≤ u64Max := fits.trans (by decide)
    exact ⟨decodeU32_encodeU32 fits trailing, (lengthVarintU64_eq wide).symm⟩
  · refine ⟨fun _ _ => canonical64_iff_decode, fun _ _ => canonical32_iff_decode,
      fun consumed => ?_⟩
    rw [skipCanonicalVarint64_eq, Option.map_eq_some_iff]
    constructor
    · rintro ⟨⟨value, _⟩, read, rfl⟩
      exact ⟨value, read⟩
    · rintro ⟨value, read⟩
      exact ⟨_, read, rfl⟩

/-- An overlong zero decodes, and is no canonical varint. -/
theorem varints_agree_overlong :
    decodeU64 [0x80, 0x00] = .ok (0, 2) ∧ skipCanonicalVarint64 [0x80, 0x00] 0 = none ∧
      (decodeU64 (encodeU64 300 ++ [7]) = .ok (300, 2) ∧ 2 = lengthVarintU64 300) ∧
      (skipCanonicalVarint64 [7, 0xac, 0x02] 1 = some 2 ↔
        ∃ value, readCanonicalVarint64 [7, 0xac, 0x02] 1 = some (value, 2)) := by
  obtain ⟨wide, _, readers⟩ := varints_agree
  exact ⟨by decide, by decide, wide 300 (by decide) [7],
    (readers [7, 0xac, 0x02] 1 (by decide)).2.2 2⟩

end Riegeli
