/-
Module: Riegeli.Proofs.CanonicalVarints
Purpose: The canonical readers accept exactly what the encoder writes, and
  the permissive decoder agrees with them.
Trusted boundary: none
Main exports: canonicalVarintLoop_sound, canonicalVarintLoop_complete,
  readCanonicalVarint32_iff, readCanonicalVarint64_iff
-/
import Riegeli.Core.Wire

namespace Riegeli

variable {maxLen lastMax : Nat}

/-- What the reader accepts is the encoding of the value it returns. -/
theorem canonicalVarintLoop_sound (lastSmall : lastMax < 128) {bytes : Bytes} :
    ∀ {fuel index result value consumed : Nat}, fuel + index = maxLen →
      canonicalVarintLoop maxLen lastMax index result bytes = some (value, consumed) →
      ∃ part rest, bytes = encodeVarintLoop fuel part ++ rest ∧
        value = result + part * 2 ^ (7 * index) ∧
        consumed = index + (encodeVarintLoop fuel part).length ∧
        part < 2 ^ (7 * (fuel - 1)) * (lastMax + 1) ∧ (0 < index → 0 < part) := by
  induction bytes with
  | nil => intro fuel index result value consumed _ accepted; cases accepted
  | cons byte bytes ih =>
      intro fuel index result value consumed total accepted
      rw [canonicalVarintLoop] at accepted
      by_cases ended : index = maxLen
      · rw [if_pos ended] at accepted
        cases accepted
      obtain ⟨fuel, rfl⟩ : ∃ less, fuel = less + 1 := ⟨fuel - 1, by omega⟩
      rw [if_neg ended] at accepted
      by_cases overflows : index + 1 = maxLen ∧ lastMax < byte.toNat % 128
      · rw [if_pos overflows] at accepted
        cases accepted
      rw [if_neg overflows] at accepted
      by_cases final : byte.toNat < 128
      · have low : byte.toNat % 128 = byte.toNat := Nat.mod_eq_of_lt final
        have only : encodeVarintLoop (fuel + 1) byte.toNat = [byte] := by
          rw [encodeVarintLoop, if_pos (by omega), low, UInt8.ofNat_toNat]
        rw [if_pos final] at accepted
        by_cases overlong : 0 < index ∧ byte = 0
        · rw [if_pos overlong] at accepted
          cases accepted
        rw [if_neg overlong, low] at accepted
        cases accepted
        refine ⟨byte.toNat, bytes, ?_, rfl, ?_, ?_, ?_⟩
        · rw [only]
          rfl
        · rw [only]
          rfl
        · rcases Nat.eq_zero_or_pos fuel with rfl | more
          · simp only [Nat.zero_add, Nat.sub_self, Nat.mul_zero, Nat.pow_zero, Nat.one_mul]
            omega
          · have wide : 2 ^ 7 ≤ 2 ^ (7 * (fuel + 1 - 1)) :=
              Nat.pow_le_pow_right (by omega) (by omega)
            calc
              byte.toNat < 2 ^ 7 := final
              _ ≤ 2 ^ (7 * (fuel + 1 - 1)) := wide
              _ ≤ 2 ^ (7 * (fuel + 1 - 1)) * (lastMax + 1) := Nat.le_mul_of_pos_right _ (by omega)
        · intro later
          by_contra zero
          exact overlong ⟨later, UInt8.toNat_inj.mp (by simpa using zero)⟩
      · rw [if_neg final] at accepted
        obtain ⟨part, rest, rfl, rfl, rfl, bound, positive⟩ :=
          ih (show fuel + (index + 1) = maxLen by omega) accepted
        have more : 0 < fuel := by
          rcases Nat.eq_zero_or_pos fuel with rfl | more
          · simp [show index + 1 = maxLen by omega, encodeVarintLoop] at accepted
            cases rest <;> simp [canonicalVarintLoop] at accepted
          · exact more
        have nonzero := positive (Nat.succ_pos index)
        have small := byte.toNat_lt
        have written : encodeVarintLoop (fuel + 1) (byte.toNat % 128 + 128 * part) =
            byte :: encodeVarintLoop fuel part := by
          have high : (byte.toNat % 128 + 128 * part) / 128 = part := by omega
          have lowBits : (byte.toNat % 128 + 128 * part) % 128 + 128 = byte.toNat := by omega
          rw [encodeVarintLoop, high, if_neg (by omega), lowBits, UInt8.ofNat_toNat]
        refine ⟨byte.toNat % 128 + 128 * part, rest, ?_, ?_, ?_, ?_, fun _ => by omega⟩
        · rw [written]
          rfl
        · rw [show 7 * (index + 1) = 7 * index + 7 by omega, Nat.pow_add]
          ring
        · rw [written, List.length_cons]
          omega
        · have step : 2 ^ (7 * (fuel + 1 - 1)) * (lastMax + 1) =
              2 ^ (7 * (fuel - 1)) * (lastMax + 1) * 128 := by
            rw [show 7 * (fuel + 1 - 1) = 7 * (fuel - 1) + 7 by omega, Nat.pow_add]
            ring
          omega

/-- The reader accepts what the encoder writes. -/
theorem canonicalVarintLoop_complete (lastSmall : lastMax < 128) (rest : Bytes) :
    ∀ {fuel index part : Nat} (result : Nat), fuel + index = maxLen → 0 < fuel →
      part < 2 ^ (7 * (fuel - 1)) * (lastMax + 1) → (0 < index → 0 < part) →
      canonicalVarintLoop maxLen lastMax index result (encodeVarintLoop fuel part ++ rest) =
        some (result + part * 2 ^ (7 * index),
          index + (encodeVarintLoop fuel part).length) := by
  intro fuel
  induction fuel with
  | zero => intro index part result _ positive; omega
  | succ fuel ih =>
      intro index part result total _ bound nonzero
      have notEnd : index ≠ maxLen := by omega
      rw [encodeVarintLoop]
      by_cases final : part / 128 = 0
      · have small : part < 128 := by omega
        have byte : (UInt8.ofNat (part % 128)).toNat = part := by
          rw [UInt8.toNat_ofNat']
          omega
        have fits : ¬ (index + 1 = maxLen ∧ lastMax < part % 128) := by
          rintro ⟨last, big⟩
          obtain rfl : fuel = 0 := by omega
          simp at bound
          omega
        have short : ¬ (0 < index ∧ UInt8.ofNat (part % 128) = 0) := by
          rintro ⟨later, zero⟩
          rw [zero] at byte
          have positive := nonzero later
          rw [← byte] at positive
          exact absurd positive (by decide)
        rw [if_pos final, List.cons_append, canonicalVarintLoop, if_neg notEnd, byte,
          Nat.mod_eq_of_lt small]
        rw [Nat.mod_eq_of_lt small] at fits short
        rw [if_neg fits, if_pos small, if_neg short]
        rfl
      · have more : 0 < fuel := by
          rcases Nat.eq_zero_or_pos fuel with rfl | more
          · simp at bound
            omega
          · exact more
        have byte : (UInt8.ofNat (part % 128 + 128)).toNat = part % 128 + 128 := by
          rw [UInt8.toNat_ofNat']
          omega
        have low : (part % 128 + 128) % 128 = part % 128 := by omega
        have high : ¬ part % 128 + 128 < 128 := by omega
        have notLast : ¬ (index + 1 = maxLen ∧ lastMax < part % 128) := by omega
        have shrunk : part / 128 < 2 ^ (7 * (fuel - 1)) * (lastMax + 1) := by
          rw [Nat.div_lt_iff_lt_mul (by omega)]
          calc
            part < 2 ^ (7 * (fuel + 1 - 1)) * (lastMax + 1) := bound
            _ = 2 ^ (7 * (fuel - 1)) * (lastMax + 1) * 128 := by
              rw [show 7 * (fuel + 1 - 1) = 7 * (fuel - 1) + 7 by omega, Nat.pow_add]
              ring
        have sum : part % 128 * 2 ^ (7 * index) + part / 128 * 2 ^ (7 * (index + 1)) =
            part * 2 ^ (7 * index) := by
          rw [show 7 * (index + 1) = 7 * index + 7 by omega, Nat.pow_add]
          calc
            part % 128 * 2 ^ (7 * index) + part / 128 * (2 ^ (7 * index) * 2 ^ 7)
              = (part % 128 + 128 * (part / 128)) * 2 ^ (7 * index) := by ring
            _ = part * 2 ^ (7 * index) := by rw [Nat.mod_add_div]
        rw [if_neg final, List.cons_append, canonicalVarintLoop, if_neg notEnd, byte, low,
          if_neg notLast, if_neg high,
          ih (result + part % 128 * 2 ^ (7 * index)) (by omega) more shrunk (by omega),
          Nat.add_assoc result, sum, List.length_cons]
        congr 2
        omega

/-- The canonical `u64` reader accepts exactly the encodings. -/
theorem readCanonicalVarint64_iff {data : Bytes} {pos value consumed : Nat} :
    readCanonicalVarint64 data pos = some (value, consumed) ↔
      value ≤ u64Max ∧ consumed = (encodeU64 value).length ∧
        ∃ rest, data.drop pos = encodeU64 value ++ rest := by
  unfold readCanonicalVarint64 u64Max encodeU64 maxU64VarintLen
  constructor
  · intro accepted
    obtain ⟨part, rest, split, rfl, rfl, bound, _⟩ :=
      @canonicalVarintLoop_sound 10 1 (by omega) _ 10 0 0 _ _ rfl accepted
    norm_num at bound ⊢
    exact ⟨by omega, rest, split⟩
  · rintro ⟨fits, rfl, rest, split⟩
    have accepted := @canonicalVarintLoop_complete 10 1 (by omega) rest 10 0 value 0 rfl (by omega)
      (by norm_num; omega) (by omega)
    rw [split]
    simpa using accepted

/-- The canonical `u32` reader accepts exactly the encodings. -/
theorem readCanonicalVarint32_iff {data : Bytes} {pos value consumed : Nat} :
    readCanonicalVarint32 data pos = some (value, consumed) ↔
      value ≤ u32Max ∧ consumed = (encodeU32 value).length ∧
        ∃ rest, data.drop pos = encodeU32 value ++ rest := by
  have five : ∀ part, part ≤ u32Max → encodeU32 part = encodeVarintLoop 5 part :=
    fun part fits => encodeVarintLoop_fuel 4 5 (by unfold u32Max at fits; omega)
  unfold readCanonicalVarint32 maxU32VarintLen
  constructor
  · intro accepted
    obtain ⟨part, rest, split, rfl, rfl, bound, _⟩ :=
      @canonicalVarintLoop_sound 5 15 (by omega) _ 5 0 0 _ _ rfl accepted
    have fits : part ≤ u32Max := by
      unfold u32Max
      norm_num at bound
      omega
    simp only [Nat.mul_zero, Nat.pow_zero, Nat.mul_one, Nat.zero_add]
    rw [five part fits]
    exact ⟨fits, rfl, rest, split⟩
  · rintro ⟨fits, rfl, rest, split⟩
    have accepted := @canonicalVarintLoop_complete 5 15 (by omega) rest 5 0 value 0 rfl (by omega)
      (by unfold u32Max at fits; norm_num; omega) (by omega)
    rw [split, five value fits]
    simpa using accepted

/-- The loop that skips draws the same line as the one that reads. -/
theorem skipVarintLoop_eq (bytes : Bytes) :
    ∀ index result, skipVarintLoop index bytes =
      (canonicalVarintLoop maxU64VarintLen 1 index result bytes).map Prod.snd := by
  induction bytes with
  | nil => exact fun _ _ => rfl
  | cons byte rest ih =>
      intro index result
      rw [skipVarintLoop, canonicalVarintLoop]
      by_cases ended : index = maxU64VarintLen
      · rw [if_pos ended, if_pos ended]
        rfl
      rw [if_neg ended, if_neg ended]
      have last : index = 9 ↔ index + 1 = maxU64VarintLen := by
        unfold maxU64VarintLen
        omega
      by_cases overflows : index = 9 ∧ 1 < byte.toNat % 128
      · rw [if_pos overflows, if_pos ⟨last.mp overflows.1, overflows.2⟩]
        rfl
      have fits : ¬ (index + 1 = maxU64VarintLen ∧ 1 < byte.toNat % 128) :=
        fun late => overflows ⟨last.mpr late.1, late.2⟩
      rw [if_neg overflows, if_neg fits]
      by_cases final : byte.toNat < 128
      · rw [if_pos final, if_pos final]
        split <;> rfl
      · rw [if_neg final, if_neg final]
        exact ih _ _

/-- Skipping a canonical varint is reading it. -/
theorem skipCanonicalVarint64_eq (data : Bytes) (pos : Nat) :
    skipCanonicalVarint64 data pos = (readCanonicalVarint64 data pos).map Prod.snd :=
  skipVarintLoop_eq _ _ _

end Riegeli
