/-
Module: Riegeli.Core.Varint
Purpose: The LEB128 routines of `varint.rs`: encoding, decoding and the
  encoded length, and the round trip through them.
Trusted boundary: none
Main exports: encodeU64, encodeU32, decodeU64, decodeU32, lengthVarintU64,
  decodeU64_encodeU64, decodeU32_encodeU32
-/
import Riegeli.Core.Fault

namespace Riegeli

/-- Maximum number of bytes needed to encode a `u64` value. -/
def maxU64VarintLen : Nat := 10

/-- Maximum number of bytes needed to encode a `u32` value. -/
def maxU32VarintLen : Nat := 5

/-- `VarintError`. -/
inductive VarintError where
  | unexpectedEof
  | overflow
deriving Repr, DecidableEq

/-- `impl Display for VarintError`. -/
def VarintError.toText : VarintError → String
  | .unexpectedEof => "buffer ended before varint was complete"
  | .overflow => "varint overflows target integer type"

/-- The loop of `encode_u64`: seven bits a byte, the high bit on every byte
but the last. -/
def encodeVarintLoop : Nat → Nat → Bytes
  | 0, _ => []
  | fuel + 1, value =>
      if value / 128 = 0 then [UInt8.ofNat (value % 128)]
      else UInt8.ofNat (value % 128 + 128) :: encodeVarintLoop fuel (value / 128)

/-- `encode_u64`. -/
def encodeU64 (value : Nat) : Bytes := encodeVarintLoop maxU64VarintLen value

/-- `encode_u32`. -/
def encodeU32 (value : Nat) : Bytes := encodeU64 value

/-- The loop shared by `decode_u64` and `decode_u32`: `maxLen` is the longest
encoding and `lastMax` bounds the payload of its last byte.  `index` counts
the bytes read and `result` is the value so far. -/
def decodeVarintLoop (maxLen lastMax : Nat) :
    Nat → Nat → Bytes → Except VarintError (Nat × Nat)
  | _, _, [] => .error .unexpectedEof
  | index, result, byte :: rest =>
      if index = maxLen then .error .overflow
      else
        let low7 := byte.toNat % 128
        if index + 1 = maxLen ∧ lastMax < low7 then .error .overflow
        else
          let result := result + low7 * 2 ^ (7 * index)
          if byte.toNat < 128 then .ok (result, index + 1)
          else decodeVarintLoop maxLen lastMax (index + 1) result rest

/-- `decode_u64`: the value and the number of bytes consumed. -/
def decodeU64 (buffer : Bytes) : Except VarintError (Nat × Nat) :=
  decodeVarintLoop maxU64VarintLen 1 0 0 buffer

/-- `decode_u32`. -/
def decodeU32 (buffer : Bytes) : Except VarintError (Nat × Nat) :=
  decodeVarintLoop maxU32VarintLen 15 0 0 buffer

/-- The number of significant bits, `64 - v.leading_zeros()`. -/
def bitLength (value : Nat) : Nat := if value = 0 then 0 else Nat.log2 value + 1

/-- `length_varint_u64`. -/
def lengthVarintU64 (value : Nat) : Nat :=
  if value = 0 then 1 else (bitLength value + 6) / 7

/-! ## Encoding -/

theorem encodeVarintLoop_ne_nil (fuel value : Nat) :
    encodeVarintLoop (fuel + 1) value ≠ [] := by
  rw [encodeVarintLoop]
  split <;> simp

theorem encodeVarintLoop_length_pos (fuel value : Nat) :
    0 < (encodeVarintLoop (fuel + 1) value).length :=
  List.length_pos_of_ne_nil (encodeVarintLoop_ne_nil fuel value)

theorem encodeVarintLoop_length_le (fuel value : Nat) :
    (encodeVarintLoop fuel value).length ≤ fuel := by
  induction fuel generalizing value with
  | zero => simp [encodeVarintLoop]
  | succ fuel ih =>
      rw [encodeVarintLoop]
      split
      · simp
      · simpa using ih (value / 128)

theorem encodeU64_length_pos (value : Nat) : 0 < (encodeU64 value).length :=
  encodeVarintLoop_length_pos 9 value

theorem encodeU64_length_le (value : Nat) : (encodeU64 value).length ≤ 10 :=
  encodeVarintLoop_length_le 10 value

/-- A value of at most `7 * count` bits takes at most `count` bytes. -/
theorem encodeVarintLoop_length_of_lt {count : Nat} :
    ∀ {fuel value : Nat}, value < 2 ^ (7 * (count + 1)) →
      (encodeVarintLoop fuel value).length ≤ count + 1 := by
  induction count with
  | zero =>
      intro fuel value small
      cases fuel with
      | zero => simp [encodeVarintLoop]
      | succ fuel =>
          have done : value / 128 = 0 := by omega
          simp [encodeVarintLoop, done]
  | succ count ih =>
      intro fuel value small
      cases fuel with
      | zero => simp [encodeVarintLoop]
      | succ fuel =>
          rw [encodeVarintLoop]
          split
          · simp
          · have shrunk : value / 128 < 2 ^ (7 * (count + 1)) := by
              rw [Nat.div_lt_iff_lt_mul (by omega)]
              calc
                value < 2 ^ (7 * (count + 1 + 1)) := small
                _ = 2 ^ (7 * (count + 1)) * 128 := by
                  rw [show 7 * (count + 1 + 1) = 7 * (count + 1) + 7 by omega, Nat.pow_add]
            have shorter := @ih fuel _ shrunk
            simp only [List.length_cons]
            omega

theorem encodeU32_length_le {value : Nat} (fits : value ≤ u32Max) :
    (encodeU32 value).length ≤ 5 := by
  unfold u32Max at fits
  exact @encodeVarintLoop_length_of_lt 4 _ _ (by omega)

/-! ## Round trip -/

/-- Decoding from byte `index` on what `encodeVarintLoop` wrote for the rest
of the value, whatever follows it. -/
theorem decodeVarintLoop_encodeVarintLoop {maxLen lastMax : Nat} (trailing : Bytes)
    (lastSmall : lastMax < 128) :
    ∀ (fuel index value result : Nat), fuel + index = maxLen → 0 < fuel →
      value < 2 ^ (7 * (fuel - 1)) * (lastMax + 1) →
      decodeVarintLoop maxLen lastMax index result (encodeVarintLoop fuel value ++ trailing) =
        .ok (result + value * 2 ^ (7 * index),
          index + (encodeVarintLoop fuel value).length) := by
  intro fuel
  induction fuel with
  | zero => intro index value result _ positive; omega
  | succ fuel ih =>
      intro index value result total _ bound
      have notEnd : index ≠ maxLen := by omega
      rw [encodeVarintLoop]
      by_cases final : value / 128 = 0
      · have small : value < 128 := by omega
        have byte : (UInt8.ofNat (value % 128)).toNat = value := by
          rw [UInt8.toNat_ofNat']
          omega
        have lastFits : ¬ (index + 1 = maxLen ∧ lastMax < value % 128) := by
          rintro ⟨last, big⟩
          have : fuel = 0 := by omega
          subst this
          simp at bound
          omega
        rw [if_pos final]
        simp only [List.cons_append, List.nil_append, decodeVarintLoop, byte,
          List.length_cons, List.length_nil]
        rw [if_neg notEnd, if_neg lastFits, if_pos small, Nat.mod_eq_of_lt small]
      · have byte : (UInt8.ofNat (value % 128 + 128)).toNat = value % 128 + 128 := by
          rw [UInt8.toNat_ofNat']
          omega
        have more : 0 < fuel := by
          rcases Nat.eq_zero_or_pos fuel with rfl | positive
          · simp at bound
            omega
          · exact positive
        have notLast : ¬ (index + 1 = maxLen ∧ lastMax < (value % 128 + 128) % 128) := by
          omega
        have high : ¬ value % 128 + 128 < 128 := by omega
        have shrunk : value / 128 < 2 ^ (7 * (fuel - 1)) * (lastMax + 1) := by
          rw [Nat.div_lt_iff_lt_mul (by omega)]
          calc
            value < 2 ^ (7 * (fuel + 1 - 1)) * (lastMax + 1) := bound
            _ = 2 ^ (7 * (fuel - 1)) * (lastMax + 1) * 128 := by
              rw [show 7 * (fuel + 1 - 1) = 7 * (fuel - 1) + 7 by omega, Nat.pow_add]
              ring
        rw [if_neg final]
        simp only [List.cons_append, decodeVarintLoop, byte, List.length_cons]
        rw [if_neg notEnd, if_neg notLast, if_neg high,
          ih (index + 1) (value / 128) _ (by omega) more shrunk]
        have low : (value % 128 + 128) % 128 = value % 128 := by omega
        have sum : value % 128 * 2 ^ (7 * index) + value / 128 * 2 ^ (7 * (index + 1)) =
            value * 2 ^ (7 * index) := by
          rw [show 7 * (index + 1) = 7 * index + 7 by omega, Nat.pow_add]
          calc
            value % 128 * 2 ^ (7 * index) + value / 128 * (2 ^ (7 * index) * 2 ^ 7)
              = (value % 128 + 128 * (value / 128)) * 2 ^ (7 * index) := by ring
            _ = value * 2 ^ (7 * index) := by rw [Nat.mod_add_div]
        rw [low, Nat.add_assoc result, sum]
        congr 2
        omega

/-- `decode_u64` inverts `encode_u64`, whatever bytes follow. -/
theorem decodeU64_encodeU64 {value : Nat} (fits : value ≤ u64Max) (trailing : Bytes) :
    decodeU64 (encodeU64 value ++ trailing) = .ok (value, (encodeU64 value).length) := by
  unfold u64Max at fits
  have loop := @decodeVarintLoop_encodeVarintLoop 10 1 trailing
    (by omega) 10 0 value 0 rfl (by omega) (by norm_num; omega)
  simpa [decodeU64, encodeU64, maxU64VarintLen] using loop

/-- The five-byte and ten-byte loops write the same `u32`. -/
theorem encodeVarintLoop_fuel {value : Nat} :
    ∀ (fuel extra : Nat), value < 2 ^ (7 * (fuel + 1)) →
      encodeVarintLoop (fuel + 1 + extra) value = encodeVarintLoop (fuel + 1) value := by
  intro fuel
  induction fuel generalizing value with
  | zero =>
      intro extra small
      have done : value / 128 = 0 := by omega
      rw [show 0 + 1 + extra = extra + 1 by omega]
      simp [encodeVarintLoop, done]
  | succ fuel ih =>
      intro extra small
      rw [show fuel + 1 + 1 + extra = (fuel + 1 + extra) + 1 by omega, encodeVarintLoop,
        encodeVarintLoop]
      have shrunk : value / 128 < 2 ^ (7 * (fuel + 1)) := by
        rw [Nat.div_lt_iff_lt_mul (by omega)]
        calc
          value < 2 ^ (7 * (fuel + 1 + 1)) := small
          _ = 2 ^ (7 * (fuel + 1)) * 128 := by
            rw [show 7 * (fuel + 1 + 1) = 7 * (fuel + 1) + 7 by omega, Nat.pow_add]
      rw [ih extra shrunk]

/-- `decode_u32` inverts `encode_u32`, whatever bytes follow. -/
theorem decodeU32_encodeU32 {value : Nat} (fits : value ≤ u32Max) (trailing : Bytes) :
    decodeU32 (encodeU32 value ++ trailing) = .ok (value, (encodeU32 value).length) := by
  unfold u32Max at fits
  have same : encodeU32 value = encodeVarintLoop 5 value :=
    encodeVarintLoop_fuel 4 5 (by omega)
  have loop := @decodeVarintLoop_encodeVarintLoop 5 15 trailing
    (by omega) 5 0 value 0 rfl (by omega) (by norm_num; omega)
  rw [same]
  simpa [decodeU32, maxU32VarintLen] using loop

end Riegeli
