/-
Module: Riegeli.Library.Zigzag
Purpose: The zigzag numbers of integers and the two shifts that compute them on
  words of any width.
Trusted boundary: none
Main exports: zigzag, zigzag_word, toNat_word
-/
import Mathlib.Tactic.Linarith
import Mathlib.Tactic.NormNum
import Mathlib.Tactic.Positivity

namespace Riegeli

/-- The zigzag number of an integer: 0, -1, 1, -2, 2 and so on are numbered in
turn. -/
def zigzag (value : Int) : Nat := if 0 ≤ value then (2 * value).toNat else (-2 * value - 1).toNat

variable {width : Nat}

/-- The arithmetic shift that leaves the sign. -/
theorem sshiftRight_sign (word : BitVec (width + 1)) :
    word.sshiftRight width =
      if word.toInt < 0 then BitVec.allOnes (width + 1) else 0#(width + 1) := by
  have upper := BitVec.toInt_lt (x := word)
  have lower := BitVec.le_toInt (x := word)
  rw [Nat.add_sub_cancel] at upper lower
  apply BitVec.eq_of_toInt_eq
  rw [BitVec.toInt_sshiftRight, Int.shiftRight_eq_div_pow]
  push_cast
  split
  · rename_i negative
    rw [BitVec.toInt_allOnes, if_pos (Nat.succ_pos _)]
    have big : (0 : Int) < 2 ^ width := by positivity
    exact (Int.ediv_eq_iff_of_pos big).mpr ⟨by linarith, by linarith⟩
  · rw [BitVec.toInt_zero]
    exact Int.ediv_eq_zero_of_lt (by omega) upper

/-- Twice the word, with every bit flipped when it is negative, is its zigzag
number. -/
theorem zigzag_word (word : BitVec (width + 1)) :
    ((word <<< 1) ^^^ word.sshiftRight width).toNat = zigzag word.toInt := by
  have bound := word.isLt
  have value := @BitVec.toInt_eq_toNat_cond _ word
  have power : 2 ^ (width + 1) = 2 * 2 ^ width := Nat.pow_succ'
  have shifted : (word <<< 1).toNat = 2 * word.toNat % 2 ^ (width + 1) := by
    rw [BitVec.toNat_shiftLeft, Nat.shiftLeft_eq, Nat.pow_one, Nat.mul_comm]
  rw [sshiftRight_sign]
  unfold zigzag
  by_cases negative : word.toInt < 0
  · rw [if_pos negative, if_neg (by omega), BitVec.xor_allOnes, BitVec.toNat_not, shifted]
    split at value
    · omega
    · have high : 2 * word.toNat % 2 ^ (width + 1) = 2 * word.toNat - 2 ^ (width + 1) := by
        rw [Nat.mod_eq_sub_mod (by omega), Nat.mod_eq_of_lt (by omega)]
      omega
  · rw [if_neg negative, if_pos (by omega), BitVec.xor_zero, shifted]
    split at value
    · rw [Nat.mod_eq_of_lt (by omega)]
      omega
    · omega

/-- A word is its integer modulo the words. -/
theorem toNat_word (word : BitVec width) : word.toNat = (word.toInt % 2 ^ width).toNat := by
  have bound := word.isLt
  have value := @BitVec.toInt_eq_toNat_cond _ word
  have power : ((2 ^ width : Nat) : Int) = 2 ^ width := by push_cast; rfl
  rw [value, ← power]
  split
  · rw [Int.emod_eq_of_lt (by omega) (by omega), Int.toNat_natCast]
  · rw [Int.sub_emod_right, Int.emod_eq_of_lt (by omega) (by omega), Int.toNat_natCast]

end Riegeli
