/-
Module: Riegeli.Library.Machine
Purpose: Machine-word arithmetic and little-endian byte layouts on natural
  numbers, with the laws the format proofs rewrite by.
Trusted boundary: none
Main exports: Bytes, u64Max, wrapAdd, satAdd, checkedAdd, checkedSub, toLeBytes,
  fromLeBytes, fromLeBytes_toLeBytes
-/
import Mathlib.Data.List.Basic
import Mathlib.Tactic.Ring

namespace Riegeli

/-- A byte string. -/
abbrev Bytes := List UInt8

/-- The largest `u64`. -/
def u64Max : Nat := 2 ^ 64 - 1

/-- The largest `u32`. -/
def u32Max : Nat := 2 ^ 32 - 1

/-- The largest length of an object in memory, and the largest file offset. -/
def isizeMax : Nat := 2 ^ 63 - 1

/-- A `u64` sum in a build without overflow checks, where it wraps. -/
def wrapAdd (left right : Nat) : Nat := (left + right) % 2 ^ 64

/-- `u64::saturating_add`. -/
def satAdd (left right : Nat) : Nat := min (left + right) u64Max

/-- `u64::saturating_mul`. -/
def satMul (left right : Nat) : Nat := min (left * right) u64Max

/-- `u64::checked_add`. -/
def checkedAdd (left right : Nat) : Option Nat :=
  if left + right ≤ u64Max then some (left + right) else none

/-- `u64::checked_sub`. -/
def checkedSub (left right : Nat) : Option Nat :=
  if right ≤ left then some (left - right) else none

theorem wrapAdd_le (left right : Nat) : wrapAdd left right ≤ u64Max :=
  Nat.le_pred_of_lt (Nat.mod_lt _ (by decide))

/-- A sum that fits does not wrap. -/
theorem wrapAdd_eq {left right : Nat} (fits : left + right ≤ u64Max) :
    wrapAdd left right = left + right :=
  Nat.mod_eq_of_lt (Nat.lt_of_le_of_lt fits (by decide))

theorem satAdd_le (left right : Nat) : satAdd left right ≤ u64Max :=
  Nat.min_le_right _ _

/-- Below the limit a saturating sum is the exact one. -/
theorem satAdd_eq_of_lt {left right : Nat} (below : satAdd left right < u64Max) :
    satAdd left right = left + right := by
  unfold satAdd at *
  omega

theorem satAdd_eq {left right : Nat} (fits : left + right ≤ u64Max) :
    satAdd left right = left + right :=
  Nat.min_eq_left fits

theorem checkedAdd_eq_some {left right sum : Nat} :
    checkedAdd left right = some sum ↔ left + right = sum ∧ sum ≤ u64Max := by
  unfold checkedAdd
  split
  · rename_i fits
    simp only [Option.some.injEq]
    constructor
    · rintro rfl
      exact ⟨rfl, fits⟩
    · exact fun equal => equal.1
  · rename_i overflow
    simp only [reduceCtorEq, false_iff, not_and]
    rintro rfl
    exact overflow

theorem checkedSub_eq_some {left right rest : Nat} :
    checkedSub left right = some rest ↔ right ≤ left ∧ left - right = rest := by
  unfold checkedSub
  split <;> simp [*]

/-! ## Little-endian integers -/

/-- The `width` low-order bytes of `value`, least significant first. -/
def toLeBytes : Nat → Nat → Bytes
  | 0, _ => []
  | width + 1, value => UInt8.ofNat value :: toLeBytes width (value / 256)

/-- The value of a little-endian byte string. -/
def fromLeBytes : Bytes → Nat
  | [] => 0
  | byte :: rest => byte.toNat + 256 * fromLeBytes rest

@[simp] theorem length_toLeBytes (width value : Nat) :
    (toLeBytes width value).length = width := by
  induction width generalizing value with
  | zero => rfl
  | succ width ih => simp [toLeBytes, ih]

theorem fromLeBytes_lt (bytes : Bytes) : fromLeBytes bytes < 256 ^ bytes.length := by
  induction bytes with
  | nil => simp [fromLeBytes]
  | cons byte rest ih =>
      have small : byte.toNat < 256 := byte.toNat_lt
      simp only [fromLeBytes, List.length_cons, Nat.pow_succ]
      omega

/-- Reading back a little-endian field keeps its low-order bytes. -/
theorem fromLeBytes_toLeBytes (width value : Nat) :
    fromLeBytes (toLeBytes width value) = value % 256 ^ width := by
  induction width generalizing value with
  | zero => simp [toLeBytes, fromLeBytes, Nat.mod_one]
  | succ width ih =>
      have byte : (UInt8.ofNat value).toNat = value % 256 := by simp
      rw [toLeBytes, fromLeBytes, ih, byte, Nat.pow_succ', Nat.mod_mul]

/-- A byte string is the layout of its own value. -/
theorem toLeBytes_fromLeBytes (bytes : Bytes) :
    toLeBytes bytes.length (fromLeBytes bytes) = bytes := by
  induction bytes with
  | nil => rfl
  | cons byte rest ih =>
      have small : byte.toNat < 256 := byte.toNat_lt
      have high : (byte.toNat + 256 * fromLeBytes rest) / 256 = fromLeBytes rest := by
        omega
      have low : UInt8.ofNat (byte.toNat + 256 * fromLeBytes rest) = byte := by
        apply UInt8.toNat_inj.mp
        rw [UInt8.toNat_ofNat']
        omega
      simp only [fromLeBytes, List.length_cons, toLeBytes, high, low, ih]

theorem fromLeBytes_toLeBytes_eight {value : Nat} (fits : value ≤ u64Max) :
    fromLeBytes (toLeBytes 8 value) = value := by
  rw [fromLeBytes_toLeBytes]
  unfold u64Max at fits
  exact Nat.mod_eq_of_lt (by omega)

end Riegeli
