/-
Module: Riegeli.Library.Text
Purpose: Text that is taken apart: the two sides of a separator, and decimal
  numbers up to a limit.
Trusted boundary: none
Main exports: splitOnce, splitOnce_eq_some, ParseIntError, parseUnsigned, Numeral,
  parseUnsigned_eq_ok
-/
import Mathlib.Data.List.Basic

namespace Riegeli

/-! ## Separators -/

/-- `str::split_once`. -/
def splitOnce (separator : Char) : List Char → Option (List Char × List Char)
  | [] => none
  | char :: rest =>
      if char = separator then some ([], rest)
      else (splitOnce separator rest).map fun sides => (char :: sides.1, sides.2)

theorem splitOnce_eq_some {separator : Char} {text front behind : List Char} :
    splitOnce separator text = some (front, behind) ↔
      text = front ++ separator :: behind ∧ separator ∉ front := by
  induction text generalizing front with
  | nil => simp [splitOnce]
  | cons char rest ih =>
      rw [splitOnce]
      by_cases found : char = separator
      · subst found
        rw [if_pos rfl]
        constructor
        · intro same
          cases same
          exact ⟨rfl, List.not_mem_nil⟩
        · rintro ⟨split, absent⟩
          cases front with
          | nil => rw [(List.cons.inj split).2]
          | cons first front =>
              rw [(List.cons.inj split).1] at absent
              exact absurd List.mem_cons_self absent
      · rw [if_neg found]
        constructor
        · intro same
          obtain ⟨sides, inner, pair⟩ := Option.map_eq_some_iff.mp same
          cases pair
          obtain ⟨split, absent⟩ := ih.mp inner
          refine ⟨congrArg (List.cons char) split, ?_⟩
          exact List.not_mem_cons_of_ne_of_not_mem (Ne.symm found) absent
        · rintro ⟨split, absent⟩
          cases front with
          | nil => exact absurd (List.cons.inj split).1 found
          | cons first front =>
              obtain ⟨rfl, remains⟩ := List.cons.inj split
              rw [ih.mpr ⟨remains, fun member => absent (List.mem_cons_of_mem _ member)⟩]
              rfl

/-! ## Decimal numbers -/

/-- `ParseIntError` for an unsigned type. -/
inductive ParseIntError where
  | empty
  | invalidDigit
  | posOverflow
deriving Repr, DecidableEq

/-- Its text. -/
def ParseIntError.text : ParseIntError → String
  | .empty => "cannot parse integer from empty string"
  | .invalidDigit => "invalid digit found in string"
  | .posOverflow => "number too large to fit in target type"

/-- The digits behind a value, up to the limit of the type. -/
def parseDigits (limit : Nat) : List Char → Nat → Except ParseIntError Nat
  | [], value => .ok value
  | char :: rest, value =>
      if char.isDigit then
        if 10 * value + (char.toNat - '0'.toNat) ≤ limit then
          parseDigits limit rest (10 * value + (char.toNat - '0'.toNat))
        else .error .posOverflow
      else .error .invalidDigit

/-- `str::parse` for an unsigned type with this limit.  A sign needs digits behind
it, and a minus sign is no digit. -/
def parseUnsigned (limit : Nat) : List Char → Except ParseIntError Nat
  | [] => .error .empty
  | char :: rest =>
      if rest = [] ∧ (char = '+' ∨ char = '-') then .error .invalidDigit
      else if char = '+' then parseDigits limit rest 0
      else parseDigits limit (char :: rest) 0

/-- The text of a number: its digits, with leading zeros or not, and a plus sign in
front of them or none. -/
inductive Numeral : List Char → Nat → Prop where
  | digits {text : List Char} : text ≠ [] → (∀ char ∈ text, char.isDigit = true) →
      Numeral text (Nat.ofDigitChars 10 text 0)
  | plus {text : List Char} : text ≠ [] → (∀ char ∈ text, char.isDigit = true) →
      Numeral ('+' :: text) (Nat.ofDigitChars 10 text 0)

/-- Further digits do not make a number smaller. -/
theorem le_ofDigitChars (digits : List Char) (value : Nat) :
    value ≤ Nat.ofDigitChars 10 digits value := by
  induction digits generalizing value with
  | nil => exact Nat.le_of_eq Nat.ofDigitChars_nil.symm
  | cons char rest ih =>
      rw [Nat.ofDigitChars_cons]
      have later := ih (10 * value + (char.toNat - '0'.toNat))
      omega

theorem parseDigits_eq_ok {limit start value : Nat} {digits : List Char} (within : start ≤ limit) :
    parseDigits limit digits start = .ok value ↔
      (∀ char ∈ digits, char.isDigit = true) ∧ value = Nat.ofDigitChars 10 digits start ∧
        value ≤ limit := by
  induction digits generalizing start with
  | nil =>
      rw [parseDigits, Nat.ofDigitChars_nil]
      constructor
      · intro same
        obtain rfl := Except.ok.inj same
        exact ⟨List.forall_mem_nil _, rfl, within⟩
      · rintro ⟨_, rfl, _⟩
        rfl
  | cons char rest ih =>
      rw [parseDigits, Nat.ofDigitChars_cons, List.forall_mem_cons]
      by_cases digit : char.isDigit = true
      · rw [if_pos digit]
        by_cases fits : 10 * start + (char.toNat - '0'.toNat) ≤ limit
        · rw [if_pos fits, ih fits]
          exact ⟨fun parsed => ⟨⟨digit, parsed.1⟩, parsed.2⟩, fun parsed => ⟨parsed.1.2, parsed.2⟩⟩
        · rw [if_neg fits]
          constructor
          · intro impossible
            cases impossible
          · rintro ⟨_, rfl, small⟩
            exact absurd (Nat.le_trans (le_ofDigitChars rest _) small) fits
      · rw [if_neg digit]
        constructor
        · intro impossible
          cases impossible
        · rintro ⟨⟨isDigit, _⟩, _⟩
          exact absurd isDigit digit

/-- What is parsed is exactly the text of a number within the limit. -/
theorem parseUnsigned_eq_ok {limit value : Nat} {text : List Char} :
    parseUnsigned limit text = .ok value ↔ Numeral text value ∧ value ≤ limit := by
  cases text with
  | nil =>
      constructor
      · intro impossible
        cases impossible
      · rintro ⟨number, _⟩
        cases number with
        | digits some _ => exact absurd rfl some
  | cons char rest =>
      rw [parseUnsigned]
      by_cases bare : rest = [] ∧ (char = '+' ∨ char = '-')
      · rw [if_pos bare]
        obtain ⟨rfl, sign⟩ := bare
        constructor
        · intro impossible
          cases impossible
        · rintro ⟨number, _⟩
          cases number with
          | digits _ all =>
              have digit := all char List.mem_cons_self
              rcases sign with rfl | rfl <;> cases digit
          | plus some _ => exact absurd rfl some
      · rw [if_neg bare]
        by_cases signed : char = '+'
        · subst signed
          have some : rest ≠ [] := fun none => bare ⟨none, .inl rfl⟩
          rw [if_pos rfl, parseDigits_eq_ok (Nat.zero_le limit)]
          constructor
          · rintro ⟨all, rfl, small⟩
            exact ⟨.plus some all, small⟩
          · rintro ⟨number, small⟩
            cases number with
            | digits _ all => exact absurd (all _ List.mem_cons_self) (by decide)
            | plus _ all => exact ⟨all, rfl, small⟩
        · rw [if_neg signed, parseDigits_eq_ok (Nat.zero_le limit)]
          constructor
          · rintro ⟨all, rfl, small⟩
            exact ⟨.digits (List.cons_ne_nil _ _) all, small⟩
          · rintro ⟨number, small⟩
            cases number with
            | digits _ all => exact ⟨all, rfl, small⟩
            | plus _ _ => exact absurd rfl signed

/-- A number is read back from its decimal digits. -/
theorem numeral_toDigits (value : Nat) : Numeral (Nat.toDigits 10 value) value := by
  have digits := @Numeral.digits (Nat.toDigits 10 value) Nat.toDigits_ne_nil
    fun char member => Nat.isDigit_of_mem_toDigits (by decide) (by decide) member
  rw [Nat.ofDigitChars_ten_toDigits] at digits
  exact digits

end Riegeli
