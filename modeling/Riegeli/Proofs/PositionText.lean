/-
Module: Riegeli.Proofs.PositionText
Purpose: The texts that are read as a record position, and that the text of a
  position is one of them.
Trusted boundary: none
Main exports: RecordPosition.fromStr_eq_ok, RecordPosition.fromStr_display,
  positionText_exact
-/
import Riegeli.Core.RecordPosition

namespace Riegeli

/-- Two numbers with a slash between them whose sum is a 64-bit number. -/
structure PositionText (text : List Char) (position : RecordPosition) : Prop where
  split : ∃ chunk index, text = chunk ++ '/' :: index ∧ Numeral chunk position.chunkBegin ∧
    Numeral index position.recordIndex
  within : position.chunkBegin + position.recordIndex ≤ u64Max

/-- No number has this character in its text. -/
theorem Numeral.slash_not_mem {text : List Char} {value : Nat} (number : Numeral text value) :
    '/' ∉ text := by
  intro member
  cases number with
  | digits _ all => exact absurd (all _ member) (by decide)
  | plus _ all =>
      rcases List.mem_cons.mp member with impossible | member
      · exact absurd impossible (by decide)
      · exact absurd (all _ member) (by decide)

namespace RecordPosition

/-- Reading a text with a slash in it. -/
theorem fromStr_split {s : String} {chunk index : List Char}
    (split : splitOnce '/' s.toList = some (chunk, index)) {chunkBegin recordIndex : Nat}
    (first : parseUnsigned u64Max chunk = .ok chunkBegin)
    (second : parseUnsigned u64Max index = .ok recordIndex) :
    fromStr s = if recordIndex > u64Max - chunkBegin then .error (overflow chunkBegin recordIndex)
      else .ok (new chunkBegin recordIndex) := by
  unfold fromStr
  rw [split]
  dsimp only
  rw [first, second]
  rfl

/-- What is read as a position is two numbers with a slash between them. -/
theorem fromStr_eq_ok {s : String} {position : RecordPosition} :
    fromStr s = .ok position ↔ PositionText s.toList position := by
  constructor
  · intro parsed
    cases split : splitOnce '/' s.toList with
    | none =>
        unfold fromStr at parsed
        rw [split] at parsed
        cases parsed
    | some sides =>
        obtain ⟨chunk, index⟩ := sides
        cases first : parseUnsigned u64Max chunk with
        | error error =>
            unfold fromStr at parsed
            rw [split] at parsed
            dsimp only at parsed
            rw [first] at parsed
            cases parsed
        | ok chunkBegin =>
            cases second : parseUnsigned u64Max index with
            | error error =>
                unfold fromStr at parsed
                rw [split] at parsed
                dsimp only at parsed
                rw [first, second] at parsed
                cases parsed
            | ok recordIndex =>
                rw [fromStr_split split first second] at parsed
                by_cases overflows : recordIndex > u64Max - chunkBegin
                · rw [if_pos overflows] at parsed
                  cases parsed
                · rw [if_neg overflows] at parsed
                  obtain rfl := Except.ok.inj parsed
                  obtain ⟨numeral, small⟩ := parseUnsigned_eq_ok.mp first
                  refine ⟨⟨chunk, index, (splitOnce_eq_some.mp split).1, numeral,
                    (parseUnsigned_eq_ok.mp second).1⟩, ?_⟩
                  change chunkBegin + recordIndex ≤ u64Max
                  omega
  · rintro ⟨⟨chunk, index, split, first, second⟩, within⟩
    rw [fromStr_split (splitOnce_eq_some.mpr ⟨split, first.slash_not_mem⟩)
      (parseUnsigned_eq_ok.mpr ⟨first, by omega⟩) (parseUnsigned_eq_ok.mpr ⟨second, by omega⟩),
      if_neg (by omega)]
    rfl

/-- The text of a position is read back as the position, unless its numeric value
overflows. -/
theorem fromStr_display {position : RecordPosition} (chunk : position.chunkBegin ≤ u64Max)
    (index : position.recordIndex ≤ u64Max) :
    fromStr position.display =
      if position.chunkBegin + position.recordIndex ≤ u64Max then .ok position
      else .error (overflow position.chunkBegin position.recordIndex) := by
  have first := numeral_toDigits position.chunkBegin
  have split : splitOnce '/' position.display.toList =
      some (Nat.toDigits 10 position.chunkBegin, Nat.toDigits 10 position.recordIndex) := by
    rw [splitOnce_eq_some]
    refine ⟨?_, first.slash_not_mem⟩
    simp [display]
  rw [fromStr_split split (parseUnsigned_eq_ok.mpr ⟨first, chunk⟩)
    (parseUnsigned_eq_ok.mpr ⟨numeral_toDigits position.recordIndex, index⟩)]
  by_cases within : position.chunkBegin + position.recordIndex ≤ u64Max
  · rw [if_pos within, if_neg (by omega)]
    rfl
  · rw [if_neg within, if_pos (by omega)]

end RecordPosition

/-- A text is read as a position exactly when it is two numbers with a slash between
them whose sum is a 64-bit number, so that the numeric value of what is read is
exact.  The text of a position is read back as the position, or refused where that
value overflows. -/
theorem positionText_exact (s : String) (position : RecordPosition) :
    (RecordPosition.fromStr s = .ok position ↔ PositionText s.toList position) ∧
      (RecordPosition.fromStr s = .ok position →
        position.numeric = position.chunkBegin + position.recordIndex) ∧
      (position.chunkBegin ≤ u64Max → position.recordIndex ≤ u64Max →
        RecordPosition.fromStr position.display =
          if position.chunkBegin + position.recordIndex ≤ u64Max then .ok position
          else .error (RecordPosition.overflow position.chunkBegin position.recordIndex)) := by
  refine ⟨RecordPosition.fromStr_eq_ok, fun parsed => ?_, RecordPosition.fromStr_display⟩
  have within := (RecordPosition.fromStr_eq_ok.mp parsed).within
  exact Nat.min_eq_left within

/-- A sign and leading zeros are read, but not written. -/
example : RecordPosition.fromStr "+007/12" = .ok (.new 7 12) ∧
    RecordPosition.display (.new 7 12) = "7/12" := by
  decide +kernel

end Riegeli
