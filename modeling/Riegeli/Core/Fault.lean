/-
Module: Riegeli.Core.Fault
Purpose: The crate's error type with its texts, and the ways a call can end:
  with a value, with an error, or with a panic.
Trusted boundary: none
Main exports: RiegeliError, Fault, Rust, malformed, sliceRange, indexAt,
  setAt, collectVec, subWord, attempt
-/
import Riegeli.Library.Machine
import Riegeli.Library.Action

namespace Riegeli

/-- The kinds of `std::io::Error` the crate tells apart, and the rest. -/
inductive IoErrorKind where
  | unexpectedEof
  | writeZero
  | other (code : Nat)
deriving Repr, DecidableEq

/-- `std::io::Error`. -/
structure IoError where
  kind : IoErrorKind
  message : String
deriving Repr, DecidableEq

/-- `RiegeliError` of `error.rs`. -/
inductive RiegeliError where
  | dataHashMismatch
  | malformedData (message : String)
  | unsupportedCompression (byte : UInt8)
  | writerClosed
  | writerFailed (message : String)
  | ioError (error : IoError)
  | unknownChunkType (byte : UInt8)
  | unknownCompressionType (byte : UInt8)
deriving Repr, DecidableEq

/-- The format `{byte:#04x}`. -/
def hexByte (byte : UInt8) : String :=
  let digits := Nat.toDigits 16 byte.toNat
  "0x" ++ String.ofList (List.replicate (2 - digits.length) '0' ++ digits)

/-- `impl Display for RiegeliError`. -/
def RiegeliError.toText : RiegeliError → String
  | .dataHashMismatch => "chunk data hash mismatch: data is corrupted"
  | .malformedData message => "malformed chunk data: " ++ message
  | .unsupportedCompression byte =>
      "unsupported compression type byte: " ++ hexByte byte
  | .writerClosed => "writer has been closed"
  | .writerFailed message => "writer previously failed: " ++ message
  | .ioError error => "I/O error: " ++ error.message
  | .unknownChunkType byte => "unknown chunk type byte: " ++ hexByte byte
  | .unknownCompressionType byte =>
      "unknown compression type byte: " ++ hexByte byte

/-- Why a call panics. -/
inductive PanicKind where
  | indexOutOfRange
  | sliceOutOfRange
  | arithmeticUnderflow
  | unwrapOnNone
  | capacityOverflow
deriving Repr, DecidableEq

/-- The ways a call fails to return a value.  `outOfFuel` marks a loop of the
model that was given too few iterations. -/
inductive Fault where
  | error (error : RiegeliError)
  | panic (kind : PanicKind)
  | outOfFuel
deriving Repr, DecidableEq

/-- A call that returns a `Result<Value, RiegeliError>` or panics. -/
abbrev Rust (Value : Type) : Type := Except Fault Value

/-- `RiegeliError::MalformedData(message.into())`. -/
def malformed (message : String) : Fault := .error (.malformedData message)

/-- `Result<Value, RiegeliError>` as a call. -/
def ofResult {Value : Type} : Except RiegeliError Value → Rust Value
  | .ok value => .ok value
  | .error error => .error (.error error)

/-- Run a method and hand its `Result` over as a value, `match method() { .. }`. -/
def attempt {State Value : Type} (method : Act State Fault Value) :
    Act State Fault (Except RiegeliError Value) := fun state =>
  match method state with
  | (.ok value, next) => (.ok (.ok value), next)
  | (.error (.error error), next) => (.ok (.error error), next)
  | (.error fault, next) => (.error fault, next)

theorem attempt_run_ok {State Value : Type} {method : Act State Fault Value} {state next : State}
    {value : Value} (ran : method state = (.ok value, next)) :
    attempt method state = (.ok (.ok value), next) := by
  rw [attempt, ran]

theorem attempt_stays {State Value : Type} {frame : Frame State}
    {method : Act State Fault Value} (stays : Act.Stays frame method) :
    Act.Stays frame (attempt method) := by
  intro state
  have moved := stays state
  unfold attempt
  split <;> rename_i outcome <;> rw [outcome] at moved <;> exact moved

/-- A call neither panics nor runs out of iterations. -/
def Rust.Safe {Value : Type} (call : Rust Value) : Prop :=
  (∃ value, call = .ok value) ∨ ∃ error, call = .error (.error error)

/-- A call returns no `Err`. -/
def Rust.Quiet {Value : Type} (call : Rust Value) : Prop :=
  ∀ error, call ≠ .error (.error error)

variable {Item : Type}

/-- `items[start..stop]`. -/
def sliceRange (items : List Item) (start stop : Nat) : Rust (List Item) :=
  if start ≤ stop ∧ stop ≤ items.length then
    .ok ((items.drop start).take (stop - start))
  else .error (.panic .sliceOutOfRange)

/-- `items[index]`. -/
def indexAt (items : List Item) (index : Nat) : Rust Item :=
  match items[index]? with
  | some item => .ok item
  | none => .error (.panic .indexOutOfRange)

/-- `items[index] = value`. -/
def setAt (items : List Item) (index : Nat) (value : Item) : Rust (List Item) :=
  if index < items.length then .ok (items.set index value)
  else .error (.panic .indexOutOfRange)

/-- `collect()` into a vector, which holds at most `isize::MAX` bytes. -/
def collectVec (bytes : Bytes) : Rust Bytes :=
  if bytes.length ≤ isizeMax then .ok bytes else .error (.panic .capacityOverflow)

/-- `left - right` on an unsigned word. -/
def subWord (left right : Nat) : Rust Nat :=
  if right ≤ left then .ok (left - right) else .error (.panic .arithmeticUnderflow)

theorem sliceRange_eq {items : List Item} {start stop : Nat}
    (ordered : start ≤ stop) (inside : stop ≤ items.length) :
    sliceRange items start stop = .ok ((items.drop start).take (stop - start)) := by
  simp [sliceRange, ordered, inside]

/-- The slice between a first and a last part. -/
theorem sliceRange_middle {first middle last : List Item} {start stop : Nat}
    (startsAt : start = first.length) (stopsAt : stop = first.length + middle.length) :
    sliceRange (first ++ middle ++ last) start stop = .ok middle := by
  subst startsAt stopsAt
  rw [sliceRange_eq (Nat.le_add_right _ _) (by simp), List.append_assoc, List.drop_left,
    Nat.add_sub_cancel_left, List.take_left]

/-- The slice after a first part. -/
theorem sliceRange_suffix {first last : List Item} {start stop : Nat}
    (startsAt : start = first.length) (stopsAt : stop = (first ++ last).length) :
    sliceRange (first ++ last) start stop = .ok last := by
  subst startsAt stopsAt
  rw [sliceRange_eq (by simp) (Nat.le_refl _), List.drop_left, List.take_of_length_le (by simp)]

theorem indexAt_eq {items : List Item} {index : Nat} (inside : index < items.length) :
    indexAt items index = .ok items[index] := by
  simp [indexAt, inside]

theorem indexAt_eq_ok {items : List Item} {index : Nat} {item : Item} :
    indexAt items index = .ok item ↔ items[index]? = some item := by
  unfold indexAt
  split <;> simp [*]

theorem setAt_eq {items : List Item} {index : Nat} (inside : index < items.length)
    (value : Item) : setAt items index value = .ok (items.set index value) := by
  simp [setAt, inside]

theorem setAt_length {items updated : List Item} {index : Nat} {value : Item}
    (set : setAt items index value = .ok updated) : updated.length = items.length := by
  unfold setAt at set
  split at set
  · cases set
    exact List.length_set
  · cases set

theorem collectVec_eq_ok {bytes collected : Bytes} :
    collectVec bytes = .ok collected ↔ bytes.length ≤ isizeMax ∧ collected = bytes := by
  unfold collectVec
  split <;> simp [*, eq_comm]

theorem subWord_eq {left right : Nat} (enough : right ≤ left) :
    subWord left right = .ok (left - right) := by
  simp [subWord, enough]

@[simp] theorem Rust.safe_ok {Value : Type} (value : Value) :
    Rust.Safe (.ok value : Rust Value) := Or.inl ⟨value, rfl⟩

@[simp] theorem Rust.safe_error {Value : Type} (error : RiegeliError) :
    Rust.Safe (.error (.error error) : Rust Value) := Or.inr ⟨error, rfl⟩

@[simp] theorem Rust.safe_malformed {Value : Type} (message : String) :
    Rust.Safe (.error (malformed message) : Rust Value) := Or.inr ⟨_, rfl⟩

/-- A sequence of safe calls is safe. -/
theorem Rust.Safe.bind {Value Result : Type} {first : Rust Value}
    {second : Value → Rust Result} (firstSafe : Rust.Safe first)
    (secondSafe : ∀ value, first = .ok value → Rust.Safe (second value)) :
    Rust.Safe (first >>= second) := by
  rcases firstSafe with ⟨value, ran⟩ | ⟨error, ran⟩
  · rw [ran, Except.ok_bind]
    exact secondSafe value ran
  · rw [ran, Except.error_bind]
    exact Rust.safe_error error

theorem Rust.Quiet.ok {Value : Type} (value : Value) : Rust.Quiet (.ok value : Rust Value) :=
  fun _ => by simp

theorem Rust.Quiet.panic {Value : Type} (kind : PanicKind) :
    Rust.Quiet (.error (.panic kind) : Rust Value) := fun _ => by simp

/-- A sequence of quiet calls is quiet. -/
theorem Rust.Quiet.bind {Value Result : Type} {first : Rust Value}
    {second : Value → Rust Result} (firstQuiet : Rust.Quiet first)
    (secondQuiet : ∀ value, Rust.Quiet (second value)) : Rust.Quiet (first >>= second) := by
  intro error
  cases outcome : first with
  | ok value => exact secondQuiet value error
  | error fault =>
      rw [Except.error_bind]
      intro same
      exact firstQuiet error (outcome.trans (congrArg _ (Except.error.inj same)))

theorem sliceRange_quiet (items : List Item) (start stop : Nat) :
    Rust.Quiet (sliceRange items start stop) := by
  unfold sliceRange
  split
  · exact .ok _
  · exact .panic _

theorem indexAt_quiet (items : List Item) (index : Nat) : Rust.Quiet (indexAt items index) := by
  unfold indexAt
  split
  · exact .ok _
  · exact .panic _

end Riegeli
