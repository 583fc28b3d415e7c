/-
Module: Riegeli.Proofs.TransitionHops
Purpose: The offsets that `build_transitions` emits lead from a base through
  NoOp states to the wanted state, and the packed bytes keep all of them.
Trusted boundary: none
Main exports: Chained, Ancestor, Reaches, Leads, offsetsTo_leads, hopsTo_eq,
  emitTransitionBytes_expand
-/
import Riegeli.Spec.EmittedOffsets

namespace Riegeli

variable {stateMachine : List StateInfo}

/-! ## Chains of canonical sources -/

/-- A state is a NoOp. -/
def StateInfo.IsNoop (state : StateInfo) : Prop := state.etagIndex = invalidPos

/-- Every canonical source is an earlier NoOp whose base has the state within
reach. -/
def Chained (stateMachine : List StateInfo) : Prop :=
  ∀ pos state, stateMachine[pos]? = some state → state.canonicalSource ≠ invalidPos →
    state.canonicalSource < pos ∧
      ∃ source, stateMachine[state.canonicalSource]? = some source ∧ source.IsNoop ∧
        source.base ≤ pos ∧ pos ≤ source.base + maxTransition

/-- The first position is met on the way up from the second one. -/
inductive Ancestor (stateMachine : List StateInfo) : Nat → Nat → Prop where
  | refl (pos : Nat) : Ancestor stateMachine pos pos
  | step {ancestor pos : Nat} {state : StateInfo} :
      stateMachine[pos]? = some state → state.canonicalSource ≠ invalidPos →
      Ancestor stateMachine ancestor state.canonicalSource → Ancestor stateMachine ancestor pos

/-- Some state on the way up from the position is within reach of the base. -/
def Reaches (stateMachine : List StateInfo) (base pos : Nat) : Prop :=
  ∃ ancestor, Ancestor stateMachine ancestor pos ∧ base ≤ ancestor ∧
    ancestor ≤ base + maxTransition

/-- Following the offsets from the base, through a NoOp after each but the last
one, leads to the target. -/
inductive Leads (stateMachine : List StateInfo) : Nat → List Nat → Nat → Prop where
  | last {base offset : Nat} : offset ≤ maxTransition →
      Leads stateMachine base [offset] (base + offset)
  | hop {base offset target : Nat} {offsets : List Nat} {noop : StateInfo} :
      offset ≤ maxTransition → stateMachine[base + offset]? = some noop → noop.IsNoop →
      Leads stateMachine noop.base offsets target →
      Leads stateMachine base (offset :: offsets) target

/-- Following the offsets from a state leads to the target. -/
def Onward (stateMachine : List StateInfo) (pos : Nat) (offsets : List Nat) (target : Nat) : Prop :=
  offsets = [] ∧ pos = target ∨
    ∃ noop, stateMachine[pos]? = some noop ∧ noop.IsNoop ∧
      Leads stateMachine noop.base offsets target

theorem Ancestor.le (chained : Chained stateMachine) {ancestor pos : Nat}
    (above : Ancestor stateMachine ancestor pos) : ancestor ≤ pos := by
  induction above with
  | refl => exact Nat.le_refl _
  | step found served _ ih => exact ih.trans (chained _ _ found served).1.le

theorem Leads.offsets_le {base target : Nat} {offsets : List Nat}
    (leads : Leads stateMachine base offsets target) : ∀ offset ∈ offsets, offset ≤ maxTransition := by
  induction leads with
  | last small => exact List.forall_mem_cons.mpr ⟨small, fun _ member => nomatch member⟩
  | hop small _ _ _ ih => exact List.forall_mem_cons.mpr ⟨small, ih⟩

/-- One offset before the others. -/
theorem Leads.of_onward {base offset target : Nat} {offsets : List Nat} (small : offset ≤ maxTransition)
    (onward : Onward stateMachine (base + offset) offsets target) :
    Leads stateMachine base (offset :: offsets) target := by
  rcases onward with ⟨rfl, rfl⟩ | ⟨noop, found, isNoop, leads⟩
  · exact .last small
  · exact .hop small found isNoop leads

/-- The walk up the canonical sources ends within reach, and the offsets it
collects lead back down. -/
theorem walkOffsets_onward (chained : Chained stateMachine) (checked : Bool) {base target : Nat} :
    ∀ {fuel pos : Nat} {offsets : List Nat}, Reaches stateMachine base pos → pos < fuel →
      pos < stateMachine.length → stateMachine.length ≤ invalidPos →
      Onward stateMachine pos offsets target →
      ∃ top more, walkOffsets stateMachine checked base fuel pos offsets = .ok (top, more) ∧
        base ≤ top ∧ top ≤ base + maxTransition ∧ Onward stateMachine top more target := by
  intro fuel
  induction fuel with
  | zero => intro pos offsets _ none; omega
  | succ fuel ih =>
      intro pos offsets reaches enough inside fits onward
      obtain ⟨ancestor, above, low, high⟩ := reaches
      have upward := above.le chained
      rw [walkOffsets]
      by_cases far : pos < base ∨ (base ≠ invalidPos ∧ maxTransition < pos - base)
      · rw [if_pos far]
        cases above with
        | refl => omega
        | @step _ state found served beyond =>
            obtain ⟨earlier, source, sourceFound, isNoop, begins, near⟩ :=
              chained _ _ found served
            have present : (checked && decide (state.canonicalSource = invalidPos ∨
                stateMachine.length ≤ state.canonicalSource)) = false := by
              have absent : ¬ (state.canonicalSource = invalidPos ∨
                  stateMachine.length ≤ state.canonicalSource) := by omega
              rw [decide_eq_false absent, Bool.and_false]
            have offset := subWord_eq begins
            have further := @ih state.canonicalSource ((pos - source.base) :: offsets)
              ⟨ancestor, beyond, low, high⟩ (by omega) (by omega) fits
              (Or.inr ⟨source, sourceFound, isNoop, Leads.of_onward (by omega) (by
                rw [Nat.add_sub_cancel' begins]
                exact onward)⟩)
            rw [indexAt_eq_ok.mpr found, Except.ok_bind]
            simp only [present, Bool.false_eq_true, if_false]
            rw [indexAt_eq_ok.mpr sourceFound, Except.ok_bind, offset, Except.ok_bind]
            exact further
      · rw [if_neg far]
        exact ⟨pos, offsets, rfl, by omega, by omega, onward⟩

/-- The offsets from a base to a state within its reach lead there. -/
theorem offsetsTo_leads (chained : Chained stateMachine) (checked : Bool) {base target : Nat}
    (reaches : Reaches stateMachine base target) (inside : target < stateMachine.length)
    (fits : stateMachine.length ≤ invalidPos) :
    ∃ offsets, offsetsTo stateMachine checked base target = .ok offsets ∧
      Leads stateMachine base offsets target := by
  obtain ⟨top, more, walked, low, high, onward⟩ :=
    @walkOffsets_onward _ chained checked base target (target + 2) target [] reaches (by omega)
      inside fits (Or.inl ⟨rfl, rfl⟩)
  refine ⟨(top - base) :: more, ?_, Leads.of_onward (by omega) ?_⟩
  · unfold offsetsTo
    rw [walked, Except.ok_bind]
    simp only
    rw [subWord_eq low, Except.ok_bind]
  · rw [Nat.add_sub_cancel' low]
    exact onward

/-- The encoder's walk collects the same offsets as bytes. -/
theorem canonicalWalk_eq (checked : Bool) (base : Nat) {fuel : Nat} :
    ∀ {pos : Nat} {offsets more : List Nat} {top : Nat},
      walkOffsets stateMachine checked base fuel pos offsets = .ok (top, more) →
      canonicalWalk stateMachine checked base fuel pos (offsets.map UInt8.ofNat) =
        .ok (top, more.map UInt8.ofNat) := by
  induction fuel with
  | zero => intro pos offsets more top walked; cases walked
  | succ fuel ih =>
      intro pos offsets more top walked
      rw [walkOffsets] at walked
      rw [canonicalWalk]
      by_cases far : pos < base ∨ (base ≠ invalidPos ∧ maxTransition < pos - base)
      · rw [if_pos far] at walked ⊢
        obtain ⟨state, found, walked⟩ := Except.bind_eq_ok.mp walked
        rw [found, Except.ok_bind]
        simp only at walked ⊢
        by_cases missing : (checked && decide (state.canonicalSource = invalidPos ∨
            stateMachine.length ≤ state.canonicalSource)) = true
        · rw [if_pos missing] at walked ⊢
          cases walked
          rfl
        · rw [if_neg missing] at walked ⊢
          obtain ⟨source, sourceFound, walked⟩ := Except.bind_eq_ok.mp walked
          obtain ⟨offset, subtracted, walked⟩ := Except.bind_eq_ok.mp walked
          rw [sourceFound, Except.ok_bind, subtracted, Except.ok_bind]
          exact ih walked
      · rw [if_neg far] at walked ⊢
        cases walked
        rfl

/-- The encoder's hops are the offsets as bytes. -/
theorem hopsTo_eq (checked : Bool) {base target : Nat} {offsets : List Nat}
    (walked : offsetsTo stateMachine checked base target = .ok offsets) :
    hopsTo stateMachine checked base target = .ok (offsets.map UInt8.ofNat) := by
  unfold offsetsTo at walked
  obtain ⟨⟨top, more⟩, reached, walked⟩ := Except.bind_eq_ok.mp walked
  obtain ⟨offset, subtracted, walked⟩ := Except.bind_eq_ok.mp walked
  cases walked
  unfold hopsTo
  rw [← List.map_nil, canonicalWalk_eq checked base reached, Except.ok_bind]
  simp only at subtracted ⊢
  rw [subtracted, Except.ok_bind]
  rfl

/-! ## Packed transitions -/

@[simp] theorem expandBytes_nil : expandBytes [] = [] := rfl

theorem expandBytes_append (first second : Bytes) :
    expandBytes (first ++ second) = expandBytes first ++ expandBytes second := by
  simp [expandBytes]

/-- A fresh byte stands for its offset alone. -/
theorem expandByte_shift {offset : Nat} (small : offset ≤ maxTransition) :
    expandByte (UInt8.ofNat offset <<< 2) = [offset] := by
  have value : (UInt8.ofNat offset <<< 2).toNat = offset * 4 := by
    unfold maxTransition at small
    have inner : offset % 2 ^ 8 = offset := Nat.mod_eq_of_lt (by omega)
    rw [UInt8.toNat_shiftLeft, UInt8.toNat_ofNat', inner]
    simp only [UInt8.reduceToNat, Nat.shiftLeft_eq]
    norm_num
    omega
  unfold expandByte
  rw [value, Nat.mul_mod_left, Nat.mul_div_cancel _ (by omega)]
  rfl

/-- Counting a repetition into a byte adds a zero offset. -/
theorem expandByte_succ {byte : UInt8} (room : (byte &&& 3) < 3) :
    expandByte (byte + 1) = expandByte byte ++ [0] := by
  have low : byte.toNat % 4 < 3 := by
    have masked : (byte &&& 3).toNat = byte.toNat % 4 := by
      rw [UInt8.toNat_and]
      exact Nat.and_two_pow_sub_one_eq_mod byte.toNat 2
    rw [← masked]
    exact UInt8.lt_iff_toNat_lt.mp room
  have small := byte.toNat_lt
  have value : (byte + 1).toNat = byte.toNat + 1 := by
    rw [UInt8.toNat_add]
    simp only [UInt8.reduceToNat]
    omega
  unfold expandByte
  rw [value, show (byte.toNat + 1) / 4 = byte.toNat / 4 by omega,
    show (byte.toNat + 1) % 4 = byte.toNat % 4 + 1 by omega, List.replicate_succ']
  rfl

/-- Packing keeps all offsets in order. -/
theorem emitTransitionBytes_expand {offsets : List Nat} :
    (∀ offset ∈ offsets, offset ≤ maxTransition) → ∀ (transitions : Bytes) (last : Option UInt8),
      expandBytes ((emitTransitionBytes (offsets.map UInt8.ofNat) transitions last).1 ++
          (emitTransitionBytes (offsets.map UInt8.ofNat) transitions last).2.toList) =
        expandBytes (transitions ++ last.toList) ++ offsets := by
  induction offsets with
  | nil => intro _ transitions last; simp [emitTransitionBytes]
  | cons offset offsets ih =>
      intro small transitions last
      obtain ⟨here, later⟩ := List.forall_mem_cons.mp small
      have fresh : expandBytes [UInt8.ofNat offset <<< 2] = [offset] := by
        simp [expandBytes, expandByte_shift here]
      rw [List.map_cons]
      cases last with
      | none =>
          rw [emitTransitionBytes, ih later]
          simp only [Option.toList_some, Option.toList_none, List.append_nil, expandBytes_append,
            fresh, List.append_assoc, List.singleton_append]
      | some last =>
          rw [emitTransitionBytes]
          by_cases repeated : UInt8.ofNat offset = 0 ∧ (last &&& 3) < 3
          · have zero : offset = 0 := by
              have value := congrArg UInt8.toNat repeated.1
              unfold maxTransition at here
              rw [UInt8.toNat_ofNat'] at value
              simp only [UInt8.reduceToNat] at value
              omega
            have counted : expandBytes [last + 1] = expandBytes [last] ++ [0] := by
              simp [expandBytes, expandByte_succ repeated.2]
            rw [if_pos repeated, ih later]
            simp only [Option.toList_some, expandBytes_append, counted, zero, List.append_assoc,
              List.singleton_append]
          · rw [if_neg repeated, ih later]
            simp only [Option.toList_some]
            rw [expandBytes_append, fresh, List.append_assoc, List.singleton_append]

end Riegeli
