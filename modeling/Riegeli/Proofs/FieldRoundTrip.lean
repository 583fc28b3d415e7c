/-
Module: Riegeli.Proofs.FieldRoundTrip
Purpose: Iterating over a message and writing its fields again restores it, and
  the iterator and the two validators agree.
Trusted boundary: none
Main exports: collectLoop_sound, collectLoop_complete, isProtoMessageLoop_field,
  isParseable_of_isProtoMessage, fieldIteration_lossless
-/
import Riegeli.Spec.FieldEvents

namespace Riegeli

open ProtoFieldIter

variable {data : Bytes}

/-! ## Iteration -/

/-- The bytes of fields one after the other. -/
def fieldsBytes (fields : List ProtoField) : Bytes := fields.flatMap ProtoField.bytes

@[simp] theorem fieldsBytes_nil : fieldsBytes [] = [] := rfl

@[simp] theorem fieldsBytes_cons (field : ProtoField) (fields : List ProtoField) :
    fieldsBytes (field :: fields) = field.bytes ++ fieldsBytes fields := rfl

/-- The iterator stops at the end of the message. -/
theorem next_ended {pos : Nat} (ended : data.length ≤ pos) :
    (at' data pos).next = (none, at' data pos) :=
  if_pos (Or.inr ended)

theorem nextValue_isSome (iter : ProtoFieldIter) (number : Nat) (wireType : WireType) :
    (iter.nextValue number wireType).1.isSome = true := by
  unfold nextValue
  split
  · split <;> rfl
  · split <;> rfl
  · split <;> rfl
  · split
    · simp only
      split <;> rfl
    · rfl
  · rfl
  · rfl

/-- The iterator yields something before the end of the message. -/
theorem next_isSome {pos : Nat} (more : pos < data.length) :
    (at' data pos).next.1.isSome = true := by
  rw [next_at data more]
  split
  · rfl
  · split
    · rfl
    · split
      · rfl
      · exact nextValue_isSome _ _ _

/-- The fields collected are canonical and make up the rest of the message. -/
theorem collectLoop_sound {fuel : Nat} :
    ∀ {pos : Nat} {fields : List ProtoField}, collectLoop fuel (at' data pos) = .ok fields →
      (∀ field ∈ fields, field.Canonical) ∧ data.drop pos = fieldsBytes fields := by
  induction fuel with
  | zero => intro pos fields ran; cases ran
  | succ fuel ih =>
      intro pos fields ran
      rw [collectLoop] at ran
      by_cases more : pos < data.length
      · cases yielded : (at' data pos).next with
        | mk result inner =>
            match result with
            | none =>
                have yields := next_isSome more
                rw [yielded] at yields
                cases yields
            | some (.error error) => rw [yielded] at ran; cases ran
            | some (.ok field) =>
                obtain ⟨canonical, rest, split, rfl⟩ := next_sound yielded
                rw [yielded] at ran
                obtain ⟨later, ranOn, collected⟩ := Except.bind_eq_ok.mp ran
                obtain rfl := Except.ok.inj collected
                obtain ⟨others, whole⟩ := ih ranOn
                rw [drop_after split] at whole
                exact ⟨List.forall_mem_cons.mpr ⟨canonical, others⟩, by
                  rw [split, whole, fieldsBytes_cons]⟩
      · rw [next_ended (by omega)] at ran
        obtain rfl := Except.ok.inj ran
        exact ⟨List.forall_mem_nil _, List.drop_eq_nil_of_le (by omega)⟩

/-- The fields that make up the rest of the message are collected. -/
theorem collectLoop_complete {fields : List ProtoField} :
    ∀ {fuel pos : Nat}, (∀ field ∈ fields, field.Canonical) →
      data.drop pos = fieldsBytes fields → data.length < fuel + pos →
      0 < fuel → collectLoop fuel (at' data pos) = .ok fields := by
  induction fields with
  | nil =>
      intro fuel pos _ whole _ some
      obtain ⟨fuel, rfl⟩ : ∃ less, fuel = less + 1 := ⟨fuel - 1, by omega⟩
      rw [collectLoop, next_ended (List.drop_eq_nil_iff.mp whole)]
  | cons field fields ih =>
      intro fuel pos canonical whole enough some
      obtain ⟨fuel, rfl⟩ : ∃ less, fuel = less + 1 := ⟨fuel - 1, by omega⟩
      obtain ⟨here, later⟩ := List.forall_mem_cons.mp canonical
      have positive := field.bytes_length_pos
      have total := congrArg List.length whole
      simp only [List.length_drop, fieldsBytes_cons, List.length_append] at total
      rw [collectLoop, next_complete here whole]
      simp only
      rw [ih later (drop_after whole) (by omega) (by omega), Except.ok_bind]

/-- The iteration ends with the fields or with an error. -/
theorem collectLoop_ends {fuel : Nat} :
    ∀ {pos : Nat}, data.length < fuel + pos → 0 < fuel →
      Rust.Safe (collectLoop fuel (at' data pos)) := by
  induction fuel with
  | zero => intro pos _ none; omega
  | succ fuel ih =>
      intro pos enough _
      rw [collectLoop]
      cases yielded : (at' data pos).next with
      | mk result inner =>
          match result with
          | none => exact Rust.safe_ok _
          | some (.error error) => exact Rust.safe_error _
          | some (.ok field) =>
              obtain ⟨_, rest, split, rfl⟩ := next_sound yielded
              have positive := field.bytes_length_pos
              have total := congrArg List.length split
              simp only [List.length_drop, List.length_append] at total
              exact (ih (by omega) (by omega)).bind fun _ _ => Rust.safe_ok _

/-- Serializing canonical fields appends their bytes. -/
theorem foldl_serializeField {fields : List ProtoField} :
    ∀ (buf : Bytes), (∀ field ∈ fields, field.Canonical) →
      fields.foldl serializeField buf = buf ++ fieldsBytes fields := by
  induction fields with
  | nil => intro buf _; exact (List.append_nil buf).symm
  | cons field fields ih =>
      intro buf canonical
      obtain ⟨here, later⟩ := List.forall_mem_cons.mp canonical
      rw [List.foldl_cons, serializeField_eq here, ih _ later, fieldsBytes_cons,
        List.append_assoc]

/-! ## The strict validator -/

/-- The validator at the value of a field. -/
theorem skipCanonicalValue_complete {rest : Bytes} {pos : Nat} {field : ProtoField}
    (groups : List Nat) (canonical : field.Canonical) (inside : pos ≤ data.length)
    (split : data.drop pos = field.value.bytes ++ rest) :
    skipCanonicalValue data (field.fieldNumber * 8 + field.wireType.toNat) pos groups =
      (groupsAfter groups field).map fun after => (pos + field.value.bytes.length, after) := by
  have whole := length_of_split split inside
  unfold skipCanonicalValue
  rw [tagWireType_tag]
  cases canonical with
  | @varint number value valid fits =>
      have read := readCanonicalVarint64_iff.mpr ⟨fits, rfl, rest, split⟩
      simp only [skipCanonicalVarint64_eq, read]
      rfl
  | @fixed32 number value valid small =>
      simp only [FieldValue.bytes, length_toLeBytes] at whole ⊢
      rw [if_neg (by omega)]
      rfl
  | @fixed64 number value valid small =>
      simp only [FieldValue.bytes, length_toLeBytes] at whole ⊢
      rw [if_neg (by omega)]
      rfl
  | @lengthDelimited number bytes valid fits =>
      simp only [FieldValue.bytes, List.append_assoc] at split
      simp only [FieldValue.bytes, List.length_append] at whole ⊢
      have read := readCanonicalVarint32_iff.mpr ⟨fits, rfl, bytes ++ rest, split⟩
      simp only [read]
      rw [if_pos (by omega), Nat.add_assoc]
      rfl
  | startGroup valid =>
      simp only [tagFieldNumber_tag]
      rfl
  | @endGroup number valid =>
      simp only [tagFieldNumber_tag]
      cases groups with
      | nil => rfl
      | cons innermost outer =>
          simp only [groupsAfter]
          split <;> rfl

/-- A pass of the validator over a field. -/
theorem isProtoMessageLoop_field {rest : Bytes} {pos : Nat} {field : ProtoField}
    (fuel : Nat) (groups : List Nat) (canonical : field.Canonical)
    (split : data.drop pos = field.bytes ++ rest) :
    isProtoMessageLoop data (fuel + 1) pos groups =
      match groupsAfter groups field with
      | none => false
      | some after => isProtoMessageLoop data fuel (pos + field.bytes.length) after := by
  have numbered := canonical.number
  have tagged : data.drop pos =
      tagBytes field.fieldNumber field.wireType ++ (field.value.bytes ++ rest) := by
    rw [split, ProtoField.bytes, List.append_assoc]
  have positive := field.bytes_length_pos
  have total := congrArg List.length split
  simp only [List.length_drop, List.length_append] at total
  have more : pos < data.length := by omega
  have read := readCanonicalVarint32_iff.mpr
    ⟨tag_fits numbered field.wireType, rfl, field.value.bytes ++ rest, tagged⟩
  have skips := skipCanonicalValue_complete groups canonical (length_of_split tagged more.le)
    (drop_after tagged)
  rw [isProtoMessageLoop, if_pos more, read]
  simp only
  rw [tagFieldNumber_tag, if_neg (Nat.pos_iff_ne_zero.mp numbered.1)]
  simp only [tagBytes] at skips
  rw [skips]
  cases groupsAfter groups field with
  | none => rfl
  | some after =>
      simp only [Option.map_some, ProtoField.bytes, List.length_append, tagBytes, Nat.add_assoc]

/-- The validator accepts a message whose fields can be collected and whose
groups are balanced, and no other. -/
theorem isProtoMessageLoop_iff {fuel : Nat} :
    ∀ {pos : Nat} {groups : List Nat},
      isProtoMessageLoop data fuel pos groups = true ↔
        ∃ fields, collectLoop fuel (at' data pos) = .ok fields ∧
          openGroups groups fields = some [] := by
  induction fuel with
  | zero =>
      intro pos groups
      constructor
      · intro valid
        cases valid
      · rintro ⟨fields, ran, _⟩
        cases ran
  | succ fuel ih =>
      intro pos groups
      constructor
      · intro valid
        by_cases more : pos < data.length
        · obtain ⟨field, rest, after, canonical, split, opened, later⟩ :=
            isProtoMessageLoop_succ more valid
          obtain ⟨fields, ran, balanced⟩ := ih.mp later
          refine ⟨field :: fields, ?_, ?_⟩
          · rw [collectLoop, next_complete canonical split]
            simp only
            rw [ran, Except.ok_bind]
          · rw [openGroups, opened]
            exact balanced
        · rw [isProtoMessageLoop, if_neg more] at valid
          obtain rfl := List.isEmpty_iff.mp valid
          refine ⟨[], ?_, rfl⟩
          rw [collectLoop, next_ended (by omega)]
      · rintro ⟨fields, ran, balanced⟩
        obtain ⟨canonical, whole⟩ := collectLoop_sound ran
        cases fields with
        | nil =>
            obtain rfl := Option.some.inj balanced
            have ended := List.drop_eq_nil_iff.mp whole
            rw [isProtoMessageLoop, if_neg (by omega)]
            rfl
        | cons field fields =>
            obtain ⟨here, _⟩ := List.forall_mem_cons.mp canonical
            obtain ⟨after, opened, balanced⟩ := Option.bind_eq_some_iff.mp balanced
            rw [isProtoMessageLoop_field fuel groups here whole, opened]
            rw [collectLoop, next_complete here whole] at ran
            obtain ⟨others, ranOn, collected⟩ := Except.bind_eq_ok.mp ran
            obtain ⟨_, rfl⟩ := List.cons.inj (Except.ok.inj collected)
            exact ih.mpr ⟨others, ranOn, balanced⟩

theorem isProtoMessage_iff_balanced (data : Bytes) :
    isProtoMessage data = true ↔
      ∃ fields, (ProtoFieldIter.new data).collect = .ok fields ∧ GroupsBalanced fields :=
  isProtoMessageLoop_iff

/-! ## The permissive validator -/

/-- The permissive validator passes a canonical field. -/
theorem skipParseableValue_canonical {data rest : Bytes} {pos : Nat} {groups after : List Nat}
    {field : ProtoField} (canonical : field.Canonical) (inside : pos ≤ data.length)
    (split : data.drop pos = field.value.bytes ++ rest)
    (opened : groupsAfter groups field = some after) :
    skipParseableValue data (field.fieldNumber * 8 + field.wireType.toNat) pos groups =
      some (pos + field.value.bytes.length, after) := by
  have whole := length_of_split split inside
  unfold skipParseableValue
  rw [tagWireType_tag]
  cases canonical with
  | @varint number value valid fits =>
      obtain rfl : groups = after := Option.some.inj opened
      simp only [FieldValue.bytes] at split ⊢
      rw [split, decodeU64_encodeU64 fits]
  | @fixed32 number value valid small =>
      obtain rfl : groups = after := Option.some.inj opened
      simp only [FieldValue.bytes, length_toLeBytes] at whole ⊢
      rw [if_neg (by omega)]
  | @fixed64 number value valid small =>
      obtain rfl : groups = after := Option.some.inj opened
      simp only [FieldValue.bytes, length_toLeBytes] at whole ⊢
      rw [if_neg (by omega)]
  | @lengthDelimited number bytes valid fits =>
      obtain rfl : groups = after := Option.some.inj opened
      simp only [FieldValue.bytes, List.length_append, List.append_assoc] at split whole ⊢
      have wide : bytes.length ≤ u64Max := by
        unfold u32Max at fits
        unfold u64Max
        omega
      rw [split, encodeU32, decodeU64_encodeU64 wide]
      simp only
      simp only [encodeU32] at whole
      rw [if_neg (by omega), Nat.add_assoc]
  | startGroup valid =>
      obtain rfl := Option.some.inj opened
      simp only [tagFieldNumber_tag]
      rfl
  | @endGroup number valid =>
      simp only [tagFieldNumber_tag]
      cases groups with
      | nil => cases opened
      | cons innermost outer =>
          by_cases matching : innermost = number
          · simp only [groupsAfter, if_pos matching, Option.some.injEq] at opened
            subst opened
            simp only [if_pos matching]
            rfl
          · simp only [groupsAfter, if_neg matching] at opened
            cases opened

theorem isParseableLoop_of_isProtoMessageLoop {data : Bytes} {fuel : Nat} :
    ∀ {pos : Nat} {groups : List Nat}, isProtoMessageLoop data fuel pos groups = true →
      isParseableProtoMessageLoop data fuel pos groups = true := by
  induction fuel with
  | zero => intro pos groups valid; cases valid
  | succ fuel ih =>
      intro pos groups valid
      by_cases more : pos < data.length
      · obtain ⟨field, rest, after, canonical, split, opened, later⟩ :=
          isProtoMessageLoop_succ more valid
        have numbered := canonical.number
        have fits := tag_fits numbered field.wireType
        have tagged : data.drop pos =
            encodeU64 (field.fieldNumber * 8 + field.wireType.toNat) ++
              (field.value.bytes ++ rest) := by
          rw [split, ProtoField.bytes, List.append_assoc]
          rfl
        have skips := skipParseableValue_canonical canonical
          (length_of_split tagged more.le) (drop_after tagged) opened
        rw [isParseableProtoMessageLoop, if_pos more, tagged,
          decodeU64_encodeU64 (by unfold u32Max at fits; unfold u64Max; omega)]
        simp only
        rw [if_neg (by omega), tagFieldNumber_tag, if_neg (Nat.pos_iff_ne_zero.mp numbered.1),
          skips]
        simp only [ProtoField.bytes, List.length_append, tagBytes, encodeU32] at later
        rw [Nat.add_assoc]
        exact ih later
      · rw [isProtoMessageLoop, if_neg more] at valid
        rw [isParseableProtoMessageLoop, if_neg more]
        exact valid

/-- A canonical message is a message to permissive parsers. -/
theorem isParseable_of_isProtoMessage {data : Bytes} (valid : isProtoMessage data = true) :
    isParseableProtoMessage data = true :=
  isParseableLoop_of_isProtoMessageLoop valid

/-! ## The agreement -/

/-- Field iteration ends, loses nothing of a message it goes through, and agrees
with both validators. -/
theorem fieldIteration_lossless (data : Bytes) :
    Rust.Safe (ProtoFieldIter.new data).collect ∧
    (∀ fields, (ProtoFieldIter.new data).collect = .ok fields →
      fields.foldl serializeField [] = data) ∧
    (isProtoMessage data = true ↔
      ∃ fields, (ProtoFieldIter.new data).collect = .ok fields ∧ GroupsBalanced fields) ∧
    (isProtoMessage data = true → isParseableProtoMessage data = true) := by
  refine ⟨collectLoop_ends (Nat.lt_succ_self _) (Nat.succ_pos _), ?_,
    isProtoMessage_iff_balanced data, isParseable_of_isProtoMessage⟩
  intro fields ran
  obtain ⟨canonical, whole⟩ := collectLoop_sound ran
  rw [foldl_serializeField [] canonical, List.nil_append, ← whole, List.drop_zero]

end Riegeli
