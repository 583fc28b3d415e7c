/-
Module: Riegeli.Proofs.FieldCopies
Purpose: The field iterator reads a message field by field, the validator
  follows it, and copying keeps exactly the wanted top-level fields.
Trusted boundary: none
Main exports: ProtoField.Canonical, ProtoFieldIter.next_sound,
  ProtoFieldIter.next_complete, isProtoMessageLoop_next,
  isProtoMessage_splits, copyFields_keeps
-/
import Riegeli.Core.FieldIteration
import Riegeli.Proofs.CanonicalVarints
import Riegeli.Spec.WireFields

namespace Riegeli

/-! ## Tags -/

theorem makeTag_eq {number : Nat} (valid : FieldNumber number) (wireType : WireType) :
    makeTag number wireType = number * 8 + wireType.toNat := by
  obtain ⟨_, small⟩ := valid
  unfold makeTag
  rw [Nat.mod_eq_of_lt (by omega)]

theorem encodeTag_eq {number : Nat} (valid : FieldNumber number) (wireType : WireType)
    (buf : Bytes) : encodeTag buf number wireType = buf ++ tagBytes number wireType := by
  unfold encodeTag encodeVarint32 tagBytes
  rw [makeTag_eq valid]

theorem tag_fits {number : Nat} (valid : FieldNumber number) (wireType : WireType) :
    number * 8 + wireType.toNat ≤ u32Max := by
  obtain ⟨_, small⟩ := valid
  unfold u32Max
  cases wireType <;> simp only [WireType.toNat] <;> omega

theorem tagFieldNumber_tag (number : Nat) (wireType : WireType) :
    tagFieldNumber (number * 8 + wireType.toNat) = number := by
  unfold tagFieldNumber
  cases wireType <;> simp only [WireType.toNat] <;> omega

theorem tagWireType_tag (number : Nat) (wireType : WireType) :
    tagWireType (number * 8 + wireType.toNat) = some wireType := by
  have low : (number * 8 + wireType.toNat) % 8 = wireType.toNat := by
    cases wireType <;> simp only [WireType.toNat] <;> omega
  unfold tagWireType
  rw [low]
  cases wireType <;> rfl

/-- A tag is its number and its wire type. -/
theorem tag_eq {tag : Nat} {wireType : WireType} (typed : tagWireType tag = some wireType) :
    tag = tagFieldNumber tag * 8 + wireType.toNat := by
  have low : tag % 8 = wireType.toNat := by
    unfold tagWireType at typed
    have small : tag % 8 < 8 := Nat.mod_lt _ (by omega)
    generalize tag % 8 = raw at typed small
    unfold WireType.fromRaw at typed
    split at typed <;> cases typed <;> rfl
  unfold tagFieldNumber
  omega

/-! ## Fields -/

/-- A field that the iterator can yield. -/
inductive ProtoField.Canonical : ProtoField → Prop where
  | varint {number value : Nat} : FieldNumber number → value ≤ u64Max →
      Canonical ⟨number, .varint, .varint value⟩
  | fixed32 {number value : Nat} : FieldNumber number → value < 2 ^ 32 →
      Canonical ⟨number, .fixed32, .fixed32 value⟩
  | fixed64 {number value : Nat} : FieldNumber number → value < 2 ^ 64 →
      Canonical ⟨number, .fixed64, .fixed64 value⟩
  | lengthDelimited {number : Nat} {bytes : Bytes} : FieldNumber number →
      bytes.length ≤ u32Max → Canonical ⟨number, .lengthDelimited, .lengthDelimited bytes⟩
  | startGroup {number : Nat} : FieldNumber number →
      Canonical ⟨number, .startGroup, .startGroup⟩
  | endGroup {number : Nat} : FieldNumber number → Canonical ⟨number, .endGroup, .endGroup⟩

/-- The bytes of a value. -/
def FieldValue.bytes : FieldValue → Bytes
  | .varint value => encodeU64 value
  | .fixed32 value => toLeBytes 4 value
  | .fixed64 value => toLeBytes 8 value
  | .lengthDelimited bytes => encodeU32 bytes.length ++ bytes
  | .startGroup => []
  | .endGroup => []

/-- The bytes of a field. -/
def ProtoField.bytes (field : ProtoField) : Bytes :=
  tagBytes field.fieldNumber field.wireType ++ field.value.bytes

theorem ProtoField.Canonical.number {field : ProtoField} (canonical : field.Canonical) :
    FieldNumber field.fieldNumber := by
  cases canonical <;> assumption

/-- Serializing appends the bytes of the field. -/
theorem serializeField_eq {field : ProtoField} (canonical : field.Canonical) (buf : Bytes) :
    serializeField buf field = buf ++ field.bytes := by
  have tagged := encodeTag_eq canonical.number field.wireType buf
  unfold serializeField ProtoField.bytes
  rw [tagged]
  cases canonical with
  | lengthDelimited valid fits =>
      simp only [FieldValue.bytes, encodeVarint32]
      rw [Nat.mod_eq_of_lt (by unfold u32Max at fits; omega)]
      simp only [List.append_assoc]
  | varint => simp only [FieldValue.bytes, encodeVarint64, List.append_assoc]
  | fixed32 => simp only [FieldValue.bytes, List.append_assoc]
  | fixed64 => simp only [FieldValue.bytes, List.append_assoc]
  | startGroup => simp only [FieldValue.bytes, List.append_nil]
  | endGroup => simp only [FieldValue.bytes, List.append_nil]

/-- Where a prefix of what is left has been read. -/
theorem drop_after {data part rest : Bytes} {pos : Nat} (split : data.drop pos = part ++ rest) :
    data.drop (pos + part.length) = rest := by
  rw [← List.drop_drop, split, List.drop_left]

theorem length_of_split {data part rest : Bytes} {pos : Nat}
    (split : data.drop pos = part ++ rest) (inside : pos ≤ data.length) :
    pos + part.length ≤ data.length := by
  have total := congrArg List.length split
  simp only [List.length_drop, List.length_append] at total
  omega

/-- A little-endian number of this width stands here. -/
theorem littleEndian_split {data : Bytes} {pos width : Nat} (inside : ¬ data.length < pos + width) :
    fromLeBytes ((data.drop pos).take width) < 256 ^ width ∧
      ∃ rest, data.drop pos =
        toLeBytes width (fromLeBytes ((data.drop pos).take width)) ++ rest := by
  have length : ((data.drop pos).take width).length = width := by
    simp only [List.length_take, List.length_drop]
    omega
  have written := toLeBytes_fromLeBytes ((data.drop pos).take width)
  have bounded := fromLeBytes_lt ((data.drop pos).take width)
  rw [length] at written bounded
  refine ⟨bounded, (data.drop pos).drop width, ?_⟩
  rw [written, List.take_append_drop]

namespace ProtoFieldIter

/-- The iterator over this message at this position. -/
def at' (data : Bytes) (pos : Nat) : ProtoFieldIter := { data := data, pos := pos, errored := false }

/-- A field that the iterator yields stands at its position. -/
theorem nextValue_sound {data : Bytes} {pos number : Nat} {wireType : WireType}
    {field : ProtoField} {after : ProtoFieldIter} (valid : FieldNumber number)
    (yields : (at' data pos).nextValue number wireType = (some (.ok field), after)) :
    field.Canonical ∧ field.fieldNumber = number ∧ field.wireType = wireType ∧
      ∃ rest, data.drop pos = field.value.bytes ++ rest ∧
        after = at' data (pos + field.value.bytes.length) := by
  cases wireType with
  | varint =>
      simp only [nextValue, at'] at yields
      cases read : readCanonicalVarint64 data pos with
      | none => rw [read] at yields; cases yields
      | some varint =>
          obtain ⟨value, consumed⟩ := varint
          obtain ⟨fits, rfl, rest, split⟩ := readCanonicalVarint64_iff.mp read
          rw [read] at yields
          cases yields
          exact ⟨.varint valid fits, rfl, rfl, rest, split, rfl⟩
  | fixed32 =>
      change (if data.length < pos + 4 then _ else _) = _ at yields
      by_cases short : data.length < pos + 4
      · rw [if_pos short] at yields
        cases yields
      · rw [if_neg short] at yields
        cases yields
        obtain ⟨bounded, rest, split⟩ := littleEndian_split short
        refine ⟨.fixed32 valid bounded, rfl, rfl, rest, split, ?_⟩
        simp only [FieldValue.bytes, length_toLeBytes, at']
  | fixed64 =>
      change (if data.length < pos + 8 then _ else _) = _ at yields
      by_cases short : data.length < pos + 8
      · rw [if_pos short] at yields
        cases yields
      · rw [if_neg short] at yields
        cases yields
        obtain ⟨bounded, rest, split⟩ := littleEndian_split short
        refine ⟨.fixed64 valid bounded, rfl, rfl, rest, split, ?_⟩
        simp only [FieldValue.bytes, length_toLeBytes, at']
  | lengthDelimited =>
      simp only [nextValue, at'] at yields
      cases read : readCanonicalVarint32 data pos with
      | none => rw [read] at yields; cases yields
      | some varint =>
          obtain ⟨length, consumed⟩ := varint
          obtain ⟨fits, rfl, rest, split⟩ := readCanonicalVarint32_iff.mp read
          rw [read] at yields
          change (if pos + (encodeU32 length).length + length ≤ data.length then _ else _) = _
            at yields
          by_cases inside : pos + (encodeU32 length).length + length ≤ data.length
          · rw [if_pos inside] at yields
            cases yields
            have there := drop_after split
            have taken : (rest.take length).length = length := by
              have total := congrArg List.length there
              simp only [List.length_drop] at total
              simp only [List.length_take]
              omega
            rw [there]
            refine ⟨.lengthDelimited valid (by rw [taken]; exact fits), rfl, rfl,
              rest.drop length, ?_, ?_⟩
            · simp only [FieldValue.bytes]
              rw [taken, split, List.append_assoc, List.take_append_drop]
            · simp only [FieldValue.bytes, List.length_append, taken, at']
              congr 1
              omega
          · rw [if_neg inside] at yields
            cases yields
  | startGroup =>
      cases yields
      exact ⟨.startGroup valid, rfl, rfl, data.drop pos, rfl, rfl⟩
  | endGroup =>
      cases yields
      exact ⟨.endGroup valid, rfl, rfl, data.drop pos, rfl, rfl⟩

/-- The iterator yields the field whose value stands at its position. -/
theorem nextValue_complete {data rest : Bytes} {pos : Nat} {field : ProtoField}
    (canonical : field.Canonical) (inside : pos ≤ data.length)
    (split : data.drop pos = field.value.bytes ++ rest) :
    (at' data pos).nextValue field.fieldNumber field.wireType =
      (some (.ok field), at' data (pos + field.value.bytes.length)) := by
  have whole := length_of_split split inside
  cases canonical with
  | @varint number value valid fits =>
      have read := readCanonicalVarint64_iff.mpr ⟨fits, rfl, rest, split⟩
      simp only [nextValue, at']
      rw [read]
      rfl
  | @fixed32 number value valid small =>
      simp only [FieldValue.bytes, length_toLeBytes] at split whole
      have short : ¬ data.length < pos + 4 := by omega
      change (if data.length < pos + 4 then _ else _) = _
      rw [if_neg short]
      simp only [at', split, yielded, List.take_left' (length_toLeBytes 4 value),
        fromLeBytes_toLeBytes, FieldValue.bytes, length_toLeBytes]
      rw [Nat.mod_eq_of_lt (by omega)]
  | @fixed64 number value valid small =>
      simp only [FieldValue.bytes, length_toLeBytes] at split whole
      have short : ¬ data.length < pos + 8 := by omega
      change (if data.length < pos + 8 then _ else _) = _
      rw [if_neg short]
      simp only [at', split, yielded, List.take_left' (length_toLeBytes 8 value),
        fromLeBytes_toLeBytes, FieldValue.bytes, length_toLeBytes]
      rw [Nat.mod_eq_of_lt (by omega)]
  | @lengthDelimited number bytes valid fits =>
      simp only [FieldValue.bytes, List.append_assoc] at split
      simp only [FieldValue.bytes, List.length_append] at whole
      have read := readCanonicalVarint32_iff.mpr ⟨fits, rfl, bytes ++ rest, split⟩
      have there := drop_after split
      simp only [nextValue, at']
      rw [read]
      change (if pos + (encodeU32 bytes.length).length + bytes.length ≤ data.length then _
        else _) = _
      rw [if_pos (by omega)]
      simp only [there, yielded, List.take_left, FieldValue.bytes, List.length_append,
        Nat.add_assoc]
  | startGroup valid => rfl
  | endGroup valid => rfl

theorem next_at (data : Bytes) {pos : Nat} (more : pos < data.length) :
    (at' data pos).next =
      match readCanonicalVarint32 data pos with
      | none => (at' data pos).failed ("invalid or truncated tag at offset " ++ toString pos)
      | some (tag, tagLen) =>
          if tagFieldNumber tag = 0 then
            (at' data pos).failed ("field number 0 at offset " ++ toString pos)
          else
            match tagWireType tag with
            | none =>
                (at' data pos).failed
                  ("invalid wire type " ++ toString (tag % 8) ++ " at offset " ++ toString pos)
            | some wireType => (at' data (pos + tagLen)).nextValue (tagFieldNumber tag) wireType := by
  have going : ¬ ((at' data pos).errored = true ∨ (at' data pos).data.length ≤ (at' data pos).pos) := by
    simp only [at', Bool.false_eq_true, false_or]
    omega
  unfold next
  rw [if_neg going]
  rfl

/-- A field that the iterator yields stands at its position. -/
theorem next_sound {data : Bytes} {pos : Nat} {field : ProtoField} {after : ProtoFieldIter}
    (yields : (at' data pos).next = (some (.ok field), after)) :
    field.Canonical ∧ ∃ rest, data.drop pos = field.bytes ++ rest ∧
      after = at' data (pos + field.bytes.length) := by
  have more : pos < data.length := by
    by_contra ended
    have stops : (at' data pos).errored = true ∨ (at' data pos).data.length ≤ (at' data pos).pos :=
      Or.inr (by simp only [at']; omega)
    unfold next at yields
    rw [if_pos stops] at yields
    cases yields
  rw [next_at data more] at yields
  cases read : readCanonicalVarint32 data pos with
  | none => rw [read] at yields; cases yields
  | some varint =>
      obtain ⟨tag, tagLen⟩ := varint
      obtain ⟨fits, rfl, rest, split⟩ := readCanonicalVarint32_iff.mp read
      rw [read] at yields
      simp only at yields
      by_cases zero : tagFieldNumber tag = 0
      · rw [if_pos zero] at yields
        cases yields
      rw [if_neg zero] at yields
      cases typed : tagWireType tag with
      | none => rw [typed] at yields; cases yields
      | some wireType =>
          rw [typed] at yields
          simp only at yields
          have valid : FieldNumber (tagFieldNumber tag) := by
            refine ⟨Nat.pos_of_ne_zero zero, ?_⟩
            unfold u32Max at fits
            unfold tagFieldNumber
            omega
          obtain ⟨canonical, numbered, rfl, left, value, rfl⟩ := nextValue_sound valid yields
          have tagged : tagBytes field.fieldNumber field.wireType = encodeU32 tag := by
            unfold tagBytes
            rw [numbered, ← tag_eq typed]
          rw [drop_after split] at value
          refine ⟨canonical, left, ?_, ?_⟩
          · rw [split, value, ProtoField.bytes, tagged, List.append_assoc]
          · rw [ProtoField.bytes, tagged, List.length_append, Nat.add_assoc]

/-- The iterator yields the field that stands at its position. -/
theorem next_complete {data rest : Bytes} {pos : Nat} {field : ProtoField}
    (canonical : field.Canonical) (split : data.drop pos = field.bytes ++ rest) :
    (at' data pos).next = (some (.ok field), at' data (pos + field.bytes.length)) := by
  have valid := canonical.number
  have tagged : data.drop pos =
      tagBytes field.fieldNumber field.wireType ++ (field.value.bytes ++ rest) := by
    rw [split, ProtoField.bytes, List.append_assoc]
  have more : pos < data.length := by
    have total := congrArg List.length tagged
    have positive := encodeU64_length_pos (field.fieldNumber * 8 + field.wireType.toNat)
    simp only [List.length_drop, List.length_append, tagBytes, encodeU32] at total
    omega
  have read := readCanonicalVarint32_iff.mpr
    ⟨tag_fits valid field.wireType, rfl, field.value.bytes ++ rest, tagged⟩
  have nonzero : ¬ tagFieldNumber (field.fieldNumber * 8 + field.wireType.toNat) = 0 := by
    rw [tagFieldNumber_tag]
    exact Nat.pos_iff_ne_zero.mp valid.1
  have value := nextValue_complete canonical (length_of_split tagged more.le) (drop_after tagged)
  rw [next_at data more, read]
  simp only
  rw [if_neg nonzero, tagWireType_tag, tagFieldNumber_tag]
  simp only [tagBytes] at value ⊢
  rw [value, ProtoField.bytes, List.length_append, tagBytes, Nat.add_assoc]

end ProtoFieldIter

theorem ProtoField.bytes_length_pos (field : ProtoField) : 0 < field.bytes.length := by
  have positive := encodeU64_length_pos (field.fieldNumber * 8 + field.wireType.toNat)
  simp only [ProtoField.bytes, List.length_append, tagBytes, encodeU32]
  omega

/-! ## The validator -/

/-- The groups that are open after a field, unless it ends another group. -/
def groupsAfter (groups : List Nat) (field : ProtoField) : Option (List Nat) :=
  match field.wireType with
  | .startGroup => some (field.fieldNumber :: groups)
  | .endGroup =>
      match groups with
      | [] => none
      | innermost :: outer => if innermost = field.fieldNumber then some outer else none
  | _ => some groups

/-- Where the validator and the iterator stand after a value. -/
theorem skipCanonicalValue_sound {data : Bytes} {tag pos next : Nat} {groups after : List Nat}
    (skipped : skipCanonicalValue data tag pos groups = some (next, after)) :
    ∃ field wireType, tagWireType tag = some wireType ∧
      (ProtoFieldIter.at' data pos).nextValue (tagFieldNumber tag) wireType =
        (some (.ok field), ProtoFieldIter.at' data next) ∧
      groupsAfter groups field = some after := by
  unfold skipCanonicalValue at skipped
  cases typed : tagWireType tag with
  | none => rw [typed] at skipped; cases skipped
  | some wireType =>
      rw [typed] at skipped
      cases wireType with
      | varint =>
          simp only [skipCanonicalVarint64_eq] at skipped
          cases read : readCanonicalVarint64 data pos with
          | none => rw [read] at skipped; cases skipped
          | some varint =>
              obtain ⟨value, consumed⟩ := varint
              rw [read] at skipped
              cases skipped
              refine ⟨⟨tagFieldNumber tag, .varint, .varint value⟩, .varint, rfl, ?_, rfl⟩
              simp only [ProtoFieldIter.nextValue, ProtoFieldIter.at']
              rw [read]
              rfl
      | fixed32 =>
          by_cases short : data.length < pos + 4
          · simp only [if_pos short] at skipped
            cases skipped
          · simp only [if_neg short] at skipped
            cases skipped
            refine ⟨⟨tagFieldNumber tag, .fixed32,
              .fixed32 (fromLeBytes ((data.drop pos).take 4))⟩, .fixed32, rfl, ?_, rfl⟩
            change (if data.length < pos + 4 then _ else _) = _
            rw [if_neg short]
            rfl
      | fixed64 =>
          by_cases short : data.length < pos + 8
          · simp only [if_pos short] at skipped
            cases skipped
          · simp only [if_neg short] at skipped
            cases skipped
            refine ⟨⟨tagFieldNumber tag, .fixed64,
              .fixed64 (fromLeBytes ((data.drop pos).take 8))⟩, .fixed64, rfl, ?_, rfl⟩
            change (if data.length < pos + 8 then _ else _) = _
            rw [if_neg short]
            rfl
      | lengthDelimited =>
          cases read : readCanonicalVarint32 data pos with
          | none => simp only [read] at skipped; cases skipped
          | some varint =>
              obtain ⟨length, consumed⟩ := varint
              by_cases inside : pos + consumed + length ≤ data.length
              · simp only [read, if_pos inside] at skipped
                cases skipped
                refine ⟨⟨tagFieldNumber tag, .lengthDelimited,
                  .lengthDelimited ((data.drop (pos + consumed)).take length)⟩,
                  .lengthDelimited, rfl, ?_, rfl⟩
                simp only [ProtoFieldIter.nextValue, ProtoFieldIter.at']
                rw [read]
                change (if pos + consumed + length ≤ data.length then _ else _) = _
                rw [if_pos inside]
                rfl
              · simp only [read, if_neg inside] at skipped
                cases skipped
      | startGroup =>
          cases skipped
          exact ⟨⟨tagFieldNumber tag, .startGroup, .startGroup⟩, .startGroup, rfl, rfl, rfl⟩
      | endGroup =>
          cases groups with
          | nil => cases skipped
          | cons innermost outer =>
              by_cases matching : innermost = tagFieldNumber tag
              · simp only [if_pos matching] at skipped
                cases skipped
                refine ⟨⟨tagFieldNumber tag, .endGroup, .endGroup⟩, .endGroup, rfl, rfl, ?_⟩
                simp only [groupsAfter, if_pos matching]
              · simp only [if_neg matching] at skipped
                cases skipped

/-- A pass of the validator reads the field that the iterator yields. -/
theorem isProtoMessageLoop_succ {data : Bytes} {fuel pos : Nat} {groups : List Nat}
    (more : pos < data.length) (valid : isProtoMessageLoop data (fuel + 1) pos groups = true) :
    ∃ field rest after, field.Canonical ∧ data.drop pos = field.bytes ++ rest ∧
      groupsAfter groups field = some after ∧
      isProtoMessageLoop data fuel (pos + field.bytes.length) after = true := by
  rw [isProtoMessageLoop, if_pos more] at valid
  cases read : readCanonicalVarint32 data pos with
  | none => rw [read] at valid; cases valid
  | some varint =>
      obtain ⟨tag, tagLen⟩ := varint
      rw [read] at valid
      simp only at valid
      by_cases zero : tagFieldNumber tag = 0
      · rw [if_pos zero] at valid
        cases valid
      rw [if_neg zero] at valid
      cases skipped : skipCanonicalValue data tag (pos + tagLen) groups with
      | none => rw [skipped] at valid; cases valid
      | some reached =>
          obtain ⟨next, after⟩ := reached
          rw [skipped] at valid
          obtain ⟨field, wireType, typed, yields, opened⟩ := skipCanonicalValue_sound skipped
          have whole : (ProtoFieldIter.at' data pos).next =
              (some (.ok field), ProtoFieldIter.at' data next) := by
            rw [ProtoFieldIter.next_at data more, read]
            simp only
            rw [if_neg zero, typed]
            exact yields
          obtain ⟨canonical, rest, split, reached⟩ := ProtoFieldIter.next_sound whole
          have stands : next = pos + field.bytes.length := congrArg ProtoFieldIter.pos reached
          exact ⟨field, rest, after, canonical, split, opened, by rw [← stands]; exact valid⟩

/-! ## From fields to top-level fields -/

/-- The bytes end the open groups one after the other, with whole fields before
each end tag and at the top level. -/
def Unwinds : List Nat → Bytes → Prop
  | [], bytes => ∃ fields, SplitsInto bytes fields
  | innermost :: outer, bytes =>
      ∃ fields rest, TopFields fields ∧ Unwinds outer rest ∧
        bytes = joined fields ++ (tagBytes innermost .endGroup ++ rest)

/-- A whole field may stand in front. -/
theorem Unwinds.cons {groups : List Nat} {bytes : Bytes} {field : Nat × Bytes}
    (whole : ∀ fields, TopFields fields → TopFields (field :: fields))
    (unwinds : Unwinds groups bytes) : Unwinds groups (field.2 ++ bytes) := by
  cases groups with
  | nil =>
      obtain ⟨fields, top, rfl⟩ := unwinds
      exact ⟨field :: fields, whole fields top, rfl⟩
  | cons innermost outer =>
      obtain ⟨fields, rest, top, after, rfl⟩ := unwinds
      refine ⟨field :: fields, rest, whole fields top, after, ?_⟩
      rw [joined_cons, List.append_assoc]

/-- What a field does to the open groups, taken back. -/
theorem Unwinds.field {groups after : List Nat} {rest : Bytes} {field : ProtoField}
    (canonical : field.Canonical) (opened : groupsAfter groups field = some after)
    (unwinds : Unwinds after rest) : Unwinds groups (field.bytes ++ rest) := by
  cases canonical with
  | @varint number value valid fits =>
      obtain rfl : groups = after := Option.some.inj opened
      exact @Unwinds.cons _ _ (number, tagBytes number .varint ++ encodeU64 value)
        (fun _ top => .varint valid fits top) unwinds
  | @fixed32 number value valid _ =>
      obtain rfl : groups = after := Option.some.inj opened
      exact @Unwinds.cons _ _ (number, tagBytes number .fixed32 ++ toLeBytes 4 value)
        (fun _ top => .fixed32 valid (length_toLeBytes 4 value) top) unwinds
  | @fixed64 number value valid _ =>
      obtain rfl : groups = after := Option.some.inj opened
      exact @Unwinds.cons _ _ (number, tagBytes number .fixed64 ++ toLeBytes 8 value)
        (fun _ top => .fixed64 valid (length_toLeBytes 8 value) top) unwinds
  | @lengthDelimited number bytes valid fits =>
      obtain rfl : groups = after := Option.some.inj opened
      exact @Unwinds.cons _ _
        (number, tagBytes number .lengthDelimited ++ (encodeU32 bytes.length ++ bytes))
        (fun _ top => .lengthDelimited valid fits top) unwinds
  | @startGroup number valid =>
      obtain rfl : number :: groups = after := Option.some.inj opened
      obtain ⟨contents, beyond, top, outer, rfl⟩ := unwinds
      have whole := @Unwinds.cons _ _
        (number, tagBytes number .startGroup ++ (joined contents ++ tagBytes number .endGroup))
        (fun _ fields => .group valid top fields) outer
      simpa only [ProtoField.bytes, FieldValue.bytes, List.append_nil, List.append_assoc]
        using whole
  | @endGroup number valid =>
      cases groups with
      | nil => cases opened
      | cons innermost outer =>
          by_cases matching : innermost = number
          · simp only [groupsAfter, if_pos matching, Option.some.injEq] at opened
            subst opened matching
            exact ⟨[], rest, .nil, unwinds, by
              simp only [ProtoField.bytes, FieldValue.bytes, List.append_nil, joined_nil,
                List.nil_append]⟩
          · simp only [groupsAfter, if_neg matching] at opened
            cases opened

/-- What the validator accepts from some position on. -/
theorem isProtoMessageLoop_unwinds {data : Bytes} {fuel : Nat} :
    ∀ {pos : Nat} {groups : List Nat},
      isProtoMessageLoop data fuel pos groups = true → Unwinds groups (data.drop pos) := by
  induction fuel with
  | zero => intro pos groups valid; cases valid
  | succ fuel ih =>
      intro pos groups valid
      by_cases more : pos < data.length
      · obtain ⟨field, rest, after, canonical, split, opened, later⟩ :=
          isProtoMessageLoop_succ more valid
        have unwinds := ih later
        rw [drop_after split] at unwinds
        rw [split]
        exact unwinds.field canonical opened
      · rw [isProtoMessageLoop, if_neg more] at valid
        obtain rfl := List.isEmpty_iff.mp valid
        rw [List.drop_eq_nil_of_le (by omega)]
        exact ⟨[], .nil, rfl⟩

/-- A message that the validator accepts splits into top-level fields. -/
theorem isProtoMessage_splits {data : Bytes} (valid : isProtoMessage data = true) :
    ∃ fields, SplitsInto data fields :=
  isProtoMessageLoop_unwinds valid

end Riegeli
