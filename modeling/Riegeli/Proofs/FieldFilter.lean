/-
Module: Riegeli.Proofs.FieldFilter
Purpose: Copying a message keeps exactly its wanted top-level fields.
Trusted boundary: none
Main exports: FilteredFieldIter.nextLoop_fuel, Copies, copyFields_keeps,
  isParseable_of_isProtoMessage
-/
import Riegeli.Proofs.FieldCopies

namespace Riegeli

open ProtoFieldIter

variable {data : Bytes} {allowed : List Nat}

/-- The filter over this message, before this position and inside so many
groups. -/
def filterAt (data : Bytes) (allowed : List Nat) (pos depth : Nat) (keeping : Bool) :
    FilteredFieldIter :=
  { inner := at' data pos, allowed := allowed, groupDepth := depth, keepingGroup := keeping
    errored := false }

theorem filterAt_next (pos depth : Nat) (keeping : Bool) :
    (filterAt data allowed pos depth keeping).next =
      FilteredFieldIter.nextLoop (data.length + 1) (filterAt data allowed pos depth keeping) := rfl

/-- A pass of the filter over a field. -/
theorem nextLoop_succ {field : ProtoField} {pos next : Nat} (fuel depth : Nat) (keeping : Bool)
    (yields : (at' data pos).next = (some (.ok field), at' data next)) :
    FilteredFieldIter.nextLoop (fuel + 1) (filterAt data allowed pos depth keeping) =
      if 0 < depth then
        if keeping then
          .ok (some (.ok field),
            filterAt data allowed next (FilteredFieldIter.depthAfter depth field.wireType) keeping)
        else
          FilteredFieldIter.nextLoop fuel
            (filterAt data allowed next (FilteredFieldIter.depthAfter depth field.wireType) keeping)
      else if field.wireType = .startGroup then
        if allowed.contains field.fieldNumber then
          .ok (some (.ok field),
            filterAt data allowed next 1 (allowed.contains field.fieldNumber))
        else
          FilteredFieldIter.nextLoop fuel
            (filterAt data allowed next 1 (allowed.contains field.fieldNumber))
      else if field.wireType = .endGroup then
        .ok (some (.error (.malformedData ("end-group tag for field " ++
            toString field.fieldNumber ++ " without matching start-group"))),
          { filterAt data allowed next depth keeping with errored := true })
      else if allowed.contains field.fieldNumber then
        .ok (some (.ok field), filterAt data allowed next depth keeping)
      else FilteredFieldIter.nextLoop fuel (filterAt data allowed next depth keeping) := by
  rw [FilteredFieldIter.nextLoop]
  simp only [filterAt]
  rw [yields]
  rfl

/-- With enough passes the filter yields the same, however many it has. -/
theorem nextLoop_fuel : ∀ {fuel fuel' pos depth : Nat} {keeping : Bool},
    0 < fuel → data.length < fuel + pos → 0 < fuel' → data.length < fuel' + pos →
    FilteredFieldIter.nextLoop fuel (filterAt data allowed pos depth keeping) =
      FilteredFieldIter.nextLoop fuel' (filterAt data allowed pos depth keeping) := by
  intro fuel
  induction fuel with
  | zero => intro fuel' pos depth keeping none; omega
  | succ fuel ih =>
      intro fuel' pos depth keeping _ enough more enough'
      obtain ⟨fuel', rfl⟩ : ∃ less, fuel' = less + 1 := ⟨fuel' - 1, by omega⟩
      cases yielded : (at' data pos).next with
      | mk result inner =>
          match result with
          | none =>
              rw [FilteredFieldIter.nextLoop, FilteredFieldIter.nextLoop]
              simp only [filterAt, yielded]
          | some (.error error) =>
              rw [FilteredFieldIter.nextLoop, FilteredFieldIter.nextLoop]
              simp only [filterAt, yielded]
          | some (.ok field) =>
              obtain ⟨_, rest, split, rfl⟩ := next_sound yielded
              have positive := field.bytes_length_pos
              have total := congrArg List.length split
              simp only [List.length_drop, List.length_append] at total
              have later : ∀ depth keeping,
                  FilteredFieldIter.nextLoop fuel
                      (filterAt data allowed (pos + field.bytes.length) depth keeping) =
                    FilteredFieldIter.nextLoop fuel'
                      (filterAt data allowed (pos + field.bytes.length) depth keeping) :=
                fun depth keeping => ih (by omega) (by omega) (by omega) (by omega)
              rw [nextLoop_succ fuel depth keeping yielded,
                nextLoop_succ fuel' depth keeping yielded]
              simp only [later]

/-- From here the copy succeeds and appends these bytes. -/
def Copies (data : Bytes) (allowed : List Nat) (pos depth : Nat) (keeping : Bool) (out : Bytes) :
    Prop :=
  ∀ fuel buf scopes, data.length < fuel + pos →
    copyFieldsLoop fuel (filterAt data allowed pos depth keeping)
        { buf := buf, scopeStack := scopes } =
      (.ok (), { buf := buf ++ out, scopeStack := scopes })

/-- The copy ends with the message. -/
theorem Copies.done (keeping : Bool) (depth : Nat) :
    Copies data allowed data.length depth keeping [] := by
  intro fuel buf scopes enough
  obtain ⟨fuel, rfl⟩ : ∃ less, fuel = less + 1 := ⟨fuel - 1, by omega⟩
  have stops : (at' data data.length).next = (none, at' data data.length) :=
    if_pos (Or.inr (Nat.le_refl _))
  have ended : (filterAt data allowed data.length depth keeping).next =
      .ok (none, filterAt data allowed data.length depth keeping) := by
    rw [filterAt_next, FilteredFieldIter.nextLoop]
    simp only [filterAt, stops]
  rw [copyFieldsLoop]
  simp only [Act.bind_run, Act.lift_run, ended, Act.pure_run, List.append_nil]

/-- The copy past a field that the filter keeps or passes over. -/
theorem copyFieldsLoop_step {field : ProtoField} {pos depth depth' : Nat}
    {keeping keeping' kept : Bool} {rest : Bytes} (split : data.drop pos = field.bytes ++ rest)
    (passes : ∀ fuel,
      FilteredFieldIter.nextLoop (fuel + 1) (filterAt data allowed pos depth keeping) =
        if kept then
          .ok (some (.ok field),
            filterAt data allowed (pos + field.bytes.length) depth' keeping')
        else
          FilteredFieldIter.nextLoop fuel
            (filterAt data allowed (pos + field.bytes.length) depth' keeping'))
    (fuel : Nat) (writer : SerializedMessageWriter) :
    copyFieldsLoop (fuel + 1) (filterAt data allowed pos depth keeping) writer =
      if kept then
        copyFieldsLoop fuel (filterAt data allowed (pos + field.bytes.length) depth' keeping')
          { writer with buf := serializeField writer.buf field }
      else
        copyFieldsLoop (fuel + 1)
          (filterAt data allowed (pos + field.bytes.length) depth' keeping') writer := by
  have positive := field.bytes_length_pos
  have total := congrArg List.length split
  simp only [List.length_drop, List.length_append] at total
  have next : (filterAt data allowed pos depth keeping).next =
      if kept then
        .ok (some (.ok field), filterAt data allowed (pos + field.bytes.length) depth' keeping')
      else (filterAt data allowed (pos + field.bytes.length) depth' keeping').next := by
    have again := @nextLoop_fuel data allowed data.length (data.length + 1)
      (pos + field.bytes.length) depth' keeping' (by omega) (by omega) (by omega) (by omega)
    rw [filterAt_next, filterAt_next, passes data.length, again]
  cases kept with
  | true =>
      rw [if_pos rfl] at next ⊢
      rw [copyFieldsLoop]
      simp only [Act.bind_run, Act.lift_run, next, SerializedMessageWriter.writeField,
        Act.modify_run]
  | false =>
      rw [if_neg (by decide)] at next ⊢
      rw [copyFieldsLoop, copyFieldsLoop]
      simp only [Act.bind_run, Act.lift_run, next]

/-- A field that the filter keeps or passes over. -/
theorem Copies.step {field : ProtoField} {pos depth depth' : Nat} {keeping keeping' kept : Bool}
    {rest out : Bytes} (canonical : field.Canonical) (split : data.drop pos = field.bytes ++ rest)
    (passes : ∀ fuel,
      FilteredFieldIter.nextLoop (fuel + 1) (filterAt data allowed pos depth keeping) =
        if kept then
          .ok (some (.ok field),
            filterAt data allowed (pos + field.bytes.length) depth' keeping')
        else
          FilteredFieldIter.nextLoop fuel
            (filterAt data allowed (pos + field.bytes.length) depth' keeping'))
    (copies : Copies data allowed (pos + field.bytes.length) depth' keeping' out) :
    Copies data allowed pos depth keeping ((if kept then field.bytes else []) ++ out) := by
  intro fuel buf scopes enough
  have positive := field.bytes_length_pos
  have total := congrArg List.length split
  simp only [List.length_drop, List.length_append] at total
  obtain ⟨fuel, rfl⟩ : ∃ less, fuel = less + 1 := ⟨fuel - 1, by omega⟩
  rw [copyFieldsLoop_step split passes]
  cases kept with
  | true =>
      simp only [if_true]
      rw [copies fuel (serializeField buf field) scopes (by omega), serializeField_eq canonical,
        List.append_assoc]
  | false => exact copies (fuel + 1) buf scopes (by omega)

/-- Inside a group the verdict on the group decides. -/
theorem Copies.inside {field : ProtoField} {pos depth : Nat} {keeping : Bool} {rest out : Bytes}
    (canonical : field.Canonical) (split : data.drop pos = field.bytes ++ rest)
    (within : 0 < depth)
    (copies : Copies data allowed (pos + field.bytes.length)
      (FilteredFieldIter.depthAfter depth field.wireType) keeping out) :
    Copies data allowed pos depth keeping ((if keeping then field.bytes else []) ++ out) := by
  refine Copies.step canonical split (fun fuel => ?_) copies
  rw [nextLoop_succ fuel depth keeping (next_complete canonical split), if_pos within]

/-- The start of a group at the top level decides about the group. -/
theorem Copies.opens {number pos : Nat} (keeping : Bool) {rest out : Bytes}
    (valid : FieldNumber number)
    (split : data.drop pos = tagBytes number .startGroup ++ rest)
    (copies : Copies data allowed (pos + (tagBytes number .startGroup).length) 1
      (allowed.contains number) out) :
    Copies data allowed pos 0 keeping
      ((if allowed.contains number then tagBytes number .startGroup else []) ++ out) := by
  have canonical := @ProtoField.Canonical.startGroup number valid
  have bytes : ProtoField.bytes ⟨number, .startGroup, .startGroup⟩ = tagBytes number .startGroup :=
    List.append_nil _
  rw [← bytes] at split copies ⊢
  refine Copies.step canonical split (fun fuel => ?_) copies
  rw [nextLoop_succ fuel 0 keeping (next_complete canonical split), if_neg (Nat.lt_irrefl 0)]
  rfl

/-- Any other field at the top level is kept or dropped by its number. -/
theorem Copies.single {field : ProtoField} {pos : Nat} (keeping : Bool) {rest out : Bytes}
    (canonical : field.Canonical) (split : data.drop pos = field.bytes ++ rest)
    (notStart : field.wireType ≠ .startGroup) (notEnd : field.wireType ≠ .endGroup)
    (copies : Copies data allowed (pos + field.bytes.length) 0 keeping out) :
    Copies data allowed pos 0 keeping
      ((if allowed.contains field.fieldNumber then field.bytes else []) ++ out) := by
  refine Copies.step canonical split (fun fuel => ?_) copies
  rw [nextLoop_succ fuel 0 keeping (next_complete canonical split), if_neg (Nat.lt_irrefl 0),
    if_neg notStart, if_neg notEnd]

/-- A top-level field that is not a group, as the iterator yields it. -/
inductive Single : Nat → Bytes → Prop where
  | mk {field : ProtoField} : field.Canonical → field.wireType ≠ .startGroup →
      field.wireType ≠ .endGroup → Single field.fieldNumber field.bytes

/-- Top-level fields are single fields and groups. -/
theorem TopFields.rules {P : List (Nat × Bytes) → Prop} {fields : List (Nat × Bytes)}
    (top : TopFields fields) (nil : P [])
    (single : ∀ number bytes rest, Single number bytes → TopFields rest → P rest →
      P ((number, bytes) :: rest))
    (group : ∀ number contents rest, FieldNumber number → TopFields contents → TopFields rest →
      P contents → P rest →
      P ((number, tagBytes number .startGroup ++ (joined contents ++ tagBytes number .endGroup)) ::
        rest)) : P fields := by
  induction top with
  | nil => exact nil
  | @varint number value rest valid fits top ih =>
      exact single _ _ _ (.mk (.varint valid fits) (by simp) (by simp)) top ih
  | @fixed32 number bytes rest valid length top ih =>
      have written := toLeBytes_fromLeBytes bytes
      have bounded := fromLeBytes_lt bytes
      rw [length] at written bounded
      have yielded := @Single.mk ⟨number, .fixed32, .fixed32 (fromLeBytes bytes)⟩
        (.fixed32 valid bounded) (by simp) (by simp)
      simp only [ProtoField.bytes, FieldValue.bytes, written] at yielded
      exact single _ _ _ yielded top ih
  | @fixed64 number bytes rest valid length top ih =>
      have written := toLeBytes_fromLeBytes bytes
      have bounded := fromLeBytes_lt bytes
      rw [length] at written bounded
      have yielded := @Single.mk ⟨number, .fixed64, .fixed64 (fromLeBytes bytes)⟩
        (.fixed64 valid bounded) (by simp) (by simp)
      simp only [ProtoField.bytes, FieldValue.bytes, written] at yielded
      exact single _ _ _ yielded top ih
  | @lengthDelimited number bytes rest valid fits top ih =>
      exact single _ _ _ (.mk (.lengthDelimited valid fits) (by simp) (by simp)) top ih
  | @group number contents rest valid inner top ihInner ih =>
      exact group _ _ _ valid inner top ihInner ih

/-- Some of the fields of a message make a message. -/
theorem TopFields.filter {fields : List (Nat × Bytes)} (top : TopFields fields)
    (wanted : Nat × Bytes → Bool) : TopFields (fields.filter wanted) := by
  induction top with
  | nil => exact .nil
  | varint valid fits _ ih =>
      rw [List.filter_cons]
      split
      · exact .varint valid fits ih
      · exact ih
  | fixed32 valid length _ ih =>
      rw [List.filter_cons]
      split
      · exact .fixed32 valid length ih
      · exact ih
  | fixed64 valid length _ ih =>
      rw [List.filter_cons]
      split
      · exact .fixed64 valid length ih
      · exact ih
  | lengthDelimited valid fits _ ih =>
      rw [List.filter_cons]
      split
      · exact .lengthDelimited valid fits ih
      · exact ih
  | group valid inner _ _ ih =>
      rw [List.filter_cons]
      split
      · exact .group valid inner ih
      · exact ih

/-- The contents of a group are kept or dropped with it. -/
theorem Copies.contents {fields : List (Nat × Bytes)} (top : TopFields fields) :
    ∀ (pos depth : Nat) (keeping : Bool) (tail out : Bytes),
      data.drop pos = joined fields ++ tail → 0 < depth →
      Copies data allowed (pos + (joined fields).length) depth keeping out →
      Copies data allowed pos depth keeping
        ((if keeping then joined fields else []) ++ out) := by
  apply top.rules
  · intro pos depth keeping tail out _ _ copies
    cases keeping <;> exact copies
  · intro number bytes rest yielded _ ih pos depth keeping tail out split within copies
    obtain ⟨canonical, notStart, notEnd⟩ := yielded
    rename_i field
    rw [joined_cons, List.append_assoc] at split
    rw [joined_cons, List.length_append, ← Nat.add_assoc] at copies
    have after := ih _ _ _ _ _ (drop_after split) within copies
    have depthSame : FilteredFieldIter.depthAfter depth field.wireType = depth := by
      cases wire : field.wireType with
      | startGroup => exact absurd wire notStart
      | endGroup => exact absurd wire notEnd
      | _ => rfl
    have before := Copies.inside canonical split within (by rw [depthSame]; exact after)
    cases keeping with
    | true =>
        simp only [if_true] at before ⊢
        rw [joined_cons, List.append_assoc]
        exact before
    | false => exact before
  · intro number contents rest valid _ _ ihInner ih pos depth keeping tail out split within copies
    have opening := @ProtoField.Canonical.startGroup number valid
    have closing := @ProtoField.Canonical.endGroup number valid
    have openBytes : ProtoField.bytes ⟨number, .startGroup, .startGroup⟩ =
        tagBytes number .startGroup := List.append_nil _
    have closeBytes : ProtoField.bytes ⟨number, .endGroup, .endGroup⟩ =
        tagBytes number .endGroup := List.append_nil _
    rw [joined_cons] at split copies
    simp only [List.append_assoc] at split
    simp only [List.length_append, ← Nat.add_assoc] at copies
    have inner := drop_after split
    have close := drop_after inner
    have beyond := ih _ _ _ _ _ (drop_after close) within copies
    rw [← closeBytes] at beyond close
    have closed := @Copies.inside data allowed _ _ (depth + 1) keeping _ _ closing close
      (Nat.succ_pos depth) beyond
    have filled := ihInner _ _ _ _ _ inner (Nat.succ_pos depth) closed
    rw [← openBytes] at split filled
    have opened := Copies.inside opening split within filled
    rw [openBytes, closeBytes] at opened
    cases keeping with
    | true =>
        simp only [if_true] at opened ⊢
        rw [joined_cons]
        simp only [List.append_assoc]
        exact opened
    | false => exact opened

/-- The wanted top-level fields are kept, the others dropped. -/
theorem Copies.fields {fields : List (Nat × Bytes)} (top : TopFields fields) :
    ∀ (pos : Nat) (tail out : Bytes), data.drop pos = joined fields ++ tail →
      (∀ keeping, Copies data allowed (pos + (joined fields).length) 0 keeping out) →
      ∀ keeping, Copies data allowed pos 0 keeping (keptFields allowed fields ++ out) := by
  apply top.rules
  · intro pos tail out _ copies keeping
    exact copies keeping
  · intro number bytes rest yielded _ ih pos tail out split copies keeping
    obtain ⟨canonical, notStart, notEnd⟩ := yielded
    rw [joined_cons, List.append_assoc] at split
    simp only [joined_cons, List.length_append, ← Nat.add_assoc] at copies
    have after := ih _ _ _ (drop_after split) copies
    rw [keptFields_cons, List.append_assoc]
    exact Copies.single keeping canonical split notStart notEnd (after keeping)
  · intro number contents rest valid inner _ _ ih pos tail out split copies keeping
    have closing := @ProtoField.Canonical.endGroup number valid
    have closeBytes : ProtoField.bytes ⟨number, .endGroup, .endGroup⟩ =
        tagBytes number .endGroup := List.append_nil _
    rw [joined_cons] at split
    simp only [joined_cons, List.length_append, ← Nat.add_assoc] at copies
    simp only [List.append_assoc] at split
    have within := drop_after split
    have close := drop_after within
    have beyond := ih _ _ _ (drop_after close) copies
    rw [← closeBytes] at beyond close
    have closed := @Copies.inside data allowed _ _ 1 (allowed.contains number) _ _ closing close
      Nat.one_pos (beyond _)
    have filled := Copies.contents inner _ _ _ _ _ within Nat.one_pos closed
    have opened := Copies.opens keeping valid split filled
    rw [closeBytes] at opened
    rw [keptFields_cons]
    cases kept : allowed.contains number with
    | true =>
        simp only [kept, if_true] at opened ⊢
        simp only [List.append_assoc]
        exact opened
    | false =>
        simp only [kept] at opened ⊢
        exact opened

/-- Copying keeps exactly the wanted top-level fields, each as it stands. -/
theorem copyFields_keeps {fields : List (Nat × Bytes)} (splits : SplitsInto data fields) :
    copyFields data allowed SerializedMessageWriter.new =
      (.ok (), { buf := keptFields allowed fields, scopeStack := [] }) := by
  obtain ⟨top, whole⟩ := splits
  have split : data.drop 0 = joined fields ++ [] := by
    rw [whole, List.append_nil, List.drop_zero]
  have length : 0 + (joined fields).length = data.length := by rw [whole, Nat.zero_add]
  have copies := @Copies.fields data allowed fields top 0 [] [] split
    (fun keeping => by rw [length]; exact Copies.done keeping 0) false
  have ran := copies (data.length + 1) [] [] (by omega)
  rw [List.append_nil] at ran
  exact ran

end Riegeli
