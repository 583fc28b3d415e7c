/-
Module: Riegeli.Proofs.CopyVerdicts
Purpose: When a copy of fields succeeds: the filter counts how deep the groups
  are nested, but compares no numbers and does not ask whether they are closed.
Trusted boundary: none
Main exports: Refuses, copyFields_verdict, RejectsMalformed,
  rejectsMalformed_iff
-/
import Riegeli.Proofs.FieldFilter
import Riegeli.Proofs.FieldRoundTrip

namespace Riegeli

open ProtoFieldIter

variable {data : Bytes} {allowed : List Nat}

/-! ## One field -/

/-- From here the copy ends in an error. -/
def Refuses (data : Bytes) (allowed : List Nat) (pos depth : Nat) (keeping : Bool) : Prop :=
  ∀ fuel writer, data.length < fuel + pos → 0 < fuel → ∃ error after,
    copyFieldsLoop fuel (filterAt data allowed pos depth keeping) writer =
      (.error (.error error), after)

/-- The filter refuses the end of a group at the top level; any other field it
keeps or passes over, and counts the depth. -/
theorem nextLoop_verdict {field : ProtoField} {rest : Bytes} {pos : Nat} (depth : Nat)
    (keeping : Bool) (canonical : field.Canonical) (split : data.drop pos = field.bytes ++ rest) :
    ((∀ fields, openDepth depth (field :: fields) = none) ∧
        ∃ error after, ∀ fuel,
          FilteredFieldIter.nextLoop (fuel + 1) (filterAt data allowed pos depth keeping) =
            .ok (some (.error error), after)) ∨
      ∃ (kept : Bool) (depth' : Nat) (keeping' : Bool),
        (∀ fields, openDepth depth (field :: fields) = openDepth depth' fields) ∧
        ∀ fuel, FilteredFieldIter.nextLoop (fuel + 1) (filterAt data allowed pos depth keeping) =
          if kept then
            .ok (some (.ok field),
              filterAt data allowed (pos + field.bytes.length) depth' keeping')
          else
            FilteredFieldIter.nextLoop fuel
              (filterAt data allowed (pos + field.bytes.length) depth' keeping') := by
  have passes := fun fuel => @nextLoop_succ data allowed field pos _ fuel depth keeping
    (next_complete canonical split)
  by_cases within : 0 < depth
  · refine Or.inr ⟨keeping, FilteredFieldIter.depthAfter depth field.wireType, keeping, ?_, ?_⟩
    · intro fields
      rw [openDepth]
      cases field.wireType with
      | endGroup => exact if_neg (by omega)
      | _ => rfl
    · intro fuel
      rw [passes fuel, if_pos within]
  · obtain rfl : depth = 0 := by omega
    simp only [if_neg within] at passes
    cases wire : field.wireType with
    | startGroup =>
        refine Or.inr ⟨allowed.contains field.fieldNumber, 1, allowed.contains field.fieldNumber,
          fun fields => by rw [openDepth, wire], fun fuel => ?_⟩
        rw [passes fuel, if_pos wire]
    | endGroup =>
        refine Or.inl ⟨fun fields => by rw [openDepth, wire]; rfl,
          .malformedData ("end-group tag for field " ++ toString field.fieldNumber ++
            " without matching start-group"),
          { filterAt data allowed (pos + field.bytes.length) 0 keeping with errored := true },
          fun fuel => ?_⟩
        rw [passes fuel, if_neg (by rw [wire]; decide), if_pos wire]
    | varint =>
        refine Or.inr ⟨allowed.contains field.fieldNumber, 0, keeping,
          fun fields => by rw [openDepth, wire], fun fuel => ?_⟩
        rw [passes fuel, if_neg (by rw [wire]; decide), if_neg (by rw [wire]; decide)]
    | fixed32 =>
        refine Or.inr ⟨allowed.contains field.fieldNumber, 0, keeping,
          fun fields => by rw [openDepth, wire], fun fuel => ?_⟩
        rw [passes fuel, if_neg (by rw [wire]; decide), if_neg (by rw [wire]; decide)]
    | fixed64 =>
        refine Or.inr ⟨allowed.contains field.fieldNumber, 0, keeping,
          fun fields => by rw [openDepth, wire], fun fuel => ?_⟩
        rw [passes fuel, if_neg (by rw [wire]; decide), if_neg (by rw [wire]; decide)]
    | lengthDelimited =>
        refine Or.inr ⟨allowed.contains field.fieldNumber, 0, keeping,
          fun fields => by rw [openDepth, wire], fun fuel => ?_⟩
        rw [passes fuel, if_neg (by rw [wire]; decide), if_neg (by rw [wire]; decide)]

/-- An error of the filter ends the copy. -/
theorem Refuses.here {pos depth : Nat} {keeping : Bool} {error : RiegeliError}
    {after : FilteredFieldIter}
    (fails : ∀ fuel, FilteredFieldIter.nextLoop (fuel + 1) (filterAt data allowed pos depth keeping) =
      .ok (some (.error error), after)) : Refuses data allowed pos depth keeping := by
  intro fuel writer _ positive
  obtain ⟨fuel, rfl⟩ : ∃ less, fuel = less + 1 := ⟨fuel - 1, by omega⟩
  refine ⟨error, writer, ?_⟩
  have next : (filterAt data allowed pos depth keeping).next = .ok (some (.error error), after) := by
    rw [filterAt_next, fails]
  rw [copyFieldsLoop]
  simp only [Act.bind_run, Act.lift_run, next]
  rfl

/-- The copy may pass fields before the error. -/
theorem Refuses.step {field : ProtoField} {pos depth depth' : Nat} {keeping keeping' kept : Bool}
    {rest : Bytes} (split : data.drop pos = field.bytes ++ rest)
    (passes : ∀ fuel,
      FilteredFieldIter.nextLoop (fuel + 1) (filterAt data allowed pos depth keeping) =
        if kept then
          .ok (some (.ok field),
            filterAt data allowed (pos + field.bytes.length) depth' keeping')
        else
          FilteredFieldIter.nextLoop fuel
            (filterAt data allowed (pos + field.bytes.length) depth' keeping'))
    (refuses : Refuses data allowed (pos + field.bytes.length) depth' keeping') :
    Refuses data allowed pos depth keeping := by
  intro fuel writer enough _
  have positive := field.bytes_length_pos
  have total := congrArg List.length split
  simp only [List.length_drop, List.length_append] at total
  obtain ⟨fuel, rfl⟩ : ∃ less, fuel = less + 1 := ⟨fuel - 1, by omega⟩
  rw [copyFieldsLoop_step split passes]
  cases kept with
  | true => exact refuses fuel _ (by omega) (by omega)
  | false => exact refuses (fuel + 1) _ (by omega) (by omega)

/-! ## The whole message -/

/-- Fields that close no group that is not open are copied. -/
theorem copies_of_openDepth {fields : List ProtoField} :
    ∀ {pos depth final : Nat} (keeping : Bool), (∀ field ∈ fields, field.Canonical) →
      pos ≤ data.length → data.drop pos = fieldsBytes fields →
      openDepth depth fields = some final →
      ∃ out, Copies data allowed pos depth keeping out := by
  induction fields with
  | nil =>
      intro pos depth final keeping _ inside whole _
      have ended := List.drop_eq_nil_iff.mp whole
      obtain rfl : pos = data.length := by omega
      exact ⟨[], Copies.done keeping depth⟩
  | cons field fields ih =>
      intro pos depth final keeping canonical inside whole closes
      obtain ⟨here, later⟩ := List.forall_mem_cons.mp canonical
      rcases nextLoop_verdict depth keeping here whole with ⟨fails, _⟩ | ⟨kept, depth', keeping', same, passes⟩
      · rw [fails fields] at closes
        cases closes
      · rw [same fields] at closes
        obtain ⟨out, copies⟩ := ih keeping' later (length_of_split whole inside) (drop_after whole)
          closes
        exact ⟨_, copies.step here whole passes⟩

/-- The end of a group that is not open is refused. -/
theorem refuses_of_openDepth {fields : List ProtoField} :
    ∀ {pos depth : Nat} (keeping : Bool), (∀ field ∈ fields, field.Canonical) →
      data.drop pos = fieldsBytes fields → openDepth depth fields = none →
      Refuses data allowed pos depth keeping := by
  induction fields with
  | nil => intro pos depth keeping _ _ closes; cases closes
  | cons field fields ih =>
      intro pos depth keeping canonical whole closes
      obtain ⟨here, later⟩ := List.forall_mem_cons.mp canonical
      rcases nextLoop_verdict depth keeping here whole with
        ⟨_, error, after, fails⟩ | ⟨kept, depth', keeping', same, passes⟩
      · exact Refuses.here fails
      · rw [same fields] at closes
        exact (ih keeping' later (drop_after whole) closes).step whole passes

/-- An error of the iterator is handed on. -/
theorem refuses_of_error {fuel : Nat} :
    ∀ {pos depth : Nat} {error : RiegeliError} (keeping : Bool),
      collectLoop fuel (at' data pos) = .error (.error error) →
      Refuses data allowed pos depth keeping := by
  induction fuel with
  | zero => intro pos depth error keeping ran; cases ran
  | succ fuel ih =>
      intro pos depth error keeping ran
      rw [collectLoop] at ran
      cases yielded : (at' data pos).next with
      | mk result inner =>
          cases result with
          | none => rw [yielded] at ran; cases ran
          | some result =>
              cases result with
              | error failure =>
                  refine @Refuses.here data allowed pos depth keeping failure
                    { filterAt data allowed pos depth keeping with inner := inner } fun fuel => ?_
                  rw [FilteredFieldIter.nextLoop]
                  simp only [filterAt, yielded]
              | ok field =>
                  obtain ⟨canonical, rest, split, rfl⟩ := next_sound yielded
                  rw [yielded] at ran
                  have later : collectLoop fuel (at' data (pos + field.bytes.length)) =
                      .error (.error error) := by
                    cases outcome : collectLoop fuel (at' data (pos + field.bytes.length)) with
                    | ok fields => simp only [outcome, Except.ok_bind] at ran; cases ran
                    | error fault => simp only [outcome, Except.error_bind] at ran; exact ran
                  rcases nextLoop_verdict depth keeping canonical split with
                    ⟨_, error, after, fails⟩ | ⟨kept, depth', keeping', _, passes⟩
                  · exact Refuses.here fails
                  · exact (ih keeping' later).step split passes

/-- A copy succeeds when the fields can be collected and no group is closed that
is not open. -/
theorem copyFields_verdict (source : Bytes) (numbers : List Nat) :
    (∃ writer, copyFields source numbers SerializedMessageWriter.new = (.ok (), writer)) ↔
      ∃ fields, (ProtoFieldIter.new source).collect = .ok fields ∧
        openDepth 0 fields ≠ none := by
  have refused : Refuses source numbers 0 0 false →
      ¬ ∃ writer, copyFields source numbers SerializedMessageWriter.new = (.ok (), writer) := by
    rintro refuses ⟨writer, ran⟩
    obtain ⟨error, after, failed⟩ := refuses (source.length + 1) SerializedMessageWriter.new
      (by omega) (by omega)
    have same := failed.symm.trans ran
    cases same
  constructor
  · intro copied
    rcases @collectLoop_ends source (source.length + 1) 0 (by omega) (by omega) with
      ⟨fields, ran⟩ | ⟨error, ran⟩
    · refine ⟨fields, ran, fun closes => ?_⟩
      obtain ⟨canonical, whole⟩ := collectLoop_sound ran
      exact refused (refuses_of_openDepth false canonical whole closes) copied
    · exact absurd copied (refused (refuses_of_error false ran))
  · rintro ⟨fields, ran, closes⟩
    obtain ⟨final, closes⟩ := Option.ne_none_iff_exists'.mp closes
    obtain ⟨canonical, whole⟩ := collectLoop_sound ran
    obtain ⟨out, copies⟩ := copies_of_openDepth false canonical (Nat.zero_le _) whole closes
    exact ⟨_, copies (source.length + 1) [] [] (by omega)⟩

/-! ## The output -/

/-- The flat events of top-level fields. -/
theorem TopFields.events {fields : List (Nat × Bytes)} (top : TopFields fields) :
    ∃ events : List ProtoField, (∀ event ∈ events, event.Canonical) ∧
      fieldsBytes events = joined fields ∧ ∀ groups, openGroups groups events = some groups := by
  apply top.rules
  · exact ⟨[], List.forall_mem_nil _, rfl, fun _ => rfl⟩
  · rintro number bytes rest ⟨canonical, notStart, notEnd⟩
    rename_i field
    rintro - ⟨events, others, whole, opened⟩
    refine ⟨field :: events, List.forall_mem_cons.mpr ⟨canonical, others⟩, ?_, fun groups => ?_⟩
    · rw [fieldsBytes_cons, whole, joined_cons]
    · have kept : groupsAfter groups field = some groups := by
        unfold groupsAfter
        cases wire : field.wireType with
        | startGroup => exact absurd wire notStart
        | endGroup => exact absurd wire notEnd
        | _ => rfl
      rw [openGroups, kept]
      exact opened groups
  · rintro number contents rest valid _ _ ⟨inner, innerCanonical, innerBytes, innerOpened⟩
      ⟨events, others, whole, opened⟩
    refine ⟨⟨number, .startGroup, .startGroup⟩ :: (inner ++ ⟨number, .endGroup, .endGroup⟩ :: events),
      ?_, ?_, fun groups => ?_⟩
    · refine List.forall_mem_cons.mpr ⟨.startGroup valid, List.forall_mem_append.mpr
        ⟨innerCanonical, List.forall_mem_cons.mpr ⟨.endGroup valid, others⟩⟩⟩
    · have append : fieldsBytes (inner ++ ⟨number, .endGroup, .endGroup⟩ :: events) =
          fieldsBytes inner ++ fieldsBytes (⟨number, .endGroup, .endGroup⟩ :: events) :=
        List.flatMap_append
      rw [fieldsBytes_cons, append, fieldsBytes_cons, innerBytes, whole, joined_cons]
      simp only [ProtoField.bytes, FieldValue.bytes, List.append_nil, List.append_assoc]
    · change openGroups (number :: groups) (inner ++ _) = _
      rw [openGroups_append _ (innerOpened _)]
      change ((if number = number then some groups else none).bind fun after =>
        openGroups after events) = _
      rw [if_pos rfl]
      exact opened groups

/-- Top-level fields make a message that the validator accepts. -/
theorem isProtoMessage_of_splits {data : Bytes} {fields : List (Nat × Bytes)}
    (splits : SplitsInto data fields) : isProtoMessage data = true := by
  obtain ⟨top, rfl⟩ := splits
  obtain ⟨events, canonical, whole, opened⟩ := top.events
  refine (isProtoMessage_iff_balanced _).mpr ⟨events, ?_, opened []⟩
  exact collectLoop_complete canonical (by rw [List.drop_zero, whole]) (by simp [ProtoFieldIter.new])
    (Nat.succ_pos _)

/-- A copy succeeds on valid messages and no others, and hands over a valid
message. -/
def RejectsMalformed (source : Bytes) (numbers : List Nat) : Prop :=
  ((∃ writer, copyFields source numbers SerializedMessageWriter.new = (.ok (), writer)) ↔
    isProtoMessage source = true) ∧
  ∀ writer, copyFields source numbers SerializedMessageWriter.new = (.ok (), writer) →
    isProtoMessage writer.buf = true

/-- Copying rejects malformed messages except those with a group that is left
open or ended under another number. -/
theorem rejectsMalformed_iff (source : Bytes) (numbers : List Nat) :
    RejectsMalformed source numbers ↔ GroupsMatched source := by
  constructor
  · rintro ⟨copied, _⟩ fields ran
    by_cases closes : openDepth 0 fields = none
    · exact Or.inl closes
    · have valid := copied.mp ((copyFields_verdict source numbers).mpr ⟨fields, ran, closes⟩)
      obtain ⟨others, ran', balanced⟩ := (isProtoMessage_iff_balanced source).mp valid
      obtain rfl := Except.ok.inj (ran.symm.trans ran')
      exact Or.inr balanced
  · intro matched
    have accepts : (∃ writer, copyFields source numbers SerializedMessageWriter.new =
        (.ok (), writer)) ↔ isProtoMessage source = true := by
      rw [copyFields_verdict, isProtoMessage_iff_balanced]
      constructor
      · rintro ⟨fields, ran, closes⟩
        exact ⟨fields, ran, (matched fields ran).resolve_left closes⟩
      · rintro ⟨fields, ran, balanced⟩
        refine ⟨fields, ran, ?_⟩
        have closed := openDepth_of_openGroups balanced
        rw [show 0 = ([] : List Nat).length from rfl, closed]
        exact nofun
    refine ⟨accepts, fun writer ran => ?_⟩
    obtain ⟨fields, splits⟩ := isProtoMessage_splits (accepts.mp ⟨writer, ran⟩)
    obtain rfl := congrArg Prod.snd ((copyFields_keeps splits).symm.trans ran)
    exact isProtoMessage_of_splits ⟨splits.1.filter _, rfl⟩

/-- The start of a group that nothing ends. -/
def openGroupMessage : Bytes := [11]

theorem openGroupMessage_copied : ¬ RejectsMalformed openGroupMessage [1] := by
  rintro ⟨copied, _⟩
  have valid := copied.mp ⟨{ buf := [11], scopeStack := [] }, rfl⟩
  revert valid
  decide

end Riegeli
