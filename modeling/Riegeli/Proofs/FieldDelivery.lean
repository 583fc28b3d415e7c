/-
Module: Riegeli.Proofs.FieldDelivery
Purpose: Reading a message hands its fields over in order, each to the handler
  that takes it and to no other, and a dynamic handler set does what the static
  one does.
Trusted boundary: the handlers
Main exports: readMessage_delivers, static_serves, dispatch_dynamic,
  readMessage_demultiplexes
-/
import Riegeli.Spec.FieldDelivery

namespace Riegeli

open ProtoFieldIter

/-! ## Runs of `read_message` -/

section Runs

variable {Handlers : Type} [HandleField Handlers] {data : Bytes}

/-- Reading from a position on, field by field. -/
inductive MessageRun (data : Bytes) :
    Nat → Handlers → List ProtoField → ReadingEnd → Handlers → Prop where
  | finished {pos : Nat} {handlers : Handlers} : data.length ≤ pos →
      MessageRun data pos handlers [] .finished handlers
  | malformed {pos : Nat} {handlers : Handlers} {error : RiegeliError} :
      (at' data pos).next.1 = some (.error error) →
      MessageRun data pos handlers [] (.malformed error) handlers
  | refused {pos : Nat} {handlers after : Handlers} {field : ProtoField} {rest : Bytes}
      {fault : Fault} : field.Canonical → data.drop pos = field.bytes ++ rest →
      HandleField.dispatch field handlers = (.error fault, after) →
      MessageRun data pos handlers [field] (.refused fault) after
  | more {pos : Nat} {handlers next after : Handlers} {field : ProtoField} {rest : Bytes}
      {handled : Bool} {seen : List ProtoField} {ending : ReadingEnd} : field.Canonical →
      data.drop pos = field.bytes ++ rest →
      HandleField.dispatch field handlers = (.ok handled, next) →
      MessageRun data (pos + field.bytes.length) next seen ending after →
      MessageRun data pos handlers (field :: seen) ending after

theorem readMessageLoop_runs : ∀ {fuel pos : Nat} {handlers : Handlers},
    data.length < fuel + pos → 0 < fuel → ∃ seen ending after,
      readMessageLoop fuel (at' data pos) handlers = (ending.result, after) ∧
        MessageRun data pos handlers seen ending after := by
  intro fuel
  induction fuel with
  | zero => exact fun _ impossible => absurd impossible (Nat.lt_irrefl 0)
  | succ fuel ih =>
      intro pos handlers enough _
      rw [readMessageLoop]
      by_cases ended : data.length ≤ pos
      · rw [next_ended ended]
        exact ⟨[], .finished, handlers, rfl, .finished ended⟩
      · rcases yielded : (at' data pos).next with ⟨_ | error | field, iter⟩
        · have some := next_isSome (Nat.not_le.mp ended)
          rw [yielded] at some
          cases some
        · refine ⟨[], .malformed error, handlers, rfl, .malformed ?_⟩
          rw [yielded]
        · obtain ⟨canonical, rest, split, rfl⟩ := next_sound yielded
          dsimp only
          rcases dispatched : HandleField.dispatch field handlers with ⟨outcome, next⟩
          cases outcome with
          | error fault =>
              rw [Act.bind_run_error dispatched]
              exact ⟨[field], .refused fault, next, rfl, .refused canonical split dispatched⟩
          | ok handled =>
              rw [Act.bind_run_ok dispatched]
              have positive := field.bytes_length_pos
              obtain ⟨seen, ending, after, ran, runs⟩ :=
                @ih (pos + field.bytes.length) next (by omega) (by omega)
              exact ⟨field :: seen, ending, after, ran, .more canonical split dispatched runs⟩

namespace MessageRun

variable {pos : Nat} {handlers after : Handlers} {seen : List ProtoField} {ending : ReadingEnd}

theorem canonical (runs : MessageRun data pos handlers seen ending after) :
    ∀ field ∈ seen, field.Canonical := by
  induction runs with
  | finished _ => exact fun _ impossible => absurd impossible List.not_mem_nil
  | malformed _ => exact fun _ impossible => absurd impossible List.not_mem_nil
  | refused canonical _ _ =>
      exact List.forall_mem_singleton.mpr canonical
  | more canonical _ _ _ ih => exact List.forall_mem_cons.mpr ⟨canonical, ih⟩

/-- The fields that were handed over stand one after the other, and what is left
stands behind them. -/
theorem split (runs : MessageRun data pos handlers seen ending after) :
    ∃ left, data.drop pos = fieldsBytes seen ++ left ∧ (ending = .finished → left = []) ∧
      ∀ error, ending = .malformed error →
        (at' data (pos + (fieldsBytes seen).length)).next.1 = some (.error error) := by
  induction runs with
  | finished ended =>
      refine ⟨[], List.drop_eq_nil_of_le ended, fun _ => rfl, fun _ impossible => ?_⟩
      cases impossible
  | malformed stops =>
      refine ⟨_, rfl, (fun impossible => by cases impossible), fun error same => ?_⟩
      cases same
      exact stops
  | @refused _ _ _ field rest _ _ split _ =>
      refine ⟨rest, ?_, (fun impossible => by cases impossible), fun _ impossible => by cases impossible⟩
      rw [split, fieldsBytes_cons, fieldsBytes, List.flatMap_nil, List.append_nil]
  | @more _ _ _ _ field rest _ seen _ _ split _ _ ih =>
      obtain ⟨left, behind, finished, malformed⟩ := ih
      refine ⟨left, ?_, finished, fun error same => ?_⟩
      · rw [fieldsBytes_cons, List.append_assoc, ← behind, drop_after split]
        exact split
      · rw [fieldsBytes_cons, List.length_append, ← Nat.add_assoc]
        exact malformed error same

/-- A run that no handler stops has fed all its fields. -/
theorem fed (runs : MessageRun data pos handlers seen ending after)
    (unrefused : ∀ fault, ending ≠ .refused fault) :
    Act.feed HandleField.dispatch seen handlers = (.ok (), after) := by
  induction runs with
  | finished _ => rfl
  | malformed _ => rfl
  | refused _ _ _ => exact absurd rfl (unrefused _)
  | more _ _ dispatched _ ih =>
      rw [Act.feed, Act.bind_run_ok dispatched]
      exact ih unrefused

/-- A run that a handler stops has fed all its fields but the last. -/
theorem stopped {fault : Fault} (runs : MessageRun data pos handlers seen ending after)
    (refused : ending = .refused fault) :
    ∃ front last middle, seen = front ++ [last] ∧
      Act.feed HandleField.dispatch front handlers = (.ok (), middle) ∧
      HandleField.dispatch last middle = (.error fault, after) := by
  induction runs with
  | finished _ => cases refused
  | malformed _ => cases refused
  | @refused _ handlers _ field _ _ _ _ dispatched =>
      cases refused
      exact ⟨[], field, handlers, rfl, rfl, dispatched⟩
  | @more _ _ _ _ field _ _ _ _ _ _ dispatched _ ih =>
      obtain ⟨front, last, middle, split, fed, fails⟩ := ih refused
      refine ⟨field :: front, last, middle, by rw [split]; rfl, ?_, fails⟩
      rw [Act.feed, Act.bind_run_ok dispatched]
      exact fed

end MessageRun

/-- Reading a message hands its fields over one by one, from the first on, until
it ends, is malformed or a handler fails, and every handler stands where it stands
alone. -/
theorem readMessage_delivers (data : Bytes) (handlers : Handlers) :
    ∃ seen left ending, (readMessage data handlers).1 = ReadingEnd.result ending ∧
      MessageDelivered data handlers (readMessage data handlers).2 seen left ending := by
  obtain ⟨seen, ending, after, ran, runs⟩ :=
    @readMessageLoop_runs _ _ data (data.length + 1) 0 handlers (Nat.lt_succ_self _)
      (Nat.succ_pos _)
  have same : readMessage data handlers = (ending.result, after) := ran
  obtain ⟨left, split, finished, malformed⟩ := runs.split
  rw [same]
  refine ⟨seen, left, ending, rfl, runs.canonical, split, finished, fun error stops => ?_,
    fun part serves => ⟨fun unrefused => serves.fed (runs.fed unrefused), fun fault refused => ?_⟩⟩
  · have ends := malformed error stops
    rw [Nat.zero_add] at ends
    exact ends
  · obtain ⟨front, last, middle, rfl, fed, fails⟩ := runs.stopped refused
    exact ⟨front, last, rfl, serves.stopped fed fails⟩

/-- The empty set only checks that the message is one. -/
theorem readMessage_empty (data : Bytes) :
    (readMessage data EmptyHandlerSet.mk).1 =
      (ProtoFieldIter.new data).collect.map fun _ => () := by
  have loop : ∀ (fuel : Nat) (iter : ProtoFieldIter),
      (readMessageLoop fuel iter EmptyHandlerSet.mk).1 =
        (collectLoop fuel iter).map fun _ => () := by
    intro fuel
    induction fuel with
    | zero => exact fun _ => rfl
    | succ fuel ih =>
        intro iter
        rw [readMessageLoop, collectLoop]
        rcases iter.next with ⟨_ | _ | field, next⟩
        · rfl
        · rfl
        · have skipped : HandleField.dispatch field EmptyHandlerSet.mk =
              (.ok false, EmptyHandlerSet.mk) := rfl
          dsimp only
          rw [Act.bind_run_ok skipped, ih]
          cases collectLoop fuel next <;> rfl
  exact loop _ _

end Runs

/-! ## Static handlers -/

section Static

variable {H1 H2 H3 : Type} [FieldHandler H1] [FieldHandler H2] [FieldHandler H3]

/-- A handler takes the fields of its number and leaves the others. -/
theorem dispatchToHandler_run {Handler : Type} [FieldHandler Handler] (field : ProtoField)
    (handler : Handler) :
    dispatchToHandler field handler =
      if FieldHandler.takes Handler field then
        ((FieldHandler.handle field.value handler).1.map fun _ => true,
          (FieldHandler.handle field.value handler).2)
      else (.ok false, handler) := by
  unfold dispatchToHandler FieldHandler.takes
  by_cases number : field.fieldNumber = FieldHandler.fieldNumber Handler
  · rw [if_neg (Decidable.not_not.mpr number), if_pos (beq_iff_eq.mpr number), Act.bind_run]
    rcases FieldHandler.handle field.value handler with ⟨_ | _, after⟩ <;> rfl
  · rw [if_pos number, if_neg (by rw [beq_iff_eq]; exact number)]
    rfl

/-- A field goes to the first handler that takes it. -/
theorem static_dispatch (field : ProtoField) (set : StaticHandlerSet3 H1 H2 H3) :
    HandleField.dispatch field set =
      if FieldHandler.takes H1 field then
        ((FieldHandler.handle field.value set.h1).1.map fun _ => true,
          { set with h1 := (FieldHandler.handle field.value set.h1).2 })
      else if FieldHandler.takes H2 field then
        ((FieldHandler.handle field.value set.h2).1.map fun _ => true,
          { set with h2 := (FieldHandler.handle field.value set.h2).2 })
      else if FieldHandler.takes H3 field then
        ((FieldHandler.handle field.value set.h3).1.map fun _ => true,
          { set with h3 := (FieldHandler.handle field.value set.h3).2 })
      else (.ok false, set) := by
  change (Act.inside StaticHandlerSet3.h1 _ (dispatchToHandler field) >>= _) set = _
  rw [Act.bind_run, Act.inside, dispatchToHandler_run]
  by_cases first : FieldHandler.takes H1 field = true
  · rw [if_pos first, if_pos first]
    rcases FieldHandler.handle field.value set.h1 with ⟨_ | _, after⟩ <;> rfl
  · rw [if_neg first, if_neg first]
    dsimp only
    rw [if_neg Bool.false_ne_true, Act.bind_run, Act.inside, dispatchToHandler_run]
    by_cases second : FieldHandler.takes H2 field = true
    · rw [if_pos second, if_pos second]
      rcases FieldHandler.handle field.value set.h2 with ⟨_ | _, after⟩ <;> rfl
    · rw [if_neg second, if_neg second]
      dsimp only
      rw [if_neg Bool.false_ne_true, Act.inside, dispatchToHandler_run]
      split <;> rfl

theorem map_handled (result : Rust Unit) :
    (result.map fun _ => true).map (fun _ => ()) = result := by
  cases result <;> rfl

theorem staticPart1_serves :
    (@staticPart1 H1 H2 H3 _).Serves (@HandleField.dispatch (StaticHandlerSet3 H1 H2 H3) _) where
  own := by
    intro field set takes
    have taken : FieldHandler.takes H1 field = true := takes
    rw [static_dispatch, if_pos taken, map_handled]
    rfl
  other := by
    intro field set takes
    have left : FieldHandler.takes H1 field = false := takes
    rw [static_dispatch, if_neg (by rw [left]; exact Bool.false_ne_true)]
    split
    · rfl
    · split <;> rfl

theorem staticPart2_serves :
    (@staticPart2 H1 H2 H3 _ _).Serves (@HandleField.dispatch (StaticHandlerSet3 H1 H2 H3) _) where
  own := by
    intro field set takes
    simp only [staticPart2, Bool.and_eq_true, Bool.not_eq_true'] at takes
    rw [static_dispatch, takes.1, if_neg Bool.false_ne_true, if_pos takes.2, map_handled]
    rfl
  other := by
    intro field set takes
    simp only [staticPart2, Bool.and_eq_false_iff, Bool.not_eq_false'] at takes
    rw [static_dispatch]
    rcases takes with first | second
    · rw [if_pos first]
      rfl
    · rw [second, if_neg Bool.false_ne_true]
      split
      · rfl
      · split <;> rfl

theorem staticPart3_serves :
    (@staticPart3 H1 H2 H3 _ _ _).Serves (@HandleField.dispatch (StaticHandlerSet3 H1 H2 H3) _) where
  own := by
    intro field set takes
    simp only [staticPart3, Bool.and_eq_true, Bool.not_eq_true'] at takes
    rw [static_dispatch, takes.1.1, if_neg Bool.false_ne_true, takes.1.2,
      if_neg Bool.false_ne_true, if_pos takes.2, map_handled]
    rfl
  other := by
    intro field set takes
    simp only [staticPart3, Bool.and_eq_false_iff, Bool.not_eq_false'] at takes
    rw [static_dispatch]
    rcases takes with (first | second) | third
    · rw [if_pos first]
      rfl
    · rw [if_pos second]
      split <;> rfl
    · rw [third, if_neg Bool.false_ne_true]
      split
      · rfl
      · split <;> rfl

end Static

/-! ## Dynamic handlers -/

section Dynamic

variable {World Handler H1 H2 H3 : Type}

theorem lookup_insert (set : DynamicHandlerSet World) (key other : DynamicHandlerKey)
    (handler : FieldValue → Act World Fault Unit) :
    (set.insert key handler).lookup other = if key = other then some handler else set.lookup other := by
  unfold DynamicHandlerSet.insert DynamicHandlerSet.lookup
  by_cases same : key = other
  · simp [same]
  · have kept : (fun entry : DynamicHandlerKey × (FieldValue → Act World Fault Unit) =>
        decide ((entry.1 != key) = true ∧ (entry.1 == other) = true)) =
          fun entry => entry.1 == other := by
      funext entry
      by_cases found : entry.1 = other
      · have different : ¬ other = key := fun back => same back.symm
        simp [found, different]
      · simp [found]
    simp only [List.find?_cons, beq_eq_false_iff_ne.mpr same, List.find?_filter, kept, if_neg same]

/-- What a dynamic set does with a field, if it has a handler for it. -/
def DynamicHandlerSet.answer (set : DynamicHandlerSet World) (field : ProtoField) :
    Option (Act World Fault Unit) :=
  (set.lookup (field.fieldNumber, field.wireType.toNat)).map fun handler => handler field.value

/-- A registered handler answers for the fields of its number, and what was
registered before answers for the others. -/
theorem answer_register [FieldHandler Handler] (get : World → Handler)
    (put : Handler → World → World) (set : DynamicHandlerSet World) {field : ProtoField}
    (canonical : field.Canonical) :
    (set.register get put).answer field =
      if FieldHandler.takes Handler field then
        some (Act.inside get put (FieldHandler.handle field.value))
      else set.answer field := by
  unfold DynamicHandlerSet.register DynamicHandlerSet.onVarint DynamicHandlerSet.onFixed32
    DynamicHandlerSet.onFixed64 DynamicHandlerSet.onLengthDelimited DynamicHandlerSet.onStartGroup
    DynamicHandlerSet.onEndGroup DynamicHandlerSet.answer FieldHandler.takes
  by_cases same : field.fieldNumber = FieldHandler.fieldNumber Handler
  · rw [if_pos (beq_iff_eq.mpr same)]
    cases canonical <;> simp [lookup_insert, WireType.toNat, ← same, FieldHandler.handle]
  · rw [if_neg (by rw [beq_iff_eq]; exact same)]
    simp only [lookup_insert, Prod.mk.injEq, Ne.symm same, false_and, if_false]

theorem dispatch_answer (set : DynamicHandlerSet World) (field : ProtoField) :
    HandleField.dispatch field set =
      match set.answer field with
      | some method => ((method set.world).1.map fun _ => true, { set with world := (method set.world).2 })
      | none => (.ok false, set) := by
  change (Act.get >>= _) set = _
  rw [Act.bind_run_ok (Act.get_run _)]
  unfold DynamicHandlerSet.answer
  cases set.lookup (field.fieldNumber, field.wireType.toNat) with
  | none => rfl
  | some handler =>
      dsimp only [Option.map_some]
      rw [Act.bind_run, Act.inside]
      rcases handler field.value set.world with ⟨_ | _, after⟩ <;> rfl

variable [FieldHandler H1] [FieldHandler H2] [FieldHandler H3]

/-- A static set and the dynamic one of its handlers do the same with a field. -/
theorem dispatch_dynamic {field : ProtoField} (canonical : field.Canonical)
    (set : StaticHandlerSet3 H1 H2 H3) :
    HandleField.dispatch field set.dynamic =
      ((HandleField.dispatch field set).1, (HandleField.dispatch field set).2.dynamic) := by
  have answers : set.dynamic.answer field =
      if FieldHandler.takes H1 field then
        some (Act.inside StaticHandlerSet3.h1 (fun h1 set => { set with h1 := h1 })
          (FieldHandler.handle field.value))
      else if FieldHandler.takes H2 field then
        some (Act.inside StaticHandlerSet3.h2 (fun h2 set => { set with h2 := h2 })
          (FieldHandler.handle field.value))
      else if FieldHandler.takes H3 field then
        some (Act.inside StaticHandlerSet3.h3 (fun h3 set => { set with h3 := h3 })
          (FieldHandler.handle field.value))
      else none := by
    unfold StaticHandlerSet3.dynamic
    dsimp only
    rw [answer_register _ _ _ canonical, answer_register _ _ _ canonical,
      answer_register _ _ _ canonical]
    rfl
  rw [dispatch_answer, answers, static_dispatch]
  by_cases first : FieldHandler.takes H1 field = true
  · rw [if_pos first, if_pos first]
    rfl
  · rw [if_neg first, if_neg first]
    by_cases second : FieldHandler.takes H2 field = true
    · rw [if_pos second, if_pos second]
      rfl
    · rw [if_neg second, if_neg second]
      by_cases third : FieldHandler.takes H3 field = true
      · rw [if_pos third, if_pos third]
        rfl
      · rw [if_neg third, if_neg third]

/-- Reading a message with the dynamic set is reading it with the static one. -/
theorem readMessage_dynamic (data : Bytes) (set : StaticHandlerSet3 H1 H2 H3) :
    readMessage data set.dynamic =
      ((readMessage data set).1, (readMessage data set).2.dynamic) := by
  have loop : ∀ (fuel pos : Nat) (set : StaticHandlerSet3 H1 H2 H3),
      readMessageLoop fuel (at' data pos) set.dynamic =
        ((readMessageLoop fuel (at' data pos) set).1,
          (readMessageLoop fuel (at' data pos) set).2.dynamic) := by
    intro fuel
    induction fuel with
    | zero => exact fun _ _ => rfl
    | succ fuel ih =>
        intro pos set
        rw [readMessageLoop, readMessageLoop]
        rcases yielded : (at' data pos).next with ⟨_ | _ | field, iter⟩
        · rfl
        · rfl
        · obtain ⟨canonical, rest, split, rfl⟩ := next_sound yielded
          dsimp only
          rw [Act.bind_run, Act.bind_run, dispatch_dynamic canonical]
          rcases HandleField.dispatch field set with ⟨_ | _, next⟩
          · rfl
          · exact ih _ next
  exact loop (data.length + 1) 0 set

/-- Reading a message demultiplexes it, for every message and every set of three
handlers. -/
theorem readMessage_demultiplexes (data : Bytes) (set : StaticHandlerSet3 H1 H2 H3) :
    Demultiplexes data set where
  delivers := readMessage_delivers data set
  first := staticPart1_serves
  second := staticPart2_serves
  third := staticPart3_serves
  skips := by
    intro field state first second third
    rw [static_dispatch, first, second, third]
    rfl
  dynamic := readMessage_dynamic data set

end Dynamic

end Riegeli
