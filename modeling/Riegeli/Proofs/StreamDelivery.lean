/-
Module: Riegeli.Proofs.StreamDelivery
Purpose: Going through the records of a reader hands every message to the handlers
  field by field and every other record to the fallback, in the order of the
  records, up to the first handler that fails.
Trusted boundary: the hash, the codecs, the sink and the handlers
Main exports: readMessageLoop_feed, forEachLoop_runs, forEachProtoRecord_delivers
-/
import Riegeli.Proofs.FilteredFiles
import Riegeli.Proofs.FieldDelivery
import Riegeli.Spec.StreamDelivery

namespace Riegeli

open ProtoFieldIter RecordReader RecordStream

variable {Handlers World : Type} [HandleField Handlers]

/-! ## One message -/

/-- Reading a message that is made of these fields feeds them to the handlers. -/
theorem readMessageLoop_feed {data : Bytes} {fields : List ProtoField} :
    ∀ {fuel pos : Nat} {handlers : Handlers}, (∀ field ∈ fields, field.Canonical) →
      data.drop pos = fieldsBytes fields → data.length < fuel + pos → 0 < fuel →
      readMessageLoop fuel (at' data pos) handlers =
        Act.feed HandleField.dispatch fields handlers := by
  induction fields with
  | nil =>
      intro fuel pos handlers _ whole _ positive
      obtain ⟨fuel, rfl⟩ := Nat.exists_eq_succ_of_ne_zero (Nat.ne_of_gt positive)
      rw [readMessageLoop, next_ended (List.drop_eq_nil_iff.mp whole)]
      rfl
  | cons field fields ih =>
      intro fuel pos handlers canonical whole enough positive
      obtain ⟨fuel, rfl⟩ := Nat.exists_eq_succ_of_ne_zero (Nat.ne_of_gt positive)
      obtain ⟨here, later⟩ := List.forall_mem_cons.mp canonical
      have some := field.bytes_length_pos
      have total := congrArg List.length whole
      simp only [List.length_drop, fieldsBytes_cons, List.length_append] at total
      rw [readMessageLoop, next_complete here whole, Act.feed]
      dsimp only
      rcases dispatched : HandleField.dispatch field handlers with ⟨fault | handled, next⟩
      · rw [Act.bind_run_error dispatched, Act.bind_run_error dispatched]
      · rw [Act.bind_run_ok dispatched, Act.bind_run_ok dispatched]
        exact ih later (drop_after whole) (by omega) (by omega)

/-- A message is read by feeding its fields. -/
theorem readMessage_feed {record : Bytes} (valid : isProtoMessage record = true)
    (handlers : Handlers) :
    readMessage record handlers =
      Act.feed HandleField.dispatch (messageFields record) handlers := by
  obtain ⟨fields, collected, _⟩ := (isProtoMessage_iff_balanced record).mp valid
  obtain ⟨canonical, whole⟩ := collectLoop_sound collected
  have same : messageFields record = fields := by
    rw [messageFields, if_pos valid, collected]
  rw [same]
  exact readMessageLoop_feed canonical whole (Nat.lt_succ_self _) (Nat.succ_pos _)

theorem messageFields_other {record : Bytes} (other : isProtoMessage record = false) :
    messageFields record = [] := by
  rw [messageFields, if_neg (by rw [other]; exact Bool.false_ne_true)]

/-! ## The stream -/

/-- Going through records, the first of them at an index. -/
inductive StreamRun (fallback : Option (Nat → Bytes → World → World)) :
    Nat → List Bytes → Handlers × World → StreamEnding → Handlers × World → Prop where
  | closed {index : Nat} {state : Handlers × World} :
      StreamRun fallback index [] state .closed state
  | other {index : Nat} {record : Bytes} {records : List Bytes} {state after : Handlers × World}
      {ending : StreamEnding} : isProtoMessage record = false →
      StreamRun fallback (index + 1) records
        (state.1, callFallback fallback index record state.2) ending after →
      StreamRun fallback index (record :: records) state ending after
  | message {index : Nat} {record : Bytes} {records : List Bytes} {state after : Handlers × World}
      {next : Handlers} {ending : StreamEnding} : isProtoMessage record = true →
      Act.feed HandleField.dispatch (messageFields record) state.1 = (.ok (), next) →
      StreamRun fallback (index + 1) records (next, state.2) ending after →
      StreamRun fallback index (record :: records) state ending after
  | refused {index : Nat} {record : Bytes} {records : List Bytes} {state : Handlers × World}
      {next : Handlers} {fault : Fault} :
      Act.feed HandleField.dispatch (messageFields record) state.1 = (.error fault, next) →
      StreamRun fallback index (record :: records) state (.refused index fault) (next, state.2)

/-- The loop over the records of a reader, of which reading ends like this. -/
theorem forEachLoop_runs {ext : Externals} {reader last : RecordReader} {records : List Bytes}
    {closing : Except Fault Unit} (reads : Reads ext reader records last)
    (ends : (readRecord ext last).1 = closing.map fun _ => none)
    (fallback : Option (Nat → Bytes → World → World)) :
    ∀ {fuel index : Nat} {state : Handlers × World}, records.length < fuel →
      ∃ ending after ended, forEachLoop ext fallback fuel index ⟨reader, state.1, state.2⟩ =
          (ending.result closing (index + records.length), ⟨ended, after.1, after.2⟩) ∧
        StreamRun fallback index records state ending after := by
  induction reads with
  | stop reader =>
      intro fuel index state enough
      obtain ⟨fuel, rfl⟩ := Nat.exists_eq_succ_of_ne_zero (Nat.ne_of_gt enough)
      refine ⟨.closed, state, (readRecord ext reader).2, ?_, .closed⟩
      have read : readRecord ext reader = (closing.map fun _ => none, (readRecord ext reader).2) :=
        Prod.ext ends rfl
      rw [forEachLoop, Act.bind_run, HandledRecords.read, read]
      cases closing <;> rfl
  | @more reader next last record records read _ ih =>
      intro fuel index state enough
      obtain ⟨fuel, rfl⟩ := Nat.exists_eq_succ_of_ne_zero (Nat.ne_of_gt (Nat.zero_lt_of_lt enough))
      have enough := Nat.lt_of_succ_lt_succ enough
      have handed : HandledRecords.read ext index (HandledRecords.mk reader state.1 state.2) =
          (.ok (some record), ⟨next, state.1, state.2⟩) := by
        rw [HandledRecords.read, read]
      have count : index + (record :: records).length = index + 1 + records.length := by
        rw [List.length_cons]
        omega
      rw [forEachLoop, Act.bind_run_ok handed, count]
      dsimp only
      cases valid : isProtoMessage record with
      | false =>
          obtain ⟨ending, after, ended, ran, runs⟩ :=
            @ih ends fuel (index + 1) (state.1, callFallback fallback index record state.2) enough
          refine ⟨ending, after, ended, ?_, .other valid runs⟩
          rw [handRecord, if_neg (by rw [valid]; exact Bool.false_ne_true)]
          exact ran
      | true =>
          rw [handRecord, if_pos valid]
          rcases fed : Act.feed HandleField.dispatch (messageFields record) state.1 with
            ⟨fault | _, handlers⟩
          · refine ⟨.refused index fault, (handlers, state.2), next, ?_, .refused fed⟩
            have fails : HandledRecords.hand index record (HandledRecords.mk next state.1 state.2) =
                (.error (.at index fault), ⟨next, handlers, state.2⟩) := by
              rw [HandledRecords.hand, readMessage_feed valid, fed]
            exact Act.bind_run_error fails
          · obtain ⟨ending, after, ended, ran, runs⟩ :=
              @ih ends fuel (index + 1) (handlers, state.2) enough
            refine ⟨ending, after, ended, ?_, .message valid fed runs⟩
            have hands : HandledRecords.hand index record (HandledRecords.mk next state.1 state.2) =
                (.ok (), ⟨next, handlers, state.2⟩) := by
              rw [HandledRecords.hand, readMessage_feed valid, fed]
            rw [Act.bind_run_ok hands]
            exact ran

namespace StreamRun

variable {fallback : Option (Nat → Bytes → World → World)} {index : Nat} {records : List Bytes}
  {state after : Handlers × World} {ending : StreamEnding}

/-- Where no handler fails, the handlers have been fed all fields, and the fallback
has seen all other records. -/
theorem fed (runs : StreamRun fallback index records state ending after)
    (whole : ending = .closed) :
    Act.feed HandleField.dispatch (records.flatMap messageFields) state.1 = (.ok (), after.1) ∧
      after.2 = fallenBack fallback index records state.2 := by
  induction runs with
  | closed => exact ⟨rfl, rfl⟩
  | other invalid _ ih =>
      obtain ⟨fed, fell⟩ := ih whole
      rw [List.flatMap_cons, messageFields_other invalid, fallenBack,
        if_neg (by rw [invalid]; exact Bool.false_ne_true)]
      exact ⟨fed, fell⟩
  | message valid here _ ih =>
      obtain ⟨fed, fell⟩ := ih whole
      rw [List.flatMap_cons, Act.feed_append here, fallenBack, if_pos valid]
      exact ⟨fed, fell⟩
  | refused _ => cases whole

/-- Where a handler fails, the fields before the one that it fails on have been fed,
and the fallback has seen the other records before. -/
theorem stopped {place : Nat} {fault : Fault}
    (runs : StreamRun fallback index records state ending after)
    (refused : ending = .refused place fault) :
    ∃ stop, place = index + stop ∧ ∃ record front last behind middle,
      records[stop]? = some record ∧ messageFields record = front ++ last :: behind ∧
      Act.feed HandleField.dispatch ((records.take stop).flatMap messageFields ++ front) state.1 =
        (.ok (), middle) ∧
      HandleField.dispatch last middle = (.error fault, after.1) ∧
      after.2 = fallenBack fallback index (records.take stop) state.2 := by
  induction runs with
  | closed => cases refused
  | other invalid _ ih =>
      obtain ⟨stop, rfl, record, front, last, behind, middle, found, split, fed, fails, fell⟩ :=
        ih refused
      refine ⟨stop + 1, by rw [Nat.add_assoc, Nat.add_comm 1], record, front, last, behind, middle,
        found, split, ?_, fails, ?_⟩
      · rw [List.take_succ_cons, List.flatMap_cons, messageFields_other invalid]
        exact fed
      · rw [List.take_succ_cons, fallenBack, if_neg (by rw [invalid]; exact Bool.false_ne_true)]
        exact fell
  | message valid here _ ih =>
      obtain ⟨stop, rfl, record, front, last, behind, middle, found, split, fed, fails, fell⟩ :=
        ih refused
      refine ⟨stop + 1, by rw [Nat.add_assoc, Nat.add_comm 1], record, front, last, behind, middle,
        found, split, ?_, fails, ?_⟩
      · rw [List.take_succ_cons, List.flatMap_cons, List.append_assoc, Act.feed_append here]
        exact fed
      · rw [List.take_succ_cons, fallenBack, if_pos valid]
        exact fell
  | @refused index record records state next failed fails =>
      obtain ⟨rfl, rfl⟩ := StreamEnding.refused.inj refused
      obtain ⟨front, last, behind, middle, split, fed, fails⟩ := Act.feed_error fails
      exact ⟨0, rfl, record, front, last, behind, middle, rfl, split, fed, fails, rfl⟩

/-- From the first record on, what has been fed and what has fallen back is what is
asked of the delivery. -/
theorem delivers (runs : StreamRun fallback 0 records state ending after)
    (reader ended : RecordReader) :
    StreamDelivered fallback records ⟨reader, state.1, state.2⟩ ⟨ended, after.1, after.2⟩ ending := by
  refine ⟨fun whole => ?_, fun index fault refused => ?_⟩
  · obtain ⟨fed, fell⟩ := runs.fed whole
    exact ⟨fell, fun part serves => serves.fed fed⟩
  · obtain ⟨stop, same, record, front, last, behind, middle, found, split, fed, fails, fell⟩ :=
      runs.stopped refused
    rw [Nat.zero_add] at same
    subst same
    exact ⟨record, front, last, behind, found, split, fell,
      fun part serves => serves.stopped fed fails⟩

end StreamRun

/-- The messages among the records of a reader go to the handlers field by field
and the other records to the fallback, in order, until reading ends or a handler
fails. -/
theorem forEachProtoRecord_delivers {ext : Externals} {reader last : RecordReader}
    {records : List Bytes} {closing : Except Fault Unit} (reads : Reads ext reader records last)
    (ends : (readRecord ext last).1 = closing.map fun _ => none)
    (fallback : Option (Nat → Bytes → World → World)) (handlers : Handlers) (world : World)
    {fuel : Nat} (enough : records.length < fuel) :
    ∃ ending, (forEachProtoRecord ext fuel fallback ⟨reader, handlers, world⟩).1 =
        ending.result closing records.length ∧
      StreamDelivered fallback records ⟨reader, handlers, world⟩
        (forEachProtoRecord ext fuel fallback ⟨reader, handlers, world⟩).2 ending := by
  obtain ⟨ending, after, ended, ran, runs⟩ :=
    @forEachLoop_runs Handlers World _ ext reader last records closing reads ends fallback fuel 0
      (handlers, world) enough
  rw [Nat.zero_add] at ran
  rw [forEachProtoRecord, ran]
  exact ⟨ending, rfl, runs.delivers reader ended⟩

/-- The handlers of field 1, which keep its varints. -/
def keptVarints : DynamicHandlerSet (List Nat) :=
  (DynamicHandlerSet.new []).onVarint 1 fun value => Act.modify fun values => values ++ [value]

/-- A fallback that keeps the records it is called with. -/
def keepsRecords : Option (Nat → Bytes → List (Nat × Bytes) → List (Nat × Bytes)) :=
  some fun index record kept => kept ++ [(index, record)]

theorem forEachProtoRecord_delivers_messages :
    ∃ ending, (forEachProtoRecord storingExternals 4 keepsRecords
        ⟨messagesReader, keptVarints, []⟩).1 = ending.result (.ok ()) 3 ∧
      StreamDelivered keepsRecords [[8, 7, 16, 1], [15, 255, 0], [8, 128, 0]]
        ⟨messagesReader, keptVarints, []⟩
        (forEachProtoRecord storingExternals 4 keepsRecords
          ⟨messagesReader, keptVarints, []⟩).2 ending :=
  have reads : Reads storingExternals messagesReader
      [[8, 7, 16, 1], [15, 255, 0], [8, 128, 0]]
      (runReader storingExternals [.readRecord, .readRecord, .readRecord] messagesReader) :=
    .more rfl (.more rfl (.more rfl (.stop _)))
  @forEachProtoRecord_delivers _ _ _ storingExternals _ _ _ (.ok ()) reads rfl keepsRecords
    keptVarints [] 4 (Nat.lt_succ_self 3)

/-- Field 1 of the message has been kept, and the two records that are none. -/
example :
    let after := (forEachProtoRecord storingExternals 4 keepsRecords
      ⟨messagesReader, keptVarints, []⟩).2
    (after.handlers.world, after.world) = ([7], [(1, [15, 255, 0]), (2, [8, 128, 0])]) := by
  decide +kernel

/-- The messages of a complete file go to the handlers and its other records to the
fallback. -/
theorem delivered_file {ext : Externals} (lawful : ext.Lawful) {options : WriterOptions}
    {ops : List WriterOp} {source : Bytes} {writer after : RecordWriter}
    (complete : CompleteFile ext options ops source writer after) {reading : ReaderOptions}
    (unwavering : Unwavering reading.recovery) (whole : reading.fieldProjection = none)
    {reader : RecordReader} (isNew : RecordReader.new ext source reading = .ok reader)
    (fallback : Option (Nat → Bytes → World → World)) (handlers : Handlers) (world : World)
    {fuel : Nat} (enough : (writtenRecords ops).length < fuel) :
    ∃ ending, (forEachProtoRecord ext fuel fallback ⟨reader, handlers, world⟩).1 =
        ending.result (.ok ()) (writtenRecords ops).length ∧
      StreamDelivered fallback (writtenRecords ops) ⟨reader, handlers, world⟩
        (forEachProtoRecord ext fuel fallback ⟨reader, handlers, world⟩).2 ending := by
  obtain ⟨last, reads, finished⟩ := complete.handsOver lawful unwavering whole isNew
  obtain ⟨ending, after, ended, ran, runs⟩ :=
    @forEachLoop_runs Handlers World _ ext reader last _ (.ok ()) reads finished fallback fuel 0
      (handlers, world) enough
  rw [Nat.zero_add] at ran
  rw [forEachProtoRecord, ran]
  exact ⟨ending, rfl, runs.delivers reader ended⟩

end Riegeli
