/-
Module: Riegeli.Proofs.ColumnExtraction
Purpose: The column of a varint field over the records of a reader, and over
  the records that the field filter makes of them.
Trusted boundary: the hash, the codecs and the sink
Main exports: recordColumn_eq, ColumnOf.filtered, filterFieldsLoop_writes,
  extractVarintColumn_filters
-/
import Riegeli.Proofs.CopyVerdicts
import Riegeli.Proofs.RecordFiltering
import Riegeli.Spec.VarintColumns

namespace Riegeli

open ProtoFieldIter

variable {data : Bytes}

/-! ## One record -/

/-- The values that the extraction takes from flat events. -/
def eventColumn (number : Nat) : Nat → List ProtoField → List Nat
  | _, [] => []
  | depth, field :: fields =>
      match field.wireType with
      | .startGroup => eventColumn number (depth + 1) fields
      | .endGroup => eventColumn number (depth - 1) fields
      | _ =>
          if depth = 0 ∧ field.fieldNumber = number then
            match field.value with
            | .varint value => value :: eventColumn number depth fields
            | _ => eventColumn number depth fields
          else eventColumn number depth fields

/-- The loop over the fields of a message. -/
theorem columnLoop_eq {number : Nat} {fields : List ProtoField} :
    ∀ {fuel pos depth : Nat} {values : List Nat}, (∀ field ∈ fields, field.Canonical) →
      data.drop pos = fieldsBytes fields → data.length < fuel + pos → 0 < fuel →
      RecordStream.columnLoop number fuel (at' data pos) depth values =
        .ok (values ++ eventColumn number depth fields) := by
  induction fields with
  | nil =>
      intro fuel pos depth values _ whole _ positive
      obtain ⟨fuel, rfl⟩ : ∃ less, fuel = less + 1 := ⟨fuel - 1, by omega⟩
      rw [RecordStream.columnLoop, next_ended (List.drop_eq_nil_iff.mp whole)]
      simp only [eventColumn, List.append_nil]
  | cons field fields ih =>
      intro fuel pos depth values canonical whole enough _
      obtain ⟨fuel, rfl⟩ : ∃ less, fuel = less + 1 := ⟨fuel - 1, by omega⟩
      obtain ⟨here, later⟩ := List.forall_mem_cons.mp canonical
      have positive := field.bytes_length_pos
      have total := congrArg List.length whole
      simp only [List.length_drop, fieldsBytes_cons, List.length_append] at total
      have rest := fun depth values =>
        @ih fuel (pos + field.bytes.length) depth values later (drop_after whole) (by omega)
          (by omega)
      rw [RecordStream.columnLoop, next_complete here whole]
      simp only [rest]
      rw [eventColumn]
      cases field.wireType with
      | startGroup => rfl
      | endGroup => rfl
      | _ =>
          by_cases wanted : depth = 0 ∧ field.fieldNumber = number
          · simp only [if_pos wanted]
            cases field.value with
            | varint value => simp only [List.append_assoc, List.singleton_append]
            | _ => rfl
          · simp only [if_neg wanted]

/-- Only a varint field has a value in the column. -/
theorem varintValue_field {number : Nat} {field : ProtoField} (canonical : field.Canonical) :
    varintValue number (field.fieldNumber, field.bytes) =
      if field.fieldNumber = number then
        match field.value with
        | .varint value => some value
        | _ => none
      else none := by
  have noVarint : field.wireType ≠ .varint →
      varintValue number (field.fieldNumber, field.bytes) = none := by
    intro other
    unfold varintValue
    split
    · rfl
    · rename_i value _ _
      refine if_neg fun same => other ?_
      obtain ⟨numbered, bytes⟩ := Prod.mk.inj same
      -- the tag is the first varint of the bytes
      have valid := canonical.number
      have first := decodeU32_encodeU32 (tag_fits valid field.wireType) field.value.bytes
      have second := decodeU32_encodeU32 (tag_fits (numbered ▸ valid) .varint) (encodeU64 value)
      simp only [ProtoField.bytes, tagBytes] at bytes
      rw [bytes, second] at first
      have tags := congrArg Prod.fst (Except.ok.inj first)
      have typed := congrArg tagWireType tags
      rw [tagWireType_tag, tagWireType_tag] at typed
      exact (Option.some.inj typed).symm
  cases canonical with
  | @varint given value valid fits =>
      by_cases same : given = number
      · subst same
        rw [if_pos rfl]
        exact (varintValue_eq_some fits).mpr rfl
      · rw [if_neg same]
        unfold varintValue
        split
        · rfl
        · exact if_neg fun equal => same (congrArg Prod.fst equal)
  | fixed32 => rw [noVarint (by simp)]; split <;> rfl
  | fixed64 => rw [noVarint (by simp)]; split <;> rfl
  | lengthDelimited => rw [noVarint (by simp)]; split <;> rfl
  | startGroup => rw [noVarint (by simp)]; split <;> rfl
  | endGroup => rw [noVarint (by simp)]; split <;> rfl

/-- A group has no value in the column. -/
theorem varintValue_group {number given : Nat} {contents : Bytes} (valid : FieldNumber given) :
    varintValue number (given, tagBytes given .startGroup ++ contents) = none := by
  unfold varintValue
  split
  · rfl
  · rename_i value _ _
    refine if_neg fun same => ?_
    obtain ⟨rfl, bytes⟩ := Prod.mk.inj same
    have first := decodeU32_encodeU32 (tag_fits valid .startGroup) contents
    have second := decodeU32_encodeU32 (tag_fits valid .varint) (encodeU64 value)
    simp only [tagBytes] at bytes
    rw [bytes, second] at first
    have tags := congrArg Prod.fst (Except.ok.inj first)
    simp only [WireType.toNat] at tags
    omega

/-- The events of top-level fields give the values at the top level, and no value
inside a group. -/
theorem TopFields.column (number : Nat) {fields : List (Nat × Bytes)} (top : TopFields fields) :
    ∃ events : List ProtoField, (∀ event ∈ events, event.Canonical) ∧
      fieldsBytes events = joined fields ∧ ∀ more,
        eventColumn number 0 (events ++ more) =
          fields.filterMap (varintValue number) ++ eventColumn number 0 more ∧
        ∀ depth, eventColumn number (depth + 1) (events ++ more) =
          eventColumn number (depth + 1) more := by
  apply top.rules
  · exact ⟨[], List.forall_mem_nil _, rfl, fun more => ⟨rfl, fun _ => rfl⟩⟩
  · rintro given bytes rest ⟨canonical, notStart, notEnd⟩
    rename_i field
    rintro - ⟨events, others, whole, columns⟩
    refine ⟨field :: events, List.forall_mem_cons.mpr ⟨canonical, others⟩, ?_, fun more => ?_⟩
    · rw [fieldsBytes_cons, whole, joined_cons]
    · obtain ⟨outside, inside⟩ := columns more
      have valued := @varintValue_field number field canonical
      constructor
      · rw [List.cons_append, List.filterMap_cons, valued, eventColumn]
        split
        · contradiction
        · contradiction
        · by_cases same : field.fieldNumber = number
          · rw [if_pos ⟨rfl, same⟩, if_pos same]
            split <;> rw [outside]
            rfl
          · rw [if_neg fun both => same both.2, if_neg same]
            exact outside
      · intro depth
        rw [List.cons_append, eventColumn]
        split
        · contradiction
        · contradiction
        · rw [if_neg fun both => Nat.succ_ne_zero _ both.1]
          exact inside depth
  · rintro given contents rest valid - - ⟨inner, innerCanonical, innerBytes, innerColumns⟩
      ⟨events, others, whole, columns⟩
    refine ⟨⟨given, .startGroup, .startGroup⟩ :: (inner ++ ⟨given, .endGroup, .endGroup⟩ :: events),
      ?_, ?_, fun more => ?_⟩
    · exact List.forall_mem_cons.mpr ⟨.startGroup valid, List.forall_mem_append.mpr
        ⟨innerCanonical, List.forall_mem_cons.mpr ⟨.endGroup valid, others⟩⟩⟩
    · have append : fieldsBytes (inner ++ ⟨given, .endGroup, .endGroup⟩ :: events) =
          fieldsBytes inner ++ fieldsBytes (⟨given, .endGroup, .endGroup⟩ :: events) :=
        List.flatMap_append
      rw [fieldsBytes_cons, append, fieldsBytes_cons, innerBytes, whole, joined_cons]
      simp only [ProtoField.bytes, FieldValue.bytes, List.append_nil, List.append_assoc]
    · obtain ⟨outside, inside⟩ := columns more
      have within : ∀ depth,
          eventColumn number depth
              (⟨given, .startGroup, .startGroup⟩ ::
                (inner ++ ⟨given, .endGroup, .endGroup⟩ :: events) ++ more) =
            eventColumn number depth (events ++ more) := by
        intro depth
        rw [List.cons_append, List.append_assoc]
        exact ((innerColumns _).2 depth)
      constructor
      · rw [within 0, outside, List.filterMap_cons, varintValue_group valid]
      · intro depth
        rw [within (depth + 1), inside depth]

/-- The column of a message, however it splits into fields. -/
theorem recordColumn_splits {number : Nat} {fields : List (Nat × Bytes)}
    (splits : SplitsInto data fields) (values : List Nat) :
    RecordStream.recordColumn number data values =
      .ok (values ++ fields.filterMap (varintValue number)) := by
  obtain ⟨events, canonical, whole, columns⟩ := splits.1.column number
  have column := (columns []).1
  simp only [List.append_nil, eventColumn] at column
  unfold RecordStream.recordColumn
  rw [if_pos (isProtoMessage_of_splits splits)]
  have loop := @columnLoop_eq data number events (data.length + 1) 0 0 values canonical
    (by rw [List.drop_zero, whole, splits.2]) (by omega) (by omega)
  rw [column] at loop
  exact loop

theorem columnOf_splits {number : Nat} {fields : List (Nat × Bytes)}
    (splits : SplitsInto data fields) :
    ColumnOf number data (fields.filterMap (varintValue number)) := by
  refine Or.inl ⟨isProtoMessage_of_splits splits, ⟨fields, splits⟩, fun others again => ?_⟩
  -- the extraction returns the same, whichever way the message is split
  have first := @recordColumn_splits data number fields splits []
  have second := @recordColumn_splits data number others again []
  rw [second] at first
  exact (Except.ok.inj first).symm

/-- Every record adds a column. -/
theorem exists_columnOf (number : Nat) (record : Bytes) : ∃ column, ColumnOf number record column := by
  cases valid : isProtoMessage record with
  | false => exact ⟨[], Or.inr ⟨valid, rfl⟩⟩
  | true =>
      obtain ⟨fields, splits⟩ := isProtoMessage_splits valid
      exact ⟨_, columnOf_splits splits⟩

/-- Dropping fields keeps the values of a wanted number and no others. -/
theorem filterMap_kept (number : Nat) (numbers : List Nat) (fields : List (Nat × Bytes)) :
    (fields.filter fun field => numbers.contains field.1).filterMap (varintValue number) =
      if number ∈ numbers then fields.filterMap (varintValue number) else [] := by
  have numbered : ∀ {field value}, varintValue number field = some value → field.1 = number := by
    intro field value valued
    unfold varintValue at valued
    split at valued
    · cases valued
    · split at valued
      · rename_i same
        exact congrArg Prod.fst same
      · cases valued
  by_cases wanted : number ∈ numbers
  · rw [if_pos wanted, List.filterMap_filter]
    congr 1
    funext field
    split
    · rfl
    · rename_i dropped
      cases valued : varintValue number field with
      | none => rfl
      | some value =>
          rw [numbered valued] at dropped
          exact absurd (List.contains_iff_mem.mpr wanted) dropped
  · rw [if_neg wanted, List.filterMap_eq_nil_iff]
    intro field member
    obtain ⟨_, taken⟩ := List.mem_filter.mp member
    cases valued : varintValue number field with
    | none => rfl
    | some value =>
        rw [numbered valued] at taken
        exact absurd (List.contains_iff_mem.mp taken) wanted

/-- The extraction appends the column of a record. -/
theorem recordColumn_eq {number : Nat} {record : Bytes} {column : List Nat}
    (columnOf : ColumnOf number record column) (values : List Nat) :
    RecordStream.recordColumn number record values = .ok (values ++ column) := by
  rcases columnOf with ⟨_, ⟨fields, splits⟩, columns⟩ | ⟨foreign, rfl⟩
  · rw [recordColumn_splits splits, columns fields splits]
  · unfold RecordStream.recordColumn
    rw [if_neg (by rw [foreign]; decide), List.append_nil]

/-- Filtering keeps the column of a wanted number and empties any other. -/
theorem ColumnOf.filtered {number : Nat} {numbers : List Nat} {record output : Bytes}
    {column : List Nat} (columnOf : ColumnOf number record column)
    (filtered : Filtered numbers record output) :
    ColumnOf number output (if number ∈ numbers then column else []) := by
  rcases filtered with ⟨valid, ⟨fields, splits⟩, keeps⟩ | ⟨foreign, rfl⟩
  · rcases columnOf with ⟨_, _, columns⟩ | ⟨invalid, _⟩
    · obtain rfl := columns fields splits
      obtain rfl := keeps fields splits
      have kept : SplitsInto (keptFields numbers fields)
          (fields.filter fun field => numbers.contains field.1) := ⟨splits.1.filter _, rfl⟩
      have column : ColumnOf number (keptFields numbers fields)
          ((fields.filter fun field => numbers.contains field.1).filterMap (varintValue number)) :=
        columnOf_splits kept
      rw [filterMap_kept] at column
      exact column
    · rw [valid] at invalid
      cases invalid
  · have invalid : isProtoMessage output = false := by
      cases valid : isProtoMessage output with
      | false => rfl
      | true => rw [isParseable_of_isProtoMessage valid] at foreign; cases foreign
    rcases columnOf with ⟨valid, _⟩ | ⟨_, rfl⟩
    · rw [invalid] at valid
      cases valid
    · exact Or.inr ⟨invalid, by split <;> rfl⟩

/-! ## The stream -/

variable {ext : Externals}

/-- The extraction goes through the records in order. -/
theorem extractVarintLoop_eq {reader last : RecordReader} {records : List Bytes} {number : Nat}
    (reads : Reads ext reader records last)
    (finished : (RecordReader.readRecord ext last).1 = .ok none) :
    ∀ {index fuel : Nat} {values : List Nat} {columns : List (List Nat)},
      List.Forall₂ (ColumnOf number) records columns → records.length < fuel →
      ∃ ended, RecordStream.extractVarintLoop ext number fuel index values reader =
        (.ok (values ++ columns.flatten), ended) := by
  induction reads with
  | stop reader =>
      intro index fuel values columns columnsOf enough
      obtain ⟨fuel, rfl⟩ : ∃ less, fuel = less + 1 := ⟨fuel - 1, by omega⟩
      cases columnsOf
      have read : RecordStream.readRecordAt ext index reader =
          (.ok none, (RecordReader.readRecord ext reader).2) := by
        unfold RecordStream.readRecordAt
        rw [show RecordReader.readRecord ext reader =
          (.ok none, (RecordReader.readRecord ext reader).2) from Prod.ext finished rfl]
      refine ⟨(RecordReader.readRecord ext reader).2, ?_⟩
      rw [RecordStream.extractVarintLoop, Act.bind_run_ok read, List.flatten_nil, List.append_nil]
      rfl
  | @more reader next last record records handed _ ih =>
      intro index fuel values columns columnsOf enough
      obtain ⟨fuel, rfl⟩ : ∃ less, fuel = less + 1 := ⟨fuel - 1, by omega⟩
      cases columnsOf with
      | @cons _ column _ columns here later =>
          have read : RecordStream.readRecordAt ext index reader = (.ok (some record), next) := by
            unfold RecordStream.readRecordAt
            rw [handed]
          have taken : (Act.lift ((RecordStream.recordColumn number record values).mapError
              (StreamFault.at index)) : Act RecordReader StreamFault (List Nat)) next =
              (.ok (values ++ column), next) := by
            rw [recordColumn_eq here]
            rfl
          obtain ⟨ended, ran⟩ := @ih finished (index + 1) fuel (values ++ column) columns later
            (by simpa using enough)
          refine ⟨ended, ?_⟩
          rw [RecordStream.extractVarintLoop, Act.bind_run_ok read]
          simp only
          rw [Act.bind_run_ok taken, ran, List.flatten_cons, List.append_assoc]

/-- A record that was filtered without an error was written filtered. -/
theorem filterRecord_writes {numbers : List Nat} {index : Nat} {record : Bytes}
    {reader : RecordReader} {writer : RecordWriter} {streams : RecordStream.Streams}
    (ran : RecordStream.filterRecord ext numbers index record (reader, writer) = (.ok (), streams)) :
    ∃ output, Filtered numbers record output ∧ streams.1 = reader ∧
      RecordWriter.writeRecord ext output writer = (.ok (), streams.2) := by
  have written : ∀ output, RecordStream.onWriter index (RecordWriter.writeRecord ext output)
      (reader, writer) = (.ok (), streams) → streams.1 = reader ∧
        RecordWriter.writeRecord ext output writer = (.ok (), streams.2) := by
    intro output wrote
    unfold RecordStream.onWriter at wrote
    cases outcome : RecordWriter.writeRecord ext output writer with
    | mk result after =>
        simp only [outcome] at wrote
        cases result with
        | error fault => cases wrote
        | ok value =>
            obtain rfl := congrArg Prod.snd wrote
            exact ⟨rfl, rfl⟩
  unfold RecordStream.filterRecord at ran
  split at ran
  · rename_i valid
    obtain ⟨fields, splits⟩ := isProtoMessage_splits valid
    rw [filterFields_keeps numbers splits] at ran
    exact ⟨keptFields numbers fields,
      filtered_of_filterFields valid (filterFields_keeps numbers splits), written _ ran⟩
  · split at ran
    · cases ran
    · rename_i foreign
      exact ⟨record, Or.inr ⟨Bool.eq_false_iff.mpr foreign, rfl⟩, written _ ran⟩

/-- What filtering without an error wrote. -/
theorem filterFieldsLoop_writes {reader last : RecordReader} {records : List Bytes}
    {numbers : List Nat} (reads : Reads ext reader records last)
    (finished : (RecordReader.readRecord ext last).1 = .ok none) :
    ∀ {index fuel : Nat} {writer : RecordWriter} {streams : RecordStream.Streams},
      RecordStream.filterFieldsLoop ext numbers fuel index (reader, writer) = (.ok (), streams) →
      ∃ outputs, List.Forall₂ (Filtered numbers) records outputs ∧
        Writes ext writer outputs streams.2 := by
  induction reads with
  | stop reader =>
      intro index fuel writer streams ran
      cases fuel with
      | zero => cases ran
      | succ fuel =>
          have read : RecordStream.onReader index (RecordReader.readRecord ext) (reader, writer) =
              (.ok none, ((RecordReader.readRecord ext reader).2, writer)) := by
            unfold RecordStream.onReader
            rw [show RecordReader.readRecord ext reader =
              (.ok none, (RecordReader.readRecord ext reader).2) from Prod.ext finished rfl]
          rw [RecordStream.filterFieldsLoop, Act.bind_run_ok read] at ran
          obtain rfl := congrArg Prod.snd ran
          exact ⟨[], .nil, .stop writer⟩
  | @more reader next last record records handed _ ih =>
      intro index fuel writer streams ran
      cases fuel with
      | zero => cases ran
      | succ fuel =>
          have read : RecordStream.onReader index (RecordReader.readRecord ext) (reader, writer) =
              (.ok (some record), (next, writer)) := by
            unfold RecordStream.onReader
            rw [handed]
          rw [RecordStream.filterFieldsLoop, Act.bind_run_ok read] at ran
          simp only at ran
          cases outcome : RecordStream.filterRecord ext numbers index record (next, writer) with
          | mk result middle =>
              cases result with
              | error fault => rw [Act.bind_run_error outcome] at ran; cases ran
              | ok value =>
                  rw [Act.bind_run_ok outcome] at ran
                  obtain ⟨output, owed, sameReader, wrote⟩ := filterRecord_writes outcome
                  obtain ⟨between, written⟩ := middle
                  obtain rfl : between = next := sameReader
                  obtain ⟨outputs, others, writes⟩ := ih finished ran
                  exact ⟨output :: outputs, .cons owed others, .more wrote writes⟩

/-- The column of the filtered records. -/
theorem columns_filtered {number : Nat} {numbers : List Nat} {records outputs : List Bytes}
    {columns : List (List Nat)} (columnsOf : List.Forall₂ (ColumnOf number) records columns)
    (filtered : List.Forall₂ (Filtered numbers) records outputs) :
    ∃ after, List.Forall₂ (ColumnOf number) outputs after ∧
      after.flatten = if number ∈ numbers then columns.flatten else [] := by
  induction columnsOf generalizing outputs with
  | nil =>
      cases filtered
      exact ⟨[], .nil, by split <;> rfl⟩
  | cons here _ ih =>
      cases filtered with
      | cons owed others =>
          obtain ⟨after, rest, whole⟩ := ih others
          refine ⟨_ :: after, .cons (here.filtered owed) rest, ?_⟩
          rw [List.flatten_cons, whole]
          split <;> rfl

theorem exists_columnsOf (number : Nat) (records : List Bytes) :
    ∃ columns, List.Forall₂ (ColumnOf number) records columns := by
  induction records with
  | nil => exact ⟨[], .nil⟩
  | cons record rest ih =>
      obtain ⟨column, here⟩ := exists_columnOf number record
      obtain ⟨columns, later⟩ := ih
      exact ⟨column :: columns, .cons here later⟩

/-- Extraction returns the values at the top level of the messages, in order, and
commutes with filtering: a filtered stream has the same column for a wanted
number and an empty one for any other. -/
theorem extractVarintColumn_filters {reader last : RecordReader} {records : List Bytes}
    (reads : Reads ext reader records last)
    (finished : (RecordReader.readRecord ext last).1 = .ok none) (number : Nat) :
    ∃ columns, List.Forall₂ (ColumnOf number) records columns ∧
      (∀ fuel, records.length < fuel → ∃ ended,
        RecordStream.extractVarintColumn ext fuel number reader =
          (.ok columns.flatten, ended)) ∧
      ∀ fuel numbers writer streams,
        RecordStream.filterFieldsToWriter ext fuel numbers (reader, writer) = (.ok (), streams) →
        ∃ outputs, Writes ext writer outputs streams.2 ∧
          ∀ copy copyLast, Reads ext copy outputs copyLast →
            (RecordReader.readRecord ext copyLast).1 = .ok none →
            ∀ fuel, outputs.length < fuel → ∃ ended,
              RecordStream.extractVarintColumn ext fuel number copy =
                (.ok (if number ∈ numbers then columns.flatten else []), ended) := by
  obtain ⟨columns, columnsOf⟩ := exists_columnsOf number records
  refine ⟨columns, columnsOf, fun fuel enough => ?_, fun fuel numbers writer streams ran => ?_⟩
  · exact extractVarintLoop_eq reads finished columnsOf enough
  · obtain ⟨outputs, filtered, writes⟩ := filterFieldsLoop_writes reads finished ran
    obtain ⟨after, afterOf, whole⟩ := columns_filtered columnsOf filtered
    refine ⟨outputs, writes, fun copy copyLast copyReads copyFinished fuel enough => ?_⟩
    obtain ⟨ended, extracted⟩ :=
      @extractVarintLoop_eq ext copy copyLast outputs number copyReads copyFinished 0 fuel [] after
        afterOf enough
    rw [List.nil_append, whole] at extracted
    exact ⟨ended, extracted⟩

/-- The first field of the messages among three records. -/
theorem extractVarintColumn_filters_messages :
    ∃ columns, List.Forall₂ (ColumnOf 1) [[8, 7, 16, 1], [15, 255, 0], [8, 128, 0]] columns ∧
      ∃ ended, RecordStream.extractVarintColumn storingExternals 4 1 messagesReader =
        (.ok columns.flatten, ended) :=
  have reads : Reads storingExternals messagesReader
      [[8, 7, 16, 1], [15, 255, 0], [8, 128, 0]]
      (runReader storingExternals [.readRecord, .readRecord, .readRecord] messagesReader) :=
    .more rfl (.more rfl (.more rfl (.stop _)))
  have ⟨columns, columnsOf, extracts, _⟩ := extractVarintColumn_filters reads rfl 1
  ⟨columns, columnsOf, extracts 4 (Nat.lt_succ_self 3)⟩

end Riegeli
