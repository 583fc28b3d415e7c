/-
Module: Riegeli.Proofs.RecordFiltering
Purpose: Filtering a stream of records keeps of each proto message exactly its
  wanted top-level fields, and refuses the first message it cannot filter.
Trusted boundary: the hash, the codecs and the sink
Main exports: Filtered, Writes, filterFieldsToWriter_filters
-/
import Riegeli.Core.RecordStream
import Riegeli.Proofs.FieldFilter
import Riegeli.Proofs.FieldRoundTrip
import Riegeli.Proofs.InspectionCalls
import Riegeli.Proofs.WriterLayout

namespace Riegeli

/-! ## One record -/

/-- What filtering owes for a record. -/
def Filtered (numbers : List Nat) (record output : Bytes) : Prop :=
  (isProtoMessage record = true ∧ (∃ fields, SplitsInto record fields) ∧
      ∀ fields, SplitsInto record fields → output = keptFields numbers fields) ∨
    (isParseableProtoMessage record = false ∧ output = record)

/-- The record can be filtered or is no message at all. -/
def filterable (record : Bytes) : Bool :=
  isProtoMessage record || !isParseableProtoMessage record

theorem filterFields_keeps {record : Bytes} {fields : List (Nat × Bytes)} (numbers : List Nat)
    (splits : SplitsInto record fields) :
    RecordStream.filterFields record numbers = .ok (keptFields numbers fields) := by
  unfold RecordStream.filterFields
  rw [copyFields_keeps splits]
  rfl

/-- What filtering a message returns is what it owes. -/
theorem filtered_of_filterFields {numbers : List Nat} {record output : Bytes}
    (valid : isProtoMessage record = true)
    (filters : RecordStream.filterFields record numbers = .ok output) :
    Filtered numbers record output := by
  refine Or.inl ⟨valid, isProtoMessage_splits valid, fun fields splits => ?_⟩
  rw [filterFields_keeps numbers splits] at filters
  exact (Except.ok.inj filters).symm

/-- A record that can be filtered has an output. -/
theorem exists_filtered (numbers : List Nat) {record : Bytes} (able : filterable record = true) :
    ∃ output, Filtered numbers record output := by
  unfold filterable at able
  cases valid : isProtoMessage record with
  | true =>
      obtain ⟨fields, splits⟩ := isProtoMessage_splits valid
      exact ⟨keptFields numbers fields,
        filtered_of_filterFields valid (filterFields_keeps numbers splits)⟩
  | false =>
      rw [valid, Bool.false_or, Bool.not_eq_true'] at able
      exact ⟨record, Or.inr ⟨able, rfl⟩⟩

theorem TopFields.length_pos {fields : List (Nat × Bytes)} (top : TopFields fields) :
    ∀ field ∈ fields, 0 < field.2.length := by
  have tagged : ∀ number wireType (value : Bytes),
      0 < (tagBytes number wireType ++ value).length := by
    intro number wireType value
    have positive := encodeU64_length_pos (number * 8 + wireType.toNat)
    simp only [List.length_append, tagBytes, encodeU32]
    omega
  induction top with
  | nil => exact fun _ member => absurd member List.not_mem_nil
  | varint _ _ _ ih => exact List.forall_mem_cons.mpr ⟨tagged _ _ _, ih⟩
  | fixed32 _ _ _ ih => exact List.forall_mem_cons.mpr ⟨tagged _ _ _, ih⟩
  | fixed64 _ _ _ ih => exact List.forall_mem_cons.mpr ⟨tagged _ _ _, ih⟩
  | lengthDelimited _ _ _ ih => exact List.forall_mem_cons.mpr ⟨tagged _ _ _, ih⟩
  | group _ _ _ _ ih => exact List.forall_mem_cons.mpr ⟨tagged _ _ _, ih⟩

theorem joined_filter_length (wanted : Nat × Bytes → Bool) (fields : List (Nat × Bytes)) :
    (joined (fields.filter wanted)).length ≤ (joined fields).length := by
  induction fields with
  | nil => exact Nat.le_refl _
  | cons field rest ih =>
      rw [List.filter_cons]
      split <;> simp only [joined_cons, List.length_append] <;> omega

/-- Fields of which nothing is dropped are all wanted. -/
theorem wanted_of_kept {wanted : Nat × Bytes → Bool} {fields : List (Nat × Bytes)}
    (filled : ∀ field ∈ fields, 0 < field.2.length)
    (kept : joined (fields.filter wanted) = joined fields) :
    ∀ field ∈ fields, wanted field = true := by
  induction fields with
  | nil => exact fun _ member => nomatch member
  | cons field rest ih =>
      obtain ⟨here, later⟩ := List.forall_mem_cons.mp filled
      rw [List.filter_cons] at kept
      split at kept
      · rename_i taken
        exact List.forall_mem_cons.mpr ⟨taken, ih later (List.append_cancel_left kept)⟩
      · have shorter := joined_filter_length wanted rest
        have same := congrArg List.length kept
        simp only [joined_cons, List.length_append] at same
        omega

/-- No unwanted top-level field of a message is written. -/
theorem Filtered.wanted {numbers : List Nat} {record output : Bytes}
    (filtered : Filtered numbers record output)
    (parseable : isParseableProtoMessage record = true) :
    (∃ fields, SplitsInto output fields) ∧
      ∀ fields, SplitsInto output fields → ∀ field ∈ fields, field.1 ∈ numbers := by
  rcases filtered with ⟨_, ⟨fields, splits⟩, keeps⟩ | ⟨foreign, _⟩
  · have kept := keeps fields splits
    have left : SplitsInto output (fields.filter fun field => numbers.contains field.1) :=
      ⟨splits.1.filter _, kept.symm⟩
    refine ⟨⟨_, left⟩, fun others again field member => ?_⟩
    -- both splits are copied the same, and nothing of the first one is dropped
    have copied := @copyFields_keeps output numbers _ left
    rw [@copyFields_keeps output numbers _ again] at copied
    have same := congrArg (fun run => run.2.buf) copied
    simp only [keptFields, List.filter_filter, Bool.and_self] at same
    have whole : joined (others.filter fun field => numbers.contains field.1) = joined others := by
      rw [same, again.2]
      exact kept.symm
    exact List.contains_iff_mem.mp (wanted_of_kept again.1.length_pos whole field member)
  · rw [parseable] at foreign
    cases foreign

/-! ## The stream -/

variable (ext : Externals)

/-- The writer takes these records one after the other. -/
inductive Writes : RecordWriter → List Bytes → RecordWriter → Prop where
  | stop (writer : RecordWriter) : Writes writer [] writer
  | more {writer next after : RecordWriter} {record : Bytes} {records : List Bytes} :
      RecordWriter.writeRecord ext record writer = (.ok (), next) → Writes next records after →
      Writes writer (record :: records) after

/-- How filtering ends: at the first record that cannot be filtered, if there
is one. -/
def filterVerdict (index : Nat) (records : List Bytes) : Except StreamFault Unit :=
  if records.all filterable then .ok ()
  else
    .error (.error
      { recordIndex := index + (records.takeWhile filterable).length
        source := RecordStream.nonCanonical })

variable {ext}

/-- One record that can be filtered. -/
theorem filterRecord_filtered {numbers : List Nat} {record output : Bytes} (index : Nat)
    {writer next : RecordWriter} (reader : RecordReader) (filtered : Filtered numbers record output)
    (writes : RecordWriter.writeRecord ext output writer = (.ok (), next)) :
    RecordStream.filterRecord ext numbers index record (reader, writer) =
      (.ok (), (reader, next)) := by
  have written : RecordStream.onWriter index (RecordWriter.writeRecord ext output)
      (reader, writer) = (.ok (), (reader, next)) := by
    unfold RecordStream.onWriter
    rw [writes]
  unfold RecordStream.filterRecord
  rcases filtered with ⟨valid, ⟨fields, splits⟩, keeps⟩ | ⟨foreign, rfl⟩
  · rw [if_pos valid, filterFields_keeps numbers splits, ← keeps fields splits]
    exact written
  · have notValid : ¬ isProtoMessage output = true := by
      intro valid
      rw [isParseable_of_isProtoMessage valid] at foreign
      cases foreign
    rw [if_neg notValid, if_neg (by rw [foreign]; decide)]
    exact written

/-- One record that cannot be filtered. -/
theorem filterRecord_refused {record : Bytes} (numbers : List Nat) (index : Nat)
    (streams : RecordStream.Streams) (refused : filterable record = false) :
    RecordStream.filterRecord ext numbers index record streams =
      (.error (.error { recordIndex := index, source := RecordStream.nonCanonical }), streams) := by
  simp only [filterable, Bool.or_eq_false_iff, Bool.not_eq_false'] at refused
  unfold RecordStream.filterRecord
  rw [if_neg (by rw [refused.1]; decide), if_pos refused.2]
  rfl

/-- The records before the first refused one are filtered, and nothing else is
written. -/
theorem filterFieldsLoop_filters {reader last : RecordReader} {records : List Bytes}
    (numbers : List Nat) (reads : Reads ext reader records last)
    (finished : (RecordReader.readRecord ext last).1 = .ok none) :
    ∀ {index fuel : Nat} {outputs : List Bytes} {writer after : RecordWriter},
      List.Forall₂ (Filtered numbers) (records.takeWhile filterable) outputs →
      Writes ext writer outputs after → records.length < fuel →
      ∃ ended, RecordStream.filterFieldsLoop ext numbers fuel index (reader, writer) =
        (filterVerdict index records, (ended, after)) := by
  induction reads with
  | stop reader =>
      intro index fuel outputs writer after filtered writes enough
      obtain ⟨fuel, rfl⟩ : ∃ less, fuel = less + 1 := ⟨fuel - 1, by omega⟩
      cases filtered
      cases writes
      refine ⟨(RecordReader.readRecord ext reader).2, ?_⟩
      have read : RecordStream.onReader index (RecordReader.readRecord ext) (reader, writer) =
          (.ok none, ((RecordReader.readRecord ext reader).2, writer)) := by
        unfold RecordStream.onReader
        rw [show RecordReader.readRecord ext reader =
          (.ok none, (RecordReader.readRecord ext reader).2) from Prod.ext finished rfl]
      rw [RecordStream.filterFieldsLoop, Act.bind_run_ok read]
      rfl
  | @more reader next last record records handed _ ih =>
      intro index fuel outputs writer after filtered writes enough
      obtain ⟨fuel, rfl⟩ : ∃ less, fuel = less + 1 := ⟨fuel - 1, by omega⟩
      have read : RecordStream.onReader index (RecordReader.readRecord ext) (reader, writer) =
          (.ok (some record), (next, writer)) := by
        unfold RecordStream.onReader
        rw [handed]
      rw [RecordStream.filterFieldsLoop, Act.bind_run_ok read]
      simp only
      cases able : filterable record with
      | false =>
          rw [List.takeWhile_cons, able] at filtered
          cases filtered
          cases writes
          refine ⟨next, ?_⟩
          rw [Act.bind_run_error (filterRecord_refused numbers index _ able)]
          simp [filterVerdict, able]
      | true =>
          rw [List.takeWhile_cons, able] at filtered
          cases filtered with
          | cons owed others =>
              cases writes with
              | more wrote later =>
                  obtain ⟨ended, ran⟩ := ih finished others later (by simpa using enough)
                  refine ⟨ended, ?_⟩
                  rw [Act.bind_run_ok (filterRecord_filtered index next owed wrote), ran]
                  congr 1
                  simp only [filterVerdict, List.all_cons, able, Bool.true_and,
                    List.takeWhile_cons, if_true, List.length_cons]
                  rw [show index + ((records.takeWhile filterable).length + 1) =
                    index + 1 + (records.takeWhile filterable).length by omega]

theorem exists_outputs (numbers : List Nat) {records : List Bytes}
    (able : ∀ record ∈ records, filterable record = true) :
    ∃ outputs, List.Forall₂ (Filtered numbers) records outputs := by
  induction records with
  | nil => exact ⟨[], .nil⟩
  | cons record rest ih =>
      obtain ⟨here, later⟩ := List.forall_mem_cons.mp able
      obtain ⟨output, owed⟩ := exists_filtered numbers here
      obtain ⟨outputs, others⟩ := ih later
      exact ⟨output :: outputs, .cons owed others⟩

/-- Filtering a stream of records writes for each proto message exactly its
wanted top-level fields, other records as they are, and stops at the first
message that is not canonical. -/
theorem filterFieldsToWriter_filters {reader last : RecordReader} {records : List Bytes}
    (reads : Reads ext reader records last)
    (finished : (RecordReader.readRecord ext last).1 = .ok none) (numbers : List Nat) :
    (∃ outputs, List.Forall₂ (Filtered numbers) (records.takeWhile filterable) outputs) ∧
    (∀ outputs writer after fuel,
      List.Forall₂ (Filtered numbers) (records.takeWhile filterable) outputs →
      Writes ext writer outputs after → records.length < fuel →
      ∃ ended, RecordStream.filterFieldsToWriter ext fuel numbers (reader, writer) =
        (filterVerdict 0 records, (ended, after))) ∧
    (∀ record output, Filtered numbers record output → isParseableProtoMessage record = true →
      (∃ fields, SplitsInto output fields) ∧
        ∀ fields, SplitsInto output fields → ∀ field ∈ fields, field.1 ∈ numbers) := by
  refine ⟨?_, ?_, ?_⟩
  · exact exists_outputs numbers fun record member => List.all_eq_true.mp List.all_takeWhile record member
  · intro outputs writer after fuel filtered writes enough
    exact filterFieldsLoop_filters numbers reads finished filtered writes enough
  · intro record output filtered parseable
    exact filtered.wanted parseable

/-- Three records in a simple chunk: a message, no message, and a message with
an overlong varint. -/
def messagesData : Bytes := [0, 3, 4, 3, 3] ++ [8, 7, 16, 1] ++ [15, 255, 0] ++ [8, 128, 0]

/-- A file with these records. -/
def messagesSource : Bytes :=
  preambleSource ++
    (ChunkHeader.fromParts storingExternals messagesData .simple 3 10).toBytes ++ messagesData

/-- The reader that is opened on it. -/
def messagesReader : RecordReader := RecordReader.initial messagesSource ReaderOptions.new

theorem filterFieldsToWriter_filters_messages :
    ∃ ended, RecordStream.filterFieldsToWriter storingExternals 4 [1]
        (messagesReader, plainWriter) =
      (.error (.error { recordIndex := 2, source := RecordStream.nonCanonical }),
        (ended, runWriter storingExternals [.writeRecord [8, 7], .writeRecord [15, 255, 0]]
          plainWriter)) :=
  have reads : Reads storingExternals messagesReader
      [[8, 7, 16, 1], [15, 255, 0], [8, 128, 0]]
      (runReader storingExternals [.readRecord, .readRecord, .readRecord] messagesReader) :=
    .more rfl (.more rfl (.more rfl (.stop _)))
  have filters := filterFieldsToWriter_filters reads rfl [1]
  filters.2.1 [[8, 7], [15, 255, 0]] plainWriter _ 4
    (.cons (filtered_of_filterFields (by decide) rfl) (.cons (Or.inr ⟨by decide, rfl⟩) .nil))
    (.more rfl (.more rfl (.stop _))) (by decide)

end Riegeli
