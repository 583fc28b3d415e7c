/-
Module: Riegeli.Proofs.ProjectedFilters
Purpose: Reading a file under a projection of top-level fields agrees with reading
  it as a whole and filtering its records by the numbers of these fields, and two
  filters one after the other agree with one.
Trusted boundary: the hash, the codecs and the sink
Main exports: FieldTree.topFields_splits, ProjectedRecord.filtered,
  projection_filters, Filtered.again, filters_compose
-/
import Riegeli.Proofs.FilteredFiles

namespace Riegeli

/-! ## The top level of a message -/

/-- The top-level fields of a message, each with its number. -/
def FieldTree.topFields : FieldTree → List (Nat × Bytes)
  | .nil => []
  | .leaf field rest => (field.number, field.bytes) :: rest.topFields
  | .submessage number contents rest =>
      (number, tagBytes number .lengthDelimited ++
        (encodeU32 contents.bytes.length ++ contents.bytes)) :: rest.topFields
  | .group number contents rest =>
      (number, tagBytes number .startGroup ++ (contents.bytes ++ tagBytes number .endGroup)) ::
        rest.topFields

theorem FieldTree.joined_topFields (tree : FieldTree) : joined tree.topFields = tree.bytes := by
  induction tree with
  | nil => rfl
  | leaf field rest ih => rw [topFields, joined_cons, ih, FieldTree.bytes]
  | submessage number contents rest _ ih => rw [topFields, joined_cons, ih, FieldTree.bytes]
  | group number contents rest _ ih => rw [topFields, joined_cons, ih, FieldTree.bytes]

theorem FieldTree.topFields_canonical (tree : FieldTree) (canonical : tree.Canonical) :
    TopFields tree.topFields := by
  induction tree with
  | nil => exact .nil
  | leaf field rest ih =>
      obtain ⟨here, later⟩ := canonical
      cases field with
      | varint number value => exact .varint here.1 here.2 (ih later)
      | fixed32 number bytes => exact .fixed32 here.1 here.2 (ih later)
      | fixed64 number bytes => exact .fixed64 here.1 here.2 (ih later)
      | string number bytes => exact .lengthDelimited here.1 here.2 (ih later)
  | submessage number contents rest _ ih =>
      obtain ⟨valid, fits, _, later⟩ := canonical
      exact .lengthDelimited valid fits (ih later)
  | group number contents rest inside ih =>
      obtain ⟨valid, inner, later⟩ := canonical
      have group := TopFields.group valid (inside inner) (ih later)
      rw [contents.joined_topFields] at group
      exact group

/-- The message of a tree is split into the fields at its top level. -/
theorem FieldTree.topFields_splits (tree : FieldTree) (canonical : tree.Canonical) :
    SplitsInto tree.bytes tree.topFields :=
  ⟨tree.topFields_canonical canonical, tree.joined_topFields⟩

/-! ## Top-level projections -/

/-- The projection of the top-level fields with these numbers. -/
def FieldProjection.topLevel (numbers : List Nat) : FieldProjection :=
  { fields := some (numbers.map fun number => { path := [number], existenceOnly := false }) }

theorem whole_topLevel {numbers : List Nat} {number : Nat} :
    (FieldProjection.topLevel numbers).Whole [number] ↔ numbers.contains number = true := by
  rw [List.contains_iff_mem]
  constructor
  · rintro ⟨field, member, _, leads⟩
    obtain ⟨other, inside, rfl⟩ := List.mem_map.mp member
    have same : other = number := by
      have pair := List.IsPrefix.eq_of_length leads rfl
      exact (List.cons.inj pair).1
    rw [← same]
    exact inside
  · intro inside
    exact ⟨_, List.mem_map.mpr ⟨number, inside, rfl⟩, rfl, List.prefix_refl _⟩

theorem not_through_topLevel {numbers : List Nat} {number : Nat} :
    ¬ (FieldProjection.topLevel numbers).Through [number] := by
  rintro ⟨field, member, leads, differs⟩
  obtain ⟨other, _, rfl⟩ := List.mem_map.mp member
  exact differs (List.IsPrefix.eq_of_length leads rfl)

theorem not_noted_topLevel {numbers : List Nat} {path : List Nat} :
    ¬ (FieldProjection.topLevel numbers).Noted path := by
  rintro ⟨field, member, only, _⟩
  obtain ⟨_, _, rfl⟩ := List.mem_map.mp member
  cases only

/-- Rewriting a message by such a projection keeps the wanted fields and drops the
others. -/
theorem rewritten_topLevel (numbers : List Nat) (tree : FieldTree) :
    tree.rewritten (.topLevel numbers) [] = keptFields numbers tree.topFields := by
  induction tree with
  | nil => rfl
  | leaf field rest ih =>
      rw [FieldTree.rewritten, FieldTree.topFields, keptFields_cons, ih]
      dsimp only [List.nil_append]
      rw [if_neg not_through_topLevel, if_neg not_noted_topLevel]
      simp only [whole_topLevel]
  | submessage number contents rest _ ih =>
      rw [FieldTree.rewritten, FieldTree.topFields, keptFields_cons, ih]
      dsimp only [List.nil_append]
      rw [if_neg not_through_topLevel, if_neg not_noted_topLevel]
      simp only [whole_topLevel]
  | group number contents rest _ ih =>
      rw [FieldTree.rewritten, FieldTree.topFields, keptFields_cons, ih]
      dsimp only [List.nil_append]
      rw [if_neg not_through_topLevel, if_neg not_noted_topLevel]
      simp only [whole_topLevel]

/-- What such a projection leaves of a record that can be filtered is what the
filter leaves of it. -/
theorem ProjectedRecord.filtered {numbers : List Nat} {record left : Bytes}
    (projected : ProjectedRecord (.topLevel numbers) record left) (able : filterable record = true) :
    Filtered numbers record left := by
  cases projected with
  | @proto fields valid canonical _ =>
      refine filtered_of_filterFields valid ?_
      rw [rewritten_topLevel]
      exact filterFields_keeps numbers (fields.topFields_splits canonical)
  | nonProto invalid =>
      rw [filterable, invalid, Bool.false_or, Bool.not_eq_true'] at able
      exact .inr ⟨able, rfl⟩

theorem named_topLevel {numbers : List Nat} (few : numbers.length < 2 ^ 32) :
    (FieldProjection.topLevel numbers).Named
      (numbers.map fun number => { path := [number], existenceOnly := false }) := by
  refine ⟨rfl, fun field member => ?_, ?_⟩
  · obtain ⟨_, _, rfl⟩ := List.mem_map.mp member
    exact List.cons_ne_nil _ _
  · rw [List.map_map]
    have ones : (numbers.map ((fun field : Field => field.path.length) ∘
        fun number => { path := [number], existenceOnly := false })).sum = numbers.length := by
      induction numbers with
      | nil => rfl
      | cons number rest ih =>
          rw [List.map_cons, List.sum_cons, ih (Nat.lt_of_succ_lt few), List.length_cons,
            Nat.add_comm]
          rfl
    rw [ones]
    exact few

section Files

variable {ext : Externals} {options : WriterOptions} {ops : List WriterOp} {source : Bytes}
  {writer after : RecordWriter}

/-- Reading a transposed file under a projection of top-level fields returns what
the field filter makes of its records. -/
theorem projection_filters (lawful : ext.Lawful)
    (complete : CompleteFile ext options ops source writer after)
    (transposed : options.transpose = true)
    (able : ∀ record ∈ writtenRecords ops, filterable record = true) {numbers : List Nat}
    (few : numbers.length < 2 ^ 32) {reading : ReaderOptions}
    (unwavering : Unwavering reading.recovery)
    (asked : reading.fieldProjection = some (.topLevel numbers)) :
    ∃ outputs, List.Forall₂ (Filtered numbers) (writtenRecords ops) outputs ∧
      ReadsBack ext reading source outputs := by
  obtain ⟨held, holds, projected⟩ := complete.holdsAs lawful (named_topLevel few)
  rw [← asked] at holds
  refine ⟨heldRecords held, ?_, holds.reads unwavering⟩
  clear holds
  generalize heldRecords held = left at projected ⊢
  generalize writtenRecords ops = records at able projected
  induction projected with
  | nil => exact .nil
  | cons here _ ih =>
      obtain ⟨first, others⟩ := List.forall_mem_cons.mp able
      rw [ReadAs, if_pos transposed] at here
      exact .cons (here.filtered first) (ih others)

theorem projection_filters_column :
    ∃ outputs, List.Forall₂ (Filtered [2]) [[10, 4, 8, 1, 16, 2, 16, 150, 1], [255], [16, 7]]
        outputs ∧
      ReadsBack storingExternals
        { ReaderOptions.new with fieldProjection := some (.topLevel [2]) }
        columnFlushed.sink.bytes outputs :=
  @projection_filters storingExternals _ _ _ _ _ storingExternals_lawful columnFile_complete rfl
    (by decide) [2] (by decide) { ReaderOptions.new with fieldProjection := some (.topLevel [2]) }
    (fun _ given => by cases given) rfl

end Files

/-! ## One filter after another -/

/-- The numbers of both filters. -/
def bothNumbers (first second : List Nat) : List Nat := first.filter fun number => second.contains number

theorem keptFields_again (first second : List Nat) (fields : List (Nat × Bytes)) :
    keptFields second (fields.filter fun field => first.contains field.1) =
      keptFields (bothNumbers first second) fields := by
  unfold keptFields
  rw [List.filter_filter]
  congr 2
  funext field
  rw [Bool.eq_iff_iff, Bool.and_eq_true]
  simp only [bothNumbers, List.contains_iff_mem, List.mem_filter]
  exact and_comm

/-- Filtering what a filter has left keeps the fields that both want. -/
theorem Filtered.again {first second : List Nat} {record middle output : Bytes}
    (once : Filtered first record middle) (twice : Filtered second middle output) :
    Filtered (bothNumbers first second) record output := by
  rcases once with ⟨valid, ⟨fields, splits⟩, keeps⟩ | ⟨foreign, rfl⟩
  · obtain rfl := keeps fields splits
    have kept : SplitsInto (keptFields first fields)
        (fields.filter fun field => first.contains field.1) := ⟨splits.1.filter _, rfl⟩
    refine filtered_of_filterFields valid ?_
    rcases twice with ⟨_, _, again⟩ | ⟨foreign, _⟩
    · rw [filterFields_keeps _ splits, again _ kept, keptFields_again]
    · rw [isParseable_of_isProtoMessage (isProtoMessage_of_splits kept)] at foreign
      cases foreign
  · rcases twice with ⟨valid, _⟩ | ⟨_, rfl⟩
    · rw [isParseable_of_isProtoMessage valid] at foreign
      cases foreign
    · exact .inr ⟨foreign, rfl⟩

theorem filtered_again {first second : List Nat} {records middles outputs : List Bytes}
    (once : List.Forall₂ (Filtered first) records middles)
    (twice : List.Forall₂ (Filtered second) middles outputs) :
    List.Forall₂ (Filtered (bothNumbers first second)) records outputs := by
  induction once generalizing outputs with
  | nil =>
      cases twice
      exact .nil
  | cons here _ ih =>
      cases twice with
      | cons again others => exact .cons (here.again again) (ih others)

/-- Filtering the records of a reader and then what has been written of them, as any
other reader reads it, keeps the fields that both filters want. -/
theorem filters_compose {ext : Externals} {reader last : RecordReader} {records : List Bytes}
    (reads : Reads ext reader records last)
    (finished : (RecordReader.readRecord ext last).1 = .ok none) {first : List Nat} {fuel : Nat}
    {writer : RecordWriter} {streams : RecordStream.Streams}
    (ran : RecordStream.filterFieldsToWriter ext fuel first (reader, writer) = (.ok (), streams)) :
    ∃ middles, Writes ext writer middles streams.2 ∧
      ∀ copy copyLast, Reads ext copy middles copyLast →
        (RecordReader.readRecord ext copyLast).1 = .ok none →
        ∀ fuel second copyWriter copied,
          RecordStream.filterFieldsToWriter ext fuel second (copy, copyWriter) = (.ok (), copied) →
          ∃ outputs, List.Forall₂ (Filtered (bothNumbers first second)) records outputs ∧
            Writes ext copyWriter outputs copied.2 := by
  obtain ⟨middles, once, writes⟩ := filterFieldsLoop_writes reads finished ran
  refine ⟨middles, writes, fun copy copyLast again ends fuel second copyWriter copied ranAgain => ?_⟩
  obtain ⟨outputs, twice, wrote⟩ := filterFieldsLoop_writes again ends ranAgain
  exact ⟨outputs, filtered_again once twice, wrote⟩

theorem filters_compose_mixed :
    ∃ middles, Writes storingExternals plainWriter middles mixedFiltered.2 ∧
      ∀ copy copyLast, Reads storingExternals copy middles copyLast →
        (RecordReader.readRecord storingExternals copyLast).1 = .ok none →
        ∀ fuel second copyWriter copied,
          RecordStream.filterFieldsToWriter storingExternals fuel second (copy, copyWriter) =
            (.ok (), copied) →
          ∃ outputs, List.Forall₂ (Filtered (bothNumbers [1] second))
              [[8, 7, 16, 1], [15, 255, 0]] outputs ∧
            Writes storingExternals copyWriter outputs copied.2 := by
  obtain ⟨_, reads, finished⟩ := mixedFile_complete.handsOver storingExternals_lawful
    (fun _ given => by cases given) rfl
    (mixedFile_complete.opens storingExternals_lawful ReaderOptions.new)
  exact @filters_compose storingExternals _ _ _ reads finished [1] 3 plainWriter mixedFiltered
    (Prod.ext (by decide) rfl)

end Riegeli
