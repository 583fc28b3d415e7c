/-
Module: Riegeli.Proofs.BufferPruning
Purpose: The flat scan of the tags marks every buffer that a decode under
  existence-only fields can read, so pruning the others changes nothing.
Trusted boundary: the hash and the codecs
Main exports: decompressIntoBuffers_prunes, buildNodesLoop_scanned,
  effectiveCallback_reads, parseHeaderAndBuckets_prunes, pruning_exact
-/
import Riegeli.Proofs.BucketSplit
import Riegeli.Proofs.BufferAgreement

namespace Riegeli

variable {ext : Externals}

/-! ## Fewer buckets -/

/-- Every buffer gets a bucket. -/
theorem assignBuffers_length {sizes : List Nat} (bufferSizes : List Nat) :
    ∀ {index bucketIndex bucketRemaining : Nat} {assigned : List Nat} {last : Nat × Nat},
      assignBuffers sizes bufferSizes index bucketIndex bucketRemaining = .ok (assigned, last) →
      assigned.length = bufferSizes.length := by
  induction bufferSizes with
  | nil =>
      intro index bucketIndex bucketRemaining assigned last ran
      cases ran
      rfl
  | cons bufSize rest ih =>
      intro index bucketIndex bucketRemaining assigned last ran
      rw [assignBuffers] at ran
      by_cases short : bucketRemaining < bufSize
      · rw [if_pos short] at ran
        cases ran
      rw [if_neg short] at ran
      obtain ⟨remaining, _, ran⟩ := Except.bind_eq_ok.mp ran
      obtain ⟨⟨nextIndex, nextRemaining⟩, _, ran⟩ := Except.bind_eq_ok.mp ran
      obtain ⟨⟨later, reached⟩, laterRan, ran⟩ := Except.bind_eq_ok.mp ran
      cases ran
      rw [List.length_cons, List.length_cons, ih laterRan]

theorem computeBufferToBucket_length {buckets : List Bytes} {bufferSizes : List Nat}
    {compression : CompressionType} {assigned : List Nat}
    (ran : computeBufferToBucket buckets bufferSizes compression = .ok assigned) :
    assigned.length = bufferSizes.length := by
  unfold computeBufferToBucket at ran
  by_cases bucketless : buckets.length = 0
  · rw [if_pos bucketless] at ran
    by_cases buffered : bufferSizes.length ≠ 0
    · rw [if_pos buffered] at ran
      cases ran
    · rw [if_neg buffered] at ran
      cases ran
      exact (not_not.mp buffered).symm
  rw [if_neg bucketless] at ran
  obtain ⟨sizes, _, ran⟩ := Except.bind_eq_ok.mp ran
  obtain ⟨first, _, ran⟩ := Except.bind_eq_ok.mp ran
  obtain ⟨⟨result, bucketIndex, bucketRemaining⟩, assignRan, ran⟩ := Except.bind_eq_ok.mp ran
  simp only at ran
  by_cases early : bucketIndex + 1 < buckets.length
  · rw [if_pos early] at ran
    cases ran
  rw [if_neg early] at ran
  by_cases left : 0 < bucketRemaining
  · rw [if_pos left] at ran
    cases ran
  rw [if_neg left] at ran
  cases ran
  exact assignBuffers_length bufferSizes assignRan

/-- With every buffer needed, all buckets of the buffers are marked. -/
theorem markBuckets_all (assigned : List Nat) :
    ∀ {count : Nat} {marks marked : List Bool}, assigned.length ≤ count →
      markBuckets (List.replicate count true) assigned marks = .ok marked →
      marked.length = marks.length ∧ (∀ bucket ∈ assigned, bucket < marks.length) ∧
        (∀ bucket : Nat, marks[bucket]? = some true → marked[bucket]? = some true) ∧
        ∀ bucket ∈ assigned, marked[bucket]? = some true := by
  induction assigned with
  | nil =>
      intro count marks marked _ ran
      have unmarked : marked = marks := by
        cases count with
        | zero =>
            cases ran
            rfl
        | succ count =>
            cases ran
            rfl
      subst unmarked
      exact ⟨rfl, List.forall_mem_nil _, fun _ same => same, List.forall_mem_nil _⟩
  | cons first rest ih =>
      intro count marks marked counted ran
      obtain ⟨count, rfl⟩ : ∃ fewer, count = fewer + 1 := ⟨count - 1, by
        rw [List.length_cons] at counted
        omega⟩
      rw [List.replicate_succ, markBuckets, if_pos rfl] at ran
      obtain ⟨set, setRan, ran⟩ := Except.bind_eq_ok.mp ran
      have inside : first < marks.length := by
        by_contra outside
        rw [setAt, if_neg outside] at setRan
        cases setRan
      rw [setAt_eq inside] at setRan
      cases setRan
      obtain ⟨length, bounds, kept, all⟩ := ih (Nat.le_of_succ_le_succ counted) ran
      rw [List.length_set] at length bounds
      have here : marked[first]? = some true := kept first (List.getElem?_set_self inside)
      refine ⟨length, List.forall_mem_cons.mpr ⟨inside, bounds⟩, ?_,
        List.forall_mem_cons.mpr ⟨here, all⟩⟩
      intro bucket same
      by_cases equal : first = bucket
      · rw [← equal]
        exact here
      · apply kept
        rw [List.getElem?_set_ne equal, same]

/-- Only the buckets of the buffers are marked. -/
theorem markBuckets_only (needed : List Bool) :
    ∀ {assigned : List Nat} {marks marked : List Bool},
      markBuckets needed assigned marks = .ok marked →
      ∀ bucket : Nat, marked[bucket]? = some true → marks[bucket]? = some true ∨ bucket ∈ assigned := by
  induction needed with
  | nil =>
      intro assigned marks marked ran bucket flagged
      cases ran
      exact .inl flagged
  | cons flag needed ih =>
      intro assigned marks marked ran bucket flagged
      cases assigned with
      | nil =>
          cases ran
          exact .inl flagged
      | cons first rest =>
          cases flag with
          | false =>
              rw [markBuckets, if_neg Bool.false_ne_true] at ran
              exact (ih ran bucket flagged).imp_right (List.mem_cons_of_mem first)
          | true =>
              rw [markBuckets, if_pos rfl] at ran
              obtain ⟨set, setRan, ran⟩ := Except.bind_eq_ok.mp ran
              by_cases equal : bucket = first
              · rw [equal]
                exact .inr (List.mem_cons_self ..)
              rcases ih ran bucket flagged with before | after
              · by_cases inside : first < marks.length
                · rw [setAt_eq inside] at setRan
                  cases setRan
                  rw [List.getElem?_set_ne (Ne.symm equal)] at before
                  exact .inl before
                · rw [setAt, if_neg inside] at setRan
                  cases setRan
              · exact .inr (List.mem_cons_of_mem first after)

/-- Opening fewer buckets succeeds, and those are opened to the same bytes. -/
theorem decompressBuckets_fewer {compression : CompressionType} {marks fewer : List Bool}
    (length : fewer.length = marks.length)
    (among : ∀ bucket : Nat, fewer[bucket]? = some true → marks[bucket]? = some true)
    (buckets : List Bytes) :
    ∀ {index : Nat} {opened : List (Option Bytes)},
      decompressBuckets ext compression marks buckets index = .ok opened →
      ∃ opened', decompressBuckets ext compression fewer buckets index = .ok opened' ∧
        ∀ bucket : Nat, fewer[index + bucket]? = some true → opened'[bucket]? = opened[bucket]? := by
  induction buckets with
  | nil =>
      intro index opened ran
      cases ran
      exact ⟨[], rfl, fun _ _ => rfl⟩
  | cons compressed rest ih =>
      intro index opened ran
      obtain ⟨flag, flagAt, ran⟩ := Except.bind_eq_ok.mp ran
      obtain ⟨entry, entryRan, ran⟩ := Except.bind_eq_ok.mp ran
      obtain ⟨later, laterRan, ran⟩ := Except.bind_eq_ok.mp ran
      cases ran
      obtain ⟨later', laterToo, same⟩ := ih laterRan
      have inside : index < fewer.length := by
        rw [length]
        exact (List.getElem?_eq_some_iff.mp (indexAt_eq_ok.mp flagAt)).1
      obtain ⟨entry', entryToo, entrySame⟩ : ∃ entry',
          decompressBucket ext compression index fewer[index] compressed = .ok entry' ∧
            (fewer[index] = true → entry' = entry) := by
        by_cases wanted : fewer[index] = true
        · have flagged := among index (by rw [List.getElem?_eq_getElem inside, wanted])
          rw [indexAt_eq_ok.mp flagAt] at flagged
          refine ⟨entry, ?_, fun _ => rfl⟩
          rw [wanted, ← Option.some.inj flagged]
          exact entryRan
        · exact ⟨none, if_neg wanted, fun flagged => absurd flagged wanted⟩
      refine ⟨entry' :: later', ?_, ?_⟩
      · rw [decompressBuckets, indexAt_eq inside, Except.ok_bind, entryToo, Except.ok_bind,
          laterToo, Except.ok_bind]
      · intro bucket wanted
        cases bucket with
        | zero =>
            rw [Nat.add_zero, List.getElem?_eq_getElem inside] at wanted
            rw [entrySame (Option.some.inj wanted)]
            rfl
        | succ bucket =>
            exact same bucket (by rw [← wanted, Nat.add_assoc, Nat.add_comm 1])

/-- Taking out fewer buffers: those come out the same. -/
theorem extractBuffers_fewer {assigned : List Nat} {needed : List Bool} {count : Nat}
    {opened fewer : List (Option Bytes)}
    (same : ∀ index bucket : Nat, needed[index]? = some true → assigned[index]? = some bucket →
      fewer[bucket]? = opened[bucket]?) (bufferSizes : List Nat) :
    ∀ {index : Nat} {offsets : List Nat} {cursors : List BufferCursor},
      index + bufferSizes.length ≤ needed.length →
      extractBuffers assigned (List.replicate count true) opened bufferSizes index offsets =
        .ok cursors →
      cursors.length = bufferSizes.length ∧ (∀ cursor ∈ cursors, cursor.pruned = false) ∧
        ∃ cursors', extractBuffers assigned needed fewer bufferSizes index offsets = .ok cursors' ∧
          cursors'.length = cursors.length ∧
          ∀ place : Nat, needed[index + place]? = some true → cursors'[place]? = cursors[place]? := by
  induction bufferSizes with
  | nil =>
      intro index offsets cursors _ ran
      cases ran
      exact ⟨rfl, List.forall_mem_nil _, [], rfl, rfl, fun _ _ => rfl⟩
  | cons bufSize rest ih =>
      intro index offsets cursors inside ran
      rw [List.length_cons] at inside
      obtain ⟨bucket, bucketAt, ran⟩ := Except.bind_eq_ok.mp ran
      obtain ⟨offset, offsetAt, ran⟩ := Except.bind_eq_ok.mp ran
      obtain ⟨cursor, cursorRan, ran⟩ := Except.bind_eq_ok.mp ran
      obtain ⟨moved, movedRan, ran⟩ := Except.bind_eq_ok.mp ran
      obtain ⟨later, laterRan, ran⟩ := Except.bind_eq_ok.mp ran
      cases ran
      obtain ⟨length, live, later', laterToo, lengthToo, laterSame⟩ := ih (by omega) laterRan
      have wantedAll : (List.replicate count true).getD index true = true := by
        rw [List.getD_eq_getElem?_getD, List.getElem?_replicate]
        by_cases within : index < count
        · rw [if_pos within]
          rfl
        · rw [if_neg within]
          rfl
      rw [wantedAll] at cursorRan
      have cursorLive : cursor.pruned = false := by
        obtain ⟨entry, _, cursorRan⟩ := Except.bind_eq_ok.mp cursorRan
        cases entry with
        | none => cases cursorRan
        | some bytes =>
            simp only at cursorRan
            by_cases long : bytes.length < offset + bufSize
            · rw [if_pos long] at cursorRan
              cases cursorRan
            rw [if_neg long] at cursorRan
            obtain ⟨slice, _, cursorRan⟩ := Except.bind_eq_ok.mp cursorRan
            cases cursorRan
            rfl
      have flagAt : needed.getD index true = needed[index] := by
        rw [List.getD_eq_getElem?_getD, List.getElem?_eq_getElem (by omega)]
        rfl
      obtain ⟨cursor', cursorToo, cursorSame⟩ : ∃ cursor',
          extractBuffer fewer index bufSize bucket offset needed[index] = .ok cursor' ∧
            (needed[index] = true → cursor' = cursor) := by
        by_cases wanted : needed[index] = true
        · have entrySame := same index bucket (by rw [List.getElem?_eq_getElem (by omega), wanted])
            (indexAt_eq_ok.mp bucketAt)
          refine ⟨cursor, ?_, fun _ => rfl⟩
          rw [wanted]
          obtain ⟨entry, entryAt, cursorRan⟩ := Except.bind_eq_ok.mp cursorRan
          refine Except.bind_eq_ok.mpr ⟨entry, ?_, cursorRan⟩
          rw [indexAt_eq_ok, entrySame, indexAt_eq_ok.mp entryAt]
        · exact ⟨_, if_neg wanted, fun flagged => absurd flagged wanted⟩
      refine ⟨by rw [List.length_cons, List.length_cons, length],
        List.forall_mem_cons.mpr ⟨cursorLive, live⟩, cursor' :: later', ?_, ?_, ?_⟩
      · rw [extractBuffers, bucketAt, Except.ok_bind, offsetAt, Except.ok_bind, flagAt, cursorToo,
          Except.ok_bind, movedRan, Except.ok_bind, laterToo, Except.ok_bind]
      · rw [List.length_cons, List.length_cons, lengthToo]
      · intro place wanted
        cases place with
        | zero =>
            rw [Nat.add_zero, List.getElem?_eq_getElem (by omega)] at wanted
            rw [cursorSame (Option.some.inj wanted)]
            rfl
        | succ place =>
            exact laterSame place (by rw [← wanted, Nat.add_assoc, Nat.add_comm 1])

/-- Where all buffers can be opened, so can some of them, to the same bytes. -/
theorem decompressIntoBuffers_prunes {buckets : List Bytes} {bufferSizes : List Nat}
    {compression : CompressionType} {needed : List Bool} {cursors : List BufferCursor}
    (counted : needed.length = bufferSizes.length)
    (ran : decompressIntoBuffers ext buckets bufferSizes compression
      (List.replicate bufferSizes.length true) = .ok cursors) :
    (∀ cursor ∈ cursors, cursor.pruned = false) ∧ cursors.length = bufferSizes.length ∧
      ∃ cursors', decompressIntoBuffers ext buckets bufferSizes compression needed =
          .ok cursors' ∧
        cursors'.length = cursors.length ∧
        ∀ index : Nat, needed[index]? = some true → cursors'[index]? = cursors[index]? := by
  obtain ⟨assigned, assignedRan, ran⟩ := Except.bind_eq_ok.mp ran
  have length := computeBufferToBucket_length assignedRan
  by_cases empty : bufferSizes.length = 0
  · rw [if_pos empty] at ran
    cases ran
    refine ⟨List.forall_mem_nil _, empty.symm, [], ?_, rfl, fun _ _ => rfl⟩
    rw [decompressIntoBuffers, assignedRan, Except.ok_bind, if_pos empty]
  rw [if_neg empty] at ran
  obtain ⟨marked, markedRan, ran⟩ := Except.bind_eq_ok.mp ran
  obtain ⟨opened, openedRan, ran⟩ := Except.bind_eq_ok.mp ran
  obtain ⟨markedLength, bounds, _, all⟩ := markBuckets_all assigned (Nat.le_of_eq length) markedRan
  obtain ⟨marks, marksRan, marksLength, _, wanted⟩ := markBuckets_marks needed assigned _ bounds
  have among : ∀ bucket : Nat, marks[bucket]? = some true → marked[bucket]? = some true := by
    intro bucket flagged
    rcases markBuckets_only needed marksRan bucket flagged with before | after
    · rw [List.getElem?_replicate] at before
      split at before <;> cases before
    · exact all bucket after
  obtain ⟨fewer, fewerRan, same⟩ :=
    decompressBuckets_fewer (marksLength.trans markedLength.symm) among buckets openedRan
  obtain ⟨cursorsLength, live, cursors', ranToo, lengthToo, cursorsSame⟩ :=
    extractBuffers_fewer
      (fun index bucket flagged found => same bucket (by
        rw [Nat.zero_add]
        exact wanted index bucket flagged found))
      bufferSizes (by omega) ran
  refine ⟨live, cursorsLength, cursors', ?_, lengthToo, fun index flagged => cursorsSame index (by
    rw [Nat.zero_add]
    exact flagged)⟩
  rw [decompressIntoBuffers, assignedRan, Except.ok_bind, if_neg empty, marksRan, Except.ok_bind,
    fewerRan, Except.ok_bind, ranToo]

/-! ## The include map of existence-only fields -/

/-- The map includes nothing fully, and only numbers on the paths. -/
def OnlyExistence (fields : List Field) (map : List ((Nat × Nat) × IncludedField)) : Prop :=
  ∀ item ∈ map, item.2.includeType ≠ .includeFully ∧ ∃ field ∈ fields, item.1.2 ∈ field.path

theorem insertStep_onlyExistence {fields : List Field}
    {map : List ((Nat × Nat) × IncludedField)} (only : OnlyExistence fields map)
    {currentId fieldNumber : Nat} {includeType : IncludeType} (partly : includeType ≠ .includeFully)
    (onPath : ∃ field ∈ fields, fieldNumber ∈ field.path) :
    OnlyExistence fields (IncludeFieldMap.insertStep map currentId fieldNumber includeType).1 := by
  unfold IncludeFieldMap.insertStep
  cases found : map.lookup (currentId, fieldNumber) with
  | none =>
      simp only [found]
      intro item member
      rcases List.mem_append.mp member with before | added
      · exact only item before
      · rw [List.mem_singleton.mp added]
        exact ⟨partly, onPath⟩
  | some entry =>
      simp only [found]
      by_cases wider : includeType.toNat < entry.includeType.toNat
      · rw [if_pos wider]
        intro item member
        obtain ⟨before, beforeMember, rfl⟩ := List.mem_map.mp member
        by_cases keyed : before.1 = (currentId, fieldNumber)
        · rw [if_pos keyed]
          exact ⟨partly, onPath⟩
        · rw [if_neg keyed]
          exact only before beforeMember
      · rw [if_neg wider]
        exact only

theorem insertPath_onlyExistence {fields : List Field} (path : List Nat) :
    ∀ {currentId : Nat} {map : List ((Nat × Nat) × IncludedField)},
      (∀ number ∈ path, ∃ field ∈ fields, number ∈ field.path) → OnlyExistence fields map →
      OnlyExistence fields (IncludeFieldMap.insertPath true path currentId map) := by
  induction path with
  | nil => exact fun _ only => only
  | cons fieldNumber rest ih =>
      intro currentId map onPath only
      obtain ⟨here, later⟩ := List.forall_mem_cons.mp onPath
      refine ih later (insertStep_onlyExistence only ?_ here)
      by_cases last : rest.isEmpty = true
      · rw [if_pos last, if_pos rfl]
        exact IncludeType.noConfusion
      · rw [if_neg last]
        exact IncludeType.noConfusion

theorem insertFields_onlyExistence {fields : List Field} (todo : List Field) :
    ∀ {map map' : List ((Nat × Nat) × IncludedField)},
      (∀ field ∈ todo, field ∈ fields ∧ field.existenceOnly = true) → OnlyExistence fields map →
      IncludeFieldMap.insertFields todo map = some map' → OnlyExistence fields map' := by
  induction todo with
  | nil =>
      intro map map' _ only inserted
      cases inserted
      exact only
  | cons field rest ih =>
      intro map map' listed only inserted
      obtain ⟨⟨member, existence⟩, later⟩ := List.forall_mem_cons.mp listed
      rw [IncludeFieldMap.insertFields] at inserted
      by_cases root : field.path.isEmpty = true
      · rw [if_pos root] at inserted
        cases inserted
      rw [if_neg root, existence] at inserted
      exact ih later
        (insertPath_onlyExistence field.path (fun _ number => ⟨field, member, number⟩) only) inserted

/-- A projection without a map lists an empty path, which every field is on. -/
theorem insertFields_none (todo : List Field) :
    ∀ {map : List ((Nat × Nat) × IncludedField)},
      IncludeFieldMap.insertFields todo map = none → ∃ field ∈ todo, field.path.isEmpty = true := by
  induction todo with
  | nil =>
      intro map missing
      cases missing
  | cons field rest ih =>
      intro map missing
      rw [IncludeFieldMap.insertFields] at missing
      by_cases root : field.path.isEmpty = true
      · exact ⟨field, List.mem_cons_self .., root⟩
      · rw [if_neg root] at missing
        obtain ⟨other, member, empty⟩ := ih missing
        exact ⟨other, List.mem_cons_of_mem field member, empty⟩

/-- What an existence-only projection includes, it mentions, and not fully. -/
theorem get_existenceOnly {projection : FieldProjection} {includeMap : IncludeFieldMap}
    (existence : projection.ExistenceOnly)
    (built : IncludeFieldMap.fromProjection projection = some includeMap) {parentId number : Nat}
    {entry : IncludedField} (found : includeMap.get parentId number = some entry) :
    entry.includeType ≠ .includeFully ∧ projection.mentionsField number = true := by
  obtain ⟨fields, listed, only⟩ := existence
  obtain ⟨fields', listed', built⟩ := Option.bind_eq_some_iff.mp built
  obtain rfl : fields = fields' := Option.some.inj (listed.symm.trans listed')
  obtain ⟨map, inserted, built⟩ := Option.bind_eq_some_iff.mp built
  cases built
  have mapOnly := insertFields_onlyExistence fields
    (fun field member => ⟨member, only field member⟩) (List.forall_mem_nil _) inserted
  obtain ⟨before, after, split, -⟩ := List.lookup_eq_some_iff.mp found
  obtain ⟨partly, field, member, onPath⟩ := mapOnly ((parentId, number), entry) (by
    change map = _ at split
    rw [split]
    exact List.mem_append_right _ (List.mem_cons_self ..))
  refine ⟨partly, ?_⟩
  rw [FieldProjection.mentionsField, listed]
  exact List.any_eq_true.mpr ⟨field, member, by
    rw [List.contains_iff_mem.mpr onPath, Bool.or_true]⟩

/-- Without a map, an existence-only projection mentions every field. -/
theorem mentionsField_of_none {projection : FieldProjection}
    (existence : projection.ExistenceOnly)
    (missing : IncludeFieldMap.fromProjection projection = none) (number : Nat) :
    projection.mentionsField number = true := by
  obtain ⟨fields, listed, _⟩ := existence
  have notInserted : IncludeFieldMap.insertFields fields [] = none := by
    cases inserted : IncludeFieldMap.insertFields fields [] with
    | none => rfl
    | some map =>
        rw [IncludeFieldMap.fromProjection, listed, Option.bind_eq_bind, Option.bind_some,
          inserted] at missing
        cases missing
  obtain ⟨field, member, root⟩ := insertFields_none fields notInserted
  rw [FieldProjection.mentionsField, listed]
  exact List.any_eq_true.mpr ⟨field, member, by rw [root, Bool.true_or]⟩

/-! ## The callback that a node runs -/

/-- The walk over the frames includes nothing fully. -/
theorem walkFrames_partly {nodes : List StateMachineNode} {includeMap : IncludeFieldMap}
    (partly : ∀ parentId number entry, includeMap.get parentId number = some entry →
      entry.includeType ≠ .includeFully) (frames : List SubmessageFrame) :
    ∀ {parentId : Nat} {walked : FieldIncluded × Nat},
      walkFrames nodes includeMap frames parentId = .ok walked → walked.1 ≠ .yes := by
  induction frames with
  | nil =>
      intro parentId walked ran
      cases ran
      exact FieldIncluded.noConfusion
  | cons frame rest ih =>
      intro parentId walked ran
      obtain ⟨node, _, ran⟩ := Except.bind_eq_ok.mp ran
      by_cases tagless : node.tagData.isEmpty = true
      · rw [if_pos tagless] at ran
        cases ran
        exact FieldIncluded.noConfusion
      rw [if_neg tagless] at ran
      cases decoded : decodeU32 node.tagData with
      | error error =>
          rw [decoded] at ran
          cases ran
      | ok frameTag =>
          rw [decoded] at ran
          simp only at ran
          cases found : includeMap.get parentId (tagFieldNumber frameTag.1) with
          | none =>
              rw [found] at ran
              cases ran
              exact FieldIncluded.noConfusion
          | some entry =>
              rw [found] at ran
              simp only at ran
              rw [if_neg (partly _ _ entry found)] at ran
              exact ih ran

/-- Only an included field gets a callback that reads a buffer. -/
theorem callbackForFieldIncluded_reads {included : FieldIncluded} {tag subtype : Nat}
    {callback : CallbackType} (ran : callbackForFieldIncluded included tag subtype = .ok callback)
    (reads : callback.readsBuffer) : included = .yes := by
  cases included with
  | yes => rfl
  | no =>
      unfold callbackForFieldIncluded at ran
      cases wireType : tagWireType tag with
      | none =>
          rw [wireType] at ran
          cases ran
      | some wireType' =>
          rw [wireType] at ran
          cases wireType' with
          | varint =>
              cases ran
              exact False.elim reads
          | fixed32 =>
              cases ran
              exact False.elim reads
          | fixed64 =>
              cases ran
              exact False.elim reads
          | startGroup =>
              cases ran
              exact False.elim reads
          | endGroup =>
              cases ran
              exact False.elim reads
          | lengthDelimited =>
              simp only at ran
              split at ran
              · cases ran
                exact False.elim reads
              split at ran
              · cases ran
                exact False.elim reads
              · cases ran
  | existenceOnly =>
      unfold callbackForFieldIncluded at ran
      simp only at ran
      split at ran
      · cases ran
        exact False.elim reads
      split at ran
      · cases ran
        exact False.elim reads
      split at ran
      · cases ran
        exact False.elim reads
      · cases ran
        exact False.elim reads

/-- Where the callback of a selecting node reads a buffer, the projection
mentions the field. -/
theorem resolveSelectCallback_reads {context : DecodeContext} {projection : FieldProjection}
    {includeMap : IncludeFieldMap} (existence : projection.ExistenceOnly)
    (built : IncludeFieldMap.fromProjection projection = some includeMap)
    {node : StateMachineNode} {frames : List SubmessageFrame} {level : Int}
    {callback : CallbackType} {index : Nat} {template : NodeTemplate}
    (ran : resolveSelectCallback context includeMap node frames level = .ok callback)
    (reads : callback.readsBuffer) (indexed : node.nodeTemplateIndex = some index)
    (found : context.nodeTemplates[index]? = some template) :
    projection.mentionsField (tagFieldNumber template.tag) = true := by
  unfold resolveSelectCallback at ran
  rw [indexed] at ran
  simp only at ran
  rw [indexAt_eq_ok.mpr found, Except.ok_bind] at ran
  by_cases submessage : template.tag = MessageId.startOfSubmessage
  · rw [if_pos submessage] at ran
    by_cases skipped : 0 < level
    · rw [if_pos skipped] at ran
      cases ran
      exact False.elim reads
    · rw [if_neg skipped] at ran
      cases ran
      exact False.elim reads
  rw [if_neg submessage] at ran
  obtain ⟨included, resolved, ran⟩ := Except.bind_eq_ok.mp ran
  obtain rfl := callbackForFieldIncluded_reads ran reads
  unfold resolveInclusion at resolved
  by_cases level0 : level = 0
  · rw [if_pos level0] at resolved
    obtain ⟨⟨decided, parentId⟩, walked, resolved⟩ := Except.bind_eq_ok.mp resolved
    have partly := walkFrames_partly
      (fun _ _ _ entryAt => (get_existenceOnly existence built entryAt).1) _ walked
    have below := Except.ok.inj resolved
    cases decided with
    | yes => exact absurd rfl partly
    | no => cases below
    | existenceOnly =>
        unfold fieldIncludedBelow at below
        cases entryAt : includeMap.get parentId (tagFieldNumber template.tag) with
        | none =>
            simp only [entryAt] at below
            cases below
        | some entry => exact (get_existenceOnly existence built entryAt).2
  · rw [if_neg level0] at resolved
    cases resolved

/-! ## What the nodes can read -/

/-- The buffer of the node is needed, or the node selects its callback for a
field that the projection does not mention. -/
def NodeCovered (needed : Nat → Prop) (projection : FieldProjection)
    (templates : List NodeTemplate) (node : StateMachineNode) : Prop :=
  ∀ index, node.bufferIndex = some index → needed index ∨
    (node.callbackType = .selectCallback ∧ ∃ place template,
      node.nodeTemplateIndex = some place ∧ templates[place]? = some template ∧
        projection.mentionsField (tagFieldNumber template.tag) = false)

variable {needed : Nat → Prop} {projection : FieldProjection}

theorem NodeCovered.mono {wider : Nat → Prop} {templates : List NodeTemplate}
    {node : StateMachineNode} (covered : NodeCovered needed projection templates node)
    (widens : ∀ index, needed index → wider index) (more : List NodeTemplate) :
    NodeCovered wider projection (templates ++ more) node := by
  intro index found
  rcases covered index found with wanted | ⟨select, place, template, indexed, templated, apart⟩
  · exact .inl (widens index wanted)
  · refine .inr ⟨select, place, template, indexed, ?_, apart⟩
    rw [List.getElem?_append_left (List.getElem?_eq_some_iff.mp templated).1, templated]

/-- A node without a buffer reads none. -/
theorem NodeCovered.of_none {templates : List NodeTemplate} {node : StateMachineNode}
    (bufferless : node.bufferIndex = none) : NodeCovered needed projection templates node := by
  intro index found
  rw [bufferless] at found
  cases found

/-- A covered node reads needed buffers only. -/
theorem effectiveCallback_reads {context : DecodeContext} (existence : projection.ExistenceOnly)
    (selected : context.includeMap = IncludeFieldMap.fromProjection projection)
    {node : StateMachineNode} (covered : NodeCovered needed projection context.nodeTemplates node)
    {state : DecodeState} {callback : CallbackType}
    (ran : effectiveCallback context node state = .ok callback) (reads : callback.readsBuffer)
    (index : Nat) (found : node.bufferIndex = some index) : needed index := by
  rcases covered index found with wanted | ⟨select, place, template, indexed, templated, apart⟩
  · exact wanted
  exfalso
  have mentioned : projection.mentionsField (tagFieldNumber template.tag) = true := by
    rw [effectiveCallback, if_pos select] at ran
    cases mapped : context.includeMap with
    | none => exact mentionsField_of_none existence (selected.symm.trans mapped) _
    | some includeMap =>
        rw [mapped] at ran
        exact resolveSelectCallback_reads existence (selected.symm.trans mapped) ran reads
          indexed templated
  rw [apart] at mentioned
  cases mentioned

/-! ## The scan keeps step with the builder -/

/-- The scan and the builder have read as far as each other. -/
structure Aligned (numBuffers : Nat) (scan : ScanState) (build : BuildState) : Prop where
  snap : scan.snap = build.hdr
  live : build.hdr.pruned = false
  subtypes : scan.subtypeIdx = build.subtypeIdx
  nonProto : scan.hasNonproto = build.hasNonprotoOp
  counted : scan.needed.length = numBuffers

/-- The buffer is marked. -/
def ScanState.Marks (scan : ScanState) (index : Nat) : Prop := scan.needed[index]? = some true

/-- The scan sees the buffer index that the builder reads. -/
theorem markNeeded_aligned {numBuffers index : Nat} {hdr : BufferCursor} {scan : ScanState}
    (live : scan.snap.pruned = false) (read : scan.snap.readVarint32 = .ok (index, hdr))
    (small : index < numBuffers) (counted : scan.needed.length = numBuffers) (flag : Bool) :
    hdr.pruned = false ∧ ∃ marks, markNeeded numBuffers flag scan =
        .ok { scan with snap := hdr, needed := marks } ∧
      marks.length = numBuffers ∧
      (∀ other : Nat, scan.needed[other]? = some true → marks[other]? = some true) ∧
      (flag = true → marks[index]? = some true) := by
  rw [BufferCursor.readVarint32, if_neg (by rw [live]; exact Bool.false_ne_true)] at read
  obtain ⟨remaining, sliced, read⟩ := Except.bind_eq_ok.mp read
  cases decoded : decodeU32 remaining with
  | error error =>
      rw [decoded] at read
      cases read
  | ok pair =>
      obtain ⟨value, consumed⟩ := pair
      rw [decoded] at read
      cases read
      refine ⟨live, ?_⟩
      rw [markNeeded, sliced, Except.ok_bind, decoded]
      simp only
      by_cases wanted : flag = true
      · have inside : index < scan.needed.length := by
          rw [counted]
          exact small
        rw [if_pos ⟨small, wanted⟩, setAt_eq inside, Except.ok_bind]
        refine ⟨_, rfl, (List.length_set ..).trans counted, ?_,
          fun _ => List.getElem?_set_self inside⟩
        intro other same
        by_cases equal : index = other
        · rw [← equal]
          exact List.getElem?_set_self inside
        · rw [List.getElem?_set_ne equal, same]
      · rw [if_neg (fun both => wanted both.2)]
        exact ⟨scan.needed, rfl, counted, fun _ same => same, fun flagged => absurd flagged wanted⟩

/-- The tag of a state and its structural subtype, as the builder has them. -/
def structuralTag (rawTag : Nat) : Nat × Nat :=
  if rawTag % 8 = submessageWireType then
    (unmapSubmessage rawTag, Subtype.lengthDelimitedEndOfSubmessage)
  else (rawTag, Subtype.trivial)

theorem tagWireType_unmapSubmessage {rawTag : Nat} (mapped : rawTag % 8 = submessageWireType) :
    tagWireType (unmapSubmessage rawTag) = some .lengthDelimited := by
  have reduced : unmapSubmessage rawTag % 8 = 2 := by
    have mapped : rawTag % 8 = 6 := mapped
    change (rawTag - 6 + 2) % 8 = 2
    omega
  rw [tagWireType, reduced]
  rfl

/-- The scan finds the subtype that the builder reads. -/
theorem scanState_field {subtypesBytes : Bytes} {subtypeIdx rawTag subtype subtypeIdx' : Nat}
    (plain : ¬ (rawTag = MessageId.noOp ∨ rawTag = MessageId.startOfMessage ∨
      rawTag = MessageId.startOfSubmessage)) (proto : rawTag ≠ MessageId.nonProto)
    (valid : isValidProtoTag (structuralTag rawTag).1 = true)
    (read : readSubtype subtypesBytes (structuralTag rawTag).1 (structuralTag rawTag).2 subtypeIdx =
      .ok (subtype, subtypeIdx')) :
    scanState subtypesBytes subtypeIdx rawTag =
      (if hasDataBuffer (structuralTag rawTag).1 subtype then
        .field (tagFieldNumber (structuralTag rawTag).1) else .nothing, subtypeIdx') := by
  unfold structuralTag at valid read ⊢
  rw [scanState, if_neg plain, if_neg proto]
  by_cases mapped : rawTag % 8 = submessageWireType
  · rw [if_pos mapped] at valid read ⊢
    simp only [if_pos mapped]
    have typed : hasSubtype (unmapSubmessage rawTag) = false := by
      rw [hasSubtype, tagWireType_unmapSubmessage mapped]
      rfl
    rw [readSubtype, if_neg (by rw [typed]; exact Bool.false_ne_true)] at read
    cases read
    simp only at valid
    rw [valid, Bool.true_and]
    split <;> rfl
  · rw [if_neg mapped] at valid read ⊢
    simp only at valid read
    simp only [if_neg mapped]
    by_cases typed : hasSubtype rawTag = true
    · rw [readSubtype, if_pos typed] at read
      obtain ⟨byte, byteAt, read⟩ := Except.bind_eq_ok.mp read
      cases read
      have scanned : (subtypesBytes.getD subtypeIdx 0).toNat = byte.toNat := by
        rw [List.getD_eq_getElem?_getD, indexAt_eq_ok.mp byteAt]
        rfl
      simp only [valid, typed, Bool.true_and, if_true, scanned]
      split <;> rfl
    · rw [readSubtype, if_neg typed] at read
      cases read
      simp only [valid, Bool.true_and, if_neg typed]
      split <;> rfl

/-- What one node built asks of the scan. -/
structure Scanned (numBuffers : Nat) (projection : FieldProjection) (scan scan' : ScanState)
    (build build' : BuildState) (nodes : List StateMachineNode) : Prop where
  aligned : Aligned numBuffers scan' build'
  kept : ∀ index, scan.Marks index → scan'.Marks index
  templates : ∃ more, build'.nodeTemplates = build.nodeTemplates ++ more
  covered : ∀ node ∈ nodes, NodeCovered scan'.Marks projection build'.nodeTemplates node

theorem buildProtoTagNode_scanned {numBuffers rawTag nextNodeIdx stateIndex : Nat}
    {isImplicit enabled : Bool} {subtypesBytes : Bytes} {scan : ScanState}
    {build build' : BuildState} {node : StateMachineNode}
    (all : enabled = false → ∀ number, projection.mentionsField number = true)
    (plain : ¬ (rawTag = MessageId.noOp ∨ rawTag = MessageId.startOfMessage ∨
      rawTag = MessageId.startOfSubmessage)) (proto : rawTag ≠ MessageId.nonProto)
    (aligned : Aligned numBuffers scan build)
    (ran : buildProtoTagNode rawTag nextNodeIdx isImplicit stateIndex numBuffers subtypesBytes
      enabled build = .ok (node, build')) :
    ∃ scan', scanStep subtypesBytes numBuffers projection scan rawTag = .ok scan' ∧
      Scanned numBuffers projection scan scan' build build' [node] := by
  unfold buildProtoTagNode at ran
  change (if isValidProtoTag (structuralTag rawTag).1 = false then _ else _) = _ at ran
  by_cases invalid : isValidProtoTag (structuralTag rawTag).1 = false
  · rw [if_pos invalid] at ran
    cases ran
  rw [if_neg invalid] at ran
  obtain ⟨⟨subtype, subtypeIdx⟩, subtypeRead, ran⟩ := Except.bind_eq_ok.mp ran
  obtain ⟨⟨bufferIndex, hdr⟩, indexRead, ran⟩ := Except.bind_eq_ok.mp ran
  have reads := scanState_field plain proto (Bool.eq_true_of_not_eq_false invalid) subtypeRead
  rw [← aligned.subtypes] at reads
  -- where the builder puts the node and what it keeps of it
  obtain ⟨more, rfl, indexed, selects⟩ : ∃ more,
      build' =
        { build with
          hdr := hdr
          subtypeIdx := subtypeIdx
          nodeTemplates := build.nodeTemplates ++ more } ∧ node.bufferIndex = bufferIndex ∧
        (enabled = true → node.callbackType = .selectCallback ∧ ∃ place template,
          node.nodeTemplateIndex = some place ∧
            (build.nodeTemplates ++ more)[place]? = some template ∧
            template.tag = (structuralTag rawTag).1) := by
    by_cases projected : enabled = true
    · simp only [if_pos projected] at ran
      cases ran
      refine ⟨_, rfl, rfl, fun _ => ⟨rfl, _, _, rfl, List.getElem?_concat_length, rfl⟩⟩
    · simp only [if_neg projected] at ran
      obtain ⟨callbackType, _, ran⟩ := Except.bind_eq_ok.mp ran
      cases ran
      exact ⟨[], by rw [List.append_nil], rfl, fun flagged => absurd flagged projected⟩
  have indexRead : readBufferIndex build.hdr numBuffers (structuralTag rawTag).1 subtype =
      .ok (bufferIndex, hdr) := indexRead
  unfold readBufferIndex at indexRead
  by_cases reading : hasDataBuffer (structuralTag rawTag).1 subtype = true
  · rw [if_pos reading] at indexRead reads
    obtain ⟨⟨index, moved⟩, varintRead, indexRead⟩ := Except.bind_eq_ok.mp indexRead
    simp only at indexRead
    by_cases large : numBuffers ≤ index
    · rw [if_pos large] at indexRead
      cases indexRead
    rw [if_neg large] at indexRead
    cases indexRead
    obtain ⟨live, marks, marked, counted, kept, wanted⟩ :=
      @markNeeded_aligned numBuffers index hdr { scan with subtypeIdx := subtypeIdx }
        (by rw [aligned.snap]; exact aligned.live) (by rw [aligned.snap]; exact varintRead)
        (by omega) aligned.counted (projection.mentionsField (tagFieldNumber (structuralTag rawTag).1))
    refine ⟨{ scan with snap := hdr, needed := marks, subtypeIdx := subtypeIdx }, ?_,
      ⟨rfl, live, rfl, aligned.nonProto, counted⟩, kept, ⟨more, rfl⟩, ?_⟩
    · rw [scanStep, reads]
      exact marked
    · refine List.forall_mem_singleton.mpr ?_
      intro found foundAt
      rw [indexed] at foundAt
      cases foundAt
      by_cases mentioned : projection.mentionsField (tagFieldNumber (structuralTag rawTag).1) = true
      · exact .inl (wanted mentioned)
      · have projected : enabled = true := by
          by_contra off
          exact mentioned (all (Bool.eq_false_of_not_eq_true off) _)
        obtain ⟨select, place, template, placed, templated, tagged⟩ := selects projected
        refine .inr ⟨select, place, template, placed, templated, ?_⟩
        rw [tagged]
        exact Bool.eq_false_of_not_eq_true mentioned
  · rw [if_neg reading] at indexRead reads
    cases indexRead
    refine ⟨{ scan with subtypeIdx := subtypeIdx }, ?_,
      ⟨aligned.snap, aligned.live, rfl, aligned.nonProto, aligned.counted⟩, fun _ same => same,
      ⟨more, rfl⟩, List.forall_mem_singleton.mpr (NodeCovered.of_none indexed)⟩
    rw [scanStep, reads]

theorem buildSingleNode_scanned {numBuffers rawTag nextNodeIdx stateIndex : Nat}
    {isImplicit enabled : Bool} {subtypesBytes : Bytes} {scan : ScanState}
    {build build' : BuildState} {node : StateMachineNode}
    (all : enabled = false → ∀ number, projection.mentionsField number = true)
    (aligned : Aligned numBuffers scan build)
    (ran : buildSingleNode rawTag nextNodeIdx isImplicit stateIndex numBuffers subtypesBytes
      enabled build = .ok (node, build')) :
    ∃ scan', scanStep subtypesBytes numBuffers projection scan rawTag = .ok scan' ∧
      Scanned numBuffers projection scan scan' build build' [node] := by
  have unread (plain : rawTag = MessageId.noOp ∨ rawTag = MessageId.startOfMessage ∨
        rawTag = MessageId.startOfSubmessage) :
      scanStep subtypesBytes numBuffers projection scan rawTag = .ok scan := by
    rw [scanStep, scanState, if_pos plain]
  unfold buildSingleNode at ran
  by_cases noOp : rawTag = MessageId.noOp
  · rw [if_pos noOp] at ran
    cases ran
    exact ⟨scan, unread (.inl noOp), aligned, fun _ same => same, ⟨[], (List.append_nil _).symm⟩,
      List.forall_mem_singleton.mpr (NodeCovered.of_none rfl)⟩
  rw [if_neg noOp] at ran
  by_cases nonProto : rawTag = MessageId.nonProto
  · rw [if_pos nonProto] at ran
    obtain ⟨⟨index, hdr⟩, read, ran⟩ := Except.bind_eq_ok.mp ran
    simp only at ran
    by_cases large : numBuffers ≤ index
    · rw [if_pos large] at ran
      cases ran
    rw [if_neg large] at ran
    cases ran
    obtain ⟨live, marks, marked, counted, kept, wanted⟩ :=
      @markNeeded_aligned numBuffers index hdr { scan with hasNonproto := true }
        (by rw [aligned.snap]; exact aligned.live) (by rw [aligned.snap]; exact read)
        (by omega) aligned.counted true
    refine ⟨{ scan with snap := hdr, needed := marks, hasNonproto := true }, ?_,
      ⟨rfl, live, aligned.subtypes, rfl, counted⟩, kept, ⟨[], (List.append_nil _).symm⟩, ?_⟩
    · rw [scanStep, scanState, if_neg (by rw [nonProto]; decide), if_pos nonProto]
      exact marked
    · refine List.forall_mem_singleton.mpr ?_
      intro found foundAt
      cases foundAt
      exact .inl (wanted rfl)
  rw [if_neg nonProto] at ran
  by_cases message : rawTag = MessageId.startOfMessage
  · rw [if_pos message] at ran
    cases ran
    exact ⟨scan, unread (.inr (.inl message)), aligned, fun _ same => same,
      ⟨[], (List.append_nil _).symm⟩, List.forall_mem_singleton.mpr (NodeCovered.of_none rfl)⟩
  rw [if_neg message] at ran
  by_cases submessage : rawTag = MessageId.startOfSubmessage
  · rw [if_pos submessage] at ran
    cases enabled with
    | true =>
        cases ran
        exact ⟨scan, unread (.inr (.inr submessage)),
          ⟨aligned.snap, aligned.live, aligned.subtypes, aligned.nonProto, aligned.counted⟩,
          fun _ same => same, ⟨_, rfl⟩, List.forall_mem_singleton.mpr (NodeCovered.of_none rfl)⟩
    | false =>
        cases ran
        exact ⟨scan, unread (.inr (.inr submessage)), aligned, fun _ same => same,
          ⟨[], (List.append_nil _).symm⟩, List.forall_mem_singleton.mpr (NodeCovered.of_none rfl)⟩
  rw [if_neg submessage] at ran
  exact buildProtoTagNode_scanned all
    (fun special => special.elim noOp fun other => other.elim message submessage) nonProto
    aligned ran

/-- The scan of the tags covers all the nodes that are built from them. -/
theorem buildNodesLoop_scanned {parsed : ParsedHeader} {enabled : Bool}
    (all : enabled = false → ∀ number, projection.mentionsField number = true) (left : Nat) :
    ∀ {index : Nat} {scan : ScanState} {build build' : BuildState}
      {nodes : List StateMachineNode},
      (parsed.tags.drop index).length = left → Aligned parsed.numBuffers scan build →
      buildNodesLoop parsed enabled left index build = .ok (nodes, build') →
      ∃ scan', scanLoop parsed.subtypesBytes parsed.numBuffers projection
          (parsed.tags.drop index) scan = .ok scan' ∧
        Scanned parsed.numBuffers projection scan scan' build build' nodes := by
  induction left with
  | zero =>
      intro index scan build build' nodes counted aligned ran
      cases ran
      rw [List.length_eq_zero_iff.mp counted]
      exact ⟨scan, rfl, aligned, fun _ same => same, ⟨[], (List.append_nil _).symm⟩,
        List.forall_mem_nil _⟩
  | succ left ih =>
      intro index scan build build' nodes counted aligned ran
      obtain ⟨rawTag, tagAt, ran⟩ := Except.bind_eq_ok.mp ran
      obtain ⟨nextRaw, _, ran⟩ := Except.bind_eq_ok.mp ran
      obtain ⟨⟨isImplicit, nextNodeIdx⟩, _, ran⟩ := Except.bind_eq_ok.mp ran
      obtain ⟨⟨node, middle⟩, nodeRan, ran⟩ := Except.bind_eq_ok.mp ran
      obtain ⟨⟨later, final⟩, laterRan, ran⟩ := Except.bind_eq_ok.mp ran
      cases ran
      obtain ⟨inside, tagIs⟩ := List.getElem?_eq_some_iff.mp (indexAt_eq_ok.mp tagAt)
      obtain ⟨scan₁, stepRan, step⟩ := buildSingleNode_scanned all aligned nodeRan
      have fewer : (parsed.tags.drop (index + 1)).length = left := by
        rw [List.length_drop] at counted ⊢
        omega
      obtain ⟨scan₂, restRan, rest⟩ := ih fewer step.aligned laterRan
      obtain ⟨more, grown⟩ := step.templates
      obtain ⟨more', grown'⟩ := rest.templates
      refine ⟨scan₂, ?_, rest.aligned, fun other same => rest.kept other (step.kept other same),
        ⟨more ++ more', by rw [grown', grown, List.append_assoc]⟩, ?_⟩
      · rw [List.drop_eq_getElem_cons inside, tagIs, scanLoop, stepRan, Except.ok_bind, restRan]
      · refine List.forall_mem_cons.mpr ⟨?_, rest.covered⟩
        rw [grown']
        exact (step.covered node (List.mem_singleton_self node)).mono rest.kept more'

/-- Every buffer index that the decoder follows is in range or marked. -/
def Wanted (numBuffers : Nat) (flags : List Bool) (index : Nat) : Prop :=
  index < numBuffers → flags[index]? = some true

/-- The needed buffers of the scan cover the state machine that is built. -/
theorem computeNeededBuffers_covers {parsed : ParsedHeader} {enabled : Bool}
    {built : BuiltStateMachine} {lengthsIndex : Option Nat} (existence : projection.ExistenceOnly)
    (all : enabled = false → ∀ number, projection.mentionsField number = true)
    (tagged : parsed.tags.length = parsed.numStates) (live : parsed.hdr.pruned = false)
    (builtRan : buildStateMachineNodes parsed enabled = .ok built)
    (lengthsRan : nonprotoLengthsIndexOf built.hasNonprotoOp parsed.numBuffers =
      .ok lengthsIndex) :
    ∃ flags, computeNeededBuffers parsed.tags parsed.subtypesBytes parsed.hdr parsed.numBuffers
        projection = .ok flags ∧
      flags.length = parsed.numBuffers ∧
      (∀ index, lengthsIndex = some index → Wanted parsed.numBuffers flags index) ∧
      ∀ node ∈ built.nodes,
        NodeCovered (Wanted parsed.numBuffers flags) projection built.nodeTemplates node := by
  unfold computeNeededBuffers
  by_cases empty : parsed.numBuffers = 0
  · rw [if_pos empty]
    have outside : ∀ index, Wanted parsed.numBuffers [] index := fun index inside => by
      rw [empty] at inside
      exact absurd inside (Nat.not_lt_zero index)
    exact ⟨[], rfl, empty.symm, fun index _ => outside index,
      fun _ _ index _ => .inl (outside index)⟩
  rw [if_neg empty]
  obtain ⟨fields, listed, only⟩ := existence
  have partly : projection.hasFullInclude = false := by
    rw [FieldProjection.hasFullInclude, listed]
    exact List.any_eq_false.mpr fun field member => by
      rw [only field member]
      exact Bool.false_ne_true
  rw [if_neg (by rw [partly]; exact Bool.false_ne_true)]
  obtain ⟨⟨nodes, build⟩, nodesRan, builtRan⟩ := Except.bind_eq_ok.mp builtRan
  obtain ⟨scan, scanRan, scanned⟩ :=
    @buildNodesLoop_scanned projection parsed enabled all parsed.numStates 0
      { snap := parsed.hdr
        needed := List.replicate parsed.numBuffers false
        subtypeIdx := 0
        hasNonproto := false } _ _ _ (by rw [List.drop_zero, tagged])
      ⟨rfl, live, rfl, rfl, List.length_replicate ..⟩ nodesRan
  rw [List.drop_zero] at scanRan
  rw [scanRan, Except.ok_bind]
  obtain ⟨⟨firstNode, hdr⟩, _, builtRan⟩ := Except.bind_eq_ok.mp builtRan
  simp only at builtRan
  by_cases outside : parsed.numStates ≤ firstNode
  · rw [if_pos outside] at builtRan
    cases builtRan
  rw [if_neg outside] at builtRan
  obtain ⟨looping, _, builtRan⟩ := Except.bind_eq_ok.mp builtRan
  by_cases loops : looping = true
  · rw [if_pos loops] at builtRan
    cases builtRan
  rw [if_neg loops] at builtRan
  by_cases trailing : hdr.isEmpty = false
  · rw [if_pos trailing] at builtRan
    cases builtRan
  rw [if_neg trailing] at builtRan
  cases builtRan
  -- marking more keeps the nodes covered, and the failure nodes read nothing
  have covers {flags : List Bool}
      (kept : ∀ index : Nat, scan.Marks index → flags[index]? = some true) :
      ∀ node ∈ nodes ++ failureNodes,
        NodeCovered (Wanted parsed.numBuffers flags) projection build.nodeTemplates node := by
    intro node member
    rcases List.mem_append.mp member with state | failure
    · have widens : ∀ index, scan.Marks index → Wanted parsed.numBuffers flags index :=
        fun index marked _ => kept index marked
      have covered := (scanned.covered node state).mono widens []
      rwa [List.append_nil] at covered
    · rw [(List.mem_replicate.mp failure).2]
      exact NodeCovered.of_none rfl
  unfold nonprotoLengthsIndexOf at lengthsRan
  rw [scanned.aligned.nonProto]
  by_cases nonProto : build.hasNonprotoOp = true
  · simp only [if_pos nonProto] at lengthsRan ⊢
    rw [if_neg empty] at lengthsRan
    cases lengthsRan
    have inside : parsed.numBuffers - 1 < scan.needed.length := by
      rw [scanned.aligned.counted]
      omega
    rw [setAt_eq inside]
    refine ⟨_, rfl, (List.length_set ..).trans scanned.aligned.counted, ?_, covers ?_⟩
    · intro index last _
      cases last
      exact List.getElem?_set_self inside
    · intro index marked
      by_cases equal : parsed.numBuffers - 1 = index
      · rw [← equal]
        exact List.getElem?_set_self inside
      · rw [List.getElem?_set_ne equal]
        exact marked
  · simp only [if_neg nonProto] at lengthsRan ⊢
    cases lengthsRan
    exact ⟨_, rfl, scanned.aligned.counted, fun _ never => (nomatch never),
      covers fun _ marked => marked⟩

/-! ## The header under a projection -/

theorem readVarint32_live {cursor after : BufferCursor} {value : Nat}
    (live : cursor.pruned = false) (ran : cursor.readVarint32 = .ok (value, after)) :
    after.pruned = false := by
  rw [BufferCursor.readVarint32, if_neg (by rw [live]; exact Bool.false_ne_true)] at ran
  obtain ⟨remaining, _, ran⟩ := Except.bind_eq_ok.mp ran
  cases decoded : decodeU32 remaining with
  | error error =>
      rw [decoded] at ran
      cases ran
  | ok pair =>
      rw [decoded] at ran
      cases ran
      exact live

theorem readVarint64_live {cursor after : BufferCursor} {value : Nat}
    (live : cursor.pruned = false) (ran : cursor.readVarint64 = .ok (value, after)) :
    after.pruned = false := by
  rw [BufferCursor.readVarint64, if_neg (by rw [live]; exact Bool.false_ne_true)] at ran
  obtain ⟨remaining, _, ran⟩ := Except.bind_eq_ok.mp ran
  cases decoded : decodeU64 remaining with
  | error error =>
      rw [decoded] at ran
      cases ran
  | ok pair =>
      rw [decoded] at ran
      cases ran
      exact live

theorem readByte_live {cursor after : BufferCursor} {value : UInt8}
    (live : cursor.pruned = false) (ran : cursor.readByte = .ok (value, after)) :
    after.pruned = false := by
  rw [BufferCursor.readByte, if_neg (by rw [live]; exact Bool.false_ne_true)] at ran
  by_cases short : cursor.data.length ≤ cursor.pos
  · rw [if_pos short] at ran
    cases ran
  rw [if_neg short] at ran
  obtain ⟨byte, _, ran⟩ := Except.bind_eq_ok.mp ran
  cases ran
  exact live

/-- The loop reads as many items as it is told to. -/
theorem readMany_live {Item : Type} {read : BufferCursor → Rust (Item × BufferCursor)}
    (readLive : ∀ {cursor after : BufferCursor} {item : Item}, cursor.pruned = false →
      read cursor = .ok (item, after) → after.pruned = false) (count : Nat) :
    ∀ {cursor after : BufferCursor} {items : List Item}, cursor.pruned = false →
      BufferCursor.readMany read count cursor = .ok (items, after) →
      items.length = count ∧ after.pruned = false := by
  induction count with
  | zero =>
      intro cursor after items live ran
      cases ran
      exact ⟨rfl, live⟩
  | succ count ih =>
      intro cursor after items live ran
      obtain ⟨⟨item, moved⟩, itemRan, ran⟩ := Except.bind_eq_ok.mp ran
      obtain ⟨⟨later, final⟩, laterRan, ran⟩ := Except.bind_eq_ok.mp ran
      cases ran
      obtain ⟨counted, finalLive⟩ := ih (readLive live itemRan) laterRan
      exact ⟨congrArg Nat.succ counted, finalLive⟩

theorem parseStateMetadata_live {cursor after : BufferCursor} {metadata : StateMetadata}
    (live : cursor.pruned = false) (ran : parseStateMetadata cursor = .ok (metadata, after)) :
    metadata.tags.length = metadata.numStates ∧ after.pruned = false := by
  obtain ⟨⟨numStates, afterCount⟩, countRan, ran⟩ := Except.bind_eq_ok.mp ran
  obtain ⟨⟨tags, afterTags⟩, tagsRan, ran⟩ := Except.bind_eq_ok.mp ran
  obtain ⟨⟨nextNodeIndices, afterNext⟩, nextRan, ran⟩ := Except.bind_eq_ok.mp ran
  obtain ⟨⟨subtypesBytes, afterSubtypes⟩, subtypesRan, ran⟩ := Except.bind_eq_ok.mp ran
  cases ran
  have countLive := readVarint32_live live countRan
  obtain ⟨tagged, tagsLive⟩ := readMany_live readVarint32_live numStates countLive tagsRan
  obtain ⟨_, nextLive⟩ := readMany_live readVarint32_live numStates tagsLive nextRan
  exact ⟨tagged, (readMany_live readByte_live _ nextLive subtypesRan).2⟩

/-- Parsing under a projection comes to the same but for the pruned buffers. -/
theorem parseHeaderAndBuckets_prunes {data : Bytes} {parsed : ParsedHeader}
    (ran : parseHeaderAndBuckets ext data none = .ok parsed) :
    parsed.tags.length = parsed.numStates ∧ parsed.hdr.pruned = false ∧
      (∀ cursor ∈ parsed.buffers, cursor.pruned = false) ∧
      parsed.buffers.length = parsed.numBuffers ∧
      ∀ {flags : List Bool},
        computeNeededBuffers parsed.tags parsed.subtypesBytes parsed.hdr parsed.numBuffers
          projection = .ok flags → flags.length = parsed.numBuffers →
        ∃ buffers, parseHeaderAndBuckets ext data (some projection) =
            .ok { parsed with buffers := buffers } ∧
          buffers.length = parsed.buffers.length ∧
          ∀ index : Nat, flags[index]? = some true → buffers[index]? = parsed.buffers[index]? := by
  obtain ⟨⟨compression, headerCompressed, pos⟩, splitRan, ran⟩ := Except.bind_eq_ok.mp ran
  obtain ⟨headerData, headerRan, ran⟩ := Except.bind_eq_ok.mp ran
  obtain ⟨⟨numBuckets, afterBuckets⟩, numBucketsRan, ran⟩ := Except.bind_eq_ok.mp ran
  obtain ⟨⟨numBuffers, afterBuffers⟩, numBuffersRan, ran⟩ := Except.bind_eq_ok.mp ran
  obtain ⟨⟨bucketSizes, afterBucketSizes⟩, bucketSizesRan, ran⟩ := Except.bind_eq_ok.mp ran
  obtain ⟨⟨bufferSizes, afterBufferSizes⟩, bufferSizesRan, ran⟩ := Except.bind_eq_ok.mp ran
  obtain ⟨⟨metadata, hdr⟩, metadataRan, ran⟩ := Except.bind_eq_ok.mp ran
  obtain ⟨⟨buckets, newPos⟩, bucketsRan, ran⟩ := Except.bind_eq_ok.mp ran
  obtain ⟨transitionsCompressed, slicedRan, ran⟩ := Except.bind_eq_ok.mp ran
  obtain ⟨neededBuffers, neededRan, ran⟩ := Except.bind_eq_ok.mp ran
  obtain ⟨buffers, buffersRan, ran⟩ := Except.bind_eq_ok.mp ran
  cases ran
  cases neededRan
  have bucketsLive := readVarint32_live rfl numBucketsRan
  have buffersLive := readVarint32_live bucketsLive numBuffersRan
  obtain ⟨_, bucketSizesLive⟩ :=
    readMany_live readVarint64_live numBuckets buffersLive bucketSizesRan
  obtain ⟨rfl, bufferSizesLive⟩ :=
    readMany_live readVarint64_live numBuffers bucketSizesLive bufferSizesRan
  obtain ⟨tagged, hdrLive⟩ := parseStateMetadata_live bufferSizesLive metadataRan
  obtain ⟨live, counted, -⟩ :=
    decompressIntoBuffers_prunes (@List.length_replicate _ bufferSizes.length true) buffersRan
  refine ⟨tagged, hdrLive, live, counted, ?_⟩
  intro flags flagsRan flagged
  obtain ⟨_, _, cursors, cursorsRan, length, same⟩ :=
    decompressIntoBuffers_prunes flagged buffersRan
  refine ⟨cursors, ?_, length, same⟩
  simp only [parseHeaderAndBuckets, splitRan, headerRan, numBucketsRan, numBuffersRan,
    bucketSizesRan, bufferSizesRan, metadataRan, bucketsRan, slicedRan, neededBuffersOf, flagsRan,
    cursorsRan, Except.ok_bind]

/-! ## The decode -/

theorem activeProjectionOf_existence (existence : projection.ExistenceOnly) :
    activeProjectionOf (some projection) = some projection := by
  obtain ⟨fields, listed, only⟩ := existence
  have filters : projection.isAll = false := by
    rw [FieldProjection.isAll, listed]
    exact List.any_eq_false.mpr fun field member => by
      rw [only field member, Bool.not_true, Bool.and_false]
      exact Bool.false_ne_true
  rw [activeProjectionOf, Option.filter, filters]
  rfl

/-- Building the nodes does not look at the buffers. -/
theorem buildNodesLoop_buffers (parsed : ParsedHeader) (buffers : List BufferCursor)
    (enabled : Bool) (left : Nat) :
    ∀ (index : Nat) (state : BuildState),
      buildNodesLoop { parsed with buffers := buffers } enabled left index state =
        buildNodesLoop parsed enabled left index state := by
  induction left with
  | zero => exact fun _ _ => rfl
  | succ left ih =>
      intro index state
      simp only [buildNodesLoop, ih]

theorem buildStateMachineNodes_buffers (parsed : ParsedHeader) (buffers : List BufferCursor)
    (enabled : Bool) :
    buildStateMachineNodes { parsed with buffers := buffers } enabled =
      buildStateMachineNodes parsed enabled := by
  rw [buildStateMachineNodes, buildStateMachineNodes, buildNodesLoop_buffers]

/-- A decode comes to the same over buffers that agree where the scan marks. -/
theorem decodeParsed_agree {chunk : Chunk} {parsed : ParsedHeader} {flags : List Bool}
    {decoder : TransposeChunkDecoder} (existence : projection.ExistenceOnly)
    (tagged : parsed.tags.length = parsed.numStates) (live : parsed.hdr.pruned = false)
    (scanned : computeNeededBuffers parsed.tags parsed.subtypesBytes parsed.hdr
      parsed.numBuffers projection = .ok flags) (buffers : List BufferCursor)
    (agree : Agree (Wanted parsed.numBuffers flags) parsed.buffers buffers)
    (ran : decodeParsed ext chunk (some projection) parsed = .ok decoder) :
    decodeParsed ext chunk (some projection) { parsed with buffers := buffers } = .ok decoder := by
  have active := activeProjectionOf_existence existence
  obtain ⟨built, builtRan, ran⟩ := Except.bind_eq_ok.mp ran
  obtain ⟨lengthsIndex, lengthsRan, ran⟩ := Except.bind_eq_ok.mp ran
  obtain ⟨transitionsData, transitionsRan, ran⟩ := Except.bind_eq_ok.mp ran
  obtain ⟨⟨data, limits⟩, recordsRan, ran⟩ := Except.bind_eq_ok.mp ran
  cases ran
  rw [active] at builtRan recordsRan
  obtain ⟨flags', scannedToo, _, lengths, covered⟩ :=
    computeNeededBuffers_covers existence (fun off => mentionsField_of_none existence (by
      cases mapped : IncludeFieldMap.fromProjection projection with
      | none => rfl
      | some includeMap =>
          rw [Option.bind_some, mapped] at off
          cases off)) tagged live builtRan lengthsRan
  obtain rfl := Except.ok.inj (scanned.symm.trans scannedToo)
  have reads : ReadsCovered (Wanted parsed.numBuffers flags)
      { nodes := built.nodes
        numRecords := chunk.header.numRecords
        nonprotoLengthsIndex := lengthsIndex
        nodeTemplates := built.nodeTemplates
        includeMap := (some projection).bind IncludeFieldMap.fromProjection } :=
    ⟨lengths, fun node member _ _ chosen reading index found =>
      effectiveCallback_reads existence rfl (covered node member) chosen reading index found⟩
  have same := decodeAllRecords_agree reads agree recordsRan
  rw [← active] at builtRan same
  refine Except.bind_eq_ok.mpr
    ⟨built, (buildStateMachineNodes_buffers parsed buffers _).trans builtRan, ?_⟩
  refine Except.bind_eq_ok.mpr ⟨lengthsIndex, lengthsRan, ?_⟩
  refine Except.bind_eq_ok.mpr ⟨transitionsData, transitionsRan, ?_⟩
  exact Except.bind_eq_ok.mpr ⟨(data, limits), same, rfl⟩

/-- A decode with all buffers comes to the same over those that are kept, and
over those with stubs that no read survives. -/
theorem keptBuffers_decode {chunk : Chunk} {decoder : TransposeChunkDecoder}
    (existence : projection.ExistenceOnly)
    (ran : TransposeChunkDecoder.newUnpruned ext chunk (some projection) = .ok decoder) :
    ∃ (parsed : ParsedHeader) (buffers : List BufferCursor),
      parseHeaderAndBuckets ext chunk.data (some projection) =
        .ok { parsed with buffers := buffers } ∧
      decodeParsed ext chunk (some projection) { parsed with buffers := buffers } = .ok decoder ∧
      decodeParsed ext chunk (some projection)
        { parsed with buffers := buffers.map BufferCursor.guarded } = .ok decoder := by
  obtain ⟨parsed, parsedRan, ran⟩ := Except.bind_eq_ok.mp ran
  obtain ⟨tagged, live, allLive, counted, prunes⟩ :=
    @parseHeaderAndBuckets_prunes ext projection _ _ parsedRan
  -- the scan succeeds, since the decode builds the nodes
  obtain ⟨built, builtRan, rest⟩ := Except.bind_eq_ok.mp ran
  obtain ⟨lengthsIndex, lengthsRan, _⟩ := Except.bind_eq_ok.mp rest
  rw [activeProjectionOf_existence existence] at builtRan
  obtain ⟨flags, scanned, flagged, -, -⟩ :=
    computeNeededBuffers_covers existence (fun off => mentionsField_of_none existence (by
      cases mapped : IncludeFieldMap.fromProjection projection with
      | none => rfl
      | some includeMap =>
          rw [Option.bind_some, mapped] at off
          cases off)) tagged live builtRan lengthsRan
  obtain ⟨buffers, prunedRan, length, same⟩ := prunes scanned flagged
  have agree : Agree (Wanted parsed.numBuffers flags) parsed.buffers buffers := by
    refine ⟨length, fun index wanted => ?_⟩
    by_cases inside : index < parsed.numBuffers
    · exact same index (wanted inside)
    · rw [List.getElem?_eq_none (by omega), List.getElem?_eq_none (by omega)]
  have guardedAgree :
      Agree (Wanted parsed.numBuffers flags) parsed.buffers (buffers.map BufferCursor.guarded) := by
    refine ⟨(List.length_map ..).trans length, fun index wanted => ?_⟩
    rw [List.getElem?_map, agree.same index wanted]
    cases found : parsed.buffers[index]? with
    | none => rfl
    | some cursor =>
        have cursorLive := allLive cursor (List.mem_of_getElem? found)
        rw [Option.map_some, BufferCursor.guarded,
          if_neg (by rw [cursorLive]; exact Bool.false_ne_true)]
  exact ⟨parsed, buffers, prunedRan,
    decodeParsed_agree existence tagged live scanned buffers agree ran,
    decodeParsed_agree existence tagged live scanned _ guardedAgree ran⟩

/-- With a field that is included in full no buffer is pruned. -/
theorem parseHeaderAndBuckets_full {data : Bytes} {parsed : ParsedHeader}
    (full : projection.hasFullInclude = true)
    (ran : parseHeaderAndBuckets ext data none = .ok parsed) :
    parseHeaderAndBuckets ext data (some projection) = .ok parsed := by
  obtain ⟨_, _, _, counted, prunes⟩ := @parseHeaderAndBuckets_prunes ext projection _ _ ran
  have needed : computeNeededBuffers parsed.tags parsed.subtypesBytes parsed.hdr parsed.numBuffers
      projection = .ok (List.replicate parsed.numBuffers true) := by
    unfold computeNeededBuffers
    by_cases empty : parsed.numBuffers = 0
    · rw [if_pos empty, empty]
      rfl
    · rw [if_neg empty, if_pos full]
  obtain ⟨buffers, parsedRan, length, same⟩ := prunes needed List.length_replicate
  have all : buffers = parsed.buffers := by
    refine List.ext_getElem? fun index => ?_
    by_cases inside : index < parsed.numBuffers
    · exact same index (by rw [List.getElem?_replicate, if_pos inside])
    · rw [List.getElem?_eq_none (by omega), List.getElem?_eq_none (by omega)]
  rw [parsedRan, all]

/-- Pruning changes no decode that succeeds with all buffers. -/
theorem newWithProjection_of_unpruned {chunk : Chunk} {decoder : TransposeChunkDecoder}
    {fields : List Field} (listed : projection.fields = some fields)
    (active : projection.isAll = false)
    (ran : TransposeChunkDecoder.newUnpruned ext chunk (some projection) = .ok decoder) :
    TransposeChunkDecoder.newWithProjection ext chunk (some projection) = .ok decoder := by
  have filters : activeProjectionOf (some projection) = some projection := by
    rw [activeProjectionOf, Option.filter, active]
    rfl
  rw [TransposeChunkDecoder.newWithProjection_eq, filters]
  cases full : projection.hasFullInclude with
  | true =>
      obtain ⟨parsed, parsedRan, ran⟩ := Except.bind_eq_ok.mp ran
      exact Except.bind_eq_ok.mpr ⟨parsed, parseHeaderAndBuckets_full full parsedRan, ran⟩
  | false =>
      have existence : projection.ExistenceOnly := by
        rw [FieldProjection.hasFullInclude, listed] at full
        refine ⟨fields, listed, fun field member => ?_⟩
        have kept := List.any_eq_false.mp full field member
        simpa using kept
      obtain ⟨parsed, buffers, prunedRan, kept, _⟩ := keptBuffers_decode existence ran
      exact Except.bind_eq_ok.mpr ⟨_, prunedRan, kept⟩

/-- If the chunk decodes with all buffers under a projection of existence-only
fields, then the pruned decode gives the same records, and gives them also when
every pruned buffer fails when it is read. -/
theorem pruning_exact (ext : Externals) (chunk : Chunk) (projection : FieldProjection)
    (existence : projection.ExistenceOnly) (decoder : TransposeChunkDecoder)
    (ran : TransposeChunkDecoder.newUnpruned ext chunk (some projection) = .ok decoder) :
    TransposeChunkDecoder.newWithProjection ext chunk (some projection) = .ok decoder ∧
      TransposeChunkDecoder.newGuarded ext chunk (some projection) = .ok decoder := by
  obtain ⟨parsed, buffers, prunedRan, kept, guarded⟩ := keptBuffers_decode existence ran
  rw [TransposeChunkDecoder.newWithProjection_eq, TransposeChunkDecoder.newGuarded,
    activeProjectionOf_existence existence, prunedRan]
  exact ⟨kept, guarded⟩

/-- A chunk of one record with two strings, in a buffer each. -/
def twoStringsChunk : Chunk :=
  { header :=
      ChunkHeader.fromParts storingExternals
        [0, 15, 1, 2, 4, 2, 2, 3, 3, 10, 18, 0, 3, 4, 0, 1, 2, 1, 65, 1, 66] .transposed 1 6
    data := [0, 15, 1, 2, 4, 2, 2, 3, 3, 10, 18, 0, 3, 4, 0, 1, 2, 1, 65, 1, 66] }

/-- Asking for the first string alone prunes the buffer of the second. -/
theorem pruning_exact_twoStrings :
    TransposeChunkDecoder.newWithProjection storingExternals twoStringsChunk
        (some { fields := some [{ path := [1], existenceOnly := true }] }) =
        .ok { data := [10, 0], limits := [2], nextYield := 0 } ∧
      TransposeChunkDecoder.newGuarded storingExternals twoStringsChunk
        (some { fields := some [{ path := [1], existenceOnly := true }] }) =
        .ok { data := [10, 0], limits := [2], nextYield := 0 } :=
  pruning_exact storingExternals twoStringsChunk
    { fields := some [{ path := [1], existenceOnly := true }] }
    ⟨[{ path := [1], existenceOnly := true }], rfl, by decide⟩ _ (by decide +kernel)

end Riegeli
