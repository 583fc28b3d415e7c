/-
Module: Riegeli.Proofs.RecordSearch
Purpose: A search of a complete file is a search by halves of its records,
  grouped by chunks.
Trusted boundary: the hash and the codecs
Main exports: ListsChunks.entry, readRecordAt_at, searchLoop_at, search_at
-/
import Riegeli.Proofs.CompleteFiles
import Riegeli.Proofs.PointerScans
import Riegeli.Spec.RecordSearch

namespace Riegeli

open RecordReader

variable {ext : Externals} {projection : Option FieldProjection} {source : Bytes}
  {file earlier later : List HeldChunk} {chunk : HeldChunk} {reader : RecordReader}
  {entries : List (Nat × Nat)} {before : Nat}

/-! ## The chunks to search -/

/-- The records of the chunks that are listed, counted chunk by chunk. -/
theorem ListsChunks.total (lists : ListsChunks file before entries) :
    before + (entries.map Prod.snd).sum = (heldRecords file).length := by
  induction lists with
  | nil => rfl
  | cons _ _ _ ih =>
      rw [List.map_cons, List.sum_cons, ← Nat.add_assoc]
      exact ih

theorem ListsChunks.positive (lists : ListsChunks file before entries) :
    ∀ size ∈ entries.map Prod.snd, 0 < size := by
  induction lists with
  | nil => exact fun size member => absurd member List.not_mem_nil
  | cons _ some _ ih => exact List.forall_mem_cons.mpr ⟨some, ih⟩

/-- Every chunk that is listed is one of the file. -/
theorem ListsChunks.entry (lists : ListsChunks file before entries) :
    ∀ {group : Nat}, group < entries.length →
      ∃ earlier chunk later, file = earlier ++ chunk :: later ∧ 0 < chunk.records.length ∧
        entries[group]? = some (chunkPlace earlier, chunk.records.length) ∧
        (heldRecords earlier).length = before + groupStart (entries.map Prod.snd) group := by
  induction lists with
  | nil => exact fun within => absurd within (Nat.not_lt_zero _)
  | @cons earlier later chunk entries split some lists ih =>
      intro group within
      cases group with
      | zero => exact ⟨earlier, chunk, later, split, some, rfl, by rw [groupStart_zero, Nat.add_zero]⟩
      | succ group =>
          obtain ⟨first, other, rest, cut, more, found, counted⟩ :=
            @ih group (Nat.lt_of_succ_lt_succ within)
          refine ⟨first, other, rest, cut, more, found, ?_⟩
          rw [counted, Nat.add_assoc, groupStart, groupStart, List.map_cons, List.take_succ_cons,
            List.sum_cons]

/-- A chunk with records has the type of one. -/
theorem Opens.dataType {chunk : Chunk} {records : List Bytes}
    (opens : Opens ext projection chunk records) (some : 0 < records.length) :
    chunk.header.chunkType.toOption = Option.some .simple ∨
      chunk.header.chunkType.toOption = Option.some .transposed := by
  cases opens with
  | simple typed _ _ _ => exact .inl (by rw [typed]; rfl)
  | transposed typed _ _ _ => exact .inr (by rw [typed]; rfl)
  | special _ _ _ _ empty _ =>
      rw [empty] at some
      exact absurd some (Nat.not_lt_zero _)

/-- The scan for chunks lists those with records.  The induction is on the
chunks ahead. -/
theorem collectLoop_at (chunks : FileChunks ext projection source file)
    (facing : Facing source projection reader) (later : List HeldChunk) :
    ∀ {fuel : Nat} {earlier : List HeldChunk} {found : List (Nat × Nat)}, later.length < fuel →
      file = earlier ++ later →
      ∃ entries, ListsChunks file (heldRecords earlier).length entries ∧
        collectLoop ext fuel (chunkPlace earlier) found reader = (.ok (found ++ entries), reader) := by
  induction later with
  | nil =>
      intro fuel earlier found few split
      obtain ⟨fuel, rfl⟩ : ∃ smaller, fuel = smaller + 1 := ⟨fuel - 1, by omega⟩
      rw [List.append_nil] at split
      subst split
      refine ⟨[], .nil, ?_⟩
      rw [collectLoop, Act.bind_run]
      unfold attempt
      rw [readChunkHeaderAt_static facing.known, facing.source, headerAt_absent chunks.found_end,
        List.append_nil]
      rfl
  | cons chunk rest ih =>
      intro fuel earlier found few split
      rw [List.length_cons] at few
      obtain ⟨fuel, rfl⟩ : ∃ smaller, fuel = smaller + 1 := ⟨fuel - 1, by omega⟩
      have holds := chunks.holdsAt split
      have opens := chunks.opens chunk (by rw [split]; simp)
      have total : (heldRecords (earlier ++ [chunk])).length =
          (heldRecords earlier).length + chunk.records.length := by
        rw [heldRecords_append, List.length_append, heldRecords_cons, heldRecords_nil,
          List.append_nil]
      rw [collectLoop, Act.bind_run]
      unfold attempt
      rw [readChunkHeaderAt_static facing.known, facing.source, headerAt_held holds]
      simp only
      rw [if_neg (by rw [holds.made.headerValid]; decide), opens.numRecords, ← opens.numRecords,
        ← Chunk.stop, ← chunkPlace_snoc, opens.numRecords]
      by_cases some : 0 < chunk.records.length
      · rw [if_pos ⟨some, opens.dataType some⟩]
        obtain ⟨entries, lists, ran⟩ := @ih fuel (earlier ++ [chunk])
          (found ++ [(chunkPlace earlier, chunk.records.length)]) (by omega) (snoc_split split)
        rw [total] at lists
        refine ⟨_, .cons split some lists, ?_⟩
        rw [ran, List.append_assoc, List.singleton_append]
      · rw [if_neg (by simp [some])]
        obtain ⟨entries, lists, ran⟩ := @ih fuel (earlier ++ [chunk]) found (by omega)
          (snoc_split split)
        rw [total, Nat.eq_zero_of_not_pos some, Nat.add_zero] at lists
        exact ⟨entries, lists, ran⟩

/-! ## Probes -/

/-- The positions that the reader reports lead to records of the file. -/
structure Marked (file : List HeldChunk) (reader : RecordReader) : Prop where
  pos : ∃ index, Points file reader.pos index
  lastPos : ∃ index, Points file reader.lastPos index

/-- The reader still faces its source, and its positions still lead to
records. -/
structure KeepsMarks (source : Bytes) (projection : Option FieldProjection) (file : List HeldChunk)
    (before after : RecordReader) : Prop where
  facing : Facing source projection after
  marked : Marked file before → Marked file after

theorem KeepsMarks.trans {middle after : RecordReader} (first : KeepsMarks source projection file reader middle)
    (second : KeepsMarks source projection file middle after) :
    KeepsMarks source projection file reader after :=
  ⟨second.facing, fun marked => second.marked (first.marked marked)⟩

theorem seek_kept (chunks : FileChunks ext projection source file)
    (facing : Facing source projection reader) {target : RecordPosition}
    (points : Points file target before) :
    KeepsMarks source projection file reader (seek ext target reader).2 := by
  have seeks := seek_at chunks facing points
  refine ⟨seek_stays facingFrame_repositions target reader facing, fun marked => ⟨⟨before, seeks.points⟩, ?_⟩⟩
  rw [seeks.lastPos]
  exact marked.lastPos

/-- A probe reads the record it is after, wherever the reader is. -/
theorem readRecordAt_at (chunks : FileChunks ext projection source file)
    (facing : Facing source projection reader) (split : file = earlier ++ chunk :: later)
    {offset : Nat} (within : offset < chunk.records.length) :
    ∃ after, readRecordAt ext (chunkPlace earlier) offset reader =
        (.ok (some ((heldRecords file).getD ((heldRecords earlier).length + offset) [])), after) ∧
      KeepsMarks source projection file reader after ∧
      Points file after.pos ((heldRecords earlier).length + offset + 1) := by
  have points : Points file { chunkBegin := chunkPlace earlier, recordIndex := offset }
      ((heldRecords earlier).length + offset) := by
    refine ⟨earlier, chunk :: later, split, chunks.canonical split, ?_⟩
    change _ = _ + min offset chunk.records.length
    omega
  have sought := seek_at chunks facing points
  have kept := seek_kept chunks facing points
  have total : (heldRecords (earlier ++ [chunk])).length =
      (heldRecords earlier).length + chunk.records.length := by
    rw [heldRecords_append, List.length_append, heldRecords_cons, heldRecords_nil, List.append_nil]
  have listed : (heldRecords earlier).length + offset < (heldRecords file).length := by
    rw [split, heldRecords_append, heldRecords_cons, List.length_append, List.length_append]
    omega
  have reads := readRecord_at chunks kept.facing sought.stands
  obtain ⟨names, points, begun⟩ := reads.record listed
  -- the record comes from the chunk that was sought
  have here : (readRecord ext (seek ext
      { chunkBegin := chunkPlace earlier, recordIndex := offset } reader).2).2.currentChunkBegin =
        chunkPlace earlier := by
    rw [← begun]
    obtain ⟨first, other, rest, cut, place, short, counted⟩ := names
    have highOther : (heldRecords (first ++ [other])).length =
        (heldRecords first).length + other.records.length := by
      rw [heldRecords_append, List.length_append, heldRecords_cons, heldRecords_nil, List.append_nil]
    have same := chunks.holding_unique split cut (Nat.le_add_right _ offset) (by omega) (by omega)
      (by omega)
    rw [place, same]
  have ran : seek ext { chunkBegin := chunkPlace earlier, recordIndex := offset } reader =
      (.ok (), (seek ext { chunkBegin := chunkPlace earlier, recordIndex := offset } reader).2) :=
    Prod.ext sought.result rfl
  have read := reads.result
  rw [List.getElem?_eq_getElem listed] at read
  refine ⟨_, ?_, kept.trans ⟨readRecord_stays facingFrame_repositions _ kept.facing, fun _ =>
    ⟨⟨_, points⟩, _, names.stepsTo.points chunks⟩⟩, points⟩
  unfold readRecordAt
  rw [Act.bind_run_ok ran, Act.bind_run_ok (Prod.ext read rfl), Act.bind_run_ok (Act.get_run _)]
  simp only
  rw [if_pos here, List.getD_eq_getElem _ _ listed]
  rfl

/-! ## The two searches -/

/-- The reader's position is behind the record that was probed last, or as it
was. -/
def RestsBehind (file : List HeldChunk) (before after : RecordReader) : Option Nat → Prop
  | some index => Points file after.pos (index + 1)
  | none => after.pos = before.pos

/-- Further probes leave the position behind the last of them all. -/
theorem RestsBehind.trans {first second : Option Nat} {middle after : RecordReader}
    (rests : RestsBehind file reader middle first) (further : RestsBehind file middle after second) :
    RestsBehind file reader after (second.or first) := by
  cases second with
  | some index => exact further
  | none =>
      have same : after.pos = middle.pos := further
      rw [Option.none_or]
      cases first with
      | some index =>
          rw [RestsBehind, same]
          exact rests
      | none => exact same.trans rests

/-- What a search inside a chunk comes to, from how a search by halves ends and
what it probes last. -/
def WithinOutcome (source : Bytes) (projection : Option FieldProjection) (file : List HeldChunk)
    (reader : RecordReader) (start : Nat) (outcome : Except Fault Bool × RecordReader)
    (last : Option Nat) : Bisected → Prop
  | .found offset =>
      outcome.1 = .ok true ∧ KeepsMarks source projection file reader outcome.2 ∧
        ReaderAt file outcome.2 (start + offset) ∧ Points file outcome.2.pos (start + offset)
  | .left _ =>
      outcome.1 = .ok false ∧ KeepsMarks source projection file reader outcome.2 ∧
        RestsBehind file reader outcome.2 (last.map (start + ·))

theorem WithinOutcome.trans {start offset : Nat} {middle : RecordReader} {last : Option Nat}
    {outcome : Except Fault Bool × RecordReader} {ends : Bisected}
    (kept : KeepsMarks source projection file reader middle)
    (rests : RestsBehind file reader middle (some (start + offset)))
    (within : WithinOutcome source projection file middle start outcome last ends) :
    WithinOutcome source projection file reader start outcome (last.or (some offset)) ends := by
  cases ends with
  | found offset => exact ⟨within.1, kept.trans within.2.1, within.2.2⟩
  | left bound =>
      refine ⟨within.1, kept.trans within.2.1, ?_⟩
      rw [Option.map_or]
      exact rests.trans within.2.2

theorem KeepsMarks.refl (facing : Facing source projection reader) :
    KeepsMarks source projection file reader reader := ⟨facing, id⟩

/-- The search inside a chunk.  The induction is on the passes. -/
theorem withinChunkLoop_at (chunks : FileChunks ext projection source file)
    (split : file = earlier ++ chunk :: later) (test : Bytes → Ordering) (fuel : Nat) :
    ∀ {lo hi : Nat} {reader : RecordReader}, Facing source projection reader →
      hi ≤ chunk.records.length → hi - lo < fuel →
      WithinOutcome source projection file reader (heldRecords earlier).length
        (withinChunkLoop ext test (chunkPlace earlier) fuel lo hi reader)
        (bisectLast (fun offset =>
          comparisonAt test (heldRecords file) ((heldRecords earlier).length + offset)) fuel lo hi)
        (bisect (fun offset =>
          comparisonAt test (heldRecords file) ((heldRecords earlier).length + offset)) fuel lo hi) := by
  induction fuel with
  | zero =>
      intro lo hi reader _ _ few
      omega
  | succ fuel ih =>
      intro lo hi reader facing short few
      rw [withinChunkLoop, bisect, bisectLast]
      by_cases more : lo < hi
      · rw [if_pos more, if_pos more, if_pos more]
        generalize half : lo + (hi - lo) / 2 = mid
        obtain ⟨after, read, kept, behind⟩ := @readRecordAt_at ext projection source file earlier later
          chunk reader chunks facing split mid (by omega)
        rw [Act.bind_run_ok read]
        simp only [comparisonAt]
        cases test ((heldRecords file).getD ((heldRecords earlier).length + mid) []) with
        | lt => exact (ih kept.facing short (by omega)).trans kept behind
        | gt => exact (ih kept.facing (by omega) (by omega)).trans kept behind
        | eq =>
            have points : Points file { chunkBegin := chunkPlace earlier, recordIndex := mid }
                ((heldRecords earlier).length + mid) := by
              refine ⟨earlier, chunk :: later, split, chunks.canonical split, ?_⟩
              change _ = _ + min mid chunk.records.length
              omega
            have sought := seek_at chunks kept.facing points
            have ran : seek ext { chunkBegin := chunkPlace earlier, recordIndex := mid } after =
                (.ok (), (seek ext { chunkBegin := chunkPlace earlier, recordIndex := mid } after).2) :=
              Prod.ext sought.result rfl
            simp only
            rw [Act.bind_run_ok ran]
            exact ⟨rfl, kept.trans (seek_kept chunks kept.facing points), sought.stands,
              sought.points⟩
      · rw [if_neg more, if_neg more, if_neg more]
        exact ⟨rfl, KeepsMarks.refl facing, rfl⟩

/-- What the search over the chunks comes to, from how a search by halves ends
and what it probes last. -/
def ChunksOutcome (source : Bytes) (projection : Option FieldProjection) (file : List HeldChunk)
    (reader : RecordReader) (sizes : List Nat) (outcome : Except Fault ChunkSearch × RecordReader)
    (last : Option Nat) : Bisected → Prop
  | .found group =>
      outcome.1 = .ok .found ∧ KeepsMarks source projection file reader outcome.2 ∧
        ReaderAt file outcome.2 (groupStart sizes group) ∧
        Points file outcome.2.pos (groupStart sizes group)
  | .left bound =>
      outcome.1 = .ok (.left bound) ∧ KeepsMarks source projection file reader outcome.2 ∧
        RestsBehind file reader outcome.2 (last.map (groupStart sizes))

theorem ChunksOutcome.trans {sizes : List Nat} {group : Nat} {middle : RecordReader}
    {last : Option Nat} {outcome : Except Fault ChunkSearch × RecordReader} {ends : Bisected}
    (kept : KeepsMarks source projection file reader middle)
    (rests : RestsBehind file reader middle (some (groupStart sizes group)))
    (searched : ChunksOutcome source projection file middle sizes outcome last ends) :
    ChunksOutcome source projection file reader sizes outcome (last.or (some group)) ends := by
  cases ends with
  | found group => exact ⟨searched.1, kept.trans searched.2.1, searched.2.2⟩
  | left bound =>
      refine ⟨searched.1, kept.trans searched.2.1, ?_⟩
      rw [Option.map_or]
      exact rests.trans searched.2.2

/-- The first record of a chunk is always readable, so the first probe
serves. -/
theorem probeLoop_at (chunks : FileChunks ext projection source file)
    (lists : ListsChunks file 0 entries) (test : Bytes → Ordering)
    (facing : Facing source projection reader) {probe hi : Nat} (fuel : Nat) (more : probe < hi)
    (listed : hi ≤ entries.length) :
    ∃ earlier chunk later after, file = earlier ++ chunk :: later ∧ 0 < chunk.records.length ∧
      (heldRecords earlier).length = groupStart (entries.map Prod.snd) probe ∧
      probeLoop ext test entries hi (fuel + 1) probe reader =
        (.ok (some (probe, chunkPlace earlier,
          comparisonAt test (heldRecords file) (groupStart (entries.map Prod.snd) probe))), after) ∧
      KeepsMarks source projection file reader after ∧
      Points file after.pos (groupStart (entries.map Prod.snd) probe + 1) := by
  obtain ⟨earlier, chunk, later, split, some, found, counted⟩ :=
    lists.entry (show probe < entries.length by omega)
  rw [Nat.zero_add] at counted
  obtain ⟨after, read, kept, behind⟩ := @readRecordAt_at ext projection source file earlier later chunk
    reader chunks facing split 0 some
  rw [Nat.add_zero, counted] at behind
  refine ⟨earlier, chunk, later, after, split, some, counted, ?_, kept, behind⟩
  have indexed : indexAt entries probe = .ok (chunkPlace earlier, chunk.records.length) :=
    indexAt_eq_ok.mpr found
  rw [probeLoop, if_pos more, Act.bind_run, Act.lift_run, indexed]
  simp only
  rw [Act.bind_run_ok read]
  simp only
  rw [Nat.add_zero, counted]
  rfl

/-- The search over the chunks by their first records.  The induction is on the
passes. -/
theorem searchLoop_at (chunks : FileChunks ext projection source file)
    (lists : ListsChunks file 0 entries) (test : Bytes → Ordering) (fuel : Nat) :
    ∀ {lo hi : Nat} {reader : RecordReader}, Facing source projection reader →
      hi ≤ entries.length → hi - lo < fuel →
      ChunksOutcome source projection file reader (entries.map Prod.snd)
        (searchLoop ext test entries fuel lo hi reader)
        (bisectLast (fun group =>
          comparisonAt test (heldRecords file) (groupStart (entries.map Prod.snd) group)) fuel lo hi)
        (bisect (fun group =>
          comparisonAt test (heldRecords file) (groupStart (entries.map Prod.snd) group)) fuel lo hi) := by
  induction fuel with
  | zero =>
      intro lo hi reader _ _ few
      omega
  | succ fuel ih =>
      intro lo hi reader facing short few
      rw [searchLoop, bisect, bisectLast]
      by_cases more : lo < hi
      · rw [if_pos more, if_pos more, if_pos more]
        generalize half : lo + (hi - lo) / 2 = mid
        obtain ⟨earlier, chunk, later, after, split, some, counted, probed, kept, behind⟩ :=
          probeLoop_at chunks lists test facing (hi - mid) (show mid < hi by omega) short
        rw [Act.bind_run_ok probed]
        cases comparisonAt test (heldRecords file) (groupStart (entries.map Prod.snd) mid) with
        | lt => exact (ih kept.facing short (by omega)).trans kept behind
        | gt => exact (ih kept.facing (by omega) (by omega)).trans kept behind
        | eq =>
            have points : Points file { chunkBegin := chunkPlace earlier, recordIndex := 0 }
                (groupStart (entries.map Prod.snd) mid) := by
              refine ⟨earlier, chunk :: later, split, chunks.canonical split, ?_⟩
              rw [← counted, Nat.zero_min, Nat.add_zero]
            have sought := seek_at chunks kept.facing points
            have ran : seek ext { chunkBegin := chunkPlace earlier, recordIndex := 0 } after =
                (.ok (), (seek ext { chunkBegin := chunkPlace earlier, recordIndex := 0 } after).2) :=
              Prod.ext sought.result rfl
            simp only
            rw [Act.bind_run_ok ran]
            exact ⟨rfl, kept.trans (seek_kept chunks kept.facing points), sought.stands,
              sought.points⟩
      · rw [if_neg more, if_neg more, if_neg more]
        exact ⟨rfl, KeepsMarks.refl facing, rfl⟩

/-- What a search comes to: in front of the record found, or at the end, but
with the position behind the record that was probed last. -/
structure SearchesTo (source : Bytes) (projection : Option FieldProjection) (file : List HeldChunk)
    (reader : RecordReader) (found last : Option Nat) (outcome : Except Fault Bool × RecordReader) :
    Prop where
  result : outcome.1 = .ok found.isSome
  kept : KeepsMarks source projection file reader outcome.2
  stands : ReaderAt file outcome.2 (found.getD (heldRecords file).length)
  points : ∀ index, found = some index → Points file outcome.2.pos index
  missed : found = none → RestsBehind file reader outcome.2 last ∧
    outcome.2.currentDecoder = none ∧ outcome.2.nextChunkFilePos = chunkPlace file

/-- A search that finds nothing parks at the end of the file. -/
theorem parked (chunks : FileChunks ext projection source file)
    {middle : RecordReader} (kept : KeepsMarks source projection file reader middle)
    {last : Option Nat} (rests : RestsBehind file reader middle last) :
    SearchesTo source projection file reader none last
      ((do
        parkAtEndOfStream
        pure false : RecordReader.Method Bool) middle) := by
  have atEnd : max middle.streamLen firstDataChunk = chunkPlace file := by
    obtain ⟨signature, rest, opening, place, _, _⟩ := chunks.first
    have mono := (@FileChunks.place_mono ext projection source file signature [] chunks rest
      (by rw [opening, List.append_nil])).2
    rw [← opening] at mono
    rw [kept.facing.known, kept.facing.source, chunks.length]
    omega
  refine ⟨rfl, ⟨⟨kept.facing.known, kept.facing.source, kept.facing.fieldProjection⟩,
    fun marked => ⟨(kept.marked marked).pos, (kept.marked marked).lastPos⟩⟩, ?_,
    fun _ impossible => (by cases impossible), fun _ => ⟨?_, rfl, atEnd⟩⟩
  · exact .between (List.append_nil file).symm rfl atEnd
      ⟨file, [], (List.append_nil file).symm, .inl atEnd, Nat.zero_le _, rfl⟩
  · cases last with
    | none => exact rests
    | some index => exact rests

/-- The end of a search: inside the chunk before the bound, if there is one. -/
theorem searchBefore_at (chunks : FileChunks ext projection source file)
    (lists : ListsChunks file 0 entries) (test : Bytes → Ordering) {middle : RecordReader}
    (kept : KeepsMarks source projection file reader middle) {last : Option Nat}
    (rests : RestsBehind file reader middle last) {bound : Nat} (short : bound ≤ entries.length) :
    SearchesTo source projection file reader
      (bisectBefore (comparisonAt test (heldRecords file)) (entries.map Prod.snd) bound)
      ((lastBefore (comparisonAt test (heldRecords file)) (entries.map Prod.snd) bound).or last)
      (searchBefore ext test entries bound middle) := by
  cases bound with
  | zero =>
      rw [searchBefore, if_neg (Nat.not_lt_zero _)]
      exact parked chunks kept rests
  | succ group =>
      obtain ⟨earlier, chunk, later, split, some, found, counted⟩ := lists.entry short
      rw [Nat.zero_add] at counted
      have indexed : indexAt entries (group + 1 - 1) = .ok (chunkPlace earlier, chunk.records.length) :=
        indexAt_eq_ok.mpr found
      have size : (entries.map Prod.snd).getD group 0 = chunk.records.length := by
        rw [List.getD_eq_getElem?_getD, List.getElem?_map, found]
        rfl
      have loop := @withinChunkLoop_at ext projection source file earlier later chunk chunks split test
        (chunk.records.length + 1) 1 chunk.records.length middle kept.facing (Nat.le_refl _)
        (by omega)
      rw [searchBefore, if_pos (Nat.succ_pos _), Act.bind_run, Act.lift_run, indexed]
      simp only
      rw [binarySearchWithinChunk, if_neg (by omega), bisectBefore, lastBefore, size, bisectGroup,
        lastInGroup, ← counted]
      cases ends : bisect (fun offset => comparisonAt test (heldRecords file)
          ((heldRecords earlier).length + offset)) (chunk.records.length + 1) 1
          chunk.records.length with
      | found offset =>
          rw [ends] at loop
          obtain ⟨result, searched, stands, points⟩ := loop
          rw [Act.bind_run_ok (Prod.ext result rfl)]
          exact ⟨rfl, kept.trans searched, stands, fun index same => Option.some.inj same ▸ points,
            fun impossible => by cases impossible⟩
      | left bound =>
          rw [ends] at loop
          obtain ⟨result, searched, behind⟩ := loop
          rw [Act.bind_run_ok (Prod.ext result rfl)]
          exact parked chunks (kept.trans searched) (rests.trans behind)

/-- A search goes through the records by halves. -/
theorem search_at (chunks : FileChunks ext projection source file)
    (facing : Facing source projection reader) (test : Bytes → Ordering) :
    ∃ entries, ListsChunks file 0 entries ∧ (collectDataChunks ext reader).1 = .ok entries ∧
      SearchesTo source projection file reader
        (bisectGroups (comparisonAt test (heldRecords file)) (entries.map Prod.snd))
        (lastProbe (comparisonAt test (heldRecords file)) (entries.map Prod.snd))
        (search ext test reader) := by
  have cleared : Facing source projection { reader with pendingTrustedEnd := none } :=
    ⟨facing.known, facing.source, facing.fieldProjection⟩
  obtain ⟨signature, rest, opening, place, none, _⟩ := chunks.first
  have within := chunks.length_le opening
  obtain ⟨entries, lists, collected⟩ := @collectLoop_at ext projection source file
    { reader with pendingTrustedEnd := Option.none } chunks cleared rest reader.forwardFuel signature []
    (by
      unfold forwardFuel
      rw [facing.source]
      omega) opening
  rw [none, List.nil_append, ← place] at *
  have start : KeepsMarks source projection file reader { reader with pendingTrustedEnd := Option.none } :=
    ⟨cleared, fun marked => ⟨marked.pos, marked.lastPos⟩⟩
  have ran : collectDataChunks ext reader =
      (.ok entries, { reader with pendingTrustedEnd := Option.none }) := collected
  refine ⟨entries, lists, congrArg Prod.fst ran, ?_⟩
  unfold search
  rw [Act.bind_run_ok ran]
  by_cases empty : entries.isEmpty
  · rw [if_pos empty]
    rw [List.isEmpty_iff.mp empty]
    exact parked chunks start rfl
  · rw [if_neg empty]
    have loop := @searchLoop_at ext projection source file entries chunks lists test
      (entries.length + 1) 0 entries.length _ cleared (Nat.le_refl _) (Nat.lt_succ_self _)
    unfold bisectGroups lastProbe lastGroup
    rw [List.length_map]
    cases ends : bisect (fun group => comparisonAt test (heldRecords file)
        (groupStart (entries.map Prod.snd) group)) (entries.length + 1) 0 entries.length with
    | found group =>
        rw [ends] at loop
        obtain ⟨result, kept, stands, points⟩ := loop
        rw [Act.bind_run_ok (Prod.ext result rfl)]
        exact ⟨rfl, start.trans kept, stands, fun index same => Option.some.inj same ▸ points,
          fun impossible => by cases impossible⟩
    | left bound =>
        rw [ends] at loop
        obtain ⟨result, kept, behind⟩ := loop
        rw [Act.bind_run_ok (Prod.ext result rfl)]
        exact searchBefore_at chunks lists test (start.trans kept)
          (by exact behind) (bisect_left_le _ (Nat.zero_le _) ends)

/-! ## Sorted files -/

/-- How a record of a sorted list compares says in which part it is. -/
theorem comparisonAt_part {test : Bytes → Ordering} {less equal greater : List Bytes}
    (allLess : ∀ record ∈ less, test record = .lt) (allEqual : ∀ record ∈ equal, test record = .eq)
    (allGreater : ∀ record ∈ greater, test record = .gt) {index : Nat}
    (within : index < (less ++ equal ++ greater).length) :
    (index < less.length ∧ comparisonAt test (less ++ equal ++ greater) index = .lt) ∨
      (less.length ≤ index ∧ index < less.length + equal.length ∧
        comparisonAt test (less ++ equal ++ greater) index = .eq) ∨
      (less.length + equal.length ≤ index ∧
        comparisonAt test (less ++ equal ++ greater) index = .gt) := by
  rw [comparisonAt, List.getD_eq_getElem _ _ within]
  rcases Nat.lt_or_ge index less.length with low | low
  · refine .inl ⟨low, allLess _ ?_⟩
    rw [List.getElem_append_left (by rw [List.length_append]; omega), List.getElem_append_left low]
    exact List.getElem_mem low
  · rcases Nat.lt_or_ge index (less.length + equal.length) with high | high
    · refine .inr (.inl ⟨low, high, allEqual _ ?_⟩)
      rw [List.getElem_append_left (by rw [List.length_append]; omega), List.getElem_append_right low]
      exact List.getElem_mem _
    · refine .inr (.inr ⟨high, allGreater _ ?_⟩)
      rw [List.getElem_append_right (by rw [List.length_append]; omega)]
      exact List.getElem_mem _

theorem SortedFor.ascending {test : Bytes → Ordering} {records : List Bytes}
    (sorted : SortedFor test records) : Ascending (comparisonAt test records) 0 records.length := by
  obtain ⟨less, equal, greater, rfl, allLess, allEqual, allGreater⟩ := sorted
  have part := fun {index : Nat} => @comparisonAt_part test less equal greater allLess allEqual
    allGreater index
  constructor
  · intro low high _ ordered within compared
    rcases part within with ⟨early, _⟩ | ⟨_, _, same⟩ | ⟨_, same⟩
    · rcases part (ordered.trans_lt within) with ⟨_, lower⟩ | ⟨late, _, _⟩ | ⟨late, _⟩
      · exact lower
      · omega
      · omega
    · rw [compared] at same
      cases same
    · rw [compared] at same
      cases same
  · intro low high _ ordered within compared
    rcases part (ordered.trans_lt within) with ⟨_, same⟩ | ⟨_, _, same⟩ | ⟨late, _⟩
    · rw [compared] at same
      cases same
    · rw [compared] at same
      cases same
    · rcases part within with ⟨early, _⟩ | ⟨_, early, _⟩ | ⟨_, higher⟩
      · omega
      · omega
      · exact higher

/-- On a file of chunks whose records are sorted for the comparison a search is
exact. -/
theorem FileChunks.searchExact (chunks : FileChunks ext projection source file)
    (facing : Facing source projection reader) {test : Bytes → Ordering}
    (sorted : SortedFor test (heldRecords file)) :
    SearchExact ext test (heldRecords file) (search ext test reader) := by
  obtain ⟨entries, lists, _, searched⟩ := search_at chunks facing test
  have total := lists.total
  have next := (readRecord_at chunks searched.kept.facing searched.stands).result
  have result := searched.result
  rw [Nat.zero_add] at total
  have ascending := sorted.ascending
  rw [← total] at ascending
  cases found : bisectGroups (comparisonAt test (heldRecords file)) (entries.map Prod.snd) with
  | none =>
      rw [found] at result next
      have none := bisectGroups_none lists.positive ascending found
      have missing : ¬ ∃ record ∈ heldRecords file, test record = .eq := by
        rintro ⟨record, member, same⟩
        obtain ⟨index, within, rfl⟩ := List.getElem_of_mem member
        refine none index (by rw [total]; exact within) ?_
        rw [comparisonAt, List.getD_eq_getElem _ _ within]
        exact same
      refine ⟨⟨false, result, by simp [missing]⟩, fun impossible => ?_, fun _ => ?_⟩
      · rw [result] at impossible
        cases impossible
      · rw [next, Option.getD_none, List.getElem?_eq_none (Nat.le_refl _)]
  | some index =>
      rw [found] at result next
      obtain ⟨within, same⟩ := bisectGroups_some lists.positive found
      rw [total] at within
      rw [comparisonAt, List.getD_eq_getElem _ _ within] at same
      have listed : (heldRecords file)[index] ∈ heldRecords file := List.getElem_mem within
      refine ⟨⟨true, result, by simp only [true_iff]; exact ⟨_, listed, same⟩⟩,
        fun _ => ⟨_, listed, same, ?_⟩, fun impossible => ?_⟩
      · rw [next, Option.getD_some, List.getElem?_eq_getElem within]
      · rw [result] at impossible
        cases impossible

/-- On a complete file whose records are sorted for the comparison a search is
exact, from every reader that some operations lead to. -/
theorem search_exact (lawful : ext.Lawful) {written : WriterOptions} {ops : List WriterOp}
    {writer flushed : RecordWriter}
    (complete : CompleteFile ext written ops source writer flushed) {options : ReaderOptions}
    (reached : ReaderReached ext source options reader) (unprojected : reader.fieldProjection = none)
    {test : Bytes → Ordering} (sorted : SortedFor test (writtenRecords ops)) :
    SearchExact ext test (writtenRecords ops) (search ext test reader) := by
  obtain ⟨held, holds, records⟩ := complete.holds lawful
  have all : heldRecords ((signatureChunk ext).bare :: held) = writtenRecords ops := by
    rw [heldRecords_cons, records]
    rfl
  have facing : Facing source none reader :=
    ⟨reached.measured.streamLen, reached.measured.source, unprojected⟩
  rw [← all] at sorted ⊢
  exact holds.fileChunks.searchExact facing sorted

theorem search_exact_plainFile :
    SearchExact storingExternals (fun record => compare (4 - record.length) 3) [[1, 2, 3], [4]]
      (search storingExternals (fun record => compare (4 - record.length) 3)
        (RecordReader.initial plainFile ReaderOptions.new)) :=
  search_exact storingExternals_lawful plainFile_complete
    ⟨_, [], plainFile_complete.opens storingExternals_lawful ReaderOptions.new, rfl⟩ rfl
    ⟨[[1, 2, 3]], [[4]], [], rfl, by decide, by decide, by decide⟩

end Riegeli
