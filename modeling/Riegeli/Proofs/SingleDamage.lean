/-
Module: Riegeli.Proofs.SingleDamage
Purpose: One altered chunk of a complete file costs its own records, and with an
  altered header those of the chunks up to the next block boundary, as one region.
Trusted boundary: the hash, the codecs and the sink
Main exports: AlteredOnly.damaged, FileChunks.heldRecords_unique, single_damage
-/
import Riegeli.Proofs.Damage
import Riegeli.Proofs.ProjectedAccess

namespace Riegeli

open RecordReader

variable {ext : Externals} {projection : Option FieldProjection} {source altered : Bytes}
  {file earlier later : List HeldChunk} {chunk : HeldChunk} {chunkBegin first count : Nat}

/-! ## Spared chunks -/

/-- These chunks with nothing altered. -/
def spare (held : List HeldChunk) : List MarkedChunk := held.map fun chunk => ⟨chunk, .spared⟩

@[simp] theorem heldChunks_spare (held : List HeldChunk) : heldChunks (spare held) = held := by
  rw [heldChunks, spare, List.map_map]
  exact List.map_id _

/-- A file of which one chunk shows a damage. -/
def damagedAt (earlier : List HeldChunk) (chunk : HeldChunk) (damage : Damage)
    (later : List HeldChunk) : List MarkedChunk :=
  spare earlier ++ ⟨chunk, damage⟩ :: spare later

@[simp] theorem heldChunks_damagedAt (damage : Damage) :
    heldChunks (damagedAt earlier chunk damage later) = earlier ++ chunk :: later := by
  rw [damagedAt, heldChunks_append, heldChunks_spare]
  exact congrArg (fun rest => earlier ++ chunk :: rest) (heldChunks_spare later)

/-- Spared chunks leave their records and lose nothing. -/
theorem remnants_spare (held : List HeldChunk) (tail : List MarkedChunk) :
    ∀ {resume place : Nat}, resume ≤ place → ∃ records,
      remnants resume place (spare held ++ tail) =
        records ++ remnants resume (fileStop place (held.map HeldChunk.chunk)) tail ∧
      records.filterMap Remnant.record? = heldRecords held ∧
      records.filterMap Remnant.span? = [] := by
  induction held with
  | nil => exact fun _ => ⟨[], rfl, rfl, rfl⟩
  | cons chunk rest ih =>
      intro resume place behind
      have onward : place < chunk.chunk.stop place := lt_chunkEnd _ _ _
      obtain ⟨records, same, kept, none⟩ := @ih resume (chunk.chunk.stop place) (by omega)
      refine ⟨chunk.records.map (.record place) ++ records, ?_, ?_, ?_⟩
      · rw [List.append_assoc]
        change remnants resume place (⟨chunk, .spared⟩ :: (spare rest ++ tail)) = _
        rw [remnants]
        dsimp only
        rw [if_neg (Nat.not_lt.mpr behind), same]
        rfl
      · rw [List.filterMap_append, kept, heldRecords_cons, List.filterMap_map]
        exact congrArg (· ++ heldRecords rest) List.filterMap_some
      · rw [List.filterMap_append, none, List.append_nil, List.filterMap_map]
        exact List.filterMap_eq_nil_iff.mpr fun _ _ => rfl

/-! ## What is altered and what is not -/

theorem carrierOf_injective {index other : Nat} (same : carrierOf chunkBegin index = carrierOf chunkBegin other) : index = other := by
  have distances := congrArg usable same
  rw [carrierOf, carrierOf, usable_bodyPlace, usable_bodyPlace] at distances
  omega

theorem carriedBytes_congr
    (same : ∀ index, first ≤ index → index < first + count →
      altered[carrierOf chunkBegin index]? = source[carrierOf chunkBegin index]?) :
    carriedBytes altered chunkBegin first count = carriedBytes source chunkBegin first count := by
  unfold carriedBytes
  refine List.map_congr_left fun index member => ?_
  obtain ⟨lower, upper⟩ := List.mem_range'_1.mp member
  rw [List.getD_eq_getElem?_getD, List.getD_eq_getElem?_getD, same index lower upper]

/-- What one chunk carries is never in a block header. -/
theorem AlteredOnly.sameFrame (only : AlteredOnly source altered chunkBegin first count)
    (possible : isPossibleChunkBoundary chunkBegin = true) : SameFrame source altered := by
  refine ⟨only.length, fun pos inside => only.elsewhere pos fun index _ _ same => ?_⟩
  have outside := bodyPlace_outside possible index
  unfold blockSize blockHeaderSize at inside
  rw [carrierOf] at same
  omega

/-- Bytes of the same chunk beside those altered are kept. -/
theorem AlteredOnly.carries_beside (only : AlteredOnly source altered chunkBegin first count)
    {start many : Nat} (beside : start + many ≤ first ∨ first + count ≤ start) :
    carriedBytes altered chunkBegin start many = carriedBytes source chunkBegin start many := by
  refine carriedBytes_congr fun index lower upper => only.elsewhere _ fun other after before same => ?_
  have equal := carrierOf_injective same
  omega

/-- Chunks beside the altered one are spared. -/
theorem AlteredOnly.spares (only : AlteredOnly source altered chunkBegin first count)
    {chunk other : Chunk} {otherBegin : Nat} (holds : HoldsAt ext source chunkBegin chunk)
    (within : first + count ≤ 40 + chunk.header.dataSize)
    (holdsOther : HoldsAt ext source otherBegin other)
    (apart : other.stop otherBegin ≤ chunkBegin ∨ chunk.stop chunkBegin ≤ otherBegin) :
    Damage.Shown ext altered otherBegin other .spared := by
  refine Eq.trans (carriedBytes_congr fun index _ short => only.elsewhere _
    fun changed _ before same => ?_) holdsOther.carries
  have here : index < 40 + other.header.dataSize := by
    change index < 0 + (40 + other.header.dataSize) at short
    omega
  have there : changed < 40 + chunk.header.dataSize := by omega
  have inside := holdsOther.carrier_within here
  have insideChunk := holds.carrier_within there
  rw [← same] at insideChunk
  omega

theorem spare_spared {marked : MarkedChunk} {chunks : List HeldChunk}
    (member : marked ∈ spare chunks) : marked.damage = .spared := by
  obtain ⟨_, _, rfl⟩ := List.mem_map.mp member
  rfl

/-- Each chunk is the one that shows the damage, or it is spared and stands in front
of that one or behind it. -/
theorem damagedAt_parts {damage : Damage} {before after : List MarkedChunk} {marked : MarkedChunk}
    (cut : damagedAt earlier chunk damage later = before ++ marked :: after) :
    heldChunks before = earlier ∧ marked = ⟨chunk, damage⟩ ∨
      marked.damage = .spared ∧
        ((∃ between, earlier = heldChunks before ++ [marked.held] ++ between) ∨
          ∃ between, heldChunks before = earlier ++ [chunk] ++ between) := by
  rcases List.append_eq_append_iff.mp cut with ⟨between, front, back⟩ | ⟨between, front, back⟩
  · cases between with
    | nil =>
        obtain ⟨rfl, _⟩ := List.cons.inj back
        rw [front, List.append_nil, heldChunks_spare]
        exact .inl ⟨rfl, rfl⟩
    | cons next between =>
        obtain ⟨rfl, rest⟩ := List.cons.inj back
        refine .inr ⟨@spare_spared _ later ?_, .inr ⟨heldChunks between, ?_⟩⟩
        · rw [rest]
          exact List.mem_append_right _ (List.mem_cons_self ..)
        · rw [front, heldChunks_append, heldChunks_spare, List.append_assoc]
          rfl
  · cases between with
    | nil =>
        obtain ⟨rfl, _⟩ := List.cons.inj back
        rw [List.append_nil] at front
        rw [← front, heldChunks_spare]
        exact .inl ⟨rfl, rfl⟩
    | cons next between =>
        obtain ⟨rfl, rest⟩ := List.cons.inj back
        refine .inr ⟨@spare_spared _ earlier ?_, .inl ⟨heldChunks between, ?_⟩⟩
        · rw [front]
          exact List.mem_append_right _ (List.mem_cons_self ..)
        · rw [← heldChunks_spare earlier, front, heldChunks_append, List.append_assoc]
          rfl

/-- A file of which one chunk alone is altered is damaged there and nowhere else. -/
theorem AlteredOnly.damaged (chunks : FileChunks ext projection source file)
    (split : file = earlier ++ chunk :: later) (behind : earlier ≠ [])
    (only : AlteredOnly source altered (chunkPlace earlier) first count)
    (within : first + count ≤ 40 + chunk.chunk.header.dataSize) {damage : Damage}
    (shown : damage.Shown ext altered (chunkPlace earlier) chunk.chunk) :
    Damaged ext source altered (damagedAt earlier chunk damage later) := by
  have holds := chunks.holdsAt split
  have frame := only.sameFrame holds.standing.possible
  refine ⟨frame.length, frame.blockHeaders, fun head rest starts => ?_, fun before marked after cut => ?_⟩
  · cases earlier with
    | nil => exact absurd rfl behind
    | cons signature others =>
        obtain ⟨rfl, _⟩ := List.cons.inj starts
        rfl
  · have held := congrArg heldChunks cut
    rw [heldChunks_damagedAt, heldChunks_append] at held
    have inside : file = heldChunks before ++ marked.held :: heldChunks after := split.trans held
    rcases damagedAt_parts cut with ⟨rfl, rfl⟩ | ⟨unaltered, apart⟩
    · exact shown
    · rw [unaltered]
      refine only.spares holds within (chunks.holdsAt inside) ?_
      rcases apart with ⟨between, place⟩ | ⟨between, place⟩
      · have ordered := (chunks.place_mono (split.trans (congrArg (· ++ chunk :: later) place))).2
        rw [chunkPlace_snoc, ← place] at ordered
        exact .inl (by omega)
      · have ordered := (chunks.place_mono
          (inside.trans (congrArg (· ++ marked.held :: heldChunks after) place))).2
        rw [chunkPlace_snoc, ← place] at ordered
        exact .inr (by omega)

/-! ## The records of a file -/

theorem readsOf_injective {left right : List Bytes}
    (same : ∀ count, readsOf left count = readsOf right count) : left = right := by
  refine List.ext_getElem? fun index => ?_
  have here := congrArg (fun reads => reads[index]?) (same (index + 1))
  simpa [readsOf] using here

/-- A file that nothing has altered. -/
theorem FileChunks.undamaged (chunks : FileChunks ext projection source file) :
    Damaged ext source source (spare file) := by
  refine ⟨rfl, fun _ _ => rfl, fun head rest starts => ?_, fun before marked after cut => ?_⟩
  · have member : head ∈ spare file := starts ▸ List.mem_cons_self ..
    obtain ⟨_, _, rfl⟩ := List.mem_map.mp member
    rfl
  · have member : marked ∈ spare file := by
      rw [cut]
      exact List.mem_append_right _ (List.mem_cons_self ..)
    have held := congrArg heldChunks cut
    rw [heldChunks_spare, heldChunks_append] at held
    have holds := chunks.holdsAt held
    obtain ⟨_, _, rfl⟩ := List.mem_map.mp member
    exact holds.carries

/-- However a file is cut into chunks, it holds the same records. -/
theorem FileChunks.heldRecords_unique {other : List HeldChunk}
    (chunks : FileChunks ext projection source file)
    (chunksOther : FileChunks ext projection source other) :
    heldRecords file = heldRecords other := by
  have reads : ∀ {cut : List HeldChunk}, FileChunks ext projection source cut → ∃ opened,
      RecordReader.new ext source
          { ReaderOptions.new with fieldProjection := projection, recovery := some fun _ => true } =
        .ok opened ∧
      ∀ count, (reports ext count opened).map ReadReport.result =
        readsOf (heldRecords cut) count := by
    intro cut chunks
    have around := @Damaged.readsAround ext source source (spare cut)
      { ReaderOptions.new with fieldProjection := projection }
      (by rw [heldChunks_spare]; exact chunks) chunks.undamaged
    obtain ⟨opened, opens, reading⟩ := around (fun _ => true) fun _ => rfl
    obtain ⟨records, same, kept, _⟩ := @remnants_spare cut [] 0 0 (Nat.le_refl _)
    rw [List.append_nil, remnants, List.append_nil] at same
    refine ⟨opened, opens, fun count => ?_⟩
    rw [(reading count).1, same, kept]
  obtain ⟨opened, opens, reading⟩ := reads chunks
  obtain ⟨openedOther, opensOther, readingOther⟩ := reads chunksOther
  obtain rfl := Except.ok.inj (opens.symm.trans opensOther)
  exact readsOf_injective fun count => (reading count).symm.trans (readingOther count)

/-! ## What one altered chunk costs -/

/-- A lost span between the records in front of it and behind it. -/
def LeavesAround (left : List Remnant) (records : List Bytes) (start stop : Nat) : Prop :=
  left.filterMap Remnant.record? = records ∧ left.filterMap Remnant.span? = [(start, stop)]

theorem leavesAround_lost (earlier rest : List HeldChunk) {lost : MarkedChunk}
    {later : List MarkedChunk} {resume start stop place : Nat}
    (loses : remnants 0 (chunkPlace earlier) (lost :: later) =
      .lost start stop :: remnants resume place (spare rest))
    (behind : resume ≤ place) :
    LeavesAround (remnants 0 0 (spare earlier ++ lost :: later)) (heldRecords (earlier ++ rest))
      start stop := by
  obtain ⟨before, same, kept, none⟩ := @remnants_spare earlier (lost :: later) 0 0 (Nat.le_refl _)
  obtain ⟨after, sameAfter, keptAfter, noneAfter⟩ := @remnants_spare rest [] resume place behind
  rw [List.append_nil, remnants, List.append_nil] at sameAfter
  have whole := same.trans (congrArg (before ++ ·) loses)
  rw [whole, sameAfter]
  refine ⟨?_, ?_⟩
  · rw [List.filterMap_append, kept, heldRecords_append, ← keptAfter]
    rfl
  · rw [List.filterMap_append, none, List.nil_append]
    exact congrArg ((start, stop) :: ·) noneAfter

/-- Altered data costs the records of its chunk. -/
theorem leavesAround_data (earlier : List HeldChunk) (chunk : HeldChunk) (later : List HeldChunk) :
    LeavesAround (remnants 0 0 (damagedAt earlier chunk .data later))
      (heldRecords (earlier ++ later)) (chunkPlace earlier) (chunkPlace (earlier ++ [chunk])) := by
  refine @leavesAround_lost earlier later ⟨chunk, .data⟩ (spare later) 0 _ _
    (chunkPlace (earlier ++ [chunk])) ?_ (Nat.zero_le _)
  rw [remnants, chunkPlace_snoc]
  dsimp only
  rw [if_neg (Nat.not_lt_zero _)]

/-- An altered header also costs the records of the chunks that begin before the
next block boundary. -/
theorem leavesAround_header (chunks : FileChunks ext projection source file)
    (split : file = earlier ++ chunk :: later) :
    ∃ skipped rest, later = skipped ++ rest ∧
      CutAt (boundaryPast (chunkPlace earlier)) (earlier ++ [chunk]) skipped rest ∧
      LeavesAround (remnants 0 0 (damagedAt earlier chunk .header later))
        (heldRecords (earlier ++ rest)) (chunkPlace earlier)
        (chunkPlace (earlier ++ [chunk] ++ skipped)) := by
  obtain ⟨marked, unmarked, skips⟩ := @exists_skips (boundaryPast (chunkPlace earlier)) (spare later)
    (spare (earlier ++ [chunk]))
  obtain ⟨skipped, rest, cut, rfl, rfl⟩ := List.map_eq_append_iff.mp skips.split
  change Skips _ _ _ (spare skipped) (spare rest) at skips
  have place := skips.place
  rw [heldChunks_append, heldChunks_spare, heldChunks_spare] at place
  have inside : file = (earlier ++ [chunk]) ++ skipped ++ rest := by
    rw [split, cut, List.append_assoc, List.append_assoc, List.singleton_append]
  refine ⟨skipped, rest, cut, ⟨?_, ?_⟩, ?_⟩
  · intro front next back same
    -- the last of those skipped begins before the boundary
    obtain ⟨others, last, ends⟩ : ∃ others last, next :: back = others ++ [last] :=
      ⟨_, _, (List.dropLast_append_getLast (List.cons_ne_nil next back)).symm⟩
    have before := skips.before (spare (front ++ others)) ⟨last, .spared⟩ (by
      rw [same, ends, ← List.append_assoc]
      exact List.map_append)
    rw [heldChunks_append, heldChunks_spare, heldChunks_spare, ← List.append_assoc] at before
    have ordered := (@FileChunks.place_mono ext projection source file
      (earlier ++ [chunk] ++ front) (last :: rest) chunks others (by
        rw [inside, same, ends]
        simp only [List.append_assoc, List.cons_append, List.nil_append])).2
    omega
  · intro front next back same
    have reached := skips.reached.resolve_left (by
      rw [same]
      cases front <;> exact List.cons_ne_nil _ _)
    rw [heldChunks_append, heldChunks_spare, heldChunks_spare] at reached
    have ordered := (@FileChunks.place_mono ext projection source file
      (earlier ++ [chunk] ++ skipped) (next :: back) chunks front (by
        rw [inside, same, ← List.append_assoc])).2
    omega
  · refine @leavesAround_lost earlier rest ⟨chunk, .header⟩ (spare later)
      (chunkPlace (earlier ++ [chunk] ++ skipped)) _ _ (chunkPlace (earlier ++ [chunk] ++ skipped))
      ?_ (Nat.le_refl _)
    have ends := (@remnants_skipped (chunkPlace (earlier ++ [chunk] ++ skipped)) (spare rest)
      (spare skipped) (spare (earlier ++ [chunk])) (by
        rw [heldChunks_append, heldChunks_spare, heldChunks_spare])).1
    rw [heldChunks_append, heldChunks_spare, heldChunks_spare, ← skips.split] at ends
    rw [remnants, ← chunkPlace_snoc]
    dsimp only
    rw [if_neg (Nat.not_lt_zero _), place, ends]

theorem LeavesAround.reads {reading : ReaderOptions} {left : List Remnant} {records : List Bytes}
    {start stop : Nat} (leaves : LeavesAround left records start stop)
    (around : ReadsAround ext altered reading (left.filterMap Remnant.record?)
      (left.filterMap Remnant.span?)) :
    ReadsAround ext altered reading records [(start, stop)] := by
  rw [← leaves.1, ← leaves.2]
  exact around

/-- However the file came to be cut, every chunk behind the signature costs no more
than that. -/
theorem FileChunks.costs {reading : ReaderOptions}
    (chunks : FileChunks ext reading.fieldProjection source file)
    (split : file = earlier ++ chunk :: later) (behind : earlier ≠ []) :
    CostsOf ext reading source altered earlier chunk later where
  data only invalid := by
    have holds := chunks.holdsAt split
    have header : carriedBytes altered (chunkPlace earlier) 0 40 = chunk.chunk.header.toBytes := by
      rw [only.carries_beside (.inl (Nat.le_refl 40)),
        ← @take_carriedBytes source (chunkPlace earlier) 40 (40 + chunk.chunk.header.dataSize)
          (Nat.le_add_right ..), holds.carries, Chunk.payload_header]
    have damaged : Damaged ext source altered (damagedAt earlier chunk .data later) :=
      only.damaged chunks split behind (Nat.le_refl _) ⟨header, invalid⟩
    exact (leavesAround_data earlier chunk later).reads
      (damaged.readsAround (by rw [heldChunks_damagedAt, ← split]; exact chunks))
  header only invalid := by
    have damaged : Damaged ext source altered (damagedAt earlier chunk .header later) :=
      only.damaged chunks split behind (by unfold chunkHeaderSize; omega) invalid
    obtain ⟨skipped, rest, cut, cutAt, leaves⟩ := leavesAround_header chunks split
    exact ⟨skipped, rest, cut, cutAt,
      leaves.reads (damaged.readsAround (by rw [heldChunks_damagedAt, ← split]; exact chunks))⟩

/-- Recovery of a complete file with one altered chunk loses that chunk alone, and
for an altered header what begins before the next block boundary, whatever the
projection. -/
theorem single_damage (lawful : ext.Lawful) {options : WriterOptions} {ops : List WriterOp}
    {writer after : RecordWriter} (complete : CompleteFile ext options ops source writer after)
    (reading : ReaderOptions) (fit : PathsFit reading.fieldProjection) :
    (∃ file, FileChunks ext reading.fieldProjection source file) ∧
      ∀ file, FileChunks ext reading.fieldProjection source file →
        List.Forall₂ (ReadsAs options reading.fieldProjection) (writtenRecords ops)
            (heldRecords file) ∧
          ∀ earlier chunk later altered, file = earlier ++ chunk :: later → earlier ≠ [] →
            CostsOf ext reading source altered earlier chunk later := by
  obtain ⟨_, under⟩ := complete.readsUnder lawful
  obtain ⟨held, _, holds, read⟩ := under _ fit
  refine ⟨⟨_, holds.fileChunks⟩, fun file chunks => ⟨?_, fun earlier chunk later altered split behind =>
    chunks.costs split behind⟩⟩
  have same := chunks.heldRecords_unique holds.fileChunks
  rw [heldRecords_cons] at same
  rw [same]
  exact read

/-! ### One altered byte of a file of two chunks -/

/-- The operations that write a record, push it out and write another. -/
def shortOps : List WriterOp := [.writeRecord [7], .flush, .writeRecord [9]]

/-- The writer that the default options open on a sink with that hash. -/
def shortWriter : RecordWriter :=
  RecordWriter.initial (signedSink summingExternals fun _ => none) plainOptions

/-- The writer behind them. -/
def shortFlushed : RecordWriter :=
  (RecordWriter.flush summingExternals (runWriter summingExternals shortOps shortWriter)).2

/-- What it leaves is a complete file. -/
theorem shortBytes_complete :
    CompleteFile summingExternals plainOptions shortOps shortBytes shortWriter shortFlushed where
  opened := rfl
  words := by
    refine ⟨(fun _ given => by cases given), fun record member => ?_⟩
    have small : ∀ record ∈ writtenRecords shortOps, record.length ≤ u64Max := by decide
    exact small record (mem_writtenRecords.mpr member)
  returns := by
    intro result member
    have all : ∀ result ∈ runResults summingExternals shortOps shortWriter, result = .ok () := by
      decide +kernel
    exact .inl ⟨(), all result member⟩
  synced := by
    have flushed : (RecordWriter.flush summingExternals
        (runWriter summingExternals shortOps shortWriter)).1 = .ok () := by
      decide +kernel
    exact .flushed (Prod.fst_eq_iff.mp flushed)
  within := by decide +kernel
  source_eq := by decide +kernel
  fits := fun transposed => by cases transposed

/-- A byte set in a place of the chunk. -/
theorem AlteredOnly.set (source : Bytes) (byte : UInt8) {chunkBegin first count index : Nat}
    (lower : first ≤ index) (upper : index < first + count) :
    AlteredOnly source (source.set (carrierOf chunkBegin index) byte) chunkBegin first count :=
  ⟨List.length_set, fun _ apart => List.getElem?_set_ne (apart index lower upper).symm⟩

theorem single_damage_short :
    ReadsAround summingExternals (shortBytes.set 107 8) ReaderOptions.new [[9]] [(64, 108)] ∧
      ReadsAround summingExternals (shortBytes.set 108 1) ReaderOptions.new [[7]] [(108, 152)] ∧
      ReadsAround summingExternals (shortBytes.set 64 1) ReaderOptions.new [] [(64, 152)] := by
  obtain ⟨_, lost⟩ := single_damage summingExternals_lawful shortBytes_complete ReaderOptions.new
    .unprojected
  obtain ⟨_, costs⟩ := lost _ alteredChunks_file
  refine ⟨?_, ?_, ?_⟩
  · exact (costs [(signatureChunk summingExternals).bare] _ _ _ rfl (List.cons_ne_nil _ _)).data
      (@AlteredOnly.set shortBytes 8 64 40 4 43 (by decide) (by decide)) (by decide +kernel)
  · obtain ⟨skipped, rest, none, _, reads⟩ := (costs
      [(signatureChunk summingExternals).bare, { chunk := shortChunk 7, records := [[7]] }] _ [] _
      rfl (List.cons_ne_nil _ _)).header
      (@AlteredOnly.set shortBytes 1 108 0 40 0 (by decide) (by decide)) (by decide +kernel)
    obtain ⟨rfl, rfl⟩ := List.nil_eq_append_iff.mp none
    exact reads
  · obtain ⟨skipped, rest, some, cut, reads⟩ := (costs [(signatureChunk summingExternals).bare] _
      [{ chunk := shortChunk 9, records := [[9]] }] _ rfl (List.cons_ne_nil _ _)).header
      (@AlteredOnly.set shortBytes 1 64 0 40 0 (by decide) (by decide)) (by decide +kernel)
    cases skipped with
    | nil =>
        have far := cut.behind [] _ [] some.symm
        exact absurd far (by decide +kernel)
    | cons next skipped =>
        obtain ⟨rfl, none⟩ := List.cons.inj some
        obtain ⟨rfl, rfl⟩ := List.nil_eq_append_iff.mp none
        exact reads

end Riegeli
