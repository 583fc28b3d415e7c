/-
Module: Riegeli.Proofs.FileChunks
Purpose: What stands at the chunk places of a complete file, and where a
  sequential reader lands from each of them.
Trusted boundary: the hash and the codecs
Main exports: HoldsRecords.fileChunks, FileChunks.holdsAt, FileChunks.found,
  FileChunks.lands, StepsTo.points, Points.unique
-/
import Riegeli.Spec.FilePositions
import Riegeli.Proofs.SeekAgreement

namespace Riegeli

open RecordReader

variable {ext : Externals} {projection : Option FieldProjection} {source : Bytes}
  {file earlier later rest : List HeldChunk} {chunk : HeldChunk}

/-! ## Chunk places -/

@[simp] theorem heldRecords_nil : heldRecords [] = [] := rfl

@[simp] theorem heldRecords_cons (chunk : HeldChunk) (rest : List HeldChunk) :
    heldRecords (chunk :: rest) = chunk.records ++ heldRecords rest := List.flatMap_cons

@[simp] theorem heldRecords_append (first second : List HeldChunk) :
    heldRecords (first ++ second) = heldRecords first ++ heldRecords second :=
  List.flatMap_append

theorem chunkPlace_append (first second : List HeldChunk) :
    chunkPlace (first ++ second) =
      fileStop (chunkPlace first) (second.map HeldChunk.chunk) := by
  unfold chunkPlace
  rw [List.map_append, fileStop_append]

theorem chunkPlace_snoc (earlier : List HeldChunk) (chunk : HeldChunk) :
    chunkPlace (earlier ++ [chunk]) = chunk.chunk.stop (chunkPlace earlier) :=
  chunkPlace_append earlier [chunk]

theorem snoc_split (split : file = earlier ++ chunk :: later) :
    file = (earlier ++ [chunk]) ++ later := by
  rw [split, List.append_assoc, List.singleton_append]

/-- The signature is made as every chunk of a file is. -/
theorem signatureChunk_made : MadeChunk ext (signatureChunk ext) :=
  @IsHead.made ext plainOptions _ .signature (fun _ given => by cases given) (Nat.zero_le _)

theorem signatureChunk_opens (projection : Option FieldProjection) :
    Opens ext projection (signatureChunk ext) [] :=
  signatureChunk_made.opens_special rfl (ChunkHeader.numRecords_fromParts _ _ _ (by decide))
    projection

/-- A file that holds records, with its signature counted among the chunks. -/
theorem HoldsRecords.fileChunks {held : List HeldChunk}
    (holds : HoldsRecords ext projection source held) :
    FileChunks ext projection source ((signatureChunk ext).bare :: held) where
  source_eq := holds.source_eq
  made := by
    intro chunk member
    rcases List.mem_cons.mp member with rfl | later
    · exact signatureChunk_made
    · exact holds.whole.made _ (List.mem_map_of_mem later)
  opens := by
    intro chunk member
    rcases List.mem_cons.mp member with rfl | later
    · exact signatureChunk_opens projection
    · exact holds.opens chunk later
  placed := holds.whole.placed
  within := holds.whole.within
  signed := ⟨held, rfl⟩

namespace FileChunks

theorem length (chunks : FileChunks ext projection source file) :
    source.length = chunkPlace file := by
  rw [chunks.source_eq, chunks.placed.length_fileBytes, Nat.sub_zero, chunkPlace]

theorem addressable (chunks : FileChunks ext projection source file) :
    source.length ≤ u64Max := by
  rw [chunks.length]
  exact Nat.le_of_lt chunks.within

/-- From each of its places on the source holds the chunks behind it. -/
theorem holdsFrom (chunks : FileChunks ext projection source file)
    (split : file = earlier ++ later) :
    HoldsFrom ext source (chunkPlace earlier) (later.map HeldChunk.chunk) := by
  have placed := chunks.placed
  have within := chunks.within
  unfold chunkPlace at within
  rw [split, List.map_append] at placed within
  have holds := @holdsFrom_fileBytes ext (later.map HeldChunk.chunk)
    (earlier.map HeldChunk.chunk) (by
      intro made member
      obtain ⟨chunk, later, rfl⟩ := List.mem_map.mp member
      exact chunks.made chunk (by rw [split]; exact List.mem_append_right _ later))
    placed within
  rw [← List.map_append, ← split, ← chunks.source_eq] at holds
  exact holds

theorem holdsAt (chunks : FileChunks ext projection source file)
    (split : file = earlier ++ chunk :: later) :
    HoldsAt ext source (chunkPlace earlier) chunk.chunk :=
  (chunks.holdsFrom split).1

theorem possible (chunks : FileChunks ext projection source file)
    (split : file = earlier ++ later) :
    isPossibleChunkBoundary (chunkPlace earlier) = true :=
  (chunks.holdsFrom split).possible

theorem canonical (chunks : FileChunks ext projection source file)
    (split : file = earlier ++ later) :
    canonicalChunkAddress (chunkPlace earlier) = chunkPlace earlier :=
  canonicalChunkAddress_eq (chunks.possible split)

/-- A chunk ends behind its begin, with room for a byte a record. -/
theorem ahead (chunks : FileChunks ext projection source file)
    (split : file = earlier ++ chunk :: later) :
    chunkPlace earlier < chunkPlace (earlier ++ [chunk]) ∧
      chunkPlace earlier + chunk.records.length ≤ chunkPlace (earlier ++ [chunk]) := by
  have holds := chunks.holdsAt split
  have further := holds.spec.begin_add_le
  have records := holds.records
  have counted := (chunks.opens chunk (by rw [split]; simp)).numRecords
  rw [chunkPlace_snoc]
  omega

theorem length_le (chunks : FileChunks ext projection source file)
    (split : file = earlier ++ later) : chunkPlace earlier + later.length ≤ source.length := by
  have within := (chunks.holdsFrom split).length_le
  rw [List.length_map] at within
  exact within

/-- Places come in the order of the chunks. -/
theorem place_mono (chunks : FileChunks ext projection source file)
    {between : List HeldChunk} (split : file = earlier ++ between ++ later) :
    chunkPlace earlier + (heldRecords between).length ≤ chunkPlace (earlier ++ between) ∧
      chunkPlace earlier + between.length ≤ chunkPlace (earlier ++ between) := by
  induction between generalizing earlier with
  | nil => simp
  | cons chunk rest ih =>
      have here : file = earlier ++ chunk :: (rest ++ later) := by
        rw [split, List.append_assoc, List.cons_append]
      have step := chunks.ahead here
      have further := @ih (earlier ++ [chunk]) (by
        rw [split, List.append_assoc, List.append_assoc, List.append_assoc, List.singleton_append,
          List.cons_append])
      rw [List.append_assoc, List.singleton_append] at further
      rw [heldRecords_cons, List.length_append, List.length_cons]
      omega

/-! ## Findings -/

/-- What a sequential reader finds at a chunk. -/
theorem found (chunks : FileChunks ext projection source file)
    (split : file = earlier ++ chunk :: later) :
    (∃ decoder : ActiveDecoder, decoder.Yields chunk.records ∧
        findChunk ext source projection (chunkPlace earlier) =
          .holds decoder (chunkPlace (earlier ++ [chunk]))) ∨
      (chunk.records = [] ∧
        findChunk ext source projection (chunkPlace earlier) =
          .passes (chunkPlace (earlier ++ [chunk]))) := by
  have finds := findChunk_held (chunks.holdsAt split) projection
  obtain ⟨opened, opens, left⟩ := (chunks.opens chunk (by rw [split]; simp)).openedAs
  rw [opens, ← chunkPlace_snoc] at finds
  cases opened with
  | none => exact .inr ⟨left, finds⟩
  | some decoder => exact .inl ⟨decoder, left, finds⟩

/-- Behind the last chunk nothing is found. -/
theorem found_end (chunks : FileChunks ext projection source file) :
    findChunk ext source projection (chunkPlace file) = .absent := by
  refine findChunk_past ?_
  rw [chunks.canonical (List.append_nil file).symm, chunks.length]

/-- Where a sequential reader lands: at the next chunk with a decoder, or at
the end. -/
theorem lands (chunks : FileChunks ext projection source file) (later : List HeldChunk) :
    ∀ {earlier : List HeldChunk}, file = earlier ++ later →
      (∃ between chunk rest, ∃ decoder : ActiveDecoder,
          later = between ++ chunk :: rest ∧ heldRecords between = [] ∧
          decoder.Yields chunk.records ∧
          landsAt ext source projection (chunkPlace earlier) =
            (chunkPlace (earlier ++ between),
              .holds decoder (chunkPlace (earlier ++ between ++ [chunk])))) ∨
        (heldRecords later = [] ∧
          landsAt ext source projection (chunkPlace earlier) = (chunkPlace file, .absent)) := by
  induction later with
  | nil =>
      intro earlier split
      rw [List.append_nil] at split
      rw [← split]
      exact .inr ⟨rfl, landsAt_of_found chunks.found_end (by simp)⟩
  | cons chunk rest ih =>
      intro earlier split
      rcases chunks.found split with ⟨decoder, yields, found⟩ | ⟨empty, passes⟩
      · refine .inl ⟨[], chunk, rest, decoder, rfl, rfl, yields, ?_⟩
        rw [List.append_nil]
        exact landsAt_of_found found (by simp)
      · have same : landsAt ext source projection (chunkPlace earlier) =
            landsAt ext source projection (chunkPlace (earlier ++ [chunk])) := by
          have further := findChunk_passes_lt passes
          unfold landsAt
          rw [show source.length + 64 = source.length + 63 + 1 by omega, landing, passes]
          exact landing_eq (by omega) (by omega) (by omega) (by omega)
        rw [same]
        rcases ih (snoc_split split) with
          ⟨between, next, left, decoder, ahead, none, yields, landed⟩ | ⟨none, landed⟩
        · refine .inl ⟨chunk :: between, next, left, decoder, by rw [ahead]; rfl, ?_, yields, ?_⟩
          · rw [heldRecords_cons, empty, none, List.nil_append]
          · rw [landed, List.append_assoc, List.singleton_append]
        · refine .inr ⟨?_, landed⟩
          rw [heldRecords_cons, empty, none, List.nil_append]

end FileChunks

/-! ## Positions -/

variable {position : RecordPosition} {before : Nat}

theorem StepsTo.points (chunks : FileChunks ext projection source file)
    (steps : StepsTo file position before) : Points file position before := by
  obtain ⟨earlier, later, split, place, short, counted⟩ := steps
  refine ⟨earlier, later, split, ?_, by rw [Nat.min_eq_left short]; exact counted⟩
  rcases place with place | ⟨rfl, place⟩
  · rw [place, chunks.canonical split]
  · rw [place]
    decide

/-- A position of a record leads to it. -/
theorem NamesRecord.stepsTo {index : Nat} (names : NamesRecord file position index) : StepsTo file position index := by
  obtain ⟨earlier, chunk, later, split, place, short, counted⟩ := names
  exact ⟨earlier, chunk :: later, split, .inl place, Nat.le_of_lt short, counted⟩

theorem headRecords_le (later : List HeldChunk) :
    (headRecords later).length ≤ (heldRecords later).length := by
  cases later with
  | nil => exact Nat.le_refl 0
  | cons chunk rest =>
      rw [heldRecords_cons, List.length_append]
      exact Nat.le_add_right _ _

theorem Points.le (points : Points file position before) : before ≤ (heldRecords file).length := by
  obtain ⟨earlier, later, rfl, _, rfl⟩ := points
  have few := headRecords_le later
  rw [heldRecords_append, List.length_append]
  omega

theorem StepsTo.le (steps : StepsTo file position before) :
    before ≤ (heldRecords file).length := by
  obtain ⟨earlier, later, rfl, _, short, rfl⟩ := steps
  have few := headRecords_le later
  rw [heldRecords_append, List.length_append]
  omega

end Riegeli
