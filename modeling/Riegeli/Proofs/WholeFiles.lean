/-
Module: Riegeli.Proofs.WholeFiles
Purpose: Opening and reading a whole file of chunks: what is read depends only
  on the chunks that have something to read.
Trusted boundary: the hash and the codecs
Main exports: new_stands, WellPlaced.filter, WholeFile, WholeFile.reads_same
-/
import Riegeli.Proofs.ReadAlong
import Riegeli.Proofs.WriterLayout

namespace Riegeli

open RecordReader

variable {ext : Externals}

/-! ## Fewer chunks -/

/-- The rounded position is the least possible boundary from there on. -/
theorem roundUp_le {pos target : Nat} (ahead : pos ≤ target)
    (possible : isPossibleChunkBoundary target = true) :
    roundUpToPossibleChunkBoundary pos ≤ target := by
  rw [isPossibleChunkBoundary_iff] at possible
  unfold roundUpToPossibleChunkBoundary satAdd remainingInBlock usableBlockSize blockSize
    blockHeaderSize
  dsimp only
  split <;> omega

/-- A chunk that begins earlier ends no later. -/
theorem Chunk.stop_mono (chunk : Chunk) {first second : Nat} (ordered : first ≤ second)
    (possible : isPossibleChunkBoundary first = true)
    (possibleSecond : isPossibleChunkBoundary second = true) :
    chunk.stop first ≤ chunk.stop second := by
  have positive : 0 < satAdd chunkHeaderSize chunk.header.dataSize := by
    unfold satAdd chunkHeaderSize u64Max
    omega
  have counted := usable_mono ordered
  unfold Chunk.stop chunkEnd
  simp only [canonicalChunkAddress_eq possible, canonicalChunkAddress_eq possibleSecond,
    addWithOverhead_eq_place positive]
  apply max_le_max
  · exact place_le_place (Nat.add_le_add_right counted _)
  · have summed : satAdd first chunk.header.numRecords ≤ satAdd second chunk.header.numRecords := by
      unfold satAdd
      omega
    exact roundUp_le (summed.trans (le_roundUp (satAdd_le _ _))) (roundUp_possible (satAdd_le _ _))

/-- Without some of its chunks a file is laid out too, and ends no later. -/
theorem WellPlaced.filter (keeps : Chunk → Bool) {chunks : List Chunk} :
    ∀ {first second : Nat}, WellPlaced second chunks → first ≤ second →
      isPossibleChunkBoundary first = true → isPossibleChunkBoundary second = true →
      fileStop second chunks ≤ u64Max →
      WellPlaced first (chunks.filter keeps) ∧
        fileStop first (chunks.filter keeps) ≤ fileStop second chunks := by
  induction chunks with
  | nil => exact fun _ ordered _ _ _ => ⟨trivial, ordered⟩
  | cons chunk rest ih =>
      intro first second placed ordered possible possibleSecond within
      obtain ⟨sized, spec, restPlaced⟩ := placed
      have later := le_fileStop rest (chunk.stop second)
      have room := spec.begin_add_le
      cases kept : keeps chunk with
      | false =>
          rw [List.filter_cons_of_neg (by simp [kept])]
          exact ih restPlaced (by omega) possible spec.possible within
      | true =>
          rw [List.filter_cons_of_pos kept]
          have ends := chunk.stop_mono ordered possible possibleSecond
          have fits : chunk.stop first ≤ u64Max := ends.trans (later.trans within)
          have stands := chunkEnd_spec possible fits
          obtain ⟨placedRest, before⟩ := ih restPlaced ends stands.possible spec.possible within
          exact ⟨⟨sized, stands, placedRest⟩, before⟩

/-! ## Opening -/

/-- The bytes of the signature chunk. -/
theorem fileBytes_signature : fileBytes ext 0 [signatureChunk ext] =
    (BlockHeader.fromParts ext 0 (blockHeaderSize + chunkHeaderSize)).toBytes ++
      (RecordWriter.signatureHeader ext).toBytes := by
  have bytes : (signedSink ext fun _ => none).bytes =
      (BlockHeader.fromParts ext 0 (blockHeaderSize + chunkHeaderSize)).toBytes ++
        (RecordWriter.signatureHeader ext).toBytes := by
    simp [signedSink, signaturePieces, Sink.bytes, SinkCall.bytes]
  exact (initial_laidOut plainOptions bytes).bytes.symm.trans bytes

/-- The preamble of a file is valid. -/
theorem validateFilePreamble_file (rest : List Chunk) :
    validateFilePreamble ext (fileBytes ext 0 (signatureChunk ext :: rest)) = .ok () := by
  have split : fileBytes ext 0 (signatureChunk ext :: rest) =
      (BlockHeader.fromParts ext 0 64).toBytes ++
        ((ChunkHeader.fromParts ext [] .fileSignature 0 0).toBytes ++
          fileBytes ext (fileStop 0 [signatureChunk ext]) rest) := by
    rw [show signatureChunk ext :: rest = [signatureChunk ext] ++ rest from rfl, fileBytes_append,
      fileBytes_signature, List.append_assoc]
    rfl
  have first : readFull (fileBytes ext 0 (signatureChunk ext :: rest)) 0 blockHeaderSize =
      (BlockHeader.fromParts ext 0 64).toBytes := by
    rw [readFull, split, List.drop_zero, List.take_left' (by simp [blockHeaderSize])]
  have second : readFull (fileBytes ext 0 (signatureChunk ext :: rest)) blockHeaderSize
      chunkHeaderSize = (ChunkHeader.fromParts ext [] .fileSignature 0 0).toBytes := by
    rw [readFull, split, List.drop_left' (by simp [blockHeaderSize]),
      List.take_left' (by simp [chunkHeaderSize])]
  unfold validateFilePreamble
  simp only [first, second, BlockHeader.length_toBytes, ChunkHeader.length_toBytes]
  rw [if_neg (by decide), BlockHeader.fromBytes_fromParts (by decide) (by decide),
    BlockHeader.fromParts_isValid, if_neg (by decide), if_neg (by decide), if_neg (by simp)]

/-- The chunks of a file after its signature. -/
structure WholeFile (ext : Externals) (rest : List Chunk) : Prop where
  made : ∀ chunk ∈ rest, MadeChunk ext chunk
  placed : WellPlaced 0 (signatureChunk ext :: rest)
  within : fileStop 0 (signatureChunk ext :: rest) < u64Max

theorem initial_known (source : Bytes) (options : ReaderOptions) : Known (initial source options) :=
  rfl

/-- A file is opened without a look beyond its preamble. -/
theorem WholeFile.opened {rest : List Chunk} (file : WholeFile ext rest) (options : ReaderOptions) :
    RecordReader.new ext (fileBytes ext 0 (signatureChunk ext :: rest)) options =
      .ok (initial (fileBytes ext 0 (signatureChunk ext :: rest)) options) := by
  have length : (fileBytes ext 0 (signatureChunk ext :: rest)).length =
      fileStop 0 (signatureChunk ext :: rest) := by
    rw [file.placed.length_fileBytes, Nat.sub_zero]
  have positive := le_fileStop rest ((signatureChunk ext).stop 0)
  rw [signatureChunk_stop] at positive
  have some : ¬ (fileBytes ext 0 (signatureChunk ext :: rest)).length = 0 := by
    rw [length, fileStop, signatureChunk_stop]
    omega
  have opened : openFile ext (initial (fileBytes ext 0 (signatureChunk ext :: rest)) options) =
      (.ok (), initial (fileBytes ext 0 (signatureChunk ext :: rest)) options) := by
    unfold openFile
    rw [Act.bind_run_ok (Act.get_run _), Act.bind_run, attempt, Act.lift_run,
      show (initial (fileBytes ext 0 (signatureChunk ext :: rest)) options).source =
        fileBytes ext 0 (signatureChunk ext :: rest) from rfl, validateFilePreamble_file]
    rfl
  rw [RecordReader.new, if_neg some, opened]

/-- Behind the signature the file holds the other chunks. -/
theorem WholeFile.holdsFrom {rest : List Chunk} (file : WholeFile ext rest) :
    HoldsFrom ext (fileBytes ext 0 (signatureChunk ext :: rest)) firstDataChunk rest := by
  have holds := @holdsFrom_fileBytes ext rest [signatureChunk ext] file.made file.placed file.within
  rw [show fileStop 0 [signatureChunk ext] = firstDataChunk by
    rw [fileStop, fileStop, signatureChunk_stop, firstDataChunk, blockHeaderSize, chunkHeaderSize],
    List.singleton_append] at holds
  exact holds

/-- A reader opens a file in front of the chunks after the signature. -/
theorem WholeFile.new_stands {rest : List Chunk} (file : WholeFile ext rest)
    (options : ReaderOptions) (unwavering : Unwavering options.recovery) :
    ∃ reader, RecordReader.new ext (fileBytes ext 0 (signatureChunk ext :: rest)) options =
        .ok reader ∧
      Stands ext options.fieldProjection options.recovery.isSome rest none reader := by
  have within := file.within
  refine ⟨_, file.opened options, initial_known _ _, ?_, unwavering, rfl, rfl, rfl, file.holdsFrom⟩
  change (fileBytes ext 0 (signatureChunk ext :: rest)).length ≤ u64Max
  rw [file.placed.length_fileBytes, Nat.sub_zero]
  exact Nat.le_of_lt within

/-- Readers open both sources, and any number of reads return the same. -/
def ReadsSame (ext : Externals) (options : ReaderOptions) (first second : Bytes) : Prop :=
  ∃ reader other, RecordReader.new ext first options = .ok reader ∧
    RecordReader.new ext second options = .ok other ∧
    ∀ count, observe ext (List.replicate count .readRecord) reader =
      observe ext (List.replicate count .readRecord) other

/-- Two files with the same chunks to read from read the same. -/
theorem WholeFile.reads_same {first second : List Chunk} (file : WholeFile ext first)
    (other : WholeFile ext second)
    (same : first.filter isDataChunk = second.filter isDataChunk) (options : ReaderOptions)
    (unwavering : Unwavering options.recovery) :
    ReadsSame ext options (fileBytes ext 0 (signatureChunk ext :: first))
      (fileBytes ext 0 (signatureChunk ext :: second)) := by
  obtain ⟨reader, opened, stands⟩ := file.new_stands options unwavering
  obtain ⟨rival, openedOther, standsOther⟩ := other.new_stands options unwavering
  refine ⟨reader, rival, opened, openedOther, fun count => ?_⟩
  rw [observe_along count stands, observe_along count standsOther,
    ← readsAlong_data count file.made, ← readsAlong_data count other.made, same]

/-- Leaving out chunks leaves a whole file. -/
theorem WholeFile.filter {rest : List Chunk} (file : WholeFile ext rest) (keeps : Chunk → Bool) :
    WholeFile ext (rest.filter keeps) := by
  obtain ⟨sized, spec, placed⟩ := file.placed
  have within := file.within
  rw [fileStop] at within
  obtain ⟨placedRest, before⟩ := placed.filter keeps (Nat.le_refl _) spec.possible spec.possible
    (Nat.le_of_lt within)
  exact ⟨fun chunk member => file.made chunk (List.mem_of_mem_filter member),
    ⟨sized, spec, placedRest⟩, by rw [fileStop]; exact Nat.lt_of_le_of_lt before within⟩

end Riegeli
