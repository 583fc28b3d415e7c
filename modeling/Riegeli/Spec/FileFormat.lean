/-
Module: Riegeli.Spec.FileFormat
Purpose: What a file is, stated without the writer: consecutive chunks whose
  bytes are interleaved with the block header of every block boundary.
Trusted boundary: the hash
Main exports: fileByte, spanBytes, Chunk.payload, Chunk.stop, fileBytes,
  fileStop, placedChunks, WellPlaced, outsideBlockHeaders
-/
import Riegeli.Core.Headers

namespace Riegeli

variable (ext : Externals)

/-- The byte at `pos` of a chunk that spans `[chunkBegin, stop)` and carries
`payload`: a byte of the block header when `pos` lies in one, else the payload
byte of its usable distance from the begin, and zero past the payload. -/
def fileByte (chunkBegin stop : Nat) (payload : Bytes) (pos : Nat) : UInt8 :=
  let offset := pos % blockSize
  if offset < blockHeaderSize then
    (BlockHeader.fromParts ext (pos - offset - chunkBegin) (stop - (pos - offset))).toBytes.getD
      offset 0
  else payload.getD (usable pos - usable chunkBegin) 0

/-- The `count` bytes of a chunk from `pos` on. -/
def spanBytes (chunkBegin stop : Nat) (payload : Bytes) (pos count : Nat) : Bytes :=
  (List.range' pos count).map (fileByte ext chunkBegin stop payload)

/-- The bytes a chunk carries: its header and its data. -/
def Chunk.payload (chunk : Chunk) : Bytes := chunk.header.toBytes ++ chunk.data

/-- Where a chunk that begins at `chunkBegin` ends. -/
def Chunk.stop (chunkBegin : Nat) (chunk : Chunk) : Nat :=
  chunkEnd chunkBegin chunk.header.dataSize chunk.header.numRecords

/-- The bytes of consecutive chunks, the first of which begins at `chunkBegin`. -/
def fileBytes : Nat → List Chunk → Bytes
  | _, [] => []
  | chunkBegin, chunk :: rest =>
      spanBytes ext chunkBegin (chunk.stop chunkBegin) chunk.payload chunkBegin
          (chunk.stop chunkBegin - chunkBegin) ++
        fileBytes (chunk.stop chunkBegin) rest

/-- Where consecutive chunks end. -/
def fileStop : Nat → List Chunk → Nat
  | chunkBegin, [] => chunkBegin
  | chunkBegin, chunk :: rest => fileStop (chunk.stop chunkBegin) rest

/-- A chunk with its place in the file. -/
structure PlacedChunk where
  chunkBegin : Nat
  stop : Nat
  chunk : Chunk
deriving Repr, DecidableEq

/-- The chunks of a file with their places. -/
def placedChunks : Nat → List Chunk → List PlacedChunk
  | _, [] => []
  | chunkBegin, chunk :: rest =>
      { chunkBegin := chunkBegin, stop := chunk.stop chunkBegin, chunk := chunk } ::
        placedChunks (chunk.stop chunkBegin) rest

/-- Every chunk has a header that fits its data and an end that fits the
chunk, the first one starting at `chunkBegin`. -/
def WellPlaced : Nat → List Chunk → Prop
  | _, [] => True
  | chunkBegin, chunk :: rest =>
      chunk.header.dataSize = chunk.data.length ∧
        ChunkEndSpec chunkBegin chunk.header.dataSize chunk.header.numRecords
          (chunk.stop chunkBegin) ∧
        WellPlaced (chunk.stop chunkBegin) rest

/-- The 24 bytes at `boundary` are a hash-valid block header with these
distances. -/
structure BlockHeaderAt (bytes : Bytes) (boundary previousChunk nextChunk : Nat) : Prop where
  length : ((bytes.drop boundary).take 24).length = 24
  valid : (BlockHeader.fromBytes ((bytes.drop boundary).take 24)).isValid ext = true
  previousChunk :
    (BlockHeader.fromBytes ((bytes.drop boundary).take 24)).previousChunk = previousChunk
  nextChunk : (BlockHeader.fromBytes ((bytes.drop boundary).take 24)).nextChunk = nextChunk

/-- The bytes that lie outside block headers, `bytes` starting at `pos`. -/
def outsideBlockHeaders (pos : Nat) : Bytes → Bytes
  | [] => []
  | byte :: rest =>
      if pos % blockSize < blockHeaderSize then outsideBlockHeaders (pos + 1) rest
      else byte :: outsideBlockHeaders (pos + 1) rest

/-- The chunk of the file signature. -/
def signatureChunk : Chunk :=
  { header := ChunkHeader.fromParts ext [] .fileSignature 0 0, data := [] }

/-- The layout of a file of `filePos` bytes. -/
structure FileLayout (bytes : Bytes) (filePos : Nat) (chunks : List PlacedChunk) : Prop where
  /-- The bytes written are as many as the position says. -/
  length : bytes.length = filePos
  /-- The first chunk is the file signature. -/
  signature :
    chunks.head? = some { chunkBegin := 0, stop := 64, chunk := signatureChunk ext }
  /-- Each chunk begins where the one before it ends. -/
  consecutive : chunks.IsChain fun first second => second.chunkBegin = first.stop
  /-- The last chunk ends where the file does. -/
  last : chunks.getLast?.map PlacedChunk.stop = some filePos
  /-- Each end is the one `chunk_end` computes, and a possible boundary. -/
  stops : ∀ placed ∈ chunks,
    placed.stop =
        chunkEnd placed.chunkBegin placed.chunk.header.dataSize
          placed.chunk.header.numRecords ∧
      placed.chunk.header.dataSize = placed.chunk.data.length ∧
      isPossibleChunkBoundary placed.stop = true
  /-- At every block boundary stands the header of the one chunk around it. -/
  blockHeaders : ∀ boundary, boundary % blockSize = 0 → boundary < filePos →
    ∃ placed ∈ chunks, (placed.chunkBegin ≤ boundary ∧ boundary < placed.stop) ∧
      (∀ other ∈ chunks, other.chunkBegin ≤ boundary → boundary < other.stop →
        other = placed) ∧
      BlockHeaderAt ext bytes boundary (boundary - placed.chunkBegin) (placed.stop - boundary)
  /-- Outside block headers a chunk is its header, its data, then zeros. -/
  contents : ∀ placed ∈ chunks, ∃ zeros,
    outsideBlockHeaders placed.chunkBegin
        ((bytes.drop placed.chunkBegin).take (placed.stop - placed.chunkBegin)) =
      placed.chunk.header.toBytes ++ placed.chunk.data ++ List.replicate zeros 0

variable {ext} {chunkBegin stop : Nat} {payload : Bytes}

/-! ## Spans -/

@[simp] theorem length_spanBytes (pos count : Nat) :
    (spanBytes ext chunkBegin stop payload pos count).length = count := by
  simp [spanBytes]

@[simp] theorem spanBytes_zero (pos : Nat) :
    spanBytes ext chunkBegin stop payload pos 0 = [] := rfl

theorem spanBytes_add (pos first second : Nat) :
    spanBytes ext chunkBegin stop payload pos (first + second) =
      spanBytes ext chunkBegin stop payload pos first ++
        spanBytes ext chunkBegin stop payload (pos + first) second := by
  simp only [spanBytes, ← List.map_append]
  rw [← List.range'_append_1]

theorem getElem?_spanBytes {pos count index : Nat} (inside : index < count) :
    (spanBytes ext chunkBegin stop payload pos count)[index]? =
      some (fileByte ext chunkBegin stop payload (pos + index)) := by
  simp [spanBytes, inside]

/-- A span that starts at a boundary opens with the block header. -/
theorem spanBytes_header {pos : Nat} (boundary : pos % 65536 = 0) :
    spanBytes ext chunkBegin stop payload pos 24 =
      (BlockHeader.fromParts ext (pos - chunkBegin) (stop - pos)).toBytes := by
  apply List.ext_getElem
  · simp
  · intro index inside _
    simp only [length_spanBytes] at inside
    have offset : (pos + index) % 65536 = index := by omega
    have start : pos + index - index = pos := by omega
    simp [spanBytes, fileByte, blockSize, blockHeaderSize, offset, start, inside]

/-- Inside one block a span reads the payload in order. -/
theorem spanBytes_body {pos count : Nat} (outside : 24 ≤ pos % 65536)
    (inBlock : count ≤ 65536 - pos % 65536) (after : chunkBegin ≤ pos) :
    spanBytes ext chunkBegin stop payload pos count =
      (List.range count).map fun index =>
        payload.getD (usable pos - usable chunkBegin + index) 0 := by
  have counted := usable_mono after
  apply List.ext_getElem
  · simp
  · intro index inside _
    simp only [length_spanBytes] at inside
    have notHeader : ¬ (pos + index) % 65536 < 24 := by omega
    have step : usable (pos + index) - usable chunkBegin =
        usable pos - usable chunkBegin + index := by
      have moved := @usable_add_step pos index outside (by omega)
      omega
    simp [spanBytes, fileByte, blockSize, blockHeaderSize, notHeader, step]

theorem spanBytes_data {pos count : Nat} (outside : 24 ≤ pos % 65536)
    (inBlock : count ≤ 65536 - pos % 65536) (after : chunkBegin ≤ pos)
    (carried : usable pos - usable chunkBegin + count ≤ payload.length) :
    spanBytes ext chunkBegin stop payload pos count =
      (payload.drop (usable pos - usable chunkBegin)).take count := by
  rw [spanBytes_body outside inBlock after]
  apply List.ext_getElem
  · simp
    omega
  · intro index inside _
    simp only [List.length_map, List.length_range] at inside
    have available : usable pos - usable chunkBegin + index < payload.length := by omega
    simp [available]

theorem spanBytes_zeros {pos count : Nat} (outside : 24 ≤ pos % 65536)
    (inBlock : count ≤ 65536 - pos % 65536) (after : chunkBegin ≤ pos)
    (past : payload.length ≤ usable pos - usable chunkBegin) :
    spanBytes ext chunkBegin stop payload pos count = List.replicate count 0 := by
  rw [spanBytes_body outside inBlock after]
  apply List.ext_getElem
  · simp
  · intro index inside _
    have none : ¬ usable pos - usable chunkBegin + index < payload.length := by omega
    simp [none]

/-! ## Bytes outside block headers -/

/-- Outside its block headers a span reads the payload in order. -/
theorem outsideBlockHeaders_spanBytes (count : Nat) :
    ∀ pos, chunkBegin ≤ pos →
      outsideBlockHeaders pos (spanBytes ext chunkBegin stop payload pos count) =
        (List.range' (usable pos - usable chunkBegin) (usable (pos + count) - usable pos)).map
          fun index => payload.getD index 0 := by
  induction count with
  | zero => intro pos _; simp [outsideBlockHeaders]
  | succ count ih =>
      intro pos after
      have counted := usable_mono after
      have split : spanBytes ext chunkBegin stop payload pos (count + 1) =
          fileByte ext chunkBegin stop payload pos ::
            spanBytes ext chunkBegin stop payload (pos + 1) count := rfl
      have next : usable (pos + 1) ≤ usable (pos + 1 + count) := usable_mono (by omega)
      rw [split, outsideBlockHeaders, ih (pos + 1) (by omega), Nat.add_comm count 1,
        ← Nat.add_assoc]
      by_cases header : pos % blockSize < blockHeaderSize
      · have same : usable (pos + 1) = usable pos := by
          unfold blockSize blockHeaderSize at header
          unfold usable
          omega
        rw [if_pos header, same]
      · have step : usable (pos + 1) = usable pos + 1 := by
          unfold blockSize blockHeaderSize at header
          unfold usable
          omega
        rw [if_neg header, step,
          show usable (pos + 1 + count) - usable pos =
            (usable (pos + 1 + count) - (usable pos + 1)) + 1 by omega,
          List.range'_succ, List.map_cons,
          show usable pos + 1 - usable chunkBegin = usable pos - usable chunkBegin + 1 by omega]
        simp [fileByte, header]

/-- The whole span of a chunk carries the payload and then zeros. -/
theorem outsideBlockHeaders_chunk (after : chunkBegin ≤ stop)
    (room : payload.length ≤ usable stop - usable chunkBegin) :
    outsideBlockHeaders chunkBegin
        (spanBytes ext chunkBegin stop payload chunkBegin (stop - chunkBegin)) =
      payload ++ List.replicate (usable stop - usable chunkBegin - payload.length) 0 := by
  rw [outsideBlockHeaders_spanBytes _ _ (Nat.le_refl _), Nat.sub_self,
    show chunkBegin + (stop - chunkBegin) = stop by omega]
  apply List.ext_getElem
  · simp
    omega
  · intro index inside _
    rw [List.getElem_append]
    split
    · rename_i carried
      simp [carried]
    · rename_i past
      simp [past]

/-! ## Sequences of chunks -/

theorem fileStop_append (first second : List Chunk) (chunkBegin : Nat) :
    fileStop chunkBegin (first ++ second) = fileStop (fileStop chunkBegin first) second := by
  induction first generalizing chunkBegin with
  | nil => rfl
  | cons chunk rest ih => exact ih _

theorem fileBytes_append (first second : List Chunk) (chunkBegin : Nat) :
    fileBytes ext chunkBegin (first ++ second) =
      fileBytes ext chunkBegin first ++ fileBytes ext (fileStop chunkBegin first) second := by
  induction first generalizing chunkBegin with
  | nil => rfl
  | cons chunk rest ih => simp [fileBytes, fileStop, ih]

theorem WellPlaced.append {first second : List Chunk} {chunkBegin : Nat} :
    WellPlaced chunkBegin (first ++ second) ↔
      WellPlaced chunkBegin first ∧ WellPlaced (fileStop chunkBegin first) second := by
  induction first generalizing chunkBegin with
  | nil => simp [WellPlaced, fileStop]
  | cons chunk rest ih => simp [WellPlaced, fileStop, ih, and_assoc]

theorem placedChunks_append (first second : List Chunk) (chunkBegin : Nat) :
    placedChunks chunkBegin (first ++ second) =
      placedChunks chunkBegin first ++ placedChunks (fileStop chunkBegin first) second := by
  induction first generalizing chunkBegin with
  | nil => rfl
  | cons chunk rest ih => simp [placedChunks, fileStop, ih]

theorem le_fileStop (chunks : List Chunk) (chunkBegin : Nat) :
    chunkBegin ≤ fileStop chunkBegin chunks := by
  induction chunks generalizing chunkBegin with
  | nil => exact Nat.le_refl _
  | cons chunk rest ih =>
      have onward : chunkBegin < chunk.stop chunkBegin := lt_chunkEnd _ _ _
      exact (Nat.le_of_lt onward).trans (ih _)

theorem WellPlaced.possible_fileStop {chunks : List Chunk} {chunkBegin : Nat}
    (placed : WellPlaced chunkBegin chunks)
    (possible : isPossibleChunkBoundary chunkBegin = true) :
    isPossibleChunkBoundary (fileStop chunkBegin chunks) = true := by
  induction chunks generalizing chunkBegin with
  | nil => exact possible
  | cons chunk rest ih => exact ih placed.2.2 placed.2.1.possible

theorem WellPlaced.length_fileBytes {chunks : List Chunk} {chunkBegin : Nat}
    (placed : WellPlaced chunkBegin chunks) :
    (fileBytes ext chunkBegin chunks).length = fileStop chunkBegin chunks - chunkBegin := by
  induction chunks generalizing chunkBegin with
  | nil => simp [fileBytes, fileStop]
  | cons chunk rest ih =>
      obtain ⟨_, spec, restPlaced⟩ := placed
      have first := spec.begin_add_le
      have later := le_fileStop rest (chunk.stop chunkBegin)
      rw [fileBytes, List.length_append, length_spanBytes, ih restPlaced, fileStop]
      omega

/-- What holds of one chunk of a file. -/
structure PlacedChunk.Fits (placed : PlacedChunk) : Prop where
  stop_eq : placed.stop = placed.chunk.stop placed.chunkBegin
  sized : placed.chunk.header.dataSize = placed.chunk.data.length
  possible : isPossibleChunkBoundary placed.chunkBegin = true
  spec :
    ChunkEndSpec placed.chunkBegin placed.chunk.header.dataSize placed.chunk.header.numRecords
      placed.stop

theorem WellPlaced.fits {chunks : List Chunk} {chunkBegin : Nat}
    (wellPlaced : WellPlaced chunkBegin chunks)
    (possible : isPossibleChunkBoundary chunkBegin = true) {placed : PlacedChunk}
    (member : placed ∈ placedChunks chunkBegin chunks) :
    placed.Fits ∧ chunkBegin ≤ placed.chunkBegin ∧ placed.stop ≤ fileStop chunkBegin chunks := by
  induction chunks generalizing chunkBegin with
  | nil => simp [placedChunks] at member
  | cons chunk rest ih =>
      obtain ⟨sized, spec, restPlaced⟩ := wellPlaced
      rw [placedChunks, List.mem_cons] at member
      rcases member with rfl | later
      · exact ⟨⟨rfl, sized, possible, spec⟩, Nat.le_refl _, le_fileStop _ _⟩
      · obtain ⟨fits, after, before⟩ := ih restPlaced spec.possible later
        have first := spec.begin_add_le
        exact ⟨fits, by omega, before⟩

/-- The bytes of the file at the place of a chunk are the chunk's span. -/
theorem WellPlaced.slice {chunks : List Chunk} {chunkBegin : Nat}
    (wellPlaced : WellPlaced chunkBegin chunks)
    (possible : isPossibleChunkBoundary chunkBegin = true) {placed : PlacedChunk}
    (member : placed ∈ placedChunks chunkBegin chunks) :
    ((fileBytes ext chunkBegin chunks).drop (placed.chunkBegin - chunkBegin)).take
        (placed.stop - placed.chunkBegin) =
      spanBytes ext placed.chunkBegin placed.stop placed.chunk.payload placed.chunkBegin
        (placed.stop - placed.chunkBegin) := by
  induction chunks generalizing chunkBegin with
  | nil => simp [placedChunks] at member
  | cons chunk rest ih =>
      obtain ⟨sized, spec, restPlaced⟩ := wellPlaced
      rw [placedChunks, List.mem_cons] at member
      rcases member with rfl | later
      · simp [fileBytes]
      · obtain ⟨_, after, _⟩ := restPlaced.fits spec.possible later
        have first := spec.begin_add_le
        rw [fileBytes, List.drop_append, List.drop_of_length_le (by simp; omega),
          List.nil_append, length_spanBytes,
          show placed.chunkBegin - chunkBegin - (chunk.stop chunkBegin - chunkBegin) =
            placed.chunkBegin - chunk.stop chunkBegin by omega]
        exact ih restPlaced spec.possible later

/-- Every position of the file lies in a chunk. -/
theorem WellPlaced.covers {chunks : List Chunk} {chunkBegin pos : Nat}
    (wellPlaced : WellPlaced chunkBegin chunks) (after : chunkBegin ≤ pos)
    (before : pos < fileStop chunkBegin chunks) :
    ∃ placed ∈ placedChunks chunkBegin chunks,
      placed.chunkBegin ≤ pos ∧ pos < placed.stop := by
  induction chunks generalizing chunkBegin with
  | nil =>
      rw [fileStop] at before
      omega
  | cons chunk rest ih =>
      rw [fileStop] at before
      rcases Nat.lt_or_ge pos (chunk.stop chunkBegin) with inside | past
      · exact ⟨_, by rw [placedChunks]; exact List.mem_cons_self, after, inside⟩
      · obtain ⟨placed, member, range⟩ := ih wellPlaced.2.2 past before
        exact ⟨placed, by rw [placedChunks]; exact List.mem_cons_of_mem _ member, range⟩

/-- Two chunks of a file that share a position are the same chunk. -/
theorem WellPlaced.unique {chunks : List Chunk} {chunkBegin pos : Nat}
    (wellPlaced : WellPlaced chunkBegin chunks)
    (possible : isPossibleChunkBoundary chunkBegin = true) {first second : PlacedChunk}
    (firstMember : first ∈ placedChunks chunkBegin chunks)
    (secondMember : second ∈ placedChunks chunkBegin chunks)
    (inFirst : first.chunkBegin ≤ pos ∧ pos < first.stop)
    (inSecond : second.chunkBegin ≤ pos ∧ pos < second.stop) : first = second := by
  induction chunks generalizing chunkBegin with
  | nil => simp [placedChunks] at firstMember
  | cons chunk rest ih =>
      obtain ⟨_, spec, restPlaced⟩ := wellPlaced
      rw [placedChunks, List.mem_cons] at firstMember secondMember
      rcases firstMember with rfl | firstLater <;> rcases secondMember with rfl | secondLater
      · rfl
      · have after := (restPlaced.fits spec.possible secondLater).2.1
        simp only at inFirst
        omega
      · have after := (restPlaced.fits spec.possible firstLater).2.1
        simp only at inSecond
        omega
      · exact ih restPlaced spec.possible firstLater secondLater

/-- A block boundary inside a chunk carries the chunk's block header. -/
theorem WellPlaced.blockHeaderAt {chunks : List Chunk} {boundary : Nat}
    (wellPlaced : WellPlaced 0 chunks) (within : fileStop 0 chunks ≤ u64Max)
    (onBoundary : boundary % 65536 = 0) {placed : PlacedChunk}
    (member : placed ∈ placedChunks 0 chunks)
    (inside : placed.chunkBegin ≤ boundary ∧ boundary < placed.stop) :
    BlockHeaderAt ext (fileBytes ext 0 chunks) boundary (boundary - placed.chunkBegin)
      (placed.stop - boundary) := by
  obtain ⟨fits, _, before⟩ := wellPlaced.fits (by decide) member
  have possible := fits.spec.possible
  rw [isPossibleChunkBoundary_iff] at possible
  have slice := @WellPlaced.slice ext chunks 0 wellPlaced (by decide) placed member
  rw [Nat.sub_zero] at slice
  -- the header's 24 bytes as a part of the chunk's span
  have bytes : ((fileBytes ext 0 chunks).drop boundary).take 24 =
      (BlockHeader.fromParts ext (boundary - placed.chunkBegin)
        (placed.stop - boundary)).toBytes := by
    have part := congrArg (fun span => (span.drop (boundary - placed.chunkBegin)).take 24) slice
    rw [List.drop_take, List.drop_drop, List.take_take,
      show placed.chunkBegin + (boundary - placed.chunkBegin) = boundary by omega,
      show min 24 (placed.stop - placed.chunkBegin - (boundary - placed.chunkBegin)) = 24 by
        omega] at part
    have split := @spanBytes_add ext placed.chunkBegin placed.stop placed.chunk.payload
      placed.chunkBegin
      (boundary - placed.chunkBegin) (placed.stop - boundary)
    have opening := @spanBytes_add ext placed.chunkBegin placed.stop placed.chunk.payload
      boundary 24
      (placed.stop - boundary - 24)
    rw [show boundary - placed.chunkBegin + (placed.stop - boundary) =
        placed.stop - placed.chunkBegin by omega,
      show placed.chunkBegin + (boundary - placed.chunkBegin) = boundary by omega] at split
    rw [show 24 + (placed.stop - boundary - 24) = placed.stop - boundary by omega] at opening
    rw [part, split, opening, List.drop_left' (by simp), List.take_left' (by simp),
      spanBytes_header onBoundary]
  have read := @BlockHeader.fromBytes_fromParts ext (boundary - placed.chunkBegin)
    (placed.stop - boundary)
    (by omega) (by omega)
  constructor
  · rw [bytes, BlockHeader.length_toBytes]
  · rw [bytes, read, BlockHeader.fromParts_isValid]
  · rw [bytes, read]
    rfl
  · rw [bytes, read]
    rfl

theorem placedChunks_consecutive (chunks : List Chunk) (chunkBegin : Nat) :
    (placedChunks chunkBegin chunks).IsChain fun first second =>
      second.chunkBegin = first.stop := by
  induction chunks generalizing chunkBegin with
  | nil => exact List.IsChain.nil
  | cons chunk rest ih =>
      cases rest with
      | nil => exact List.IsChain.singleton _
      | cons next rest => exact List.IsChain.cons_cons rfl (ih _)

theorem placedChunks_getLast (chunks : List Chunk) (chunk : Chunk) (chunkBegin : Nat) :
    (placedChunks chunkBegin (chunk :: chunks)).getLast?.map PlacedChunk.stop =
      some (fileStop chunkBegin (chunk :: chunks)) := by
  induction chunks generalizing chunk chunkBegin with
  | nil => rfl
  | cons next rest ih =>
      rw [placedChunks, fileStop, ← ih next (chunk.stop chunkBegin)]
      rw [placedChunks, List.getLast?_cons_cons]

/-- The bytes of well placed chunks that open with the signature are laid out
as a file. -/
theorem WellPlaced.fileLayout {rest : List Chunk}
    (wellPlaced : WellPlaced 0 (signatureChunk ext :: rest))
    (signed : (signatureChunk ext).stop 0 = 64)
    (within : fileStop 0 (signatureChunk ext :: rest) ≤ u64Max) :
    FileLayout ext (fileBytes ext 0 (signatureChunk ext :: rest))
      (fileStop 0 (signatureChunk ext :: rest))
      (placedChunks 0 (signatureChunk ext :: rest)) where
  length := by rw [wellPlaced.length_fileBytes, Nat.sub_zero]
  signature := by rw [placedChunks, signed, List.head?_cons]
  consecutive := placedChunks_consecutive _ _
  last := placedChunks_getLast _ _ _
  stops := by
    intro placed member
    have fits := (wellPlaced.fits (by decide) member).1
    exact ⟨fits.stop_eq, fits.sized, fits.spec.possible⟩
  blockHeaders := by
    intro boundary onBoundary before
    obtain ⟨placed, member, inside⟩ := wellPlaced.covers (Nat.zero_le _) before
    refine ⟨placed, member, inside, ?_, ?_⟩
    · intro other otherMember after otherBefore
      exact wellPlaced.unique (by decide) otherMember member ⟨after, otherBefore⟩ inside
    · exact wellPlaced.blockHeaderAt within onBoundary member inside
  contents := by
    intro placed member
    have fits := (wellPlaced.fits (by decide) member).1
    have slice := @WellPlaced.slice ext _ 0 wellPlaced (by decide) placed member
    have ahead := fits.spec.begin_add_le
    have room := fits.spec.usable_le
    rw [Nat.sub_zero] at slice
    have payload : placed.chunk.payload =
        placed.chunk.header.toBytes ++ placed.chunk.data := rfl
    rw [slice, outsideBlockHeaders_chunk (by omega)
      (by rw [payload, List.length_append, ChunkHeader.length_toBytes, ← fits.sized]; omega)]
    exact ⟨_, rfl⟩

end Riegeli
