/-
Module: Riegeli.Proofs.ChunkSafety
Purpose: Whatever bytes a source holds, a chunk header, a chunk's data and a
  chunk's decoder are read without a panic.
Trusted boundary: the hash and the codecs
Main exports: headerAt_meets, readChunkData_meets, Finding.Secure,
  findChunk_secure, landsAt_secure
-/
import Riegeli.Proofs.DecoderSafety
import Riegeli.Proofs.StaticReading

namespace Riegeli

open RecordReader

variable {ext : Externals} {source : Bytes}

/-! ## Headers -/

theorem length_readFull_le (source : Bytes) (pos count : Nat) :
    (readFull source pos count).length ≤ count :=
  List.length_take_le _ _

/-- The block header adds nothing to the bytes of the chunk header. -/
theorem scanBlockHeader_meets (chunkBegin : Nat) (scan : HeaderScan) :
    Meets Fault.Returned (scanBlockHeader ext source chunkBegin scan) fun passed =>
      ∀ next, passed = some next → next.bytes = scan.bytes ∧ scan.filePos ≤ next.filePos := by
  unfold scanBlockHeader
  refine .ite (fun _ => ?_) fun _ next same => ?_
  · refine .ite (fun _ => ?_) fun _ => ?_
    · exact .ite (fun _ _ impossible => by cases impossible) fun _ => malformed_meets _
    · refine .ite (fun _ => malformed_meets _) fun _ => ?_
      refine .ite (fun _ => malformed_meets _) fun _ next same => ?_
      cases same
      exact ⟨rfl, Nat.le_add_right _ _⟩
  · cases same
    exact ⟨rfl, Nat.le_refl _⟩

/-- So many bytes of the header have been read, all of them in the source. -/
structure HeaderRead (source : Bytes) (chunkBegin : Nat) (scan : HeaderScan) : Prop where
  short : scan.bytes.length ≤ chunkHeaderSize
  ahead : chunkBegin + scan.bytes.length ≤ scan.filePos
  inside : chunkBegin + scan.bytes.length ≤ source.length ∨ scan.bytes.length = 0

/-- A pass that goes on has read at least one more byte of the header. -/
theorem scanHeaderBytes_meets {chunkBegin : Nat} {scan : HeaderScan}
    (more : scan.bytes.length < chunkHeaderSize)
    (ahead : chunkBegin + scan.bytes.length ≤ scan.filePos) :
    Meets Fault.Returned (scanHeaderBytes source chunkBegin scan) fun passed =>
      ∀ next, passed = some next →
        scan.bytes.length < next.bytes.length ∧ HeaderRead source chunkBegin next := by
  unfold scanHeaderBytes
  have inside : scan.filePos % blockSize < blockSize := Nat.mod_lt _ (by decide)
  refine .ite (fun _ => ?_) fun whole next same => ?_
  · exact .ite (fun _ _ impossible => by cases impossible) fun _ => malformed_meets _
  · cases same
    generalize same : min (chunkHeaderSize - scan.bytes.length)
      (blockSize - scan.filePos % blockSize) = toRead at whole ⊢
    rw [readFull, List.length_take, List.length_drop] at whole
    have sized : (scan.bytes ++ readFull source scan.filePos toRead).length =
        scan.bytes.length + toRead := by
      rw [List.length_append, readFull, List.length_take, List.length_drop]
      omega
    refine ⟨?_, ?_, ?_, .inl ?_⟩ <;> dsimp only <;> rw [sized] <;> omega

theorem headerLoop_meets (chunkBegin : Nat) : ∀ (fuel : Nat) (scan : HeaderScan),
    HeaderRead source chunkBegin scan → chunkHeaderSize < fuel + scan.bytes.length →
      Meets Fault.Returned (headerLoop ext source chunkBegin fuel scan) fun found =>
        ∀ last, found = some last → chunkBegin + 40 ≤ source.length := by
  intro fuel
  induction fuel with
  | zero =>
      intro scan read enough
      have short := read.short
      omega
  | succ fuel ih =>
      intro scan read enough
      rw [headerLoop]
      refine .ite (fun more => ?_) fun whole last _ => ?_
      · refine .bind (scanBlockHeader_meets chunkBegin scan) fun passed kept => ?_
        cases passed with
        | none => exact fun _ impossible => by cases impossible
        | some scanned =>
            obtain ⟨same, onward⟩ := kept scanned rfl
            have ahead := read.ahead.trans onward
            rw [← same] at more enough ahead
            refine .bind (scanHeaderBytes_meets more ahead) fun advanced grown => ?_
            cases advanced with
            | none => exact fun _ impossible => by cases impossible
            | some next =>
                obtain ⟨longer, later⟩ := grown next rfl
                exact ih next later (by omega)
      · have inside := read.inside
        unfold chunkHeaderSize at whole
        omega

theorem readHeaderBytes_meets (source : Bytes) (chunkBegin : Nat) :
    Meets Fault.Returned (readHeaderBytes ext source chunkBegin) fun found =>
      ∀ last, found = some last → chunkBegin + 40 ≤ source.length :=
  headerLoop_meets chunkBegin _ _ ⟨Nat.zero_le _, Nat.le_refl _, .inr rfl⟩ (by simp)

theorem checkClaims_meets (header : ChunkHeader) (chunkBegin dataBegin streamLen : Nat) :
    Meets Fault.Returned (checkClaims header chunkBegin dataBegin streamLen) fun _ => True :=
  .ite (fun _ => malformed_meets _) fun _ => .ite (fun _ => malformed_meets _) fun _ => trivial

theorem checkInterior_meets (header : ChunkHeader) (chunkBegin : Nat)
    (interior : Option (Nat × BlockHeader)) :
    Meets Fault.Returned (checkInterior header chunkBegin interior) fun _ => True := by
  cases interior with
  | none => exact trivial
  | some found =>
      obtain ⟨blockBegin, blockHeader⟩ := found
      exact .ite (fun _ => malformed_meets _) fun _ => trivial

/-- The header at a place, if there is one, lies inside the source, with claims that
fit their words. -/
structure HeaderFound (source : Bytes) (place : Nat) (header : ChunkHeader) (chunkBegin : Nat) :
    Prop where
  begins : chunkBegin = canonicalChunkAddress place
  inside : canonicalChunkAddress place + 40 ≤ source.length
  fits : header.Fits

theorem headerAt_meets (source : Bytes) (place : Nat) :
    Meets Fault.Returned (headerAt ext source place) fun found =>
      ∀ header chunkBegin dataBegin, found = some (header, chunkBegin, dataBegin) →
        HeaderFound source place header chunkBegin := by
  have reads := @readHeaderBytes_meets ext source (canonicalChunkAddress place)
  unfold headerAt
  dsimp only
  cases read : readHeaderBytes ext source (canonicalChunkAddress place) with
  | error fault =>
      rw [read] at reads
      exact reads
  | ok found =>
      cases found with
      | none => exact fun _ _ _ impossible => by cases impossible
      | some scan =>
          have found : HeaderFound source place (ChunkHeader.fromBytes scan.bytes)
              (canonicalChunkAddress place) :=
            ⟨rfl, reads.of_ok read scan rfl, ChunkHeader.fits_fromBytes _⟩
          refine .ite (fun _ => ?_) fun _ header chunkBegin dataBegin same => ?_
          · refine .bind (checkClaims_meets _ _ _ _) fun _ _ => ?_
            refine .bind (checkInterior_meets _ _ _) fun _ _ header chunkBegin dataBegin same => ?_
            cases same
            exact found
          · cases same
            exact found

/-! ## Data -/

theorem readExactAt_meets (source : Bytes) (pos count : Nat) :
    Meets Fault.Returned (readExactAt source pos count) fun bytes => bytes.length = count := by
  unfold readExactAt
  refine .ite (fun _ => ⟨_, rfl⟩) fun whole => ?_
  exact Nat.le_antisymm (length_readFull_le source pos count) (Nat.not_lt.mp whole)

theorem passBlockHeader_meets (source : Bytes) (chunkBegin chunkStop filePos : Nat) :
    Meets Fault.Returned (passBlockHeader ext source chunkBegin chunkStop filePos)
      fun _ => True := by
  unfold passBlockHeader
  refine .ite (fun _ => ?_) fun _ => trivial
  refine .bind (readExactAt_meets source filePos _) fun bytes _ => ?_
  refine .ite (fun _ => malformed_meets _) fun _ => ?_
  refine .ite (fun _ => malformed_meets _) fun _ => ?_
  exact .ite (fun _ => malformed_meets _) fun _ => trivial

theorem chunkDataLoop_meets (chunkBegin chunkStop : Nat) :
    ∀ (fuel filePos remaining : Nat) (result : Bytes), remaining < fuel →
      Meets Fault.Returned
        (chunkDataLoop ext source chunkBegin chunkStop fuel filePos remaining result)
        fun data => data.length = result.length + remaining := by
  intro fuel
  induction fuel with
  | zero =>
      intro filePos remaining result enough
      omega
  | succ fuel ih =>
      intro filePos remaining result enough
      rw [chunkDataLoop]
      refine .ite (fun more => ?_) fun done => ?_
      · refine .bind (passBlockHeader_meets source chunkBegin chunkStop filePos) fun place _ => ?_
        have inside : place % blockSize < blockSize := Nat.mod_lt _ (by decide)
        refine .bind (readExactAt_meets source place _) fun bytes whole => ?_
        refine (ih _ _ _ (by omega)).mono fun data total => ?_
        rw [total, List.length_append, whole]
        omega
      · change result.length = result.length + remaining
        omega

theorem readChunkData_meets (source : Bytes) (chunkBegin chunkStop dataBegin dataSize : Nat) :
    Meets Fault.Returned (readChunkData ext source chunkBegin chunkStop dataBegin dataSize)
      fun data => data.length = dataSize :=
  (chunkDataLoop_meets chunkBegin chunkStop _ dataBegin dataSize [] (Nat.lt_succ_self _)).mono
    fun _ total => total.trans (Nat.zero_add _)

/-! ## Decoders -/

/-- What a simple chunk's grammar accepts fills the sizes it states. -/
theorem SimpleGrammar.filled {data : Bytes} {numRecords decodedDataSize : Nat} {sizes : List Nat}
    {values : Bytes} (grammar : SimpleGrammar ext data numRecords decodedDataSize sizes values) :
    values.length = sizes.sum := by
  have claimed : ClaimedSizes numRecords decodedDataSize sizes values := by
    rcases grammar with ⟨_, _, plain⟩ | ⟨_, _, _, _, compressed⟩
    · exact plain.claimed
    · exact compressed.claimed
  exact claimed.filled.trans claimed.total.symm

/-- A decoder that has records to hand over, and nothing else to do. -/
def ActiveDecoder.Sound (decoder : ActiveDecoder) : Prop := ∃ records, decoder.Yields records

theorem simpleDecoder_meets {chunk : Chunk}
    (hashed : chunk.header.isDataValid ext chunk.data = true) (fits : chunk.header.Fits)
    (small : chunk.data.length ≤ u64Max) :
    Meets Fault.Returned (simpleDecoder ext chunk) ActiveDecoder.Sound := by
  refine .bind (SimpleChunkDecoder.new_safe chunk).meets.named fun decoder opened => ?_
  obtain ⟨sizes, values, grammar, rfl⟩ :=
    (SimpleChunkDecoder.new_eq_ok hashed fits.decodedDataSize small).mp opened.1
  exact ⟨_, decoderOf_yields grammar.filled⟩

theorem transposedDecoder_meets (chunk : Chunk) (projection : Option FieldProjection) :
    Meets Fault.Returned (transposedDecoder ext chunk projection) ActiveDecoder.Sound := by
  refine .bind (newWithProjection_meets chunk projection) fun decoder decodes => ?_
  obtain ⟨records, yields, _⟩ := decodes
  exact ⟨records, yields⟩

theorem validateSpecialChunk_meets (header : ChunkHeader) (chunkBegin : Nat)
    (chunkType : ChunkType) :
    Meets Fault.Returned (validateSpecialChunk header chunkBegin chunkType) fun _ => True := by
  cases chunkType with
  | fileSignature => exact .ite (fun _ => malformed_meets _) fun _ => trivial
  | fileMetadata => exact .ite (fun _ => malformed_meets _) fun _ => trivial
  | padding => exact .ite (fun _ => malformed_meets _) fun _ => trivial
  | simple => exact trivial
  | transposed => exact trivial

theorem openAt_meets (projection : Option FieldProjection) (chunkBegin : Nat) {chunk : Chunk}
    (hashed : chunk.header.isDataValid ext chunk.data = true) (fits : chunk.header.Fits)
    (small : chunk.data.length ≤ u64Max) (chunkType : ChunkType) :
    Meets Fault.Returned (openAt ext projection chunkBegin chunk chunkType) fun opened =>
      ∀ decoder, opened = some decoder → decoder.Sound := by
  have special : ∀ chunkType, Meets Fault.Returned
      (validateSpecialChunk chunk.header chunkBegin chunkType >>= fun _ => .ok none)
      fun opened : Option ActiveDecoder => ∀ decoder, opened = some decoder → decoder.Sound := by
    intro chunkType
    exact .bind (validateSpecialChunk_meets _ _ _) fun _ _ _ impossible => by cases impossible
  cases chunkType with
  | simple =>
      refine .bind (simpleDecoder_meets hashed fits small) fun decoder sound other same => ?_
      cases same
      exact sound
  | transposed =>
      refine .bind (transposedDecoder_meets chunk projection) fun decoder sound other same => ?_
      cases same
      exact sound
  | fileSignature => exact special .fileSignature
  | fileMetadata => exact special .fileMetadata
  | padding => exact special .padding

/-! ## Findings -/

/-- A finding that is no panic. -/
def Finding.Secure : Finding → Prop
  | .absent => True
  | .passes _ => True
  | .holds decoder _ => decoder.Sound
  | .fails fault _ => fault.Returned

theorem findInChunk_secure (projection : Option FieldProjection) {header : ChunkHeader}
    (chunkBegin stop : Nat) {data : Bytes} (hashed : header.isDataValid ext data = true)
    (fits : header.Fits) (small : data.length ≤ u64Max) :
    (findInChunk ext projection header chunkBegin stop data).Secure := by
  have opens := @openAt_meets ext projection chunkBegin { header := header, data := data }
    hashed fits small
  unfold findInChunk
  split
  · rename_i chunkType typed
    have meets := opens chunkType
    split
    · exact trivial
    · rename_i decoder opened
      exact meets.of_ok opened decoder rfl
    · rename_i fault failed
      rw [failed] at meets
      exact meets
  · split
    · exact trivial
    · exact ⟨_, rfl⟩

theorem findBody_secure (source : Bytes) (projection : Option FieldProjection)
    {header : ChunkHeader} (chunkBegin dataBegin : Nat) (fits : header.Fits) :
    (findBody ext source projection header chunkBegin dataBegin).Secure := by
  unfold findBody
  split
  · exact ⟨_, rfl⟩
  · have reads := @readChunkData_meets ext source chunkBegin
      (chunkEnd chunkBegin header.dataSize header.numRecords) dataBegin header.dataSize
    simp only
    split
    · rename_i fault failed
      rw [failed] at reads
      exact reads
    · rename_i data read
      have sized := reads.of_ok read
      split
      · exact ⟨_, rfl⟩
      · rename_i hashed
        rw [Bool.not_eq_false] at hashed
        exact findInChunk_secure projection _ _ hashed fits (sized.le.trans fits.dataSize)

/-- Whatever stands at a place, it is found without a panic. -/
theorem findChunk_secure (source : Bytes) (projection : Option FieldProjection) (place : Nat) :
    (findChunk ext source projection place).Secure := by
  have meets := @headerAt_meets ext source place
  unfold findChunk
  split
  · rename_i fault failed
    rw [failed] at meets
    exact meets
  · exact trivial
  · rename_i header chunkBegin dataBegin found
    exact findBody_secure source projection _ _ (meets.of_ok found _ _ _ rfl).fits

theorem landsAt_secure (source : Bytes) (projection : Option FieldProjection) (place : Nat) :
    (landsAt ext source projection place).2.Secure := by
  rw [← (landsAt_lands source projection place).found]
  exact findChunk_secure source projection _

end Riegeli
