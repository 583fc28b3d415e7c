/-
Module: Riegeli.Proofs.DecoderInputs
Purpose: Whatever bytes a transposed chunk holds, its header and its buckets are
  read without a panic, and what is handed on fits together.
Trusted boundary: the codecs
Main exports: indexAt_meets, setAt_meets, sliceRange_meets,
  BufferCursor.readMany_meets, decompressIntoBuffers_meets,
  parseHeaderAndBuckets_meets
-/
import Riegeli.Spec.DecoderInvariants
import Riegeli.Proofs.VarintAgreement

namespace Riegeli

variable {ext : Externals} {Item Value : Type} {post : Value → Prop}

/-! ## Calls -/

theorem malformed_meets (message : String) :
    Meets Fault.Returned (.error (malformed message)) post := ⟨_, rfl⟩

theorem Rust.Safe.meets {call : Rust Value} (safe : Rust.Safe call) :
    Meets Fault.Returned call fun _ => True := by
  rcases safe with ⟨value, ran⟩ | ⟨error, ran⟩
  · rw [ran]
    exact trivial
  · rw [ran]
    exact ⟨error, rfl⟩

theorem Meets.safe {call : Rust Value} (meets : Meets Fault.Returned call post) :
    Rust.Safe call := by
  cases ran : call with
  | ok value => exact .inl ⟨value, rfl⟩
  | error fault =>
      rw [ran] at meets
      obtain ⟨error, rfl⟩ := meets
      exact .inr ⟨error, rfl⟩

theorem indexAt_meets {items : List Item} {index : Nat} (inside : index < items.length) :
    Meets Fault.Returned (indexAt items index) fun item => items[index]? = some item := by
  rw [indexAt_eq inside]
  exact List.getElem?_eq_getElem inside

theorem setAt_meets {items : List Item} {index : Nat} (inside : index < items.length) (item : Item) :
    Meets Fault.Returned (setAt items index item) fun updated => updated = items.set index item := by
  rw [setAt_eq inside]
  exact rfl

theorem sliceRange_meets {items : List Item} {start stop : Nat} (ordered : start ≤ stop)
    (inside : stop ≤ items.length) :
    Meets Fault.Returned (sliceRange items start stop) fun slice =>
      slice = (items.drop start).take (stop - start) := by
  rw [sliceRange_eq ordered inside]
  exact rfl

theorem subWord_meets {left right : Nat} (enough : right ≤ left) :
    Meets Fault.Returned (subWord left right) fun rest => rest = left - right := by
  rw [subWord_eq enough]
  exact rfl

/-! ## Cursors -/

namespace BufferCursor

variable {cursor next : BufferCursor}

/-- A later place in the same data. -/
structure Onward (cursor next : BufferCursor) : Prop where
  data : next.data = cursor.data
  ahead : cursor.pos ≤ next.pos
  inside : next.Inside

theorem Onward.refl (inside : cursor.Inside) : Onward cursor cursor :=
  ⟨rfl, Nat.le_refl _, inside⟩

theorem readExact_meets (inside : cursor.Inside) (count : Nat) :
    Meets Fault.Returned (cursor.readExact count) fun read => Onward cursor read.2 := by
  unfold readExact
  split
  · exact .refl inside
  · split
    · exact malformed_meets _
    · rename_i stop added
      obtain ⟨rfl, _⟩ := checkedAdd_eq_some.mp added
      refine .ite (fun _ => malformed_meets _) fun short => ?_
      refine .bind (sliceRange_meets (Nat.le_add_right _ _) (Nat.not_lt.mp short)) fun _ _ => ?_
      exact ⟨rfl, Nat.le_add_right _ _, Nat.not_lt.mp short⟩

/-- What was consumed after the place of a cursor was there. -/
theorem Onward.consume (inside : cursor.Inside) {consumed : Nat}
    (there : consumed ≤ (cursor.data.drop cursor.pos).length) :
    Onward cursor { cursor with pos := cursor.pos + consumed } := by
  unfold Inside at inside
  rw [List.length_drop] at there
  refine ⟨rfl, Nat.le_add_right _ _, ?_⟩
  change cursor.pos + consumed ≤ cursor.data.length
  omega

theorem rest_meets (inside : cursor.Inside) :
    Meets Fault.Returned (sliceRange cursor.data cursor.pos cursor.data.length) fun rest =>
      rest = cursor.data.drop cursor.pos := by
  refine (sliceRange_meets inside (Nat.le_refl _)).mono fun rest same => ?_
  rw [same]
  exact List.take_of_length_le (Nat.le_of_eq List.length_drop)

theorem readVarint32_meets (inside : cursor.Inside) :
    Meets Fault.Returned cursor.readVarint32 fun read =>
      read.1 ≤ u32Max ∧ Onward cursor read.2 := by
  unfold readVarint32
  refine .ite (fun _ => ⟨Nat.zero_le _, .refl inside⟩) fun _ => ?_
  refine .bind (rest_meets inside) fun rest same => ?_
  subst same
  split
  · exact malformed_meets _
  · rename_i value consumed decoded
    obtain ⟨fits, there⟩ := decodeU32_fits decoded
    exact ⟨fits, .consume inside there⟩

theorem readVarint64_meets (inside : cursor.Inside) :
    Meets Fault.Returned cursor.readVarint64 fun read => Onward cursor read.2 := by
  unfold readVarint64
  refine .ite (fun _ => .refl inside) fun _ => ?_
  refine .bind (rest_meets inside) fun rest same => ?_
  subst same
  split
  · exact malformed_meets _
  · rename_i value consumed decoded
    exact .consume inside (decodeU64_fits decoded).2

theorem readByte_meets (inside : cursor.Inside) :
    Meets Fault.Returned cursor.readByte fun read => Onward cursor read.2 := by
  unfold readByte
  refine .ite (fun _ => .refl inside) fun _ => ?_
  refine .ite (fun _ => malformed_meets _) fun more => ?_
  refine .bind (indexAt_meets (Nat.not_le.mp more)) fun _ _ => ?_
  exact ⟨rfl, Nat.le_add_right _ _, Nat.not_le.mp more⟩

/-- A loop of reads keeps what each of them does. -/
theorem readMany_meets {read : BufferCursor → Rust (Item × BufferCursor)} (holds : Item → Prop)
    (each : ∀ {cursor : BufferCursor}, cursor.Inside →
      Meets Fault.Returned (read cursor) fun out => holds out.1 ∧ Onward cursor out.2)
    (count : Nat) :
    ∀ {cursor : BufferCursor}, cursor.Inside →
      Meets Fault.Returned (readMany read count cursor) fun out =>
        out.1.length = count ∧ (∀ item ∈ out.1, holds item) ∧ out.2.Inside := by
  induction count with
  | zero => exact fun inside => ⟨rfl, fun _ member => absurd member List.not_mem_nil, inside⟩
  | succ count ih =>
      intro cursor inside
      refine .bind (each inside) fun first firstRead => ?_
      obtain ⟨item, onward⟩ := firstRead
      refine .bind (ih onward.inside) fun rest restRead => ?_
      obtain ⟨length, items, final⟩ := restRead
      exact ⟨congrArg Nat.succ length, List.forall_mem_cons.mpr ⟨item, items⟩, final⟩

end BufferCursor

/-! ## The states and the needed buffers -/

theorem parseStateMetadata_meets {hdr : BufferCursor} (inside : hdr.Inside) :
    Meets Fault.Returned (parseStateMetadata hdr) fun parsed =>
      parsed.1.tags.length = parsed.1.numStates ∧
      parsed.1.nextNodeIndices.length = parsed.1.numStates ∧
      (∀ tag ∈ parsed.1.tags, tag ≤ u32Max) ∧
      parsed.1.subtypesBytes.length = countSubtypes parsed.1.tags ∧ parsed.2.Inside := by
  unfold parseStateMetadata
  refine .bind (BufferCursor.readVarint32_meets inside) fun count counted => ?_
  refine .bind (BufferCursor.readMany_meets (· ≤ u32Max) BufferCursor.readVarint32_meets count.1
    counted.2.inside) fun tags tagsRead => ?_
  obtain ⟨sameTags, words, insideTags⟩ := tagsRead
  refine .bind (BufferCursor.readMany_meets (· ≤ u32Max) BufferCursor.readVarint32_meets count.1 insideTags)
    fun nexts nextsRead => ?_
  obtain ⟨sameNexts, _, insideNexts⟩ := nextsRead
  have bytes : ∀ {cursor : BufferCursor}, cursor.Inside →
      Meets Fault.Returned cursor.readByte fun out => True ∧ BufferCursor.Onward cursor out.2 :=
    fun inside => (BufferCursor.readByte_meets inside).mono fun _ onward => ⟨trivial, onward⟩
  refine .bind (BufferCursor.readMany_meets (fun _ => True) bytes (countSubtypes tags.1) insideNexts) fun subtypes subtypesRead => ?_
  obtain ⟨sameSubtypes, _, insideSubtypes⟩ := subtypesRead
  exact ⟨sameTags, sameNexts, words, sameSubtypes, insideSubtypes⟩

/-- What the scan for needed buffers keeps. -/
def ScanState.Sound (numBuffers : Nat) (state : ScanState) : Prop :=
  state.snap.Inside ∧ state.needed.length = numBuffers

theorem markNeeded_meets {numBuffers : Nat} (needed : Bool) {state : ScanState}
    (sound : state.Sound numBuffers) :
    Meets Fault.Returned (markNeeded numBuffers needed state) (ScanState.Sound numBuffers) := by
  obtain ⟨inside, counted⟩ := sound
  unfold markNeeded
  refine .bind (BufferCursor.rest_meets inside) fun rest same => ?_
  subst same
  split
  · exact ⟨inside, counted⟩
  · rename_i bufIdx consumed decoded
    have onward := BufferCursor.Onward.consume inside (decodeU32_fits decoded).2
    refine .ite (fun marks => ?_) fun _ => ⟨onward.inside, counted⟩
    refine .bind (setAt_meets (by rw [counted]; exact marks.1) true) fun marked same => ?_
    subst same
    exact ⟨onward.inside, List.length_set.trans counted⟩

theorem scanLoop_meets (subtypesBytes : Bytes) {numBuffers : Nat} (projection : FieldProjection)
    (tags : List Nat) :
    ∀ {state : ScanState}, state.Sound numBuffers →
      Meets Fault.Returned (scanLoop subtypesBytes numBuffers projection tags state)
        (ScanState.Sound numBuffers) := by
  induction tags with
  | nil => exact fun sound => sound
  | cons rawTag rest ih =>
      intro state sound
      have step : Meets Fault.Returned (scanStep subtypesBytes numBuffers projection state rawTag)
          (ScanState.Sound numBuffers) := by
        unfold scanStep
        simp only
        split
        · exact sound
        · exact markNeeded_meets _ sound
        · exact markNeeded_meets _ sound
      exact .bind step fun _ => ih

theorem computeNeededBuffers_meets (tags : List Nat) (subtypesBytes : Bytes) {snap : BufferCursor}
    (inside : snap.Inside) (numBuffers : Nat) (projection : FieldProjection) :
    Meets Fault.Returned (computeNeededBuffers tags subtypesBytes snap numBuffers projection)
      fun _ => True := by
  unfold computeNeededBuffers
  refine .ite (fun _ => trivial) fun some => ?_
  refine .ite (fun _ => trivial) fun _ => ?_
  refine .bind (scanLoop_meets subtypesBytes projection tags ⟨inside, List.length_replicate⟩)
    fun state sound => ?_
  refine .ite (fun _ => ?_) fun _ => trivial
  exact (setAt_meets (by rw [sound.2]; omega) true).mono fun _ _ => trivial

theorem neededBuffersOf_meets (projection : Option FieldProjection) (metadata : StateMetadata)
    {hdr : BufferCursor} (inside : hdr.Inside) (numBuffers : Nat) :
    Meets Fault.Returned (neededBuffersOf projection metadata hdr numBuffers) fun _ => True := by
  unfold neededBuffersOf
  split
  · exact computeNeededBuffers_meets _ _ inside _ _
  · exact trivial

/-! ## Buckets -/

theorem readBucketData_meets {data : Bytes} (sizes : List Nat) :
    ∀ {pos : Nat}, pos ≤ data.length →
      Meets Fault.Returned (readBucketData data sizes pos) fun read => read.2 ≤ data.length := by
  induction sizes with
  | nil => exact fun inside => inside
  | cons size rest ih =>
      intro pos inside
      unfold readBucketData
      split
      · exact malformed_meets _
      · rename_i stop added
        obtain ⟨rfl, _⟩ := checkedAdd_eq_some.mp added
        refine .ite (fun _ => malformed_meets _) fun short => ?_
        refine .bind (sliceRange_meets (Nat.le_add_right _ _) (Nat.not_lt.mp short)) fun _ _ => ?_
        exact .bind (ih (Nat.not_lt.mp short)) fun read inside => inside

theorem bucketDecompressedSize_meets (compressed : Bytes) (compression : CompressionType) :
    Meets Fault.Returned (bucketDecompressedSize compressed compression) fun _ => True := by
  unfold bucketDecompressedSize
  refine .ite (fun _ => trivial) fun _ => ?_
  split
  · exact malformed_meets _
  · exact trivial

theorem skipExhausted_meets (sizes : List Nat) (fuel : Nat) :
    ∀ {bucketIndex : Nat} (bucketRemaining : Nat), bucketIndex < sizes.length →
      sizes.length < fuel + bucketIndex + 1 →
      Meets Fault.Returned (skipExhausted sizes fuel bucketIndex bucketRemaining)
        fun reached => reached.1 < sizes.length := by
  induction fuel with
  | zero => intro bucketIndex _ inside enough; omega
  | succ fuel ih =>
      intro bucketIndex bucketRemaining inside enough
      unfold skipExhausted
      refine .ite (fun exhausted => ?_) fun _ => inside
      refine .bind (indexAt_meets exhausted.2) fun remaining _ => ?_
      exact ih remaining exhausted.2 (by omega)

theorem assignBuffers_meets (sizes : List Nat) (bufferSizes : List Nat) :
    ∀ (index : Nat) {bucketIndex : Nat} (bucketRemaining : Nat), bucketIndex < sizes.length →
      Meets Fault.Returned (assignBuffers sizes bufferSizes index bucketIndex bucketRemaining)
        fun assigned => assigned.1.length = bufferSizes.length ∧
          ∀ bucket ∈ assigned.1, bucket < sizes.length := by
  induction bufferSizes with
  | nil => exact fun _ _ _ _ => ⟨rfl, fun _ member => absurd member List.not_mem_nil⟩
  | cons bufSize rest ih =>
      intro index bucketIndex bucketRemaining inside
      unfold assignBuffers
      refine .ite (fun _ => malformed_meets _) fun enough => ?_
      refine .bind (subWord_meets (Nat.not_lt.mp enough)) fun remaining _ => ?_
      refine .bind (skipExhausted_meets sizes (sizes.length + 1) remaining inside (by omega))
        fun next later => ?_
      refine .bind (ih (index + 1) next.2 later) fun assigned all => ?_
      exact ⟨congrArg Nat.succ all.1, List.forall_mem_cons.mpr ⟨inside, all.2⟩⟩

theorem computeBufferToBucket_meets (buckets : List Bytes) (bufferSizes : List Nat)
    (compression : CompressionType) :
    Meets Fault.Returned (computeBufferToBucket buckets bufferSizes compression)
      fun assigned => assigned.length = bufferSizes.length ∧
        ∀ bucket ∈ assigned, bucket < buckets.length := by
  unfold computeBufferToBucket
  refine .ite (fun _ => ?_) fun some => ?_
  · refine .ite (fun _ => malformed_meets _) fun none => ?_
    exact ⟨(Classical.not_not.mp none).symm, fun _ member => absurd member List.not_mem_nil⟩
  · refine .bind (Meets.mapM fun compressed _ => bucketDecompressedSize_meets compressed compression)
      fun sizes all => ?_
    have same := all.length_eq
    refine .bind (indexAt_meets (by omega)) fun first _ => ?_
    refine .bind (assignBuffers_meets sizes bufferSizes 0 first (by omega)) fun assigned each => ?_
    refine .ite (fun _ => malformed_meets _) fun _ => ?_
    refine .ite (fun _ => malformed_meets _) fun _ => ?_
    rw [same]
    exact each

theorem markBuckets_meets (needed : List Bool) :
    ∀ {buckets : List Nat} {bucketNeeded : List Bool},
      (∀ bucket ∈ buckets, bucket < bucketNeeded.length) →
      Meets Fault.Returned (markBuckets needed buckets bucketNeeded)
        fun marked => marked.length = bucketNeeded.length := by
  induction needed with
  | nil => exact fun _ => rfl
  | cons first rest ih =>
      intro buckets bucketNeeded inside
      cases buckets with
      | nil => exact rfl
      | cons bucket buckets =>
          obtain ⟨here, later⟩ := List.forall_mem_cons.mp inside
          unfold markBuckets
          refine .ite (fun _ => ?_) fun _ => ih later
          refine .bind (setAt_meets here true) fun marked same => ?_
          subst same
          refine (ih (by rw [List.length_set]; exact later)).mono fun marked length => ?_
          exact length.trans List.length_set

theorem decompressBucket_meets (compression : CompressionType) (index : Nat) (needed : Bool)
    (compressed : Bytes) :
    Meets Fault.Returned (decompressBucket ext compression index needed compressed)
      fun _ => True := by
  unfold decompressBucket
  refine .ite (fun _ => ?_) fun _ => trivial
  refine .bind (decompressWithPrefix_safe compressed compression).meets fun decompressed _ => ?_
  refine .bind (bucketDecompressedSize_meets compressed compression) fun claimed _ => ?_
  exact .ite (fun _ => malformed_meets _) fun _ => trivial

theorem decompressBuckets_meets (compression : CompressionType) {bucketNeeded : List Bool}
    (buckets : List Bytes) :
    ∀ (index : Nat), index + buckets.length ≤ bucketNeeded.length →
      Meets Fault.Returned (decompressBuckets ext compression bucketNeeded buckets index)
        fun decompressed => decompressed.length = buckets.length := by
  induction buckets with
  | nil => exact fun _ _ => rfl
  | cons compressed rest ih =>
      intro index enough
      rw [List.length_cons] at enough
      unfold decompressBuckets
      refine .bind (indexAt_meets (by omega)) fun needed _ => ?_
      refine .bind (decompressBucket_meets compression index needed compressed) fun bucket _ => ?_
      refine .bind (ih (index + 1) (by omega)) fun decompressed length => ?_
      exact congrArg Nat.succ length

theorem extractBuffer_meets {decompressed : List (Option Bytes)}
    (index bufSize : Nat) {bucket : Nat} (offset : Nat) (needed : Bool)
    (inside : bucket < decompressed.length) :
    Meets Fault.Returned (extractBuffer decompressed index bufSize bucket offset needed)
      BufferCursor.Inside := by
  unfold extractBuffer
  refine .ite (fun _ => ?_) fun _ => Nat.zero_le _
  refine .bind (indexAt_meets inside) fun entry _ => ?_
  split
  · exact malformed_meets _
  · refine .ite (fun _ => malformed_meets _) fun short => ?_
    refine .bind (sliceRange_meets (Nat.le_add_right _ _) (Nat.not_lt.mp short)) fun _ _ => ?_
    exact Nat.zero_le _

theorem extractBuffers_meets {bufferToBucket : List Nat} (neededBuffers : List Bool)
    {decompressed : List (Option Bytes)}
    (assigned : ∀ bucket ∈ bufferToBucket, bucket < decompressed.length) (bufferSizes : List Nat) :
    ∀ (index : Nat) {offsets : List Nat}, index + bufferSizes.length ≤ bufferToBucket.length →
      offsets.length = decompressed.length →
      Meets Fault.Returned
        (extractBuffers bufferToBucket neededBuffers decompressed bufferSizes index offsets)
        fun cursors => cursors.length = bufferSizes.length ∧
          ∀ cursor ∈ cursors, cursor.Inside := by
  induction bufferSizes with
  | nil => exact fun _ _ _ _ => ⟨rfl, fun _ member => absurd member List.not_mem_nil⟩
  | cons bufSize rest ih =>
      intro index offsets enough same
      rw [List.length_cons] at enough
      unfold extractBuffers
      refine .bind (indexAt_meets (by omega)) fun bucket found => ?_
      have there := assigned bucket (List.mem_of_getElem? found)
      refine .bind (indexAt_meets (by omega)) fun offset _ => ?_
      refine .bind (extractBuffer_meets index bufSize offset _ there) fun cursor inside => ?_
      refine .bind (setAt_meets (by omega) _) fun updated set => ?_
      subst set
      refine .bind (ih (index + 1) (by omega) (List.length_set.trans same)) fun cursors all => ?_
      exact ⟨congrArg Nat.succ all.1, List.forall_mem_cons.mpr ⟨inside, all.2⟩⟩

theorem decompressIntoBuffers_meets (buckets : List Bytes) (bufferSizes : List Nat)
    (compression : CompressionType) (neededBuffers : List Bool) :
    Meets Fault.Returned
      (decompressIntoBuffers ext buckets bufferSizes compression neededBuffers)
      fun cursors => cursors.length = bufferSizes.length ∧ ∀ cursor ∈ cursors, cursor.Inside := by
  unfold decompressIntoBuffers
  refine .bind (computeBufferToBucket_meets buckets bufferSizes compression) fun assigned all => ?_
  obtain ⟨counted, inside⟩ := all
  refine .ite (fun none => ⟨none.symm, fun _ member => absurd member List.not_mem_nil⟩) fun _ => ?_
  refine .bind (markBuckets_meets neededBuffers (by rw [List.length_replicate]; exact inside))
    fun marked sameMarked => ?_
  rw [List.length_replicate] at sameMarked
  refine .bind (decompressBuckets_meets compression buckets 0 (by omega))
    fun decompressed sameBuckets => ?_
  exact extractBuffers_meets neededBuffers (by rw [sameBuckets]; exact inside) bufferSizes 0
    (by omega) (List.length_replicate.trans sameBuckets.symm)

/-! ## The header -/

theorem splitHeader_meets (data : Bytes) :
    Meets Fault.Returned (splitHeader data) fun split => split.2.2 ≤ data.length := by
  unfold splitHeader
  split
  · exact malformed_meets _
  · rename_i compressionByte rest
    have typed : Meets Fault.Returned (CompressionType.tryFrom compressionByte) fun _ => True := by
      unfold CompressionType.tryFrom
      refine .ite (fun _ => trivial) fun _ => .ite (fun _ => trivial) fun _ => ?_
      exact .ite (fun _ => trivial) fun _ => .ite (fun _ => trivial) fun _ => ⟨_, rfl⟩
    refine .bind typed fun compression _ => ?_
    refine .bind (sliceRange_meets (Nat.succ_le_succ (Nat.zero_le _)) (Nat.le_refl _))
      fun remaining _ => ?_
    split
    · exact malformed_meets _
    · simp only
      split
      · exact malformed_meets _
      · rename_i headerEnd added
        obtain ⟨rfl, _⟩ := checkedAdd_eq_some.mp added
        refine .ite (fun _ => malformed_meets _) fun short => ?_
        refine .bind (sliceRange_meets (Nat.le_add_right _ _) (Nat.not_lt.mp short))
          fun headerCompressed _ => ?_
        exact Nat.not_lt.mp short

/-- Whatever the bytes of a chunk are, its header and its buckets are read without
a panic, and what is handed on fits together. -/
theorem parseHeaderAndBuckets_meets (data : Bytes) (projection : Option FieldProjection) :
    Meets Fault.Returned (parseHeaderAndBuckets ext data projection) ParsedHeader.Sound := by
  unfold parseHeaderAndBuckets
  refine .bind (splitHeader_meets data) fun header within => ?_
  refine .bind (decompressWithPrefix_safe header.2.1 header.1).meets fun headerData _ => ?_
  have start : (BufferCursor.new headerData).Inside := Nat.zero_le _
  refine .bind (BufferCursor.readVarint32_meets start) fun numBuckets afterBuckets => ?_
  refine .bind (BufferCursor.readVarint32_meets afterBuckets.2.inside)
    fun numBuffers afterBuffers => ?_
  have sizes : ∀ {cursor : BufferCursor}, cursor.Inside →
      Meets Fault.Returned cursor.readVarint64 fun out =>
        True ∧ BufferCursor.Onward cursor out.2 :=
    fun inside => (BufferCursor.readVarint64_meets inside).mono fun _ onward => ⟨trivial, onward⟩
  refine .bind (BufferCursor.readMany_meets (fun _ => True) sizes numBuckets.1 afterBuffers.2.inside)
    fun bucketSizes bucketsRead => ?_
  refine .bind (BufferCursor.readMany_meets (fun _ => True) sizes numBuffers.1 bucketsRead.2.2)
    fun bufferSizes buffersRead => ?_
  refine .bind (parseStateMetadata_meets buffersRead.2.2) fun metadata parsed => ?_
  obtain ⟨tags, nextNodes, words, subtypes, inside⟩ := parsed
  refine .bind (readBucketData_meets bucketSizes.1 within) fun buckets reached => ?_
  refine .bind (sliceRange_meets reached (Nat.le_refl _)) fun transitionsCompressed _ => ?_
  refine .bind (neededBuffersOf_meets projection metadata.1 inside numBuffers.1)
    fun neededBuffers _ => ?_
  refine .bind (decompressIntoBuffers_meets buckets.1 bufferSizes.1 header.1 neededBuffers)
    fun buffers all => ?_
  exact ⟨tags, nextNodes, words, subtypes, inside, all.1.trans buffersRead.1, all.2⟩

end Riegeli
