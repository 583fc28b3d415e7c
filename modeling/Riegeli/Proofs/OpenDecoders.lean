/-
Module: Riegeli.Proofs.OpenDecoders
Purpose: A decoder that opens hands over exactly as many records as the chunk
  header counts, whatever the chunk's bytes are.
Trusted boundary: the hash and the codecs
Main exports: simpleDecoder_yields, transposedDecoder_yields,
  ActiveDecoder.Yields.unique
-/
import Riegeli.Proofs.SimpleRoundTrip
import Riegeli.Spec.SimpleGrammar

namespace Riegeli

variable {ext : Externals}

/-! ## What a decoder yields -/

/-- A decoder hands over one list of records only. -/
theorem ActiveDecoder.Yields.unique {first : List Bytes} :
    ∀ {decoder : ActiveDecoder} {second : List Bytes}, decoder.Yields first →
      decoder.Yields second → second = first := by
  induction first with
  | nil =>
      intro decoder second yields other
      cases second with
      | nil => rfl
      | cons record rest =>
          obtain ⟨next, read, _⟩ := other
          rw [show decoder.readRecord = _ from yields] at read
          cases read
  | cons record rest ih =>
      intro decoder second yields other
      obtain ⟨next, read, later⟩ := yields
      cases second with
      | nil =>
          rw [show decoder.readRecord = _ from other] at read
          cases read
      | cons record' rest' =>
          obtain ⟨next', read', later'⟩ := other
          rw [read] at read'
          cases read'
          rw [ih later later']

/-! ## Simple chunks -/

/-- Consecutive sizes cut the values into records. -/
theorem exists_records (sizes : List Nat) (values : Bytes) (filled : values.length = sizes.sum) :
    ∃ records : List Bytes, records.map List.length = sizes ∧ records.flatten = values :=
  ⟨slicesOf sizes values, map_length_slicesOf sizes values filled,
    flatten_slicesOf sizes values filled⟩

theorem parseSizesLoop_length (texts : SizesTexts) (sizesData : Bytes) (decodedDataSize : Nat)
    (left : Nat) : ∀ (index : Nat) (state final : SizesState),
      parseSizesLoop texts sizesData decodedDataSize left index state = .ok final →
      final.sizes.length = state.sizes.length + left := by
  induction left with
  | zero =>
      intro index state final ran
      cases ran
      rfl
  | succ left ih =>
      intro index state final ran
      unfold parseSizesLoop at ran
      split at ran
      · cases ran
      · split at ran
        · cases ran
        · split at ran
          · cases ran
          · have rest := ih _ _ _ ran
            simp only [List.length_append, List.length_singleton] at rest
            omega

theorem parseSizes_length {texts : SizesTexts} {sizesData : Bytes}
    {numRecords decodedDataSize : Nat} {sizes : List Nat}
    (parsed : parseSizes texts sizesData numRecords decodedDataSize = .ok sizes) :
    sizes.length = numRecords := by
  obtain ⟨state, loop, parsed⟩ := Except.bind_eq_ok.mp parsed
  have counted := parseSizesLoop_length _ _ _ _ _ _ _ loop
  split at parsed
  · cases parsed
  · split at parsed
    · cases parsed
    · cases parsed
      simpa using counted

theorem checkedSum_some (sizes : List Nat) : ∀ {total sum : Nat},
    checkedSum sizes total = some sum → sum = total + sizes.sum := by
  induction sizes with
  | nil =>
      intro total sum summed
      exact (Option.some.inj summed).symm
  | cons size rest ih =>
      intro total sum summed
      obtain ⟨next, added, summed⟩ := Option.bind_eq_some_iff.mp summed
      have later := ih summed
      obtain ⟨rfl, _⟩ := checkedAdd_eq_some.mp added
      rw [List.sum_cons]
      omega

theorem sliceRange_length {Item : Type} {items slice : List Item} {start stop : Nat}
    (sliced : sliceRange items start stop = .ok slice) : slice.length = stop - start := by
  unfold sliceRange at sliced
  split at sliced
  · cases sliced
    simp only [List.length_take, List.length_drop]
    omega
  · cases sliced

/-- The decoder is that of some records, as many as are counted. -/
def DecodesTo (numRecords : Nat) (decoder : SimpleChunkDecoder) : Prop :=
  ∃ records, decoder = simpleDecoderOf records 0 ∧ records.length = numRecords

theorem decodesTo_of_sizes {numRecords : Nat} {sizes : List Nat} {values : Bytes}
    (counted : sizes.length = numRecords) (length : values.length = sizes.sum) :
    DecodesTo numRecords
      { recordRanges := recordRangesFrom 0 sizes, values := values, nextRecord := 0 } := by
  obtain ⟨records, lengths, flat⟩ := exists_records sizes values length
  refine ⟨records, ?_, ?_⟩
  · rw [simpleDecoderOf, lengths, flat]
  · rw [← counted, ← lengths, List.length_map]

theorem decodeUncompressed_decodesTo {payload : Bytes} {numRecords decodedDataSize : Nat}
    {decoder : SimpleChunkDecoder}
    (decoded : decodeUncompressed payload numRecords decodedDataSize = .ok decoder) :
    DecodesTo numRecords decoder := by
  unfold decodeUncompressed at decoded
  split at decoded
  · cases decoded
  · obtain ⟨available, _, decoded⟩ := Except.bind_eq_ok.mp decoded
    split at decoded
    · cases decoded
    · obtain ⟨sizesData, _, decoded⟩ := Except.bind_eq_ok.mp decoded
      obtain ⟨sizes, parsed, decoded⟩ := Except.bind_eq_ok.mp decoded
      split at decoded
      · cases decoded
      · rename_i total summed
        split at decoded
        · cases decoded
        · split at decoded
          · cases decoded
          · split at decoded
            · cases decoded
            · obtain ⟨values, sliced, decoded⟩ := Except.bind_eq_ok.mp decoded
              cases decoded
              have length := sliceRange_length sliced
              have sum := checkedSum_some _ summed
              exact decodesTo_of_sizes (parseSizes_length parsed) (by omega)

theorem decodeCompressed_decodesTo {payload : Bytes} {numRecords decodedDataSize : Nat}
    {compression : CompressionType} {decoder : SimpleChunkDecoder}
    (decoded : decodeCompressed ext payload numRecords compression decodedDataSize =
      .ok decoder) : DecodesTo numRecords decoder := by
  unfold decodeCompressed at decoded
  split at decoded
  · cases decoded
  · split at decoded
    · cases decoded
    · obtain ⟨available, _, decoded⟩ := Except.bind_eq_ok.mp decoded
      split at decoded
      · cases decoded
      · obtain ⟨sizesBlob, _, decoded⟩ := Except.bind_eq_ok.mp decoded
        split at decoded
        · cases decoded
        · obtain ⟨compressedSizes, _, decoded⟩ := Except.bind_eq_ok.mp decoded
          simp only at decoded
          split at decoded
          · cases decoded
          · obtain ⟨sizesBytes, _, decoded⟩ := Except.bind_eq_ok.mp decoded
            split at decoded
            · cases decoded
            · obtain ⟨sizes, parsed, decoded⟩ := Except.bind_eq_ok.mp decoded
              obtain ⟨valuesBlob, _, decoded⟩ := Except.bind_eq_ok.mp decoded
              split at decoded
              · cases decoded
              · split at decoded
                · cases decoded
                · obtain ⟨compressedValues, _, decoded⟩ := Except.bind_eq_ok.mp decoded
                  obtain ⟨values, _, decoded⟩ := Except.bind_eq_ok.mp decoded
                  split at decoded
                  · cases decoded
                  · rename_i total summed
                    split at decoded
                    · cases decoded
                    · rename_i agree
                      cases decoded
                      have sum := checkedSum_some _ summed
                      exact decodesTo_of_sizes (parseSizes_length parsed) (by omega)

theorem SimpleChunkDecoder.new_decodesTo {chunk : Chunk} {decoder : SimpleChunkDecoder}
    (opened : SimpleChunkDecoder.new ext chunk = .ok decoder) :
    DecodesTo chunk.header.numRecords decoder := by
  unfold SimpleChunkDecoder.new at opened
  split at opened
  · cases opened
  · simp only at opened
    split at opened
    · cases opened
    · split at opened
      · exact decodeUncompressed_decodesTo opened
      · split at opened
        · exact decodeCompressed_decodesTo opened
        · split at opened
          · exact decodeCompressed_decodesTo opened
          · split at opened
            · exact decodeCompressed_decodesTo opened
            · cases opened

/-- A simple decoder hands over as many records as the header counts. -/
theorem simpleDecoder_yields {chunk : Chunk} {decoder : ActiveDecoder}
    (opened : RecordReader.simpleDecoder ext chunk = .ok decoder) :
    ∃ records, decoder.Yields records ∧ records.length = chunk.header.numRecords := by
  obtain ⟨simple, new, built⟩ := Except.bind_eq_ok.mp opened
  cases built
  obtain ⟨records, rfl, counted⟩ := SimpleChunkDecoder.new_decodesTo new
  exact ⟨records, simpleDecoderOf_yields records [], counted⟩

/-! ## Transposed chunks -/

/-- The records between consecutive limits. -/
def slicesBetween (data : Bytes) : Nat → List Nat → List Bytes
  | _, [] => []
  | prev, stop :: rest => (data.drop prev).take (stop - prev) :: slicesBetween data stop rest

theorem length_slicesBetween (data : Bytes) (limits : List Nat) :
    ∀ prev, (slicesBetween data prev limits).length = limits.length := by
  induction limits with
  | nil => exact fun _ => rfl
  | cons stop rest ih => exact fun prev => by rw [slicesBetween, List.length_cons, ih]; rfl

/-- Limits in order hand over the slices between them. -/
theorem transposed_yields (data : Bytes) (todo : List Nat) :
    ∀ done : List Nat, boundariesOrdered data.length (done.getLastD 0) todo = true →
      (ActiveDecoder.transposed
        { data := data, limits := done ++ todo, nextYield := done.length }).Yields
          (slicesBetween data (done.getLastD 0) todo) := by
  induction todo with
  | nil =>
      intro done _
      simp [slicesBetween, ActiveDecoder.Yields, ActiveDecoder.readRecord,
        TransposeChunkDecoder.readRecord]
  | cons stop rest ih =>
      intro done ordered
      rw [boundariesOrdered] at ordered
      have bounds : ¬ (data.length < stop ∨ stop < done.getLastD 0) := by
        intro outside
        rw [if_pos outside] at ordered
        cases ordered
      rw [if_neg bounds] at ordered
      have start : TransposeChunkDecoder.nextStart
          { data := data, limits := done ++ stop :: rest, nextYield := done.length } =
          .ok (done.getLastD 0) := by
        unfold TransposeChunkDecoder.nextStart
        cases done with
        | nil => rfl
        | cons first more =>
            rw [if_neg (by simp)]
            simp only [indexAt_eq_ok]
            rw [List.getElem?_append_left (by simp), ← List.getLast?_eq_getElem?,
              List.getLast?_cons, List.getLastD_cons, List.getLastD_eq_getLast?]
      have limit : indexAt (done ++ stop :: rest) done.length = .ok stop := by
        rw [indexAt_eq_ok]
        simp
      refine ⟨.transposed
        { data := data, limits := done ++ stop :: rest, nextYield := done.length + 1 }, ?_, ?_⟩
      · simp only [ActiveDecoder.readRecord, TransposeChunkDecoder.readRecord]
        rw [if_neg (by simp), start, Except.ok_bind, limit, Except.ok_bind,
          sliceRange_eq (by omega) (by omega)]
        rfl
      · have later := ih (done ++ [stop]) (by simpa using ordered)
        simpa using later

theorem complementLoop_length (size fuel : Nat) :
    ∀ {first last : Nat} {limits flipped : List Nat},
      complementLoop size fuel first last limits = .ok flipped →
      flipped.length = limits.length := by
  induction fuel with
  | zero =>
      intro first last limits flipped ran
      cases ran
  | succ fuel ih =>
      intro first last limits flipped ran
      unfold complementLoop at ran
      split at ran
      · obtain ⟨low, _, ran⟩ := Except.bind_eq_ok.mp ran
        obtain ⟨high, _, ran⟩ := Except.bind_eq_ok.mp ran
        obtain ⟨tmp, _, ran⟩ := Except.bind_eq_ok.mp ran
        obtain ⟨other, _, ran⟩ := Except.bind_eq_ok.mp ran
        obtain ⟨once, setOnce, ran⟩ := Except.bind_eq_ok.mp ran
        obtain ⟨twice, setTwice, ran⟩ := Except.bind_eq_ok.mp ran
        rw [ih ran, setAt_length setTwice, setAt_length setOnce]
      · cases ran
        rfl

theorem complementLimits_length {size : Nat} {limits flipped : List Nat}
    (ran : complementLimits size limits = .ok flipped) : flipped.length = limits.length := by
  unfold complementLimits at ran
  split at ran
  · cases ran
    rfl
  · exact complementLoop_length _ _ ran

theorem runStateMachine_counted {context : DecodeContext} {decodedDataSize firstNode : Nat}
    {buffers : List BufferCursor} {transitions : BufferCursor}
    {dest : Decoder.BackwardBuffer} {limits : List Nat}
    (ran : runStateMachine context decodedDataSize buffers transitions firstNode =
      .ok (dest, limits)) : limits.length = context.numRecords := by
  obtain ⟨first, _, ran⟩ := Except.bind_eq_ok.mp ran
  obtain ⟨state, _, ran⟩ := Except.bind_eq_ok.mp ran
  split at ran
  · cases ran
  · split at ran
    · cases ran
    · split at ran
      · cases ran
      · rename_i counted
        cases ran
        exact Classical.not_not.mp counted

/-- The limits of a decoded chunk are in order, inside the data, and one for
each record. -/
theorem decodeAllRecords_limits {context : DecodeContext} {decodedDataSize firstNode : Nat}
    {buffers : List BufferCursor} {transitions : BufferCursor} {data : Bytes}
    {limits : List Nat}
    (ran : decodeAllRecords context decodedDataSize buffers transitions firstNode =
      .ok (data, limits)) :
    limits.length = context.numRecords ∧ boundariesOrdered data.length 0 limits = true := by
  obtain ⟨⟨dest, raw⟩, machine, ran⟩ := Except.bind_eq_ok.mp ran
  have counted := runStateMachine_counted machine
  simp only at ran
  split at ran
  · cases ran
  · unfold finalizeRecords at ran
    simp only at ran
    split at ran
    · cases ran
    · obtain ⟨flipped, complemented, ran⟩ := Except.bind_eq_ok.mp ran
      split at ran
      · cases ran
      · rename_i ordered
        cases ran
        refine ⟨(complementLimits_length complemented).trans counted, ?_⟩
        simpa [Decoder.BackwardBuffer.intoForward, Decoder.BackwardBuffer.pos] using ordered

/-- A transposed decoder hands over as many records as the header counts. -/
theorem transposedDecoder_yields {chunk : Chunk} {projection : Option FieldProjection}
    {decoder : ActiveDecoder}
    (opened : RecordReader.transposedDecoder ext chunk projection = .ok decoder) :
    ∃ records, decoder.Yields records ∧ records.length = chunk.header.numRecords := by
  obtain ⟨transposed, new, built⟩ := Except.bind_eq_ok.mp opened
  cases built
  obtain ⟨parsed, _, new⟩ := Except.bind_eq_ok.mp new
  obtain ⟨nodes, _, new⟩ := Except.bind_eq_ok.mp new
  obtain ⟨lengthsIndex, _, new⟩ := Except.bind_eq_ok.mp new
  obtain ⟨transitions, _, new⟩ := Except.bind_eq_ok.mp new
  obtain ⟨⟨data, limits⟩, decoded, new⟩ := Except.bind_eq_ok.mp new
  cases new
  obtain ⟨counted, ordered⟩ := decodeAllRecords_limits decoded
  exact ⟨_, transposed_yields data limits [] ordered,
    (length_slicesBetween data limits 0).trans counted⟩

end Riegeli
