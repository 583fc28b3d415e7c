/-
Module: Riegeli.Proofs.WriterTrace
Purpose: The sequence of sink writes that one chunk amounts to, as a list
  computed beforehand, and the bytes these writes add up to.
Trusted boundary: the hash and the sink
Main exports: chunkPieces, emitPieces, writeChunkRaw_eq, chunkPieces_flatten,
  emitPieces_run
-/
import Riegeli.Core.RecordWriter
import Riegeli.Spec.FileFormat
import Mathlib.Data.List.Induction

namespace Riegeli

variable (ext : Externals)

/-- The header of the block at `pos`, in a chunk that spans `[chunkBegin, stop)`. -/
def headerPiece (chunkBegin stop pos : Nat) : Bytes :=
  (BlockHeader.fromParts ext (pos - chunkBegin) (stop - pos)).toBytes

/-- The writes of the data loop. -/
def bodyPieces (chunkBegin stop : Nat) : Nat → Nat → Bytes → List Bytes
  | 0, _, _ => []
  | fuel + 1, pos, bytes =>
      if bytes.isEmpty then []
      else if pos % blockSize = 0 then
        let toWrite := min bytes.length (blockSize - blockHeaderSize)
        headerPiece ext chunkBegin stop pos :: bytes.take toWrite ::
          bodyPieces chunkBegin stop fuel (pos + blockHeaderSize + toWrite) (bytes.drop toWrite)
      else
        let toWrite := min bytes.length (blockSize - pos % blockSize)
        bytes.take toWrite :: bodyPieces chunkBegin stop fuel (pos + toWrite) (bytes.drop toWrite)

/-- The writes of the zero-padding loop. -/
def zeroPieces (chunkBegin stop : Nat) : Nat → Nat → List Bytes
  | 0, _ => []
  | fuel + 1, pos =>
      if pos < stop then
        if pos % blockSize = 0 then
          headerPiece ext chunkBegin stop pos ::
            zeroPieces chunkBegin stop fuel (pos + blockHeaderSize)
        else
          let toWrite := min (stop - pos) (blockSize - pos % blockSize)
          List.replicate toWrite 0 :: zeroPieces chunkBegin stop fuel (pos + toWrite)
      else []

/-- Where the data loop stops. -/
def bodyStop (pos : Nat) (bytes : Bytes) : Nat :=
  if bytes.isEmpty then pos else place (usable pos + bytes.length)

/-- The writes of a chunk. -/
def chunkPieces (chunkBegin stop : Nat) (payload : Bytes) : List Bytes :=
  bodyPieces ext chunkBegin stop (payload.length + 1) chunkBegin payload ++
    zeroPieces ext chunkBegin stop (stop - bodyStop chunkBegin payload + 1)
      (bodyStop chunkBegin payload)

/-- Write the pieces one after the other. -/
def emitPieces : List Bytes → RecordWriter.Method Unit
  | [] => pure ()
  | piece :: rest => do
      RecordWriter.callSink (.write piece)
      RecordWriter.advance piece.length
      emitPieces rest

variable {ext} {chunkBegin stop : Nat}

@[simp] theorem length_headerPiece (pos : Nat) :
    (headerPiece ext chunkBegin stop pos).length = 24 := by
  simp [headerPiece]

/-! ## The loops make these writes -/

/-- The writer after one more call on its sink. -/
def RecordWriter.called (self : RecordWriter) (call : SinkCall) : RecordWriter :=
  { self with sink := { self.sink with calls := self.sink.calls ++ [call] } }

theorem callSink_ok {self : RecordWriter} {call : SinkCall}
    (accepted : self.sink.respond (self.sink.calls ++ [call]) = none) :
    RecordWriter.callSink call self = (.ok (), self.called call) := by
  simp only [RecordWriter.callSink, Sink.call, accepted]
  rfl

theorem callSink_error {self : RecordWriter} {call : SinkCall} {error : IoError}
    (refused : self.sink.respond (self.sink.calls ++ [call]) = some error) :
    RecordWriter.callSink call self =
      (.error (.error (.ioError error)), self.called call) := by
  simp only [RecordWriter.callSink, Sink.call, refused]
  rfl

theorem emitPieces_cons (piece : Bytes) (rest : List Bytes) (self : RecordWriter) :
    emitPieces (piece :: rest) self =
      match RecordWriter.callSink (.write piece) self with
      | (.ok (), next) => emitPieces rest { next with filePos := next.filePos + piece.length }
      | (.error fault, next) => (.error fault, next) := by
  simp only [emitPieces, Act.bind_run]
  cases RecordWriter.callSink (.write piece) self with
  | mk result next => cases result <;> rfl

theorem emitPieces_append (first second : List Bytes) (self : RecordWriter) :
    emitPieces (first ++ second) self =
      (do emitPieces first; emitPieces second : RecordWriter.Method Unit) self := by
  induction first generalizing self with
  | nil => rfl
  | cons piece rest ih =>
      rw [List.cons_append, emitPieces_cons, Act.bind_run, emitPieces_cons]
      match RecordWriter.callSink (.write piece) self with
      | (.ok (), next) => exact ih _
      | (.error fault, next) => rfl

/-- One write, then a method that makes the remaining ones. -/
theorem emit_then {piece : Bytes} {rest : List Bytes} {method : RecordWriter.Method Unit}
    {self : RecordWriter} {count : Nat} (size : count = piece.length)
    (agree : ∀ next : RecordWriter, next.filePos = self.filePos + piece.length →
      method next = emitPieces rest next) :
    (do
        RecordWriter.callSink (.write piece)
        RecordWriter.advance count
        method : RecordWriter.Method Unit) self =
      emitPieces (piece :: rest) self := by
  subst size
  have kept : (RecordWriter.callSink (.write piece) self).2.filePos = self.filePos := rfl
  rw [emitPieces_cons]
  simp only [Act.bind_run, RecordWriter.advance, Act.modify_run]
  cases outcome : RecordWriter.callSink (.write piece) self with
  | mk result next =>
      rw [outcome] at kept
      cases result with
      | error fault => rfl
      | ok value =>
          simp only at kept
          exact agree _ (by rw [kept])

/-- Within the span of the chunk a block header is one write. -/
theorem header_then {rest : List Bytes} {method : RecordWriter.Method Unit}
    {self : RecordWriter} (after : chunkBegin ≤ self.filePos) (before : self.filePos ≤ stop)
    (agree : ∀ next : RecordWriter, next.filePos = self.filePos + 24 →
      method next = emitPieces rest next) :
    (do
        RecordWriter.writeBlockHeader ext chunkBegin stop
        method : RecordWriter.Method Unit) self =
      emitPieces (headerPiece ext chunkBegin stop self.filePos :: rest) self := by
  have written := @emit_then (headerPiece ext chunkBegin stop self.filePos) rest method self blockHeaderSize
    (by simp [blockHeaderSize]) (by simpa using agree)
  rw [← written]
  simp only [RecordWriter.writeBlockHeader, Act.bind_run, Act.get_run, Act.lift_run,
    subWord_eq after, subWord_eq before]
  cases outcome : RecordWriter.callSink (.write (headerPiece ext chunkBegin stop self.filePos))
      self with
  | mk result next =>
      unfold headerPiece at outcome
      rw [outcome]
      cases result <;> rfl

/-- The data loop makes the writes of `bodyPieces`, while the data fits. -/
theorem writeBytesLoop_eq (fuel : Nat) :
    ∀ (bytes : Bytes) (self : RecordWriter), bytes.length < fuel →
      chunkBegin ≤ self.filePos → isPossibleChunkBoundary self.filePos = true →
      bodyStop self.filePos bytes ≤ stop →
      RecordWriter.writeBytesLoop ext chunkBegin stop fuel bytes self =
        emitPieces (bodyPieces ext chunkBegin stop fuel self.filePos bytes) self := by
  induction fuel with
  | zero => intro bytes self enough; omega
  | succ fuel ih =>
      intro bytes self enough after possible before
      rw [RecordWriter.writeBytesLoop, bodyPieces]
      by_cases done : bytes.isEmpty
      · rw [if_pos done, if_pos done]
        rfl
      · have positive : 0 < bytes.length := by
          cases bytes with
          | nil => simp at done
          | cons byte rest => simp
        rw [bodyStop, if_neg done] at before
        have reached := @lt_place_usable_add self.filePos _ positive
        rw [isPossibleChunkBoundary_iff] at possible
        rw [if_neg done, if_neg done]
        -- a later position with its bytes is in the same situation
        have next : ∀ (count : Nat) (later : RecordWriter), 0 < count → count ≤ bytes.length →
            self.filePos ≤ later.filePos → isPossibleChunkBoundary later.filePos = true →
            usable later.filePos = usable self.filePos + count →
            RecordWriter.writeBytesLoop ext chunkBegin stop fuel (bytes.drop count) later =
              emitPieces
                (bodyPieces ext chunkBegin stop fuel later.filePos (bytes.drop count)) later := by
          intro count later some inside ahead laterPossible counted
          refine ih _ later (by simp only [List.length_drop]; omega) (by omega) laterPossible ?_
          unfold bodyStop
          split
          · rename_i empty
            have short := congrArg List.length (List.isEmpty_iff.mp empty)
            simp only [List.length_drop, List.length_nil] at short
            have nonzero : 0 < later.filePos := by
              by_contra zero
              rw [show later.filePos = 0 by omega] at counted
              unfold usable at counted
              omega
            have last : later.filePos = place (usable later.filePos) :=
              (place_usable laterPossible nonzero).symm
            rw [last, counted]
            exact Nat.le_trans (place_le_place (by omega)) before
          · rw [counted, List.length_drop,
              show usable self.filePos + count + (bytes.length - count) =
                usable self.filePos + bytes.length by omega]
            exact before
        by_cases boundary : self.filePos % blockSize = 0
        · have start : self.filePos % 65536 = 0 := boundary
          rw [Act.bind_run_ok (Act.get_run self), Act.whenever_pos boundary, if_pos boundary]
          refine header_then after (by omega) ?_
          intro later moved
          have space : later.filePos % blockSize = 24 := by
            rw [moved, blockSize]
            omega
          rw [Act.bind_run_ok (Act.get_run later)]
          simp only [space]
          simp only [blockSize, blockHeaderSize]
          refine emit_then (by simp) ?_
          intro last landed
          simp only [List.length_take] at landed
          have ahead : last.filePos = self.filePos + 24 + min bytes.length (65536 - 24) := by
            omega
          rw [next _ last (by omega) (by omega) (by omega)
            (by rw [isPossibleChunkBoundary_iff]; omega)
            (by rw [ahead]; unfold usable; omega), ahead]
        · have start : 25 ≤ self.filePos % 65536 := by
            have : self.filePos % 65536 ≠ 0 := boundary
            omega
          rw [Act.bind_run_ok (Act.get_run self), Act.whenever_neg boundary, if_neg boundary,
            Act.bind_run_ok (Act.pure_run () self), Act.bind_run_ok (Act.get_run self)]
          simp only [blockSize]
          refine emit_then (by simp) ?_
          intro last landed
          simp only [List.length_take] at landed
          have ahead : last.filePos =
              self.filePos + min bytes.length (65536 - self.filePos % 65536) := by
            omega
          rw [next _ last (by omega) (by omega) (by omega)
            (by rw [isPossibleChunkBoundary_iff]; omega)
            (by rw [ahead]; unfold usable; omega), ahead]

/-- The zero-padding loop makes the writes of `zeroPieces`. -/
theorem zeroPaddingLoop_eq (fuel : Nat) :
    ∀ self : RecordWriter, 0 < fuel → stop < self.filePos + fuel →
      chunkBegin ≤ self.filePos →
      RecordWriter.zeroPaddingLoop ext chunkBegin stop fuel self =
        emitPieces (zeroPieces ext chunkBegin stop fuel self.filePos) self := by
  induction fuel with
  | zero => intro self positive; omega
  | succ fuel ih =>
      intro self _ enough after
      rw [RecordWriter.zeroPaddingLoop, zeroPieces, Act.bind_run_ok (Act.get_run self)]
      by_cases more : self.filePos < stop
      · rw [if_pos more, if_pos more]
        by_cases boundary : self.filePos % blockSize = 0
        · rw [if_pos boundary, if_pos boundary]
          refine header_then after (by omega) ?_
          intro later moved
          rw [ih later (by omega) (by omega) (by omega), moved]
          rfl
        · rw [if_neg boundary, if_neg boundary]
          have inBlock := Nat.mod_lt self.filePos (show 0 < blockSize by decide)
          refine emit_then (by simp) ?_
          intro later moved
          simp only [List.length_replicate] at moved
          rw [ih later (by omega) (by omega) (by omega), moved]
      · rw [if_neg more, if_neg more]
        rfl

/-! ## The bytes of the writes -/

variable {payload : Bytes}

theorem bodyStop_of_ne {pos : Nat} {bytes : Bytes} (more : ¬ bytes.isEmpty = true) :
    bodyStop pos bytes = place (usable pos + bytes.length) := by
  rw [bodyStop, if_neg more]

/-- The data writes are the span of the chunk up to the end of the data. -/
theorem bodyPieces_flatten (fuel : Nat) :
    ∀ (pos : Nat), chunkBegin ≤ pos → isPossibleChunkBoundary pos = true →
      (payload.drop (usable pos - usable chunkBegin)).length < fuel →
      (bodyPieces ext chunkBegin stop fuel pos
          (payload.drop (usable pos - usable chunkBegin))).flatten =
        spanBytes ext chunkBegin stop payload pos
          (bodyStop pos (payload.drop (usable pos - usable chunkBegin)) - pos) := by
  induction fuel with
  | zero => intro pos _ _ enough; omega
  | succ fuel ih =>
      intro pos after possible enough
      have counted := usable_mono after
      rw [bodyPieces]
      by_cases done : (payload.drop (usable pos - usable chunkBegin)).isEmpty
      · rw [if_pos done, bodyStop, if_pos done]
        simp
      · have left := List.length_drop (i := usable pos - usable chunkBegin) (l := payload)
        have positive : 0 < (payload.drop (usable pos - usable chunkBegin)).length := by
          cases rest : payload.drop (usable pos - usable chunkBegin) with
          | nil => simp [rest] at done
          | cons byte bytes => simp
        rw [if_neg done, bodyStop_of_ne done]
        rw [isPossibleChunkBoundary_iff] at possible
        -- the span from the next position, `count` payload bytes further on
        have next : ∀ (count later : Nat), 0 < count →
            usable pos - usable chunkBegin + count ≤ payload.length →
            pos ≤ later → isPossibleChunkBoundary later = true →
            usable later = usable pos + count →
            later ≤ place (usable pos +
                (payload.drop (usable pos - usable chunkBegin)).length) ∧
              (bodyPieces ext chunkBegin stop fuel later
                  ((payload.drop (usable pos - usable chunkBegin)).drop count)).flatten =
                spanBytes ext chunkBegin stop payload later
                  (place (usable pos +
                    (payload.drop (usable pos - usable chunkBegin)).length) - later) := by
          intro count later some inside ahead laterPossible moved
          have nonzero : 0 < later := by
            by_contra zero
            rw [show later = 0 by omega] at moved
            unfold usable at moved
            omega
          have placed := place_usable laterPossible nonzero
          have same : (payload.drop (usable pos - usable chunkBegin)).drop count =
              payload.drop (usable later - usable chunkBegin) := by
            rw [List.drop_drop]
            congr 1
            omega
          have short := List.length_drop (i := usable later - usable chunkBegin) (l := payload)
          have total : usable later + (payload.drop (usable later - usable chunkBegin)).length =
              usable pos + (payload.drop (usable pos - usable chunkBegin)).length := by
            omega
          constructor
          · rw [← placed, moved]
            exact place_le_place (by omega)
          · rw [same, ih later (by omega) laterPossible (by omega)]
            by_cases last : (payload.drop (usable later - usable chunkBegin)).isEmpty
            · rw [bodyStop, if_pos last, ← total]
              have none := congrArg List.length (List.isEmpty_iff.mp last)
              simp only [List.length_nil] at none
              rw [none, Nat.add_zero, placed]
            · rw [bodyStop_of_ne last, total]
        by_cases boundary : pos % blockSize = 0
        · have start : pos % 65536 = 0 := boundary
          rw [if_pos boundary]
          simp only [blockSize, blockHeaderSize, List.flatten_cons, headerPiece]
          obtain ⟨count, counts⟩ : ∃ count, count =
              min (payload.drop (usable pos - usable chunkBegin)).length (65536 - 24) := ⟨_, rfl⟩
          rw [← counts]
          clear boundary
          have afterHeader : usable (pos + 24) = usable pos := by unfold usable; omega
          obtain ⟨room, rest⟩ := next count (pos + 24 + count) (by omega) (by omega) (by omega)
            (by rw [isPossibleChunkBoundary_iff]; omega) (by unfold usable; omega)
          have data := @spanBytes_data ext chunkBegin stop payload (pos + 24) count (by omega) (by omega)
            (by omega) (by omega)
          rw [afterHeader] at data
          rw [rest, ← spanBytes_header start, ← data, ← List.append_assoc, ← spanBytes_add,
            Nat.add_assoc pos 24 count, ← spanBytes_add]
          congr 1
          omega
        · have start : 25 ≤ pos % 65536 := by
            have : pos % 65536 ≠ 0 := boundary
            omega
          rw [if_neg boundary]
          simp only [blockSize, List.flatten_cons]
          obtain ⟨count, counts⟩ : ∃ count, count =
              min (payload.drop (usable pos - usable chunkBegin)).length
                (65536 - pos % 65536) := ⟨_, rfl⟩
          rw [← counts]
          obtain ⟨room, rest⟩ := next count (pos + count) (by omega) (by omega) (by omega)
            (by rw [isPossibleChunkBoundary_iff]; omega) (by unfold usable; omega)
          have data := @spanBytes_data ext chunkBegin stop payload pos count (by omega) (by omega)
            (by omega) (by omega)
          rw [rest, ← data, ← spanBytes_add]
          congr 1
          omega

/-- The padding writes are the rest of the span. -/
theorem zeroPieces_flatten (possible : isPossibleChunkBoundary stop = true) (fuel : Nat) :
    ∀ (pos : Nat), chunkBegin ≤ pos → isPossibleChunkBoundary pos = true ∨ pos % 65536 = 24 →
      payload.length ≤ usable pos - usable chunkBegin → stop < pos + fuel →
      (zeroPieces ext chunkBegin stop fuel pos).flatten =
        spanBytes ext chunkBegin stop payload pos (stop - pos) := by
  induction fuel with
  | zero =>
      intro pos _ _ _ enough
      rw [show stop - pos = 0 by omega]
      rfl
  | succ fuel ih =>
      intro pos after aligned past enough
      rw [isPossibleChunkBoundary_iff] at possible
      rw [isPossibleChunkBoundary_iff] at aligned
      rw [zeroPieces]
      by_cases more : pos < stop
      · rw [if_pos more]
        by_cases boundary : pos % blockSize = 0
        · have start : pos % 65536 = 0 := boundary
          have afterHeader : usable (pos + 24) = usable pos := by unfold usable; omega
          rw [if_pos boundary]
          simp only [blockHeaderSize, List.flatten_cons, headerPiece]
          rw [ih (pos + 24) (by omega) (by omega) (by omega) (by omega),
            ← spanBytes_header start, ← spanBytes_add]
          congr 1
          omega
        · have start : pos % 65536 ≠ 0 := boundary
          rw [if_neg boundary]
          simp only [blockSize, List.flatten_cons]
          obtain ⟨count, counts⟩ : ∃ count, count = min (stop - pos) (65536 - pos % 65536) :=
            ⟨_, rfl⟩
          rw [← counts]
          have ahead : usable pos ≤ usable (pos + count) := usable_mono (by omega)
          have zeros := @spanBytes_zeros ext chunkBegin stop payload pos count (by omega) (by omega)
            (by omega) past
          rw [ih (pos + count) (by omega) (by rw [isPossibleChunkBoundary_iff]; omega) (by omega)
            (by omega), ← zeros, ← spanBytes_add]
          congr 1
          omega
      · rw [if_neg more, show stop - pos = 0 by omega]
        rfl

/-- The padding loop does not stop short of the end of the chunk. -/
theorem le_zeroPieces_length (fuel : Nat) :
    ∀ pos, stop < pos + fuel →
      stop ≤ pos + (zeroPieces ext chunkBegin stop fuel pos).flatten.length := by
  induction fuel with
  | zero => intro pos enough; omega
  | succ fuel ih =>
      intro pos enough
      rw [zeroPieces]
      by_cases more : pos < stop
      · rw [if_pos more]
        by_cases boundary : pos % blockSize = 0
        · have later := ih (pos + blockHeaderSize) (by unfold blockHeaderSize; omega)
          rw [if_pos boundary]
          simp only [List.flatten_cons, List.length_append, length_headerPiece]
          unfold blockHeaderSize at *
          omega
        · have inBlock := Nat.mod_lt pos (show 0 < blockSize by decide)
          have later := ih (pos + min (stop - pos) (blockSize - pos % blockSize)) (by omega)
          rw [if_neg boundary]
          simp only [List.flatten_cons, List.length_append, List.length_replicate]
          omega
      · omega

theorem le_bodyStop {pos : Nat} (bytes : Bytes) : pos ≤ bodyStop pos bytes := by
  unfold bodyStop
  split
  · exact Nat.le_refl pos
  · rename_i more
    have positive : 0 < bytes.length := by
      cases bytes with
      | nil => simp at more
      | cons byte rest => simp
    exact Nat.le_of_lt (lt_place_usable_add positive)

theorem chunkBody_flatten (possible : isPossibleChunkBoundary chunkBegin = true) :
    (bodyPieces ext chunkBegin stop (payload.length + 1) chunkBegin payload).flatten =
      spanBytes ext chunkBegin stop payload chunkBegin
        (bodyStop chunkBegin payload - chunkBegin) := by
  have flat := @bodyPieces_flatten ext chunkBegin stop payload
    (payload.length + 1) chunkBegin (Nat.le_refl _) possible (by simp)
  simpa using flat

/-- All writes of a chunk add up to its span. -/
theorem chunkPieces_flatten (possible : isPossibleChunkBoundary chunkBegin = true)
    (stopPossible : isPossibleChunkBoundary stop = true)
    (room : bodyStop chunkBegin payload ≤ stop) (carries : ¬ payload.isEmpty = true) :
    (chunkPieces ext chunkBegin stop payload).flatten =
      spanBytes ext chunkBegin stop payload chunkBegin (stop - chunkBegin) := by
  have ahead := @le_bodyStop chunkBegin payload
  have placed := @bodyStop_of_ne chunkBegin payload carries
  have positive : 0 < payload.length := by
    cases payload with
    | nil => simp at carries
    | cons byte rest => simp
  have reached : usable (bodyStop chunkBegin payload) = usable chunkBegin + payload.length := by
    rw [placed]
    exact usable_place (by omega)
  have zeros := @zeroPieces_flatten ext chunkBegin stop payload
    stopPossible (stop - bodyStop chunkBegin payload + 1) (bodyStop chunkBegin payload) ahead
    (by rw [placed]; exact Or.inl (place_possible _)) (by omega) (by omega)
  rw [chunkPieces, List.flatten_append, chunkBody_flatten possible, zeros]
  have joined := @spanBytes_add ext chunkBegin stop payload chunkBegin (bodyStop chunkBegin payload - chunkBegin)
    (stop - bodyStop chunkBegin payload)
  rw [show chunkBegin + (bodyStop chunkBegin payload - chunkBegin) =
    bodyStop chunkBegin payload by omega] at joined
  rw [← joined]
  congr 1
  omega

/-- The writes of a chunk reach its end. -/
theorem le_chunkPieces_length (possible : isPossibleChunkBoundary chunkBegin = true) :
    stop ≤ chunkBegin + (chunkPieces ext chunkBegin stop payload).flatten.length := by
  have ahead := @le_bodyStop chunkBegin payload
  have padded := @le_zeroPieces_length ext chunkBegin stop
    (stop - bodyStop chunkBegin payload + 1) (bodyStop chunkBegin payload) (by omega)
  rw [chunkPieces, List.flatten_append, chunkBody_flatten possible, List.length_append,
    length_spanBytes]
  omega

/-! ## Outcomes of a sequence of writes -/

/-- The writer after it has made these writes. -/
def RecordWriter.wrote (self : RecordWriter) (pieces : List Bytes) : RecordWriter :=
  { self with
    sink := { self.sink with calls := self.sink.calls ++ pieces.map SinkCall.write }
    filePos := self.filePos + pieces.flatten.length }

/-- The sink accepts the writes one after the other. -/
def Sink.Accepts (sink : Sink) (pieces : List Bytes) : Prop :=
  ∀ count, 0 < count → count ≤ pieces.length →
    sink.respond (sink.calls ++ (pieces.take count).map SinkCall.write) = none

theorem Sink.Accepts.nil (sink : Sink) : sink.Accepts [] := by
  intro count positive within
  simp at within
  omega

theorem emitPieces_ok {pieces : List Bytes} {self : RecordWriter}
    (accepts : self.sink.Accepts pieces) :
    emitPieces pieces self = (.ok (), self.wrote pieces) := by
  induction pieces generalizing self with
  | nil => simp [emitPieces, RecordWriter.wrote]
  | cons piece rest ih =>
      have first := accepts 1 (by omega) (by simp)
      simp only [List.take_succ_cons, List.take_zero, List.map_cons, List.map_nil] at first
      rw [emitPieces_cons, callSink_ok first]
      refine (ih ?_).trans ?_
      · intro count positive within
        have later := accepts (count + 1) (by omega) (by simp; omega)
        simpa [RecordWriter.called] using later
      · simp [RecordWriter.wrote, RecordWriter.called, Nat.add_assoc]

/-- The sink accepts the writes `accepted` and then refuses `piece`. -/
structure Sink.Refuses (sink : Sink) (accepted : List Bytes) (piece : Bytes)
    (error : IoError) : Prop where
  accepts : sink.Accepts accepted
  refuses :
    sink.respond (sink.calls ++ (accepted ++ [piece]).map SinkCall.write) = some error

theorem emitPieces_error {accepted rest : List Bytes} {piece : Bytes} {error : IoError}
    {self : RecordWriter} (refuses : self.sink.Refuses accepted piece error) :
    emitPieces (accepted ++ piece :: rest) self =
      (.error (.error (.ioError error)), (self.wrote accepted).called (.write piece)) := by
  have refused := refuses.refuses
  simp only [List.map_append, List.map_cons, List.map_nil, ← List.append_assoc] at refused
  rw [emitPieces_append, Act.bind_run_ok (emitPieces_ok refuses.accepts), emitPieces_cons,
    callSink_error refused]

/-- A sink accepts a list of writes or refuses one of them. -/
theorem Sink.accepts_or_refuses (sink : Sink) (pieces : List Bytes) :
    sink.Accepts pieces ∨
      ∃ accepted piece rest error, pieces = accepted ++ piece :: rest ∧
        sink.Refuses accepted piece error := by
  induction pieces using List.reverseRecOn with
  | nil => exact Or.inl (Sink.Accepts.nil sink)
  | append_singleton accepted piece ih =>
      rcases ih with accepts | ⟨before, refused, after, error, split, refuses⟩
      · cases answer :
          sink.respond (sink.calls ++ (accepted ++ [piece]).map SinkCall.write) with
        | none =>
            refine Or.inl ?_
            intro count positive within
            rcases Nat.lt_or_ge accepted.length count with all | some
            · rw [List.take_of_length_le (by simp; omega)]
              exact answer
            · rw [List.take_append_of_le_length some]
              exact accepts count positive some
        | some error =>
            exact Or.inr ⟨accepted, piece, [], error, rfl, ⟨accepts, answer⟩⟩
      · refine Or.inr ⟨before, refused, after ++ [piece], error, ?_, refuses⟩
        rw [split]
        simp

theorem emitPieces_filePos {pieces : List Bytes} {self next : RecordWriter}
    (ran : emitPieces pieces self = (.ok (), next)) :
    next.filePos = self.filePos + pieces.flatten.length := by
  rcases Sink.accepts_or_refuses self.sink pieces with
    accepts | ⟨accepted, piece, rest, error, rfl, refuses⟩
  · rw [emitPieces_ok accepts] at ran
    rw [← (Prod.mk.inj ran).2]
    rfl
  · rw [emitPieces_error refuses] at ran
    simp at ran

/-- A chunk is written by its pieces. -/
theorem writeChunkRaw_eq {header : ChunkHeader} {data : Bytes} {self : RecordWriter}
    (sized : header.dataSize = data.length)
    (collected : (header.toBytes ++ data).length ≤ isizeMax)
    (possible : isPossibleChunkBoundary self.filePos = true) :
    RecordWriter.writeChunkRaw ext header data self =
      emitPieces
        (chunkPieces ext self.filePos
          (chunkEnd self.filePos header.dataSize header.numRecords) (header.toBytes ++ data))
        { self with lastChunkStart := self.filePos } := by
  have canonical := canonicalChunkAddress_eq possible
  have room : bodyStop self.filePos (header.toBytes ++ data) ≤
      chunkEnd self.filePos header.dataSize header.numRecords := by
    have size : satAdd chunkHeaderSize header.dataSize = (header.toBytes ++ data).length := by
      rw [List.length_append, ChunkHeader.length_toBytes, sized] at *
      unfold satAdd chunkHeaderSize u64Max isizeMax at *
      omega
    have carries : ¬ (header.toBytes ++ data).isEmpty = true := by
      intro empty
      have := congrArg List.length (List.isEmpty_iff.mp empty)
      simp at this
    rw [bodyStop_of_ne carries, chunkEnd]
    simp only [canonical, size]
    rw [addWithOverhead_eq_place (by simp)]
    exact Nat.le_max_left _ _
  have collect : (Act.lift (collectVec (header.toBytes ++ data)) : RecordWriter.Method Bytes)
      self = (.ok (header.toBytes ++ data), self) := by
    rw [Act.lift_run, collectVec_eq_ok.mpr ⟨collected, rfl⟩]
  have body := @writeBytesLoop_eq ext self.filePos
    (chunkEnd self.filePos header.dataSize header.numRecords)
    ((header.toBytes ++ data).length + 1) (header.toBytes ++ data)
    { self with lastChunkStart := self.filePos } (Nat.lt_succ_self _) (Nat.le_refl _) possible
    room
  simp only at body
  rw [RecordWriter.writeChunkRaw, Act.bind_run_ok (Act.get_run self), Act.bind_run_ok collect,
    Act.bind_run_ok (Act.modify_run _ _), chunkPieces, emitPieces_append, Act.bind_run,
    Act.bind_run, RecordWriter.writeBytesWithBlockHeaders, body]
  match outcome : emitPieces
      (bodyPieces ext self.filePos (chunkEnd self.filePos header.dataSize header.numRecords)
        ((header.toBytes ++ data).length + 1) self.filePos (header.toBytes ++ data))
      { self with lastChunkStart := self.filePos } with
  | (.error fault, next) => rfl
  | (.ok (), next) =>
      have ahead := @le_bodyStop self.filePos (header.toBytes ++ data)
      have landed := emitPieces_filePos outcome
      rw [chunkBody_flatten possible, length_spanBytes] at landed
      have reached : next.filePos = bodyStop self.filePos (header.toBytes ++ data) := by
        simp only at landed
        omega
      have padded := @zeroPaddingLoop_eq ext self.filePos
        (chunkEnd self.filePos header.dataSize header.numRecords)
        (chunkEnd self.filePos header.dataSize header.numRecords - next.filePos + 1) next
        (by omega) (by omega) (by omega)
      rw [reached] at padded
      refine (Act.bind_run_ok (Act.get_run next)).trans ?_
      rw [reached]
      exact padded

end Riegeli
