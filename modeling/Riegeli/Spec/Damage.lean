/-
Module: Riegeli.Spec.Damage
Purpose: Files with damaged chunks: what has become of each chunk, and what is
  left of the file for a reader that recovers.
Trusted boundary: the hash and the codecs
Main exports: carriedBytes, Damage, MarkedChunk, Damaged, Remnant, remnants,
  ReadsAround, Salvages, AlteredOnly, CostsOf
-/
import Riegeli.Spec.FilePositions
import Riegeli.Spec.Recovery

namespace Riegeli

variable (ext : Externals)

/-! ## Damage -/

/-- The place in the file of a byte of a chunk's header and data. -/
def carrierOf (chunkBegin index : Nat) : Nat := bodyPlace (reach chunkBegin index)

/-- What a source has in the places of these bytes of a chunk. -/
def carriedBytes (source : Bytes) (chunkBegin first count : Nat) : Bytes :=
  (List.range' first count).map fun index => source.getD (carrierOf chunkBegin index) 0

/-- What has become of a chunk: nothing, or its hashes show that its data or its
header has been altered. -/
inductive Damage where
  | spared
  | data
  | header
deriving Repr, DecidableEq

/-- The altered source shows this damage of a chunk. -/
def Damage.Shown (altered : Bytes) (chunkBegin : Nat) (chunk : Chunk) : Damage → Prop
  | .spared =>
      carriedBytes altered chunkBegin 0 (chunkHeaderSize + chunk.header.dataSize) = chunk.payload
  | .data =>
      carriedBytes altered chunkBegin 0 chunkHeaderSize = chunk.header.toBytes ∧
        chunk.header.isDataValid ext
          (carriedBytes altered chunkBegin chunkHeaderSize chunk.header.dataSize) = false
  | .header =>
      (ChunkHeader.fromBytes (carriedBytes altered chunkBegin 0 chunkHeaderSize)).isHeaderValid
        ext = false

instance (altered : Bytes) (chunkBegin : Nat) (chunk : Chunk) :
    ∀ damage : Damage, Decidable (damage.Shown ext altered chunkBegin chunk)
  | .spared => inferInstanceAs (Decidable (_ = _))
  | .data => inferInstanceAs (Decidable (_ ∧ _))
  | .header => inferInstanceAs (Decidable (_ = _))

/-- A chunk of a file and what has become of it. -/
structure MarkedChunk where
  held : HeldChunk
  damage : Damage
deriving Repr, DecidableEq

/-- The chunks as they were. -/
def heldChunks (marked : List MarkedChunk) : List HeldChunk := marked.map MarkedChunk.held

/-- The file has come to these bytes: they have its length and its block headers,
its signature is spared, and each of its chunks shows the damage it is marked
with. -/
structure Damaged (source altered : Bytes) (marked : List MarkedChunk) : Prop where
  length : altered.length = source.length
  blockHeaders : ∀ pos, pos % blockSize < blockHeaderSize → altered[pos]? = source[pos]?
  signature : ∀ head rest, marked = head :: rest → head.damage = .spared
  shown : ∀ earlier chunk later, marked = earlier ++ chunk :: later →
    chunk.damage.Shown ext altered (chunkPlace (heldChunks earlier)) chunk.held.chunk

/-! ## What is left -/

/-- What a recovering reader gets of a damaged file: a record, with the beginning
of its chunk, or a span of bytes that it loses. -/
inductive Remnant where
  | record (chunkBegin : Nat) (bytes : Bytes)
  | lost (start stop : Nat)
deriving Repr, DecidableEq

/-- The record, if it is one. -/
def Remnant.record? : Remnant → Option Bytes
  | .record _ bytes => some bytes
  | .lost _ _ => none

/-- The lost span, if it is one. -/
def Remnant.span? : Remnant → Option (Nat × Nat)
  | .record _ _ => none
  | .lost start stop => some (start, stop)

/-- The first block boundary past this place. -/
def boundaryPast (place : Nat) : Nat := (place / blockSize + 1) * blockSize

/-- Where the first of these chunks begins that does not begin before `boundary`:
the end of the file if there is none. -/
def firstFrom (boundary : Nat) : Nat → List MarkedChunk → Nat
  | place, [] => place
  | place, marked :: rest =>
      if place < boundary then firstFrom boundary (marked.held.chunk.stop place) rest else place

/-- What is left of these chunks for a reader that skips those that begin before
`resume`.  Damaged data costs its chunk.  A damaged header costs all up to the
first chunk that begins behind the next block boundary. -/
def remnants : Nat → Nat → List MarkedChunk → List Remnant
  | _, _, [] => []
  | resume, place, marked :: rest =>
      let stop := marked.held.chunk.stop place
      if place < resume then remnants resume stop rest
      else
        match marked.damage with
        | .spared => marked.held.records.map (.record place) ++ remnants resume stop rest
        | .data => .lost place stop :: remnants resume stop rest
        | .header =>
            let next := firstFrom (boundaryPast place) stop rest
            .lost place next :: remnants next stop rest

/-- The region, if the event is one that is skipped. -/
def ReadEvent.region? : ReadEvent → Option SkippedRegion
  | .record _ _ => none
  | .skipped region _ => some region

/-- What a caller can tell of an event without its error. -/
def ReadEvent.remnant : ReadEvent → Remnant
  | .record chunkBegin bytes => .record chunkBegin bytes
  | .skipped region _ => .lost region.start region.stop

/-- A reader whose callback always goes on gets these records, each once and in
order, and by then it has reported these spans of bytes. -/
def ReadsAround (altered : Bytes) (options : ReaderOptions) (records : List Bytes)
    (spans : List (Nat × Nat)) : Prop :=
  ∀ callback, (∀ regions, callback regions = true) → ∃ opened,
    RecordReader.new ext altered { options with recovery := some callback } = .ok opened ∧
    ∀ count,
      (reports ext count opened).map ReadReport.result = readsOf records count ∧
      ∀ last, records.length < count → (reports ext count opened).getLast? = some last →
        last.reported.map (fun region => (region.start, region.stop)) = spans

/-- A reader opened on the bytes gets these remnants and nothing else: its reads
follow them whatever the callback answers, and when it always goes on they are the
records, each once and in order, with one region for each lost span. -/
structure Salvages (altered : Bytes) (options : ReaderOptions) (left : List Remnant) : Prop where
  reads : ∃ opened events, RecordReader.new ext altered options = .ok opened ∧
    opened.reported = [] ∧ events.map ReadEvent.remnant = left ∧ RecoversTotally ext opened events
  lenient : ReadsAround ext altered options (left.filterMap Remnant.record?)
    (left.filterMap Remnant.span?)

/-! ## One altered chunk -/

/-- Of the whole source nothing is altered but these bytes of one chunk's header
and data. -/
structure AlteredOnly (source altered : Bytes) (chunkBegin first count : Nat) : Prop where
  length : altered.length = source.length
  elsewhere : ∀ pos,
    (∀ index, first ≤ index → index < first + count → pos ≠ carrierOf chunkBegin index) →
    altered[pos]? = source[pos]?

/-- Of the chunks behind `earlier` these are skipped, which begin before the
boundary, and the rest begin at it or behind it. -/
structure CutAt (boundary : Nat) (earlier skipped rest : List HeldChunk) : Prop where
  before : ∀ front chunk back, skipped = front ++ chunk :: back →
    chunkPlace (earlier ++ front) < boundary
  behind : ∀ front chunk back, rest = front ++ chunk :: back →
    boundary ≤ chunkPlace (earlier ++ skipped ++ front)

/-- What one altered chunk of a file costs: with altered data its own records, and
with an altered header also those of the chunks that begin before the next block
boundary. -/
structure CostsOf (reading : ReaderOptions) (source altered : Bytes)
    (earlier : List HeldChunk) (chunk : HeldChunk) (later : List HeldChunk) : Prop where
  data : AlteredOnly source altered (chunkPlace earlier) chunkHeaderSize
      chunk.chunk.header.dataSize →
    chunk.chunk.header.isDataValid ext (carriedBytes altered (chunkPlace earlier) chunkHeaderSize
      chunk.chunk.header.dataSize) = false →
    ReadsAround ext altered reading (heldRecords (earlier ++ later))
      [(chunkPlace earlier, chunkPlace (earlier ++ [chunk]))]
  header : AlteredOnly source altered (chunkPlace earlier) 0 chunkHeaderSize →
    (ChunkHeader.fromBytes (carriedBytes altered (chunkPlace earlier) 0
      chunkHeaderSize)).isHeaderValid ext = false →
    ∃ skipped rest, later = skipped ++ rest ∧
      CutAt (boundaryPast (chunkPlace earlier)) (earlier ++ [chunk]) skipped rest ∧
      ReadsAround ext altered reading (heldRecords (earlier ++ rest))
        [(chunkPlace earlier, chunkPlace (earlier ++ [chunk] ++ skipped))]

end Riegeli
