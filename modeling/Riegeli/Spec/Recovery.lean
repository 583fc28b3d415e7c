/-
Module: Riegeli.Spec.Recovery
Purpose: What a recovering reader meets on its way through any bytes: records and
  skipped regions in an order that no verdict of the callback has a part in, and
  what its calls make of them under a callback.
Trusted boundary: the hash and the codecs
Main exports: ReadEvent, RecoversTo, ReadReport, reports, expectedReports,
  Before, RecoversTotally
-/
import Riegeli.Spec.ChunkFinding
import Riegeli.Spec.HeldRecords
import Riegeli.Proofs.StaticReader

namespace Riegeli

open RecordReader

variable (ext : Externals)

/-- What a reader meets: a record, with the beginning of its chunk, or a region
that it skips, with the error that made it. -/
inductive ReadEvent where
  | record (chunkBegin : Nat) (bytes : Bytes)
  | skipped (region : SkippedRegion) (error : RiegeliError)
deriving Repr, DecidableEq

/-- Where the chunk of a record or a region begins. -/
def ReadEvent.begins : ReadEvent → Nat
  | .record chunkBegin _ => chunkBegin
  | .skipped region _ => region.start

/-- The record, if it is one. -/
def ReadEvent.record? : ReadEvent → Option Bytes
  | .record _ bytes => some bytes
  | .skipped _ _ => none

/-- The region of a failure at `place`. -/
def regionAt (source : Bytes) (last : Option SkippedRegion) (place : Nat) (trusted : Option Nat)
    (error : RiegeliError) : Rust SkippedRegion := do
  let start := regionStart last place
  let extent ← regionExtent ext (initial source ReaderOptions.new) start trusted
  .ok { start := start, stop := regionStop start place extent, message := error.toText }

/-- From this place, with this region reported last, the source has these events.
No callback has a part in it. -/
inductive RecoversTo (source : Bytes) (projection : Option FieldProjection) :
    Option SkippedRegion → Nat → List ReadEvent → Prop where
  | ended {last : Option SkippedRegion} {place : Nat} :
      findChunk ext source projection place = .absent → RecoversTo source projection last place []
  | passes {last : Option SkippedRegion} {place stop : Nat} {events : List ReadEvent} :
      findChunk ext source projection place = .passes stop →
      RecoversTo source projection last stop events → RecoversTo source projection last place events
  | holds {last : Option SkippedRegion} {place stop : Nat} {decoder : ActiveDecoder}
      {records : List Bytes} {events : List ReadEvent} :
      findChunk ext source projection place = .holds decoder stop → decoder.Yields records →
      RecoversTo source projection last stop events →
      RecoversTo source projection last place
        (records.map (.record (canonicalChunkAddress place)) ++ events)
  | fails {last : Option SkippedRegion} {place : Nat} {error : RiegeliError}
      {trusted : Option Nat} {region : SkippedRegion} {events : List ReadEvent} :
      findChunk ext source projection place = .fails (.error error) trusted →
      regionAt ext source last (resumeAfter place (.error error) trusted) trusted error =
        .ok region →
      RecoversTo source projection (some region) region.stop events →
      RecoversTo source projection last place (.skipped region error :: events)

/-! ## Reports -/

/-- What a caller sees of one read: its result, the beginning of the record's
chunk, and all the regions reported so far. -/
structure ReadReport where
  result : Rust (Option Bytes)
  chunkBegin : Option Nat
  reported : List SkippedRegion
deriving DecidableEq

/-- The report of a read that has ended so. -/
def reportOf : Rust (Option Bytes) × RecordReader → ReadReport
  | (.ok (some record), next) =>
      { result := .ok (some record), chunkBegin := some next.lastPos.chunkBegin
        reported := next.reported }
  | (result, next) => { result := result, chunkBegin := none, reported := next.reported }

/-- The reports of so many reads. -/
def reports : Nat → RecordReader → List ReadReport
  | 0, _ => []
  | count + 1, reader =>
      reportOf (readRecord ext reader) :: reports count (readRecord ext reader).2

/-- What one read makes of the events ahead, and the events that remain: a region
is reported once, and a verdict against it makes that read fail and no other. -/
def expectedReport (callback : List SkippedRegion → Bool) :
    List SkippedRegion → List ReadEvent → ReadReport × List ReadEvent
  | reported, [] => ({ result := .ok none, chunkBegin := none, reported := reported }, [])
  | reported, .record chunkBegin bytes :: rest =>
      ({ result := .ok (some bytes), chunkBegin := some chunkBegin, reported := reported }, rest)
  | reported, .skipped region error :: rest =>
      if callback (reported ++ [region]) then expectedReport callback (reported ++ [region]) rest
      else
        ({ result := .error (.error error), chunkBegin := none, reported := reported ++ [region] },
          rest)

/-- What so many reads make of the events ahead. -/
def expectedReports (callback : List SkippedRegion → Bool) :
    Nat → List SkippedRegion → List ReadEvent → List ReadReport
  | 0, _, _ => []
  | count + 1, reported, events =>
      let (report, rest) := expectedReport callback reported events
      report :: expectedReports callback count report.reported rest

/-! ## Order -/

/-- The order of two events of one reader: what is met after a region begins past
its end. -/
def Before : ReadEvent → ReadEvent → Prop
  | .skipped region _, later => region.stop ≤ later.begins
  | .record chunkBegin _, .record later _ => chunkBegin ≤ later
  | .record chunkBegin _, .skipped region _ => chunkBegin < region.start

/-- A reader that has just been opened meets these events and no others, in this
order, whatever the callback answers from then on.  Opening may have reported one
region, in front of them all. -/
structure RecoversTotally (opened : RecordReader) (events : List ReadEvent) : Prop where
  follows : ∀ callback count,
    reports ext count { opened with recovery := some callback } =
      expectedReports callback count opened.reported events
  opening : opened.reported.length ≤ 1
  nonempty : ∀ region, region ∈ opened.reported ∨ (∃ error, .skipped region error ∈ events) →
    region.start < region.stop
  ordered : events.Pairwise Before
  after : ∀ region ∈ opened.reported, ∀ event ∈ events, region.stop ≤ event.begins
  lenient : ∀ callback, (∀ regions, callback regions = true) → ∀ count,
    (reports ext count { opened with recovery := some callback }).map ReadReport.result =
      (((events.filterMap ReadEvent.record?).map some ++ List.replicate count none).take count).map
        Except.ok

end Riegeli
