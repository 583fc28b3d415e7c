/-
Module: Riegeli.Spec.BucketRuns
Purpose: What splitting buffers into buckets is for: runs of whole buffers,
  each compressed on its own, and the cursors a reader of them gets.
Trusted boundary: the codecs
Main exports: runSize, RunsOf, compressRun, bucketOfBuffers, cursorsOf
-/
import Riegeli.Core.TransposeChunk
import Riegeli.Core.TransposeHeader

namespace Riegeli

/-- The bytes that a run of buffers holds. -/
def runSize (run : List Bytes) : Nat := (run.map List.length).sum

/-- Consecutive runs of whole buffers that make up a group. -/
structure RunsOf (group : List Bytes) (runs : List (List Bytes)) : Prop where
  whole : runs.flatten = group
  nonempty : ∀ run ∈ runs, run ≠ []

/-- The bucket of a run. -/
def compressRun (ext : Externals) (compression : CompressionType) (opts : CompressOptions)
    (run : List Bytes) : Rust Bytes :=
  compressWithPrefix ext run.flatten compression opts

/-- The bucket of each buffer, the first run in bucket `index`. -/
def bucketOfBuffers : Nat → List (List Bytes) → List Nat
  | _, [] => []
  | index, run :: rest => List.replicate run.length index ++ bucketOfBuffers (index + 1) rest

/-- The cursor over a buffer, a stub for one that is not needed. -/
def cursorOf (buffer : Bytes) (needed : Bool) : BufferCursor :=
  if needed then BufferCursor.new buffer else BufferCursor.prunedCursor

/-- The cursors over all buffers. -/
def cursorsOf (buffers : List Bytes) (needed : List Bool) : List BufferCursor :=
  List.zipWith cursorOf buffers needed

/-! ## Sizes of runs -/

@[simp] theorem runSize_nil : runSize [] = 0 := rfl

@[simp] theorem runSize_cons (buffer : Bytes) (run : List Bytes) :
    runSize (buffer :: run) = buffer.length + runSize run := by
  simp [runSize]

@[simp] theorem runSize_append (first second : List Bytes) :
    runSize (first ++ second) = runSize first + runSize second := by
  simp [runSize]

@[simp] theorem runSize_reverse (run : List Bytes) : runSize run.reverse = runSize run := by
  simp [runSize, List.sum_reverse]

theorem runSize_eq (run : List Bytes) : runSize run = run.flatten.length :=
  List.length_flatten.symm

/-- A run of non-empty buffers is empty only without buffers. -/
theorem runSize_pos {run : List Bytes} (filled : ∀ buffer ∈ run, buffer ≠ []) (present : run ≠ []) :
    0 < runSize run := by
  cases run with
  | nil => exact absurd rfl present
  | cons buffer rest =>
      have positive := List.length_pos_of_ne_nil (filled buffer (List.mem_cons_self ..))
      rw [runSize_cons]
      omega

@[simp] theorem length_bucketOfBuffers (runs : List (List Bytes)) :
    ∀ index, (bucketOfBuffers index runs).length = runs.flatten.length := by
  induction runs with
  | nil => exact fun _ => rfl
  | cons run rest ih => exact fun index => by simp [bucketOfBuffers, ih]

theorem cursorsOf_all (buffers : List Bytes) :
    cursorsOf buffers (List.replicate buffers.length true) = buffers.map BufferCursor.new := by
  induction buffers with
  | nil => rfl
  | cons buffer rest ih =>
      rw [List.length_cons, List.replicate_succ, List.map_cons, ← ih]
      rfl

end Riegeli
