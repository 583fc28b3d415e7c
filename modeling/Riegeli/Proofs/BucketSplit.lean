/-
Module: Riegeli.Proofs.BucketSplit
Purpose: The buckets of a transposed chunk are runs of whole buffers, and the
  decoder finds every buffer it needs in them.
Trusted boundary: the codecs
Main exports: planBuckets_runs, createCompressedBuckets_runs,
  computeBufferToBucket_runs, decompressIntoBuffers_runs,
  bucketSplit_roundTrip
-/
import Mathlib.Data.List.Forall2
import Riegeli.Spec.BucketRuns

namespace Riegeli

variable {ext : Externals}

/-! ## The plan -/

/-- The plan closes the buckets at buffer boundaries.  `held` is the run being
collected and `done` are the runs that follow it. -/
theorem planBuckets_runs (bucketSize : Nat) (todo : List Bytes) :
    ∀ (held : List Bytes) (done : List (List Bytes)),
      (∀ buffer ∈ todo, buffer ≠ []) → (∀ buffer ∈ held, buffer ≠ []) →
      (∀ run ∈ done, run ≠ []) →
      ∃ runs, RunsOf (todo.reverse ++ held ++ done.flatten) runs ∧
        planBuckets bucketSize todo (runSize todo) (runSize held) (done.map runSize) =
          .ok (runs.map runSize) := by
  induction todo with
  | nil =>
      intro held done _ filled apart
      by_cases present : held = []
      · subst present
        exact ⟨done, ⟨rfl, apart⟩, rfl⟩
      · refine ⟨held :: done, ⟨rfl, ?_⟩, ?_⟩
        · exact List.forall_mem_cons.mpr ⟨present, apart⟩
        · rw [planBuckets, if_pos (runSize_pos filled present), List.map_cons]
  | cons buffer rest ih =>
      intro held done filled heldFilled apart
      obtain ⟨bufferFilled, restFilled⟩ := List.forall_mem_cons.mp filled
      -- The run that takes the buffer: a fresh one when the bucket is full.
      obtain ⟨held', done', same, heldFilled', apart', opened, closed⟩ :
          ∃ (held' : List Bytes) (done' : List (List Bytes)), held' ++ done'.flatten = held ++ done.flatten ∧
            (∀ buffer ∈ held', buffer ≠ []) ∧ (∀ run ∈ done', run ≠ []) ∧
            runSize held' =
              (if 0 < runSize held ∧ bucketSize ≤ runSize held + buffer.length / 2 then 0
                else runSize held) ∧
            done'.map runSize =
              (if 0 < runSize held ∧ bucketSize ≤ runSize held + buffer.length / 2 then
                runSize held :: done.map runSize else done.map runSize) := by
        by_cases full : 0 < runSize held ∧ bucketSize ≤ runSize held + buffer.length / 2
        · have present : held ≠ [] := by
            rintro rfl
            exact absurd full.1 (Nat.lt_irrefl 0)
          rw [if_pos full, if_pos full]
          exact ⟨[], held :: done, rfl, List.forall_mem_nil _,
            List.forall_mem_cons.mpr ⟨present, apart⟩, rfl, rfl⟩
        · rw [if_neg full, if_neg full]
          exact ⟨held, done, rfl, heldFilled, apart, rfl, rfl⟩
      have taken : ∀ other ∈ buffer :: held', other ≠ [] :=
        List.forall_mem_cons.mpr ⟨bufferFilled, heldFilled'⟩
      rw [planBuckets]
      simp only [← opened, ← closed]
      rw [runSize_cons, subWord_eq (Nat.le_add_right _ _), Except.ok_bind, Nat.add_sub_cancel_left,
        show runSize held' + buffer.length = runSize (buffer :: held') by
          rw [runSize_cons, Nat.add_comm]]
      have whole : (buffer :: rest).reverse ++ held ++ done.flatten =
          rest.reverse ++ (buffer :: held') ++ done'.flatten := by
        rw [List.reverse_cons, List.append_assoc, List.append_assoc, List.append_assoc, ← same]
        rfl
      rw [whole]
      by_cases folds : runSize rest ≤ bucketSize / 2
      · -- What is left joins the run being collected.
        have present : rest.reverse ++ buffer :: held' ≠ [] := by simp
        have allFilled : ∀ other ∈ rest.reverse ++ buffer :: held', other ≠ [] := by
          intro other member
          rcases List.mem_append.mp member with before | after
          · exact restFilled other (List.mem_reverse.mp before)
          · exact taken other after
        have total : runSize (buffer :: held') + runSize rest =
            runSize (rest.reverse ++ buffer :: held') := by
          rw [runSize_append, runSize_reverse, Nat.add_comm]
        refine ⟨(rest.reverse ++ buffer :: held') :: done', ⟨rfl, ?_⟩, ?_⟩
        · exact List.forall_mem_cons.mpr ⟨present, apart'⟩
        · rw [if_pos folds, total, if_pos (runSize_pos allFilled present), List.map_cons]
      · rw [if_neg folds]
        exact ih (buffer :: held') done' restFilled taken apart'

/-! ## Filling the buckets -/

theorem nextBucket_open {bucketRemaining : Nat} (room : 0 < bucketRemaining) (sizes : List Nat) :
    nextBucket bucketRemaining sizes = .ok (bucketRemaining, sizes) := by
  unfold nextBucket
  exact if_neg (by omega)

/-- Within a run the bucket stays open until the last buffer. -/
theorem fillBuckets_run {compression : CompressionType} {opts : CompressOptions}
    (rest : List Bytes) (sizes : List Nat) (todo : List Bytes) :
    ∀ currentBucket : Bytes, todo ≠ [] → (∀ buffer ∈ todo, buffer ≠ []) →
      fillBuckets ext compression opts (todo ++ rest) sizes currentBucket (runSize todo) = (do
        let compressed ← compressWithPrefix ext (currentBucket ++ todo.flatten) compression opts
        let buckets ← fillBuckets ext compression opts rest sizes [] 0
        .ok (compressed :: buckets)) := by
  induction todo with
  | nil => exact fun _ present _ => absurd rfl present
  | cons buffer later ih =>
      intro currentBucket _ filled
      obtain ⟨bufferFilled, laterFilled⟩ := List.forall_mem_cons.mp filled
      have positive := List.length_pos_of_ne_nil bufferFilled
      rw [List.cons_append, runSize_cons, fillBuckets, nextBucket_open (by omega),
        Except.ok_bind]
      simp only
      rw [if_neg (by omega), Nat.add_sub_cancel_left]
      by_cases last : later = []
      · subst last
        rw [runSize_nil, if_pos rfl]
        simp
      · have more := runSize_pos laterFilled last
        rw [if_neg (by omega), ih (currentBucket ++ buffer) last laterFilled]
        simp

/-- The buckets are those of the runs. -/
theorem fillBuckets_runs {compression : CompressionType} {opts : CompressOptions}
    (runs : List (List Bytes)) (apart : ∀ run ∈ runs, run ≠ [])
    (filled : ∀ buffer ∈ runs.flatten, buffer ≠ []) :
    fillBuckets ext compression opts runs.flatten (runs.map runSize) [] 0 =
      runs.mapM (compressRun ext compression opts) := by
  induction runs with
  | nil => rfl
  | cons run rest ih =>
      obtain ⟨present, restApart⟩ := List.forall_mem_cons.mp apart
      have runFilled : ∀ buffer ∈ run, buffer ≠ [] := fun buffer member =>
        filled buffer (by
          rw [List.flatten_cons]
          exact List.mem_append_left _ member)
      have restFilled : ∀ buffer ∈ rest.flatten, buffer ≠ [] := fun buffer member =>
        filled buffer (by
          rw [List.flatten_cons]
          exact List.mem_append_right _ member)
      have positive := runSize_pos runFilled present
      -- Asking for the next bucket gives the size of the run.
      have asked : fillBuckets ext compression opts (run ++ rest.flatten)
          (runSize run :: rest.map runSize) [] 0 =
          fillBuckets ext compression opts (run ++ rest.flatten) (rest.map runSize) []
            (runSize run) := by
        cases run with
        | nil => exact absurd rfl present
        | cons buffer later =>
            rw [List.cons_append, fillBuckets, fillBuckets, nextBucket_open positive]
            rfl
      rw [List.flatten_cons, List.map_cons, asked,
        fillBuckets_run rest.flatten (rest.map runSize) run [] present runFilled,
        ih restApart restFilled, List.mapM_cons, List.nil_append]
      rfl

theorem mapM_append {Item Result : Type} (call : Item → Rust Result) (first second : List Item) :
    (first ++ second).mapM call = (do
      let results ← first.mapM call
      let later ← second.mapM call
      .ok (results ++ later)) :=
  List.mapM_append

/-- Every group is split into runs, the same for every codec, and the buckets are
those of the runs. -/
theorem createCompressedBuckets_runs (bucketSize : Nat) (groups : List (List Bytes))
    (filled : ∀ group ∈ groups, ∀ buffer ∈ group, buffer ≠ []) :
    ∃ runs : List (List (List Bytes)), List.Forall₂ RunsOf groups runs ∧
      ∀ (compression : CompressionType) (opts : CompressOptions),
        createCompressedBuckets ext compression opts bucketSize groups =
          runs.flatten.mapM (compressRun ext compression opts) := by
  induction groups with
  | nil => exact ⟨[], .nil, fun _ _ => rfl⟩
  | cons group groups ih =>
      obtain ⟨groupFilled, groupsFilled⟩ := List.forall_mem_cons.mp filled
      obtain ⟨later, laterRuns, laterMade⟩ := ih groupsFilled
      obtain ⟨runs, split, planned⟩ := planBuckets_runs bucketSize group.reverse [] []
        (fun buffer member => groupFilled buffer (List.mem_reverse.mp member))
        (List.forall_mem_nil _) (List.forall_mem_nil _)
      simp only [List.reverse_reverse, List.append_nil, List.flatten_nil] at split
      rw [runSize_reverse] at planned
      refine ⟨runs :: later, .cons split laterRuns, fun compression opts => ?_⟩
      have made : createCompressedBuckets ext compression opts bucketSize (group :: groups) = (do
          let buckets ← runs.mapM (compressRun ext compression opts)
          let rest ← later.flatten.mapM (compressRun ext compression opts)
          .ok (buckets ++ rest)) := by
        rw [createCompressedBuckets, ← laterMade, ← fillBuckets_runs runs split.nonempty (by
          rw [split.whole]
          exact groupFilled), split.whole]
        change (planBuckets bucketSize group.reverse (runSize group) 0 [] >>= _) = _
        rw [show planBuckets bucketSize group.reverse (runSize group) 0 [] =
          .ok (runs.map runSize) from planned]
        rfl
      rw [made, List.flatten_cons, mapM_append]

/-! ## The bucket of each buffer -/

/-- The bucket is what compressing the run gave. -/
def BucketOf (ext : Externals) (compression : CompressionType) (opts : CompressOptions)
    (run : List Bytes) (bucket : Bytes) : Prop :=
  compressRun ext compression opts run = .ok bucket

theorem bucketsOf_mapM {compression : CompressionType} {opts : CompressOptions}
    {runs : List (List Bytes)} :
    ∀ {buckets : List Bytes}, runs.mapM (compressRun ext compression opts) = .ok buckets →
      List.Forall₂ (BucketOf ext compression opts) runs buckets := by
  induction runs with
  | nil =>
      intro buckets made
      cases made
      exact .nil
  | cons run rest ih =>
      intro buckets made
      rw [List.mapM_cons] at made
      obtain ⟨bucket, compressed, made⟩ := Except.bind_eq_ok.mp made
      obtain ⟨later, laterMade, made⟩ := Except.bind_eq_ok.mp made
      cases made
      exact .cons compressed (ih laterMade)

/-- The claimed size of a bucket is that of the data in it. -/
theorem bucketDecompressedSize_compressWithPrefix {data bucket : Bytes}
    {compression : CompressionType} {opts : CompressOptions} (fits : data.length ≤ u64Max)
    (ran : compressWithPrefix ext data compression opts = .ok bucket) :
    bucketDecompressedSize bucket compression = .ok data.length := by
  obtain ⟨compressed, compressedRan, assembled⟩ := Except.bind_eq_ok.mp ran
  by_cases plain : compression = .none
  · subst plain
    cases compressedRan
    cases assembled
    rfl
  · rw [if_neg plain] at assembled
    cases assembled
    rw [bucketDecompressedSize, if_neg plain, decodeU64_encodeU64 fits]

theorem bucketSizes_runs {compression : CompressionType} {opts : CompressOptions}
    {runs : List (List Bytes)} {buckets : List Bytes}
    (made : List.Forall₂ (BucketOf ext compression opts) runs buckets)
    (fits : runSize runs.flatten ≤ u64Max) :
    buckets.mapM (fun compressed => bucketDecompressedSize compressed compression) =
      .ok (runs.map runSize) := by
  induction made with
  | nil => rfl
  | @cons run bucket rest later compressed _ ih =>
      rw [List.flatten_cons, runSize_append] at fits
      rw [List.mapM_cons, bucketDecompressedSize_compressWithPrefix (by
        rw [← runSize_eq]
        omega) compressed, ← runSize_eq]
      rw [Except.ok_bind, ih (by omega)]
      rfl

theorem skipExhausted_open {sizes : List Nat} {fuel index remaining : Nat}
    (stops : 0 < remaining ∨ sizes.length ≤ index + 1) :
    skipExhausted sizes (fuel + 1) index remaining = .ok (index, remaining) := by
  rw [skipExhausted, if_neg (by omega)]

theorem skipExhausted_next {sizes : List Nat} {fuel index size : Nat}
    (next : sizes[index + 1]? = some size) (room : 0 < size) :
    skipExhausted sizes (fuel + 1 + 1) index 0 = .ok (index + 1, size) := by
  have inside := (List.getElem?_eq_some_iff.mp next).1
  rw [skipExhausted, if_pos ⟨rfl, inside⟩, indexAt_eq_ok.mpr next, Except.ok_bind,
    skipExhausted_open (.inl room)]

/-- The buffers of a run go to its bucket, which the last one exhausts. -/
theorem assignBuffers_run {sizes : List Nat} (rest : List Bytes) (bucket : Nat)
    (todo : List Bytes) :
    ∀ index : Nat, todo ≠ [] → (∀ buffer ∈ todo, buffer ≠ []) →
      assignBuffers sizes ((todo ++ rest).map List.length) index bucket (runSize todo) = (do
        let (nextIndex, nextRemaining) ← skipExhausted sizes (sizes.length + 1) bucket 0
        let (assigned, last) ←
          assignBuffers sizes (rest.map List.length) (index + todo.length) nextIndex nextRemaining
        .ok (List.replicate todo.length bucket ++ assigned, last)) := by
  induction todo with
  | nil => exact fun _ present _ => absurd rfl present
  | cons buffer later ih =>
      intro index _ filled
      obtain ⟨_, laterFilled⟩ := List.forall_mem_cons.mp filled
      rw [List.cons_append, List.map_cons, runSize_cons, assignBuffers, if_neg (by omega),
        subWord_eq (Nat.le_add_right _ _), Except.ok_bind, Nat.add_sub_cancel_left]
      by_cases last : later = []
      · subst last
        rfl
      · have more := runSize_pos laterFilled last
        rw [skipExhausted_open (.inl more), Except.ok_bind]
        simp only
        rw [ih (index + 1) last laterFilled]
        simp only [bind_assoc, Except.ok_bind, List.length_cons]
        rw [show index + 1 + later.length = index + (later.length + 1) by omega]
        rfl

/-- The buffers of consecutive runs go to consecutive buckets, the last of
which is exhausted. -/
theorem assignBuffers_runs {sizes : List Nat} (rest : List (List Bytes)) :
    ∀ (run : List Bytes) (index bucket : Nat), run ≠ [] → (∀ buffer ∈ run, buffer ≠ []) →
      (∀ run ∈ rest, run ≠ []) → (∀ buffer ∈ rest.flatten, buffer ≠ []) →
      sizes.drop (bucket + 1) = rest.map runSize →
      assignBuffers sizes ((run ++ rest.flatten).map List.length) index bucket (runSize run) =
        .ok (bucketOfBuffers bucket (run :: rest), bucket + rest.length, 0) := by
  induction rest with
  | nil =>
      intro run index bucket present filled _ _ placed
      have ended := List.drop_eq_nil_iff.mp placed
      rw [List.flatten_nil, assignBuffers_run [] bucket run index present filled,
        skipExhausted_open (.inr ended), Except.ok_bind]
      rfl
  | cons next rest ih =>
      intro run index bucket present filled apart restFilled placed
      obtain ⟨nextPresent, restApart⟩ := List.forall_mem_cons.mp apart
      rw [List.flatten_cons] at restFilled ⊢
      obtain ⟨nextFilled, laterFilled⟩ := List.forall_mem_append.mp restFilled
      have found : sizes[bucket + 1]? = some (runSize next) := by
        rw [← Nat.add_zero (bucket + 1), ← List.getElem?_drop, placed]
        rfl
      have later : sizes.drop (bucket + 1 + 1) = rest.map runSize := by
        rw [← List.drop_drop, placed]
        rfl
      have inside := (List.getElem?_eq_some_iff.mp found).1
      obtain ⟨fuel, counted⟩ : ∃ fuel, sizes.length = fuel + 1 := ⟨sizes.length - 1, by omega⟩
      rw [assignBuffers_run _ bucket run index present filled, counted,
        skipExhausted_next found (runSize_pos nextFilled nextPresent), Except.ok_bind]
      simp only
      rw [ih next (index + run.length) (bucket + 1) nextPresent nextFilled restApart laterFilled
        later, Except.ok_bind]
      simp only [List.length_cons]
      rw [show bucket + 1 + rest.length = bucket + (rest.length + 1) by omega]
      rfl

/-- The mapping sends every buffer to the bucket of its run. -/
theorem computeBufferToBucket_runs {compression : CompressionType} {opts : CompressOptions}
    {runs : List (List Bytes)} {buckets : List Bytes}
    (made : List.Forall₂ (BucketOf ext compression opts) runs buckets)
    (apart : ∀ run ∈ runs, run ≠ []) (filled : ∀ buffer ∈ runs.flatten, buffer ≠ [])
    (fits : runSize runs.flatten ≤ u64Max) :
    computeBufferToBucket buckets (runs.flatten.map List.length) compression =
      .ok (bucketOfBuffers 0 runs) := by
  have sizes := bucketSizes_runs made fits
  have counted := made.length_eq
  cases runs with
  | nil =>
      cases made
      rfl
  | cons run rest =>
      obtain ⟨present, restApart⟩ := List.forall_mem_cons.mp apart
      rw [List.flatten_cons] at filled ⊢
      obtain ⟨runFilled, restFilled⟩ := List.forall_mem_append.mp filled
      have occupied : buckets.length ≠ 0 := by
        rw [← counted]
        exact Nat.succ_ne_zero _
      have assigned := @assignBuffers_runs ((run :: rest).map runSize) rest run 0 0 present
        runFilled restApart restFilled rfl
      rw [computeBufferToBucket, if_neg occupied, sizes, Except.ok_bind,
        show indexAt ((run :: rest).map runSize) 0 = .ok (runSize run) from rfl, Except.ok_bind,
        assigned, Except.ok_bind]
      simp only
      rw [← counted, List.length_cons, if_neg (by omega), if_neg (by omega)]

/-! ## Opening the buckets -/

/-- A bucket is marked when one of its buffers is needed, and stays marked. -/
theorem markBuckets_marks (needed : List Bool) :
    ∀ (assigned : List Nat) (marks : List Bool), (∀ bucket ∈ assigned, bucket < marks.length) →
      ∃ marked, markBuckets needed assigned marks = .ok marked ∧
        marked.length = marks.length ∧
        (∀ bucket : Nat, marks[bucket]? = some true → marked[bucket]? = some true) ∧
        ∀ index bucket : Nat, needed[index]? = some true → assigned[index]? = some bucket →
          marked[bucket]? = some true := by
  induction needed with
  | nil =>
      intro assigned marks _
      exact ⟨marks, rfl, rfl, fun _ same => same, fun _ _ wanted => nomatch wanted⟩
  | cons flag needed ih =>
      intro assigned marks inside
      cases assigned with
      | nil => exact ⟨marks, rfl, rfl, fun _ same => same, fun _ _ _ found => nomatch found⟩
      | cons first assigned =>
          obtain ⟨firstInside, restInside⟩ := List.forall_mem_cons.mp inside
          cases flag with
          | false =>
              obtain ⟨marked, ran, length, kept, wanted⟩ := ih assigned marks restInside
              refine ⟨marked, ran, length, kept, ?_⟩
              intro index bucket flagged found
              cases index with
              | zero => cases flagged
              | succ index => exact wanted index bucket flagged found
          | true =>
              obtain ⟨marked, ran, length, kept, wanted⟩ := ih assigned (marks.set first true)
                (by simpa using restInside)
              have set : marked[first]? = some true := kept first (List.getElem?_set_self firstInside)
              refine ⟨marked, ?_, by rw [length, List.length_set], ?_, ?_⟩
              · rw [markBuckets, if_pos rfl, setAt_eq firstInside, Except.ok_bind, ran]
              · intro bucket same
                by_cases equal : first = bucket
                · rw [← equal]
                  exact set
                · apply kept
                  rw [List.getElem?_set_ne equal, same]
              · intro index bucket flagged found
                cases index with
                | zero =>
                    cases found
                    exact set
                | succ index => exact wanted index bucket flagged found

/-- The marked buckets are opened, to the bytes of their runs. -/
theorem decompressBuckets_runs (lawful : ext.Lawful) {compression : CompressionType}
    {opts : CompressOptions} {marks : List Bool} {runs : List (List Bytes)}
    {buckets : List Bytes} (made : List.Forall₂ (BucketOf ext compression opts) runs buckets) :
    ∀ index : Nat, runSize runs.flatten ≤ u64Max → index + runs.length ≤ marks.length →
      ∃ opened, decompressBuckets ext compression marks buckets index = .ok opened ∧
        ∀ (bucket : Nat) (run : List Bytes), marks[index + bucket]? = some true →
          runs[bucket]? = some run → opened[bucket]? = some (some run.flatten) := by
  induction made with
  | nil => exact fun _ _ _ => ⟨[], rfl, fun _ _ _ found => nomatch found⟩
  | @cons run bucket rest later compressed _ ih =>
      intro index fits inside
      rw [List.flatten_cons, runSize_append] at fits
      rw [List.length_cons] at inside
      have small : run.flatten.length ≤ u64Max := by
        rw [← runSize_eq]
        omega
      obtain ⟨opened, ran, contents⟩ := ih (index + 1) (by omega) (by omega)
      have flag := @indexAt_eq Bool marks index (by omega)
      have size := bucketDecompressedSize_compressWithPrefix small compressed
      have restored := decompressWithPrefix_compressWithPrefix lawful small compressed
      obtain ⟨entry, entryRan, entryIs⟩ : ∃ entry,
          decompressBucket ext compression index marks[index] bucket = .ok entry ∧
            (marks[index] = true → entry = some run.flatten) := by
        by_cases wanted : marks[index] = true
        · refine ⟨some run.flatten, ?_, fun _ => rfl⟩
          rw [decompressBucket, if_pos wanted, restored, Except.ok_bind, size, Except.ok_bind]
          exact if_neg (fun differ => differ rfl)
        · refine ⟨none, ?_, fun flagged => absurd flagged wanted⟩
          rw [decompressBucket, if_neg wanted]
      refine ⟨entry :: opened, ?_, ?_⟩
      · rw [decompressBuckets, flag, Except.ok_bind, entryRan, Except.ok_bind, ran, Except.ok_bind]
      · intro place found marked same
        cases place with
        | zero =>
            cases same
            rw [Nat.add_zero, List.getElem?_eq_getElem (by omega)] at marked
            rw [entryIs (Option.some.inj marked)]
            rfl
        | succ place =>
            exact contents place found (by rw [← marked, Nat.add_assoc, Nat.add_comm 1]) same

/-! ## Taking the buffers out -/

variable {assigned : List Nat} {needed : List Bool} {opened : List (Option Bytes)}

theorem extractBuffer_cursor {index bufSize bucket offset : Nat} {flag : Bool} {buffer rest : Bytes}
    {whole : Bytes} (found : flag = true → opened[bucket]? = some (some whole))
    (inside : offset ≤ whole.length) (placed : whole.drop offset = buffer ++ rest)
    (sized : bufSize = buffer.length) :
    extractBuffer opened index bufSize bucket offset flag = .ok (cursorOf buffer flag) := by
  cases flag with
  | false => rfl
  | true =>
      have total := congrArg List.length placed
      rw [List.length_drop, List.length_append] at total
      rw [extractBuffer, if_pos rfl, indexAt_eq_ok.mpr (found rfl), Except.ok_bind]
      simp only
      rw [if_neg (by omega), sliceRange_eq (by omega) (by omega), placed, Except.ok_bind, sized,
        Nat.add_sub_cancel_left, List.take_left]
      rfl

/-- The buffers of a run come out of its bucket one after the other. -/
theorem extractBuffers_run {whole : Bytes} {bucket : Nat} (rest : List Bytes)
    (found : ∀ index : Nat, needed[index]? = some true → assigned[index]? = some bucket →
      opened[bucket]? = some (some whole)) (todo : List Bytes) :
    ∀ (flags : List Bool) (index offset : Nat) (offsets : List Nat)
      (laterAssigned : List Nat) (laterFlags : List Bool),
      flags.length = todo.length → offset ≤ whole.length →
      whole.drop offset = todo.flatten →
      assigned.drop index = List.replicate todo.length bucket ++ laterAssigned →
      needed.drop index = flags ++ laterFlags → offsets[bucket]? = some offset →
      extractBuffers assigned needed opened ((todo ++ rest).map List.length) index offsets = (do
        let cursors ←
          extractBuffers assigned needed opened (rest.map List.length) (index + todo.length)
            (offsets.set bucket (offset + runSize todo))
        .ok (cursorsOf todo flags ++ cursors)) := by
  induction todo with
  | nil =>
      intro flags index offset offsets laterAssigned laterFlags counted _ _ _ _ reached
      obtain rfl : flags = [] := List.length_eq_zero_iff.mp counted
      obtain ⟨inside, same⟩ := List.getElem?_eq_some_iff.mp reached
      have unchanged : offsets.set bucket (offset + runSize []) = offsets := by
        rw [runSize_nil, Nat.add_zero, ← same, List.set_getElem_self]
      rw [unchanged, List.nil_append, List.length_nil, Nat.add_zero]
      cases extractBuffers assigned needed opened (rest.map List.length) index offsets <;> rfl
  | cons buffer later ih =>
      intro flags index offset offsets laterAssigned laterFlags counted within placed buckets
        flagged reached
      obtain ⟨flag, flags, rfl⟩ := List.exists_cons_of_length_eq_add_one counted
      have bucketHere : assigned[index]? = some bucket := by
        rw [← Nat.add_zero index, ← List.getElem?_drop, buckets]
        rfl
      have flagHere : needed[index]? = some flag := by
        rw [← Nat.add_zero index, ← List.getElem?_drop, flagged]
        rfl
      have defaulted : needed.getD index true = flag := by
        rw [List.getD_eq_getElem?_getD, flagHere]
        rfl
      obtain ⟨inside, _⟩ := List.getElem?_eq_some_iff.mp reached
      have cursor := @extractBuffer_cursor opened index buffer.length bucket offset flag buffer
        later.flatten whole (fun wanted => found index (by rw [flagHere, wanted]) bucketHere) within
        placed rfl
      have total := congrArg List.length placed
      rw [List.length_drop, List.flatten_cons, List.length_append] at total
      have next := ih flags (index + 1) (offset + buffer.length)
        (offsets.set bucket (offset + buffer.length)) laterAssigned laterFlags
        (Nat.succ.inj counted) (by omega)
        (by rw [← List.drop_drop, placed, List.flatten_cons, List.drop_left])
        (by rw [← List.drop_drop, buckets]; rfl) (by rw [← List.drop_drop, flagged]; rfl)
        (List.getElem?_set_self inside)
      rw [List.set_set] at next
      rw [List.cons_append, List.map_cons, extractBuffers, indexAt_eq_ok.mpr bucketHere,
        Except.ok_bind, indexAt_eq_ok.mpr reached, Except.ok_bind, defaulted, cursor,
        Except.ok_bind, setAt_eq inside, Except.ok_bind, next, bind_assoc, runSize_cons,
        List.length_cons]
      simp only [Except.ok_bind]
      rw [show index + 1 + later.length = index + (later.length + 1) by omega,
        show offset + buffer.length + runSize later = offset + (buffer.length + runSize later) by
          omega]
      rfl

/-- Every buffer comes out of the bucket of its run. -/
theorem extractBuffers_runs (runs : List (List Bytes)) :
    ∀ (flags : List Bool) (index bucket : Nat) (offsets : List Nat),
      flags.length = runs.flatten.length →
      (∀ (place : Nat) (run : List Bytes), runs[place]? = some run →
        ∀ index : Nat, needed[index]? = some true → assigned[index]? = some (bucket + place) →
          opened[bucket + place]? = some (some run.flatten)) →
      assigned.drop index = bucketOfBuffers bucket runs → needed.drop index = flags →
      (∀ place : Nat, place < runs.length → offsets[bucket + place]? = some 0) →
      extractBuffers assigned needed opened (runs.flatten.map List.length) index offsets =
        .ok (cursorsOf runs.flatten flags) := by
  induction runs with
  | nil =>
      intro flags index bucket offsets counted _ _ _ _
      obtain rfl : flags = [] := List.length_eq_zero_iff.mp counted
      rfl
  | cons run rest ih =>
      intro flags index bucket offsets counted contents buckets flagged fresh
      rw [List.flatten_cons, List.length_append] at counted
      obtain ⟨front, back, rfl, frontCounted⟩ : ∃ front back, flags = front ++ back ∧
          front.length = run.length :=
        ⟨flags.take run.length, flags.drop run.length, (List.take_append_drop _ _).symm, by
          rw [List.length_take]
          omega⟩
      rw [List.length_append] at counted
      have here := @extractBuffers_run assigned needed opened run.flatten bucket rest.flatten
        (contents 0 run rfl) run front index 0 offsets (bucketOfBuffers (bucket + 1) rest) back
        frontCounted (Nat.zero_le _) rfl buckets flagged (fresh 0 (Nat.succ_pos _))
      have later := ih back (index + run.length) (bucket + 1)
        (offsets.set bucket (0 + runSize run)) (by omega)
        (fun place other found index wanted same => by
          rw [show bucket + 1 + place = bucket + (place + 1) by omega] at same ⊢
          exact contents (place + 1) other found index wanted same)
        (by rw [← List.drop_drop, buckets, bucketOfBuffers, List.drop_left' (by simp)])
        (by rw [← List.drop_drop, flagged, List.drop_left' frontCounted])
        (fun place inside => by
          rw [List.getElem?_set_ne (by omega), show bucket + 1 + place = bucket + (place + 1) by omega]
          exact fresh (place + 1) (Nat.succ_lt_succ inside))
      rw [List.flatten_cons, here, later, Except.ok_bind, cursorsOf, cursorsOf, cursorsOf,
        List.zipWith_append frontCounted.symm]

theorem bucketOfBuffers_lt (runs : List (List Bytes)) :
    ∀ (index : Nat), ∀ bucket ∈ bucketOfBuffers index runs, bucket < index + runs.length := by
  induction runs with
  | nil => exact fun _ _ member => nomatch member
  | cons run rest ih =>
      intro index bucket member
      rw [List.length_cons]
      rcases List.mem_append.mp member with here | later
      · have same := List.eq_of_mem_replicate here
        omega
      · have bound := ih (index + 1) bucket later
        omega

/-- The buffers that are needed come back exactly, whatever the others are. -/
theorem decompressIntoBuffers_runs (lawful : ext.Lawful) {compression : CompressionType}
    {opts : CompressOptions} {runs : List (List Bytes)} {buckets : List Bytes}
    (made : List.Forall₂ (BucketOf ext compression opts) runs buckets)
    (apart : ∀ run ∈ runs, run ≠ []) (filled : ∀ buffer ∈ runs.flatten, buffer ≠ [])
    (fits : runSize runs.flatten ≤ u64Max) {needed : List Bool}
    (counted : needed.length = runs.flatten.length) :
    decompressIntoBuffers ext buckets (runs.flatten.map List.length) compression needed =
      .ok (cursorsOf runs.flatten needed) := by
  rw [decompressIntoBuffers, computeBufferToBucket_runs made apart filled fits, Except.ok_bind]
  by_cases empty : runs.flatten = []
  · rw [empty] at counted ⊢
    obtain rfl : needed = [] := List.length_eq_zero_iff.mp counted
    rfl
  have present : (runs.flatten.map List.length).length ≠ 0 := by
    rw [List.length_map]
    exact fun zero => empty (List.length_eq_zero_iff.mp zero)
  have same := made.length_eq
  obtain ⟨marked, marking, length, _, wanted⟩ :=
    markBuckets_marks needed (bucketOfBuffers 0 runs) (List.replicate buckets.length false)
      (fun bucket member => by
        have bound := bucketOfBuffers_lt runs 0 bucket member
        rw [List.length_replicate]
        omega)
  rw [List.length_replicate] at length
  obtain ⟨opened, opening, contents⟩ := @decompressBuckets_runs ext lawful compression opts marked
    runs buckets made 0 fits (by omega)
  rw [if_neg present, marking, Except.ok_bind, opening, Except.ok_bind]
  apply extractBuffers_runs runs needed 0 0 _ counted _ rfl rfl _
  · intro place run found index flagged placed
    rw [Nat.zero_add] at placed ⊢
    apply contents place run _ found
    rw [Nat.zero_add]
    exact wanted index place flagged placed
  · intro place inside
    rw [Nat.zero_add, List.getElem?_replicate, if_pos (by omega)]

/-! ## The round trip -/

theorem mapM_error {Item Result : Type} {call : Item → Rust Result} {fault : Fault}
    {items : List Item} (failed : items.mapM call = .error fault) :
    ∃ item ∈ items, call item = .error fault := by
  induction items with
  | nil => cases failed
  | cons item rest ih =>
      rw [List.mapM_cons] at failed
      cases first : call item with
      | error other =>
          rw [first] at failed
          cases failed
          exact ⟨item, List.mem_cons_self .., first⟩
      | ok value =>
          rw [first, Except.ok_bind] at failed
          cases later : rest.mapM call with
          | ok values =>
              rw [later] at failed
              cases failed
          | error other =>
              rw [later] at failed
              cases failed
              obtain ⟨found, member, same⟩ := ih later
              exact ⟨found, List.mem_cons_of_mem _ member, same⟩

/-- Lists that are not empty are no more than what they hold. -/
theorem length_le_flatten {Item : Type} {lists : List (List Item)}
    (filled : ∀ list ∈ lists, list ≠ []) : lists.length ≤ lists.flatten.length := by
  induction lists with
  | nil => exact Nat.le_refl _
  | cons list rest ih =>
      obtain ⟨here, later⟩ := List.forall_mem_cons.mp filled
      have positive := List.length_pos_of_ne_nil here
      have others := ih later
      rw [List.flatten_cons, List.length_append, List.length_cons]
      omega

/-- The runs of all groups, one after the other, are made of all buffers. -/
theorem flatten_runs {groups : List (List Bytes)} {runs : List (List (List Bytes))}
    (split : List.Forall₂ RunsOf groups runs) :
    runs.flatten.flatten = groups.flatten ∧ ∀ run ∈ runs.flatten, run ≠ [] := by
  induction split with
  | nil => exact ⟨rfl, List.forall_mem_nil _⟩
  | cons first _ ih =>
      obtain ⟨whole, apart⟩ := ih
      constructor
      · rw [List.flatten_cons, List.flatten_append, first.whole, whole, List.flatten_cons]
      · rw [List.flatten_cons]
        exact List.forall_mem_append.mpr ⟨first.nonempty, apart⟩

/-- The buckets that were created are no more than the buffers, and give back
every buffer that is needed. -/
theorem createCompressedBuckets_opens (lawful : ext.Lawful) {compression : CompressionType}
    {opts : CompressOptions} {bucketSize : Nat} {groups : List (List Bytes)} {buckets : List Bytes}
    (filled : ∀ buffer ∈ groups.flatten, buffer ≠ [])
    (fits : groups.flatten.flatten.length ≤ u64Max)
    (ran : createCompressedBuckets ext compression opts bucketSize groups = .ok buckets) :
    buckets.length ≤ groups.flatten.length ∧
      ∀ {needed : List Bool}, needed.length = groups.flatten.length →
        decompressIntoBuffers ext buckets (groups.flatten.map List.length) compression needed =
          .ok (cursorsOf groups.flatten needed) := by
  obtain ⟨runs, split, created⟩ := @createCompressedBuckets_runs ext bucketSize groups
    fun group listed buffer member => filled buffer (List.mem_flatten.mpr ⟨group, listed, member⟩)
  obtain ⟨whole, apart⟩ := flatten_runs split
  rw [created] at ran
  have made := bucketsOf_mapM ran
  rw [← whole] at filled fits ⊢
  rw [← runSize_eq] at fits
  refine ⟨?_, fun counted => decompressIntoBuffers_runs lawful made apart filled fits counted⟩
  rw [← made.length_eq]
  exact length_le_flatten apart

/-- Splitting non-empty buffers into buckets fails only where the codec does,
each bucket holds a run of whole buffers of one group, and the decoder gets
every buffer it needs back from the buckets and the sizes. -/
theorem bucketSplit_roundTrip (lawful : ext.Lawful) (compression : CompressionType)
    (opts : CompressOptions) (bucketSize : Nat) (groups : List (List Bytes))
    (filled : ∀ group ∈ groups, ∀ buffer ∈ group, buffer ≠ [])
    (fits : groups.flatten.flatten.length ≤ u64Max) :
    ∃ runs : List (List (List Bytes)), List.Forall₂ RunsOf groups runs ∧
      (∀ fault, createCompressedBuckets ext compression opts bucketSize groups = .error fault →
        ∃ run ∈ runs.flatten, compressRun ext compression opts run = .error fault) ∧
      ∀ buckets, createCompressedBuckets ext compression opts bucketSize groups = .ok buckets →
        List.Forall₂ (BucketOf ext compression opts) runs.flatten buckets ∧
        computeBufferToBucket buckets (groups.flatten.map List.length) compression =
          .ok (bucketOfBuffers 0 runs.flatten) ∧
        decompressIntoBuffers ext buckets (groups.flatten.map List.length) compression
            (List.replicate groups.flatten.length true) =
          .ok (groups.flatten.map BufferCursor.new) ∧
        ∀ needed : List Bool, needed.length = groups.flatten.length →
          decompressIntoBuffers ext buckets (groups.flatten.map List.length) compression needed =
            .ok (cursorsOf groups.flatten needed) := by
  obtain ⟨runs, split, created⟩ := @createCompressedBuckets_runs ext bucketSize groups filled
  obtain ⟨whole, apart⟩ := flatten_runs split
  have total : runSize runs.flatten.flatten ≤ u64Max := by
    rw [whole, runSize_eq]
    exact fits
  have allFilled : ∀ buffer ∈ runs.flatten.flatten, buffer ≠ [] := by
    intro buffer member
    rw [whole] at member
    obtain ⟨group, groupMember, member⟩ := List.mem_flatten.mp member
    exact filled group groupMember buffer member
  refine ⟨runs, split, ?_, ?_⟩
  · intro fault failed
    rw [created] at failed
    exact mapM_error failed
  · intro buckets ran
    rw [created] at ran
    have made := bucketsOf_mapM ran
    have mapped := computeBufferToBucket_runs made apart allFilled total
    have back := fun needed =>
      @decompressIntoBuffers_runs ext lawful compression opts _ buckets made apart allFilled total
        needed
    rw [whole] at mapped back
    refine ⟨made, mapped, ?_, back⟩
    rw [back _ (List.length_replicate ..), cursorsOf_all]

/-- Two groups, the first one split. -/
theorem bucketSplit_roundTrip_stored :
    ∃ runs : List (List (List Bytes)), List.Forall₂ RunsOf [[[1], [2, 3]], [[4]]] runs ∧
      (∀ fault, createCompressedBuckets storingExternals .none .default 2 [[[1], [2, 3]], [[4]]] =
          .error fault →
        ∃ run ∈ runs.flatten, compressRun storingExternals .none .default run = .error fault) ∧
      ∀ buckets, createCompressedBuckets storingExternals .none .default 2 [[[1], [2, 3]], [[4]]] =
          .ok buckets →
        List.Forall₂ (BucketOf storingExternals .none .default) runs.flatten buckets ∧
        computeBufferToBucket buckets [1, 2, 1] .none = .ok (bucketOfBuffers 0 runs.flatten) ∧
        decompressIntoBuffers storingExternals buckets [1, 2, 1] .none [true, true, true] =
          .ok ([[1], [2, 3], [4]].map BufferCursor.new) ∧
        ∀ needed : List Bool, needed.length = 3 →
          decompressIntoBuffers storingExternals buckets [1, 2, 1] .none needed =
            .ok (cursorsOf [[1], [2, 3], [4]] needed) :=
  bucketSplit_roundTrip storingExternals_lawful .none .default 2 [[[1], [2, 3]], [[4]]]
    (by decide) (by decide)

end Riegeli
