/-
Module: Riegeli.Proofs.MachineRun
Purpose: The decoder's state machine visits the nodes that the offsets in its
  transitions lead through, and without implicit loops it soon stops.
Trusted boundary: none
Main exports: visits_of_walk, NodeWalk.length_le
-/
import Riegeli.Proofs.TransitionHops
import Riegeli.Spec.MachineVisits
import Mathlib.Data.List.Nodup
import Mathlib.Data.List.Perm.Subperm

namespace Riegeli

variable {nodes : List StateMachineNode}

/-- The bytes that a cursor has not read. -/
def BufferCursor.unread (cursor : BufferCursor) : Bytes := cursor.data.drop cursor.pos

theorem NodeWalk.start {current : Nat} {offsets path : List Nat}
    (walk : NodeWalk nodes current offsets path) : ∃ node, nodes[current]? = some node := by
  cases walk with
  | stop found _ => exact ⟨_, found⟩
  | implicit found _ _ => exact ⟨_, found⟩
  | hop found _ _ => exact ⟨_, found⟩

/-- The offsets left with an iteration count and the unread transitions. -/
def offsetsLeft (node : StateMachineNode) (numIters : Nat) (transitions : BufferCursor) :
    List Nat :=
  List.replicate (numIters - implicitCount node) 0 ++ expandBytes transitions.unread

/-- The node that a byte leads to. -/
theorem advance_byte {current : Nat} {node target : StateMachineNode} {byte : UInt8} {rest : Bytes}
    {transitions : BufferCursor} (found : nodes[current]? = some node)
    (unread : transitions.unread = byte :: rest) (kept : transitions.pruned = false)
    (there : nodes[node.nextNodeIndex + byte.toNat / 4]? = some target) :
    ∃ next : BufferCursor, next.unread = rest ∧ next.pruned = false ∧
      advanceStateMachine nodes current 0 transitions =
        .ok (some (node.nextNodeIndex + byte.toNat / 4, byte.toNat % 4 + implicitCount target,
          next)) := by
  have inside : transitions.pos < transitions.data.length := by
    by_contra ended
    unfold BufferCursor.unread at unread
    rw [List.drop_eq_nil_of_le (by omega)] at unread
    cases unread
  have here : transitions.data[transitions.pos]? = some byte := by
    have head := congrArg List.head? unread
    simpa [BufferCursor.unread, List.head?_drop] using head
  have reached : node.nextNodeIndex + byte.toNat / 4 < nodes.length :=
    (List.getElem?_eq_some_iff.mp there).1
  refine ⟨{ transitions with pos := transitions.pos + 1 }, ?_, kept, ?_⟩
  · have tail := congrArg List.tail unread
    simpa [BufferCursor.unread, List.tail_drop] using tail
  · have more : transitions.isEmpty = false := by
      unfold BufferCursor.isEmpty
      rw [kept]
      simpa using inside
    have read : transitions.readByte =
        .ok (byte, { transitions with pos := transitions.pos + 1 }) := by
      unfold BufferCursor.readByte
      rw [kept, if_neg Bool.false_ne_true, if_neg (by omega), indexAt_eq_ok.mpr here,
        Except.ok_bind]
    unfold advanceStateMachine
    rw [indexAt_eq_ok.mpr found, Except.ok_bind]
    simp only [more, if_true, Bool.false_eq_true, if_false]
    rw [read, Except.ok_bind]
    simp only
    rw [if_neg (by omega), indexAt_eq_ok.mpr there, Except.ok_bind]

/-- The node that a repetition or an implicit transition leads to. -/
theorem advance_iteration {current numIters : Nat} {node target : StateMachineNode}
    (transitions : BufferCursor) (found : nodes[current]? = some node) (more : 0 < numIters)
    (there : nodes[node.nextNodeIndex]? = some target) :
    advanceStateMachine nodes current numIters transitions =
      .ok (some (node.nextNodeIndex, numIters - (1 - implicitCount target), transitions)) := by
  unfold advanceStateMachine
  rw [indexAt_eq_ok.mpr found, Except.ok_bind]
  simp only
  rw [if_neg (by omega), indexAt_eq_ok.mpr there, Except.ok_bind, subWord_eq (by omega),
    Except.ok_bind]

theorem implicitCount_le (node : StateMachineNode) : implicitCount node ≤ 1 := by
  unfold implicitCount
  split <;> omega

/-- The machine visits the nodes that its offsets lead through. -/
theorem visits_of_walk {current : Nat} {offsets path : List Nat}
    (walk : NodeWalk nodes current offsets path) :
    ∀ {node : StateMachineNode} {numIters fuel : Nat} {transitions : BufferCursor},
      nodes[current]? = some node → implicitCount node ≤ numIters →
      offsetsLeft node numIters transitions = offsets → transitions.pruned = false →
      path.length ≤ fuel → visits nodes fuel current numIters transitions = .ok path := by
  induction walk with
  | @stop current node' found explicit =>
      intro node numIters fuel transitions found' counted left kept enough
      obtain rfl : node' = node := Option.some.inj (found.symm.trans found')
      obtain ⟨fuel, rfl⟩ : ∃ less, fuel = less + 1 := ⟨fuel - 1, by simp at enough; omega⟩
      have none : implicitCount node' = 0 := by simp [implicitCount, explicit]
      unfold offsetsLeft at left
      rw [none, Nat.sub_zero, List.append_eq_nil_iff] at left
      obtain rfl : numIters = 0 := by simpa using left.1
      have ended : transitions.isEmpty = true := by
        have empty : transitions.unread = [] := by
          cases unread : transitions.unread with
          | nil => rfl
          | cons byte rest =>
              rw [unread] at left
              simp [expandBytes, expandByte] at left
        unfold BufferCursor.isEmpty
        rw [kept]
        unfold BufferCursor.unread at empty
        simpa using List.drop_eq_nil_iff.mp empty
      rw [visits, advanceStateMachine, indexAt_eq_ok.mpr found, Except.ok_bind]
      simp only [ended, if_true]
      rfl
  | @implicit current node' offsets path found isImplicit later ih =>
      intro node numIters fuel transitions found' counted left kept enough
      obtain rfl : node' = node := Option.some.inj (found.symm.trans found')
      obtain ⟨fuel, rfl⟩ : ∃ less, fuel = less + 1 := ⟨fuel - 1, by simp at enough; omega⟩
      have one : implicitCount node' = 1 := by simp [implicitCount, isImplicit]
      obtain ⟨target, there⟩ := later.start
      have small := implicitCount_le target
      have rest := @ih target (numIters - (1 - implicitCount target)) fuel transitions there
        (by omega)
        (by
          unfold offsetsLeft at left ⊢
          rw [← left, one, show numIters - (1 - implicitCount target) - implicitCount target =
            numIters - 1 by omega])
        kept (by simpa using enough)
      rw [visits, advance_iteration transitions found (by omega) there, Except.ok_bind]
      simp only
      rw [rest, Except.ok_bind]
  | @hop current offset node' offsets path found explicit later ih =>
      intro node numIters fuel transitions found' counted left kept enough
      obtain rfl : node' = node := Option.some.inj (found.symm.trans found')
      obtain ⟨fuel, rfl⟩ : ∃ less, fuel = less + 1 := ⟨fuel - 1, by simp at enough; omega⟩
      have none : implicitCount node' = 0 := by simp [implicitCount, explicit]
      obtain ⟨target, there⟩ := later.start
      have small := implicitCount_le target
      unfold offsetsLeft at left
      rw [none, Nat.sub_zero] at left
      rcases Nat.eq_zero_or_pos numIters with rfl | more
      · cases unread : transitions.unread with
        | nil =>
            rw [unread] at left
            cases left
        | cons byte bytes =>
            rw [unread] at left
            simp only [List.replicate_zero, List.nil_append, expandBytes, List.flatMap_cons,
              expandByte, List.cons_append, List.cons.injEq] at left
            obtain ⟨rfl, left⟩ := left
            obtain ⟨next, unread', kept', advance⟩ := advance_byte found unread kept there
            have rest := @ih target (byte.toNat % 4 + implicitCount target) fuel next there
              (by omega)
              (by
                unfold offsetsLeft
                rw [unread', Nat.add_sub_cancel, ← left]
                rfl)
              kept' (by simpa using enough)
            rw [visits, advance, Except.ok_bind]
            simp only
            rw [rest, Except.ok_bind]
      · obtain ⟨fewer, rfl⟩ : ∃ fewer, numIters = fewer + 1 := ⟨numIters - 1, by omega⟩
        rw [List.replicate_succ, List.cons_append, List.cons.injEq] at left
        obtain ⟨rfl, left⟩ := left
        rw [Nat.add_zero] at there
        have rest := @ih target (fewer + 1 - (1 - implicitCount target)) fuel transitions
          (by rw [Nat.add_zero]; exact there) (by omega)
          (by
            unfold offsetsLeft
            rw [← left, show fewer + 1 - (1 - implicitCount target) - implicitCount target =
              fewer by omega])
          kept (by simpa using enough)
        rw [visits, advance_iteration transitions found (by omega) there, Except.ok_bind]
        simp only
        rw [Nat.add_zero] at rest
        rw [rest, Except.ok_bind]

/-! ## How far a walk goes -/

/-- A walk begins with a run of distinct nodes, and every offset starts one
more. -/
theorem NodeWalk.runs {rank : Nat → Nat} (descends : Descends nodes rank) {current : Nat}
    {offsets path : List Nat} (walk : NodeWalk nodes current offsets path) :
    ∃ run rest, path = current :: run ++ rest ∧ (current :: run).Nodup ∧
      (∀ node ∈ run, rank node < rank current) ∧ (∀ node ∈ current :: run, node < nodes.length) ∧
      rest.length ≤ offsets.length * nodes.length := by
  induction walk with
  | @stop current node found _ =>
      have inside := (List.getElem?_eq_some_iff.mp found).1
      exact ⟨[], [], rfl, List.nodup_singleton _, List.forall_mem_nil _,
        List.forall_mem_cons.mpr ⟨inside, List.forall_mem_nil _⟩, Nat.zero_le _⟩
  | @implicit current node offsets path found isImplicit _ ih =>
      obtain ⟨run, rest, rfl, distinct, lower, inside, bounded⟩ := ih
      have down := descends current node found isImplicit
      have below : ∀ other ∈ node.nextNodeIndex :: run, rank other < rank current := by
        refine List.forall_mem_cons.mpr ⟨down, fun other member => ?_⟩
        exact (lower other member).trans down
      refine ⟨node.nextNodeIndex :: run, rest, rfl, List.nodup_cons.mpr ⟨?_, distinct⟩, below,
        List.forall_mem_cons.mpr ⟨(List.getElem?_eq_some_iff.mp found).1, inside⟩, bounded⟩
      intro again
      exact Nat.lt_irrefl _ (below current again)
  | @hop current offset node offsets path found _ _ ih =>
      obtain ⟨run, rest, rfl, distinct, _, inside, bounded⟩ := ih
      have short : ((node.nextNodeIndex + offset) :: run).length ≤ nodes.length := by
        have subset : ((node.nextNodeIndex + offset) :: run) ⊆ List.range nodes.length :=
          fun other member => List.mem_range.mpr (inside other member)
        simpa using (List.subperm_of_subset distinct subset).length_le
      refine ⟨[], (node.nextNodeIndex + offset) :: run ++ rest, rfl, List.nodup_singleton _,
        List.forall_mem_nil _,
        List.forall_mem_cons.mpr ⟨(List.getElem?_eq_some_iff.mp found).1,
          List.forall_mem_nil _⟩, ?_⟩
      have more : (offset :: offsets).length * nodes.length =
          offsets.length * nodes.length + nodes.length := by
        rw [List.length_cons, Nat.add_mul, Nat.one_mul]
      rw [List.length_append, more]
      omega

/-- A walk is at most one run of nodes for each offset and one before them. -/
theorem NodeWalk.length_le {rank : Nat → Nat} (descends : Descends nodes rank) {current : Nat}
    {offsets path : List Nat} (walk : NodeWalk nodes current offsets path) :
    path.length ≤ (1 + offsets.length) * nodes.length := by
  obtain ⟨run, rest, rfl, distinct, _, inside, bounded⟩ := walk.runs descends
  have subset : (current :: run) ⊆ List.range nodes.length :=
    fun other member => List.mem_range.mpr (inside other member)
  have short := (List.subperm_of_subset distinct subset).length_le
  rw [List.length_range] at short
  rw [List.length_append, Nat.add_mul, Nat.one_mul]
  omega

theorem expandBytes_length_le (bytes : Bytes) : (expandBytes bytes).length ≤ 4 * bytes.length := by
  induction bytes with
  | nil => exact Nat.le_refl _
  | cons byte rest ih =>
      have small : byte.toNat % 4 < 4 := Nat.mod_lt _ (by omega)
      simp only [expandBytes, List.flatMap_cons, List.length_append, expandByte, List.length_cons,
        List.length_replicate] at ih ⊢
      omega

end Riegeli
