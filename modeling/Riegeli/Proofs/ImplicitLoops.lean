/-
Module: Riegeli.Proofs.ImplicitLoops
Purpose: The check for implicit loops finds one exactly when there is one, and
  without one the decoder's state machine soon stops.
Trusted boundary: none
Main exports: containsImplicitLoop_spec, containsImplicitLoop_false,
  Reached.bounded, implicitLoops_bounded
-/
import Riegeli.Spec.DecodePasses
import Riegeli.Proofs.MachineRun

namespace Riegeli

variable {nodes : List StateMachineNode}

/-! ## Runs of implicit transitions -/

theorem RunLength.functional {index first : Nat} (run : RunLength nodes index first) :
    ∀ {second}, RunLength nodes index second → first = second := by
  induction run with
  | outside none =>
      intro second other
      cases other with
      | outside _ => rfl
      | explicit found _ => rw [none] at found; cases found
      | implicit found _ _ => rw [none] at found; cases found
  | explicit found explicit =>
      intro second other
      cases other with
      | outside none => rw [none] at found; cases found
      | explicit _ _ => rfl
      | implicit found' isImplicit _ =>
          obtain rfl := Option.some.inj (found.symm.trans found')
          rw [explicit] at isImplicit
          cases isImplicit
  | implicit found isImplicit _ ih =>
      intro second other
      cases other with
      | outside none => rw [none] at found; cases found
      | explicit found' explicit =>
          obtain rfl := Option.some.inj (found.symm.trans found')
          rw [explicit] at isImplicit
          cases isImplicit
      | implicit found' _ later =>
          obtain rfl := Option.some.inj (found.symm.trans found')
          rw [ih later]

theorem RunLength.of_step {index next length : Nat} (step : ImplicitStep nodes index next)
    (run : RunLength nodes next length) : RunLength nodes index (length + 1) := by
  obtain ⟨node, found, isImplicit, rfl⟩ := step
  exact .implicit found isImplicit run

/-- Implicit transitions that end lead down. -/
theorem RunLength.step {index next length : Nat} (run : RunLength nodes index length)
    (step : ImplicitStep nodes index next) :
    ∃ shorter, RunLength nodes next shorter ∧ length = shorter + 1 := by
  obtain ⟨node, found, isImplicit, rfl⟩ := step
  cases run with
  | outside none => rw [none] at found; cases found
  | explicit found' explicit =>
      obtain rfl := Option.some.inj (found.symm.trans found')
      rw [explicit] at isImplicit
      cases isImplicit
  | @implicit _ length _ found' _ later =>
      obtain rfl := Option.some.inj (found.symm.trans found')
      exact ⟨length, later, rfl⟩

theorem RunLength.transGen {index next : Nat}
    (steps : Relation.TransGen (ImplicitStep nodes) index next) :
    ∀ {length}, RunLength nodes index length → ∃ shorter, RunLength nodes next shorter ∧
      shorter < length := by
  induction steps with
  | single step =>
      intro length run
      obtain ⟨shorter, later, rfl⟩ := run.step step
      exact ⟨shorter, later, Nat.lt_succ_self _⟩
  | tail _ step ih =>
      intro length run
      obtain ⟨middle, between, below⟩ := ih run
      obtain ⟨shorter, later, rfl⟩ := between.step step
      exact ⟨shorter, later, by omega⟩

/-- From every node the implicit transitions end. -/
def Settles (nodes : List StateMachineNode) (index : Nat) : Prop :=
  ∃ length, RunLength nodes index length

theorem Settles.reflTransGen {index next : Nat}
    (steps : Relation.ReflTransGen (ImplicitStep nodes) index next)
    (settles : Settles nodes next) : Settles nodes index := by
  induction steps with
  | refl => exact settles
  | tail _ step ih =>
      obtain ⟨length, run⟩ := settles
      exact ih ⟨length + 1, run.of_step step⟩

theorem not_cycle_of_settles (settles : ∀ index, Settles nodes index) : ¬ ImplicitCycle nodes := by
  rintro ⟨index, steps⟩
  obtain ⟨length, run⟩ := settles index
  obtain ⟨shorter, again, below⟩ := RunLength.transGen steps run
  exact absurd (again.functional run) (Nat.ne_of_lt below)

/-- The nodes of a run are different ones, so there are no more of them than in
the table. -/
theorem RunLength.path {index length : Nat} (run : RunLength nodes index length) :
    ∃ path : List Nat, path.length = length ∧ path.Nodup ∧
      ∀ other ∈ path, other < nodes.length ∧ ∃ shorter ≤ length, RunLength nodes other shorter := by
  induction run with
  | outside _ => exact ⟨[], rfl, List.nodup_nil, List.forall_mem_nil _⟩
  | @explicit index node found isExplicit =>
      refine ⟨[index], rfl, List.nodup_singleton _, fun other member => ?_⟩
      obtain rfl := List.mem_singleton.mp member
      exact ⟨(List.getElem?_eq_some_iff.mp found).1, 1, Nat.le_refl _, .explicit found isExplicit⟩
  | @implicit index length node found isImplicit later ih =>
      obtain ⟨path, counted, distinct, each⟩ := ih
      refine ⟨index :: path, congrArg Nat.succ counted, List.nodup_cons.mpr ⟨?_, distinct⟩,
        List.forall_mem_cons.mpr ⟨?_, fun other member => ?_⟩⟩
      · intro again
        obtain ⟨_, shorter, below, run⟩ := each index again
        have same := run.functional (.implicit found isImplicit later)
        omega
      · exact ⟨(List.getElem?_eq_some_iff.mp found).1, length + 1, Nat.le_refl _,
          .implicit found isImplicit later⟩
      · obtain ⟨inside, shorter, below, run⟩ := each other member
        exact ⟨inside, shorter, by omega, run⟩

theorem RunLength.length_le {index length : Nat} (run : RunLength nodes index length) :
    length ≤ nodes.length := by
  obtain ⟨path, rfl, distinct, each⟩ := run.path
  have subset : path ⊆ List.range nodes.length :=
    fun other member => List.mem_range.mpr (each other member).1
  simpa using (List.subperm_of_subset distinct subset).length_le

/-! ## The check -/

/-- What the marks say while implicit transitions are followed: those of this
round lead to the node that is reached, and from those of earlier rounds the
implicit transitions end. -/
structure Marks (nodes : List StateMachineNode) (nextId idx : Nat) (loopIds : List Nat) : Prop where
  length : loopIds.length = nodes.length
  inside : idx < nodes.length
  known : ∀ loopId ∈ loopIds, loopId ≤ nextId
  reach : ∀ index : Nat, loopIds[index]? = some nextId →
    Relation.ReflTransGen (ImplicitStep nodes) index idx
  settled : ∀ index loopId : Nat, loopIds[index]? = some loopId → loopId ≠ 0 → loopId ≠ nextId →
    Settles nodes index

/-- What is known after a round that found no loop. -/
structure Cleared (nodes : List StateMachineNode) (nextId : Nat) (loopIds : List Nat) : Prop where
  length : loopIds.length = nodes.length
  known : ∀ loopId ∈ loopIds, loopId ≤ nextId
  settled : ∀ index loopId : Nat, loopIds[index]? = some loopId → loopId ≠ 0 → Settles nodes index

variable {nextId idx : Nat} {loopIds : List Nat}

/-- From a node whose implicit transitions end, so do those of the round. -/
theorem Marks.cleared (marks : Marks nodes nextId idx loopIds) (settles : Settles nodes idx) :
    Cleared nodes nextId loopIds where
  length := marks.length
  known := marks.known
  settled := by
    intro index loopId marked nonzero
    by_cases mine : loopId = nextId
    · subst mine
      exact settles.reflTransGen (marks.reach index marked)
    · exact marks.settled index loopId marked nonzero mine

/-- The next node of the round is marked. -/
theorem Marks.mark {next : Nat} (marks : Marks nodes nextId idx loopIds)
    (step : ImplicitStep nodes idx next) (within : next < nodes.length) :
    Marks nodes nextId next (loopIds.set next nextId) where
  length := by rw [List.length_set, marks.length]
  inside := within
  known := by
    intro loopId member
    rcases List.mem_or_eq_of_mem_set member with old | new
    · exact marks.known loopId old
    · exact new.le
  reach := by
    intro index marked
    by_cases same : next = index
    · rw [same]
    · rw [List.getElem?_set_ne same] at marked
      exact (marks.reach index marked).tail step
  settled := by
    intro index loopId marked nonzero other
    by_cases same : next = index
    · subst same
      rw [List.getElem?_set_self (by rw [marks.length]; exact within)] at marked
      exact absurd (Option.some.inj marked).symm other
    · rw [List.getElem?_set_ne same] at marked
      exact marks.settled index loopId marked nonzero other

/-- A round finds a loop or the end of the implicit transitions. -/
theorem followImplicit_spec (fresh : nextId ≠ 0) :
    ∀ {fuel idx : Nat} {loopIds : List Nat}, Marks nodes nextId idx loopIds →
      loopIds.count 0 < fuel →
      ∃ found marked, followImplicit nodes nextId fuel idx loopIds = .ok (found, marked) ∧
        (found = true → ImplicitCycle nodes) ∧
        (found = false → Settles nodes idx ∧ Cleared nodes nextId marked) := by
  intro fuel
  induction fuel with
  | zero => intro idx loopIds _ enough; omega
  | succ fuel ih =>
      intro idx loopIds marks enough
      obtain ⟨node, found⟩ : ∃ node, nodes[idx]? = some node :=
        ⟨_, List.getElem?_eq_getElem marks.inside⟩
      rw [followImplicit, indexAt_eq_ok.mpr found, Except.ok_bind]
      cases isImplicit : node.isImplicit with
      | false =>
          have settles : Settles nodes idx := ⟨1, .explicit found isImplicit⟩
          exact ⟨false, loopIds, rfl, (nomatch ·), fun _ => ⟨settles, marks.cleared settles⟩⟩
      | true =>
          have step : ImplicitStep nodes idx node.nextNodeIndex :=
            ⟨_, found, isImplicit, rfl⟩
          have settlesBy : Settles nodes node.nextNodeIndex → Settles nodes idx :=
            fun ⟨length, run⟩ => ⟨length + 1, run.of_step step⟩
          simp only [if_true]
          by_cases outside : nodes.length ≤ node.nextNodeIndex
          · have settles := settlesBy ⟨0, .outside (List.getElem?_eq_none outside)⟩
            rw [if_pos outside]
            exact ⟨false, loopIds, rfl, (nomatch ·), fun _ => ⟨settles, marks.cleared settles⟩⟩
          have within : node.nextNodeIndex < loopIds.length := by
            rw [marks.length]
            omega
          have mark := List.getElem?_eq_getElem within
          rw [if_neg outside, indexAt_eq within, Except.ok_bind]
          by_cases again : loopIds[node.nextNodeIndex] = nextId
          · rw [again] at mark
            rw [if_pos again]
            exact ⟨true, loopIds, rfl, fun _ => ⟨idx, .head' step (marks.reach _ mark)⟩,
              (nomatch ·)⟩
          rw [if_neg again]
          by_cases visited : loopIds[node.nextNodeIndex] ≠ 0
          · have settles := settlesBy (marks.settled _ _ mark visited again)
            rw [if_pos visited]
            exact ⟨false, loopIds, rfl, (nomatch ·), fun _ => ⟨settles, marks.cleared settles⟩⟩
          have zero : loopIds[node.nextNodeIndex] = 0 := not_not.mp visited
          have fewer : (loopIds.set node.nextNodeIndex nextId).count 0 < fuel := by
            have present : 0 < loopIds.count 0 :=
              List.count_pos_iff.mpr (zero ▸ List.getElem_mem within)
            rw [List.count_set within, zero]
            simp only [beq_self_eq_true, if_true, beq_iff_eq, if_neg fresh]
            omega
          rw [if_neg visited, setAt_eq within, Except.ok_bind]
          obtain ⟨foundLoop, marked, ran, cycle, clear⟩ := ih (marks.mark step (by omega)) fewer
          refine ⟨foundLoop, marked, ran, cycle, fun none => ?_⟩
          obtain ⟨settles, cleared⟩ := clear none
          exact ⟨settlesBy settles, cleared⟩

/-- The rounds from a node on find a loop or show that there is none. -/
theorem implicitLoopFrom_spec :
    ∀ {left index nextId : Nat} {loopIds : List Nat}, index + left = nodes.length →
      Cleared nodes nextId loopIds → (∀ other < index, Settles nodes other) →
      ∃ found, implicitLoopFrom nodes left index (nextId + 1) loopIds = .ok found ∧
        (found = true → ImplicitCycle nodes) ∧
        (found = false → ∀ other < nodes.length, Settles nodes other) := by
  intro left
  induction left with
  | zero =>
      intro index nextId loopIds total _ done
      refine ⟨false, rfl, (nomatch ·), fun _ other inside => done other (by omega)⟩
  | succ left ih =>
      intro index nextId loopIds total cleared done
      have within : index < loopIds.length := by
        rw [cleared.length]
        omega
      have mark := List.getElem?_eq_getElem within
      have extend : Settles nodes index → ∀ other < index + 1, Settles nodes other := by
        intro settles other below
        rcases Nat.lt_succ_iff_lt_or_eq.mp below with earlier | rfl
        · exact done other earlier
        · exact settles
      rw [implicitLoopFrom, indexAt_eq within, Except.ok_bind]
      by_cases visited : loopIds[index] ≠ 0
      · rw [if_pos visited]
        exact ih (by omega) cleared (extend (cleared.settled _ _ mark visited))
      have marks : Marks nodes (nextId + 1) index (loopIds.set index (nextId + 1)) := by
        refine ⟨by rw [List.length_set, cleared.length], by omega, ?_, ?_, ?_⟩
        · intro loopId member
          rcases List.mem_or_eq_of_mem_set member with old | new
          · exact (cleared.known loopId old).trans (Nat.le_succ _)
          · exact new.le
        · intro other marked
          by_cases same : index = other
          · rw [same]
          · rw [List.getElem?_set_ne same] at marked
            have old := cleared.known _ (List.mem_of_getElem? marked)
            omega
        · intro other loopId marked nonzero older
          by_cases same : index = other
          · subst same
            rw [List.getElem?_set_self within] at marked
            exact absurd (Option.some.inj marked).symm older
          · rw [List.getElem?_set_ne same] at marked
            exact cleared.settled other loopId marked nonzero
      have room : (loopIds.set index (nextId + 1)).count 0 < nodes.length + 1 := by
        have most := List.count_le_length (a := 0) (l := loopIds.set index (nextId + 1))
        rw [List.length_set, cleared.length] at most
        omega
      obtain ⟨found, marked, ran, cycle, clear⟩ := followImplicit_spec (Nat.succ_ne_zero _) marks room
      rw [if_neg visited, setAt_eq within, Except.ok_bind, ran, Except.ok_bind]
      cases found with
      | true => exact ⟨true, rfl, cycle, (nomatch ·)⟩
      | false =>
          obtain ⟨settles, cleared'⟩ := clear rfl
          exact ih (by omega) cleared' (extend settles)

/-- The check ends, and tells whether there is an implicit loop. -/
theorem containsImplicitLoop_spec (nodes : List StateMachineNode) :
    ∃ found, containsImplicitLoop nodes = .ok found ∧ (found = true → ImplicitCycle nodes) ∧
      (found = false → ∀ index, Settles nodes index) := by
  have cleared : Cleared nodes 0 (List.replicate nodes.length 0) := by
    refine ⟨List.length_replicate, fun loopId member => ?_, fun index loopId marked nonzero => ?_⟩
    · exact (List.eq_of_mem_replicate member).le
    · exact absurd (List.eq_of_mem_replicate (List.mem_of_getElem? marked)) nonzero
  obtain ⟨found, ran, cycle, settles⟩ :=
    implicitLoopFrom_spec (Nat.zero_add _) cleared fun _ below => nomatch below
  refine ⟨found, ran, cycle, fun none index => ?_⟩
  rcases Nat.lt_or_ge index nodes.length with inside | outside
  · exact settles none index inside
  · exact ⟨0, .outside (List.getElem?_eq_none outside)⟩

theorem containsImplicitLoop_iff :
    (containsImplicitLoop nodes = .ok true ↔ ImplicitCycle nodes) ∧
      (containsImplicitLoop nodes = .ok false ↔ ¬ ImplicitCycle nodes) := by
  obtain ⟨found, ran, cycle, settles⟩ := containsImplicitLoop_spec nodes
  rw [ran]
  cases found with
  | true =>
      exact ⟨⟨fun _ => cycle rfl, fun _ => rfl⟩, (nomatch ·), fun none => absurd (cycle rfl) none⟩
  | false =>
      have none := not_cycle_of_settles (settles rfl)
      exact ⟨⟨(nomatch ·), fun cycle => absurd cycle none⟩, fun _ => none, fun _ => rfl⟩

theorem settles_of_loopless (looping : containsImplicitLoop nodes = .ok false) (index : Nat) :
    Settles nodes index := by
  obtain ⟨found, ran, _, settles⟩ := containsImplicitLoop_spec nodes
  obtain rfl := Except.ok.inj (looping.symm.trans ran)
  exact settles rfl index

/-- A machine whose implicit transitions go down a rank has no implicit loop. -/
theorem containsImplicitLoop_false {rank : Nat → Nat} (descends : Descends nodes rank) :
    containsImplicitLoop nodes = .ok false := by
  have lower : ∀ {index next}, Relation.TransGen (ImplicitStep nodes) index next →
      rank next < rank index := by
    intro index next steps
    induction steps with
    | single step =>
        obtain ⟨node, found, isImplicit, rfl⟩ := step
        exact descends _ node found isImplicit
    | tail _ step ih =>
        obtain ⟨node, found, isImplicit, rfl⟩ := step
        exact (descends _ node found isImplicit).trans ih
  exact containsImplicitLoop_iff.2.mpr fun ⟨index, steps⟩ => Nat.lt_irrefl _ (lower steps)

/-! ## Passes -/

variable {current numIters next iters : Nat} {transitions transitions' : BufferCursor}

/-- A pass reads a byte of the transitions, or counts down unless the next
transition is implicit. -/
theorem advance_cases (kept : transitions.pruned = false)
    (moves : advanceStateMachine nodes current numIters transitions =
      .ok (some (next, iters, transitions'))) :
    ∃ node target, nodes[current]? = some node ∧ nodes[next]? = some target ∧
      transitions'.pruned = false ∧
      ((numIters = 0 ∧ transitions'.unread.length + 1 = transitions.unread.length ∧
          ∃ repeats < 4, iters = repeats + implicitCount target) ∨
        (next = node.nextNodeIndex ∧ transitions' = transitions ∧ 0 < numIters ∧
          numIters + implicitCount target = iters + 1)) := by
  obtain ⟨node, found, moves⟩ := Except.bind_eq_ok.mp moves
  refine ⟨node, ?_⟩
  by_cases done : numIters = 0
  · rw [if_pos done] at moves
    cases more : transitions.isEmpty with
    | true => rw [more, if_pos rfl] at moves; cases moves
    | false =>
        rw [more, if_neg Bool.false_ne_true] at moves
        obtain ⟨⟨byte, rest⟩, read, moves⟩ := Except.bind_eq_ok.mp moves
        simp only at moves
        split at moves
        · cases moves
        obtain ⟨target, there, moves⟩ := Except.bind_eq_ok.mp moves
        cases moves
        unfold BufferCursor.readByte at read
        rw [kept, if_neg Bool.false_ne_true] at read
        by_cases ended : transitions.data.length ≤ transitions.pos
        · rw [if_pos ended] at read
          cases read
        rw [if_neg ended] at read
        obtain ⟨byte', _, read⟩ := Except.bind_eq_ok.mp read
        cases read
        refine ⟨target, indexAt_eq_ok.mp found, indexAt_eq_ok.mp there, rfl,
          .inl ⟨done, ?_, byte.toNat % 4, Nat.mod_lt _ (by decide), rfl⟩⟩
        unfold BufferCursor.unread
        simp only [List.length_drop]
        omega
  · rw [if_neg done] at moves
    obtain ⟨target, there, moves⟩ := Except.bind_eq_ok.mp moves
    obtain ⟨left, counted, moves⟩ := Except.bind_eq_ok.mp moves
    cases moves
    have small := implicitCount_le target
    rw [subWord_eq (by omega)] at counted
    obtain rfl := Except.ok.inj counted
    exact ⟨target, indexAt_eq_ok.mp found, indexAt_eq_ok.mp there, kept,
      .inr ⟨rfl, rfl, by omega, by omega⟩⟩

variable {context : DecodeContext} {start here : LoopState} {count bound : Nat}

/-- What holds of the loop before a pass: the repeat counter covers an implicit
transition, and the passes that may follow are a run of nodes for each count and
four for each byte of the transitions. -/
structure Bounded (nodes : List StateMachineNode) (bound count : Nat) (here : LoopState) : Prop where
  kept : here.transitions.pruned = false
  within : ∃ node run, nodes[here.current]? = some node ∧ RunLength nodes here.current run ∧
    implicitCount node ≤ here.numIters ∧
    count + (here.numIters - implicitCount node + 4 * here.transitions.unread.length) *
      nodes.length + run ≤ bound

/-- A pass keeps the bound. -/
theorem Bounded.pass {here next : LoopState} (settles : ∀ index, Settles nodes index)
    (bounded : Bounded nodes bound count here)
    (moves : advanceStateMachine nodes here.current here.numIters here.transitions =
      .ok (some (next.current, next.numIters, next.transitions))) :
    Bounded nodes bound (count + 1) next := by
  obtain ⟨kept, node, run, found, length, covered, fits⟩ := bounded
  obtain ⟨node', target, found', there, kept', moved⟩ := advance_cases kept moves
  obtain rfl := Option.some.inj (found.symm.trans found')
  obtain ⟨run', length'⟩ := settles next.current
  have short := length'.length_le
  have positive : 0 < run := by
    cases length with
    | outside none => rw [none] at found; cases found
    | explicit _ _ => exact Nat.one_pos
    | implicit _ _ _ => exact Nat.succ_pos _
  refine ⟨kept', target, run', there, length', ?_⟩
  -- one run of nodes less is left, or one node less of the same run
  have spend : ∀ {before after : Nat}, after + 1 ≤ before →
      count + before * nodes.length + run ≤ bound →
      count + 1 + after * nodes.length + run' ≤ bound := by
    intro before after less fits
    have cost := Nat.mul_le_mul_right nodes.length less
    rw [Nat.add_mul, Nat.one_mul] at cost
    omega
  rcases moved with ⟨done, unread, repeats, few, counted⟩ | ⟨same, unread, more, counted⟩
  · rw [counted]
    refine ⟨Nat.le_add_left _ _, spend ?_ fits⟩
    rw [Nat.add_sub_cancel]
    omega
  · have small := implicitCount_le target
    refine ⟨by omega, ?_⟩
    rw [unread]
    cases isImplicit : node.isImplicit with
    | false =>
        have none : implicitCount node = 0 := by rw [implicitCount, isImplicit]; rfl
        exact spend (by omega) fits
    | true =>
        have one : implicitCount node = 1 := by rw [implicitCount, isImplicit]; rfl
        obtain ⟨shorter, later, less⟩ := length.step ⟨node, found, isImplicit, same.symm⟩
        obtain rfl := later.functional length'
        have left : next.numIters - implicitCount target = here.numIters - implicitCount node := by
          omega
        rw [left]
        omega

theorem Reached.bounded (settles : ∀ index, Settles context.nodes index)
    (first : Bounded context.nodes bound 0 start) (reached : Reached context start count here) :
    Bounded context.nodes bound count here := by
  induction reached with
  | start => exact first
  | pass _ _ _ moves ih => exact ih.pass settles moves

theorem bounded_first {firstNode : Nat} {node : StateMachineNode} {bytes : Bytes}
    (settles : ∀ index, Settles nodes index) (found : nodes[firstNode]? = some node)
    (state : DecodeState) :
    Bounded nodes ((1 + 4 * bytes.length) * nodes.length) 0
      (.first firstNode node (BufferCursor.new bytes) state) := by
  obtain ⟨run, length⟩ := settles firstNode
  have short := length.length_le
  refine ⟨rfl, node, run, found, length, Nat.le_refl _, ?_⟩
  change 0 + (implicitCount node - implicitCount node + 4 * (bytes.drop 0).length) * nodes.length +
    run ≤ _
  rw [Nat.sub_self, List.drop_zero, Nat.zero_add, Nat.zero_add, Nat.add_mul, Nat.one_mul]
  omega

/-- Passes that are bounded need no more fuel than the bound. -/
theorem runLoop_fuel (settles : ∀ index, Settles context.nodes index) (extra : Nat) :
    ∀ {fuel count : Nat} {here : LoopState}, Bounded context.nodes (count + fuel) count here →
      runLoop context (fuel + extra) here.current here.numIters here.transitions here.state =
        runLoop context fuel here.current here.numIters here.transitions here.state := by
  intro fuel
  induction fuel with
  | zero =>
      intro count here bounded
      obtain ⟨_, node, run, found, length, _, fits⟩ := bounded
      have empty : run = 0 := by omega
      subst empty
      cases length with
      | outside none => rw [none] at found; cases found
  | succ fuel ih =>
      intro count here bounded
      rw [show fuel + 1 + extra = fuel + extra + 1 by omega, runLoop, runLoop]
      refine bind_congr fun node => bind_congr fun state => ?_
      cases moves : advanceStateMachine context.nodes here.current here.numIters
          here.transitions with
      | error fault => rfl
      | ok advanced =>
          rw [Except.ok_bind, Except.ok_bind]
          cases advanced with
          | none => rfl
          | some moved =>
              obtain ⟨next, iters, transitions⟩ := moved
              have kept : Bounded context.nodes (count + (fuel + 1)) (count + 1)
                  ⟨next, iters, transitions, state⟩ := bounded.pass settles moves
              rw [show count + (fuel + 1) = count + 1 + fuel by omega] at kept
              exact ih kept

/-- The check for implicit loops tells exactly whether there is one.  Where there
is none, whatever the first node, the transitions and the rest of the decoder
are, at most a run of all nodes before the first byte and four for every byte
are performed, the repeat counter covers every implicit transition, and more
fuel changes nothing. -/
theorem implicitLoops_bounded (nodes : List StateMachineNode) :
    (containsImplicitLoop nodes = .ok true ↔ ImplicitCycle nodes) ∧
    (containsImplicitLoop nodes = .ok false ↔ ¬ ImplicitCycle nodes) ∧
    (containsImplicitLoop nodes = .ok false →
      ∀ (context : DecodeContext) (firstNode : Nat) (first : StateMachineNode) (bytes : Bytes)
        (state : DecodeState), context.nodes = nodes → nodes[firstNode]? = some first →
      (∀ count here,
        Reached context (.first firstNode first (BufferCursor.new bytes) state) count here →
        count + 1 ≤ (1 + 4 * bytes.length) * nodes.length ∧
          ∀ node, nodes[here.current]? = some node → node.isImplicit = true → here.numIters ≠ 0) ∧
      ∀ extra,
        runLoop context (runFuel nodes (BufferCursor.new bytes) + extra) firstNode
            (implicitCount first) (BufferCursor.new bytes) state =
          runLoop context (runFuel nodes (BufferCursor.new bytes)) firstNode
            (implicitCount first) (BufferCursor.new bytes) state) := by
  refine ⟨containsImplicitLoop_iff.1, containsImplicitLoop_iff.2, fun looping => ?_⟩
  rintro context firstNode first bytes state rfl found
  have settles := settles_of_loopless looping
  have bounded := @bounded_first _ _ _ bytes settles found state
  refine ⟨fun count here reached => ?_, fun extra => ?_⟩
  · obtain ⟨_, node, run, there, length, covered, fits⟩ := reached.bounded settles bounded
    have positive : 0 < run := by
      cases length with
      | outside none => rw [none] at there; cases there
      | explicit _ _ => exact Nat.one_pos
      | implicit _ _ _ => exact Nat.succ_pos _
    refine ⟨by omega, fun node' there' isImplicit => ?_⟩
    obtain rfl := Option.some.inj (there.symm.trans there')
    have one : implicitCount node = 1 := by rw [implicitCount, isImplicit]; rfl
    omega
  · rw [← Nat.zero_add ((1 + 4 * bytes.length) * _)] at bounded
    exact runLoop_fuel settles extra bounded

/-- An implicit transition to a node whose own transition is explicit. -/
theorem implicitLoops_bounded_two :
    let nodes := [plainNode .noOp 1 true, plainNode .noOp 0 false]
    let context : DecodeContext :=
      { nodes := nodes, numRecords := 0, nonprotoLengthsIndex := none, nodeTemplates := [],
        includeMap := none }
    let state : DecodeState :=
      { dest := Decoder.BackwardBuffer.new 0, buffers := [], submessageStack := [], limits := [],
        skippedSubmessageLevel := 0 }
    containsImplicitLoop nodes = .ok false ∧
      runLoop context (runFuel nodes (BufferCursor.new [5]) + 7) 0 1 (BufferCursor.new [5]) state =
        runLoop context (runFuel nodes (BufferCursor.new [5])) 0 1 (BufferCursor.new [5]) state :=
  ⟨by decide, ((implicitLoops_bounded [plainNode .noOp 1 true, plainNode .noOp 0 false]).2.2
    (by decide) _ 0 _ [5] _ rfl rfl).2 7⟩

end Riegeli
