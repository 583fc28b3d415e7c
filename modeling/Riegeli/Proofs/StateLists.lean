/-
Module: Riegeli.Proofs.StateLists
Purpose: How a list of states is laid out: its blocks of 64 states, the NoOp
  that leads to each block but the first, and the places of the wanted states.
Trusted boundary: none
Main exports: Placing, Listed, placeList_lists
-/
import Riegeli.Proofs.TransitionHops
import Mathlib.Data.List.Nodup
import Mathlib.Data.List.Perm.Basic

namespace Riegeli

/-! ## The priority queue -/

theorem popMax_none {queue : List PriorityQueueEntry} (empty : popMax queue = none) :
    queue = [] := by
  cases queue with
  | nil => rfl
  | cons entry rest =>
      rw [popMax] at empty
      cases inner : popMax rest with
      | none => rw [inner] at empty; cases empty
      | some found =>
          rw [inner] at empty
          simp only at empty
          split at empty <;> cases empty

/-- Popping takes out one entry. -/
theorem popMax_perm {queue rest : List PriorityQueueEntry} {entry : PriorityQueueEntry}
    (popped : popMax queue = some (entry, rest)) : (entry :: rest).Perm queue := by
  induction queue generalizing entry rest with
  | nil => cases popped
  | cons first others ih =>
      rw [popMax] at popped
      cases inner : popMax others with
      | none =>
          rw [inner] at popped
          cases popped
          rw [popMax_none inner]
      | some found =>
          obtain ⟨greatest, kept⟩ := found
          have below := ih inner
          rw [inner] at popped
          simp only at popped
          split at popped
          · cases popped
            exact List.Perm.refl _
          · cases popped
            exact (List.Perm.swap first entry kept).trans (below.cons first)

theorem popMax_some {queue : List PriorityQueueEntry} (filled : 0 < queue.length) :
    ∃ entry rest, popMax queue = some (entry, rest) ∧ (entry :: rest).Perm queue := by
  cases popped : popMax queue with
  | none =>
      rw [popMax_none popped] at filled
      cases filled
  | some found => exact ⟨found.1, found.2, rfl, popMax_perm popped⟩

theorem modifyAt_eq {Item : Type} {items : List Item} {index : Nat}
    (inside : index < items.length) (update : Item → Item) :
    modifyAt items index update = .ok (items.modify index update) := if_pos inside

/-! ## The states written so far -/

/-- A destination that stands for a tag or for the way to the public list. -/
def Regular (numTags dest : Nat) : Prop := dest = invalidPos ∨ dest < numTags

instance (numTags dest : Nat) : Decidable (Regular numTags dest) :=
  inferInstanceAs (Decidable (_ ∨ _))

/-- The entries that are not NoOps inside the list. -/
def placedOf (numTags : Nat) (popped : List (Nat × Nat)) : List (Nat × Nat) :=
  popped.filter fun entry => Regular numTags entry.1

/-- Notes taken for the entries in order. -/
def noteAll (note : Nat → Nat → ListTargets → ListTargets) (placed : List (Nat × Nat))
    (targets : ListTargets) : ListTargets :=
  placed.foldl (fun targets entry => note entry.1 entry.2 targets) targets

/-- What the list being written after the states `before` looks like once the
entries `popped` are placed.  The list has `size` states, `noops` of them NoOps
that lead to a block of 64; the `index`-th of these leads to the `index`-th
block from the end. -/
structure Placing (note : Nat → Nat → ListTargets → ListTargets) (before : List StateInfo)
    (numTags noops size : Nat) (wanted : List Nat) (start : ListTargets)
    (popped : List (Nat × Nat)) (state : ListState) : Prop where
  length : state.stateMachine.length = before.length + size
  level : state.prevState + popped.length = before.length + size
  served : state.noopBase.length ≤ noops
  bases : ∀ index < state.noopBase.length,
    state.noopBase[index]? = some (before.length + 64 * (noops - index))
  below : state.prevState ≤ before.length + 64 * (noops + 1 - state.noopBase.length)
  earlier : ∀ pos < before.length, state.stateMachine[pos]? = before[pos]?
  filled : ∀ pos < before.length + size, state.prevState ≤ pos →
    ∃ dest, (dest, pos) ∈ popped
  cells : ∀ dest pos, (dest, pos) ∈ popped → state.prevState ≤ pos ∧
    ∃ cell, state.stateMachine[pos]? = some cell ∧
      (Regular numTags dest → cell.etagIndex = dest ∧ cell.base = invalidPos) ∧
      (¬ Regular numTags dest → cell.IsNoop ∧
        cell.base = before.length + 64 * (noops - (dest - numTags)) ∧ pos < cell.base)
  sources : ∀ pos cell, before.length ≤ pos → state.stateMachine[pos]? = some cell →
    cell.canonicalSource =
      (popped.lookup (numTags + (noops - (pos - before.length) / 64))).getD invalidPos
  balance : (popped.map Prod.fst ++ state.queue.map PriorityQueueEntry.destIndex).Perm
    (wanted ++ (List.range state.noopBase.length).map (numTags + ·))
  noted : state.targets = noteAll note (placedOf numTags popped) start
  tagsLength : state.targets.tags.length = numTags

/-- Recording a regular entry is taking a note. -/
def Notes (record : Nat → Nat → ListTargets → Rust ListTargets)
    (note : Nat → Nat → ListTargets → ListTargets) (numTags : Nat) (wanted : List Nat) : Prop :=
  ∀ dest pos targets, dest ∈ wanted → targets.tags.length = numTags →
    record dest pos targets = .ok (note dest pos targets) ∧
      (note dest pos targets).tags.length = numTags

section Placing

variable {record : Nat → Nat → ListTargets → Rust ListTargets}
  {note : Nat → Nat → ListTargets → ListTargets} {before : List StateInfo}
  {numTags noops size : Nat} {wanted : List Nat} {start : ListTargets}
  {popped : List (Nat × Nat)} {state : ListState}

/-- An entry popped or in the queue is a wanted one or a NoOp added. -/
theorem Placing.origin (placing : Placing note before numTags noops size wanted start popped state)
    {dest : Nat}
    (member : dest ∈ popped.map Prod.fst ++ state.queue.map PriorityQueueEntry.destIndex) :
    dest ∈ wanted ∨ ∃ index < state.noopBase.length, dest = numTags + index := by
  rcases List.mem_append.mp (placing.balance.mem_iff.mp member) with old | added
  · exact .inl old
  · obtain ⟨index, inside, rfl⟩ := List.mem_map.mp added
    exact .inr ⟨index, List.mem_range.mp inside, rfl⟩

theorem not_regular_noop {index : Nat} (fits : numTags + noops < invalidPos)
    (inside : index ≤ noops) : ¬ Regular numTags (numTags + index) := by
  unfold Regular
  omega

/-- A NoOp that is still to come has no place yet. -/
theorem Placing.lookup_none
    (placing : Placing note before numTags noops size wanted start popped state)
    (regular : ∀ dest ∈ wanted, Regular numTags dest) (fits : numTags + noops < invalidPos)
    {index : Nat} (inside : index ≤ noops) (later : state.noopBase.length ≤ index) :
    popped.lookup (numTags + index) = none := by
  rw [List.lookup_eq_none_iff]
  intro entry member
  have known : entry.1 ∈ popped.map Prod.fst ++ state.queue.map PriorityQueueEntry.destIndex :=
    List.mem_append_left _ (List.mem_map_of_mem member)
  rcases placing.origin known with old | ⟨other, small, same⟩
  · have known := regular _ old
    have noop := not_regular_noop fits inside
    rw [bne_iff_ne]
    intro same
    rw [same] at noop
    exact noop known
  · rw [bne_iff_ne]
    omega

theorem placedOf_append (first second : List (Nat × Nat)) :
    placedOf numTags (first ++ second) = placedOf numTags first ++ placedOf numTags second :=
  List.filter_append _ _

theorem noteAll_append (first second : List (Nat × Nat)) (targets : ListTargets) :
    noteAll note (first ++ second) targets = noteAll note second (noteAll note first targets) :=
  List.foldl_append

theorem lookup_append_single {key dest pos : Nat} :
    (popped ++ [(dest, pos)]).lookup key =
      (popped.lookup key).or (if key = dest then some pos else none) := by
  rw [List.lookup_append]
  congr 1
  by_cases same : key = dest
  · rw [if_pos same, same, List.lookup_cons_self]
  · rw [if_neg same, List.lookup_cons, beq_false_of_ne same]
    rfl

/-- Placing a wanted entry. -/
theorem Placing.place_regular
    (placing : Placing note before numTags noops size wanted start popped state)
    (regular : ∀ dest ∈ wanted, Regular numTags dest) (fits : numTags + noops < invalidPos)
    (room : before.length < state.prevState) (notes : Notes record note numTags wanted)
    {entry : PriorityQueueEntry} {queue : List PriorityQueueEntry}
    (taken : (entry :: queue).Perm state.queue)
    (here : Regular numTags entry.destIndex) (isWanted : entry.destIndex ∈ wanted) :
    ∃ after, placeEntry record numTags entry { state with queue := queue } = .ok after ∧
      Placing note before numTags noops size wanted start
        (popped ++ [(entry.destIndex, state.prevState - 1)]) after ∧
      after.queue = queue ∧ after.noopBase = state.noopBase ∧
      after.prevState = state.prevState - 1 := by
  have inside : state.prevState - 1 < state.stateMachine.length := by
    have := placing.length
    have := placing.level
    omega
  obtain ⟨recorded, kept⟩ :=
    notes entry.destIndex (state.prevState - 1) state.targets isWanted placing.tagsLength
  refine ⟨{ stateMachine :=
              state.stateMachine.set (state.prevState - 1)
                (StateInfo.new entry.destIndex invalidPos)
            prevState := state.prevState - 1
            queue := queue
            noopBase := state.noopBase
            targets := note entry.destIndex (state.prevState - 1) state.targets },
    ?_, ?_, rfl, rfl, rfl⟩
  · have chosen : entry.destIndex = invalidPos ∨ entry.destIndex < numTags := here
    unfold placeEntry
    rw [subWord_eq (show 1 ≤ state.prevState by omega), Except.ok_bind, if_pos chosen, modifyAt_eq inside, Except.ok_bind,
      recorded, Except.ok_bind, List.set_eq_modify]
  · constructor
    case length => rw [List.length_set, placing.length]
    case level =>
        have := placing.level
        simp only [List.length_append, List.length_singleton]
        omega
    case served => exact placing.served
    case bases => exact placing.bases
    case below =>
        have := placing.below
        simp only
        omega
    case earlier =>
        intro pos old
        have differs : state.prevState - 1 ≠ pos := by omega
        rw [List.getElem?_set_ne differs, placing.earlier pos old]
    case filled =>
        intro pos within above
        simp only at above
        rcases Nat.eq_or_lt_of_le above with same | later
        · exact ⟨entry.destIndex, by simp [same]⟩
        · obtain ⟨dest, member⟩ := placing.filled pos within (by omega)
          exact ⟨dest, List.mem_append_left _ member⟩
    case cells =>
        intro dest pos member
        rcases List.mem_append.mp member with old | new
        · obtain ⟨above, cell, found, rest⟩ := placing.cells dest pos old
          have differs : state.prevState - 1 ≠ pos := by omega
          refine ⟨Nat.le_trans (Nat.sub_le _ _) above, cell, ?_, rest⟩
          rw [List.getElem?_set_ne differs, found]
        · obtain ⟨rfl, rfl⟩ := Prod.mk.inj (List.mem_singleton.mp new)
          refine ⟨Nat.le_refl _, _, List.getElem?_set_self inside, fun _ => ⟨rfl, rfl⟩, ?_⟩
          exact fun noop => absurd here noop
    case sources =>
        intro pos cell above found
        have key : numTags + (noops - (pos - before.length) / 64) ≠ entry.destIndex := by
          intro same
          rw [← same] at here
          exact not_regular_noop fits (Nat.sub_le _ _) here
        rw [lookup_append_single, if_neg key, Option.or_none]
        by_cases same : state.prevState - 1 = pos
        · subst same
          rw [List.getElem?_set_self inside] at found
          cases found
          have := placing.below
          have := placing.served
          rw [placing.lookup_none regular fits (Nat.sub_le _ _) (by omega)]
          rfl
        · rw [List.getElem?_set_ne same] at found
          exact placing.sources pos cell above found
    case balance =>
        have moved : (popped.map Prod.fst ++ [entry.destIndex] ++
              queue.map PriorityQueueEntry.destIndex).Perm
            (popped.map Prod.fst ++ state.queue.map PriorityQueueEntry.destIndex) := by
          rw [List.append_assoc]
          exact (taken.map PriorityQueueEntry.destIndex).append_left _
        simp only [List.map_append, List.map_cons, List.map_nil]
        exact moved.trans placing.balance
    case noted =>
        have single : placedOf numTags [(entry.destIndex, state.prevState - 1)] =
            [(entry.destIndex, state.prevState - 1)] := by
          simp [placedOf, here]
        rw [placedOf_append, noteAll_append, single, ← placing.noted]
        rfl
    case tagsLength => exact kept

theorem setCanonicalSource_get {stateMachine : List StateInfo} {base source pos : Nat} :
    (setCanonicalSource stateMachine base source)[pos]? =
      stateMachine[pos]?.map fun cell =>
        if base ≤ pos ∧ pos ≤ base + maxTransition then { cell with canonicalSource := source }
        else cell := by
  unfold setCanonicalSource
  rw [List.getElem?_mapIdx]

/-- Marking a block changes canonical sources only. -/
theorem setCanonicalSource_cell {stateMachine : List StateInfo} {base source pos : Nat}
    {cell : StateInfo} (found : stateMachine[pos]? = some cell) :
    ∃ marked, (setCanonicalSource stateMachine base source)[pos]? = some marked ∧
      marked.etagIndex = cell.etagIndex ∧ marked.base = cell.base := by
  rw [setCanonicalSource_get, found, Option.map_some]
  refine ⟨_, rfl, ?_⟩
  split <;> exact ⟨rfl, rfl⟩

/-- Placing the NoOp that leads to a block written before. -/
theorem Placing.place_noop
    (placing : Placing note before numTags noops size wanted start popped state)
    (regular : ∀ dest ∈ wanted, Regular numTags dest) (fits : numTags + noops < invalidPos)
    (room : before.length < state.prevState) (small : size ≤ 64 * (noops + 1))
    {entry : PriorityQueueEntry} {queue : List PriorityQueueEntry}
    (taken : (entry :: queue).Perm state.queue) {index : Nat}
    (inside : index < state.noopBase.length) (here : entry.destIndex = numTags + index) :
    ∃ after, placeEntry record numTags entry { state with queue := queue } = .ok after ∧
      Placing note before numTags noops size wanted start
        (popped ++ [(entry.destIndex, state.prevState - 1)]) after ∧
      after.queue = queue ∧ after.noopBase = state.noopBase ∧
      after.prevState = state.prevState - 1 := by
  have served := placing.served
  have notRegular : ¬ Regular numTags entry.destIndex := by
    rw [here]
    exact not_regular_noop fits (by omega)
  have within : state.prevState - 1 < state.stateMachine.length := by
    have length := placing.length
    have level := placing.level
    omega
  have block := placing.bases index inside
  have under : state.prevState ≤ before.length + 64 * (noops - index) := by
    have below := placing.below
    omega
  -- the NoOp has not been placed, since it is still in the queue
  have unplaced : popped.lookup (numTags + index) = none := by
    rw [List.lookup_eq_none_iff]
    intro found member
    rw [bne_iff_ne]
    intro same
    have twice : 2 ≤ (popped.map Prod.fst ++
        state.queue.map PriorityQueueEntry.destIndex).count (numTags + index) := by
      have first : 1 ≤ (popped.map Prod.fst).count (numTags + index) :=
        List.count_pos_iff.mpr (same ▸ List.mem_map_of_mem member)
      have second : 1 ≤ (state.queue.map PriorityQueueEntry.destIndex).count (numTags + index) := by
        have inQueue : entry ∈ state.queue := taken.mem_iff.mp List.mem_cons_self
        exact List.count_pos_iff.mpr (here ▸ List.mem_map_of_mem inQueue)
      rw [List.count_append]
      omega
    rw [placing.balance.count_eq, List.count_append] at twice
    have none : wanted.count (numTags + index) = 0 := by
      rw [List.count_eq_zero]
      intro old
      exact notRegular (here ▸ regular _ old)
    have once : ((List.range state.noopBase.length).map (numTags + ·)).count (numTags + index)
        ≤ 1 := by
      apply List.nodup_iff_count_le_one.mp
      exact List.Nodup.map (fun _ _ same => Nat.add_left_cancel same) List.nodup_range
    omega
  refine ⟨{ stateMachine :=
              setCanonicalSource
                (state.stateMachine.set (state.prevState - 1)
                  (StateInfo.new invalidPos (before.length + 64 * (noops - index))))
                (before.length + 64 * (noops - index)) (state.prevState - 1)
            prevState := state.prevState - 1
            queue := queue
            noopBase := state.noopBase
            targets := state.targets },
    ?_, ?_, rfl, rfl, rfl⟩
  · have chosen : ¬ (entry.destIndex = invalidPos ∨ entry.destIndex < numTags) := notRegular
    have number : entry.destIndex - numTags = index := by omega
    unfold placeEntry
    rw [subWord_eq (show 1 ≤ state.prevState by omega), Except.ok_bind, if_neg chosen, number,
      indexAt_eq_ok.mpr block, Except.ok_bind, modifyAt_eq within, Except.ok_bind,
      List.set_eq_modify]
  · constructor
    case length =>
        unfold setCanonicalSource
        rw [List.length_mapIdx, List.length_set, placing.length]
    case level =>
        have level := placing.level
        simp only [List.length_append, List.length_singleton]
        omega
    case served => exact served
    case bases => exact placing.bases
    case below =>
        have below := placing.below
        simp only
        omega
    case earlier =>
        intro pos old
        have differs : state.prevState - 1 ≠ pos := by omega
        have outside : ¬ (before.length + 64 * (noops - index) ≤ pos ∧
            pos ≤ before.length + 64 * (noops - index) + maxTransition) := by omega
        rw [setCanonicalSource_get, List.getElem?_set_ne differs, placing.earlier pos old]
        simp only [if_neg outside, Option.map_id']
    case filled =>
        intro pos within above
        simp only at above
        rcases Nat.eq_or_lt_of_le above with same | later
        · exact ⟨entry.destIndex, by simp [same]⟩
        · obtain ⟨dest, member⟩ := placing.filled pos within (by omega)
          exact ⟨dest, List.mem_append_left _ member⟩
    case cells =>
        intro dest pos member
        rcases List.mem_append.mp member with old | new
        · obtain ⟨above, cell, found, isRegular, isNoop⟩ := placing.cells dest pos old
          have differs : state.prevState - 1 ≠ pos := by omega
          obtain ⟨marked, found', tag, base⟩ := @setCanonicalSource_cell _
            (before.length + 64 * (noops - index)) (state.prevState - 1) pos cell
            (show (state.stateMachine.set (state.prevState - 1)
              (StateInfo.new invalidPos (before.length + 64 * (noops - index))))[pos]? = _ by
                rw [List.getElem?_set_ne differs, found])
          refine ⟨Nat.le_trans (Nat.sub_le _ _) above, marked, found', ?_, ?_⟩
          · rw [tag, base]
            exact isRegular
          · unfold StateInfo.IsNoop at isNoop ⊢
            rw [tag, base]
            exact isNoop
        · obtain ⟨rfl, rfl⟩ := Prod.mk.inj (List.mem_singleton.mp new)
          obtain ⟨marked, found', tag, base⟩ := @setCanonicalSource_cell _
            (before.length + 64 * (noops - index)) (state.prevState - 1) (state.prevState - 1) _
            (List.getElem?_set_self within)
          refine ⟨Nat.le_refl _, marked, found', fun isRegular => absurd isRegular notRegular, ?_⟩
          intro _
          have number : entry.destIndex - numTags = index := by omega
          rw [number]
          refine ⟨tag, base, ?_⟩
          rw [base]
          simp only [StateInfo.new]
          omega
    case sources =>
        intro pos cell above found
        rw [setCanonicalSource_get] at found
        have reach : pos < before.length + size := by
          by_contra beyond
          rw [List.getElem?_eq_none (by rw [List.length_set, placing.length]; omega)] at found
          cases found
        have covered : before.length + 64 * (noops - index) ≤ pos ∧
            pos ≤ before.length + 64 * (noops - index) + maxTransition ↔
            noops - (pos - before.length) / 64 = index := by
          unfold maxTransition
          omega
        rw [lookup_append_single]
        by_cases mine : noops - (pos - before.length) / 64 = index
        · rw [mine, unplaced, if_pos here.symm]
          have marked := covered.mpr mine
          simp only [if_pos marked] at found
          obtain ⟨_, _, rfl⟩ := Option.map_eq_some_iff.mp found
          rfl
        · have key : numTags + (noops - (pos - before.length) / 64) ≠ entry.destIndex := by omega
          have unmarked := fun marked => mine (covered.mp marked)
          rw [if_neg key, Option.or_none]
          simp only [if_neg unmarked, Option.map_id'] at found
          by_cases same : state.prevState - 1 = pos
          · subst same
            rw [List.getElem?_set_self within] at found
            cases found
            have below := placing.below
            rw [placing.lookup_none regular fits (Nat.sub_le _ _) (by omega)]
            rfl
          · rw [List.getElem?_set_ne same] at found
            exact placing.sources pos cell above found
    case balance =>
        have moved : (popped.map Prod.fst ++ [entry.destIndex] ++
              queue.map PriorityQueueEntry.destIndex).Perm
            (popped.map Prod.fst ++ state.queue.map PriorityQueueEntry.destIndex) := by
          rw [List.append_assoc]
          exact (taken.map PriorityQueueEntry.destIndex).append_left _
        simp only [List.map_append, List.map_cons, List.map_nil]
        exact moved.trans placing.balance
    case noted =>
        have none : placedOf numTags [(entry.destIndex, state.prevState - 1)] = [] := by
          simp [placedOf, notRegular]
        rw [placedOf_append, none, List.append_nil]
        exact placing.noted
    case tagsLength => exact placing.tagsLength

/-- The states of one block. -/
theorem placeBlock_places (regular : ∀ dest ∈ wanted, Regular numTags dest)
    (fits : numTags + noops < invalidPos) (notes : Notes record note numTags wanted)
    (small : size ≤ 64 * (noops + 1)) {count : Nat} :
    ∀ {popped : List (Nat × Nat)} {state : ListState} {weight : Nat},
      Placing note before numTags noops size wanted start popped state →
      before.length + count ≤ state.prevState → count ≤ state.queue.length →
      ∃ after weight' popped',
        placeBlock record numTags count state weight = .ok (after, weight') ∧
        Placing note before numTags noops size wanted start popped' after ∧
        after.queue.length + count = state.queue.length ∧ after.noopBase = state.noopBase ∧
        after.prevState + count = state.prevState := by
  induction count with
  | zero =>
      intro popped state weight placing _ _
      exact ⟨state, weight, popped, rfl, placing, rfl, rfl, rfl⟩
  | succ count ih =>
      intro popped state weight placing room enough
      obtain ⟨entry, queue, pop, taken⟩ := popMax_some (show 0 < state.queue.length by omega)
      have member : entry.destIndex ∈
          popped.map Prod.fst ++ state.queue.map PriorityQueueEntry.destIndex :=
        List.mem_append_right _ (List.mem_map_of_mem (taken.mem_iff.mp List.mem_cons_self))
      have placed : ∃ after,
          placeEntry record numTags entry { state with queue := queue } = .ok after ∧
          Placing note before numTags noops size wanted start
            (popped ++ [(entry.destIndex, state.prevState - 1)]) after ∧
          after.queue = queue ∧ after.noopBase = state.noopBase ∧
          after.prevState = state.prevState - 1 := by
        rcases placing.origin member with old | ⟨index, inside, here⟩
        · exact placing.place_regular regular fits (by omega) notes taken (regular _ old) old
        · exact placing.place_noop regular fits (by omega) small taken inside here
      obtain ⟨next, ran, placing', kept, same, lower⟩ := placed
      have fewer := taken.length_eq
      rw [List.length_cons] at fewer
      obtain ⟨after, weight', popped', ran', placing'', left, same', lower'⟩ :=
        @ih _ next (weight + entry.numTransitions) placing' (by omega) (by rw [kept]; omega)
      refine ⟨after, weight', popped', ?_, placing'', ?_, same'.trans same, by omega⟩
      · rw [placeBlock, pop]
        simp only
        rw [ran, Except.ok_bind, ran']
      · rw [kept] at left
        omega

/-- The NoOp for the block just written is added to the queue. -/
theorem Placing.serve (placing : Placing note before numTags noops size wanted start popped state)
    (more : state.noopBase.length < noops)
    (reached : state.prevState = before.length + 64 * (noops - state.noopBase.length))
    (weight : Nat) :
    Placing note before numTags noops size wanted start popped
      { state with
        queue :=
          { destIndex := numTags + state.noopBase.length, numTransitions := weight } ::
            state.queue
        noopBase := state.noopBase ++ [state.prevState] } := by
  constructor
  case length => exact placing.length
  case level => exact placing.level
  case served =>
      rw [List.length_append, List.length_singleton]
      exact more
  case bases =>
      intro index inside
      simp only [List.length_append, List.length_singleton] at inside
      by_cases old : index < state.noopBase.length
      · rw [List.getElem?_append_left old]
        exact placing.bases index old
      · obtain rfl : index = state.noopBase.length := by omega
        rw [List.getElem?_append_right (Nat.le_refl _), Nat.sub_self, reached]
        rfl
  case below =>
      rw [List.length_append, List.length_singleton]
      simp only
      omega
  case earlier => exact placing.earlier
  case filled => exact placing.filled
  case cells => exact placing.cells
  case sources => exact placing.sources
  case balance =>
      rw [List.length_append, List.length_singleton, List.range_succ, List.map_append,
        List.map_cons, List.map_cons, List.map_nil, ← List.append_assoc]
      exact List.perm_middle.trans
        ((placing.balance.cons _).trans (List.perm_append_singleton _ _).symm)
  case noted => exact placing.noted
  case tagsLength => exact placing.tagsLength

/-- All blocks of a list. -/
theorem placeBlocks_places (regular : ∀ dest ∈ wanted, Regular numTags dest)
    (fits : numTags + noops < invalidPos) (notes : Notes record note numTags wanted)
    (small : size ≤ 64 * (noops + 1)) {fuel : Nat} :
    ∀ {blockSize : Nat} {popped : List (Nat × Nat)} {state : ListState},
      Placing note before numTags noops size wanted start popped state →
      state.prevState = before.length + blockSize + 64 * (noops - state.noopBase.length) →
      state.queue.length = blockSize + 63 * (noops - state.noopBase.length) →
      noops - state.noopBase.length < fuel →
      ∃ after popped', placeBlocks record numTags fuel blockSize state = .ok after ∧
        Placing note before numTags noops size wanted start popped' after ∧
        after.queue = [] ∧ after.noopBase.length = noops ∧ after.prevState = before.length := by
  induction fuel with
  | zero => intro _ _ _ _ _ _ none; omega
  | succ fuel ih =>
      intro blockSize popped state placing level waiting enough
      obtain ⟨middle, weight, popped', ran, placing', left, same, lower⟩ :=
        @placeBlock_places record note before numTags noops size wanted start regular fits notes
          small blockSize popped state 0 placing (by omega) (by omega)
      have served := placing'.served
      rw [placeBlocks, ran, Except.ok_bind]
      simp only
      by_cases ended : noops - state.noopBase.length = 0
      · have empty : middle.queue = [] := List.length_eq_zero_iff.mp (by omega)
        rw [empty, List.isEmpty_nil, if_pos rfl]
        rw [same] at served
        exact ⟨middle, popped', rfl, placing', empty, by rw [same]; omega, by omega⟩
      · have more : middle.queue.isEmpty = false := by
          rw [List.isEmpty_eq_false_iff]
          intro empty
          rw [empty, List.length_nil] at left
          omega
        rw [more, if_neg Bool.false_ne_true]
        have reached : middle.prevState =
            before.length + 64 * (noops - middle.noopBase.length) := by
          rw [same]
          omega
        have served' := placing'.serve (by rw [same]; omega) reached weight
        refine ih served' ?_ ?_ ?_
        · simp only [List.length_append, List.length_singleton, maxTransition]
          rw [same] at reached ⊢
          omega
        · simp only [List.length_append, List.length_nil, List.length_cons, maxTransition]
          rw [same]
          omega
        · simp only [List.length_append, List.length_singleton]
          rw [same]
          omega

end Placing

/-! ## The finished list -/

/-- From `start` on, the states come in blocks of 64.  All states of a block
but the first have the same canonical source, an earlier NoOp that leads to the
block. -/
structure Blocks (stateMachine : List StateInfo) (start : Nat) (source : Nat → Nat) : Prop where
  first : ∀ pos cell, start ≤ pos → pos < start + 64 → stateMachine[pos]? = some cell →
    cell.canonicalSource = invalidPos
  later : ∀ block pos cell, 0 < block → start + 64 * block ≤ pos →
    pos < start + 64 * (block + 1) → stateMachine[pos]? = some cell →
    cell.canonicalSource = source block
  served : ∀ block, 0 < block → start + 64 * block < stateMachine.length →
    start ≤ source block ∧ source block < start + 64 * block ∧
      ∃ noop, stateMachine[source block]? = some noop ∧ noop.IsNoop ∧
        noop.base = start + 64 * block

/-- The NoOps inside a list of so many wanted states. -/
def innerNoops (count : Nat) : Nat :=
  if count ≤ maxTransition + 1 then 0 else (count - 2) / maxTransition

/-- `after` is `before` with a list of the wanted states appended, the entries
`placed` saying where each one stands. -/
structure Listed (before after : List StateInfo) (wanted : List Nat) (placed : List (Nat × Nat)) :
    Prop where
  grows : before <+: after
  size : after.length = before.length + wanted.length + innerNoops wanted.length
  perm : (placed.map Prod.fst).Perm wanted
  stands : ∀ dest pos, (dest, pos) ∈ placed → before.length ≤ pos ∧
    ∃ cell, after[pos]? = some cell ∧ cell.etagIndex = dest ∧ cell.base = invalidPos
  only : ∀ pos cell, before.length ≤ pos → after[pos]? = some cell →
    (cell.etagIndex, pos) ∈ placed ∨ cell.IsNoop ∧ cell.base < after.length
  blocks : ∃ source, Blocks after before.length source

section Placing

variable {note : Nat → Nat → ListTargets → ListTargets} {before : List StateInfo}
  {numTags noops size : Nat} {wanted : List Nat} {start : ListTargets}
  {popped : List (Nat × Nat)} {state : ListState}

/-- A finished placing leads to every block. -/
theorem Placing.blocks (placing : Placing note before numTags noops size wanted start popped state)
    (regular : ∀ dest ∈ wanted, Regular numTags dest) (fits : numTags + noops < invalidPos)
    (small : size ≤ 64 * (noops + 1)) (empty : state.queue = [])
    (all : state.noopBase.length = noops) (reached : state.prevState = before.length) :
    Blocks state.stateMachine before.length fun block =>
      (popped.lookup (numTags + (noops - block))).getD invalidPos := by
  constructor
  case first =>
      intro pos cell above under found
      rw [placing.sources pos cell above found, show (pos - before.length) / 64 = 0 by omega,
        Nat.sub_zero, placing.lookup_none regular fits (Nat.le_refl _) (by omega)]
      rfl
  case later =>
      intro block pos cell positive above under found
      rw [placing.sources pos cell (by omega) found,
        show (pos - before.length) / 64 = block by omega]
  case served =>
      intro block positive inside
      rw [placing.length] at inside
      have member : numTags + (noops - block) ∈ popped.map Prod.fst := by
        have both := placing.balance.mem_iff (a := numTags + (noops - block))
        rw [empty, List.map_nil, List.append_nil] at both
        refine both.mpr (List.mem_append_right _ (List.mem_map_of_mem ?_))
        rw [List.mem_range]
        omega
      obtain ⟨place, found⟩ : ∃ place, popped.lookup (numTags + (noops - block)) = some place := by
        cases looked : popped.lookup (numTags + (noops - block)) with
        | some place => exact ⟨place, rfl⟩
        | none =>
            obtain ⟨entry, isEntry, same⟩ := List.mem_map.mp member
            have differs := List.lookup_eq_none_iff.mp looked entry isEntry
            rw [same] at differs
            simp at differs
      have listed : (numTags + (noops - block), place) ∈ popped := by
        obtain ⟨first, last, rfl, _⟩ := List.lookup_eq_some_iff.mp found
        exact List.mem_append_right _ List.mem_cons_self
      obtain ⟨above, cell, there, _, noop⟩ := placing.cells _ _ listed
      obtain ⟨isNoop, base, under⟩ := noop (not_regular_noop fits (Nat.sub_le _ _))
      have number : noops - (numTags + (noops - block) - numTags) = block := by omega
      rw [number] at base
      rw [base] at under
      rw [found, Option.getD_some]
      exact ⟨by omega, under, cell, there, isNoop, base⟩

end Placing

/-- `placeList` appends a list of the wanted states. -/
theorem placeList_lists {record : Nat → Nat → ListTargets → Rust ListTargets}
    {note : Nat → Nat → ListTargets → ListTargets} {numTags : Nat}
    {queue : List PriorityQueueEntry} {before : List StateInfo} {targets : ListTargets}
    (regular : ∀ entry ∈ queue, Regular numTags entry.destIndex)
    (notes : Notes record note numTags (queue.map PriorityQueueEntry.destIndex))
    (tagsLength : targets.tags.length = numTags) (filled : queue ≠ [])
    (fits : numTags + queue.length < invalidPos) :
    ∃ after placed,
      placeList record numTags queue before targets = .ok (after, noteAll note placed targets) ∧
      Listed before after (queue.map PriorityQueueEntry.destIndex) placed := by
  have positive : 0 < queue.length := List.length_pos_of_ne_nil filled
  have few : innerNoops queue.length ≤ queue.length := by
    unfold innerNoops maxTransition
    split <;> omega
  have shape : queue.length + innerNoops queue.length =
      (queue.length + innerNoops queue.length - 1) % 64 + 1 + 64 * innerNoops queue.length := by
    unfold innerNoops maxTransition
    split <;> omega
  have regular' : ∀ dest ∈ queue.map PriorityQueueEntry.destIndex, Regular numTags dest := by
    intro dest member
    obtain ⟨entry, isEntry, rfl⟩ := List.mem_map.mp member
    exact regular entry isEntry
  have initial : Placing note before numTags (innerNoops queue.length)
      (queue.length + innerNoops queue.length) (queue.map PriorityQueueEntry.destIndex) targets []
      { stateMachine := before ++ List.replicate (queue.length + innerNoops queue.length)
          (StateInfo.new invalidPos invalidPos)
        prevState := before.length + (queue.length + innerNoops queue.length)
        queue := queue
        noopBase := []
        targets := targets } := by
    constructor
    case length => rw [List.length_append, List.length_replicate]
    case level => rfl
    case served => exact Nat.zero_le _
    case bases => exact fun index inside => absurd inside (Nat.not_lt_zero _)
    case below =>
        simp only [List.length_nil]
        omega
    case earlier => exact fun pos old => List.getElem?_append_left old
    case filled =>
        intro pos inside above
        simp only at above
        omega
    case cells => exact fun _ _ member => absurd member List.not_mem_nil
    case sources =>
        intro pos cell above found
        rw [List.getElem?_append_right above] at found
        rw [List.eq_of_mem_replicate (List.mem_of_getElem? found)]
        rfl
    case balance =>
        rw [List.map_nil, List.nil_append, List.length_nil, List.range_zero, List.map_nil,
          List.append_nil]
    case noted => rfl
    case tagsLength => exact tagsLength
  obtain ⟨final, popped, ran, placing, empty, all, reached⟩ :=
    @placeBlocks_places record note before numTags (innerNoops queue.length)
      (queue.length + innerNoops queue.length) (queue.map PriorityQueueEntry.destIndex) targets
      regular' (by omega) notes (by omega) (queue.length + 1)
      ((queue.length + innerNoops queue.length - 1) % 64 + 1) [] _ initial
      (by simp only [List.length_nil]; omega) (by simp only [List.length_nil]; omega)
      (by simp only [List.length_nil]; omega)
  refine ⟨final.stateMachine, placedOf numTags popped, ?_, ?_⟩
  · unfold placeList
    have same : (if queue.length ≤ maxTransition + 1 then 0
        else (queue.length - 2) / maxTransition) = innerNoops queue.length := rfl
    simp only [same]
    rw [show maxTransition + 1 = 64 from rfl, ran, Except.ok_bind, placing.noted]
  · constructor
    case grows =>
        refine List.prefix_iff_getElem?.mpr fun pos old => ?_
        rw [placing.earlier pos old]
        exact List.getElem?_eq_getElem old
    case size =>
        rw [placing.length, List.length_map]
        omega
    case perm =>
        have balance := placing.balance
        rw [empty, List.map_nil, List.append_nil] at balance
        have kept := balance.filter fun dest => decide (Regular numTags dest)
        have old : (queue.map PriorityQueueEntry.destIndex).filter
            (fun dest => decide (Regular numTags dest)) =
              queue.map PriorityQueueEntry.destIndex :=
          List.filter_eq_self.mpr fun dest member => decide_eq_true (regular' dest member)
        have new : ((List.range final.noopBase.length).map (numTags + ·)).filter
            (fun dest => decide (Regular numTags dest)) = [] := by
          refine List.filter_eq_nil_iff.mpr fun dest member => ?_
          obtain ⟨index, inside, rfl⟩ := List.mem_map.mp member
          rw [List.mem_range, all] at inside
          rw [decide_eq_true_eq]
          exact not_regular_noop (show numTags + innerNoops queue.length < invalidPos by omega)
            inside.le
        rw [List.filter_append, old, new, List.append_nil, List.filter_map] at kept
        exact kept
    case stands =>
        intro dest pos member
        obtain ⟨isPopped, isRegular⟩ := List.mem_filter.mp member
        obtain ⟨above, cell, found, regularCell, _⟩ := placing.cells dest pos isPopped
        rw [reached] at above
        exact ⟨above, cell, found, regularCell (of_decide_eq_true isRegular)⟩
    case only =>
        intro pos cell above found
        have inside := (List.getElem?_eq_some_iff.mp found).1
        rw [placing.length] at inside
        obtain ⟨dest, member⟩ := placing.filled pos inside (by omega)
        obtain ⟨_, cell', found', regularCell, noopCell⟩ := placing.cells dest pos member
        obtain rfl : cell = cell' := Option.some.inj (found.symm.trans found')
        by_cases isRegular : Regular numTags dest
        · left
          rw [(regularCell isRegular).1]
          exact List.mem_filter.mpr ⟨member, decide_eq_true isRegular⟩
        · right
          obtain ⟨isNoop, base, _⟩ := noopCell isRegular
          refine ⟨isNoop, ?_⟩
          rw [base, placing.length]
          omega
    case blocks =>
        exact ⟨_, placing.blocks regular' (by omega) (by omega) empty all reached⟩

/-- Nothing is wanted, nothing is appended. -/
theorem Listed.nil (before : List StateInfo) : Listed before before [] [] := by
  have outside : ∀ pos cell, before.length ≤ pos → before[pos]? ≠ some cell := by
    intro pos cell above found
    have inside := (List.getElem?_eq_some_iff.mp found).1
    omega
  refine ⟨List.prefix_refl _, rfl, List.Perm.refl _, fun _ _ member => absurd member
    List.not_mem_nil, fun pos cell above found => absurd found (outside pos cell above),
    fun _ => 0, ?_, ?_, fun block _ inside => ?_⟩
  · exact fun pos cell above _ found => absurd found (outside pos cell above)
  · exact fun block pos cell _ above _ found => absurd found (outside pos cell (by omega))
  · omega

/-! ## Reaching the states of a list -/

theorem prefix_get {Item : Type} {first second : List Item} (grows : first <+: second) {pos : Nat}
    {item : Item} (found : first[pos]? = some item) : second[pos]? = some item := by
  obtain ⟨inside, rfl⟩ := List.getElem?_eq_some_iff.mp found
  exact List.prefix_iff_getElem?.mp grows pos inside

theorem Ancestor.grow {first second : List StateInfo} (grows : first <+: second)
    {ancestor pos : Nat} (above : Ancestor first ancestor pos) : Ancestor second ancestor pos := by
  induction above with
  | refl => exact .refl _
  | step found served _ ih => exact .step (prefix_get grows found) served ih

theorem Reaches.grow {first second : List StateInfo} (grows : first <+: second) {base pos : Nat}
    (reaches : Reaches first base pos) : Reaches second base pos := by
  obtain ⟨ancestor, above, low, high⟩ := reaches
  exact ⟨ancestor, above.grow grows, low, high⟩

section Blocks

variable {stateMachine : List StateInfo} {start : Nat} {source : Nat → Nat}

/-- The canonical source of a state behind the first block. -/
theorem Blocks.served_by (blocks : Blocks stateMachine start source) {pos : Nat} {cell : StateInfo}
    (above : start + 64 ≤ pos) (found : stateMachine[pos]? = some cell) :
    cell.canonicalSource = source ((pos - start) / 64) ∧
      start ≤ source ((pos - start) / 64) ∧
      source ((pos - start) / 64) < start + 64 * ((pos - start) / 64) ∧
      ∃ noop, stateMachine[source ((pos - start) / 64)]? = some noop ∧ noop.IsNoop ∧
        noop.base = start + 64 * ((pos - start) / 64) := by
  have inside := (List.getElem?_eq_some_iff.mp found).1
  have positive : 0 < (pos - start) / 64 := by omega
  exact ⟨blocks.later _ pos cell positive (by omega) (by omega) found,
    blocks.served _ positive (by omega)⟩

/-- From the start of a list every state of it is reached. -/
theorem Blocks.reaches (blocks : Blocks stateMachine start source)
    (fits : stateMachine.length ≤ invalidPos) {pos : Nat} (above : start ≤ pos)
    (inside : pos < stateMachine.length) : Reaches stateMachine start pos := by
  induction pos using Nat.strongRecOn with
  | ind pos ih =>
      by_cases near : pos < start + 64
      · exact ⟨pos, .refl pos, above, by unfold maxTransition; omega⟩
      · obtain ⟨cell, found⟩ : ∃ cell, stateMachine[pos]? = some cell :=
          ⟨_, List.getElem?_eq_getElem inside⟩
        obtain ⟨same, low, under, noop, there, _, _⟩ := blocks.served_by (by omega) found
        have inside' := (List.getElem?_eq_some_iff.mp there).1
        obtain ⟨ancestor, reached, near', far⟩ := ih _ (by omega) low inside'
        refine ⟨ancestor, .step found ?_ ?_, near', far⟩
        · omega
        · rw [same]
          exact reached

/-- The canonical sources of a list lead to its states. -/
theorem Blocks.chained {before : List StateInfo} (blocks : Blocks stateMachine before.length source)
    (grows : before <+: stateMachine) (chained : Chained before) : Chained stateMachine := by
  intro pos cell found served
  by_cases old : pos < before.length
  · have known := prefix_get grows (List.getElem?_eq_getElem old)
    obtain rfl := Option.some.inj (found.symm.trans known)
    obtain ⟨earlier, noop, there, rest⟩ := chained pos _ (List.getElem?_eq_getElem old) served
    exact ⟨earlier, noop, prefix_get grows there, rest⟩
  · by_cases near : pos < before.length + 64
    · exact absurd (blocks.first pos cell (by omega) near found) served
    · obtain ⟨same, low, under, noop, there, isNoop, base⟩ := blocks.served_by (by omega) found
      rw [same]
      refine ⟨by omega, noop, there, isNoop, ?_, ?_⟩
      · omega
      · unfold maxTransition
        omega

end Blocks

end Riegeli
