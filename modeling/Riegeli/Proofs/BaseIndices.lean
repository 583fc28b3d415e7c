/-
Module: Riegeli.Proofs.BaseIndices
Purpose: The base index found for a tag has a common ancestor block of all its
  public destinations within reach.
Trusted boundary: none
Main exports: Searching, reachLoop_reaches, findOptimalBase_reaches,
  computeNoopBases_reach, computeTagBases_reach
-/
import Riegeli.Proofs.PublicList

namespace Riegeli

variable {stateMachine : List StateInfo} {start : Nat} {source : Nat → Nat}

/-! ## Blocks -/

/-- The beginning of the block of a position. -/
def blockBase (start pos : Nat) : Nat := start + 64 * ((pos - start) / 64)

theorem blockBase_bounds {pos : Nat} (above : start ≤ pos) :
    start ≤ blockBase start pos ∧ blockBase start pos ≤ pos ∧ pos < blockBase start pos + 64 := by
  unfold blockBase
  omega

/-- A position within a block has its beginning. -/
theorem blockBase_eq {base pos : Nat} (low : blockBase start base ≤ pos)
    (high : pos < blockBase start base + 64) : blockBase start pos = blockBase start base := by
  unfold blockBase at *
  omega

/-- What the canonical source of a state says: none in the first block, else an
earlier NoOp that leads to the block. -/
theorem Blocks.canonical (blocks : Blocks stateMachine start source)
    (fits : stateMachine.length ≤ invalidPos) {pos : Nat} {cell : StateInfo}
    (above : start ≤ pos) (found : stateMachine[pos]? = some cell) :
    cell.canonicalSource = invalidPos ∧ blockBase start pos = start ∨
      cell.canonicalSource ≠ invalidPos ∧ start ≤ cell.canonicalSource ∧
        cell.canonicalSource < blockBase start pos ∧ start + 64 ≤ pos ∧
        ∃ noop, stateMachine[cell.canonicalSource]? = some noop ∧
          noop.base = blockBase start pos := by
  by_cases near : pos < start + 64
  · left
    refine ⟨blocks.first pos cell above near found, ?_⟩
    unfold blockBase
    omega
  · right
    obtain ⟨same, low, under, noop, there, _, base⟩ := blocks.served_by (by omega) found
    have inside := (List.getElem?_eq_some_iff.mp there).1
    rw [same]
    exact ⟨by omega, low, under, by omega, noop, there, base⟩

/-- All states of a block have one canonical source. -/
theorem Blocks.same_source (blocks : Blocks stateMachine start source) {first second : Nat}
    {cell other : StateInfo} (above : start ≤ first)
    (same : blockBase start second = blockBase start first) (above' : start ≤ second)
    (found : stateMachine[first]? = some cell) (found' : stateMachine[second]? = some other) :
    other.canonicalSource = cell.canonicalSource := by
  unfold blockBase at same
  by_cases near : first < start + 64
  · rw [blocks.first first cell above near found,
      blocks.first second other above' (by omega) found']
  · obtain ⟨source₁, _⟩ := blocks.served_by (by omega) found
    obtain ⟨source₂, _⟩ := blocks.served_by (by omega) found'
    rw [source₁, source₂]
    congr 1
    omega

/-- Going up one step further. -/
theorem Ancestor.up {ancestor pos : Nat} {cell : StateInfo}
    (above : Ancestor stateMachine ancestor pos) (found : stateMachine[ancestor]? = some cell)
    (served : cell.canonicalSource ≠ invalidPos) :
    Ancestor stateMachine cell.canonicalSource pos := by
  induction above with
  | refl => exact .step found served (.refl _)
  | step found' served' _ ih => exact .step found' served' ih

/-! ## The search -/

/-- The search has a block with an ancestor, not below `minPos`, of each
position met. -/
structure Searching (stateMachine : List StateInfo) (start : Nat) (search : BaseSearch)
    (met : List Nat) : Prop where
  block : ∃ pos, start ≤ pos ∧ pos < stateMachine.length ∧ search.base = blockBase start pos
  low : search.base ≤ search.minPos
  high : search.minPos < search.base + 64
  above : ∀ pos ∈ met, ∃ ancestor, Ancestor stateMachine ancestor pos ∧
    search.minPos ≤ ancestor ∧ ancestor < search.base + 64 ∧ ancestor < stateMachine.length

/-- The first destination gives the search its block. -/
theorem reachLoop_first (blocks : Blocks stateMachine start source)
    (fits : stateMachine.length ≤ invalidPos) {pos fuel : Nat} (above : start ≤ pos)
    (inside : pos < stateMachine.length) :
    reachLoop start stateMachine (fuel + 2) { base := invalidPos, minPos := invalidPos } pos =
      .ok ({ base := blockBase start pos, minPos := invalidPos }, pos) := by
  obtain ⟨cell, found⟩ : ∃ cell, stateMachine[pos]? = some cell :=
    ⟨_, List.getElem?_eq_getElem inside⟩
  obtain ⟨_, under, near⟩ := blockBase_bounds above
  have done : ¬ (pos < blockBase start pos ∨ (blockBase start pos ≠ invalidPos ∧
      maxTransition < pos - blockBase start pos)) := by
    unfold maxTransition
    omega
  have last : reachLoop start stateMachine (fuel + 1)
      { base := blockBase start pos, minPos := invalidPos } pos =
        .ok ({ base := blockBase start pos, minPos := invalidPos }, pos) := by
    rw [reachLoop]
    exact if_neg done
  have small : pos < invalidPos := by omega
  rw [reachLoop]
  simp only [small, true_or, if_true]
  rw [indexAt_eq_ok.mpr found, Except.ok_bind]
  rcases blocks.canonical fits above found with ⟨none, base⟩ | ⟨served, _, _, _, noop, there, base⟩
  · rw [if_pos none]
    rw [base] at last ⊢
    exact last
  · rw [if_neg served, indexAt_eq_ok.mpr there, Except.ok_bind, base]
    exact last

/-- The search moves its block up to the one that leads to it. -/
theorem Searching.up (blocks : Blocks stateMachine start source)
    (fits : stateMachine.length ≤ invalidPos) {search : BaseSearch} {met : List Nat}
    {cell : StateInfo} (searching : Searching stateMachine start search met)
    (found : stateMachine[search.base]? = some cell)
    (served : cell.canonicalSource ≠ invalidPos) :
    Searching stateMachine start
      { base := blockBase start cell.canonicalSource
        minPos := min search.minPos cell.canonicalSource } met ∧
      blockBase start cell.canonicalSource < search.base := by
  obtain ⟨pos, above, inside, same⟩ := searching.block
  obtain ⟨first, under, near⟩ := blockBase_bounds above
  have starts : blockBase start search.base = search.base := by
    rw [same]
    exact blockBase_eq (Nat.le_refl _) (by omega)
  have low := searching.low
  rcases blocks.canonical fits (by omega) found with ⟨none, _⟩ |
    ⟨_, reached, earlier, _, noop, there, _⟩
  · exact absurd none served
  · rw [starts] at earlier
    obtain ⟨_, below, within⟩ := blockBase_bounds reached
    refine ⟨⟨⟨cell.canonicalSource, reached, (List.getElem?_eq_some_iff.mp there).1, rfl⟩, ?_, ?_,
      fun other member => ?_⟩, by omega⟩
    · simp only
      omega
    · simp only
      omega
    · obtain ⟨ancestor, up, least, most, small⟩ := searching.above other member
      have begins : blockBase start ancestor = blockBase start pos :=
        blockBase_eq (by omega) (by omega)
      obtain ⟨cell', found'⟩ : ∃ cell', stateMachine[ancestor]? = some cell' :=
        ⟨_, List.getElem?_eq_getElem small⟩
      have shared : cell'.canonicalSource = cell.canonicalSource :=
        blocks.same_source (by omega) (by rw [begins, starts, same]) (by omega) found found'
      have further := up.up found' (by rw [shared]; exact served)
      rw [shared] at further
      refine ⟨cell.canonicalSource, further, Nat.min_le_right _ _, within, ?_⟩
      exact (List.getElem?_eq_some_iff.mp there).1

/-- A step of the loop that moves the base. -/
theorem reachLoop_base (blocks : Blocks stateMachine start source)
    (fits : stateMachine.length ≤ invalidPos) {search : BaseSearch} {met : List Nat} {pos fuel : Nat}
    (searching : Searching stateMachine start search met) (above : start ≤ pos)
    (behind : pos < search.base) :
    ∃ search', reachLoop start stateMachine (fuel + 1) search pos =
        reachLoop start stateMachine fuel search' pos ∧
      Searching stateMachine start search' met ∧ search'.base < search.base := by
  obtain ⟨origin, low, inside, same⟩ := searching.block
  obtain ⟨first, under, near⟩ := @blockBase_bounds start origin low
  have valid : search.base ≠ invalidPos := by omega
  obtain ⟨cell, found⟩ : ∃ cell, stateMachine[search.base]? = some cell :=
    ⟨_, List.getElem?_eq_getElem (by omega)⟩
  have starts : blockBase start search.base = search.base := by
    rw [same]
    exact blockBase_eq (Nat.le_refl _) (by omega)
  rcases blocks.canonical fits (by omega) found with ⟨_, bottom⟩ |
    ⟨served, reached, _, _, noop, there, _⟩
  · omega
  · obtain ⟨searching', lower⟩ := searching.up blocks fits found served
    refine ⟨_, ?_, searching', lower⟩
    rw [reachLoop]
    simp only [behind, true_or, if_true]
    rw [if_neg valid, indexAt_eq_ok.mpr found, Except.ok_bind, if_neg served,
      indexAt_eq_ok.mpr there, Except.ok_bind]
    rcases blocks.canonical fits reached there with ⟨none, base⟩ |
      ⟨served', _, _, _, outer, there', base⟩
    · rw [if_pos none, base]
    · rw [if_neg served', indexAt_eq_ok.mpr there', Except.ok_bind, base]

/-- A step of the loop that moves the position. -/
theorem reachLoop_pos (blocks : Blocks stateMachine start source)
    (fits : stateMachine.length ≤ invalidPos) {search : BaseSearch} {met : List Nat}
    {target pos fuel : Nat} (searching : Searching stateMachine start search met)
    (inside : pos < stateMachine.length) (up : Ancestor stateMachine pos target)
    (beyond : search.base + 64 ≤ pos) :
    ∃ pos', reachLoop start stateMachine (fuel + 1) search pos =
        reachLoop start stateMachine fuel search pos' ∧
      Ancestor stateMachine pos' target ∧ start ≤ pos' ∧ pos' < pos := by
  obtain ⟨origin, low, within, same⟩ := searching.block
  obtain ⟨first, under, near⟩ := @blockBase_bounds start origin low
  obtain ⟨cell, found⟩ : ∃ cell, stateMachine[pos]? = some cell :=
    ⟨_, List.getElem?_eq_getElem inside⟩
  have far : ¬ pos < search.base ∧ (search.base ≠ invalidPos ∧
      maxTransition < pos - search.base) := by
    unfold maxTransition
    omega
  obtain ⟨_, above, _⟩ := @blockBase_bounds start pos (by omega)
  rcases blocks.canonical fits (by omega) found with ⟨_, bottom⟩ | ⟨served, reached, earlier, _⟩
  · unfold blockBase at bottom
    omega
  · refine ⟨cell.canonicalSource, ?_, up.up found served, reached, by omega⟩
    rw [reachLoop]
    rw [if_pos (.inr far.2), if_neg far.1, indexAt_eq_ok.mpr found, Except.ok_bind, if_neg served]

/-- The loop ends with the position within reach of the block. -/
theorem reachLoop_reaches (blocks : Blocks stateMachine start source)
    (fits : stateMachine.length ≤ invalidPos) {met : List Nat} {target fuel : Nat} :
    ∀ {search : BaseSearch} {pos : Nat}, Searching stateMachine start search met →
      start ≤ pos → pos < stateMachine.length → Ancestor stateMachine pos target →
      search.base + pos < fuel →
      ∃ search' pos', reachLoop start stateMachine fuel search pos = .ok (search', pos') ∧
        Searching stateMachine start search' met ∧ Ancestor stateMachine pos' target ∧
        search'.base ≤ pos' ∧ pos' < search'.base + 64 ∧ pos' < stateMachine.length := by
  induction fuel with
  | zero => intro _ _ _ _ _ _ none; omega
  | succ fuel ih =>
      intro search pos searching above inside up enough
      by_cases behind : pos < search.base
      · obtain ⟨search', same, searching', lower⟩ :=
          @reachLoop_base _ _ _ blocks fits search met pos fuel searching above behind
        rw [same]
        exact ih searching' above inside up (by omega)
      · by_cases beyond : search.base + 64 ≤ pos
        · obtain ⟨pos', same, up', above', lower⟩ :=
            @reachLoop_pos _ _ _ blocks fits search met target pos fuel searching inside up beyond
          rw [same]
          exact ih searching above' (by omega) up' (by omega)
        · have done : ¬ (pos < search.base ∨ (search.base ≠ invalidPos ∧
              maxTransition < pos - search.base)) := by
            unfold maxTransition
            omega
          refine ⟨search, pos, ?_, searching, up, by omega, by omega, inside⟩
          rw [reachLoop]
          exact if_neg done

/-- One more destination is met. -/
theorem Searching.meet {search : BaseSearch} {met : List Nat} {pos target : Nat}
    (searching : Searching stateMachine start search met)
    (up : Ancestor stateMachine pos target) (low : search.base ≤ pos)
    (high : pos < search.base + 64) (inside : pos < stateMachine.length) :
    Searching stateMachine start { search with minPos := min search.minPos pos }
      (target :: met) := by
  have least := searching.low
  have most := searching.high
  refine ⟨searching.block, ?_, ?_, List.forall_mem_cons.mpr ⟨?_, fun other member => ?_⟩⟩
  · simp only
    omega
  · simp only
    omega
  · exact ⟨pos, up, Nat.min_le_right _ _, high, inside⟩
  · obtain ⟨ancestor, up', least', most', small⟩ := searching.above other member
    exact ⟨ancestor, up', (Nat.min_le_left _ _).trans least', most', small⟩

/-- The first destination is met. -/
theorem Searching.first {pos : Nat} (above : start ≤ pos) (inside : pos < stateMachine.length) :
    Searching stateMachine start { base := blockBase start pos, minPos := pos } [pos] := by
  obtain ⟨_, low, high⟩ := blockBase_bounds above
  refine ⟨⟨pos, above, inside, rfl⟩, low, high, List.forall_mem_cons.mpr ⟨?_, ?_⟩⟩
  · exact ⟨pos, .refl pos, Nat.le_refl _, high, inside⟩
  · exact List.forall_mem_nil _

theorem Searching.reaches {search : BaseSearch} {met : List Nat}
    (searching : Searching stateMachine start search met) {pos : Nat} (member : pos ∈ met) :
    Reaches stateMachine search.minPos pos := by
  obtain ⟨ancestor, up, least, most, _⟩ := searching.above pos member
  have low := searching.low
  exact ⟨ancestor, up, least, by unfold maxTransition; omega⟩

/-! ## The base of a tag -/

/-- The positions of the public states that a tag leads to. -/
def publicTargets (tags : List EncodedTagInfo) (dests : List (Nat × DestInfo)) : List Nat :=
  dests.filterMap fun entry =>
    if entry.2.pos ≠ invalidPos then none else tags[entry.1]?.map EncodedTagInfo.stateMachinePos

/-- The search before and after its first destination. -/
inductive Searched (stateMachine : List StateInfo) (start : Nat) (search : BaseSearch)
    (met : List Nat) : Prop where
  | fresh : search = { base := invalidPos, minPos := invalidPos } → met = [] →
      Searched stateMachine start search met
  | begun : met ≠ [] → Searching stateMachine start search met →
      (∀ pos, met = [pos] → search.minPos = pos) → Searched stateMachine start search met

/-- The search takes in one more position. -/
theorem Searched.next (blocks : Blocks stateMachine start source)
    (fits : stateMachine.length < invalidPos) {search : BaseSearch} {met : List Nat} {pos : Nat}
    (searched : Searched stateMachine start search met) (above : start ≤ pos)
    (inside : pos < stateMachine.length) :
    ∃ search' pos', reachLoop start stateMachine (2 * stateMachine.length + 2) search pos =
        .ok (search', pos') ∧
      Searched stateMachine start { search' with minPos := min search'.minPos pos' }
        (pos :: met) := by
  cases searched with
  | fresh same none =>
      subst same none
      refine ⟨_, _, reachLoop_first blocks fits.le above inside, ?_⟩
      have least : min invalidPos pos = pos := by omega
      refine .begun (List.cons_ne_nil _ _) ?_ fun other same => ?_
      · simp only [least]
        exact .first above inside
      · simp only [least]
        exact (List.cons.inj same).1
  | begun some searching single =>
      obtain ⟨origin, low, within, same⟩ := searching.block
      obtain ⟨_, under, _⟩ := @blockBase_bounds start origin low
      obtain ⟨search', pos', ran, searching', up, least, most, small⟩ :=
        reachLoop_reaches blocks fits.le searching above inside (.refl pos)
          (show search.base + pos < 2 * stateMachine.length + 2 by omega)
      refine ⟨search', pos', ran, .begun (List.cons_ne_nil _ _) (searching'.meet up least most small)
        fun other same => ?_⟩
      exact absurd (List.cons.inj same).2 some

/-- The loop over the destinations of a tag. -/
theorem findOptimalBaseLoop_searches {tags : List EncodedTagInfo}
    (blocks : Blocks stateMachine start source) (fits : stateMachine.length < invalidPos)
    {dests : List (Nat × DestInfo)} :
    ∀ {search : BaseSearch} {met : List Nat}, Searched stateMachine start search met →
      (∀ entry ∈ dests, entry.2.pos = invalidPos → ∃ target, tags[entry.1]? = some target ∧
        start ≤ target.stateMachinePos ∧ target.stateMachinePos < stateMachine.length) →
      ∃ search', findOptimalBaseLoop start tags stateMachine dests search = .ok search' ∧
        Searched stateMachine start search' ((publicTargets tags dests).reverse ++ met) := by
  induction dests with
  | nil => exact fun searched _ => ⟨_, rfl, searched⟩
  | cons entry rest ih =>
      intro search met searched posted
      obtain ⟨key, dest⟩ := entry
      obtain ⟨here, later⟩ := List.forall_mem_cons.mp posted
      rw [findOptimalBaseLoop]
      by_cases positioned : dest.pos ≠ invalidPos
      · have skipped : publicTargets tags ((key, dest) :: rest) = publicTargets tags rest :=
          List.filterMap_cons_none (if_pos positioned)
        rw [if_pos positioned, skipped]
        exact ih searched later
      · obtain ⟨target, found, above, inside⟩ := here (not_not.mp positioned)
        have valid : target.stateMachinePos ≠ invalidPos := by omega
        obtain ⟨search', pos', ran, searched'⟩ := searched.next blocks fits above inside
        have kept : publicTargets tags ((key, dest) :: rest) =
            target.stateMachinePos :: publicTargets tags rest := by
          refine List.filterMap_cons_some ?_
          rw [if_neg positioned, found]
          rfl
        obtain ⟨search'', ran', searched''⟩ := ih searched' later
        refine ⟨search'', ?_, ?_⟩
        · rw [if_neg positioned, indexAt_eq_ok.mpr found, Except.ok_bind, if_neg valid, ran,
            Except.ok_bind]
          exact ran'
        · rw [kept, List.reverse_cons, List.append_assoc]
          exact searched''

/-- Every loose destination has its state in the public list. -/
def DestsPosted (tags : List EncodedTagInfo) (start size : Nat) (info : EncodedTagInfo) : Prop :=
  ∀ entry ∈ info.destInfo, entry.2.pos = invalidPos → ∃ target, tags[entry.1]? = some target ∧
    start ≤ target.stateMachinePos ∧ target.stateMachinePos < size

/-- A base that reaches all loose destinations of a tag, if it has any. -/
structure BaseFor (stateMachine : List StateInfo) (tags : List EncodedTagInfo)
    (info : EncodedTagInfo) (base : Nat) : Prop where
  none : (∀ entry ∈ info.destInfo, entry.2.pos ≠ invalidPos) → base = invalidPos
  reaches : ∀ entry ∈ info.destInfo, entry.2.pos = invalidPos → ∀ target,
    tags[entry.1]? = some target → base < stateMachine.length ∧
      Reaches stateMachine base target.stateMachinePos ∧
      (info.destInfo.length = 1 → base = target.stateMachinePos)

/-- `find_optimal_base`. -/
theorem findOptimalBase_reaches {tags : List EncodedTagInfo}
    (blocks : Blocks stateMachine start source) (fits : stateMachine.length < invalidPos)
    {tag : Nat} {info : EncodedTagInfo} (found : tags[tag]? = some info)
    (posted : DestsPosted tags start stateMachine.length info) :
    ∃ minPos, findOptimalBase start tags stateMachine tag = .ok minPos ∧
      BaseFor stateMachine tags info minPos := by
  obtain ⟨search, ran, searched⟩ := findOptimalBaseLoop_searches blocks fits
    (.fresh rfl rfl) posted
  rw [List.append_nil] at searched
  refine ⟨search.minPos, ?_, ⟨fun none => ?_, fun entry member free target there => ?_⟩⟩
  · unfold findOptimalBase
    rw [indexAt_eq_ok.mpr found, Except.ok_bind, ran]
    rfl
  · have empty : publicTargets tags info.destInfo = [] :=
      List.filterMap_eq_nil_iff.mpr fun entry member => if_pos (none entry member)
    rw [empty] at searched
    cases searched with
    | fresh same _ => rw [same]
    | begun some _ _ => exact absurd rfl some
  · have met : target.stateMachinePos ∈ publicTargets tags info.destInfo := by
      refine List.mem_filterMap.mpr ⟨entry, member, ?_⟩
      rw [if_neg (not_not.mpr free), there]
      rfl
    cases searched with
    | fresh _ none =>
        rw [List.reverse_eq_nil_iff.mp none] at met
        exact absurd met List.not_mem_nil
    | begun _ searching single =>
        have reaches := searching.reaches (List.mem_reverse.mpr met)
        obtain ⟨origin, low, within, same⟩ := searching.block
        have least := searching.low
        refine ⟨?_, reaches, fun one => ?_⟩
        · obtain ⟨ancestor, _, small, _, inside⟩ :=
            searching.above _ (List.mem_reverse.mpr met)
          omega
        · obtain ⟨only, whole⟩ := List.length_eq_one_iff.mp one
          rw [whole] at member
          obtain rfl := List.mem_singleton.mp member
          refine single _ ?_
          have alone : publicTargets tags info.destInfo = [target.stateMachinePos] := by
            rw [whole]
            unfold publicTargets
            rw [List.filterMap_cons_some (b := target.stateMachinePos), List.filterMap_nil]
            rw [if_neg (not_not.mpr free), there]
            rfl
          rw [alone]
          rfl

/-! ## The NoOps that lead to the public list -/

/-- Some states got a base, nothing else changed. -/
structure Rebased (changed : List Nat) (before after : List StateInfo) : Prop where
  length : after.length = before.length
  kept : ∀ pos cell, before[pos]? = some cell → ∃ cell', after[pos]? = some cell' ∧
    cell'.etagIndex = cell.etagIndex ∧ cell'.canonicalSource = cell.canonicalSource ∧
    (pos ∉ changed → cell' = cell)

section Rebased

variable {changed : List Nat} {before after : List StateInfo}

theorem Rebased.refl (changed : List Nat) (stateMachine : List StateInfo) :
    Rebased changed stateMachine stateMachine :=
  ⟨rfl, fun _ cell found => ⟨cell, found, rfl, rfl, fun _ => rfl⟩⟩

theorem Rebased.trans {more : List Nat} {last : List StateInfo}
    (first : Rebased changed before after) (second : Rebased more after last) :
    Rebased (changed ++ more) before last := by
  refine ⟨second.length.trans first.length, fun pos cell found => ?_⟩
  obtain ⟨cell', found', tag, source, same⟩ := first.kept pos cell found
  obtain ⟨cell'', found'', tag', source', same'⟩ := second.kept pos cell' found'
  refine ⟨cell'', found'', tag'.trans tag, source'.trans source, fun absent => ?_⟩
  rw [List.mem_append, not_or] at absent
  exact (same' absent.2).trans (same absent.1)

theorem Rebased.stands (rebased : Rebased changed before after) {pos tag : Nat}
    (stands : StandsFor before pos tag) : StandsFor after pos tag := by
  obtain ⟨cell, found, same⟩ := stands
  obtain ⟨cell', found', tagged, _⟩ := rebased.kept pos cell found
  exact ⟨cell', found', tagged.trans same⟩

theorem Rebased.ancestor (rebased : Rebased changed before after) {ancestor pos : Nat}
    (above : Ancestor before ancestor pos) : Ancestor after ancestor pos := by
  induction above with
  | refl => exact .refl _
  | step found served _ ih =>
      obtain ⟨cell', found', _, source, _⟩ := rebased.kept _ _ found
      rw [← source] at served ih
      exact .step found' served ih

theorem Rebased.reaches (rebased : Rebased changed before after) {base pos : Nat}
    (reaches : Reaches before base pos) : Reaches after base pos := by
  obtain ⟨ancestor, above, low, high⟩ := reaches
  exact ⟨ancestor, rebased.ancestor above, low, high⟩

theorem Rebased.back (rebased : Rebased changed before after) {pos : Nat} {cell' : StateInfo}
    (found : after[pos]? = some cell') : ∃ cell, before[pos]? = some cell ∧
      cell'.etagIndex = cell.etagIndex ∧ cell'.canonicalSource = cell.canonicalSource ∧
      (pos ∉ changed → cell' = cell) := by
  have inside := (List.getElem?_eq_some_iff.mp found).1
  rw [rebased.length] at inside
  obtain ⟨again, found', rest⟩ := rebased.kept pos _ (List.getElem?_eq_getElem inside)
  obtain rfl := Option.some.inj (found.symm.trans found')
  exact ⟨_, List.getElem?_eq_getElem inside, rest⟩

/-- Blocks behind the changed states stay. -/
theorem Rebased.blocks (rebased : Rebased changed before after)
    (under : ∀ pos ∈ changed, pos < start) (blocks : Blocks before start source) :
    Blocks after start source := by
  have same : ∀ pos cell, start ≤ pos → after[pos]? = some cell → before[pos]? = some cell := by
    intro pos cell above found
    obtain ⟨old, known, _, _, kept⟩ := rebased.back found
    have equal := kept fun member => by
      have small := under pos member
      omega
    rw [equal]
    exact known
  constructor
  case first => exact fun pos cell above near found =>
      blocks.first pos cell above near (same pos cell above found)
  case later => exact fun block pos cell positive above near found =>
      blocks.later block pos cell positive above near (same pos cell (by omega) found)
  case served =>
      intro block positive inside
      rw [rebased.length] at inside
      obtain ⟨low, earlier, noop, there, isNoop, base⟩ := blocks.served block positive inside
      obtain ⟨cell', found', _, _, kept⟩ := rebased.kept _ noop there
      have equal := kept fun member => by
        have small := under _ member
        omega
      rw [equal] at found'
      exact ⟨low, earlier, noop, found', isNoop, base⟩

/-- A NoOp without a base is no canonical source, so it may get one. -/
theorem Rebased.chained (rebased : Rebased changed before after)
    (fits : before.length < invalidPos)
    (unset : ∀ pos ∈ changed, ∃ noop, before[pos]? = some noop ∧ noop.base = invalidPos)
    (chained : Chained before) : Chained after := by
  intro pos cell found served
  obtain ⟨old, known, _, source, _⟩ := rebased.back found
  rw [source] at served ⊢
  obtain ⟨earlier, noop, there, isNoop, low, high⟩ := chained pos old known served
  have inside := (List.getElem?_eq_some_iff.mp known).1
  obtain ⟨cell', found', _, _, kept⟩ := rebased.kept _ noop there
  have equal := kept fun member => by
    obtain ⟨noop', there', base⟩ := unset _ member
    obtain rfl := Option.some.inj (there.symm.trans there')
    omega
  rw [equal] at found'
  exact ⟨earlier, noop, found', isNoop, low, high⟩

end Rebased

/-- Every NoOp that leads to the public list gets a base that reaches the loose
destinations of its tag. -/
theorem computeNoopBases_reach {tags : List EncodedTagInfo} {noops : List (Nat × Nat)} :
    ∀ {stateMachine : List StateInfo}, Blocks stateMachine start source →
      stateMachine.length < invalidPos → (noops.map Prod.snd).Nodup →
      (∀ entry ∈ noops, entry.2 < start ∧ entry.2 < stateMachine.length ∧
        ∃ info, tags[entry.1]? = some info ∧ DestsPosted tags start stateMachine.length info ∧
          ∃ dest ∈ info.destInfo, dest.2.pos = invalidPos) →
      ∃ after, computeNoopBases start tags noops stateMachine = .ok after ∧
        Rebased (noops.map Prod.snd) stateMachine after ∧
        ∀ entry ∈ noops, ∃ info noop, tags[entry.1]? = some info ∧ after[entry.2]? = some noop ∧
          BaseFor after tags info noop.base := by
  induction noops with
  | nil => exact fun _ _ _ _ => ⟨_, rfl, .refl _ _, List.forall_mem_nil _⟩
  | cons entry rest ih =>
      intro stateMachine blocks fits distinct known
      obtain ⟨tag, pos⟩ := entry
      obtain ⟨fresh, distinct'⟩ := List.nodup_cons.mp distinct
      obtain ⟨⟨under, inside, info, found, posted, dest, member, free⟩, later⟩ :=
        List.forall_mem_cons.mp known
      obtain ⟨minPos, searched, based⟩ := findOptimalBase_reaches blocks fits found posted
      obtain ⟨target, there, _⟩ := posted dest member free
      have small := (based.reaches dest member free target there).1
      have first : Rebased [pos] stateMachine
          (stateMachine.modify pos fun state => { state with base := minPos }) := by
        refine ⟨List.length_modify _ _ _, fun other cell known => ?_⟩
        by_cases here : pos = other
        · subst here
          rw [List.getElem?_modify_eq, known]
          exact ⟨_, rfl, rfl, rfl, fun absent => absurd (List.mem_singleton.mpr rfl) absent⟩
        · rw [List.getElem?_modify_ne _ _ here, known]
          exact ⟨cell, rfl, rfl, rfl, fun _ => rfl⟩
      have blocks' := first.blocks (List.forall_mem_cons.mpr ⟨under, List.forall_mem_nil _⟩) blocks
      obtain ⟨after, ran, rebased, bases⟩ := ih blocks' (by rw [first.length]; exact fits)
        distinct' (by rw [first.length]; exact later)
      have whole := first.trans rebased
      refine ⟨after, ?_, whole, List.forall_mem_cons.mpr ⟨?_, bases⟩⟩
      · rw [computeNoopBases, searched, Except.ok_bind]
        have stored : storeBase stateMachine pos minPos
            (fun minPos state => { state with base := minPos }) =
              .ok (stateMachine.modify pos fun state => { state with base := minPos }) := by
          unfold storeBase
          rw [if_pos (show minPos ≠ invalidPos by omega), modifyAt_eq inside]
        rw [stored, Except.ok_bind]
        exact ran
      · obtain ⟨cell, at'⟩ : ∃ cell, stateMachine[pos]? = some cell :=
          ⟨_, List.getElem?_eq_getElem inside⟩
        have changed : (stateMachine.modify pos fun state => { state with base := minPos })[pos]? =
            some { cell with base := minPos } := by
          rw [List.getElem?_modify_eq, at']
          rfl
        obtain ⟨cell', found', _, _, same⟩ := rebased.kept pos _ changed
        have equal := same fresh
        refine ⟨info, cell', found, found', ?_⟩
        rw [equal]
        refine ⟨based.none, fun entry member free target there => ?_⟩
        obtain ⟨small, reaches, single⟩ := based.reaches entry member free target there
        rw [whole.length]
        exact ⟨small, whole.reaches reaches, single⟩

/-! ## The tags without a private list -/

/-- A tag apart from its base. -/
def EncodedTagInfo.unbased (info : EncodedTagInfo) : EncodedTagInfo := { info with base := 0 }

/-- The tags differ in their bases only. -/
def SameButBases (first second : List EncodedTagInfo) : Prop :=
  first.map EncodedTagInfo.unbased = second.map EncodedTagInfo.unbased

theorem SameButBases.get {first second : List EncodedTagInfo} (same : SameButBases first second)
    {tag : Nat} {info : EncodedTagInfo} (found : first[tag]? = some info) :
    ∃ info', second[tag]? = some info' ∧ info' = { info with base := info'.base } := by
  have mapped := congrArg (fun infos => infos[tag]?) same
  simp only [List.getElem?_map, found, Option.map_some] at mapped
  obtain ⟨info', found', unbased⟩ := Option.map_eq_some_iff.mp mapped.symm
  refine ⟨info', found', ?_⟩
  cases info'
  cases info
  simp only [EncodedTagInfo.unbased, EncodedTagInfo.mk.injEq] at unbased ⊢
  simp [unbased]

theorem SameButBases.length {first second : List EncodedTagInfo}
    (same : SameButBases first second) : first.length = second.length := by
  have lengths := congrArg List.length same
  rwa [List.length_map, List.length_map] at lengths

/-- The bases matter neither to the destinations nor to their positions. -/
theorem SameButBases.posted {first second : List EncodedTagInfo} (same : SameButBases first second)
    {size : Nat} {info : EncodedTagInfo} (posted : DestsPosted first start size info) :
    DestsPosted second start size info := by
  intro entry member free
  obtain ⟨target, found, above, inside⟩ := posted entry member free
  obtain ⟨target', found', equal⟩ := same.get found
  have positions : target'.stateMachinePos = target.stateMachinePos := by rw [equal]
  refine ⟨target', found', ?_, ?_⟩
  · rw [positions]
    exact above
  · rw [positions]
    exact inside

theorem SameButBases.baseFor {first second : List EncodedTagInfo} (same : SameButBases first second)
    {info : EncodedTagInfo} {base : Nat} (based : BaseFor stateMachine first info base) :
    BaseFor stateMachine second info base := by
  refine ⟨based.none, fun entry member free target found => ?_⟩
  obtain ⟨target', found', equal⟩ := SameButBases.get (Eq.symm same) found
  have positions : target'.stateMachinePos = target.stateMachinePos := by rw [equal]
  rw [← positions]
  exact based.reaches entry member free target' found'

/-- A tag without a private list gets a base that reaches its destinations. -/
theorem computeTagBases_reach (blocks : Blocks stateMachine start source)
    (fits : stateMachine.length < invalidPos) {ids : List Nat} :
    ∀ {tags : List EncodedTagInfo}, ids.Nodup → (∀ id ∈ ids, id < tags.length) →
      (∀ info ∈ tags, DestsPosted tags start stateMachine.length info) →
      ∃ tags', computeTagBases start stateMachine ids tags = .ok tags' ∧ SameButBases tags' tags ∧
        ∀ (tag : Nat) (info info' : EncodedTagInfo), tags[tag]? = some info →
          tags'[tag]? = some info' →
            info'.base = info.base ∧ (info.base = invalidPos → tag ∉ ids) ∨
            info.base = invalidPos ∧ BaseFor stateMachine tags info info'.base := by
  induction ids with
  | nil =>
      intro tags _ _ _
      refine ⟨tags, rfl, rfl, fun tag info info' found found' => .inl ⟨?_, fun _ => List.not_mem_nil⟩⟩
      rw [Option.some.inj (found.symm.trans found')]
  | cons id rest ih =>
      intro tags distinct inside posted
      obtain ⟨fresh, distinct'⟩ := List.nodup_cons.mp distinct
      obtain ⟨here, later⟩ := List.forall_mem_cons.mp inside
      obtain ⟨info, found⟩ : ∃ info, tags[id]? = some info := ⟨_, List.getElem?_eq_getElem here⟩
      rw [computeTagBases, indexAt_eq_ok.mpr found, Except.ok_bind]
      by_cases based : info.base ≠ invalidPos
      · rw [if_pos based]
        obtain ⟨tags', ran, same, bases⟩ := ih distinct' later posted
        refine ⟨tags', ran, same, fun tag old new known known' => ?_⟩
        refine (bases tag old new known known').imp_left fun kept => ⟨kept.1, fun unset => ?_⟩
        rw [List.mem_cons, not_or]
        refine ⟨?_, kept.2 unset⟩
        rintro rfl
        obtain rfl := Option.some.inj (found.symm.trans known)
        exact based unset
      · have unset := not_not.mp based
        rw [if_neg based]
        obtain ⟨minPos, searched, baseFor⟩ := findOptimalBase_reaches blocks fits found
          (posted info (List.mem_of_getElem? found))
        -- storing an invalid base changes nothing
        have stored : storeBase tags id minPos (fun minPos info => { info with base := minPos }) =
            .ok (tags.modify id fun info => { info with base := minPos }) := by
          unfold storeBase
          by_cases valid : minPos ≠ invalidPos
          · rw [if_pos valid, modifyAt_eq here]
          · rw [if_neg valid, not_not.mp valid]
            refine congrArg Except.ok (List.ext_getElem? fun other => ?_)
            by_cases same : id = other
            · subst same
              rw [List.getElem?_modify_eq, found, ← unset]
              rfl
            · rw [List.getElem?_modify_ne _ _ same]
        have same : SameButBases (tags.modify id fun info => { info with base := minPos }) tags := by
          refine List.ext_getElem? fun other => ?_
          rw [List.getElem?_map, List.getElem?_map, List.getElem?_modify]
          split
          · cases tags[other]? <;> rfl
          · cases tags[other]? <;> rfl
        have later' : ∀ other ∈ rest,
            other < (tags.modify id fun info => { info with base := minPos }).length := by
          rw [List.length_modify]
          exact later
        obtain ⟨tags', ran, same', bases⟩ := ih distinct' later' (by
            intro info' member
            obtain ⟨tag, there⟩ := List.getElem?_of_mem member
            obtain ⟨old, known, equal⟩ := same.get there
            have posted' := SameButBases.posted (Eq.symm same)
              (posted old (List.mem_of_getElem? known))
            rw [equal] at posted'
            exact posted')
        rw [searched, Except.ok_bind, stored, Except.ok_bind]
        refine ⟨tags', ran, Eq.trans same' same, fun tag old new known known' => ?_⟩
        by_cases mine : id = tag
        · subst mine
          obtain rfl := Option.some.inj (found.symm.trans known)
          have changed : (tags.modify id fun info => { info with base := minPos })[id]? =
              some { info with base := minPos } := by
            rw [List.getElem?_modify_eq, found]
            rfl
          rcases bases id _ new changed known' with ⟨kept, _⟩ | ⟨_, again⟩
          · right
            rw [kept]
            exact ⟨unset, baseFor⟩
          · exact .inr ⟨unset, same.baseFor ⟨again.none, again.reaches⟩⟩
        · have kept : (tags.modify id fun info => { info with base := minPos })[tag]? =
              some old := by
            rw [List.getElem?_modify_ne _ _ mine, known]
          rcases bases tag old new kept known' with ⟨equal, absent⟩ | ⟨none, again⟩
          · refine .inl ⟨equal, fun unset' => ?_⟩
            rw [List.mem_cons, not_or]
            exact ⟨Ne.symm mine, absent unset'⟩
          · exact .inr ⟨none, same.baseFor again⟩

end Riegeli
