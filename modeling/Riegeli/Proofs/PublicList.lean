/-
Module: Riegeli.Proofs.PublicList
Purpose: The public list holds a state for each tag with loose transitions.
Trusted boundary: none
Main exports: PublicPhase, buildPublicList_public
-/
import Riegeli.Proofs.PrivateLists

namespace Riegeli

variable {tags : List EncodedTagInfo}

/-! ## Entries of the public list -/

theorem publicEntries_inside {start dest : Nat} (member : dest ∈ queued (publicEntries start tags)) :
    start ≤ dest ∧ dest < start + tags.length := by
  induction tags generalizing start with
  | nil => cases member
  | cons info rest ih =>
      have later : dest ∈ queued (publicEntries (start + 1) rest) →
          start ≤ dest ∧ dest < start + (info :: rest).length := by
        intro member
        have inside := ih member
        rw [List.length_cons]
        omega
      rw [publicEntries] at member
      split at member
      · rcases List.mem_cons.mp member with rfl | member
        · rw [List.length_cons]
          exact ⟨Nat.le_refl _, Nat.lt_add_of_pos_right (Nat.succ_pos _)⟩
        · exact later member
      · exact later member

theorem publicEntries_distinct (start : Nat) : (queued (publicEntries start tags)).Nodup := by
  induction tags generalizing start with
  | nil => exact List.nodup_nil
  | cons info rest ih =>
      rw [publicEntries]
      split
      · refine List.nodup_cons.mpr ⟨fun member => ?_, ih (start + 1)⟩
        have inside := (publicEntries_inside member).1
        simp only at inside
        omega
      · exact ih (start + 1)

theorem publicEntries_has {start index : Nat} {info : EncodedTagInfo}
    (found : tags[index]? = some info) (incoming : info.numIncomingTransitions ≠ 0) :
    start + index ∈ queued (publicEntries start tags) := by
  induction tags generalizing start index with
  | nil => cases found
  | cons first rest ih =>
      rw [publicEntries]
      cases index with
      | zero =>
          obtain rfl := Option.some.inj found
          rw [if_pos incoming]
          exact List.mem_cons_self
      | succ index =>
          have later := @ih (start + 1) index found
          rw [Nat.add_assoc, Nat.add_comm 1] at later
          split
          · exact List.mem_cons_of_mem _ later
          · exact later

theorem queued_length (queue : List PriorityQueueEntry) : (queued queue).length = queue.length :=
  List.length_map _

theorem publicEntries_length (start : Nat) : (publicEntries start tags).length ≤ tags.length := by
  have subset : queued (publicEntries start tags) ⊆ List.range' start tags.length := by
    intro dest member
    have inside := publicEntries_inside member
    rw [List.mem_range'_1]
    exact inside
  have short := (List.subperm_of_subset (publicEntries_distinct start) subset).length_le
  rwa [queued_length, List.length_range'] at short

/-! ## Noting the states of the public list -/

/-- The note that `recordPublic` takes. -/
def notePublic (dest pos : Nat) (targets : ListTargets) : ListTargets :=
  { targets with tags := targets.tags.modify dest fun info => { info with stateMachinePos := pos } }

theorem recordPublic_notes {numTags : Nat} {wanted : List Nat}
    (inside : ∀ dest ∈ wanted, dest < numTags) : Notes recordPublic notePublic numTags wanted := by
  intro dest pos targets member length
  refine ⟨?_, by rw [notePublic, List.length_modify, length]⟩
  unfold recordPublic
  rw [modifyAt_eq (by rw [length]; exact inside dest member), Except.ok_bind]
  rfl

/-- A tag apart from its position in the public list. -/
def EncodedTagInfo.unposted (info : EncodedTagInfo) : EncodedTagInfo :=
  { info with stateMachinePos := 0 }

/-- The notes of the public list give its tags their positions. -/
theorem noteAll_posts {placed : List (Nat × Nat)} :
    ∀ {targets : ListTargets}, (placed.map Prod.fst).Nodup →
      (noteAll notePublic placed targets).publicListNoops = targets.publicListNoops ∧
      (noteAll notePublic placed targets).tags.map EncodedTagInfo.unposted =
        targets.tags.map EncodedTagInfo.unposted ∧
      ∀ (tag : Nat) (after : EncodedTagInfo),
        (noteAll notePublic placed targets).tags[tag]? = some after →
          (tag, after.stateMachinePos) ∈ placed ∨
            tag ∉ placed.map Prod.fst ∧ targets.tags[tag]? = some after := by
  induction placed with
  | nil =>
      intro targets _
      exact ⟨rfl, rfl, fun _ _ found => .inr ⟨List.not_mem_nil, found⟩⟩
  | cons entry rest ih =>
      intro targets distinct
      obtain ⟨dest, pos⟩ := entry
      obtain ⟨fresh, distinct'⟩ := List.nodup_cons.mp distinct
      obtain ⟨noops, same, posts⟩ := @ih (notePublic dest pos targets) distinct'
      refine ⟨noops, Eq.trans same ?_, fun tag after found => ?_⟩
      · refine List.ext_getElem? fun other => ?_
        rw [notePublic, List.getElem?_map, List.getElem?_map, List.getElem?_modify]
        split
        · cases targets.tags[other]? <;> rfl
        · cases targets.tags[other]? <;> rfl
      · rcases posts tag after found with member | ⟨absent, old⟩
        · exact .inl (List.mem_cons_of_mem _ member)
        · rw [notePublic] at old
          by_cases here : dest = tag
          · subst here
            rw [List.getElem?_modify_eq] at old
            obtain ⟨info, _, rfl⟩ := Option.map_eq_some_iff.mp old
            exact .inl List.mem_cons_self
          · rw [List.getElem?_modify_ne _ _ here] at old
            refine .inr ⟨?_, old⟩
            rw [List.map_cons, List.mem_cons, not_or]
            exact ⟨Ne.symm here, absent⟩

/-! ## After the public list -/

/-- The tag has its state in the public list, which begins at `start`. -/
def Posted (stateMachine : List StateInfo) (start tag : Nat) (info : EncodedTagInfo) : Prop :=
  start ≤ info.stateMachinePos ∧ StandsFor stateMachine info.stateMachinePos tag

/-- The machine and the tags after the public list, which begins at `start`. -/
structure PublicPhase (pairs : List (Nat × Nat)) (extra : Nat → Nat) (start : Nat)
    (stateMachine : List StateInfo) (targets : ListTargets) : Prop where
  linked : Linked pairs targets.tags
  lists : ∀ (tag : Nat) (info : EncodedTagInfo), targets.tags[tag]? = some info → PrivateList stateMachine info
  posted : ∀ (tag : Nat) (info : EncodedTagInfo), targets.tags[tag]? = some info →
    info.stateMachinePos ≠ invalidPos → Posted stateMachine start tag info
  loose : ∀ (tag : Nat) (info : EncodedTagInfo) (dest : Nat) (known : DestInfo),
    targets.tags[tag]? = some info → info.destInfo.lookup dest = some known →
      known.pos = invalidPos →
      ∃ target, targets.tags[dest]? = some target ∧ Posted stateMachine start dest target
  extra : ∀ tag < targets.tags.length, 0 < extra tag →
    ∃ info, targets.tags[tag]? = some info ∧ Posted stateMachine start tag info
  blocks : ∃ source, Blocks stateMachine start source
  chained : Chained stateMachine
  noops : ∀ tag pos, (tag, pos) ∈ targets.publicListNoops → pos < start ∧
    (∃ info, targets.tags[tag]? = some info ∧ info.publicListNoopPos = pos) ∧
      ∃ noop, stateMachine[pos]? = some noop ∧ noop.IsNoop ∧ noop.base = invalidPos
  listed : ∀ (tag : Nat) (info : EncodedTagInfo), targets.tags[tag]? = some info →
    info.publicListNoopPos ≠ invalidPos → (tag, info.publicListNoopPos) ∈ targets.publicListNoops
  distinct : (targets.publicListNoops.map Prod.snd).Nodup
  states : ∀ pos cell, stateMachine[pos]? = some cell →
    cell.etagIndex < targets.tags.length ∨ cell.IsNoop ∧
      (cell.base < stateMachine.length ∨ ∃ tag, (tag, pos) ∈ targets.publicListNoops)
  size : stateMachine.length ≤
    2 * destsBefore targets.tags targets.tags.length + 2 * targets.tags.length

/-- Loose transitions and extra ones keep a tag's count above zero. -/
theorem PrivatePhase.incoming {pairs : List (Nat × Nat)} {extra : Nat → Nat} {done : Nat}
    {stateMachine : List StateInfo} {targets : ListTargets}
    (phase : PrivatePhase pairs extra done stateMachine targets) {tag dest : Nat}
    {info target : EncodedTagInfo} {known : DestInfo} (found : targets.tags[tag]? = some info)
    (looked : info.destInfo.lookup dest = some known) (free : known.pos = invalidPos)
    (there : targets.tags[dest]? = some target) : target.numIncomingTransitions ≠ 0 := by
  have inside := (List.getElem?_eq_some_iff.mp found).1
  have positive := (phase.linked.entries tag info dest known found looked).1
  have total := phase.balanced dest target there
  have amount : looseAt targets.tags tag dest = known.numTransitions := by
    rw [looseAt_eq found, info.loose_unmarked looked free]
  rw [← Finset.add_sum_erase _ (fun other => looseAt targets.tags other dest)
    (Finset.mem_range.mpr inside), amount] at total
  omega

/-- `build_public_list` appends a list of the tags with transitions left. -/
theorem buildPublicList_lists {before : List StateInfo} {targets : ListTargets}
    (fits : 2 * targets.tags.length < invalidPos) :
    ∃ after placed, buildPublicList before targets = .ok (after, noteAll notePublic placed targets) ∧
      Listed before after (queued (publicEntries 0 targets.tags)) placed := by
  have few := @publicEntries_length targets.tags 0
  have inside : ∀ dest ∈ queued (publicEntries 0 targets.tags), dest < targets.tags.length := by
    intro dest member
    have inside := (publicEntries_inside member).2
    omega
  unfold buildPublicList
  by_cases empty : publicEntries 0 targets.tags = []
  · simp only [empty, List.isEmpty_nil, if_true]
    exact ⟨before, [], rfl, .nil before⟩
  · have notEmpty : ¬ (publicEntries 0 targets.tags).isEmpty = true := by
      rw [List.isEmpty_iff]
      exact empty
    simp only [if_neg notEmpty]
    exact placeList_lists (fun entry member => .inr (inside _ (List.mem_map_of_mem member)))
      (recordPublic_notes inside) rfl empty (by omega)

/-- A property that the position in the public list does not matter for. -/
theorem unposted_get {first second : List EncodedTagInfo}
    (same : first.map EncodedTagInfo.unposted = second.map EncodedTagInfo.unposted) {tag : Nat}
    {info : EncodedTagInfo} (found : first[tag]? = some info) :
    ∃ info', second[tag]? = some info' ∧ info'.destInfo = info.destInfo ∧
      info'.base = info.base ∧ info'.publicListNoopPos = info.publicListNoopPos ∧
      info'.numIncomingTransitions = info.numIncomingTransitions := by
  have mapped := congrArg (fun infos => infos[tag]?) same
  simp only [List.getElem?_map, found, Option.map_some] at mapped
  obtain ⟨info', found', unposted⟩ := Option.map_eq_some_iff.mp mapped.symm
  have dests : info'.unposted.destInfo = info.unposted.destInfo := by rw [unposted]
  have base : info'.unposted.base = info.unposted.base := by rw [unposted]
  have noop : info'.unposted.publicListNoopPos = info.unposted.publicListNoopPos := by
    rw [unposted]
  have incoming : info'.unposted.numIncomingTransitions = info.unposted.numIncomingTransitions := by
    rw [unposted]
  exact ⟨info', found', dests, base, noop, incoming⟩

theorem unposted_counts {first second : List EncodedTagInfo}
    (same : first.map EncodedTagInfo.unposted = second.map EncodedTagInfo.unposted) :
    SameCounts first second := by
  have counted := congrArg (List.map EncodedTagInfo.counts) same
  rw [List.map_map, List.map_map] at counted
  exact counted

theorem PrivateList.of_same {stateMachine : List StateInfo} {first second : EncodedTagInfo}
    (list : PrivateList stateMachine first) (dests : first.destInfo = second.destInfo)
    (base : first.base = second.base) (noop : first.publicListNoopPos = second.publicListNoopPos) :
    PrivateList stateMachine second := by
  cases list with
  | absent base' noop' free =>
      refine .absent (base.symm.trans base') (noop.symm.trans noop') ?_
      unfold EncodedTagInfo.Unmarked
      rw [← dests]
      exact free
  | present base' states whole bridge single =>
      rw [base] at base' states bridge single
      rw [dests] at states whole bridge single
      rw [noop] at whole bridge
      exact .present base' states whole bridge single

/-- `build_public_list`. -/
theorem buildPublicList_public {pairs : List (Nat × Nat)} {extra : Nat → Nat}
    {before : List StateInfo} {targets : ListTargets}
    (phase : PrivatePhase pairs extra targets.tags.length before targets)
    (fits : 2 * destsBefore targets.tags targets.tags.length + 2 * targets.tags.length <
      invalidPos) :
    ∃ after targets', buildPublicList before targets = .ok (after, targets') ∧
      PublicPhase pairs extra before.length after targets' ∧
      SameCounts targets'.tags targets.tags := by
  obtain ⟨after, placed, built, listed⟩ :=
    @buildPublicList_lists before targets (by omega)
  have distinct : (placed.map Prod.fst).Nodup :=
    listed.perm.nodup_iff.mpr (publicEntries_distinct 0)
  obtain ⟨noops, same, posts⟩ := @noteAll_posts placed targets distinct
  have counts := unposted_counts same
  have length := SameCounts.length counts
  have size := phase.size
  have few := @publicEntries_length targets.tags 0
  have total : after.length ≤ before.length + 2 * targets.tags.length := by
    have exact' := listed.size
    have less : innerNoops (queued (publicEntries 0 targets.tags)).length ≤
        (queued (publicEntries 0 targets.tags)).length := by
      unfold innerNoops maxTransition
      split <;> omega
    rw [queued_length] at exact' less
    omega
  have posted : ∀ tag pos, (tag, pos) ∈ placed → before.length ≤ pos ∧ StandsFor after pos tag := by
    intro tag pos member
    obtain ⟨above, cell, found, tagged, _⟩ := listed.stands tag pos member
    exact ⟨above, cell, found, tagged⟩
  -- a tag with transitions left has its state in the public list
  have incoming : ∀ (tag : Nat) (info : EncodedTagInfo), targets.tags[tag]? = some info →
      info.numIncomingTransitions ≠ 0 → ∃ info',
        (noteAll notePublic placed targets).tags[tag]? = some info' ∧
          Posted after before.length tag info' := by
    intro tag info found left
    obtain ⟨info', found', _⟩ := unposted_get same.symm found
    have wanted : tag ∈ placed.map Prod.fst := by
      have has := @publicEntries_has targets.tags 0 tag info found left
      rw [Nat.zero_add] at has
      exact listed.perm.mem_iff.mpr has
    rcases posts tag info' found' with member | ⟨absent, _⟩
    · exact ⟨info', found', posted tag _ member⟩
    · exact absurd wanted absent
  refine ⟨after, _, built, ?_, counts⟩
  constructor
  case linked => exact phase.linked.of_counts counts
  case lists =>
      intro tag info found
      obtain ⟨old, known, dests, base, noop, _⟩ := unposted_get same found
      have inside := (List.getElem?_eq_some_iff.mp known).1
      exact ((phase.lists tag old inside known).1.grow listed.grows).of_same dests base noop
  case posted =>
      intro tag info found valid
      rcases posts tag info found with member | ⟨_, old⟩
      · exact posted tag _ member
      · have inside := (List.getElem?_eq_some_iff.mp old).1
        exact absurd (phase.lists tag info inside old).2 valid
  case loose =>
      intro tag info dest known found looked free
      obtain ⟨old, before', dests, _⟩ := unposted_get same found
      rw [← dests] at looked
      obtain ⟨_, listed'⟩ := phase.linked.entries tag old dest known before' looked
      obtain ⟨target, there⟩ : ∃ target, targets.tags[dest]? = some target :=
        ⟨_, List.getElem?_eq_getElem (phase.inside tag dest listed')⟩
      exact incoming dest target there (phase.incoming before' looked free there)
  case extra =>
      intro tag inside more
      rw [length] at inside
      have there := List.getElem?_eq_getElem inside
      have total := phase.balanced tag _ there
      exact incoming tag _ there (by omega)
  case blocks => exact listed.blocks
  case chained =>
      obtain ⟨source, blocks⟩ := listed.blocks
      exact blocks.chained listed.grows phase.chained
  case noops =>
      intro tag pos member
      rw [noops] at member
      obtain ⟨_, ⟨old, known, at'⟩, noop, there, isNoop, base⟩ := phase.noops tag pos member
      obtain ⟨info, found, _, _, same', _⟩ := unposted_get same.symm known
      exact ⟨(List.getElem?_eq_some_iff.mp there).1, ⟨info, found, same'.trans at'⟩, noop,
        prefix_get listed.grows there, isNoop, base⟩
  case listed =>
      intro tag info found valid
      obtain ⟨old, known, _, _, same', _⟩ := unposted_get same found
      rw [noops]
      rw [← same'] at valid ⊢
      exact phase.listed tag old known valid
  case distinct =>
      rw [noops]
      exact phase.distinct
  case states =>
      intro pos cell found
      rw [length, noops]
      by_cases old : pos < before.length
      · have known := prefix_get listed.grows (List.getElem?_eq_getElem old)
        obtain rfl := Option.some.inj (found.symm.trans known)
        have grown := listed.grows.length_le
        refine (phase.states pos _ (List.getElem?_eq_getElem old)).imp_right fun noop => ?_
        exact ⟨noop.1, noop.2.imp_left fun small => Nat.lt_of_lt_of_le small grown⟩
      · rcases listed.only pos cell (by omega) found with member | ⟨isNoop, base⟩
        · left
          have wanted := listed.perm.mem_iff.mp (List.mem_map_of_mem (f := Prod.fst) member)
          have inside := (publicEntries_inside wanted).2
          simp only at inside
          omega
        · exact .inr ⟨isNoop, .inl base⟩
  case size =>
      rw [SameCounts.destsBefore counts, length]
      omega

end Riegeli
