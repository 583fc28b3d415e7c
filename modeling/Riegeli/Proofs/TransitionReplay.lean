/-
Module: Riegeli.Proofs.TransitionReplay
Purpose: Where every transition has a route through the states, the emitted
  bytes lead the decoder through exactly the encoded tags.
Trusted boundary: none
Main exports: Route, buildTransition_routes, Tour, buildTransitionsLoop_tours,
  Represents, Tour.walk
-/
import Riegeli.Proofs.MachineRun
import Riegeli.Core.TransposeChunk
import Mathlib.Data.List.Chain

namespace Riegeli

variable {stateMachine : List StateInfo} {tags : List EncodedTagInfo}

/-! ## Routes -/

/-- A state of this tag stands at the position. -/
def StandsFor (stateMachine : List StateInfo) (pos tag : Nat) : Prop :=
  ∃ state, stateMachine[pos]? = some state ∧ state.etagIndex = tag

/-- The way from one tag to the next: the only destination at the base, a
state of the private list, or one of the public list, which may be behind a
NoOp of the private list. -/
inductive Way (stateMachine : List StateInfo) (prev next : EncodedTagInfo) (tag : Nat) : Prop where
  | single : prev.destInfo.length = 1 → StandsFor stateMachine prev.base tag →
      Way stateMachine prev next tag
  | privately : prev.destInfo.length ≠ 1 → prev.privatePos tag ≠ invalidPos →
      StandsFor stateMachine (prev.privatePos tag) tag →
      Reaches stateMachine prev.base (prev.privatePos tag) → Way stateMachine prev next tag
  | publicly : prev.destInfo.length ≠ 1 → prev.privatePos tag = invalidPos →
      prev.publicListNoopPos = invalidPos → StandsFor stateMachine next.stateMachinePos tag →
      Reaches stateMachine prev.base next.stateMachinePos → Way stateMachine prev next tag
  | throughNoop {noop : StateInfo} : prev.destInfo.length ≠ 1 → prev.privatePos tag = invalidPos →
      prev.publicListNoopPos ≠ invalidPos →
      stateMachine[prev.publicListNoopPos]? = some noop → noop.IsNoop →
      Reaches stateMachine prev.base prev.publicListNoopPos →
      StandsFor stateMachine next.stateMachinePos tag →
      Reaches stateMachine noop.base next.stateMachinePos → noop.base ≠ invalidPos →
      Way stateMachine prev next tag

/-- There is a way from one tag to the next. -/
def Route (stateMachine : List StateInfo) (tags : List EncodedTagInfo) (from' tag : Nat) : Prop :=
  ∃ prev next, tags[from']? = some prev ∧ tags[tag]? = some next ∧ prev.base ≠ invalidPos ∧
    Way stateMachine prev next tag

/-- Offsets for one transition: none for an only destination, else those that
lead to a state of the tag. -/
inductive Moves (stateMachine : List StateInfo) (prev : EncodedTagInfo) (tag : Nat) :
    List Nat → Prop where
  | implicit : prev.destInfo.length = 1 → StandsFor stateMachine prev.base tag →
      Moves stateMachine prev tag []
  | explicit {offsets : List Nat} {pos : Nat} : prev.destInfo.length ≠ 1 →
      Leads stateMachine prev.base offsets pos → StandsFor stateMachine pos tag →
      Moves stateMachine prev tag offsets

theorem Leads.trans {base target final : Nat} {first second : List Nat} {noop : StateInfo}
    (leads : Leads stateMachine base first target) (found : stateMachine[target]? = some noop)
    (isNoop : noop.IsNoop) (further : Leads stateMachine noop.base second final) :
    Leads stateMachine base (first ++ second) final := by
  induction leads with
  | last small => exact .hop small found isNoop further
  | hop small found' isNoop' _ ih => exact .hop small found' isNoop' (ih found)

/-- The offsets emitted so far. -/
def TransitionState.offsets (state : TransitionState) : List Nat :=
  expandBytes (state.transitions ++ state.lastTransition.toList)

/-- Emitting the hops to a state within reach of the current base. -/
theorem emitHops_leads (chained : Chained stateMachine) (checked : Bool) {pos : Nat}
    (state : TransitionState) (reaches : Reaches stateMachine state.currentBase pos)
    (inside : pos < stateMachine.length) (fits : stateMachine.length ≤ invalidPos) :
    ∃ offsets after, emitHops stateMachine checked pos state = .ok after ∧
      offsetsTo stateMachine checked state.currentBase pos = .ok offsets ∧
      Leads stateMachine state.currentBase offsets pos ∧
      after.offsets = state.offsets ++ offsets ∧ after.prevEtag = state.prevEtag ∧
      after.currentBase = state.currentBase := by
  obtain ⟨offsets, walked, leads⟩ := offsetsTo_leads chained checked reaches inside fits
  have packed := emitTransitionBytes_expand leads.offsets_le state.transitions state.lastTransition
  refine ⟨offsets,
    { state with
      transitions :=
        (emitTransitionBytes (offsets.map UInt8.ofNat) state.transitions state.lastTransition).1
      lastTransition :=
        (emitTransitionBytes (offsets.map UInt8.ofNat) state.transitions state.lastTransition).2 },
    ?_, walked, leads, packed, rfl, rfl⟩
  unfold emitHops
  rw [hopsTo_eq checked walked, Except.ok_bind]

/-- Where the state of the next tag is looked for. -/
theorem locateTarget_eq (prev next : EncodedTagInfo) (tag : Nat) (state : TransitionState) :
    locateTarget stateMachine prev next tag state =
      if prev.privatePos tag ≠ invalidPos then .ok (state, prev.privatePos tag)
      else if prev.publicListNoopPos ≠ invalidPos then do
        let state ← emitHops stateMachine false prev.publicListNoopPos state
        let noop ← indexAt stateMachine prev.publicListNoopPos
        .ok ({ state with currentBase := noop.base }, next.stateMachinePos)
      else .ok (state, next.stateMachinePos) := rfl

/-- One pass of `build_transitions` along a route. -/
theorem buildTransition_routes (chained : Chained stateMachine)
    (fits : stateMachine.length ≤ invalidPos) {state : TransitionState}
    {prev next : EncodedTagInfo} {tag : Nat} (before : tags[state.prevEtag]? = some prev)
    (target : tags[tag]? = some next) (based : state.currentBase = prev.base)
    (valid : prev.base ≠ invalidPos) (way : Way stateMachine prev next tag) :
    ∃ offsets after, buildTransition tags stateMachine state tag = .ok after ∧
      transitionOffsets stateMachine prev next tag = .ok offsets ∧
      Moves stateMachine prev tag offsets ∧ after.offsets = state.offsets ++ offsets ∧
      after.prevEtag = tag ∧ after.currentBase = next.base := by
  have positive : ∀ {pos}, StandsFor stateMachine pos tag →
      pos < stateMachine.length ∧ pos ≠ invalidPos := by
    rintro pos ⟨_, found, _⟩
    have inside := (List.getElem?_eq_some_iff.mp found).1
    exact ⟨inside, by omega⟩
  unfold buildTransition
  rw [indexAt_eq_ok.mpr before, indexAt_eq_ok.mpr target, Except.ok_bind, Except.ok_bind]
  cases way with
  | single only stands =>
      rw [if_pos only]
      exact ⟨[], _, rfl, if_pos only, .implicit only stands, (List.append_nil _).symm, rfl, rfl⟩
  | privately several there stands reaches =>
      obtain ⟨inside, _⟩ := positive stands
      rw [← based] at reaches
      obtain ⟨offsets, after, emitted, walked, leads, packed, _, _⟩ :=
        emitHops_leads chained true state reaches inside fits
      have located : locateTarget stateMachine prev next tag state =
          .ok (state, prev.privatePos tag) := by
        rw [locateTarget_eq, if_pos there]
      have going : ¬ (state.currentBase = invalidPos ∨ prev.privatePos tag = invalidPos) := by
        rw [based]
        exact not_or.mpr ⟨valid, there⟩
      rw [if_neg several, located, Except.ok_bind]
      simp only
      rw [if_neg going, emitted, Except.ok_bind]
      rw [based] at leads walked going
      have traced : transitionOffsets stateMachine prev next tag = .ok offsets := by
        unfold transitionOffsets offsetsIfAny
        rw [if_neg several, if_pos there, if_neg going, walked]
      exact ⟨offsets, _, rfl, traced, .explicit several leads stands, packed, rfl, rfl⟩
  | publicly several absent noNoop stands reaches =>
      obtain ⟨inside, there⟩ := positive stands
      rw [← based] at reaches
      obtain ⟨offsets, after, emitted, walked, leads, packed, _, _⟩ :=
        emitHops_leads chained true state reaches inside fits
      have located : locateTarget stateMachine prev next tag state =
          .ok (state, next.stateMachinePos) := by
        rw [locateTarget_eq, if_neg (not_not.mpr absent), if_neg (not_not.mpr noNoop)]
      have going : ¬ (state.currentBase = invalidPos ∨ next.stateMachinePos = invalidPos) := by
        rw [based]
        exact not_or.mpr ⟨valid, there⟩
      rw [if_neg several, located, Except.ok_bind]
      simp only
      rw [if_neg going, emitted, Except.ok_bind]
      rw [based] at leads walked going
      have traced : transitionOffsets stateMachine prev next tag = .ok offsets := by
        unfold transitionOffsets offsetsIfAny
        rw [if_neg several, if_neg (not_not.mpr absent), if_neg (not_not.mpr noNoop), if_neg going,
          walked]
      exact ⟨offsets, _, rfl, traced, .explicit several leads stands, packed, rfl, rfl⟩
  | @throughNoop noop several absent through found isNoop reachesNoop stands reaches noopValid =>
      obtain ⟨inside, there⟩ := positive stands
      have noopInside := (List.getElem?_eq_some_iff.mp found).1
      rw [← based] at reachesNoop
      obtain ⟨first, middle, emittedNoop, walkedNoop, leadsNoop, packedNoop, _, _⟩ :=
        emitHops_leads chained false state reachesNoop noopInside fits
      obtain ⟨second, after, emitted, walked, leads, packed, _, _⟩ :=
        emitHops_leads chained true { middle with currentBase := noop.base } reaches inside fits
      have located : locateTarget stateMachine prev next tag state =
          .ok ({ middle with currentBase := noop.base }, next.stateMachinePos) := by
        rw [locateTarget_eq, if_neg (not_not.mpr absent), if_pos through, emittedNoop, Except.ok_bind,
          indexAt_eq_ok.mpr found, Except.ok_bind]
      have going : ¬ (noop.base = invalidPos ∨ next.stateMachinePos = invalidPos) :=
        not_or.mpr ⟨noopValid, there⟩
      rw [if_neg several, located, Except.ok_bind]
      simp only
      rw [if_neg going, emitted, Except.ok_bind]
      rw [based] at leadsNoop walkedNoop
      simp only at walked
      have traced : transitionOffsets stateMachine prev next tag = .ok (first ++ second) := by
        unfold transitionOffsets offsetsIfAny
        rw [if_neg several, if_neg (not_not.mpr absent), if_pos through, walkedNoop, Except.ok_bind,
          indexAt_eq_ok.mpr found, Except.ok_bind, if_neg going, walked, Except.ok_bind]
      refine ⟨first ++ second, _, rfl, traced,
        .explicit several (leadsNoop.trans found isNoop leads) stands, ?_, rfl, rfl⟩
      have joined : after.offsets = middle.offsets ++ second := packed
      rw [← List.append_assoc, ← packedNoop, ← joined]
      rfl

/-! ## The whole sequence -/

/-- Offsets for a sequence of transitions. -/
inductive Tour (stateMachine : List StateInfo) (tags : List EncodedTagInfo) :
    Nat → List Nat → List Nat → Prop where
  | done {tag : Nat} : Tour stateMachine tags tag [] []
  | move {from' tag : Nat} {prev : EncodedTagInfo} {rest offsets more : List Nat} :
      tags[from']? = some prev → prev.base ≠ invalidPos → Moves stateMachine prev tag offsets →
      Tour stateMachine tags tag rest more →
      Tour stateMachine tags from' (tag :: rest) (offsets ++ more)

theorem Tour.offsets_le {from' : Nat} {rest offsets : List Nat}
    (tour : Tour stateMachine tags from' rest offsets) :
    ∀ offset ∈ offsets, offset ≤ maxTransition := by
  induction tour with
  | done => exact List.forall_mem_nil _
  | move _ _ moves _ ih =>
      refine List.forall_mem_append.mpr ⟨?_, ih⟩
      cases moves with
      | implicit _ _ => exact List.forall_mem_nil _
      | explicit _ leads _ => exact leads.offsets_le

/-- The loop of `build_transitions` along routes. -/
theorem buildTransitionsLoop_tours (chained : Chained stateMachine)
    (fits : stateMachine.length ≤ invalidPos) {rest : List Nat} :
    ∀ {state : TransitionState} {info : EncodedTagInfo},
      List.IsChain (Route stateMachine tags) (state.prevEtag :: rest) →
      tags[state.prevEtag]? = some info → state.currentBase = info.base →
      ∃ offsets after, buildTransitionsLoop tags stateMachine rest state = .ok after ∧
        offsetsFrom tags stateMachine state.prevEtag rest = .ok offsets ∧
        Tour stateMachine tags state.prevEtag rest offsets ∧
        after.offsets = state.offsets ++ offsets := by
  induction rest with
  | nil =>
      intro state info _ _ _
      exact ⟨[], state, rfl, rfl, .done, (List.append_nil _).symm⟩
  | cons tag rest ih =>
      intro state info routes here based
      obtain ⟨⟨prev, next, before, target, valid, way⟩, later⟩ := List.isChain_cons_cons.mp routes
      obtain rfl : info = prev := Option.some.inj (here.symm.trans before)
      obtain ⟨offsets, middle, passed, traced, moves, packed, reached, basedNext⟩ :=
        buildTransition_routes chained fits before target based valid way
      obtain ⟨more, after, ran, traced', tour, packed'⟩ :=
        @ih middle next (by rw [reached]; exact later) (by rw [reached]; exact target) basedNext
      refine ⟨offsets ++ more, after, ?_, ?_, ?_, ?_⟩
      · rw [buildTransitionsLoop, passed, Except.ok_bind, ran]
      · rw [reached] at traced'
        rw [offsetsFrom, indexAt_eq_ok.mpr before, Except.ok_bind, indexAt_eq_ok.mpr target,
          Except.ok_bind, traced, Except.ok_bind, traced', Except.ok_bind]
      · rw [reached] at tour
        exact .move before valid moves tour
      · rw [packed', packed, List.append_assoc]

/-- `build_transitions` along routes. -/
theorem buildTransitions_tours (chained : Chained stateMachine)
    (fits : stateMachine.length ≤ invalidPos) {encodedTags rest : List Nat} {last : Nat}
    {info : EncodedTagInfo} (reversed : encodedTags.reverse = last :: rest)
    (routes : List.IsChain (Route stateMachine tags) (last :: rest))
    (here : tags[last]? = some info) :
    ∃ offsets transitions, buildTransitions tags encodedTags stateMachine = .ok transitions ∧
      emittedOffsets tags encodedTags stateMachine = .ok offsets ∧
      Tour stateMachine tags last rest offsets ∧ expandBytes transitions = offsets := by
  obtain ⟨offsets, after, ran, traced, tour, packed⟩ :=
    @buildTransitionsLoop_tours _ _ chained fits rest
      { prevEtag := last, currentBase := info.base, transitions := [], lastTransition := none }
      info routes here rfl
  have whole : expandBytes (after.transitions ++ after.lastTransition.toList) = offsets := packed
  have emitted : emittedOffsets tags encodedTags stateMachine = .ok offsets := by
    unfold emittedOffsets
    rw [reversed]
    exact traced
  refine ⟨offsets, after.transitions ++ after.lastTransition.toList, ?_, emitted, tour, whole⟩
  unfold buildTransitions
  rw [reversed]
  simp only
  rw [indexAt_eq_ok.mpr here, Except.ok_bind, ran, Except.ok_bind]
  cases after.lastTransition with
  | some byte => rfl
  | none => simp only [Option.toList_none, List.append_nil]

/-! ## The decoder's nodes -/

/-- What a node says about the state at its position. -/
structure NodeFor (tags : List EncodedTagInfo) (state : StateInfo) (node : StateMachineNode) :
    Prop where
  noop : state.IsNoop → node.isImplicit = false ∧ node.nextNodeIndex = state.base
  tag : ∀ info, ¬ state.IsNoop → tags[state.etagIndex]? = some info →
    node.isImplicit = decide (info.base ≠ invalidPos ∧ info.destInfo.length = 1) ∧
      (info.base ≠ invalidPos → node.nextNodeIndex = info.base)

/-- The nodes begin with one for each state. -/
def Represents (tags : List EncodedTagInfo) (stateMachine : List StateInfo)
    (nodes : List StateMachineNode) : Prop :=
  ∀ (pos : Nat) (state : StateInfo), stateMachine[pos]? = some state →
    ∃ node, nodes[pos]? = some node ∧ NodeFor tags state node

theorem StandsFor.tagAt {pos tag : Nat} (stands : StandsFor stateMachine pos tag)
    (valid : tag ≠ invalidPos) : tagAt stateMachine pos = some tag := by
  obtain ⟨state, found, rfl⟩ := stands
  unfold Riegeli.tagAt
  rw [found]
  exact if_neg valid

variable {nodes : List StateMachineNode}

/-- Offsets from a base pass through NoOps only. -/
theorem Leads.walk (represents : Represents tags stateMachine nodes) {base target : Nat}
    {offsets : List Nat} (leads : Leads stateMachine base offsets target) {more path : List Nat}
    (further : NodeWalk nodes target more path) :
    ∃ noops, (∀ pos ∈ noops, tagAt stateMachine pos = none ∧ pos < stateMachine.length) ∧
      ∀ current node, nodes[current]? = some node → node.isImplicit = false →
        node.nextNodeIndex = base → NodeWalk nodes current (offsets ++ more)
          (current :: (noops ++ path)) := by
  induction leads with
  | last small =>
      refine ⟨[], List.forall_mem_nil _, fun current node found explicit next => ?_⟩
      subst next
      exact .hop found explicit further
  | @hop base offset target offsets noop small found isNoop _ ih =>
      obtain ⟨noops, empty, walk⟩ := ih further
      obtain ⟨node, there, nodeFor⟩ := represents _ _ found
      obtain ⟨explicit, next⟩ := nodeFor.noop isNoop
      have none : Riegeli.tagAt stateMachine (base + offset) = none := by
        unfold Riegeli.tagAt
        rw [found]
        exact if_pos isNoop
      have within := (List.getElem?_eq_some_iff.mp found).1
      refine ⟨(base + offset) :: noops, List.forall_mem_cons.mpr ⟨⟨none, within⟩, empty⟩, ?_⟩
      intro current start found' explicit' next'
      subst next'
      exact .hop found' explicit' (walk _ node there explicit next)

/-- The decoder walks through exactly the tags of a tour. -/
theorem Tour.walk (represents : Represents tags stateMachine nodes)
    (valid : tags.length ≤ invalidPos) {from' : Nat} {rest offsets : List Nat}
    (tour : Tour stateMachine tags from' rest offsets)
    (inside : ∀ tag ∈ from' :: rest, tag < tags.length)
    (final : ∀ info, tags[(from' :: rest).getLast (List.cons_ne_nil _ _)]? = some info →
      info.destInfo.length ≠ 1) :
    ∀ {pos : Nat}, StandsFor stateMachine pos from' →
      ∃ path, NodeWalk nodes pos offsets path ∧ (∀ place ∈ path, place < stateMachine.length) ∧
        path.filterMap (tagAt stateMachine) = from' :: rest ∧
        path.getLast?.bind (tagAt stateMachine) =
          some ((from' :: rest).getLast (List.cons_ne_nil _ _)) := by
  induction tour with
  | @done tag =>
      intro pos stands
      have here := inside tag List.mem_cons_self
      have tagged := stands.tagAt (by omega)
      obtain ⟨state, found, rfl⟩ := stands
      obtain ⟨info, known⟩ : ∃ info, tags[state.etagIndex]? = some info :=
        ⟨_, List.getElem?_eq_getElem here⟩
      obtain ⟨node, there, nodeFor⟩ := represents _ _ found
      have several := final info known
      have explicit : node.isImplicit = false := by
        rw [(nodeFor.tag info (by unfold StateInfo.IsNoop; omega) known).1]
        exact decide_eq_false fun single => several single.2
      have within := (List.getElem?_eq_some_iff.mp found).1
      exact ⟨[pos], .stop there explicit, by simpa using within, by simp [tagged], by simp [tagged]⟩
  | @move from' tag prev rest offsets more before valid' moves _ ih =>
      intro pos stands
      obtain ⟨here, later⟩ := List.forall_mem_cons.mp inside
      have last : (from' :: tag :: rest).getLast (List.cons_ne_nil _ _) =
          (tag :: rest).getLast (List.cons_ne_nil _ _) := List.getLast_cons _
      rw [last] at final ⊢
      have further := @ih later final
      have tagged := stands.tagAt (by omega)
      obtain ⟨state, found, rfl⟩ := stands
      obtain ⟨node, there, nodeFor⟩ := represents _ _ found
      obtain ⟨kind, next⟩ := nodeFor.tag prev (by unfold StateInfo.IsNoop; omega) before
      have within := (List.getElem?_eq_some_iff.mp found).1
      cases moves with
      | implicit only stands' =>
          obtain ⟨path, walk, kept, visited, ended⟩ := further stands'
          have isImplicit : node.isImplicit = true := by
            rw [kind]
            exact decide_eq_true ⟨valid', only⟩
          refine ⟨pos :: path, ?_, List.forall_mem_cons.mpr ⟨within, kept⟩, ?_, ?_⟩
          · rw [List.nil_append]
            refine .implicit there isImplicit ?_
            rw [next valid']
            exact walk
          · rw [List.filterMap_cons_some tagged, visited]
          · cases path with
            | nil => cases walk
            | cons first others => exact ended
      | @explicit _ pos' several leads stands' =>
          obtain ⟨path, walk, kept, visited, ended⟩ := further stands'
          have explicit : node.isImplicit = false := by
            rw [kind]
            exact decide_eq_false fun single => several single.2
          obtain ⟨noops, empty, through⟩ := leads.walk represents walk
          refine ⟨pos :: (noops ++ path), through pos node there explicit (next valid'), ?_, ?_, ?_⟩
          · refine List.forall_mem_cons.mpr ⟨within, List.forall_mem_append.mpr ⟨?_, kept⟩⟩
            exact fun place member => (empty place member).2
          · rw [List.filterMap_cons_some tagged, List.filterMap_append, visited,
              List.filterMap_eq_nil_iff.mpr fun place member => (empty place member).1,
              List.nil_append]
          · cases path with
            | nil => cases walk
            | cons first others =>
                rw [← List.cons_append, List.getLast?_append_of_ne_nil _ (List.cons_ne_nil _ _)]
                exact ended

/-! ## No implicit loops -/

/-- Every implicit transition leads to a tag that comes earlier in the
sequence for the first time. -/
theorem represents_descends (represents : Represents tags stateMachine nodes)
    (explicit : ∀ (pos : Nat) (node : StateMachineNode), stateMachine.length ≤ pos →
      nodes[pos]? = some node → node.isImplicit = false)
    (valid : tags.length ≤ invalidPos) {encodedTags : List Nat}
    (inside : ∀ tag ∈ encodedTags, tag < tags.length)
    (routes : List.IsChain (Route stateMachine tags) encodedTags.reverse)
    (known : ∀ state ∈ stateMachine, ¬ state.IsNoop → state.etagIndex < tags.length)
    (used : ∀ (tag : Nat) (info : EncodedTagInfo), tags[tag]? = some info →
      info.destInfo.length = 1 → tag ∈ encodedTags ∧ encodedTags.head? ≠ some tag) :
    Descends nodes fun pos =>
      ((tagAt stateMachine pos).map fun tag => encodedTags.idxOf tag).getD 0 := by
  intro pos node found isImplicit
  by_cases outside : stateMachine.length ≤ pos
  · rw [explicit pos node outside found] at isImplicit
    cases isImplicit
  · obtain ⟨state, there⟩ : ∃ state, stateMachine[pos]? = some state :=
      ⟨_, List.getElem?_eq_getElem (by omega)⟩
    obtain ⟨node', found', nodeFor⟩ := represents pos state there
    obtain rfl : node = node' := Option.some.inj (found.symm.trans found')
    have notNoop : ¬ state.IsNoop := by
      intro isNoop
      rw [(nodeFor.noop isNoop).1] at isImplicit
      cases isImplicit
    obtain ⟨info, present⟩ : ∃ info, tags[state.etagIndex]? = some info :=
      ⟨_, List.getElem?_eq_getElem (known state (List.mem_of_getElem? there) notNoop)⟩
    obtain ⟨kind, next⟩ := nodeFor.tag info notNoop present
    rw [kind] at isImplicit
    obtain ⟨based, only⟩ := of_decide_eq_true isImplicit
    obtain ⟨member, notHead⟩ := used _ info present only
    have tagged : tagAt stateMachine pos = some state.etagIndex :=
      StandsFor.tagAt ⟨state, there, rfl⟩ notNoop
    -- the tag before the first occurrence is the destination
    have occurs := List.idxOf_lt_length_of_mem member
    have here : encodedTags[encodedTags.idxOf state.etagIndex] = state.etagIndex :=
      List.getElem_idxOf occurs
    obtain ⟨index, position⟩ : ∃ index, encodedTags.idxOf state.etagIndex = index + 1 := by
      cases first : encodedTags.idxOf state.etagIndex with
      | succ index => exact ⟨index, rfl⟩
      | zero =>
          simp only [first] at here
          exact absurd (by rw [← here, List.head?_eq_getElem?, List.getElem?_eq_getElem]) notHead
    rw [position] at occurs
    simp only [position] at here
    obtain ⟨prev, following, before, _, _, way⟩ :=
      List.isChain_iff_getElem.mp (List.isChain_reverse.mp routes) index occurs
    rw [here] at before
    obtain rfl : info = prev := Option.some.inj (present.symm.trans before)
    have small : encodedTags[index] < tags.length := inside _ (List.getElem_mem _)
    have target : tagAt stateMachine info.base = some encodedTags[index] := by
      cases way with
      | single _ stands => exact stands.tagAt (by omega)
      | privately several => exact absurd only several
      | publicly several => exact absurd only several
      | throughNoop several => exact absurd only several
    rw [next based]
    simp only [target, tagged, position, Option.map_some, Option.getD_some]
    have earlier : encodedTags.idxOf encodedTags[index] ≤ index := by
      by_contra later
      have differs := List.not_of_lt_findIdx (Nat.lt_of_not_le later)
      simp at differs
    omega

end Riegeli
