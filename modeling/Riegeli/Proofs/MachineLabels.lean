/-
Module: Riegeli.Proofs.MachineLabels
Purpose: Building the state machine changes what is counted and placed for a
  tag, never which tag it is.
Trusted boundary: none
Main exports: EncodedTagInfo.label, SameLabels, createStateMachine_labels,
  ensureLastStateExplicit_labels
-/
import Riegeli.Core.StateMachine

namespace Riegeli

/-- Which tag an entry of the tags list is. -/
def EncodedTagInfo.label (info : EncodedTagInfo) : NodeId × Nat := (info.nodeId, info.subtype)

/-- The lists have the same tags at the same places. -/
def SameLabels (first second : List EncodedTagInfo) : Prop :=
  first.map EncodedTagInfo.label = second.map EncodedTagInfo.label

theorem SameLabels.length {first second : List EncodedTagInfo} (same : SameLabels first second) :
    first.length = second.length := by
  have counted := congrArg List.length same
  rwa [List.length_map, List.length_map] at counted

theorem SameLabels.get {first second : List EncodedTagInfo} (same : SameLabels first second)
    {index : Nat} {info : EncodedTagInfo} (found : first[index]? = some info) :
    ∃ other, second[index]? = some other ∧ other.nodeId = info.nodeId ∧
      other.subtype = info.subtype := by
  have here := congrArg (fun labels => labels[index]?) same
  simp only [List.getElem?_map, found, Option.map_some] at here
  cases there : second[index]? with
  | none =>
      rw [there] at here
      cases here
  | some other =>
      rw [there, Option.map_some, Option.some.injEq] at here
      exact ⟨other, rfl, (congrArg Prod.fst here).symm, (congrArg Prod.snd here).symm⟩

variable {tags tags' : List EncodedTagInfo}

theorem modifyAt_labels {index : Nat} {update : EncodedTagInfo → EncodedTagInfo}
    (ran : modifyAt tags index update = .ok tags')
    (keeps : ∀ info, (update info).label = info.label) : SameLabels tags' tags := by
  unfold modifyAt at ran
  split at ran
  · cases ran
    refine List.ext_getElem? fun other => ?_
    rw [List.getElem?_map, List.getElem?_map, List.getElem?_modify]
    split
    · cases tags[other]? with
      | none => rfl
      | some info => exact congrArg some (keeps info)
    · cases tags[other]? <;> rfl
  · cases ran

/-! ## Statistics -/

theorem transitionStatisticsLoop_labels (rest : List Nat) :
    ∀ {tags tags' : List EncodedTagInfo} {prevPos : Nat},
      transitionStatisticsLoop tags prevPos rest = .ok tags' → SameLabels tags' tags := by
  induction rest with
  | nil =>
      intro tags tags' prevPos ran
      cases ran
      rfl
  | cons pos rest ih =>
      intro tags tags' prevPos ran
      obtain ⟨first, firstRan, ran⟩ := Except.bind_eq_ok.mp ran
      obtain ⟨second, secondRan, ran⟩ := Except.bind_eq_ok.mp ran
      have later := modifyAt_labels secondRan fun _ => rfl
      exact ((ih ran).trans later).trans (modifyAt_labels firstRan fun _ => rfl)

theorem collectTransitionStatistics_labels {encodedTags : List Nat}
    (ran : collectTransitionStatistics tags encodedTags = .ok tags') : SameLabels tags' tags := by
  unfold collectTransitionStatistics at ran
  split at ran
  · cases ran
    rfl
  · obtain ⟨counted, countedRan, ran⟩ := Except.bind_eq_ok.mp ran
    have initial := modifyAt_labels ran fun info => by split <;> rfl
    exact initial.trans (transitionStatisticsLoop_labels _ countedRan)

theorem ensureLastStateExplicit_labels {encodedTags : List Nat}
    (ran : ensureLastStateExplicit tags encodedTags = .ok tags') : SameLabels tags' tags := by
  unfold ensureLastStateExplicit at ran
  split at ran
  · cases ran
    rfl
  · exact modifyAt_labels ran fun info => by split <;> rfl

/-! ## Marks -/

theorem dropIncoming_labels {tag count : Nat} (ran : dropIncoming tags tag count = .ok tags') :
    SameLabels tags' tags := by
  obtain ⟨info, _, ran⟩ := Except.bind_eq_ok.mp ran
  obtain ⟨left, _, ran⟩ := Except.bind_eq_ok.mp ran
  exact modifyAt_labels ran fun _ => rfl

theorem markDestinations_labels {tagId : Nat} (dests : List (Nat × DestInfo)) :
    ∀ {tags tags' : List EncodedTagInfo}, markDestinations tagId dests tags = .ok tags' →
      SameLabels tags' tags := by
  induction dests with
  | nil =>
      intro tags tags' ran
      cases ran
      rfl
  | cons entry rest ih =>
      intro tags tags' ran
      obtain ⟨destKey, dest⟩ := entry
      rw [markDestinations] at ran
      split at ran
      · obtain ⟨dropped, dropRan, ran⟩ := Except.bind_eq_ok.mp ran
        obtain ⟨marked, markRan, ran⟩ := Except.bind_eq_ok.mp ran
        have here := modifyAt_labels markRan fun _ => rfl
        exact ((ih ran).trans here).trans (dropIncoming_labels dropRan)
      · exact ih ran

theorem markFrequentTransitions_labels (tagIds : List Nat) :
    ∀ {tags tags' : List EncodedTagInfo}, markFrequentTransitions tagIds tags = .ok tags' →
      SameLabels tags' tags := by
  induction tagIds with
  | nil =>
      intro tags tags' ran
      cases ran
      rfl
  | cons tagId rest ih =>
      intro tags tags' ran
      obtain ⟨info, _, ran⟩ := Except.bind_eq_ok.mp ran
      obtain ⟨marked, markRan, ran⟩ := Except.bind_eq_ok.mp ran
      exact (ih ran).trans (markDestinations_labels _ markRan)

/-! ## Lists of states -/

/-- What notes the states of a list changes no tag. -/
def KeepsLabels (record : Nat → Nat → ListTargets → Rust ListTargets) : Prop :=
  ∀ destIndex pos targets targets', record destIndex pos targets = .ok targets' →
    SameLabels targets'.tags targets.tags

theorem recordPrivate_keeps (tagId : Nat) : KeepsLabels (recordPrivate tagId) := by
  intro destIndex pos targets targets' ran
  unfold recordPrivate at ran
  split at ran
  · obtain ⟨tags, modified, ran⟩ := Except.bind_eq_ok.mp ran
    cases ran
    exact modifyAt_labels modified fun _ => rfl
  · obtain ⟨tags, modified, ran⟩ := Except.bind_eq_ok.mp ran
    cases ran
    exact modifyAt_labels modified fun _ => rfl

theorem recordPublic_keeps : KeepsLabels recordPublic := by
  intro destIndex pos targets targets' ran
  obtain ⟨tags, modified, ran⟩ := Except.bind_eq_ok.mp ran
  cases ran
  exact modifyAt_labels modified fun _ => rfl

section Lists

variable {record : Nat → Nat → ListTargets → Rust ListTargets} (keeps : KeepsLabels record)
  {numTags : Nat}

include keeps

theorem placeEntry_labels {entry : PriorityQueueEntry} {state state' : ListState}
    (ran : placeEntry record numTags entry state = .ok state') :
    SameLabels state'.targets.tags state.targets.tags := by
  obtain ⟨prevState, _, ran⟩ := Except.bind_eq_ok.mp ran
  split at ran
  · obtain ⟨machine, _, ran⟩ := Except.bind_eq_ok.mp ran
    obtain ⟨targets, recorded, ran⟩ := Except.bind_eq_ok.mp ran
    cases ran
    exact keeps _ _ _ _ recorded
  · obtain ⟨base, _, ran⟩ := Except.bind_eq_ok.mp ran
    obtain ⟨machine, _, ran⟩ := Except.bind_eq_ok.mp ran
    cases ran
    rfl

theorem placeBlock_labels (count : Nat) :
    ∀ {state state' : ListState} {weight weight' : Nat},
      placeBlock record numTags count state weight = .ok (state', weight') →
      SameLabels state'.targets.tags state.targets.tags := by
  induction count with
  | zero =>
      intro state state' weight weight' ran
      cases ran
      rfl
  | succ count ih =>
      intro state state' weight weight' ran
      rw [placeBlock] at ran
      split at ran
      · cases ran
      · obtain ⟨placed, placedRan, ran⟩ := Except.bind_eq_ok.mp ran
        have placed := placeEntry_labels keeps placedRan
        exact (ih ran).trans placed

theorem placeBlocks_labels (fuel : Nat) :
    ∀ {blockSize : Nat} {state state' : ListState},
      placeBlocks record numTags fuel blockSize state = .ok state' →
      SameLabels state'.targets.tags state.targets.tags := by
  induction fuel with
  | zero =>
      intro blockSize state state' ran
      cases ran
  | succ fuel ih =>
      intro blockSize state state' ran
      obtain ⟨⟨placed, weight⟩, placedRan, ran⟩ := Except.bind_eq_ok.mp ran
      have here := placeBlock_labels keeps blockSize placedRan
      simp only at ran
      split at ran
      · cases ran
        exact here
      · exact (ih ran).trans here

theorem placeList_labels {queue : List PriorityQueueEntry} {stateMachine machine : List StateInfo}
    {targets targets' : ListTargets}
    (ran : placeList record numTags queue stateMachine targets = .ok (machine, targets')) :
    SameLabels targets'.tags targets.tags := by
  obtain ⟨final, placed, ran⟩ := Except.bind_eq_ok.mp ran
  cases ran
  exact placeBlocks_labels keeps _ placed

end Lists

theorem selectDestinations_labels (dests : List (Nat × DestInfo)) :
    ∀ {selection selection' : Selection}, selectDestinations dests selection = .ok selection' →
      SameLabels selection'.tags selection.tags := by
  induction dests with
  | nil =>
      intro selection selection' ran
      cases ran
      rfl
  | cons entry rest ih =>
      intro selection selection' ran
      obtain ⟨destKey, dest⟩ := entry
      obtain ⟨target, _, ran⟩ := Except.bind_eq_ok.mp ran
      simp only at ran
      split at ran
      · obtain ⟨released, releasedRan, ran⟩ := Except.bind_eq_ok.mp ran
        have later := ih ran
        unfold releaseIncoming at releasedRan
        split at releasedRan
        · exact later.trans (dropIncoming_labels releasedRan)
        · cases releasedRan
          exact later
      · have later := ih ran
        exact later

theorem includeExcluded_labels {size : Nat} {selection : Selection}
    {queue : List PriorityQueueEntry}
    (ran : includeExcluded size selection = .ok (tags', queue)) :
    SameLabels tags' selection.tags := by
  unfold includeExcluded at ran
  split at ran
  · split at ran
    · obtain ⟨dropped, dropRan, ran⟩ := Except.bind_eq_ok.mp ran
      cases ran
      exact dropIncoming_labels dropRan
    · cases ran
      rfl
  · cases ran
    rfl

theorem buildPrivateList_labels {tagId : Nat} {stateMachine machine : List StateInfo}
    {targets targets' : ListTargets}
    (ran : buildPrivateList tagId stateMachine targets = .ok (machine, targets')) :
    SameLabels targets'.tags targets.tags := by
  obtain ⟨info, _, ran⟩ := Except.bind_eq_ok.mp ran
  obtain ⟨selection, selected, ran⟩ := Except.bind_eq_ok.mp ran
  have first := selectDestinations_labels _ selected
  split at ran
  · cases ran
    exact first
  · obtain ⟨⟨included, queue⟩, includedRan, ran⟩ := Except.bind_eq_ok.mp ran
    obtain ⟨based, basedRan, ran⟩ := Except.bind_eq_ok.mp ran
    have second := includeExcluded_labels includedRan
    have third := modifyAt_labels basedRan fun _ => rfl
    have placed := placeList_labels (recordPrivate_keeps tagId) ran
    exact ((placed.trans third).trans second).trans first

theorem buildPrivateLists_labels (tagIds : List Nat) :
    ∀ {stateMachine machine : List StateInfo} {targets targets' : ListTargets},
      buildPrivateLists tagIds stateMachine targets = .ok (machine, targets') →
      SameLabels targets'.tags targets.tags := by
  induction tagIds with
  | nil =>
      intro stateMachine machine targets targets' ran
      cases ran
      rfl
  | cons tagId rest ih =>
      intro stateMachine machine targets targets' ran
      obtain ⟨⟨between, built⟩, builtRan, ran⟩ := Except.bind_eq_ok.mp ran
      exact (ih ran).trans (buildPrivateList_labels builtRan)

theorem buildPublicList_labels {stateMachine machine : List StateInfo}
    {targets targets' : ListTargets}
    (ran : buildPublicList stateMachine targets = .ok (machine, targets')) :
    SameLabels targets'.tags targets.tags := by
  unfold buildPublicList at ran
  simp only at ran
  split at ran
  · cases ran
    rfl
  · exact placeList_labels recordPublic_keeps ran

/-! ## Base indices -/

theorem computeTagBases_labels {publicListBase : Nat} {stateMachine : List StateInfo}
    (tagIds : List Nat) :
    ∀ {tags tags' : List EncodedTagInfo},
      computeTagBases publicListBase stateMachine tagIds tags = .ok tags' →
      SameLabels tags' tags := by
  induction tagIds with
  | nil =>
      intro tags tags' ran
      cases ran
      rfl
  | cons tagId rest ih =>
      intro tags tags' ran
      obtain ⟨info, _, ran⟩ := Except.bind_eq_ok.mp ran
      split at ran
      · exact ih ran
      · obtain ⟨minPos, _, ran⟩ := Except.bind_eq_ok.mp ran
        obtain ⟨stored, storedRan, ran⟩ := Except.bind_eq_ok.mp ran
        have later := ih ran
        unfold storeBase at storedRan
        split at storedRan
        · exact later.trans (modifyAt_labels storedRan fun _ => rfl)
        · cases storedRan
          exact later

/-- The tags of a state machine are those it was built for. -/
theorem createStateMachine_labels {encodedTags : List Nat} {stateMachine : List StateInfo}
    (ran : createStateMachine tags encodedTags = .ok (stateMachine, tags')) :
    SameLabels tags' tags := by
  unfold createStateMachine at ran
  split at ran
  · cases ran
    rfl
  · obtain ⟨counted, countedRan, ran⟩ := Except.bind_eq_ok.mp ran
    obtain ⟨marked, markedRan, ran⟩ := Except.bind_eq_ok.mp ran
    obtain ⟨⟨privateMachine, privateTargets⟩, privateRan, ran⟩ := Except.bind_eq_ok.mp ran
    obtain ⟨⟨publicMachine, publicTargets⟩, publicRan, ran⟩ := Except.bind_eq_ok.mp ran
    obtain ⟨machine, _, ran⟩ := Except.bind_eq_ok.mp ran
    obtain ⟨based, basedRan, ran⟩ := Except.bind_eq_ok.mp ran
    cases ran
    have statistics := collectTransitionStatistics_labels countedRan
    have marks := markFrequentTransitions_labels _ markedRan
    have privates := buildPrivateLists_labels _ privateRan
    have publics := buildPublicList_labels publicRan
    have bases := computeTagBases_labels _ basedRan
    exact (((bases.trans publics).trans privates).trans marks).trans statistics

end Riegeli
