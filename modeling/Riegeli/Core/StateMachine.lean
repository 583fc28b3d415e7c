/-
Module: Riegeli.Core.StateMachine
Purpose: The second half of `transpose/encoder.rs`: the state machine built
  from the transition statistics and the transition bytes that drive it.
Trusted boundary: none
Main exports: StateInfo, createStateMachine, ensureLastStateExplicit,
  buildTransitions
-/
import Riegeli.Core.TransposeEncoder

namespace Riegeli

/-- `MAX_TRANSITION`. -/
def maxTransition : Nat := 63

/-- `MIN_COUNT_FOR_STATE`. -/
def minCountForState : Nat := 10

/-- `StateInfo`. -/
structure StateInfo where
  etagIndex : Nat
  base : Nat
  canonicalSource : Nat
deriving Repr, DecidableEq

/-- `StateInfo::new`. -/
def StateInfo.new (etagIndex base : Nat) : StateInfo :=
  { etagIndex := etagIndex, base := base, canonicalSource := invalidPos }

/-- `PriorityQueueEntry`. -/
structure PriorityQueueEntry where
  destIndex : Nat
  numTransitions : Nat
deriving Repr, DecidableEq

/-- `a < b` under `PriorityQueueEntry::cmp`: more transitions come first, and
among equals the smaller destination. -/
def PriorityQueueEntry.before (first second : PriorityQueueEntry) : Bool :=
  decide (second.numTransitions < first.numTransitions) ||
    (decide (second.numTransitions = first.numTransitions) &&
      decide (first.destIndex < second.destIndex))

/-- `BinaryHeap::pop`: take out a greatest entry. -/
def popMax : List PriorityQueueEntry → Option (PriorityQueueEntry × List PriorityQueueEntry)
  | [] => none
  | entry :: rest =>
      match popMax rest with
      | none => some (entry, [])
      | some (greatest, others) =>
          if greatest.before entry then some (entry, rest)
          else some (greatest, entry :: others)

/-- `items[index]` as a place to update. -/
def modifyAt {Item : Type} (items : List Item) (index : Nat) (update : Item → Item) :
    Rust (List Item) :=
  if index < items.length then .ok (items.modify index update)
  else .error (.panic .indexOutOfRange)

/-- Update the destination `dest`, `dest_info.get_mut(&dest).unwrap()`. -/
def modifyDest (dest : Nat) (update : DestInfo → DestInfo) (info : EncodedTagInfo) :
    EncodedTagInfo :=
  { info with
    destInfo := info.destInfo.map fun entry =>
      if entry.1 = dest then (dest, update entry.2) else entry }

/-- `dest_info.entry(dest).or_insert_with(DestInfo::new)` with an update of the
entry. -/
def upsertDest (dest : Nat) (update : DestInfo → DestInfo) :
    List (Nat × DestInfo) → List (Nat × DestInfo)
  | [] => [(dest, update DestInfo.new)]
  | entry :: rest =>
      if entry.1 = dest then (dest, update entry.2) :: rest
      else if dest < entry.1 then (dest, update DestInfo.new) :: entry :: rest
      else entry :: upsertDest dest update rest

/-! ## Transition statistics -/

/-- The loop of `collect_transition_statistics`, on the tags before the last
one in reverse order. -/
def transitionStatisticsLoop : List EncodedTagInfo → Nat → List Nat → Rust (List EncodedTagInfo)
  | tags, _, [] => .ok tags
  | tags, prevPos, pos :: rest => do
      let tags ← modifyAt tags prevPos fun info =>
        { info with
          destInfo :=
            upsertDest pos
              (fun dest => { dest with numTransitions := dest.numTransitions + 1 })
              info.destInfo }
      let tags ← modifyAt tags pos fun info =>
        { info with numIncomingTransitions := info.numIncomingTransitions + 1 }
      transitionStatisticsLoop tags pos rest

/-- `collect_transition_statistics`. -/
def collectTransitionStatistics (tags : List EncodedTagInfo) (encodedTags : List Nat) :
    Rust (List EncodedTagInfo) :=
  match encodedTags.reverse with
  | [] => .ok tags
  | last :: rest => do
      let tags ← transitionStatisticsLoop tags last rest
      -- the initial state exists even when nothing leads to it
      modifyAt tags last fun info =>
        if info.numIncomingTransitions = 0 then { info with numIncomingTransitions := 1 }
        else info

/-- `ensure_last_state_explicit`. -/
def ensureLastStateExplicit (tags : List EncodedTagInfo) (encodedTags : List Nat) :
    Rust (List EncodedTagInfo) :=
  match encodedTags with
  | [] => .ok tags
  | lastEtagIdx :: _ =>
      modifyAt tags lastEtagIdx fun info =>
        match info.destInfo with
        | [(firstKey, dest)] =>
            { info with destInfo := upsertDest (firstKey + 1) id [(firstKey, dest)] }
        | _ => info

/-- Subtract from the incoming transitions of a tag. -/
def dropIncoming (tags : List EncodedTagInfo) (tag count : Nat) : Rust (List EncodedTagInfo) := do
  let info ← indexAt tags tag
  let left ← subWord info.numIncomingTransitions count
  modifyAt tags tag fun info => { info with numIncomingTransitions := left }

/-- The mark of a destination that goes to the private list, `k_in_list_pos`. -/
def inListPos : Nat := 0

/-- The inner loop of `mark_frequent_transitions` over the destinations of
`tagId`. -/
def markDestinations (tagId : Nat) :
    List (Nat × DestInfo) → List EncodedTagInfo → Rust (List EncodedTagInfo)
  | [], tags => .ok tags
  | (destKey, dest) :: rest, tags =>
      if minCountForState ≤ dest.numTransitions then do
        let tags ← dropIncoming tags destKey dest.numTransitions
        let tags ← modifyAt tags tagId (modifyDest destKey fun dest => { dest with pos := inListPos })
        markDestinations tagId rest tags
      else markDestinations tagId rest tags

/-- `mark_frequent_transitions`, for the tags listed. -/
def markFrequentTransitions : List Nat → List EncodedTagInfo → Rust (List EncodedTagInfo)
  | [], tags => .ok tags
  | tagId :: rest, tags => do
      let info ← indexAt tags tagId
      let tags ← markDestinations tagId info.destInfo tags
      markFrequentTransitions rest tags

/-! ## Lists of states -/

/-- What the construction of the lists updates: the tags and the NoOp states
that lead to the public list, with the tag each one serves. -/
structure ListTargets where
  tags : List EncodedTagInfo
  publicListNoops : List (Nat × Nat)
deriving Repr, DecidableEq

/-- The variables of the loop that writes one list of states back to front. -/
structure ListState where
  stateMachine : List StateInfo
  prevState : Nat
  queue : List PriorityQueueEntry
  noopBase : List Nat
  targets : ListTargets
deriving Repr, DecidableEq

/-- Set the canonical source of the block that starts at `base`. -/
def setCanonicalSource (stateMachine : List StateInfo) (base source : Nat) : List StateInfo :=
  stateMachine.mapIdx fun index state =>
    if base ≤ index ∧ index ≤ base + maxTransition then
      { state with canonicalSource := source }
    else state

/-- Write one popped entry.  `record` notes the position of a state that is not
a NoOp inside the list. -/
def placeEntry (record : Nat → Nat → ListTargets → Rust ListTargets) (numTags : Nat)
    (entry : PriorityQueueEntry) (state : ListState) : Rust ListState := do
  let prevState ← subWord state.prevState 1
  if entry.destIndex = invalidPos ∨ entry.destIndex < numTags then do
    -- a tag, or the NoOp that leads to the public list
    let stateMachine ←
      modifyAt state.stateMachine prevState fun _ => StateInfo.new entry.destIndex invalidPos
    let targets ← record entry.destIndex prevState state.targets
    .ok
      { state with
        stateMachine := stateMachine
        prevState := prevState
        targets := targets }
  else do
    -- the NoOp that leads to a block written before
    let base ← indexAt state.noopBase (entry.destIndex - numTags)
    let stateMachine ←
      modifyAt state.stateMachine prevState fun _ => StateInfo.new invalidPos base
    .ok
      { state with
        stateMachine := setCanonicalSource stateMachine base prevState
        prevState := prevState }

/-- The states of one block: the list state and the weight of the block. -/
def placeBlock (record : Nat → Nat → ListTargets → Rust ListTargets) (numTags : Nat) :
    Nat → ListState → Nat → Rust (ListState × Nat)
  | 0, state, weight => .ok (state, weight)
  | count + 1, state, weight =>
      match popMax state.queue with
      | none => .error (.panic .unwrapOnNone)
      | some (entry, queue) => do
          let state ← placeEntry record numTags entry { state with queue := queue }
          placeBlock record numTags count state (weight + entry.numTransitions)

/-- The outer loop: one block, then a NoOp that serves it. -/
def placeBlocks (record : Nat → Nat → ListTargets → Rust ListTargets) (numTags : Nat) :
    Nat → Nat → ListState → Rust ListState
  | 0, _, _ => .error .outOfFuel
  | fuel + 1, blockSize, state => do
      let (state, weight) ← placeBlock record numTags blockSize state 0
      if state.queue.isEmpty then .ok state
      else
        placeBlocks record numTags fuel (maxTransition + 1)
          { state with
            queue :=
              { destIndex := numTags + state.noopBase.length, numTransitions := weight } ::
                state.queue
            noopBase := state.noopBase ++ [state.prevState] }

/-- Append a list that holds the states of `queue`, as `build_private_lists`
and `build_public_list` both do it. -/
def placeList (record : Nat → Nat → ListTargets → Rust ListTargets) (numTags : Nat)
    (queue : List PriorityQueueEntry) (stateMachine : List StateInfo)
    (targets : ListTargets) : Rust (List StateInfo × ListTargets) := do
  let numStates := queue.length
  let noopNodes := if numStates ≤ maxTransition + 1 then 0 else (numStates - 2) / maxTransition
  let numStates := numStates + noopNodes
  let blockSize := (numStates - 1) % (maxTransition + 1) + 1
  let final ←
    placeBlocks record numTags (queue.length + 1) blockSize
      { stateMachine :=
          stateMachine ++ List.replicate numStates (StateInfo.new invalidPos invalidPos)
        prevState := stateMachine.length + numStates
        queue := queue
        noopBase := []
        targets := targets }
  .ok (final.stateMachine, final.targets)

/-! ## Private lists -/

/-- The selection of the destinations of one tag. -/
structure Selection where
  tags : List EncodedTagInfo
  queue : List PriorityQueueEntry
  excludedState : Option PriorityQueueEntry
  numExcludedTransitions : Nat
deriving Repr, DecidableEq

/-- Take the transitions to a selected destination off its count, unless
`mark_frequent_transitions` did so. -/
def releaseIncoming (tags : List EncodedTagInfo) (destKey : Nat) (dest : DestInfo) :
    Rust (List EncodedTagInfo) :=
  if dest.pos ≠ inListPos then dropIncoming tags destKey dest.numTransitions else .ok tags

/-- The selection loop of `build_private_lists`. -/
def selectDestinations : List (Nat × DestInfo) → Selection → Rust Selection
  | [], selection => .ok selection
  | (destKey, dest) :: rest, selection => do
      let target ← indexAt selection.tags destKey
      let entry : PriorityQueueEntry :=
        { destIndex := destKey, numTransitions := dest.numTransitions }
      if dest.pos = inListPos ∨ dest.numTransitions = target.numIncomingTransitions then do
        let tags ← releaseIncoming selection.tags destKey dest
        selectDestinations rest { selection with tags := tags, queue := entry :: selection.queue }
      else
        selectDestinations rest
          { selection with
            excludedState := some entry
            numExcludedTransitions := selection.numExcludedTransitions + dest.numTransitions }

/-- Where a state of the private list of `tagId` is noted. -/
def recordPrivate (tagId destIndex pos : Nat) (targets : ListTargets) : Rust ListTargets := do
  if destIndex = invalidPos then do
    let tags ← modifyAt targets.tags tagId fun info => { info with publicListNoopPos := pos }
    .ok { tags := tags, publicListNoops := targets.publicListNoops ++ [(tagId, pos)] }
  else do
    let tags ←
      modifyAt targets.tags tagId (modifyDest destIndex fun dest => { dest with pos := pos })
    .ok { targets with tags := tags }

/-- The queue of the private list before its NoOp state: when a single
destination is left out of `size`, it is taken in. -/
def includeExcluded (size : Nat) (selection : Selection) :
    Rust (List EncodedTagInfo × List PriorityQueueEntry) :=
  if selection.queue.length + 1 = size then
    match selection.excludedState with
    | some excluded => do
        let tags ← dropIncoming selection.tags excluded.destIndex excluded.numTransitions
        .ok (tags, excluded :: selection.queue)
    | none => .ok (selection.tags, selection.queue)
  else .ok (selection.tags, selection.queue)

/-- The pass of `build_private_lists` for one tag. -/
def buildPrivateList (tagId : Nat) (stateMachine : List StateInfo) (targets : ListTargets) :
    Rust (List StateInfo × ListTargets) := do
  let info ← indexAt targets.tags tagId
  let selection ←
    selectDestinations info.destInfo
      { tags := targets.tags, queue := [], excludedState := none, numExcludedTransitions := 0 }
  if selection.queue.isEmpty then
    .ok (stateMachine, { targets with tags := selection.tags })
  else do
    let size := info.destInfo.length
    let (tags, queue) ← includeExcluded size selection
    let numStates :=
      if selection.queue.length + 1 = size then size else selection.queue.length
    let queue :=
      if numStates ≠ size then
        { destIndex := invalidPos, numTransitions := selection.numExcludedTransitions } :: queue
      else queue
    let tags ← modifyAt tags tagId fun info => { info with base := stateMachine.length }
    placeList (recordPrivate tagId) tags.length queue stateMachine { targets with tags := tags }

/-- `build_private_lists`, for the tags listed. -/
def buildPrivateLists :
    List Nat → List StateInfo → ListTargets → Rust (List StateInfo × ListTargets)
  | [], stateMachine, targets => .ok (stateMachine, targets)
  | tagId :: rest, stateMachine, targets => do
      let (stateMachine, targets) ← buildPrivateList tagId stateMachine targets
      buildPrivateLists rest stateMachine targets

/-! ## The public list -/

/-- The tags with incoming transitions left, with their counts. -/
def publicEntries : Nat → List EncodedTagInfo → List PriorityQueueEntry
  | _, [] => []
  | index, info :: rest =>
      if info.numIncomingTransitions ≠ 0 then
        { destIndex := index, numTransitions := info.numIncomingTransitions } ::
          publicEntries (index + 1) rest
      else publicEntries (index + 1) rest

/-- Where a state of the public list is noted. -/
def recordPublic (destIndex pos : Nat) (targets : ListTargets) : Rust ListTargets := do
  let tags ← modifyAt targets.tags destIndex fun info => { info with stateMachinePos := pos }
  .ok { targets with tags := tags }

/-- `build_public_list`. -/
def buildPublicList (stateMachine : List StateInfo) (targets : ListTargets) :
    Rust (List StateInfo × ListTargets) :=
  let queue := publicEntries 0 targets.tags
  if queue.isEmpty then .ok (stateMachine, targets)
  else placeList recordPublic targets.tags.length queue stateMachine targets

/-! ## Base indices -/

/-- The variables of the search in `find_optimal_base`. -/
structure BaseSearch where
  base : Nat
  minPos : Nat
deriving Repr, DecidableEq

/-- The inner loop of `find_optimal_base`: move `base` up or `pos` down until
`pos` is within reach of `base`. -/
def reachLoop (publicListBase : Nat) (stateMachine : List StateInfo) :
    Nat → BaseSearch → Nat → Rust (BaseSearch × Nat)
  | 0, _, _ => .error .outOfFuel
  | fuel + 1, search, pos =>
      if pos < search.base ∨
          (search.base ≠ invalidPos ∧ maxTransition < pos - search.base) then
        if pos < search.base then
          if search.base = invalidPos then do
            let state ← indexAt stateMachine pos
            if state.canonicalSource = invalidPos then
              reachLoop publicListBase stateMachine fuel
                { search with base := publicListBase } pos
            else do
              let source ← indexAt stateMachine state.canonicalSource
              reachLoop publicListBase stateMachine fuel { search with base := source.base } pos
          else do
            let state ← indexAt stateMachine search.base
            if state.canonicalSource = invalidPos then
              reachLoop publicListBase stateMachine fuel
                { search with base := publicListBase } pos
            else do
              let minPos := min search.minPos state.canonicalSource
              let source ← indexAt stateMachine state.canonicalSource
              if source.canonicalSource = invalidPos then
                reachLoop publicListBase stateMachine fuel
                  { base := publicListBase, minPos := minPos } pos
              else do
                let outer ← indexAt stateMachine source.canonicalSource
                reachLoop publicListBase stateMachine fuel
                  { base := outer.base, minPos := minPos } pos
        else do
          let state ← indexAt stateMachine pos
          if state.canonicalSource = invalidPos then .ok (search, pos)
          else reachLoop publicListBase stateMachine fuel search state.canonicalSource
      else .ok (search, pos)

/-- The loop of `find_optimal_base` over the destinations of a tag. -/
def findOptimalBaseLoop (publicListBase : Nat) (tags : List EncodedTagInfo)
    (stateMachine : List StateInfo) :
    List (Nat × DestInfo) → BaseSearch → Rust BaseSearch
  | [], search => .ok search
  | (destKey, dest) :: rest, search =>
      if dest.pos ≠ invalidPos then
        findOptimalBaseLoop publicListBase tags stateMachine rest search
      else do
        let target ← indexAt tags destKey
        if target.stateMachinePos = invalidPos then
          findOptimalBaseLoop publicListBase tags stateMachine rest search
        else do
          let (search, pos) ←
            reachLoop publicListBase stateMachine (2 * stateMachine.length + 2) search
              target.stateMachinePos
          findOptimalBaseLoop publicListBase tags stateMachine rest
            { search with minPos := min search.minPos pos }

/-- `find_optimal_base`; its callers use the smallest position only. -/
def findOptimalBase (publicListBase : Nat) (tags : List EncodedTagInfo)
    (stateMachine : List StateInfo) (tagIndex : Nat) : Rust Nat := do
  let info ← indexAt tags tagIndex
  let search ←
    findOptimalBaseLoop publicListBase tags stateMachine info.destInfo
      { base := invalidPos, minPos := invalidPos }
  .ok search.minPos

/-- Store a base that was found. -/
def storeBase {Item : Type} (items : List Item) (index minPos : Nat)
    (store : Nat → Item → Item) : Rust (List Item) :=
  if minPos ≠ invalidPos then modifyAt items index (store minPos) else .ok items

/-- `compute_base_indices` for the NoOp states that lead to the public list. -/
def computeNoopBases (publicListBase : Nat) (tags : List EncodedTagInfo) :
    List (Nat × Nat) → List StateInfo → Rust (List StateInfo)
  | [], stateMachine => .ok stateMachine
  | (tagIndex, stateIndex) :: rest, stateMachine => do
      let minPos ← findOptimalBase publicListBase tags stateMachine tagIndex
      let stateMachine ←
        storeBase stateMachine stateIndex minPos fun minPos state => { state with base := minPos }
      computeNoopBases publicListBase tags rest stateMachine

/-- `compute_base_indices` for the tags without a private list. -/
def computeTagBases (publicListBase : Nat) (stateMachine : List StateInfo) :
    List Nat → List EncodedTagInfo → Rust (List EncodedTagInfo)
  | [], tags => .ok tags
  | tagIdx :: rest, tags => do
      let info ← indexAt tags tagIdx
      if info.base ≠ invalidPos then computeTagBases publicListBase stateMachine rest tags
      else do
        let minPos ← findOptimalBase publicListBase tags stateMachine tagIdx
        let tags ← storeBase tags tagIdx minPos fun minPos info => { info with base := minPos }
        computeTagBases publicListBase stateMachine rest tags

/-- `create_state_machine`: the states and the updated tags. -/
def createStateMachine (tags : List EncodedTagInfo) (encodedTags : List Nat) :
    Rust (List StateInfo × List EncodedTagInfo) :=
  if encodedTags.isEmpty then .ok ([StateInfo.new invalidPos 0], tags)
  else do
    let tags ← collectTransitionStatistics tags encodedTags
    let tags ← markFrequentTransitions (List.range tags.length) tags
    let (stateMachine, targets) ←
      buildPrivateLists (List.range tags.length) []
        { tags := tags, publicListNoops := [] }
    let publicListBase := stateMachine.length
    let (stateMachine, targets) ← buildPublicList stateMachine targets
    let stateMachine ←
      computeNoopBases publicListBase targets.tags targets.publicListNoops stateMachine
    let tags ←
      computeTagBases publicListBase stateMachine (List.range targets.tags.length) targets.tags
    .ok (stateMachine, tags)

/-! ## Transitions -/

/-- `emit_transition_bytes`: a zero offset is counted into the low bits of the
byte before it while these hold less than three. -/
def emitTransitionBytes :
    List UInt8 → Bytes → Option UInt8 → Bytes × Option UInt8
  | [], transitions, last => (transitions, last)
  | offset :: rest, transitions, none =>
      emitTransitionBytes rest transitions (some (offset <<< 2))
  | offset :: rest, transitions, some last =>
      if offset = 0 ∧ (last &&& 3) < 3 then
        emitTransitionBytes rest transitions (some (last + 1))
      else emitTransitionBytes rest (transitions ++ [last]) (some (offset <<< 2))

/-- The loops of `build_transitions` that walk from `target` up the canonical
sources until it is in reach of `currentBase`.  `writeBuf` collects the
offsets, last one first.  Only the walk to a tag's state checks the source. -/
def canonicalWalk (stateMachine : List StateInfo) (checked : Bool) (currentBase : Nat) :
    Nat → Nat → List UInt8 → Rust (Nat × List UInt8)
  | 0, _, _ => .error .outOfFuel
  | fuel + 1, target, writeBuf =>
      if target < currentBase ∨
          (currentBase ≠ invalidPos ∧ maxTransition < target - currentBase) then do
        let state ← indexAt stateMachine target
        let cs := state.canonicalSource
        if checked && decide (cs = invalidPos ∨ stateMachine.length ≤ cs) then
          .ok (target, writeBuf)
        else do
          let source ← indexAt stateMachine cs
          let offset ← subWord target source.base
          canonicalWalk stateMachine checked currentBase fuel cs
            (UInt8.ofNat offset :: writeBuf)
      else .ok (target, writeBuf)

/-- The offsets from `currentBase` to `target`, first one first. -/
def hopsTo (stateMachine : List StateInfo) (checked : Bool) (currentBase target : Nat) :
    Rust (List UInt8) := do
  let (target, writeBuf) ←
    canonicalWalk stateMachine checked currentBase (target + 2) target []
  let offset ← subWord target currentBase
  .ok (UInt8.ofNat offset :: writeBuf)

/-- The variables of `build_transitions`. -/
structure TransitionState where
  prevEtag : Nat
  currentBase : Nat
  transitions : Bytes
  lastTransition : Option UInt8
deriving Repr, DecidableEq

/-- Emit the bytes that lead from the current base to the state `pos`. -/
def emitHops (stateMachine : List StateInfo) (checked : Bool) (pos : Nat)
    (state : TransitionState) : Rust TransitionState := do
  let hops ← hopsTo stateMachine checked state.currentBase pos
  let (transitions, last) := emitTransitionBytes hops state.transitions state.lastTransition
  .ok { state with transitions := transitions, lastTransition := last }

/-- The position of the state for `next` and the transition state to reach it
from, past the NoOp that leads to the public list when there is one. -/
def locateTarget (stateMachine : List StateInfo) (prev next : EncodedTagInfo) (tag : Nat)
    (state : TransitionState) : Rust (TransitionState × Nat) :=
  let privatePos := ((prev.destInfo.lookup tag).map DestInfo.pos).getD invalidPos
  if privatePos ≠ invalidPos then .ok (state, privatePos)
  else if prev.publicListNoopPos ≠ invalidPos then do
    let state ← emitHops stateMachine false prev.publicListNoopPos state
    let noop ← indexAt stateMachine prev.publicListNoopPos
    .ok ({ state with currentBase := noop.base }, next.stateMachinePos)
  else .ok (state, next.stateMachinePos)

/-- One pass of `build_transitions`: the transition to `tag`. -/
def buildTransition (tags : List EncodedTagInfo) (stateMachine : List StateInfo)
    (state : TransitionState) (tag : Nat) : Rust TransitionState := do
  let prev ← indexAt tags state.prevEtag
  let next ← indexAt tags tag
  if prev.destInfo.length = 1 then
    .ok { state with prevEtag := tag, currentBase := next.base }
  else do
    let (state, pos) ← locateTarget stateMachine prev next tag state
    if state.currentBase = invalidPos ∨ pos = invalidPos then
      .ok { state with prevEtag := tag, currentBase := next.base }
    else do
      let state ← emitHops stateMachine true pos state
      .ok { state with prevEtag := tag, currentBase := next.base }

/-- The loop of `build_transitions`. -/
def buildTransitionsLoop (tags : List EncodedTagInfo) (stateMachine : List StateInfo) :
    List Nat → TransitionState → Rust TransitionState
  | [], state => .ok state
  | tag :: rest, state => do
      let state ← buildTransition tags stateMachine state tag
      buildTransitionsLoop tags stateMachine rest state

/-- `build_transitions`. -/
def buildTransitions (tags : List EncodedTagInfo) (encodedTags : List Nat)
    (stateMachine : List StateInfo) : Rust Bytes :=
  match encodedTags.reverse with
  | [] => .ok []
  | last :: rest => do
      let info ← indexAt tags last
      let state ←
        buildTransitionsLoop tags stateMachine rest
          { prevEtag := last
            currentBase := info.base
            transitions := []
            lastTransition := none }
      match state.lastTransition with
      | some byte => .ok (state.transitions ++ [byte])
      | none => .ok state.transitions

end Riegeli
