/-
Module: Riegeli.Proofs.PrivateLists
Purpose: Every tag's private list holds a state for each destination it takes
  care of, and the transitions it does not take care of stay counted.
Trusted boundary: none
Main exports: EncodedTagInfo.Vacant, markFrequentTransitions_marks, PrivateList,
  PrivatePhase, buildPrivateLists_private
-/
import Riegeli.Proofs.TransitionCounts
import Riegeli.Proofs.TransitionReplay

namespace Riegeli

variable {tags : List EncodedTagInfo}

/-! ## Positions of destinations -/

/-- A destination gets its position. -/
def setDestPos (dest pos : Nat) (info : EncodedTagInfo) : EncodedTagInfo :=
  modifyDest dest (fun known => { known with pos := pos }) info

theorem setDestPos_lookup (dest pos other : Nat) (info : EncodedTagInfo) :
    (setDestPos dest pos info).destInfo.lookup other =
      (info.destInfo.lookup other).map fun known =>
        if other = dest then { known with pos := pos } else known :=
  modifyDest_lookup dest other _ info

theorem setDestPos_counts (dest pos : Nat) (info : EncodedTagInfo) :
    (setDestPos dest pos info).counts = info.counts := by
  unfold setDestPos modifyDest EncodedTagInfo.counts
  rw [List.map_map]
  apply List.map_congr_left
  intro entry _
  simp only [Function.comp_apply]
  split
  · rename_i same
    rw [← same]
  · rfl

/-- A destination with a position is no longer loose. -/
theorem setDestPos_loose {dest pos : Nat} (valid : pos ≠ invalidPos) (info : EncodedTagInfo)
    (other : Nat) :
    (setDestPos dest pos info).loose other = if other = dest then 0 else info.loose other := by
  unfold EncodedTagInfo.loose
  rw [setDestPos_lookup]
  cases info.destInfo.lookup other with
  | none =>
      rw [Option.map_none]
      exact (ite_self 0).symm
  | some known =>
      rw [Option.map_some]
      by_cases here : other = dest
      · simp only [if_pos here, if_neg valid]
      · simp only [if_neg here]

theorem looseAt_setDestPos {tag dest pos : Nat} (valid : pos ≠ invalidPos) :
    looseAt (tags.modify tag (setDestPos dest pos)) =
      fun other key => if other = tag ∧ key = dest then 0 else looseAt tags other key := by
  funext other key
  unfold looseAt
  rw [List.getElem?_modify]
  cases tags[other]? with
  | none =>
      simp only [Option.map_eq_map, Option.map_none]
      split <;> rfl
  | some info =>
      simp only [Option.map_eq_map, Option.map_some]
      by_cases here : tag = other
      · subst here
        simp only [if_true, setDestPos_loose valid, true_and]
      · have elsewhere : ¬ (other = tag ∧ key = dest) := fun both => here both.1.symm
        simp only [if_neg here, if_neg elsewhere]

theorem SameCounts.modify (update : EncodedTagInfo → EncodedTagInfo)
    (keeps : ∀ info, (update info).counts = info.counts) (tags : List EncodedTagInfo)
    (index : Nat) : SameCounts (tags.modify index update) tags := by
  refine List.ext_getElem? fun other => ?_
  rw [List.getElem?_map, List.getElem?_map, List.getElem?_modify]
  split
  · cases tags[other]? with
    | none => rfl
    | some info => exact congrArg some (keeps info)
  · cases tags[other]? <;> rfl

/-! ## Marks -/

/-- A tag without a private list, whose destinations may be marked for one. -/
structure EncodedTagInfo.Vacant (info : EncodedTagInfo) : Prop where
  base : info.base = invalidPos
  noop : info.publicListNoopPos = invalidPos
  position : info.stateMachinePos = invalidPos
  marks : ∀ dest known, info.destInfo.lookup dest = some known →
    known.pos = invalidPos ∨ known.pos = inListPos

/-- No destination is marked. -/
def EncodedTagInfo.Unmarked (info : EncodedTagInfo) : Prop :=
  ∀ dest known, info.destInfo.lookup dest = some known → known.pos = invalidPos

theorem EncodedTagInfo.loose_unmarked {info : EncodedTagInfo} {dest : Nat} {known : DestInfo}
    (found : info.destInfo.lookup dest = some known) (free : known.pos = invalidPos) :
    info.loose dest = known.numTransitions := by
  unfold EncodedTagInfo.loose
  rw [found]
  exact if_pos free

/-- What marking destinations of a tag changes. -/
structure MarkedAt (tagId : Nat) (before after : List EncodedTagInfo) : Prop where
  counts : SameCounts after before
  others : ∀ tag, tag ≠ tagId →
    after[tag]?.map EncodedTagInfo.settled = before[tag]?.map EncodedTagInfo.settled
  vacant : (∀ info, before[tagId]? = some info → info.Vacant) →
    ∀ info, after[tagId]? = some info → info.Vacant

/-- Marking one destination. -/
theorem mark_step {extra : Nat → Nat} {tagId dest : Nat} {info : EncodedTagInfo}
    {known : DestInfo} (balanced : Balanced (looseAt tags) extra tags)
    (found : tags[tagId]? = some info) (looked : info.destInfo.lookup dest = some known)
    (free : known.pos = invalidPos) (there : dest < tags.length) :
    ∃ tags', dropIncoming tags dest known.numTransitions = .ok tags' ∧ SameLists tags' tags ∧
      Balanced (looseAt (tags'.modify tagId (setDestPos dest inListPos))) extra
        (tags'.modify tagId (setDestPos dest inListPos)) := by
  have inside := (List.getElem?_eq_some_iff.mp found).1
  have amount : looseAt tags tagId dest = known.numTransitions := by
    rw [looseAt_eq found, info.loose_unmarked looked free]
  obtain ⟨tags', dropped, same, balanced'⟩ := dropIncoming_balanced balanced inside there
  rw [amount] at dropped
  refine ⟨tags', dropped, same, ?_⟩
  rw [looseAt_setDestPos (by decide), same.loose]
  exact balanced'.modify tagId _ fun _ => rfl

theorem MarkedAt.refl (tagId : Nat) (tags : List EncodedTagInfo) : MarkedAt tagId tags tags :=
  ⟨rfl, fun _ _ => rfl, fun vacant => vacant⟩

theorem MarkedAt.trans {tagId : Nat} {first second third : List EncodedTagInfo}
    (one : MarkedAt tagId first second) (two : MarkedAt tagId second third) :
    MarkedAt tagId first third where
  counts := Eq.trans two.counts one.counts
  others tag differs := (two.others tag differs).trans (one.others tag differs)
  vacant vacant := two.vacant (one.vacant vacant)

theorem SameLists.settled_get {first second : List EncodedTagInfo} (same : SameLists first second)
    (tag : Nat) :
    first[tag]?.map EncodedTagInfo.settled = second[tag]?.map EncodedTagInfo.settled := by
  have mapped := congrArg (fun infos => infos[tag]?) same
  simpa only [List.getElem?_map] using mapped

/-- A tag that agrees on everything but its count is as vacant. -/
theorem EncodedTagInfo.Vacant.of_settled {first second : EncodedTagInfo}
    (vacant : first.Vacant) (same : first.settled = second.settled) : second.Vacant := by
  have wholly : second.settled.Vacant := by
    rw [← same]
    exact ⟨vacant.base, vacant.noop, vacant.position, vacant.marks⟩
  exact ⟨wholly.base, wholly.noop, wholly.position, wholly.marks⟩

/-- Setting the mark of a destination, after its transitions were taken off. -/
theorem MarkedAt.mark {tagId dest : Nat} {tags' : List EncodedTagInfo}
    (same : SameLists tags' tags) :
    MarkedAt tagId tags (tags'.modify tagId (setDestPos dest inListPos)) := by
  constructor
  case counts =>
      exact Eq.trans (SameCounts.modify _ (setDestPos_counts dest inListPos) tags' tagId)
        same.counts
  case others =>
      intro tag differs
      rw [List.getElem?_modify_ne _ _ differs.symm, same.settled_get tag]
  case vacant =>
      intro vacant info found
      rw [List.getElem?_modify_eq] at found
      obtain ⟨old, there, rfl⟩ := Option.map_eq_some_iff.mp found
      obtain ⟨first, before, settled⟩ := same.get there
      have vacant' := (vacant first before).of_settled settled.symm
      refine ⟨vacant'.base, vacant'.noop, vacant'.position, fun other known looked => ?_⟩
      rw [setDestPos_lookup] at looked
      obtain ⟨known', looked', rfl⟩ := Option.map_eq_some_iff.mp looked
      split
      · exact .inr rfl
      · exact vacant'.marks other known' looked'

/-- The frequent destinations of one tag are marked. -/
theorem markDestinations_marks {extra : Nat → Nat} {tagId : Nat} {dests : List (Nat × DestInfo)} :
    ∀ {tags : List EncodedTagInfo} {info : EncodedTagInfo}, Balanced (looseAt tags) extra tags →
      tags[tagId]? = some info → (dests.map Prod.fst).Nodup →
      (∀ entry ∈ dests, info.destInfo.lookup entry.1 = some entry.2 ∧
        entry.2.pos = invalidPos ∧ entry.1 < tags.length) →
      ∃ tags', markDestinations tagId dests tags = .ok tags' ∧
        Balanced (looseAt tags') extra tags' ∧ MarkedAt tagId tags tags' := by
  induction dests with
  | nil => exact fun balanced _ _ _ => ⟨_, rfl, balanced, .refl _ _⟩
  | cons entry rest ih =>
      intro tags info balanced found distinct here
      obtain ⟨dest, known⟩ := entry
      obtain ⟨fresh, distinct'⟩ := List.nodup_cons.mp distinct
      obtain ⟨⟨looked, free, there⟩, later⟩ := List.forall_mem_cons.mp here
      rw [markDestinations]
      by_cases frequent : minCountForState ≤ known.numTransitions
      · obtain ⟨tags', dropped, same, balanced'⟩ := mark_step balanced found looked free there
        have inside : tagId < tags'.length := by
          rw [same.length]
          exact (List.getElem?_eq_some_iff.mp found).1
        have marked := @MarkedAt.mark tags tagId dest tags' same
        obtain ⟨middle, found', settled⟩ := SameLists.get (Eq.symm same) found
        have dests : info.settled.destInfo = middle.settled.destInfo := by rw [settled]
        change info.destInfo = middle.destInfo at dests
        have changed : (tags'.modify tagId (setDestPos dest inListPos))[tagId]? =
            some (setDestPos dest inListPos middle) := by
          rw [List.getElem?_modify_eq, found']
          rfl
        obtain ⟨tags'', ran, balanced'', marked'⟩ := ih balanced' changed distinct' (by
          intro entry member
          obtain ⟨looked', free', there'⟩ := later entry member
          have differs : entry.1 ≠ dest := by
            intro same
            have listed := List.mem_map_of_mem (f := Prod.fst) member
            rw [same] at listed
            exact fresh listed
          refine ⟨?_, free', ?_⟩
          · rw [setDestPos_lookup, ← dests, looked', Option.map_some, if_neg differs]
          · rw [List.length_modify, same.length]
            exact there')
        refine ⟨tags'', ?_, balanced'', marked.trans marked'⟩
        rw [if_pos frequent, dropped, Except.ok_bind, modifyAt_eq inside, Except.ok_bind]
        exact ran
      · rw [if_neg frequent]
        exact ih balanced found distinct' later

/-- What the tags are like before any list is built: the destinations are
those of the transitions `pairs`, and transitions that are not loose are
marked. -/
structure Vacancies (pairs : List (Nat × Nat)) (extra : Nat → Nat) (tags : List EncodedTagInfo) :
    Prop where
  linked : Linked pairs tags
  inside : ∀ tag dest, (tag, dest) ∈ pairs → dest < tags.length
  balanced : Balanced (looseAt tags) extra tags
  vacant : ∀ info ∈ tags, info.Vacant

theorem markFrequentTransitions_marks {pairs : List (Nat × Nat)} {extra : Nat → Nat}
    {ids : List Nat} :
    ∀ {tags : List EncodedTagInfo}, Vacancies pairs extra tags → ids.Nodup →
      (∀ id ∈ ids, ∃ info, tags[id]? = some info ∧ info.Unmarked) →
      ∃ tags', markFrequentTransitions ids tags = .ok tags' ∧ Vacancies pairs extra tags' ∧
        SameCounts tags' tags := by
  induction ids with
  | nil => exact fun vacancies _ _ => ⟨_, rfl, vacancies, rfl⟩
  | cons id rest ih =>
      intro tags vacancies distinct unmarked
      obtain ⟨fresh, distinct'⟩ := List.nodup_cons.mp distinct
      obtain ⟨⟨info, found, free⟩, later⟩ := List.forall_mem_cons.mp unmarked
      have ordered := vacancies.linked.ordered info (List.mem_of_getElem? found)
      obtain ⟨tags', ran, balanced, marked⟩ :=
        markDestinations_marks vacancies.balanced found (List.Pairwise.imp Nat.ne_of_lt ordered)
          (fun entry member => by
            have looked := ordered.lookup_of_mem member
            obtain ⟨_, listed⟩ := vacancies.linked.entries id info entry.1 entry.2 found looked
            exact ⟨looked, free entry.1 entry.2 looked, vacancies.inside id entry.1 listed⟩)
      have vacancies' : Vacancies pairs extra tags' := by
        refine ⟨vacancies.linked.of_counts marked.counts, ?_, balanced, fun after member => ?_⟩
        · rw [SameCounts.length marked.counts]
          exact vacancies.inside
        · obtain ⟨tag, there⟩ := List.getElem?_of_mem member
          by_cases here : tag = id
          · subst here
            refine marked.vacant (fun old before => ?_) after there
            exact vacancies.vacant old (List.mem_of_getElem? before)
          · have settled := marked.others tag here
            rw [there, Option.map_some] at settled
            obtain ⟨old, before, same⟩ := Option.map_eq_some_iff.mp settled.symm
            exact (vacancies.vacant old (List.mem_of_getElem? before)).of_settled same
      obtain ⟨tags'', ran', vacancies'', counts⟩ := ih vacancies' distinct' (by
        intro other member
        obtain ⟨old, before, unmarked⟩ := later other member
        have differs : other ≠ id := by
          rintro rfl
          exact fresh member
        have settled := marked.others other differs
        rw [before, Option.map_some] at settled
        obtain ⟨after, there, same⟩ := Option.map_eq_some_iff.mp settled
        refine ⟨after, there, fun dest known looked => ?_⟩
        have dests : after.settled.destInfo = old.settled.destInfo := by rw [same]
        change after.destInfo = old.destInfo at dests
        rw [dests] at looked
        exact unmarked dest known looked)
      refine ⟨tags'', ?_, vacancies'', Eq.trans counts marked.counts⟩
      rw [markFrequentTransitions, indexAt_eq_ok.mpr found, Except.ok_bind, ran, Except.ok_bind]
      exact ran'

/-! ## The choice of destinations -/

/-- The transitions of a tag to the chosen destinations are not loose. -/
def looseBut (tags : List EncodedTagInfo) (tagId : Nat) (chosen : List Nat) (tag dest : Nat) : Nat :=
  if tag = tagId ∧ dest ∈ chosen then 0 else looseAt tags tag dest

/-- The destinations in a queue. -/
def queued (queue : List PriorityQueueEntry) : List Nat := queue.map PriorityQueueEntry.destIndex

/-- What the selection loop has done after the destinations `front`. -/
structure Selecting (extra : Nat → Nat) (tagId : Nat) (tags : List EncodedTagInfo)
    (front : List (Nat × DestInfo)) (selection : Selection) : Prop where
  same : SameLists selection.tags tags
  balanced : Balanced (looseBut tags tagId (queued selection.queue)) extra selection.tags
  chosen : List.Sublist (queued selection.queue).reverse (front.map Prod.fst)
  marked : ∀ entry ∈ front, entry.2.pos = inListPos → entry.1 ∈ queued selection.queue
  all : selection.excludedState = none → selection.queue.length = front.length
  excluded : ∀ excluded, selection.excludedState = some excluded →
    selection.queue.length < front.length ∧ excluded.destIndex ∉ queued selection.queue ∧
      ∃ known, (excluded.destIndex, known) ∈ front ∧ known.numTransitions = excluded.numTransitions

/-- One more destination is chosen. -/
theorem balanced_choose {extra : Nat → Nat} {tagId dest : Nat} {chosen : List Nat}
    {tags' : List EncodedTagInfo} (balanced : Balanced (looseBut tags tagId chosen) extra tags')
    (inside : tagId < tags'.length) (there : dest < tags'.length) (fresh : dest ∉ chosen) :
    ∃ tags'', dropIncoming tags' dest (looseAt tags tagId dest) = .ok tags'' ∧
      SameLists tags'' tags' ∧ Balanced (looseBut tags tagId (dest :: chosen)) extra tags'' := by
  have amount : looseBut tags tagId chosen tagId dest = looseAt tags tagId dest :=
    if_neg fun both => fresh both.2
  obtain ⟨tags'', dropped, same, balanced'⟩ := dropIncoming_balanced balanced inside there
  rw [amount] at dropped
  refine ⟨tags'', dropped, same, ?_⟩
  have merged : (fun other key => if other = tagId ∧ key = dest then 0
      else looseBut tags tagId chosen other key) = looseBut tags tagId (dest :: chosen) := by
    funext other key
    unfold looseBut
    by_cases same : other = tagId
    · by_cases here : key = dest
      · simp [same, here]
      · simp [same, here]
    · simp [same]
  rw [merged] at balanced'
  exact balanced'

/-- A marked destination is chosen without taking anything off. -/
theorem looseBut_marked {tagId dest : Nat} {chosen : List Nat} {info : EncodedTagInfo}
    {known : DestInfo} (found : tags[tagId]? = some info)
    (looked : info.destInfo.lookup dest = some known) (marked : known.pos = inListPos) :
    looseBut tags tagId (dest :: chosen) = looseBut tags tagId chosen := by
  have none : looseAt tags tagId dest = 0 := by
    rw [looseAt_eq found]
    unfold EncodedTagInfo.loose
    rw [looked]
    have valid : ¬ known.pos = invalidPos := by
      rw [marked]
      decide
    exact if_neg valid
  funext other key
  unfold looseBut
  by_cases same : other = tagId
  · by_cases here : key = dest
    · simp [same, here, none]
    · simp [same, here]
  · simp [same]

/-- Leaving a destination out. -/
theorem Selecting.exclude {extra : Nat → Nat} {tagId dest : Nat} {known : DestInfo}
    {front : List (Nat × DestInfo)} {selection : Selection}
    (selecting : Selecting extra tagId tags front selection)
    (fresh : dest ∉ queued selection.queue) (unmarked : known.pos ≠ inListPos)
    (numExcluded : Nat) :
    Selecting extra tagId tags (front ++ [(dest, known)])
      { selection with
        excludedState := some { destIndex := dest, numTransitions := known.numTransitions }
        numExcludedTransitions := numExcluded } := by
  constructor
  case same => exact selecting.same
  case balanced => exact selecting.balanced
  case chosen =>
      rw [List.map_append]
      exact selecting.chosen.trans (List.sublist_append_left _ _)
  case marked =>
      intro entry member marked
      rcases List.mem_append.mp member with old | new
      · exact selecting.marked entry old marked
      · rw [List.mem_singleton.mp new] at marked
        exact absurd marked unmarked
  case all => exact fun none => nomatch none
  case excluded =>
      intro excluded same
      obtain rfl := Option.some.inj same
      have short := selecting.chosen.length_le
      rw [List.length_reverse, List.length_map, queued, List.length_map] at short
      refine ⟨?_, fresh, known, List.mem_append_right _ (List.mem_singleton.mpr rfl), rfl⟩
      rw [List.length_append, List.length_singleton]
      exact Nat.lt_succ_of_le short

/-- Taking a destination in. -/
theorem Selecting.choose {extra : Nat → Nat} {tagId dest : Nat} {known : DestInfo}
    {front : List (Nat × DestInfo)} {selection : Selection} {tags' : List EncodedTagInfo}
    (selecting : Selecting extra tagId tags front selection)
    (distinct : dest ∉ front.map Prod.fst) (same : SameLists tags' selection.tags)
    (balanced : Balanced (looseBut tags tagId (dest :: queued selection.queue)) extra tags') :
    Selecting extra tagId tags (front ++ [(dest, known)])
      { selection with
        tags := tags'
        queue := { destIndex := dest, numTransitions := known.numTransitions } ::
          selection.queue } := by
  constructor
  case same => exact Eq.trans same selecting.same
  case balanced => exact balanced
  case chosen =>
      have longer := selecting.chosen.append_right [dest]
      simpa [queued] using longer
  case marked =>
      intro entry member marked
      rcases List.mem_append.mp member with old | new
      · exact List.mem_cons_of_mem _ (selecting.marked entry old marked)
      · rw [List.mem_singleton.mp new]
        exact List.mem_cons_self
  case all =>
      intro none
      rw [List.length_cons, List.length_append, selecting.all none]
      rfl
  case excluded =>
      intro excluded left
      obtain ⟨short, absent, known', member, number⟩ := selecting.excluded excluded left
      refine ⟨?_, ?_, known', List.mem_append_left _ member, number⟩
      · rw [List.length_cons, List.length_append, List.length_singleton]
        exact Nat.succ_lt_succ short
      · intro inside
        rcases List.mem_cons.mp inside with here | later
        · have listed := List.mem_map_of_mem (f := Prod.fst) member
          rw [show excluded.destIndex = dest from here] at listed
          exact distinct listed
        · exact absent later

/-- The selection loop chooses every marked destination. -/
theorem selectDestinations_selects {extra : Nat → Nat} {tagId : Nat} {info : EncodedTagInfo}
    (found : tags[tagId]? = some info) (vacant : info.Vacant) {rest : List (Nat × DestInfo)} :
    ∀ {front : List (Nat × DestInfo)} {selection : Selection},
      Selecting extra tagId tags front selection →
      ((front ++ rest).map Prod.fst).Nodup →
      (∀ entry ∈ rest, info.destInfo.lookup entry.1 = some entry.2 ∧ entry.1 < tags.length) →
      ∃ selection', selectDestinations rest selection = .ok selection' ∧
        Selecting extra tagId tags (front ++ rest) selection' := by
  have inside := (List.getElem?_eq_some_iff.mp found).1
  induction rest with
  | nil =>
      intro front selection selecting _ _
      rw [List.append_nil]
      exact ⟨selection, rfl, selecting⟩
  | cons entry rest ih =>
      intro front selection selecting distinct here
      obtain ⟨dest, known⟩ := entry
      obtain ⟨⟨looked, there⟩, later⟩ := List.forall_mem_cons.mp here
      have length := selecting.same.length
      have fresh : dest ∉ front.map Prod.fst := by
        rw [List.map_append, List.map_cons] at distinct
        have apart := List.disjoint_of_nodup_append distinct
        exact fun member => apart member List.mem_cons_self
      have unqueued : dest ∉ queued selection.queue := fun member =>
        fresh (selecting.chosen.subset (List.mem_reverse.mpr member))
      obtain ⟨target, targeted⟩ : ∃ target, selection.tags[dest]? = some target :=
        ⟨_, List.getElem?_eq_getElem (by rw [length]; exact there)⟩
      have regroup : front ++ (dest, known) :: rest = (front ++ [(dest, known)]) ++ rest :=
        List.append_cons _ _ _
      rw [selectDestinations, indexAt_eq_ok.mpr targeted, Except.ok_bind]
      rw [regroup] at distinct ⊢
      by_cases chosen : known.pos = inListPos ∨
          known.numTransitions = target.numIncomingTransitions
      · simp only [if_pos chosen]
        by_cases marked : known.pos = inListPos
        · have released : releaseIncoming selection.tags dest known = .ok selection.tags :=
            if_neg (not_not.mpr marked)
          have balanced := selecting.balanced
          rw [← looseBut_marked found looked marked] at balanced
          rw [released, Except.ok_bind]
          exact ih (selecting.choose fresh rfl balanced) distinct later
        · have free : known.pos = invalidPos := (vacant.marks dest known looked).resolve_right marked
          have amount : looseAt tags tagId dest = known.numTransitions := by
            rw [looseAt_eq found, info.loose_unmarked looked free]
          obtain ⟨tags', dropped, same, balanced⟩ :=
            balanced_choose selecting.balanced (by rw [length]; exact inside)
              (by rw [length]; exact there) unqueued
          have released : releaseIncoming selection.tags dest known = .ok tags' := by
            unfold releaseIncoming
            rw [if_pos marked, ← amount, dropped]
          rw [released, Except.ok_bind]
          exact ih (selecting.choose fresh same balanced) distinct later
      · simp only [if_neg chosen]
        exact ih (selecting.exclude unqueued (fun marked => chosen (.inl marked)) _) distinct later

/-- The destinations of a tag that its private list takes care of. -/
structure Chosen (extra : Nat → Nat) (tagId : Nat) (tags : List EncodedTagInfo)
    (info : EncodedTagInfo) (tags' : List EncodedTagInfo) (queue : List PriorityQueueEntry) :
    Prop where
  same : SameLists tags' tags
  balanced : Balanced (looseBut tags tagId (queued queue)) extra tags'
  distinct : (queued queue).Nodup
  known : ∀ dest ∈ queued queue, ∃ known, info.destInfo.lookup dest = some known
  marked : ∀ dest known, info.destInfo.lookup dest = some known → known.pos = inListPos →
    dest ∈ queued queue
  short : queue.length ≤ info.destInfo.length
  gap : queue.length ≠ info.destInfo.length → queue.length + 1 < info.destInfo.length
  leftOut : queue.length ≠ info.destInfo.length → ∃ dest known,
    info.destInfo.lookup dest = some known ∧ dest ∉ queued queue ∧ known.pos = invalidPos

/-- With as many destinations as there are, all are chosen. -/
theorem Chosen.all {extra : Nat → Nat} {tagId : Nat} {info : EncodedTagInfo}
    {tags' : List EncodedTagInfo} {queue : List PriorityQueueEntry}
    (chosen : Chosen extra tagId tags info tags' queue)
    (full : queue.length = info.destInfo.length) {dest : Nat} {known : DestInfo}
    (looked : info.destInfo.lookup dest = some known) : dest ∈ queued queue := by
  have subset : queued queue ⊆ info.destInfo.map Prod.fst := by
    intro other member
    obtain ⟨known', looked'⟩ := chosen.known other member
    exact List.mem_map_of_mem (f := Prod.fst) (mem_of_lookup looked')
  have lengths : (info.destInfo.map Prod.fst).length ≤ (queued queue).length := by
    rw [List.length_map, queued, List.length_map, full]
  have perm := (List.subperm_of_subset chosen.distinct subset).perm_of_length_le lengths
  exact perm.mem_iff.mpr (List.mem_map_of_mem (f := Prod.fst) (mem_of_lookup looked))

/-- A single excluded destination is taken in. -/
theorem includeExcluded_chooses {extra : Nat → Nat} {tagId : Nat} {info : EncodedTagInfo}
    {selection : Selection} (found : tags[tagId]? = some info) (vacant : info.Vacant)
    (ordered : Ordered info.destInfo)
    (there : ∀ dest known, info.destInfo.lookup dest = some known → dest < tags.length)
    (selecting : Selecting extra tagId tags info.destInfo selection) :
    ∃ tags' queue, includeExcluded info.destInfo.length selection = .ok (tags', queue) ∧
      Chosen extra tagId tags info tags' queue ∧
      queue.length = (if selection.queue.length + 1 = info.destInfo.length
        then info.destInfo.length else selection.queue.length) := by
  have inside := (List.getElem?_eq_some_iff.mp found).1
  have length := selecting.same.length
  have distinct : (info.destInfo.map Prod.fst).Nodup := List.Pairwise.imp Nat.ne_of_lt ordered
  have short := selecting.chosen.length_le
  rw [List.length_reverse, List.length_map, queued, List.length_map] at short
  have distinct' : (queued selection.queue).Nodup :=
    List.nodup_reverse.mp (distinct.sublist selecting.chosen)
  have known : ∀ dest ∈ queued selection.queue, ∃ known, info.destInfo.lookup dest = some known := by
    intro dest member
    have listed := selecting.chosen.subset (List.mem_reverse.mpr member)
    obtain ⟨entry, isEntry, rfl⟩ := List.mem_map.mp listed
    exact ⟨entry.2, ordered.lookup_of_mem isEntry⟩
  have marked : ∀ dest known, info.destInfo.lookup dest = some known → known.pos = inListPos →
      dest ∈ queued selection.queue :=
    fun dest known looked mark => selecting.marked (dest, known) (mem_of_lookup looked) mark
  -- a destination left out is not marked, so its transitions are loose
  have out : ∀ excluded, selection.excludedState = some excluded →
      excluded.destIndex ∉ queued selection.queue ∧ ∃ known,
        info.destInfo.lookup excluded.destIndex = some known ∧ known.pos = invalidPos ∧
        known.numTransitions = excluded.numTransitions := by
    intro excluded left
    obtain ⟨_, absent, known, member, number⟩ := selecting.excluded excluded left
    have looked := ordered.lookup_of_mem member
    refine ⟨absent, known, looked, ?_, number⟩
    exact (vacant.marks _ _ looked).resolve_right fun mark => absent (marked _ _ looked mark)
  unfold includeExcluded
  by_cases one : selection.queue.length + 1 = info.destInfo.length
  · rw [if_pos one, if_pos one]
    cases left : selection.excludedState with
    | none =>
        have whole := selecting.all left
        omega
    | some excluded =>
        obtain ⟨absent, dest, looked, free, number⟩ := out excluded left
        have amount : looseAt tags tagId excluded.destIndex = excluded.numTransitions := by
          rw [looseAt_eq found, info.loose_unmarked looked free, number]
        obtain ⟨tags', dropped, same, balanced⟩ :=
          balanced_choose selecting.balanced (by rw [length]; exact inside)
            (by rw [length]; exact there _ _ looked) absent
        rw [amount] at dropped
        refine ⟨tags', excluded :: selection.queue, ?_, ?_, one⟩
        · simp only
          rw [dropped, Except.ok_bind]
        · have full : (excluded :: selection.queue).length = info.destInfo.length := one
          refine ⟨Eq.trans same selecting.same, balanced, List.nodup_cons.mpr ⟨absent, distinct'⟩,
            List.forall_mem_cons.mpr ⟨⟨dest, looked⟩, known⟩, ?_, full.le,
            fun less => absurd full less, fun less => absurd full less⟩
          exact fun dest known looked mark => List.mem_cons_of_mem _ (marked dest known looked mark)
  · rw [if_neg one, if_neg one]
    refine ⟨selection.tags, selection.queue, rfl, ?_, rfl⟩
    refine ⟨selecting.same, selecting.balanced, distinct', known, marked, short,
      fun less => by omega, fun less => ?_⟩
    cases left : selection.excludedState with
    | none => exact absurd (selecting.all left) less
    | some excluded =>
        obtain ⟨absent, dest, looked, free, _⟩ := out excluded left
        exact ⟨_, dest, looked, absent, free⟩

/-! ## Noting the states of a private list -/

/-- What a state of the private list changes in its tag. -/
def settleState (info : EncodedTagInfo) (dest pos : Nat) : EncodedTagInfo :=
  if dest = invalidPos then { info with publicListNoopPos := pos } else setDestPos dest pos info

/-- The note that `recordPrivate` takes. -/
def notePrivate (tagId dest pos : Nat) (targets : ListTargets) : ListTargets :=
  { tags := targets.tags.modify tagId fun info => settleState info dest pos
    publicListNoops :=
      if dest = invalidPos then targets.publicListNoops ++ [(tagId, pos)]
      else targets.publicListNoops }

theorem recordPrivate_notes {tagId numTags : Nat} (inside : tagId < numTags) (wanted : List Nat) :
    Notes (recordPrivate tagId) (notePrivate tagId) numTags wanted := by
  intro dest pos targets _ length
  have inside' : tagId < targets.tags.length := by rwa [length]
  refine ⟨?_, by rw [notePrivate, List.length_modify, length]⟩
  unfold recordPrivate notePrivate settleState
  by_cases noop : dest = invalidPos
  · simp only [if_pos noop]
    rw [modifyAt_eq inside', Except.ok_bind]
  · simp only [if_neg noop]
    rw [modifyAt_eq inside', Except.ok_bind]
    rfl

/-- What the notes of a whole list change in its tag. -/
structure SettledBy (placed : List (Nat × Nat)) (before after : EncodedTagInfo) : Prop where
  counts : after.counts = before.counts
  incoming : after.numIncomingTransitions = before.numIncomingTransitions
  base : after.base = before.base
  position : after.stateMachinePos = before.stateMachinePos
  dests : ∀ dest known, after.destInfo.lookup dest = some known →
    (dest, known.pos) ∈ placed ∨
      dest ∉ placed.map Prod.fst ∧ before.destInfo.lookup dest = some known
  noop : (invalidPos, after.publicListNoopPos) ∈ placed ∨
    invalidPos ∉ placed.map Prod.fst ∧ after.publicListNoopPos = before.publicListNoopPos

/-- The notes of a list, one after the other. -/
theorem noteAll_settles {tagId : Nat} {placed : List (Nat × Nat)} :
    ∀ {targets : ListTargets} {info : EncodedTagInfo}, (placed.map Prod.fst).Nodup →
      targets.tags[tagId]? = some info →
      (∀ known, info.destInfo.lookup invalidPos ≠ some known) →
      ∃ info', (noteAll (notePrivate tagId) placed targets).tags =
          targets.tags.modify tagId (fun _ => info') ∧
        SettledBy placed info info' ∧
        (noteAll (notePrivate tagId) placed targets).publicListNoops =
          targets.publicListNoops ++
            (placed.filter fun entry => entry.1 = invalidPos).map fun entry =>
              (tagId, entry.2) := by
  induction placed with
  | nil =>
      intro targets info _ found _
      refine ⟨info, ?_, ⟨rfl, rfl, rfl, rfl, fun _ _ looked => .inr ⟨List.not_mem_nil, looked⟩,
        .inr ⟨List.not_mem_nil, rfl⟩⟩, (List.append_nil _).symm⟩
      refine List.ext_getElem? fun other => ?_
      rw [List.getElem?_modify]
      by_cases here : tagId = other
      · subst here
        simp only [if_true, found]
        rw [noteAll, List.foldl_nil, found]
        rfl
      · simp only [if_neg here, noteAll, List.foldl_nil]
        exact Option.map_id'.symm
  | cons entry rest ih =>
      intro targets info distinct found valid
      obtain ⟨dest, pos⟩ := entry
      obtain ⟨fresh, distinct'⟩ := List.nodup_cons.mp distinct
      have changed : (notePrivate tagId dest pos targets).tags[tagId]? =
          some (settleState info dest pos) := by
        rw [notePrivate, List.getElem?_modify_eq, found]
        rfl
      have valid' : ∀ known, (settleState info dest pos).destInfo.lookup invalidPos ≠
          some known := by
        intro known looked
        unfold settleState at looked
        split at looked
        · exact valid known looked
        · rw [setDestPos_lookup] at looked
          obtain ⟨known', looked', _⟩ := Option.map_eq_some_iff.mp looked
          exact valid known' looked'
      obtain ⟨info', tags', settled, noops⟩ := ih distinct' changed valid'
      refine ⟨info', ?_, ?_, ?_⟩
      · change (noteAll (notePrivate tagId) rest (notePrivate tagId dest pos targets)).tags = _
        rw [tags', notePrivate, List.modify_modify_eq]
        rfl
      · constructor
        case counts =>
            rw [settled.counts]
            unfold settleState
            split
            · rfl
            · exact setDestPos_counts dest pos info
        case incoming =>
            rw [settled.incoming]
            unfold settleState
            split <;> rfl
        case base =>
            rw [settled.base]
            unfold settleState
            split <;> rfl
        case position =>
            rw [settled.position]
            unfold settleState
            split <;> rfl
        case dests =>
            intro other known looked
            rcases settled.dests other known looked with later | ⟨absent, looked'⟩
            · exact .inl (List.mem_cons_of_mem _ later)
            · unfold settleState at looked'
              split at looked'
              · rename_i noop
                refine .inr ⟨?_, looked'⟩
                rw [List.map_cons, List.mem_cons, not_or]
                refine ⟨?_, absent⟩
                rintro rfl
                rw [show other = invalidPos from noop] at looked'
                exact valid known looked'
              · rw [setDestPos_lookup] at looked'
                obtain ⟨known', before, rfl⟩ := Option.map_eq_some_iff.mp looked'
                by_cases here : other = dest
                · left
                  rw [if_pos here, here]
                  exact List.mem_cons_self
                · rw [if_neg here]
                  refine .inr ⟨?_, before⟩
                  rw [List.map_cons, List.mem_cons, not_or]
                  exact ⟨here, absent⟩
        case noop =>
            rcases settled.noop with later | ⟨absent, same⟩
            · exact .inl (List.mem_cons_of_mem _ later)
            · rw [same]
              unfold settleState
              by_cases noop : dest = invalidPos
              · left
                rw [if_pos noop, noop]
                exact List.mem_cons_self
              · right
                rw [if_neg noop, List.map_cons, List.mem_cons, not_or]
                exact ⟨⟨Ne.symm noop, absent⟩, rfl⟩
      · change (noteAll (notePrivate tagId) rest
          (notePrivate tagId dest pos targets)).publicListNoops = _
        rw [noops, notePrivate]
        by_cases noop : dest = invalidPos
        · simp [noop]
        · simp [noop]

/-! ## One private list -/

/-- The states of a list keep what is said about a position. -/
theorem StandsFor.grow {first second : List StateInfo} (grows : first <+: second) {pos tag : Nat}
    (stands : StandsFor first pos tag) : StandsFor second pos tag := by
  obtain ⟨cell, found, same⟩ := stands
  exact ⟨cell, prefix_get grows found, same⟩

/-- A tag has no private list, or one with a state for each destination that
has a position there, and a NoOp for the others if there are any. -/
inductive PrivateList (stateMachine : List StateInfo) (info : EncodedTagInfo) : Prop where
  | absent : info.base = invalidPos → info.publicListNoopPos = invalidPos → info.Unmarked →
      PrivateList stateMachine info
  | present : info.base < stateMachine.length →
      (∀ dest known, info.destInfo.lookup dest = some known → known.pos ≠ invalidPos →
        StandsFor stateMachine known.pos dest ∧ Reaches stateMachine info.base known.pos) →
      (info.publicListNoopPos = invalidPos → ∀ dest known,
        info.destInfo.lookup dest = some known → known.pos ≠ invalidPos) →
      (info.publicListNoopPos ≠ invalidPos →
        Reaches stateMachine info.base info.publicListNoopPos ∧
        (∃ noop, stateMachine[info.publicListNoopPos]? = some noop ∧ noop.IsNoop) ∧
        ∃ dest known, info.destInfo.lookup dest = some known ∧ known.pos = invalidPos) →
      (info.destInfo.length = 1 → ∀ dest known, info.destInfo.lookup dest = some known →
        known.pos = info.base) →
      PrivateList stateMachine info

theorem PrivateList.grow {first second : List StateInfo} (grows : first <+: second)
    {info : EncodedTagInfo} (list : PrivateList first info) : PrivateList second info := by
  cases list with
  | absent base noop free => exact .absent base noop free
  | present base states whole bridge single =>
      refine .present (Nat.lt_of_lt_of_le base grows.length_le) ?_ whole ?_ single
      · intro dest known looked valid
        obtain ⟨stands, reaches⟩ := states dest known looked valid
        exact ⟨stands.grow grows, reaches.grow grows⟩
      · intro valid
        obtain ⟨reaches, ⟨noop, found, isNoop⟩, left⟩ := bridge valid
        exact ⟨reaches.grow grows, ⟨noop, prefix_get grows found, isNoop⟩, left⟩

theorem PrivateList.of_settled {stateMachine : List StateInfo} {first second : EncodedTagInfo}
    (list : PrivateList stateMachine first) (same : first.settled = second.settled) :
    PrivateList stateMachine second := by
  have wholly : PrivateList stateMachine second.settled := by
    rw [← same]
    cases list with
    | absent base noop free => exact .absent base noop free
    | present base states whole bridge single => exact .present base states whole bridge single
  cases wholly with
  | absent base noop free => exact .absent base noop free
  | present base states whole bridge single => exact .present base states whole bridge single

/-- What building the private list of one tag does. -/
structure PrivateStep (extra : Nat → Nat) (tagId : Nat) (info : EncodedTagInfo)
    (before : List StateInfo) (targets : ListTargets) (after : List StateInfo)
    (targets' : ListTargets) : Prop where
  grows : before <+: after
  chained : Chained before → Chained after
  counts : SameCounts targets'.tags targets.tags
  balanced : Balanced (looseAt targets'.tags) extra targets'.tags
  others : ∀ tag, tag ≠ tagId →
    targets'.tags[tag]?.map EncodedTagInfo.settled = targets.tags[tag]?.map EncodedTagInfo.settled
  list : ∃ info', targets'.tags[tagId]? = some info' ∧ PrivateList after info' ∧
    info'.stateMachinePos = info.stateMachinePos ∧
    (info'.publicListNoopPos = invalidPos ∧ targets'.publicListNoops = targets.publicListNoops ∨
      (∃ noop, after[info'.publicListNoopPos]? = some noop ∧ noop.IsNoop ∧
        noop.base = invalidPos) ∧ before.length ≤ info'.publicListNoopPos ∧
      targets'.publicListNoops =
        targets.publicListNoops ++ [(tagId, info'.publicListNoopPos)])
  states : ∀ pos cell, before.length ≤ pos → after[pos]? = some cell →
    cell.etagIndex < targets.tags.length ∨ cell.IsNoop ∧
      (cell.base < after.length ∨ (tagId, pos) ∈ targets'.publicListNoops)
  size : after.length ≤ before.length + 2 * info.destInfo.length

/-- The queue with the NoOp for the destinations left out. -/
def bridged (size weight : Nat) (queue : List PriorityQueueEntry) : List PriorityQueueEntry :=
  if queue.length ≠ size then { destIndex := invalidPos, numTransitions := weight } :: queue
  else queue

/-- The states of a private list, and what they say about its tag. -/
theorem PrivateList.of_listed {extra : Nat → Nat} {tagId weight : Nat}
    {info before' info' : EncodedTagInfo} {tags' : List EncodedTagInfo}
    {queue : List PriorityQueueEntry} {before after : List StateInfo}
    {placed : List (Nat × Nat)} (chosen : Chosen extra tagId tags info tags' queue)
    (vacant : info.Vacant) (filled : 0 < queue.length) (fits : after.length ≤ invalidPos)
    (valid : ∀ dest known, info.destInfo.lookup dest = some known → dest ≠ invalidPos)
    (listed : Listed before after (queued (bridged info.destInfo.length weight queue)) placed)
    (settled : SettledBy placed before' info') (dests : before'.destInfo = info.destInfo)
    (base : before'.base = before.length) (noop : before'.publicListNoopPos = invalidPos) :
    PrivateList after info' := by
  have keys : info'.destInfo.length = info.destInfo.length := by
    have lengths := congrArg List.length settled.counts
    unfold EncodedTagInfo.counts at lengths
    rwa [List.length_map, List.length_map, dests] at lengths
  have whole : queue.length = info.destInfo.length →
      queued (bridged info.destInfo.length weight queue) = queued queue := by
    intro full
    rw [bridged, if_neg (not_not.mpr full)]
  have split : queue.length ≠ info.destInfo.length →
      queued (bridged info.destInfo.length weight queue) = invalidPos :: queued queue := by
    intro less
    rw [bridged, if_pos less]
    rfl
  have size := listed.size
  have longer : queue.length ≤ (queued (bridged info.destInfo.length weight queue)).length := by
    by_cases full : queue.length = info.destInfo.length
    · rw [whole full, queued, List.length_map]
    · rw [split full, List.length_cons, queued, List.length_map]
      omega
  obtain ⟨source, blocks⟩ := listed.blocks
  have reached : ∀ dest pos, (dest, pos) ∈ placed →
      StandsFor after pos dest ∧ Reaches after info'.base pos ∧ pos < after.length := by
    intro dest pos member
    obtain ⟨above, cell, found, tag, _⟩ := listed.stands dest pos member
    have inside := (List.getElem?_eq_some_iff.mp found).1
    rw [settled.base, base]
    exact ⟨⟨cell, found, tag⟩, blocks.reaches fits above inside, inside⟩
  -- a chosen destination has a state in the list, and no other one has
  have chosen_iff : ∀ dest known, info'.destInfo.lookup dest = some known → dest ∈ queued queue →
      (dest, known.pos) ∈ placed := by
    intro dest known looked member
    rcases settled.dests dest known looked with here | ⟨absent, _⟩
    · exact here
    · refine absurd (listed.perm.mem_iff.mpr ?_) absent
      by_cases full : queue.length = info.destInfo.length
      · rw [whole full]
        exact member
      · rw [split full]
        exact List.mem_cons_of_mem _ member
  have before_iff : ∀ dest known, info'.destInfo.lookup dest = some known →
      ∃ known', info.destInfo.lookup dest = some known' := by
    intro dest known looked
    have both := congrArg (List.lookup dest) settled.counts
    rw [lookup_counts, lookup_counts, looked, dests] at both
    obtain ⟨known', looked', _⟩ := Option.map_eq_some_iff.mp both.symm
    exact ⟨known', looked'⟩
  refine .present ?_ ?_ ?_ ?_ ?_
  · rw [settled.base, base]
    omega
  · intro dest known looked positioned
    rcases settled.dests dest known looked with here | ⟨absent, looked'⟩
    · obtain ⟨stands, reaches, _⟩ := reached dest known.pos here
      exact ⟨stands, reaches⟩
    · rw [dests] at looked'
      have mark := (vacant.marks dest known looked').resolve_left positioned
      have member := chosen.marked dest known looked' mark
      obtain ⟨stands, reaches, _⟩ := reached dest known.pos (chosen_iff dest known looked member)
      exact ⟨stands, reaches⟩
  · intro absent dest known looked
    have full : queue.length = info.destInfo.length := by
      by_contra less
      rcases settled.noop with here | ⟨missing, _⟩
      · have inside := (reached _ _ here).2.2
        omega
      · refine missing (listed.perm.mem_iff.mpr ?_)
        rw [split less]
        exact List.mem_cons_self
    obtain ⟨known', looked'⟩ := before_iff dest known looked
    have inside := (reached _ _ (chosen_iff dest known looked (chosen.all full looked'))).2.2
    omega
  · intro present
    rcases settled.noop with here | ⟨_, same⟩
    · obtain ⟨⟨cell, found, tag⟩, reaches, _⟩ := reached _ _ here
      refine ⟨reaches, ⟨cell, found, tag⟩, ?_⟩
      have less : queue.length ≠ info.destInfo.length := by
        intro full
        have member := listed.perm.mem_iff.mp (List.mem_map_of_mem (f := Prod.fst) here)
        rw [whole full] at member
        obtain ⟨known, looked⟩ := chosen.known _ member
        exact valid _ known looked rfl
      obtain ⟨dest, known, looked, absent, free⟩ := chosen.leftOut less
      have both := congrArg (List.lookup dest) settled.counts
      rw [lookup_counts, lookup_counts, dests, looked] at both
      obtain ⟨known', looked', _⟩ := Option.map_eq_some_iff.mp both
      refine ⟨dest, known', looked', ?_⟩
      rcases settled.dests dest known' looked' with there | ⟨_, old⟩
      · have member := listed.perm.mem_iff.mp (List.mem_map_of_mem (f := Prod.fst) there)
        rw [split less] at member
        rcases List.mem_cons.mp member with isNoop | queued
        · exact absurd isNoop (valid dest known looked)
        · exact absurd queued absent
      · rw [dests, looked] at old
        rw [← Option.some.inj old]
        exact free
    · exact absurd (same.trans noop) present
  · intro single dest known looked
    rw [keys] at single
    have short := chosen.short
    have full : queue.length = info.destInfo.length := by omega
    obtain ⟨known', looked'⟩ := before_iff dest known looked
    have here := chosen_iff dest known looked (chosen.all full looked')
    obtain ⟨above, cell, found, _⟩ := listed.stands _ _ here
    have inside := (List.getElem?_eq_some_iff.mp found).1
    rw [size, whole full, queued, List.length_map, full, single] at inside
    rw [settled.base, base]
    unfold innerNoops maxTransition at inside
    simp only [Nat.reduceAdd, Nat.one_le_ofNat, if_true] at inside
    omega

/-- The loose transitions after a list was noted are those of the destinations
that were not chosen. -/
theorem SettledBy.loose {info before' info' : EncodedTagInfo} {queue : List PriorityQueueEntry}
    {placed : List (Nat × Nat)} (settled : SettledBy placed before' info')
    (dests : before'.destInfo = info.destInfo)
    (valid : ∀ dest known, info.destInfo.lookup dest = some known → dest ≠ invalidPos)
    (positions : ∀ dest pos, (dest, pos) ∈ placed → pos ≠ invalidPos)
    (same : ∀ dest, dest ≠ invalidPos → (dest ∈ placed.map Prod.fst ↔ dest ∈ queued queue))
    (dest : Nat) :
    info'.loose dest = if dest ∈ queued queue then 0 else info.loose dest := by
  have both := congrArg (List.lookup dest) settled.counts
  rw [lookup_counts, lookup_counts, dests] at both
  unfold EncodedTagInfo.loose
  cases looked : info'.destInfo.lookup dest with
  | none =>
      rw [looked, Option.map_none] at both
      rw [Option.map_eq_none_iff.mp both.symm]
      exact (ite_self 0).symm
  | some known =>
      rw [looked, Option.map_some] at both
      obtain ⟨known', looked', number⟩ := Option.map_eq_some_iff.mp both.symm
      have isTag := valid dest known' looked'
      rw [looked']
      simp only
      rcases settled.dests dest known looked with here | ⟨absent, old⟩
      · have member := (same dest isTag).mp (List.mem_map_of_mem (f := Prod.fst) here)
        rw [if_pos member, if_neg (positions dest known.pos here)]
      · have out : dest ∉ queued queue := fun member => absent ((same dest isTag).mpr member)
        rw [dests, looked'] at old
        rw [if_neg out, Option.some.inj old]

theorem Balanced.replace {loose : Nat → Nat → Nat} {extra : Nat → Nat} {index : Nat}
    {old new : EncodedTagInfo} (balanced : Balanced loose extra tags)
    (found : tags[index]? = some old)
    (same : new.numIncomingTransitions = old.numIncomingTransitions) :
    Balanced loose extra (tags.modify index fun _ => new) := by
  intro dest info there
  rw [List.length_modify]
  by_cases here : index = dest
  · subst here
    rw [List.getElem?_modify_eq, found] at there
    obtain rfl := Option.some.inj there
    rw [same]
    exact balanced index old found
  · rw [List.getElem?_modify_ne _ _ here] at there
    exact balanced dest info there

theorem settled_counts {first second : Option EncodedTagInfo}
    (same : first.map EncodedTagInfo.settled = second.map EncodedTagInfo.settled) :
    first.map EncodedTagInfo.counts = second.map EncodedTagInfo.counts := by
  have both := congrArg (Option.map EncodedTagInfo.counts) same
  rw [Option.map_map, Option.map_map] at both
  exact both

theorem settled_loose {first second : List EncodedTagInfo} {tag : Nat}
    (same : first[tag]?.map EncodedTagInfo.settled = second[tag]?.map EncodedTagInfo.settled)
    (dest : Nat) : looseAt first tag dest = looseAt second tag dest := by
  unfold looseAt
  cases found : first[tag]? with
  | none =>
      rw [found, Option.map_none] at same
      rw [Option.map_eq_none_iff.mp same.symm]
  | some info =>
      rw [found, Option.map_some] at same
      obtain ⟨info', found', settled⟩ := Option.map_eq_some_iff.mp same.symm
      have dests : info'.settled.destInfo = info.settled.destInfo := by rw [settled]
      change info'.destInfo = info.destInfo at dests
      rw [found']
      simp only [EncodedTagInfo.loose, dests]

/-- A tag without a chosen destination gets no private list. -/
theorem PrivateStep.skip {extra : Nat → Nat} {tagId : Nat} {info : EncodedTagInfo}
    {before : List StateInfo} {targets : ListTargets} {selection : Selection}
    (found : targets.tags[tagId]? = some info) (vacant : info.Vacant)
    (selecting : Selecting extra tagId targets.tags info.destInfo selection)
    (empty : selection.queue = []) :
    PrivateStep extra tagId info before targets before { targets with tags := selection.tags } := by
  obtain ⟨info', found', settled⟩ := SameLists.get (Eq.symm selecting.same) found
  have vacant' := vacant.of_settled settled
  have dests : info.settled.destInfo = info'.settled.destInfo := by rw [settled]
  change info.destInfo = info'.destInfo at dests
  have free : info'.Unmarked := by
    intro dest known looked
    rw [← dests] at looked
    refine (vacant.marks dest known looked).resolve_right fun mark => ?_
    have member := selecting.marked (dest, known) (mem_of_lookup looked) mark
    rw [empty] at member
    exact List.not_mem_nil member
  constructor
  case grows => exact List.prefix_refl _
  case chained => exact fun chained => chained
  case counts => exact selecting.same.counts
  case balanced =>
      have same : looseBut targets.tags tagId (queued selection.queue) =
          looseAt selection.tags := by
        rw [selecting.same.loose, empty]
        funext tag dest
        exact if_neg fun both => List.not_mem_nil both.2
      rw [← same]
      exact selecting.balanced
  case others => exact fun tag _ => selecting.same.settled_get tag
  case list =>
      exact ⟨info', found', .absent vacant'.base vacant'.noop free,
        vacant'.position.trans vacant.position.symm, .inl ⟨vacant'.noop, rfl⟩⟩
  case states =>
      intro pos cell above found
      have inside := (List.getElem?_eq_some_iff.mp found).1
      omega
  case size => exact Nat.le_add_right _ _

theorem filter_key {entries : List (Nat × Nat)} (distinct : (entries.map Prod.fst).Nodup)
    {key value : Nat} (member : (key, value) ∈ entries) :
    (entries.filter fun entry => entry.1 = key) = [(key, value)] := by
  induction entries with
  | nil => cases member
  | cons entry rest ih =>
      obtain ⟨fresh, distinct'⟩ := List.nodup_cons.mp distinct
      rcases List.mem_cons.mp member with rfl | later
      · have none : rest.filter (fun entry => entry.1 = key) = [] := by
          refine List.filter_eq_nil_iff.mpr fun entry member same => fresh ?_
          have listed := List.mem_map_of_mem (f := Prod.fst) member
          rw [of_decide_eq_true same] at listed
          exact listed
        have here : decide ((key, value).1 = key) = true := decide_eq_true rfl
        rw [List.filter_cons, if_pos here, none]
      · have differs : ¬ decide (entry.1 = key) = true := by
          intro same
          have listed := List.mem_map_of_mem (f := Prod.fst) later
          rw [← of_decide_eq_true same] at listed
          exact fresh listed
        rw [List.filter_cons, if_neg differs]
        exact ih distinct' later

/-- The list of the chosen destinations is built. -/
theorem PrivateStep.build {extra : Nat → Nat} {tagId : Nat} {info : EncodedTagInfo}
    {before : List StateInfo} {targets : ListTargets} {tags' : List EncodedTagInfo}
    {queue : List PriorityQueueEntry} (weight : Nat)
    (found : targets.tags[tagId]? = some info) (vacant : info.Vacant)
    (there : ∀ dest known, info.destInfo.lookup dest = some known → dest < targets.tags.length)
    (chosen : Chosen extra tagId targets.tags info tags' queue) (filled : 0 < queue.length)
    (fits : before.length + 2 * info.destInfo.length + targets.tags.length < invalidPos) :
    ∃ after targets', (do
        let tags ← modifyAt tags' tagId fun info => { info with base := before.length }
        placeList (recordPrivate tagId) tags.length (bridged info.destInfo.length weight queue)
          before { targets with tags := tags }) = .ok (after, targets') ∧
      PrivateStep extra tagId info before targets after targets' := by
  have inside := (List.getElem?_eq_some_iff.mp found).1
  have valid : ∀ dest known, info.destInfo.lookup dest = some known → dest ≠ invalidPos := by
    intro dest known looked
    have small := there dest known looked
    omega
  obtain ⟨middle, found', settled'⟩ := SameLists.get (Eq.symm chosen.same) found
  have based : (tags'.modify tagId fun info => { info with base := before.length })[tagId]? =
      some { middle with base := before.length } := by
    rw [List.getElem?_modify_eq, found']
    rfl
  have dests : info.settled.destInfo = middle.settled.destInfo := by rw [settled']
  change info.destInfo = middle.destInfo at dests
  have vacant' := vacant.of_settled settled'
  have length : (tags'.modify tagId fun info => { info with base := before.length }).length =
      targets.tags.length := by rw [List.length_modify, chosen.same.length]
  -- the queue with its NoOp
  have short := chosen.short
  have sizes : (bridged info.destInfo.length weight queue).length ≤ info.destInfo.length ∧
      0 < (bridged info.destInfo.length weight queue).length := by
    unfold bridged
    split
    · rename_i less
      have gap := chosen.gap less
      rw [List.length_cons]
      omega
    · omega
  have members : ∀ dest, dest ∈ queued (bridged info.destInfo.length weight queue) →
      dest = invalidPos ∨ dest ∈ queued queue := by
    intro dest member
    unfold bridged at member
    split at member
    · exact List.mem_cons.mp member
    · exact .inr member
  have members' : ∀ dest, dest ∈ queued queue →
      dest ∈ queued (bridged info.destInfo.length weight queue) := by
    intro dest member
    unfold bridged
    split
    · exact List.mem_cons_of_mem _ member
    · exact member
  have distinct : (queued (bridged info.destInfo.length weight queue)).Nodup := by
    unfold bridged
    split
    · refine List.nodup_cons.mpr ⟨fun member => ?_, chosen.distinct⟩
      obtain ⟨known, looked⟩ := chosen.known _ member
      exact valid _ known looked rfl
    · exact chosen.distinct
  have regular : ∀ entry ∈ bridged info.destInfo.length weight queue,
      Regular targets.tags.length entry.destIndex := by
    intro entry member
    rcases members _ (List.mem_map_of_mem member) with noop | isTag
    · exact .inl noop
    · obtain ⟨known, looked⟩ := chosen.known _ isTag
      exact .inr (there _ known looked)
  obtain ⟨after, placed, ran, listed⟩ := @placeList_lists (recordPrivate tagId)
    (notePrivate tagId) targets.tags.length (bridged info.destInfo.length weight queue) before
    { targets with tags := tags'.modify tagId fun info => { info with base := before.length } }
    regular (recordPrivate_notes inside _) length (List.ne_nil_of_length_pos sizes.2) (by omega)
  have distinct' : (placed.map Prod.fst).Nodup := listed.perm.nodup_iff.mpr distinct
  obtain ⟨info', tags'', settled, noops⟩ := @noteAll_settles tagId placed
    { targets with tags := tags'.modify tagId fun info => { info with base := before.length } }
    { middle with base := before.length } distinct' based (by
    intro known looked
    change middle.destInfo.lookup invalidPos = some known at looked
    rw [← dests] at looked
    exact valid _ known looked rfl)
  have size : after.length ≤ before.length + 2 * info.destInfo.length := by
    have exact' := listed.size
    have few : innerNoops (queued (bridged info.destInfo.length weight queue)).length ≤
        (queued (bridged info.destInfo.length weight queue)).length := by
      unfold innerNoops maxTransition
      split <;> omega
    unfold queued at few
    rw [List.length_map] at exact' few
    omega
  have list := PrivateList.of_listed chosen vacant filled (by omega) valid listed settled
    dests.symm rfl vacant'.noop
  have changed : (noteAll (notePrivate tagId) placed
      { targets with
        tags := tags'.modify tagId fun info => { info with base := before.length } }).tags[tagId]? =
        some info' := by
    rw [tags'', List.getElem?_modify_eq, based]
    rfl
  have others : ∀ tag, tag ≠ tagId → (noteAll (notePrivate tagId) placed
      { targets with
        tags := tags'.modify tagId fun info =>
          { info with base := before.length } }).tags[tag]?.map EncodedTagInfo.settled =
        targets.tags[tag]?.map EncodedTagInfo.settled := by
    intro tag differs
    rw [tags'', List.getElem?_modify_ne _ _ differs.symm, List.getElem?_modify_ne _ _ differs.symm]
    exact chosen.same.settled_get tag
  have counts : info'.counts = info.counts := by
    rw [settled.counts]
    unfold EncodedTagInfo.counts
    rw [dests]
  refine ⟨after, noteAll (notePrivate tagId) placed
    { targets with tags := tags'.modify tagId fun info => { info with base := before.length } },
    ?_, ?_⟩
  · rw [modifyAt_eq (by rw [chosen.same.length]; exact inside), Except.ok_bind, length]
    exact ran
  · constructor
    case grows => exact listed.grows
    case chained =>
        obtain ⟨source, blocks⟩ := listed.blocks
        exact blocks.chained listed.grows
    case counts =>
        refine List.ext_getElem? fun tag => ?_
        rw [List.getElem?_map, List.getElem?_map]
        by_cases here : tag = tagId
        · rw [here, changed, found, Option.map_some, Option.map_some, counts]
        · exact settled_counts (others tag here)
    case balanced =>
        have same : looseBut targets.tags tagId (queued queue) =
            looseAt (noteAll (notePrivate tagId) placed
              { targets with
                tags := tags'.modify tagId fun info => { info with base := before.length } }).tags := by
          funext tag dest
          unfold looseBut
          by_cases here : tag = tagId
          · subst here
            rw [looseAt_eq changed, looseAt_eq found]
            rw [settled.loose dests.symm valid ?_ ?_ dest]
            · by_cases member : dest ∈ queued queue
              · rw [if_pos ⟨rfl, member⟩, if_pos member]
              · rw [if_neg fun both => member both.2, if_neg member]
            · intro dest pos member
              obtain ⟨_, cell, there, _⟩ := listed.stands dest pos member
              have small := (List.getElem?_eq_some_iff.mp there).1
              omega
            · intro dest isTag
              rw [listed.perm.mem_iff]
              constructor
              · intro member
                exact (members dest member).resolve_left isTag
              · exact members' dest
          · rw [settled_loose (others tag here), if_neg fun both => here both.1]
        rw [← same, tags'']
        have balanced := chosen.balanced.modify tagId
          (fun info => { info with base := before.length }) fun _ => rfl
        exact balanced.replace based settled.incoming
    case others => exact others
    case list =>
        refine ⟨info', changed, list, ?_, ?_⟩
        · rw [settled.position]
          exact vacant'.position.trans vacant.position.symm
        · rcases settled.noop with here | ⟨absent, same⟩
          · right
            obtain ⟨above, cell, there, tag, base⟩ := listed.stands _ _ here
            refine ⟨⟨cell, there, tag, base⟩, above, ?_⟩
            rw [noops, filter_key distinct' here]
            rfl
          · left
            refine ⟨same.trans vacant'.noop, ?_⟩
            have none : placed.filter (fun entry => entry.1 = invalidPos) = [] := by
              refine List.filter_eq_nil_iff.mpr fun entry member isNoop => absent ?_
              rw [← of_decide_eq_true isNoop]
              exact List.mem_map_of_mem member
            rw [noops, none]
            exact List.append_nil _
    case states =>
        intro pos cell above at'
        rcases listed.only pos cell above at' with member | ⟨isNoop, base⟩
        · have wanted := listed.perm.mem_iff.mp (List.mem_map_of_mem (f := Prod.fst) member)
          rcases members _ wanted with isNoop | isTag
          · refine .inr ⟨isNoop, .inr ?_⟩
            rw [noops]
            refine List.mem_append_right _ (List.mem_map.mpr ⟨(cell.etagIndex, pos), ?_, rfl⟩)
            exact List.mem_filter.mpr ⟨member, decide_eq_true isNoop⟩
          · obtain ⟨known, looked⟩ := chosen.known _ isTag
            exact .inl (there _ known looked)
        · exact .inr ⟨isNoop, .inl base⟩
    case size => exact size

/-- The pass of `build_private_lists` for one tag. -/
theorem buildPrivateList_step {extra : Nat → Nat} {tagId : Nat} {info : EncodedTagInfo}
    {before : List StateInfo} {targets : ListTargets} (found : targets.tags[tagId]? = some info)
    (vacant : info.Vacant) (ordered : Ordered info.destInfo)
    (there : ∀ dest known, info.destInfo.lookup dest = some known → dest < targets.tags.length)
    (balanced : Balanced (looseAt targets.tags) extra targets.tags)
    (fits : before.length + 2 * info.destInfo.length + targets.tags.length < invalidPos) :
    ∃ after targets', buildPrivateList tagId before targets = .ok (after, targets') ∧
      PrivateStep extra tagId info before targets after targets' := by
  have initial : Selecting extra tagId targets.tags []
      { tags := targets.tags, queue := [], excludedState := none, numExcludedTransitions := 0 } := by
    refine ⟨rfl, ?_, List.Sublist.refl _, List.forall_mem_nil _, fun _ => rfl,
      fun _ none => nomatch none⟩
    have same : looseBut targets.tags tagId (queued []) = looseAt targets.tags := by
      funext tag dest
      exact if_neg fun both => List.not_mem_nil both.2
    rw [same]
    exact balanced
  obtain ⟨selection, selected, selecting⟩ :=
    selectDestinations_selects found vacant initial
      (by
        rw [List.nil_append]
        exact List.Pairwise.imp Nat.ne_of_lt ordered)
      (fun entry member => by
        have looked := ordered.lookup_of_mem member
        exact ⟨looked, there _ _ looked⟩)
  rw [List.nil_append] at selecting
  unfold buildPrivateList
  rw [indexAt_eq_ok.mpr found, Except.ok_bind, selected, Except.ok_bind]
  by_cases empty : selection.queue = []
  · rw [if_pos (by rw [empty, List.isEmpty_nil])]
    exact ⟨before, _, rfl, .skip found vacant selecting empty⟩
  · have notEmpty : ¬ selection.queue.isEmpty = true := by
      rw [List.isEmpty_iff]
      exact empty
    obtain ⟨tags', queue, included, chosen, length⟩ :=
      includeExcluded_chooses found vacant ordered there selecting
    have filled : 0 < queue.length := by
      have some := List.length_pos_of_ne_nil empty
      rw [length]
      split <;> omega
    rw [if_neg notEmpty]
    simp only
    rw [included, Except.ok_bind]
    simp only
    rw [← length]
    exact PrivateStep.build selection.numExcludedTransitions found vacant there chosen filled fits

/-! ## All private lists -/

/-- The number of destinations of the tags before an index. -/
def destsBefore (tags : List EncodedTagInfo) (index : Nat) : Nat :=
  ((tags.take index).map fun info => info.counts.length).sum

theorem destsBefore_succ {index : Nat} {info : EncodedTagInfo} (found : tags[index]? = some info) :
    destsBefore tags (index + 1) = destsBefore tags index + info.destInfo.length := by
  unfold destsBefore
  rw [List.take_add_one, found, Option.toList_some, List.map_append, List.sum_append]
  simp [EncodedTagInfo.counts]

theorem destsBefore_le (index : Nat) : destsBefore tags index ≤ destsBefore tags tags.length := by
  unfold destsBefore
  rw [List.take_length]
  conv_rhs => rw [← List.take_append_drop index tags]
  rw [List.map_append, List.sum_append]
  exact Nat.le_add_right _ _

theorem SameCounts.destsBefore {first second : List EncodedTagInfo}
    (same : SameCounts first second) (index : Nat) :
    destsBefore first index = destsBefore second index := by
  unfold Riegeli.destsBefore
  have counted := congrArg (fun lists => ((lists.take index).map List.length).sum) same
  simpa [List.map_take, Function.comp_def] using counted

/-- The machine and the tags after the private lists of the tags before
`done`. -/
structure PrivatePhase (pairs : List (Nat × Nat)) (extra : Nat → Nat) (done : Nat)
    (stateMachine : List StateInfo) (targets : ListTargets) : Prop where
  linked : Linked pairs targets.tags
  inside : ∀ tag dest, (tag, dest) ∈ pairs → dest < targets.tags.length
  balanced : Balanced (looseAt targets.tags) extra targets.tags
  vacant : ∀ tag info, done ≤ tag → targets.tags[tag]? = some info → info.Vacant
  lists : ∀ tag info, tag < done → targets.tags[tag]? = some info →
    PrivateList stateMachine info ∧ info.stateMachinePos = invalidPos
  chained : Chained stateMachine
  noops : ∀ tag pos, (tag, pos) ∈ targets.publicListNoops → tag < done ∧
    (∃ info, targets.tags[tag]? = some info ∧ info.publicListNoopPos = pos) ∧
      ∃ noop, stateMachine[pos]? = some noop ∧ noop.IsNoop ∧ noop.base = invalidPos
  listed : ∀ tag info, targets.tags[tag]? = some info → info.publicListNoopPos ≠ invalidPos →
    (tag, info.publicListNoopPos) ∈ targets.publicListNoops
  distinct : (targets.publicListNoops.map Prod.snd).Nodup
  states : ∀ pos cell, stateMachine[pos]? = some cell →
    cell.etagIndex < targets.tags.length ∨ cell.IsNoop ∧
      (cell.base < stateMachine.length ∨ ∃ tag, (tag, pos) ∈ targets.publicListNoops)
  size : stateMachine.length ≤ 2 * destsBefore targets.tags done

/-- One more private list. -/
theorem PrivatePhase.step {pairs : List (Nat × Nat)} {extra : Nat → Nat} {done : Nat}
    {before after : List StateInfo} {targets targets' : ListTargets} {info : EncodedTagInfo}
    (phase : PrivatePhase pairs extra done before targets)
    (found : targets.tags[done]? = some info)
    (step : PrivateStep extra done info before targets after targets') :
    PrivatePhase pairs extra (done + 1) after targets' := by
  obtain ⟨info', found', list, position, bridge⟩ := step.list
  have length := SameCounts.length step.counts
  have vacant := phase.vacant done info (Nat.le_refl _) found
  -- a tag other than the one at hand is as before
  have origin : ∀ (tag : Nat) (new : EncodedTagInfo), tag ≠ done →
      targets'.tags[tag]? = some new → ∃ old, targets.tags[tag]? = some old ∧
        old.settled = new.settled := by
    intro tag new differs there
    have same := step.others tag differs
    rw [there, Option.map_some] at same
    exact Option.map_eq_some_iff.mp same.symm
  have kept : targets.publicListNoops <+: targets'.publicListNoops := by
    rcases bridge with ⟨_, same⟩ | ⟨_, _, same⟩
    · rw [same]
    · rw [same]
      exact List.prefix_append _ _
  constructor
  case linked => exact phase.linked.of_counts step.counts
  case inside =>
      rw [length]
      exact phase.inside
  case balanced => exact step.balanced
  case vacant =>
      intro tag new later there
      obtain ⟨old, before', same⟩ := origin tag new (by omega) there
      exact (phase.vacant tag old (by omega) before').of_settled same
  case lists =>
      intro tag new earlier there
      by_cases here : tag = done
      · subst here
        obtain rfl := Option.some.inj (found'.symm.trans there)
        exact ⟨list, position.trans vacant.position⟩
      · obtain ⟨old, before', same⟩ := origin tag new here there
        obtain ⟨list', position'⟩ := phase.lists tag old (by omega) before'
        have positions : old.settled.stateMachinePos = new.settled.stateMachinePos := by rw [same]
        exact ⟨(list'.grow step.grows).of_settled same, positions.symm.trans position'⟩
  case chained => exact step.chained phase.chained
  case noops =>
      intro tag pos member
      have old : (tag, pos) ∈ targets.publicListNoops → tag < done + 1 ∧
          (∃ info, targets'.tags[tag]? = some info ∧ info.publicListNoopPos = pos) ∧
            ∃ noop, after[pos]? = some noop ∧ noop.IsNoop ∧ noop.base = invalidPos := by
        intro member
        obtain ⟨earlier, ⟨old, before', at'⟩, noop, there, isNoop, base⟩ :=
          phase.noops tag pos member
        have same := step.others tag (by omega)
        rw [before', Option.map_some] at same
        obtain ⟨new, after', settled⟩ := Option.map_eq_some_iff.mp same
        have positions : new.settled.publicListNoopPos = old.settled.publicListNoopPos := by
          rw [settled]
        exact ⟨by omega, ⟨new, after', positions.trans at'⟩, noop, prefix_get step.grows there,
          isNoop, base⟩
      rcases bridge with ⟨_, same⟩ | ⟨noop, above, same⟩
      · rw [same] at member
        exact old member
      · rw [same] at member
        rcases List.mem_append.mp member with earlier | new
        · exact old earlier
        · obtain ⟨rfl, rfl⟩ := Prod.mk.inj (List.mem_singleton.mp new)
          exact ⟨Nat.lt_succ_self _, ⟨info', found', rfl⟩, noop⟩
  case listed =>
      intro tag new there valid
      by_cases here : tag = done
      · subst here
        obtain rfl := Option.some.inj (found'.symm.trans there)
        rcases bridge with ⟨none, _⟩ | ⟨_, _, same⟩
        · exact absurd none valid
        · rw [same]
          exact List.mem_append_right _ (List.mem_singleton.mpr rfl)
      · obtain ⟨old, before', same⟩ := origin tag new here there
        have positions : old.settled.publicListNoopPos = new.settled.publicListNoopPos := by
          rw [same]
        change old.publicListNoopPos = new.publicListNoopPos at positions
        rw [← positions] at valid ⊢
        exact kept.subset (phase.listed tag old before' valid)
  case distinct =>
      rcases bridge with ⟨_, same⟩ | ⟨_, above, same⟩
      · rw [same]
        exact phase.distinct
      · rw [same, List.map_append]
        refine List.Nodup.append phase.distinct (List.nodup_singleton _) ?_
        intro pos old new
        obtain rfl := List.mem_singleton.mp new
        obtain ⟨⟨tag, pos⟩, member, same'⟩ := List.mem_map.mp old
        obtain ⟨_, _, noop, there, _⟩ := phase.noops tag pos member
        have inside := (List.getElem?_eq_some_iff.mp there).1
        simp only at same'
        omega
  case states =>
      intro pos cell there
      rw [length]
      by_cases old : pos < before.length
      · have known := prefix_get step.grows (List.getElem?_eq_getElem old)
        obtain rfl := Option.some.inj (there.symm.trans known)
        have grown := step.grows.length_le
        rcases phase.states pos _ (List.getElem?_eq_getElem old) with isTag | ⟨isNoop, base⟩
        · exact .inl isTag
        · refine .inr ⟨isNoop, base.imp (fun small => ?_) fun ⟨tag, member⟩ => ?_⟩
          · omega
          · exact ⟨tag, kept.subset member⟩
      · rcases step.states pos cell (by omega) there with isTag | ⟨isNoop, base⟩
        · exact .inl isTag
        · exact .inr ⟨isNoop, base.imp_right fun member => ⟨done, member⟩⟩
  case size =>
      have old := phase.size
      have new := step.size
      rw [SameCounts.destsBefore step.counts, destsBefore_succ found]
      omega

/-- `build_private_lists`. -/
theorem buildPrivateLists_private {pairs : List (Nat × Nat)} {extra : Nat → Nat} {left : Nat} :
    ∀ {done : Nat} {before : List StateInfo} {targets : ListTargets},
      PrivatePhase pairs extra done before targets → done + left = targets.tags.length →
      2 * destsBefore targets.tags targets.tags.length + targets.tags.length < invalidPos →
      ∃ after targets', buildPrivateLists (List.range' done left) before targets =
          .ok (after, targets') ∧
        PrivatePhase pairs extra (done + left) after targets' ∧
        SameCounts targets'.tags targets.tags := by
  induction left with
  | zero => exact fun phase _ _ => ⟨_, _, rfl, phase, rfl⟩
  | succ left ih =>
      intro done before targets phase total fits
      obtain ⟨info, found⟩ : ∃ info, targets.tags[done]? = some info :=
        ⟨_, List.getElem?_eq_getElem (by omega)⟩
      have ordered := phase.linked.ordered info (List.mem_of_getElem? found)
      have bound := @destsBefore_le targets.tags (done + 1)
      rw [destsBefore_succ found] at bound
      have size := phase.size
      obtain ⟨after, targets', built, step⟩ := buildPrivateList_step found
        (phase.vacant done info (Nat.le_refl _) found) ordered
        (fun dest known looked =>
          phase.inside done dest (phase.linked.entries done info dest known found looked).2)
        phase.balanced (show before.length + 2 * info.destInfo.length + targets.tags.length <
          invalidPos by omega)
      have length := SameCounts.length step.counts
      obtain ⟨after', targets'', ran, phase', counts⟩ := ih (phase.step found step) (by omega) (by
        rw [SameCounts.destsBefore step.counts, length]
        exact fits)
      refine ⟨after', targets'', ?_, ?_, Eq.trans counts step.counts⟩
      · rw [List.range'_succ, buildPrivateLists, built, Except.ok_bind]
        exact ran
      · rw [← Nat.add_assoc, Nat.add_right_comm]
        exact phase'

end Riegeli
