/-
Module: Riegeli.Proofs.TransitionCounts
Purpose: The transition statistics count every transition once at its source
  and once at its destination, and no later subtraction goes below zero.
Trusted boundary: none
Main exports: Balanced, dropIncoming_balanced, Counted,
  collectTransitionStatistics_counts, markFrequentTransitions_marks
-/
import Riegeli.Proofs.StateLists
import Mathlib.Algebra.BigOperators.Group.Finset.Basic

namespace Riegeli

open Finset (range)

variable {tags : List EncodedTagInfo}

/-! ## Destinations of a tag -/

/-- The destinations are ordered by their keys. -/
def Ordered (dests : List (Nat × DestInfo)) : Prop := (dests.map Prod.fst).Pairwise (· < ·)

theorem lookup_cons_ne {Value : Type} {first key : Nat} (differs : key ≠ first) (value : Value)
    (rest : List (Nat × Value)) : ((first, value) :: rest).lookup key = rest.lookup key := by
  rw [List.lookup_cons, beq_false_of_ne differs]

theorem Ordered.lookup_of_mem {dests : List (Nat × DestInfo)} (ordered : Ordered dests)
    {key : Nat} {dest : DestInfo} (member : (key, dest) ∈ dests) :
    dests.lookup key = some dest := by
  induction dests with
  | nil => cases member
  | cons entry rest ih =>
      obtain ⟨above, ordered'⟩ := List.pairwise_cons.mp ordered
      rcases List.mem_cons.mp member with rfl | later
      · exact List.lookup_cons_self
      · have differs : key ≠ entry.1 :=
          (above key (List.mem_map_of_mem later)).ne'
        obtain ⟨first, value⟩ := entry
        rw [lookup_cons_ne differs]
        exact ih ordered' later

theorem mem_of_lookup {Value : Type} {entries : List (Nat × Value)} {key : Nat} {value : Value}
    (found : entries.lookup key = some value) : (key, value) ∈ entries := by
  obtain ⟨first, last, rfl, _⟩ := List.lookup_eq_some_iff.mp found
  exact List.mem_append_right _ List.mem_cons_self

/-- The destination with the smallest key comes first. -/
theorem Ordered.lookup_none {dests : List (Nat × DestInfo)} {key : Nat}
    (above : ∀ other ∈ dests.map Prod.fst, key < other) : dests.lookup key = none := by
  rw [List.lookup_eq_none_iff]
  intro entry member
  rw [bne_iff_ne]
  exact (above entry.1 (List.mem_map_of_mem member)).ne

section Upsert

variable {key : Nat} {update : DestInfo → DestInfo} {dests : List (Nat × DestInfo)}

theorem upsertDest_keys {other : Nat}
    (member : other ∈ (upsertDest key update dests).map Prod.fst) :
    other = key ∨ other ∈ dests.map Prod.fst := by
  induction dests with
  | nil => exact .inl (List.mem_singleton.mp member)
  | cons entry rest ih =>
      rw [upsertDest] at member
      split at member
      · rename_i same
        rw [List.map_cons, same]
        exact .inr member
      · split at member
        · exact List.mem_cons.mp member
        · rcases List.mem_cons.mp member with rfl | later
          · exact .inr List.mem_cons_self
          · exact (ih later).imp_right (List.mem_cons_of_mem _)

theorem upsertDest_ordered (ordered : Ordered dests) : Ordered (upsertDest key update dests) := by
  induction dests with
  | nil => exact List.pairwise_singleton _ _
  | cons entry rest ih =>
      obtain ⟨above, ordered'⟩ := List.pairwise_cons.mp ordered
      rw [upsertDest]
      split
      · rename_i same
        rw [same] at above
        exact List.pairwise_cons.mpr ⟨above, ordered'⟩
      · split
        · rename_i under
          refine List.pairwise_cons.mpr ⟨?_, ordered⟩
          exact List.forall_mem_cons.mpr ⟨under, fun other member => under.trans (above other member)⟩
        · refine List.pairwise_cons.mpr ⟨fun other member => ?_, ih ordered'⟩
          rcases upsertDest_keys member with rfl | old
          · omega
          · exact above other old

theorem upsertDest_lookup (ordered : Ordered dests) (other : Nat) :
    (upsertDest key update dests).lookup other =
      if other = key then some (update ((dests.lookup key).getD DestInfo.new))
      else dests.lookup other := by
  induction dests with
  | nil =>
      rw [upsertDest]
      by_cases wanted : other = key
      · rw [if_pos wanted, wanted, List.lookup_cons_self]
        rfl
      · rw [if_neg wanted, lookup_cons_ne wanted]
  | cons entry rest ih =>
      obtain ⟨above, ordered'⟩ := List.pairwise_cons.mp ordered
      obtain ⟨first, dest⟩ := entry
      rw [upsertDest]
      by_cases same : first = key
      · subst same
        rw [if_pos rfl]
        by_cases wanted : other = first
        · rw [if_pos wanted, wanted, List.lookup_cons_self, List.lookup_cons_self]
          rfl
        · rw [if_neg wanted, lookup_cons_ne wanted, lookup_cons_ne wanted]
      · rw [if_neg same]
        by_cases under : key < first
        · have absent : ((first, dest) :: rest).lookup key = none :=
            Ordered.lookup_none
              (List.forall_mem_cons.mpr ⟨under, fun other member => under.trans (above other member)⟩)
          rw [if_pos under, absent]
          by_cases wanted : other = key
          · rw [if_pos wanted, wanted, List.lookup_cons_self]
            rfl
          · rw [if_neg wanted, lookup_cons_ne wanted]
        · rw [if_neg under, lookup_cons_ne (Ne.symm same)]
          by_cases here : other = first
          · rw [here, List.lookup_cons_self, List.lookup_cons_self, if_neg same]
          · rw [lookup_cons_ne here, lookup_cons_ne here, ih ordered']

end Upsert

theorem modifyDest_lookup (key other : Nat) (update : DestInfo → DestInfo)
    (info : EncodedTagInfo) :
    (modifyDest key update info).destInfo.lookup other =
      (info.destInfo.lookup other).map fun dest => if other = key then update dest else dest := by
  unfold modifyDest
  simp only
  induction info.destInfo with
  | nil => rfl
  | cons entry rest ih =>
      obtain ⟨first, dest⟩ := entry
      rw [List.map_cons]
      by_cases same : first = key
      · subst same
        rw [if_pos rfl]
        by_cases wanted : other = first
        · rw [wanted, List.lookup_cons_self, List.lookup_cons_self, Option.map_some, if_pos rfl]
        · rw [lookup_cons_ne wanted, lookup_cons_ne wanted, ih]
      · rw [if_neg same]
        by_cases wanted : other = first
        · rw [wanted, List.lookup_cons_self, List.lookup_cons_self, Option.map_some, if_neg same]
        · rw [lookup_cons_ne wanted, lookup_cons_ne wanted, ih]

/-! ## The balance of transitions -/

/-- The transitions of a tag to a destination that no list takes care of. -/
def EncodedTagInfo.loose (info : EncodedTagInfo) (dest : Nat) : Nat :=
  match info.destInfo.lookup dest with
  | none => 0
  | some known => if known.pos = invalidPos then known.numTransitions else 0

/-- The same for the tag with an index. -/
def looseAt (tags : List EncodedTagInfo) (tag dest : Nat) : Nat :=
  match tags[tag]? with
  | none => 0
  | some info => info.loose dest

/-- Each tag's incoming transitions are those of all tags that lead to it, and
some extra ones. -/
def Balanced (loose : Nat → Nat → Nat) (extra : Nat → Nat) (tags : List EncodedTagInfo) : Prop :=
  ∀ dest info, tags[dest]? = some info →
    info.numIncomingTransitions = ∑ tag ∈ range tags.length, loose tag dest + extra dest

/-- A tag apart from its count of incoming transitions. -/
def EncodedTagInfo.settled (info : EncodedTagInfo) : EncodedTagInfo :=
  { info with numIncomingTransitions := 0 }

/-- The tags differ in their counts of incoming transitions only. -/
def SameLists (first second : List EncodedTagInfo) : Prop :=
  first.map EncodedTagInfo.settled = second.map EncodedTagInfo.settled

theorem SameLists.length {first second : List EncodedTagInfo} (same : SameLists first second) :
    first.length = second.length := by
  have lengths := congrArg List.length same
  rwa [List.length_map, List.length_map] at lengths

theorem SameLists.get {first second : List EncodedTagInfo} (same : SameLists first second)
    {tag : Nat} {info : EncodedTagInfo} (found : first[tag]? = some info) :
    ∃ info', second[tag]? = some info' ∧ info.settled = info'.settled := by
  have mapped := congrArg (fun infos => infos[tag]?) same
  simp only [List.getElem?_map, found, Option.map_some] at mapped
  obtain ⟨info', found', settled⟩ := Option.map_eq_some_iff.mp mapped.symm
  exact ⟨info', found', settled.symm⟩

theorem SameLists.modify (update : EncodedTagInfo → EncodedTagInfo)
    (keeps : ∀ info, (update info).settled = info.settled) (tags : List EncodedTagInfo)
    (index : Nat) : SameLists (tags.modify index update) tags := by
  refine List.ext_getElem? fun other => ?_
  rw [List.getElem?_map, List.getElem?_map, List.getElem?_modify]
  split
  · cases tags[other]? with
    | none => rfl
    | some info => exact congrArg some (keeps info)
  · cases tags[other]? <;> rfl

theorem sum_update {bound tag : Nat} (first second : Nat → Nat) (inside : tag < bound)
    (same : ∀ other, other ≠ tag → first other = second other) :
    ∑ other ∈ range bound, first other + second tag =
      ∑ other ∈ range bound, second other + first tag := by
  have member := Finset.mem_range.mpr inside
  have rest : ∑ other ∈ (range bound).erase tag, first other =
      ∑ other ∈ (range bound).erase tag, second other :=
    Finset.sum_congr rfl fun other isOther => same other (Finset.ne_of_mem_erase isOther)
  rw [← Finset.add_sum_erase _ first member, ← Finset.add_sum_erase _ second member, rest]
  omega

/-- Moving transitions between a tag and the count of its destination. -/
theorem Balanced.shift {loose : Nat → Nat → Nat} {extra : Nat → Nat}
    (balanced : Balanced loose extra tags) {tag dest : Nat} (inside : tag < tags.length)
    (loose' : Nat → Nat → Nat) (update : Nat → Nat)
    (moved : ∀ count, count = ∑ other ∈ range tags.length, loose other dest + extra dest →
      update count + loose tag dest = count + loose' tag dest)
    (same : ∀ other key, ¬ (other = tag ∧ key = dest) → loose' other key = loose other key) :
    Balanced loose' extra (tags.modify dest fun info =>
      { info with numIncomingTransitions := update info.numIncomingTransitions }) := by
  intro key info found
  rw [List.getElem?_modify] at found
  rw [List.length_modify]
  by_cases here : dest = key
  · subst here
    simp only [if_true] at found
    obtain ⟨old, known, rfl⟩ := Option.map_eq_some_iff.mp found
    have total := sum_update (fun other => loose' other dest) (fun other => loose other dest)
      inside fun other differs => same other dest fun both => differs both.1
    have before := balanced dest old known
    have after := moved old.numIncomingTransitions before
    simp only at total ⊢
    omega
  · simp only [if_neg here] at found
    have known : tags[key]? = some info := by
      cases present : tags[key]? with
      | none => rw [present] at found; cases found
      | some old => rw [present] at found; exact found
    rw [balanced key info known]
    congr 1
    exact Finset.sum_congr rfl fun other _ =>
      (same other key fun both => here both.2.symm).symm

/-- Taking transitions that no list took yet off their destination. -/
theorem dropIncoming_balanced {loose : Nat → Nat → Nat} {extra : Nat → Nat}
    (balanced : Balanced loose extra tags) {tag dest : Nat} (inside : tag < tags.length)
    (there : dest < tags.length) :
    ∃ tags', dropIncoming tags dest (loose tag dest) = .ok tags' ∧ SameLists tags' tags ∧
      Balanced (fun other key => if other = tag ∧ key = dest then 0 else loose other key) extra
        tags' := by
  obtain ⟨info, found⟩ : ∃ info, tags[dest]? = some info := ⟨_, List.getElem?_eq_getElem there⟩
  have counted := balanced dest info found
  have part : loose tag dest ≤ ∑ other ∈ range tags.length, loose other dest := by
    rw [← Finset.add_sum_erase _ (fun other => loose other dest) (Finset.mem_range.mpr inside)]
    exact Nat.le_add_right _ _
  have enough : loose tag dest ≤ info.numIncomingTransitions := by omega
  have shifted := balanced.shift inside
    (fun other key => if other = tag ∧ key = dest then 0 else loose other key)
    (fun count => count - loose tag dest)
    (fun count total => by
      simp only [and_self, if_true]
      omega)
    (fun other key differs => if_neg differs)
  have written : (tags.modify dest fun info =>
        { info with numIncomingTransitions := info.numIncomingTransitions - loose tag dest }) =
      tags.modify dest fun info' =>
        { info' with numIncomingTransitions := info.numIncomingTransitions - loose tag dest } := by
    refine List.ext_getElem? fun other => ?_
    rw [List.getElem?_modify, List.getElem?_modify]
    by_cases here : dest = other
    · subst here
      rw [found]
      rfl
    · simp only [if_neg here]
  have kept : SameLists (tags.modify dest fun info =>
      { info with numIncomingTransitions := info.numIncomingTransitions - loose tag dest }) tags := by
    apply SameLists.modify
    intro _
    rfl
  refine ⟨_, ?_, kept, shifted⟩
  unfold dropIncoming
  rw [indexAt_eq_ok.mpr found, Except.ok_bind, subWord_eq enough, Except.ok_bind,
    modifyAt_eq there, written]

/-! ## Statistics -/

/-- A tag that no machine was built for yet. -/
structure EncodedTagInfo.Unplaced (info : EncodedTagInfo) : Prop where
  base : info.base = invalidPos
  noop : info.publicListNoopPos = invalidPos
  position : info.stateMachinePos = invalidPos
  ordered : Ordered info.destInfo

/-- The statistics of the transitions `pairs`. -/
structure Counted (pairs : List (Nat × Nat)) (tags : List EncodedTagInfo) : Prop where
  unplaced : ∀ info ∈ tags, info.Unplaced
  entries : ∀ (tag : Nat) (info : EncodedTagInfo) (dest : Nat) (known : DestInfo),
    tags[tag]? = some info → info.destInfo.lookup dest = some known →
      known.pos = invalidPos ∧ 0 < known.numTransitions ∧ (tag, dest) ∈ pairs
  present : ∀ tag dest, (tag, dest) ∈ pairs → ∃ info known, tags[tag]? = some info ∧
    info.destInfo.lookup dest = some known

theorem looseAt_eq {tag : Nat} {info : EncodedTagInfo} (found : tags[tag]? = some info)
    (dest : Nat) : looseAt tags tag dest = info.loose dest := by
  unfold looseAt
  rw [found]

theorem SameLists.loose {first second : List EncodedTagInfo} (same : SameLists first second) :
    looseAt first = looseAt second := by
  funext tag dest
  cases found : first[tag]? with
  | some info =>
      obtain ⟨info', found', settled⟩ := same.get found
      have dests : info.settled.destInfo = info'.settled.destInfo := by rw [settled]
      change info.destInfo = info'.destInfo at dests
      rw [looseAt_eq found, looseAt_eq found']
      unfold EncodedTagInfo.loose
      rw [dests]
  | none =>
      have outside := List.getElem?_eq_none_iff.mp found
      rw [same.length] at outside
      unfold looseAt
      rw [found, List.getElem?_eq_none outside]

/-- Changes that leave the counts alone keep the balance. -/
theorem Balanced.modify {loose : Nat → Nat → Nat} {extra : Nat → Nat}
    (balanced : Balanced loose extra tags) (index : Nat)
    (update : EncodedTagInfo → EncodedTagInfo)
    (keeps : ∀ info, (update info).numIncomingTransitions = info.numIncomingTransitions) :
    Balanced loose extra (tags.modify index update) := by
  intro dest info found
  rw [List.getElem?_modify] at found
  rw [List.length_modify]
  obtain ⟨old, known, rfl⟩ := Option.map_eq_some_iff.mp found
  rw [← balanced dest old known]
  split
  · exact keeps old
  · rfl

/-- The count of a destination goes up. -/
def countDest (pos : Nat) (info : EncodedTagInfo) : EncodedTagInfo :=
  { info with
    destInfo :=
      upsertDest pos (fun dest => { dest with numTransitions := dest.numTransitions + 1 })
        info.destInfo }

/-- The count of incoming transitions goes up. -/
def countIncoming (info : EncodedTagInfo) : EncodedTagInfo :=
  { info with numIncomingTransitions := info.numIncomingTransitions + 1 }

/-- Counting one more transition. -/
theorem Counted.step {pairs : List (Nat × Nat)} (counted : Counted pairs tags)
    (balanced : Balanced (looseAt tags) (fun _ => 0) tags) {prev pos : Nat}
    (inside : prev < tags.length) :
    Counted (pairs ++ [(prev, pos)]) ((tags.modify prev (countDest pos)).modify pos countIncoming) ∧
      Balanced (looseAt ((tags.modify prev (countDest pos)).modify pos countIncoming)) (fun _ => 0)
        ((tags.modify prev (countDest pos)).modify pos countIncoming) := by
  have same : SameLists ((tags.modify prev (countDest pos)).modify pos countIncoming)
      (tags.modify prev (countDest pos)) := by
    apply SameLists.modify
    intro _
    rfl
  obtain ⟨info, found⟩ : ∃ info, tags[prev]? = some info := ⟨_, List.getElem?_eq_getElem inside⟩
  have ordered := (counted.unplaced info (List.mem_of_getElem? found)).ordered
  have changed : (tags.modify prev (countDest pos))[prev]? = some (countDest pos info) := by
    rw [List.getElem?_modify_eq, found]
    rfl
  have kept : ∀ other, prev ≠ other → (tags.modify prev (countDest pos))[other]? = tags[other]? :=
    fun other differs => List.getElem?_modify_ne _ _ differs
  have fresh : ((info.destInfo.lookup pos).getD DestInfo.new).pos = invalidPos := by
    cases known : info.destInfo.lookup pos with
    | none => rfl
    | some dest => exact (counted.entries prev info pos dest found known).1
  have lookup : ∀ other, (countDest pos info).destInfo.lookup other = if other = pos then
      some { (info.destInfo.lookup pos).getD DestInfo.new with
        numTransitions := ((info.destInfo.lookup pos).getD DestInfo.new).numTransitions + 1 }
      else info.destInfo.lookup other := fun other => upsertDest_lookup ordered other
  -- what a tag of the result has of the tag before
  have origin : ∀ (tag : Nat) (after : EncodedTagInfo),
      ((tags.modify prev (countDest pos)).modify pos countIncoming)[tag]? = some after →
      ∃ old, tags[tag]? = some old ∧ after.base = old.base ∧
        after.publicListNoopPos = old.publicListNoopPos ∧
        after.stateMachinePos = old.stateMachinePos ∧
        (prev ≠ tag ∧ after.destInfo = old.destInfo ∨
          prev = tag ∧ old = info ∧ after.destInfo = (countDest pos info).destInfo) := by
    intro tag after there
    obtain ⟨middle, known, settled⟩ := same.get there
    have base : after.settled.base = middle.settled.base := by rw [settled]
    have noop : after.settled.publicListNoopPos = middle.settled.publicListNoopPos := by
      rw [settled]
    have position : after.settled.stateMachinePos = middle.settled.stateMachinePos := by
      rw [settled]
    have dests : after.settled.destInfo = middle.settled.destInfo := by rw [settled]
    by_cases here : prev = tag
    · subst here
      rw [changed] at known
      obtain rfl := Option.some.inj known
      exact ⟨info, found, base, noop, position, .inr ⟨rfl, rfl, dests⟩⟩
    · rw [kept tag here] at known
      exact ⟨middle, known, base, noop, position, .inl ⟨here, dests⟩⟩
  constructor
  · constructor
    case unplaced =>
        intro after member
        obtain ⟨tag, there⟩ := List.getElem?_of_mem member
        obtain ⟨old, known, base, noop, position, dests⟩ := origin tag after there
        have unplaced := counted.unplaced old (List.mem_of_getElem? known)
        refine ⟨base.trans unplaced.base, noop.trans unplaced.noop,
          position.trans unplaced.position, ?_⟩
        rcases dests with ⟨_, dests⟩ | ⟨_, rfl, dests⟩
        · rw [dests]
          exact unplaced.ordered
        · rw [dests]
          exact upsertDest_ordered ordered
    case entries =>
        intro tag after dest known there looked
        obtain ⟨old, before, _, _, _, dests⟩ := origin tag after there
        rcases dests with ⟨_, dests⟩ | ⟨rfl, rfl, dests⟩
        · rw [dests] at looked
          obtain ⟨unset, positive, listed⟩ := counted.entries tag old dest known before looked
          exact ⟨unset, positive, List.mem_append_left _ listed⟩
        · rw [dests, lookup dest] at looked
          by_cases here : dest = pos
          · rw [if_pos here] at looked
            obtain rfl := Option.some.inj looked
            exact ⟨fresh, Nat.succ_pos _, by simp [here]⟩
          · rw [if_neg here] at looked
            obtain ⟨unset, positive, listed⟩ := counted.entries prev old dest known before looked
            exact ⟨unset, positive, List.mem_append_left _ listed⟩
    case present =>
        intro tag dest listed
        have inside' : tag < tags.length := by
          rcases List.mem_append.mp listed with old | new
          · obtain ⟨_, _, there, _⟩ := counted.present tag dest old
            exact (List.getElem?_eq_some_iff.mp there).1
          · obtain ⟨rfl, _⟩ := Prod.mk.inj (List.mem_singleton.mp new)
            exact inside
        obtain ⟨after, there⟩ : ∃ after,
            ((tags.modify prev (countDest pos)).modify pos countIncoming)[tag]? = some after :=
          ⟨_, List.getElem?_eq_getElem (by rwa [List.length_modify, List.length_modify])⟩
        obtain ⟨old, before, _, _, _, dests⟩ := origin tag after there
        have already : (tag, dest) ∈ pairs → ∃ known, old.destInfo.lookup dest = some known := by
          intro listed
          obtain ⟨old', known, before', looked⟩ := counted.present tag dest listed
          obtain rfl : old = old' := Option.some.inj (before.symm.trans before')
          exact ⟨known, looked⟩
        rcases dests with ⟨elsewhere, dests⟩ | ⟨rfl, rfl, dests⟩
        · rcases List.mem_append.mp listed with listed | new
          · obtain ⟨known, looked⟩ := already listed
            exact ⟨after, known, there, by rw [dests]; exact looked⟩
          · exact absurd (Prod.mk.inj (List.mem_singleton.mp new)).1.symm elsewhere
        · by_cases here : dest = pos
          · exact ⟨after, _, there, by rw [dests, lookup dest, if_pos here]⟩
          · rcases List.mem_append.mp listed with listed | new
            · obtain ⟨known, looked⟩ := already listed
              exact ⟨after, known, there, by rw [dests, lookup dest, if_neg here]; exact looked⟩
            · exact absurd (Prod.mk.inj (List.mem_singleton.mp new)).2 here
  · rw [same.loose]
    have inside' : prev < (tags.modify prev (countDest pos)).length := by
      rw [List.length_modify]
      exact inside
    refine (balanced.modify prev (countDest pos) fun _ => rfl).shift inside'
      (looseAt (tags.modify prev (countDest pos))) (fun count => count + 1) ?_ ?_
    · intro count _
      rw [looseAt_eq changed, looseAt_eq found]
      unfold EncodedTagInfo.loose
      rw [lookup pos, if_pos rfl]
      simp only [fresh, if_true]
      cases known : info.destInfo.lookup pos with
      | none => rfl
      | some dest =>
          have unset := (counted.entries prev info pos dest found known).1
          simp only [Option.getD_some, unset, if_true]
          omega
    · intro other key differs
      by_cases here : prev = other
      · subst here
        have elsewhere : key ≠ pos := fun same => differs ⟨rfl, same⟩
        rw [looseAt_eq changed, looseAt_eq found]
        unfold EncodedTagInfo.loose
        rw [lookup key, if_neg elsewhere]
      · unfold looseAt
        rw [kept other here]

/-- The transitions of a sequence of tags. -/
def transitionsFrom (first : Nat) (rest : List Nat) : List (Nat × Nat) :=
  (first :: rest).zip rest

theorem transitionsFrom_cons (first next : Nat) (rest : List Nat) :
    transitionsFrom first (next :: rest) = (first, next) :: transitionsFrom next rest := rfl

/-- The loop counts every transition. -/
theorem transitionStatisticsLoop_counts {rest : List Nat} :
    ∀ {tags : List EncodedTagInfo} {pairs : List (Nat × Nat)} {prev : Nat},
      Counted pairs tags → Balanced (looseAt tags) (fun _ => 0) tags →
      (∀ tag ∈ prev :: rest, tag < tags.length) →
      ∃ tags', transitionStatisticsLoop tags prev rest = .ok tags' ∧
        Counted (pairs ++ transitionsFrom prev rest) tags' ∧
        Balanced (looseAt tags') (fun _ => 0) tags' ∧ tags'.length = tags.length := by
  induction rest with
  | nil =>
      intro tags pairs prev counted balanced _
      refine ⟨tags, rfl, ?_, balanced, rfl⟩
      rw [transitionsFrom, List.zip_nil_right, List.append_nil]
      exact counted
  | cons pos rest ih =>
      intro tags pairs prev counted balanced inside
      obtain ⟨here, later⟩ := List.forall_mem_cons.mp inside
      obtain ⟨there, _⟩ := List.forall_mem_cons.mp later
      obtain ⟨counted', balanced'⟩ := @Counted.step tags pairs counted balanced prev pos here
      have length : ((tags.modify prev (countDest pos)).modify pos countIncoming).length =
          tags.length := by rw [List.length_modify, List.length_modify]
      obtain ⟨tags', ran, counted'', balanced'', length'⟩ :=
        ih counted' balanced' (by rw [length]; exact later)
      refine ⟨tags', ?_, ?_, balanced'', length'.trans length⟩
      · rw [transitionStatisticsLoop, modifyAt_eq here, Except.ok_bind,
          modifyAt_eq (by rw [List.length_modify]; exact there), Except.ok_bind]
        exact ran
      · rw [transitionsFrom_cons, List.append_cons]
        exact counted''

theorem Counted.same {pairs : List (Nat × Nat)} {after : List EncodedTagInfo}
    (counted : Counted pairs tags) (same : SameLists after tags) : Counted pairs after := by
  have origin : ∀ (tag : Nat) (info : EncodedTagInfo), after[tag]? = some info →
      ∃ old, tags[tag]? = some old ∧ info.base = old.base ∧
        info.publicListNoopPos = old.publicListNoopPos ∧
        info.stateMachinePos = old.stateMachinePos ∧ info.destInfo = old.destInfo := by
    intro tag info found
    obtain ⟨old, known, settled⟩ := same.get found
    have base : info.settled.base = old.settled.base := by rw [settled]
    have noop : info.settled.publicListNoopPos = old.settled.publicListNoopPos := by rw [settled]
    have position : info.settled.stateMachinePos = old.settled.stateMachinePos := by rw [settled]
    have dests : info.settled.destInfo = old.settled.destInfo := by rw [settled]
    exact ⟨old, known, base, noop, position, dests⟩
  constructor
  case unplaced =>
      intro info member
      obtain ⟨tag, found⟩ := List.getElem?_of_mem member
      obtain ⟨old, known, base, noop, position, dests⟩ := origin tag info found
      have unplaced := counted.unplaced old (List.mem_of_getElem? known)
      refine ⟨base.trans unplaced.base, noop.trans unplaced.noop,
        position.trans unplaced.position, ?_⟩
      rw [dests]
      exact unplaced.ordered
  case entries =>
      intro tag info dest known found looked
      obtain ⟨old, before, _, _, _, dests⟩ := origin tag info found
      rw [dests] at looked
      exact counted.entries tag old dest known before looked
  case present =>
      intro tag dest listed
      obtain ⟨old, known, before, looked⟩ := counted.present tag dest listed
      have inside := (List.getElem?_eq_some_iff.mp before).1
      rw [← same.length] at inside
      obtain ⟨old', before', _, _, _, dests⟩ :=
        origin tag _ (List.getElem?_eq_getElem inside)
      obtain rfl : old = old' := Option.some.inj (before.symm.trans before')
      exact ⟨_, known, List.getElem?_eq_getElem inside, by rw [dests]; exact looked⟩

/-- A tag as the encoder makes it. -/
structure EncodedTagInfo.Fresh (info : EncodedTagInfo) : Prop where
  base : info.base = invalidPos
  noop : info.publicListNoopPos = invalidPos
  position : info.stateMachinePos = invalidPos
  dests : info.destInfo = []
  incoming : info.numIncomingTransitions = 0

/-- The statistics of fresh tags.  The initial tag has an incoming transition,
or an extra one. -/
theorem collectTransitionStatistics_counts {encodedTags rest : List Nat} {last : Nat}
    (fresh : ∀ info ∈ tags, info.Fresh) (reversed : encodedTags.reverse = last :: rest)
    (inside : ∀ tag ∈ encodedTags, tag < tags.length) :
    ∃ tags' extra, collectTransitionStatistics tags encodedTags = .ok tags' ∧
      Counted (transitionsFrom last rest) tags' ∧ Balanced (looseAt tags') extra tags' ∧
      tags'.length = tags.length ∧ ∃ info, tags'[last]? = some info ∧
        0 < info.numIncomingTransitions ∧
        (0 < extra last ∨ ∃ tag, 0 < looseAt tags' tag last) := by
  have inside' : ∀ tag ∈ last :: rest, tag < tags.length := by
    rw [← reversed]
    exact fun tag member => inside tag (List.mem_reverse.mp member)
  have start : Counted [] tags := by
    constructor
    case unplaced =>
        intro info member
        have isFresh := fresh info member
        refine ⟨isFresh.base, isFresh.noop, isFresh.position, ?_⟩
        rw [isFresh.dests]
        exact List.Pairwise.nil
    case entries =>
        intro tag info dest known found looked
        rw [(fresh info (List.mem_of_getElem? found)).dests] at looked
        cases looked
    case present => exact fun _ _ listed => absurd listed List.not_mem_nil
  have empty : Balanced (looseAt tags) (fun _ => 0) tags := by
    intro dest info found
    rw [(fresh info (List.mem_of_getElem? found)).incoming, Nat.add_zero]
    refine (Finset.sum_eq_zero fun tag _ => ?_).symm
    unfold looseAt
    split
    · rfl
    · rename_i other found'
      unfold EncodedTagInfo.loose
      rw [(fresh other (List.mem_of_getElem? found')).dests]
      rfl
  obtain ⟨tags', ran, counted, balanced, length⟩ :=
    transitionStatisticsLoop_counts start empty inside'
  rw [List.nil_append] at counted
  have there : last < tags'.length := by
    rw [length]
    exact inside' last List.mem_cons_self
  have same : SameLists (tags'.modify last fun info =>
      if info.numIncomingTransitions = 0 then { info with numIncomingTransitions := 1 }
      else info) tags' := by
    apply SameLists.modify
    intro info
    split <;> rfl
  obtain ⟨info, found⟩ : ∃ info, tags'[last]? = some info := ⟨_, List.getElem?_eq_getElem there⟩
  have total : info.numIncomingTransitions =
      ∑ tag ∈ range tags'.length, looseAt tags' tag last + 0 := balanced last info found
  have opened : collectTransitionStatistics tags encodedTags =
      .ok (tags'.modify last fun info =>
        if info.numIncomingTransitions = 0 then { info with numIncomingTransitions := 1 }
        else info) := by
    unfold collectTransitionStatistics
    rw [reversed]
    simp only
    rw [ran, Except.ok_bind, modifyAt_eq there]
  have last' : (tags'.modify last fun info =>
      if info.numIncomingTransitions = 0 then { info with numIncomingTransitions := 1 }
      else info)[last]? = some (if info.numIncomingTransitions = 0 then
        { info with numIncomingTransitions := 1 } else info) := by
    rw [List.getElem?_modify_eq, found]
    rfl
  refine ⟨_, fun dest => if dest = last ∧ info.numIncomingTransitions = 0 then 1 else 0, opened,
    counted.same same, ?_, by rw [List.length_modify, length], _, last', ?_, ?_⟩
  · rw [same.loose]
    intro dest after known
    rw [List.length_modify]
    by_cases here : last = dest
    · subst here
      rw [last'] at known
      obtain rfl := Option.some.inj known
      by_cases none : info.numIncomingTransitions = 0
      · simp only [none, and_self, if_true]
        omega
      · simp only [none, and_false, if_false]
        exact total
    · rw [List.getElem?_modify_ne _ _ here] at known
      have elsewhere : ¬ (dest = last ∧ info.numIncomingTransitions = 0) :=
        fun both => here both.1.symm
      simp only [if_neg elsewhere]
      exact balanced dest after known
  · by_cases none : info.numIncomingTransitions = 0
    · rw [if_pos none]
      exact Nat.one_pos
    · rw [if_neg none]
      omega
  · rw [same.loose]
    by_cases none : info.numIncomingTransitions = 0
    · left
      simp only [none, and_self, if_true]
      exact Nat.one_pos
    · right
      by_contra absent
      have zero : ∑ tag ∈ range tags'.length, looseAt tags' tag last = 0 :=
        Finset.sum_eq_zero fun tag _ => by
          have bound := not_exists.mp absent tag
          omega
      omega

/-! ## What later phases keep -/

/-- The destinations of a tag with their counts. -/
def EncodedTagInfo.counts (info : EncodedTagInfo) : List (Nat × Nat) :=
  info.destInfo.map fun entry => (entry.1, entry.2.numTransitions)

/-- The tags have the same destinations with the same counts. -/
def SameCounts (first second : List EncodedTagInfo) : Prop :=
  first.map EncodedTagInfo.counts = second.map EncodedTagInfo.counts

/-- The destinations are those of the transitions `pairs`. -/
structure Linked (pairs : List (Nat × Nat)) (tags : List EncodedTagInfo) : Prop where
  ordered : ∀ info ∈ tags, Ordered info.destInfo
  entries : ∀ (tag : Nat) (info : EncodedTagInfo) (dest : Nat) (known : DestInfo),
    tags[tag]? = some info → info.destInfo.lookup dest = some known →
      0 < known.numTransitions ∧ (tag, dest) ∈ pairs
  present : ∀ tag dest, (tag, dest) ∈ pairs → ∃ info known, tags[tag]? = some info ∧
    info.destInfo.lookup dest = some known

theorem Counted.linked {pairs : List (Nat × Nat)} (counted : Counted pairs tags) :
    Linked pairs tags where
  ordered info member := (counted.unplaced info member).ordered
  entries tag info dest known found looked := (counted.entries tag info dest known found looked).2
  present := counted.present

theorem SameCounts.get {first second : List EncodedTagInfo} (same : SameCounts first second)
    {tag : Nat} {info : EncodedTagInfo} (found : first[tag]? = some info) :
    ∃ info', second[tag]? = some info' ∧ info.counts = info'.counts := by
  have mapped := congrArg (fun infos => infos[tag]?) same
  simp only [List.getElem?_map, found, Option.map_some] at mapped
  obtain ⟨info', found', counts⟩ := Option.map_eq_some_iff.mp mapped.symm
  exact ⟨info', found', counts.symm⟩

theorem SameCounts.length {first second : List EncodedTagInfo} (same : SameCounts first second) :
    first.length = second.length := by
  have lengths := congrArg List.length same
  rwa [List.length_map, List.length_map] at lengths

theorem SameLists.counts {first second : List EncodedTagInfo} (same : SameLists first second) :
    SameCounts first second := by
  have counted := congrArg (List.map EncodedTagInfo.counts) same
  rw [List.map_map, List.map_map] at counted
  exact counted

theorem lookup_counts (info : EncodedTagInfo) (dest : Nat) :
    info.counts.lookup dest = (info.destInfo.lookup dest).map DestInfo.numTransitions := by
  unfold EncodedTagInfo.counts
  induction info.destInfo with
  | nil => rfl
  | cons entry rest ih =>
      obtain ⟨first, known⟩ := entry
      rw [List.map_cons]
      by_cases wanted : dest = first
      · rw [wanted, List.lookup_cons_self, List.lookup_cons_self, Option.map_some]
      · rw [lookup_cons_ne wanted, lookup_cons_ne wanted, ih]

theorem keys_counts (info : EncodedTagInfo) :
    info.counts.map Prod.fst = info.destInfo.map Prod.fst := by
  unfold EncodedTagInfo.counts
  rw [List.map_map]
  rfl

theorem Linked.of_counts {pairs : List (Nat × Nat)} {first second : List EncodedTagInfo}
    (linked : Linked pairs first) (same : SameCounts second first) : Linked pairs second := by
  constructor
  case ordered =>
      intro info member
      obtain ⟨tag, found⟩ := List.getElem?_of_mem member
      obtain ⟨old, known, counts⟩ := same.get found
      have ordered := linked.ordered old (List.mem_of_getElem? known)
      unfold Ordered at ordered ⊢
      rwa [← keys_counts, counts, keys_counts]
  case entries =>
      intro tag info dest known found looked
      obtain ⟨old, before, counts⟩ := same.get found
      have both := congrArg (List.lookup dest) counts
      rw [lookup_counts, lookup_counts, looked, Option.map_some] at both
      obtain ⟨known', looked', number⟩ := Option.map_eq_some_iff.mp both.symm
      rw [← number]
      exact linked.entries tag old dest known' before looked'
  case present =>
      intro tag dest listed
      obtain ⟨old, known, before, looked⟩ := linked.present tag dest listed
      obtain ⟨info, found, counts⟩ := SameCounts.get (Eq.symm same) before
      have both := congrArg (List.lookup dest) counts
      rw [lookup_counts, lookup_counts, looked, Option.map_some] at both
      obtain ⟨known', looked', _⟩ := Option.map_eq_some_iff.mp both.symm
      exact ⟨info, known', found, looked'⟩

end Riegeli
