/-
Module: Riegeli.Proofs.StateMachineReplay
Purpose: The machine that the encoder builds leads the decoder through exactly
  the encoded tags, last one first.
Trusted boundary: none
Main exports: Built, createStateMachine_builds, createStateMachine_replays
-/
import Riegeli.Library.Related
import Riegeli.Proofs.BaseIndices
import Riegeli.Proofs.ImplicitLoops

namespace Riegeli

variable {tags : List EncodedTagInfo} {stateMachine : List StateInfo}

/-! ## The ways of a built machine -/

/-- The way from a tag to one of its destinations, whose only destination has
its state at the base. -/
inductive Steps (stateMachine : List StateInfo) (info target : EncodedTagInfo) (dest : Nat) :
    Prop where
  | privately : info.privatePos dest ≠ invalidPos →
      StandsFor stateMachine (info.privatePos dest) dest →
      Reaches stateMachine info.base (info.privatePos dest) →
      (info.destInfo.length = 1 → info.privatePos dest = info.base) →
      Steps stateMachine info target dest
  | publicly : info.privatePos dest = invalidPos → info.publicListNoopPos = invalidPos →
      StandsFor stateMachine target.stateMachinePos dest →
      Reaches stateMachine info.base target.stateMachinePos →
      (info.destInfo.length = 1 → info.base = target.stateMachinePos) →
      Steps stateMachine info target dest
  | throughNoop {noop : StateInfo} : info.destInfo.length ≠ 1 →
      info.privatePos dest = invalidPos → info.publicListNoopPos ≠ invalidPos →
      stateMachine[info.publicListNoopPos]? = some noop → noop.IsNoop →
      Reaches stateMachine info.base info.publicListNoopPos →
      StandsFor stateMachine target.stateMachinePos dest →
      Reaches stateMachine noop.base target.stateMachinePos → noop.base < stateMachine.length →
      Steps stateMachine info target dest

/-- The machine and the tags that `create_state_machine` returns. -/
structure Built (pairs : List (Nat × Nat)) (stateMachine : List StateInfo)
    (tags : List EncodedTagInfo) : Prop where
  linked : Linked pairs tags
  chained : Chained stateMachine
  steps : ∀ tag dest, (tag, dest) ∈ pairs → ∃ info target, tags[tag]? = some info ∧
    tags[dest]? = some target ∧ info.base < stateMachine.length ∧
      Steps stateMachine info target dest
  based : ∀ info ∈ tags, info.base = invalidPos ∨ info.base < stateMachine.length
  states : ∀ cell ∈ stateMachine, cell.etagIndex < tags.length ∨
    cell.IsNoop ∧ cell.base < stateMachine.length

theorem privatePos_eq {info : EncodedTagInfo} {dest : Nat} {known : DestInfo}
    (looked : info.destInfo.lookup dest = some known) : info.privatePos dest = known.pos := by
  unfold EncodedTagInfo.privatePos
  rw [looked]
  rfl

/-- The bases found complete the machine. -/
theorem PublicPhase.built {pairs : List (Nat × Nat)} {extra : Nat → Nat} {start : Nat}
    {before after : List StateInfo} {targets : ListTargets} {tags' : List EncodedTagInfo}
    (phase : PublicPhase pairs extra start before targets) (fits : before.length < invalidPos)
    (inside : ∀ tag dest, (tag, dest) ∈ pairs → dest < targets.tags.length)
    (rebased : Rebased (targets.publicListNoops.map Prod.snd) before after)
    (noopBases : ∀ entry ∈ targets.publicListNoops, ∃ info noop,
      targets.tags[entry.1]? = some info ∧ after[entry.2]? = some noop ∧
        BaseFor after targets.tags info noop.base)
    (same : SameButBases tags' targets.tags)
    (tagBases : ∀ (tag : Nat) (info info' : EncodedTagInfo), targets.tags[tag]? = some info →
      tags'[tag]? = some info' → info'.base = info.base ∧ info.base ≠ invalidPos ∨
        info.base = invalidPos ∧ BaseFor after targets.tags info info'.base) :
    Built pairs after tags' := by
  have unset : ∀ pos ∈ targets.publicListNoops.map Prod.snd, ∃ noop, before[pos]? = some noop ∧
      noop.base = invalidPos := by
    intro pos member
    obtain ⟨⟨tag, pos⟩, listed, rfl⟩ := List.mem_map.mp member
    obtain ⟨_, _, noop, found, _, base⟩ := phase.noops tag pos listed
    exact ⟨noop, found, base⟩
  -- a NoOp of a private list leads to the loose destinations of its tag
  have bridge : ∀ tag pos, (tag, pos) ∈ targets.publicListNoops → ∃ info noop,
      targets.tags[tag]? = some info ∧ info.publicListNoopPos = pos ∧ after[pos]? = some noop ∧
        noop.IsNoop ∧ BaseFor after targets.tags info noop.base := by
    intro tag pos listed
    obtain ⟨_, ⟨info, found, at'⟩, old, known, isNoop, _⟩ := phase.noops tag pos listed
    obtain ⟨info', noop, found', there, based⟩ := noopBases (tag, pos) listed
    obtain rfl := Option.some.inj (found.symm.trans found')
    obtain ⟨noop', there', tagged, _⟩ := rebased.kept pos old known
    obtain rfl := Option.some.inj (there.symm.trans there')
    exact ⟨info, noop, found, at', there, tagged.trans isNoop, based⟩
  constructor
  case linked =>
      refine phase.linked.of_counts ?_
      have counted := congrArg (List.map EncodedTagInfo.counts) same
      rw [List.map_map, List.map_map] at counted
      exact counted
  case chained => exact rebased.chained fits unset phase.chained
  case steps =>
      intro tag dest listed
      obtain ⟨old, known, found, looked⟩ := phase.linked.present tag dest listed
      obtain ⟨info, found', equal⟩ := SameButBases.get (Eq.symm same) found
      have dests : info.destInfo = old.destInfo := by rw [equal]
      have noopPos : info.publicListNoopPos = old.publicListNoopPos := by rw [equal]
      have member := mem_of_lookup looked
      obtain ⟨goal, there⟩ : ∃ goal, targets.tags[dest]? = some goal :=
        ⟨_, List.getElem?_eq_getElem (inside tag dest listed)⟩
      obtain ⟨target, there', targetEqual⟩ := SameButBases.get (Eq.symm same) there
      have positions : target.stateMachinePos = goal.stateMachinePos := by rw [targetEqual]
      have private' : info.privatePos dest = known.pos := by
        refine privatePos_eq ?_
        rw [dests]
        exact looked
      refine ⟨info, target, found', there', ?_⟩
      -- a loose destination stands in the public list
      have post : known.pos = invalidPos → StandsFor after target.stateMachinePos dest := by
        intro free
        obtain ⟨goal', there'', _, stands⟩ := phase.loose tag old dest known found looked free
        obtain rfl := Option.some.inj (there.symm.trans there'')
        rw [positions]
        exact rebased.stands stands
      have reach : ∀ base, BaseFor after targets.tags old base → known.pos = invalidPos →
          base < after.length ∧ Reaches after base target.stateMachinePos ∧
            (old.destInfo.length = 1 → base = target.stateMachinePos) := by
        intro base based free
        rw [positions]
        exact based.reaches _ member free _ there
      cases phase.lists tag old found with
      | absent base noop free =>
          have loose := free dest known looked
          rcases tagBases tag old info found found' with ⟨_, valid⟩ | ⟨_, based⟩
          · exact absurd base valid
          · obtain ⟨small, reaches, single⟩ := reach info.base based loose
            refine ⟨small, .publicly (private'.trans loose) (noopPos.trans noop) (post loose)
              reaches ?_⟩
            rw [dests]
            exact single
      | present base states whole noops single =>
          have kept : info.base = old.base := by
            rcases tagBases tag old info found found' with ⟨kept, _⟩ | ⟨none, _⟩
            · exact kept
            · omega
          rw [← rebased.length] at base
          rw [kept]
          refine ⟨base, ?_⟩
          by_cases loose : known.pos = invalidPos
          · have through : old.publicListNoopPos ≠ invalidPos :=
              fun none => whole none dest known looked loose
            obtain ⟨info', noop, again, at', there'', isNoop, based⟩ :=
              bridge tag _ (phase.listed tag old found through)
            obtain rfl := Option.some.inj (found.symm.trans again)
            obtain ⟨small, reaches, _⟩ := reach noop.base based loose
            obtain ⟨reachesNoop, _⟩ := noops through
            have several : info.destInfo.length ≠ 1 := by
              intro one
              rw [dests] at one
              have here := single one dest known looked
              rw [rebased.length] at base
              omega
            have reachesNoop' := rebased.reaches reachesNoop
            rw [← kept, ← noopPos] at reachesNoop'
            rw [← noopPos] at through there''
            exact .throughNoop several (private'.trans loose) through there'' isNoop reachesNoop'
              (post loose) reaches small
          · obtain ⟨stands, reaches⟩ := states dest known looked loose
            rw [← private'] at loose
            have stands' := rebased.stands stands
            have reaches' := rebased.reaches reaches
            rw [← private'] at stands' reaches'
            rw [← kept] at reaches'
            refine .privately loose stands' reaches' fun one => ?_
            rw [dests] at one
            rw [private', kept]
            exact single one dest known looked
  case based =>
      intro info member
      obtain ⟨tag, found⟩ := List.getElem?_of_mem member
      obtain ⟨old, known, _⟩ := same.get found
      rcases tagBases tag old info known found with ⟨kept, valid⟩ | ⟨_, based⟩
      · right
        cases phase.lists tag old known with
        | absent base _ _ => exact absurd base valid
        | present base _ _ _ _ =>
            rw [kept, rebased.length]
            exact base
      · by_cases none : ∀ entry ∈ old.destInfo, entry.2.pos ≠ invalidPos
        · exact .inl (based.none none)
        · right
          simp only [not_forall, not_not] at none
          obtain ⟨entry, listed, free⟩ := none
          have looked := (phase.linked.ordered old (List.mem_of_getElem? known)).lookup_of_mem listed
          obtain ⟨target, there, _⟩ := phase.loose tag old entry.1 entry.2 known looked free
          exact (based.reaches entry listed free target there).1
  case states =>
      intro cell member
      obtain ⟨pos, found⟩ := List.getElem?_of_mem member
      obtain ⟨old, known, tagged, _, kept⟩ := rebased.back found
      have lengths := same.length
      rw [rebased.length, tagged, lengths]
      rcases phase.states pos old known with isTag | ⟨isNoop, base⟩
      · exact .inl isTag
      · right
        unfold StateInfo.IsNoop
        rw [tagged]
        refine ⟨isNoop, ?_⟩
        by_cases bridged : pos ∈ targets.publicListNoops.map Prod.snd
        · obtain ⟨⟨tag, pos⟩, listed, rfl⟩ := List.mem_map.mp bridged
          obtain ⟨info, noop, at', atPos, there, _, based⟩ := bridge tag pos listed
          obtain rfl := Option.some.inj (found.symm.trans there)
          cases phase.lists tag info at' with
          | absent _ none _ =>
              obtain ⟨_, ⟨info', again, here⟩, noop', standing, _⟩ := phase.noops tag pos listed
              obtain rfl := Option.some.inj (at'.symm.trans again)
              have small := (List.getElem?_eq_some_iff.mp standing).1
              omega
          | present _ _ _ noops _ =>
              have through : info.publicListNoopPos ≠ invalidPos := by
                obtain ⟨small, _⟩ := List.getElem?_eq_some_iff.mp known
                omega
              obtain ⟨_, _, dest, dest', looked, free⟩ := noops through
              obtain ⟨target, there', _⟩ := phase.loose tag info dest dest' at' looked free
              rw [← rebased.length]
              exact (based.reaches _ (mem_of_lookup looked) free target there').1
        · rw [kept bridged]
          refine base.resolve_right fun listed => ?_
          obtain ⟨tag, listed⟩ := listed
          exact bridged (List.mem_map_of_mem (f := Prod.snd) listed)

/-- Every loose destination is posted. -/
theorem PublicPhase.destsPosted {pairs : List (Nat × Nat)} {extra : Nat → Nat} {start : Nat}
    {targets : ListTargets} (phase : PublicPhase pairs extra start stateMachine targets) :
    ∀ info ∈ targets.tags, DestsPosted targets.tags start stateMachine.length info := by
  intro info member entry listed free
  obtain ⟨tag, found⟩ := List.getElem?_of_mem member
  have looked := (phase.linked.ordered info member).lookup_of_mem listed
  obtain ⟨target, there, above, cell, standing, _⟩ :=
    phase.loose tag info entry.1 entry.2 found looked free
  exact ⟨target, there, above, (List.getElem?_eq_some_iff.mp standing).1⟩

/-- A NoOp serves a tag with a loose destination. -/
theorem PublicPhase.serves {pairs : List (Nat × Nat)} {extra : Nat → Nat} {start : Nat}
    {targets : ListTargets} (phase : PublicPhase pairs extra start stateMachine targets)
    (fits : stateMachine.length < invalidPos) :
    ∀ entry ∈ targets.publicListNoops, entry.2 < start ∧ entry.2 < stateMachine.length ∧
      ∃ info, targets.tags[entry.1]? = some info ∧
        DestsPosted targets.tags start stateMachine.length info ∧
        ∃ dest ∈ info.destInfo, dest.2.pos = invalidPos := by
  intro entry listed
  obtain ⟨under, ⟨info, found, at'⟩, noop, standing, _⟩ := phase.noops entry.1 entry.2 listed
  have inside := (List.getElem?_eq_some_iff.mp standing).1
  refine ⟨under, inside, info, found, phase.destsPosted info (List.mem_of_getElem? found), ?_⟩
  have through : info.publicListNoopPos ≠ invalidPos := by omega
  cases phase.lists entry.1 info found with
  | absent _ none _ => exact absurd none through
  | present _ _ _ noops _ =>
      obtain ⟨_, _, dest, known, looked, free⟩ := noops through
      exact ⟨(dest, known), mem_of_lookup looked, free⟩

/-! ## Sizes -/

/-- There are no more destinations than different transitions. -/
theorem Linked.destsBefore_le {pairs : List (Nat × Nat)} (linked : Linked pairs tags) :
    destsBefore tags tags.length ≤ pairs.dedup.length := by
  have upTo : ∀ index ≤ tags.length,
      destsBefore tags index ≤ (pairs.dedup.filter fun pair => decide (pair.1 < index)).length := by
    intro index
    induction index with
    | zero => exact fun _ => Nat.zero_le _
    | succ index ih =>
        intro bound
        obtain ⟨info, found⟩ : ∃ info, tags[index]? = some info :=
          ⟨_, List.getElem?_eq_getElem bound⟩
        have ordered := linked.ordered info (List.mem_of_getElem? found)
        have before := ih (Nat.le_of_succ_le bound)
        have here : info.destInfo.length ≤
            (pairs.dedup.filter fun pair => decide (pair.1 = index)).length := by
          have distinct : ((info.destInfo.map Prod.fst).map (Prod.mk index)).Nodup :=
            List.Nodup.map (fun _ _ same => (Prod.mk.inj same).2)
              (List.Pairwise.imp Nat.ne_of_lt ordered)
          have subset : (info.destInfo.map Prod.fst).map (Prod.mk index) ⊆
              pairs.dedup.filter fun pair => decide (pair.1 = index) := by
            intro pair member
            obtain ⟨dest, key, rfl⟩ := List.mem_map.mp member
            obtain ⟨entry, listed, rfl⟩ := List.mem_map.mp key
            have looked := ordered.lookup_of_mem listed
            have paired := (linked.entries index info entry.1 entry.2 found looked).2
            exact List.mem_filter.mpr ⟨List.mem_dedup.mpr paired, decide_eq_true rfl⟩
          have short := (List.subperm_of_subset distinct subset).length_le
          rwa [List.length_map, List.length_map] at short
        have split : (pairs.dedup.filter fun pair => decide (pair.1 < index)).length +
            (pairs.dedup.filter fun pair => decide (pair.1 = index)).length =
              (pairs.dedup.filter fun pair => decide (pair.1 < index + 1)).length := by
          induction pairs.dedup with
          | nil => rfl
          | cons pair rest ih' =>
              simp only [List.filter_cons]
              by_cases less : pair.1 < index
              · have differs : ¬ pair.1 = index := by omega
                have within : pair.1 < index + 1 := by omega
                simp only [less, differs, within, decide_true, decide_false, if_true,
                  Bool.false_eq_true, if_false, List.length_cons]
                omega
              · by_cases same : pair.1 = index
                · simp only [same, decide_true, if_true, List.length_cons, Nat.lt_irrefl,
                    decide_false, Bool.false_eq_true, if_false, Nat.lt_succ_self]
                  omega
                · have beyond : ¬ pair.1 < index + 1 := by omega
                  simp only [less, same, beyond, decide_false, Bool.false_eq_true, if_false]
                  exact ih'
        rw [destsBefore_succ found]
        omega
  exact (upTo tags.length (Nat.le_refl _)).trans (List.length_filter_le _ _)

theorem mem_transitionsFrom {first : Nat} {rest : List Nat} {tag dest : Nat}
    (member : (tag, dest) ∈ transitionsFrom first rest) : tag ∈ first :: rest ∧ dest ∈ rest :=
  List.of_mem_zip member

/-- The encoder's input for a machine: tags without statistics, a sequence over
them, and numbers of tags and transitions that a 32-bit index has room for. -/
structure Room (tags : List EncodedTagInfo) (encodedTags : List Nat) : Prop where
  fresh : ∀ info ∈ tags, info.Fresh
  inside : ∀ tag ∈ encodedTags, tag < tags.length
  fits : 4 * (tags.length + distinctTransitions encodedTags) ≤ u32Max

/-- `create_state_machine` builds a machine with a way for every transition and
a state for the initial tag. -/
theorem createStateMachine_builds {encodedTags rest : List Nat} {last : Nat}
    (room : Room tags encodedTags) (reversed : encodedTags.reverse = last :: rest) :
    ∃ stateMachine tags', createStateMachine tags encodedTags = .ok (stateMachine, tags') ∧
      Built (transitionsFrom last rest) stateMachine tags' ∧ tags'.length = tags.length ∧
      2 * stateMachine.length ≤ u32Max ∧ ∃ pos, StandsFor stateMachine pos last := by
  have distinct : distinctTransitions encodedTags = (transitionsFrom last rest).dedup.length := by
    unfold distinctTransitions
    rw [reversed]
    rfl
  have here : last < tags.length :=
    room.inside last (List.mem_reverse.mp (by rw [reversed]; exact List.mem_cons_self))
  have inside : ∀ tag dest, (tag, dest) ∈ transitionsFrom last rest → dest < tags.length := by
    intro tag dest member
    refine room.inside dest (List.mem_reverse.mp ?_)
    rw [reversed]
    exact List.mem_cons_of_mem _ (mem_transitionsFrom member).2
  have filled : encodedTags.isEmpty = false := by
    rw [List.isEmpty_eq_false_iff]
    rintro rfl
    cases reversed
  have fits := room.fits
  rw [distinct] at fits
  -- the statistics
  obtain ⟨tags₁, extra, counted₁, counted, balanced, length₁, _, _, _, initial⟩ :=
    collectTransitionStatistics_counts room.fresh reversed room.inside
  have total := counted.linked.destsBefore_le
  -- the marks
  have vacancies : Vacancies (transitionsFrom last rest) extra tags₁ := by
    refine ⟨counted.linked, ?_, balanced, fun info member => ?_⟩
    · rw [length₁]
      exact inside
    · obtain ⟨tag, found⟩ := List.getElem?_of_mem member
      have unplaced := counted.unplaced info member
      exact ⟨unplaced.base, unplaced.noop, unplaced.position, fun dest known looked =>
        .inl (counted.entries tag info dest known found looked).1⟩
  obtain ⟨tags₂, marked, vacancies', counts₂⟩ :=
    @markFrequentTransitions_marks _ _ (List.range tags₁.length) _ vacancies List.nodup_range
      (fun id member => by
        have small := List.mem_range.mp member
        refine ⟨_, List.getElem?_eq_getElem small, fun dest known looked => ?_⟩
        exact (counted.entries id _ dest known (List.getElem?_eq_getElem small) looked).1)
  have length₂ := SameCounts.length counts₂
  have dests₂ := SameCounts.destsBefore counts₂ tags₂.length
  -- the private lists
  have start : PrivatePhase (transitionsFrom last rest) extra 0 []
      { tags := tags₂, publicListNoops := [] } := by
    constructor
    case linked => exact vacancies'.linked
    case inside => exact vacancies'.inside
    case balanced => exact vacancies'.balanced
    case vacant => exact fun tag info _ found => vacancies'.vacant info (List.mem_of_getElem? found)
    case lists => exact fun tag info none _ => absurd none (Nat.not_lt_zero _)
    case chained =>
        intro pos cell found
        cases found
    case noops => exact fun tag pos member => absurd member List.not_mem_nil
    case listed =>
        intro tag info found valid
        exact absurd (vacancies'.vacant info (List.mem_of_getElem? found)).noop valid
    case distinct => exact List.nodup_nil
    case states =>
        intro pos cell found
        cases found
    case size => exact Nat.zero_le _
  obtain ⟨machine₃, targets₃, built₃, private', counts₃⟩ :=
    @buildPrivateLists_private _ _ tags₂.length 0 [] _ start (Nat.zero_add _) (by
      simp only
      rw [dests₂, length₂]
      unfold invalidPos
      omega)
  have length₃ := SameCounts.length counts₃
  have dests₃ := SameCounts.destsBefore counts₃ tags₂.length
  simp only at length₃ dests₃
  rw [Nat.zero_add, ← length₃] at private'
  -- the public list
  obtain ⟨machine₄, targets₄, built₄, public', counts₄⟩ := buildPublicList_public private' (by
    rw [length₃, dests₃, dests₂, length₂]
    unfold invalidPos
    omega)
  have length₄ := SameCounts.length counts₄
  have dests₄ := SameCounts.destsBefore counts₄ targets₄.tags.length
  have size := public'.size
  rw [dests₄, length₄, length₃, dests₃, dests₂, length₂] at size
  have small : machine₄.length < invalidPos := by
    unfold invalidPos
    omega
  -- the bases
  obtain ⟨source, blocks⟩ := public'.blocks
  obtain ⟨machine₅, built₅, rebased, noopBases⟩ :=
    computeNoopBases_reach blocks small public'.distinct (public'.serves small)
  have under : ∀ pos ∈ targets₄.publicListNoops.map Prod.snd, pos < machine₃.length := by
    intro pos member
    obtain ⟨⟨tag, pos⟩, listed, rfl⟩ := List.mem_map.mp member
    exact (public'.noops tag pos listed).1
  obtain ⟨tags₅, built₆, same, tagBases⟩ :=
    @computeTagBases_reach _ _ _ (rebased.blocks under blocks) (by rw [rebased.length]; exact small)
      (List.range targets₄.tags.length) targets₄.tags List.nodup_range
      (fun id member => List.mem_range.mp member) (by
        rw [rebased.length]
        exact public'.destsPosted)
  have built := public'.built small (by
      rw [length₄, length₃, length₂, length₁]
      exact inside) rebased noopBases same (by
    intro tag info info' found found'
    refine (tagBases tag info info' found found').imp_left fun kept => ⟨kept.1, fun unset => ?_⟩
    exact kept.2 unset (List.mem_range.mpr (List.getElem?_eq_some_iff.mp found).1))
  have length₅ := same.length
  refine ⟨machine₅, tags₅, ?_, built, by omega, ?_, ?_⟩
  · unfold createStateMachine
    simp only [filled, Bool.false_eq_true, if_false]
    rw [counted₁, Except.ok_bind, marked, Except.ok_bind, List.range_eq_range', built₃,
      Except.ok_bind]
    simp only
    rw [built₄, Except.ok_bind]
    simp only
    rw [built₅, Except.ok_bind, built₆, Except.ok_bind]
  · rw [rebased.length]
    omega
  · rcases initial with more | ⟨tag, loose⟩
    · obtain ⟨_, _, _, stands⟩ := public'.extra last (by omega) more
      exact ⟨_, rebased.stands stands⟩
    · have listed : (tag, last) ∈ transitionsFrom last rest := by
        unfold looseAt at loose
        split at loose
        · cases loose
        · rename_i info found
          unfold EncodedTagInfo.loose at loose
          split at loose
          · cases loose
          · rename_i known looked
            exact (counted.entries tag info last known found looked).2.2
      obtain ⟨_, _, _, _, _, steps⟩ := built.steps tag last listed
      cases steps with
      | privately _ stands _ _ => exact ⟨_, stands⟩
      | publicly _ _ stands _ _ => exact ⟨_, stands⟩
      | throughNoop _ _ _ _ _ _ stands _ _ => exact ⟨_, stands⟩

/-! ## The last state -/

/-- What `ensure_last_state_explicit` makes of the last tag. -/
def EncodedTagInfo.explicit (info : EncodedTagInfo) : EncodedTagInfo :=
  match info.destInfo with
  | [(firstKey, dest)] =>
      { info with destInfo := upsertDest (firstKey + 1) id [(firstKey, dest)] }
  | _ => info

/-- What it leaves of a tag. -/
structure Kept (before after : EncodedTagInfo) : Prop where
  base : after.base = before.base
  noop : after.publicListNoopPos = before.publicListNoopPos
  position : after.stateMachinePos = before.stateMachinePos
  dests : ∀ dest known, before.destInfo.lookup dest = some known →
    after.destInfo.lookup dest = some known
  single : after.destInfo.length = 1 → before.destInfo.length = 1

theorem Kept.refl (info : EncodedTagInfo) : Kept info info :=
  ⟨rfl, rfl, rfl, fun _ _ looked => looked, fun one => one⟩

theorem EncodedTagInfo.explicit_kept (info : EncodedTagInfo) :
    Kept info info.explicit ∧ info.explicit.destInfo.length ≠ 1 := by
  unfold EncodedTagInfo.explicit
  split
  · rename_i firstKey dest single
    have written : upsertDest (firstKey + 1) id [(firstKey, dest)] =
        [(firstKey, dest), (firstKey + 1, id DestInfo.new)] := by
      rw [upsertDest, if_neg (Nat.succ_ne_self firstKey).symm,
        if_neg (Nat.not_lt_of_le (Nat.le_succ firstKey)), upsertDest]
    refine ⟨⟨rfl, rfl, rfl, fun other known looked => ?_, fun _ => by rw [single]; rfl⟩, ?_⟩
    · rw [single] at looked
      simp only
      rw [written]
      obtain ⟨same, equal⟩ : other = firstKey ∧ known = dest := by
        by_cases same : other = firstKey
        · rw [same, List.lookup_cons_self] at looked
          exact ⟨same, (Option.some.inj looked).symm⟩
        · rw [lookup_cons_ne same] at looked
          cases looked
      rw [same, equal, List.lookup_cons_self]
    · simp only
      rw [written]
      exact Nat.succ_ne_self 1
  · rename_i several
    refine ⟨.refl info, fun one => ?_⟩
    obtain ⟨⟨key, dest⟩, whole⟩ := List.length_eq_one_iff.mp one
    exact several key dest whole

theorem ensureLastStateExplicit_eq {encodedTags : List Nat} {final : Nat}
    (head : encodedTags.head? = some final) (inside : final < tags.length) :
    ensureLastStateExplicit tags encodedTags =
      .ok (tags.modify final EncodedTagInfo.explicit) := by
  unfold ensureLastStateExplicit
  cases encodedTags with
  | nil => cases head
  | cons first rest =>
      obtain rfl := Option.some.inj head
      exact modifyAt_eq inside _

/-! ## Routes -/

/-- Steps of a machine are ways of its tags once the last state is explicit. -/
theorem Steps.way {info info' target target' : EncodedTagInfo} {dest : Nat} {known : DestInfo}
    (steps : Steps stateMachine info target dest) (fits : stateMachine.length < invalidPos)
    (kept : Kept info info') (looked : info.destInfo.lookup dest = some known)
    (position : target'.stateMachinePos = target.stateMachinePos) :
    Way stateMachine info' target' dest := by
  have private' : info'.privatePos dest = info.privatePos dest := by
    rw [privatePos_eq (kept.dests dest known looked), privatePos_eq looked]
  cases steps with
  | privately there stands reaches single =>
      by_cases one : info'.destInfo.length = 1
      · refine .single one ?_
        rw [kept.base, ← single (kept.single one)]
        exact stands
      · rw [← private'] at there stands reaches
        rw [← kept.base] at reaches
        exact .privately one there stands reaches
  | publicly absent noNoop stands reaches single =>
      by_cases one : info'.destInfo.length = 1
      · refine .single one ?_
        rw [kept.base, single (kept.single one)]
        exact stands
      · rw [← position] at stands reaches
        rw [← kept.base] at reaches
        exact .publicly one (private'.trans absent) (kept.noop.trans noNoop) stands reaches
  | throughNoop several absent through found isNoop reachesNoop stands reaches inside =>
      have several' : info'.destInfo.length ≠ 1 := fun one => several (kept.single one)
      rw [← position] at stands reaches
      rw [← kept.noop] at through found reachesNoop
      rw [← kept.base] at reachesNoop
      exact .throughNoop several' (private'.trans absent) through found isNoop reachesNoop stands
        reaches (by omega)

theorem isChain_of_transitions {related : Nat → Nat → Prop} {first : Nat} {rest : List Nat}
    (each : ∀ tag dest, (tag, dest) ∈ transitionsFrom first rest → related tag dest) :
    List.IsChain related (first :: rest) := by
  induction rest generalizing first with
  | nil => exact List.isChain_singleton first
  | cons next rest ih =>
      rw [transitionsFrom_cons] at each
      obtain ⟨here, later⟩ := List.forall_mem_cons.mp
        (fun pair member => each pair.1 pair.2 member :
          ∀ pair ∈ (first, next) :: transitionsFrom next rest, related pair.1 pair.2)
      exact List.isChain_cons_cons.mpr
        ⟨here, ih fun tag dest member => later (tag, dest) member⟩

/-- The tags of the machine with an explicit last state. -/
theorem modify_kept {final tag : Nat} {info : EncodedTagInfo} (found : tags[tag]? = some info) :
    ∃ info', (tags.modify final EncodedTagInfo.explicit)[tag]? = some info' ∧ Kept info info' ∧
      (tag = final → info'.destInfo.length ≠ 1) := by
  by_cases here : final = tag
  · subst here
    obtain ⟨kept, several⟩ := info.explicit_kept
    refine ⟨info.explicit, ?_, kept, fun _ => several⟩
    rw [List.getElem?_modify_eq, found]
    rfl
  · refine ⟨info, ?_, .refl info, fun same => absurd same.symm here⟩
    rw [List.getElem?_modify_ne _ _ here, found]

/-- Every transition of the sequence has a route. -/
theorem Built.routes {last final : Nat} {rest : List Nat}
    (built : Built (transitionsFrom last rest) stateMachine tags)
    (fits : stateMachine.length < invalidPos) :
    List.IsChain (Route stateMachine (tags.modify final EncodedTagInfo.explicit))
      (last :: rest) := by
  refine isChain_of_transitions fun tag dest listed => ?_
  obtain ⟨info, target, found, there, inside, steps⟩ := built.steps tag dest listed
  obtain ⟨info₀, known, found₀, looked⟩ := built.linked.present tag dest listed
  obtain rfl := Option.some.inj (found.symm.trans found₀)
  obtain ⟨info', found', kept, _⟩ := @modify_kept tags final tag info found
  obtain ⟨target', there', kept', _⟩ := @modify_kept tags final dest target there
  refine ⟨info', target', found', there', ?_, steps.way fits kept looked kept'.position⟩
  rw [kept.base]
  omega

/-! ## Nodes -/

/-- The entry of a state has the base of its tag. -/
theorem stateEntry_ok {bufferPos : NodeId → Option Nat} {numStates : Nat} {state : StateInfo}
    (known : state.etagIndex < tags.length ∨ state.IsNoop) :
    ∃ entry, stateEntry tags bufferPos numStates state = .ok entry ∧
      (state.IsNoop → entry.base = state.base) ∧
      ∀ info, ¬ state.IsNoop → tags[state.etagIndex]? = some info →
        entry.base = if info.base ≠ invalidPos then
          info.base + (if info.destInfo.length = 1 then numStates else 0) else 0 := by
  unfold stateEntry
  by_cases isNoop : state.etagIndex = invalidPos
  · rw [if_pos isNoop]
    exact ⟨_, rfl, fun _ => rfl, fun _ isTag => absurd isNoop isTag⟩
  · rw [if_neg isNoop]
    obtain ⟨info, found⟩ : ∃ info, tags[state.etagIndex]? = some info :=
      ⟨_, List.getElem?_eq_getElem (known.resolve_right isNoop)⟩
    rw [indexAt_eq_ok.mpr found, Except.ok_bind]
    have same : ∀ info', tags[state.etagIndex]? = some info' → info' = info :=
      fun info' found' => Option.some.inj (found'.symm.trans found)
    simp only
    split
    · split
      · exact ⟨_, rfl, fun isNoop' => absurd isNoop' isNoop,
          fun info' _ found' => by rw [same info' found']⟩
      · split
        · exact ⟨_, rfl, fun isNoop' => absurd isNoop' isNoop,
            fun info' _ found' => by rw [same info' found']⟩
        · exact ⟨_, rfl, fun isNoop' => absurd isNoop' isNoop,
            fun info' _ found' => by rw [same info' found']⟩
    · exact ⟨_, rfl, fun isNoop' => absurd isNoop' isNoop,
        fun info' _ found' => by rw [same info' found']⟩

/-- What the entry of a state says about its base. -/
structure EntryOf (tags : List EncodedTagInfo) (numStates : Nat) (state : StateInfo)
    (entry : StateEntry) : Prop where
  noop : state.IsNoop → entry.base = state.base
  tag : ∀ info, ¬ state.IsNoop → tags[state.etagIndex]? = some info →
    entry.base = if info.base ≠ invalidPos then
      info.base + (if info.destInfo.length = 1 then numStates else 0) else 0

theorem stateEntries_ok {bufferPos : NodeId → Option Nat} {numStates : Nat}
    {states : List StateInfo}
    (known : ∀ state ∈ states, state.etagIndex < tags.length ∨ state.IsNoop) :
    ∃ entries, stateEntries tags bufferPos numStates states = .ok entries ∧
      List.Forall₂ (EntryOf tags numStates) states entries := by
  induction states with
  | nil => exact ⟨[], rfl, .nil⟩
  | cons state rest ih =>
      obtain ⟨here, later⟩ := List.forall_mem_cons.mp known
      obtain ⟨entry, ran, noop, tag⟩ := @stateEntry_ok tags bufferPos numStates state here
      obtain ⟨entries, ran', entriesOf⟩ := ih later
      refine ⟨entry :: entries, ?_, .cons ⟨noop, tag⟩ entriesOf⟩
      rw [stateEntries, ran, Except.ok_bind, ran', Except.ok_bind]

/-- The bases of a machine fit their encoding. -/
structure Fits (stateMachine : List StateInfo) (tags : List EncodedTagInfo) : Prop where
  size : 2 * stateMachine.length ≤ u32Max
  known : ∀ cell ∈ stateMachine, cell.etagIndex < tags.length ∨
    cell.IsNoop ∧ cell.base < stateMachine.length
  based : ∀ info ∈ tags, info.base = invalidPos ∨ info.base < stateMachine.length
  tags : tags.length < invalidPos

/-- How the decoder splits the base of an entry. -/
theorem splitNextNode_entry (fits : Fits stateMachine tags) {state : StateInfo}
    {entry : StateEntry} (member : state ∈ stateMachine)
    (entryOf : EntryOf tags stateMachine.length state entry) :
    entry.base ≤ u32Max ∧ ∃ isImplicit next,
      splitNextNode entry.base stateMachine.length = .ok (isImplicit, next) ∧
      (state.IsNoop → isImplicit = false ∧ next = state.base) ∧
      ∀ info, ¬ state.IsNoop → tags[state.etagIndex]? = some info →
        isImplicit = decide (info.base ≠ invalidPos ∧ info.destInfo.length = 1) ∧
          (info.base ≠ invalidPos → next = info.base) := by
  have size := fits.size
  have positive : 0 < stateMachine.length := List.length_pos_of_mem member
  have low : ∀ base, base < stateMachine.length →
      splitNextNode base stateMachine.length = .ok (false, base) := by
    intro base small
    unfold splitNextNode
    rw [if_neg (by omega)]
  by_cases isNoop : state.IsNoop
  · have base := entryOf.noop isNoop
    have small : state.base < stateMachine.length := by
      rcases fits.known state member with isTag | ⟨_, small⟩
      · have few := fits.tags
        unfold StateInfo.IsNoop at isNoop
        omega
      · exact small
    rw [base]
    exact ⟨by omega, false, state.base, low _ small, fun _ => ⟨rfl, rfl⟩,
      fun _ isTag => absurd isNoop isTag⟩
  · have inside := (fits.known state member).resolve_right fun noop => isNoop noop.1
    obtain ⟨info, found⟩ : ∃ info, tags[state.etagIndex]? = some info :=
      ⟨_, List.getElem?_eq_getElem inside⟩
    have base := entryOf.tag info isNoop found
    have same : ∀ info', tags[state.etagIndex]? = some info' → info' = info :=
      fun info' found' => Option.some.inj (found'.symm.trans found)
    rw [base]
    rcases fits.based info (List.mem_of_getElem? found) with none | small
    · rw [if_neg (not_not.mpr none)]
      refine ⟨Nat.zero_le _, false, 0, low 0 positive, fun noop => absurd noop isNoop,
        fun info' _ found' => ?_⟩
      rw [same info' found', none]
      exact ⟨(decide_eq_false fun both => both.1 rfl).symm, fun valid => absurd rfl valid⟩
    · have valid : info.base ≠ invalidPos := by
        unfold invalidPos
        omega
      rw [if_pos valid]
      by_cases single : info.destInfo.length = 1
      · rw [if_pos single]
        refine ⟨by omega, true, info.base, ?_, fun noop => absurd noop isNoop,
          fun info' _ found' => ?_⟩
        · unfold splitNextNode
          rw [Nat.add_sub_cancel, if_pos (Nat.le_add_left _ _), if_neg (by omega)]
        · rw [same info' found']
          exact ⟨(decide_eq_true ⟨valid, single⟩).symm, fun _ => rfl⟩
      · rw [if_neg single, Nat.add_zero]
        refine ⟨by omega, false, info.base, low _ small, fun noop => absurd noop isNoop,
          fun info' _ found' => ?_⟩
        rw [same info' found']
        exact ⟨(decide_eq_false fun both => single both.2).symm, fun _ => rfl⟩

/-- The decoder's nodes represent the machine. -/
theorem represents_of_entries (fits : Fits stateMachine tags) {entries : List StateEntry}
    {nodes : List StateMachineNode}
    (entriesOf : List.Forall₂ (EntryOf tags stateMachine.length) stateMachine entries)
    (nodesOf : NodesOf entries nodes) : Represents tags stateMachine (nodes ++ failureNodes) := by
  intro pos state found
  have length := entriesOf.length_eq
  obtain ⟨entry, there, entryOf⟩ := forall₂_get entriesOf found
  obtain ⟨node, at', split⟩ := forall₂_get nodesOf there
  obtain ⟨_, isImplicit, next, split', noop, tag⟩ :=
    splitNextNode_entry fits (List.mem_of_getElem? found) entryOf
  rw [length] at split'
  obtain ⟨rfl, rfl⟩ := Prod.mk.inj (Except.ok.inj (split.symm.trans split'))
  refine ⟨node, ?_, noop, fun info isTag known => tag info isTag known⟩
  have inside := (List.getElem?_eq_some_iff.mp at').1
  rw [List.getElem?_append_left inside, at']

/-! ## The replay -/

theorem firstTagPos_stands {encodedTags : List Nat} {last pos : Nat}
    (final : encodedTags.getLast? = some last) (stands : StandsFor stateMachine pos last) :
    StandsFor stateMachine (firstTagPos encodedTags stateMachine) last := by
  have position : firstTagPos encodedTags stateMachine =
      (stateMachine.findIdx? fun state => state.etagIndex == last).getD 0 := by
    unfold firstTagPos
    rw [final]
  rw [position]
  obtain ⟨cell, found, tagged⟩ := stands
  cases first : stateMachine.findIdx? fun state => state.etagIndex == last with
  | none =>
      have absent := List.findIdx?_eq_none_iff.mp first cell (List.mem_of_getElem? found)
      rw [tagged, beq_self_eq_true] at absent
      cases absent
  | some index =>
      obtain ⟨inside, same, _⟩ := List.findIdx?_eq_some_iff_getElem.mp first
      exact ⟨_, List.getElem?_eq_getElem inside, beq_iff_eq.mp same⟩

/-- The machine built for a sequence of tags with what the encoder writes of it:
its tags, the entries of its states, and the bytes of its transitions with the
offsets that they stand for. -/
structure MachineFor (tags : List EncodedTagInfo) (encodedTags : List Nat)
    (bufferPos : NodeId → Option Nat) (stateMachine : List StateInfo)
    (built tags' : List EncodedTagInfo) (entries : List StateEntry) (transitions : Bytes) :
    Prop where
  created : createStateMachine tags encodedTags = .ok (stateMachine, built)
  explicit : ensureLastStateExplicit built encodedTags = .ok tags'
  written : stateEntries tags' bufferPos stateMachine.length stateMachine = .ok entries
  based : ∀ entry ∈ entries, entry.base ≤ u32Max
  packed : buildTransitions tags' encodedTags stateMachine = .ok transitions
  size : stateMachine.length ≤ u32Max
  start : firstTagPos encodedTags stateMachine < stateMachine.length
  nodes : ∃ nodes, NodesOf entries nodes
  drives : ∀ nodes, NodesOf entries nodes →
    ∃ path, Drives (nodes ++ failureNodes) stateMachine encodedTags transitions path ∧
      path.getLast?.bind (tagAt stateMachine) = encodedTags.head?

/-- A machine is built for every sequence of tags, and its bytes stand for
offsets of at most 63. -/
theorem machine_replays {encodedTags : List Nat} (room : Room tags encodedTags)
    (nonempty : encodedTags ≠ []) (bufferPos : NodeId → Option Nat) :
    ∃ stateMachine built tags' entries offsets transitions,
      MachineFor tags encodedTags bufferPos stateMachine built tags' entries transitions ∧
      emittedOffsets tags' encodedTags stateMachine = .ok offsets ∧
      (∀ offset ∈ offsets, offset ≤ maxTransition) ∧ expandBytes transitions = offsets := by
  obtain ⟨last, rest, reversed⟩ := List.exists_cons_of_ne_nil (List.reverse_ne_nil_iff.mpr nonempty)
  obtain ⟨final, others, whole⟩ := List.exists_cons_of_ne_nil nonempty
  have head : encodedTags.head? = some final := by rw [whole]; rfl
  have getLast : encodedTags.getLast? = some last := by
    rw [← List.head?_reverse, reversed]
    rfl
  obtain ⟨stateMachine, built, ran, isBuilt, length, size, pos, stands⟩ :=
    createStateMachine_builds room reversed
  have few := room.fits
  have finalInside : final < built.length := by
    rw [length]
    exact room.inside final (by rw [whole]; exact List.mem_cons_self)
  have fitsPos : stateMachine.length < invalidPos := by
    unfold invalidPos
    have positive : 0 < stateMachine.length := by
      obtain ⟨_, found, _⟩ := stands
      exact Nat.lt_of_le_of_lt (Nat.zero_le _) (List.getElem?_eq_some_iff.mp found).1
    omega
  have fewTags : built.length < invalidPos := by
    unfold invalidPos
    omega
  have length' : (built.modify final EncodedTagInfo.explicit).length = built.length :=
    List.length_modify _ _ _
  have fits : Fits stateMachine (built.modify final EncodedTagInfo.explicit) := by
    refine ⟨size, ?_, fun info member => ?_, by rw [length']; exact fewTags⟩
    · rw [length']
      exact isBuilt.states
    · obtain ⟨tag, found⟩ := List.getElem?_of_mem member
      have inside := (List.getElem?_eq_some_iff.mp found).1
      rw [length'] at inside
      obtain ⟨info', found', kept, _⟩ :=
        @modify_kept built final tag _ (List.getElem?_eq_getElem inside)
      obtain rfl := Option.some.inj (found.symm.trans found')
      rw [kept.base]
      exact isBuilt.based _ (List.getElem_mem inside)
  obtain ⟨entries, written, entriesOf⟩ := @stateEntries_ok
    (built.modify final EncodedTagInfo.explicit) bufferPos stateMachine.length stateMachine
    fun state member => (fits.known state member).imp_right And.left
  have routes := @Built.routes built stateMachine last final rest isBuilt fitsPos
  obtain ⟨info, found⟩ : ∃ info, (built.modify final EncodedTagInfo.explicit)[last]? = some info := by
    refine ⟨_, List.getElem?_eq_getElem ?_⟩
    rw [length', length]
    exact room.inside last (List.mem_reverse.mp (by rw [reversed]; exact List.mem_cons_self))
  obtain ⟨offsets, transitions, emitted, traced, tour, packed⟩ :=
    buildTransitions_tours isBuilt.chained fitsPos.le reversed routes found
  have splits : ∀ entry ∈ entries, entry.base ≤ u32Max ∧ ∃ node : StateMachineNode,
      splitNextNode entry.base entries.length = .ok (node.isImplicit, node.nextNodeIndex) := by
    intro entry member
    obtain ⟨index, there⟩ := List.getElem?_of_mem member
    obtain ⟨state, found', entryOf⟩ := forall₂_get entriesOf.flip there
    obtain ⟨bound, isImplicit, next, split, _⟩ :=
      splitNextNode_entry fits (List.mem_of_getElem? found') entryOf
    rw [entriesOf.length_eq] at split
    exact ⟨bound, plainNode .noOp next isImplicit, split⟩
  have start := firstTagPos_stands getLast stands
  have startInside : firstTagPos encodedTags stateMachine < stateMachine.length := by
    obtain ⟨_, there, _⟩ := start
    exact (List.getElem?_eq_some_iff.mp there).1
  refine ⟨stateMachine, built, _, entries, offsets, transitions,
    ⟨ran, ensureLastStateExplicit_eq head finalInside, written, fun entry member =>
      (splits entry member).1, emitted, by omega, startInside,
      forall₂_exists fun entry member => (splits entry member).2, fun nodes nodesOf => ?_⟩,
    traced, tour.offsets_le, packed⟩
  have represents := represents_of_entries fits entriesOf nodesOf
  have count : nodes.length = stateMachine.length :=
    (List.Forall₂.length_eq nodesOf).symm.trans entriesOf.length_eq.symm
  have inside : ∀ tag ∈ encodedTags, tag < (built.modify final EncodedTagInfo.explicit).length := by
    rw [length', length]
    exact room.inside
  have descends := represents_descends represents (fun pos node beyond found => by
      rw [List.getElem?_append_right (by omega)] at found
      rw [List.eq_of_mem_replicate (List.mem_of_getElem? found)]
      rfl) (by omega) inside (by rw [reversed]; exact routes)
    (fun state member isTag => (fits.known state member).resolve_right fun noop => isTag noop.1)
    (fun tag info found single => by
      have within := (List.getElem?_eq_some_iff.mp found).1
      rw [length'] at within
      obtain ⟨info', found', kept, several⟩ :=
        @modify_kept built final tag _ (List.getElem?_eq_getElem within)
      obtain rfl := Option.some.inj (found.symm.trans found')
      obtain ⟨entry, alone⟩ := List.length_eq_one_iff.mp (kept.single single)
      have ordered := isBuilt.linked.ordered _ (List.getElem_mem within)
      have looked := ordered.lookup_of_mem
        (show (entry.1, entry.2) ∈ built[tag].destInfo by rw [alone]; exact List.mem_cons_self)
      obtain ⟨_, listed⟩ :=
        isBuilt.linked.entries tag _ entry.1 entry.2 (List.getElem?_eq_getElem within) looked
      refine ⟨List.mem_reverse.mp ?_, fun same => ?_⟩
      · rw [reversed]
        exact (mem_transitionsFrom listed).1
      · rw [head] at same
        exact several (Option.some.inj same).symm single)
  have ending : (last :: rest).getLast (List.cons_ne_nil _ _) = final := by
    have ends := List.getLast?_reverse (l := encodedTags)
    rw [reversed, head, List.getLast?_eq_getLast_of_ne_nil (List.cons_ne_nil _ _)] at ends
    exact Option.some.inj ends
  obtain ⟨path, walk, kept, visited, ended⟩ := tour.walk represents (by omega) (by
      intro tag member
      refine inside tag (List.mem_reverse.mp ?_)
      rw [reversed]
      exact member) (by
      rw [ending]
      intro info found
      obtain ⟨info', found', _, several⟩ :=
        @modify_kept built final final _ (List.getElem?_eq_getElem finalInside)
      obtain rfl := Option.some.inj (found.symm.trans found')
      exact several rfl) start
  obtain ⟨first, there⟩ := walk.start
  refine ⟨path, ⟨containsImplicitLoop_false descends, ⟨first, there, ?_⟩, kept, ?_⟩, ?_⟩
  · refine visits_of_walk walk there (Nat.le_refl _) ?_ rfl ?_
    · unfold offsetsLeft
      rw [Nat.sub_self, List.replicate_zero, List.nil_append]
      exact packed
    · have short := walk.length_le descends
      have bytes := expandBytes_length_le transitions
      rw [packed] at bytes
      refine short.trans (Nat.mul_le_mul_right _ ?_)
      exact Nat.add_le_add_left bytes 1
  · rw [reversed]
    exact visited
  · rw [ended, ending, head]

theorem length_failureNodes : failureNodes.length = 255 := List.length_replicate

/-- Without tags the machine is one NoOp. -/
theorem machine_empty (tags : List EncodedTagInfo) (bufferPos : NodeId → Option Nat) :
    MachineFor tags [] bufferPos [StateInfo.new invalidPos 0] tags tags
      [{ tag := MessageId.noOp, base := 0, subtype := none, bufferIndex := none }] [] where
  created := rfl
  explicit := rfl
  written := rfl
  based := by
    intro entry member
    rw [List.mem_singleton.mp member]
    exact Nat.zero_le _
  packed := rfl
  size := by decide
  start := by decide
  nodes := ⟨[plainNode .noOp 0 false], .cons rfl .nil⟩
  drives := by
    intro nodes nodesOf
    obtain ⟨node, rest, split, none, rfl⟩ := List.forall₂_cons_left_iff.mp nodesOf
    obtain rfl := List.forall₂_nil_left_iff.mp none
    obtain ⟨explicit, next⟩ := Prod.mk.inj (Except.ok.inj split)
    have loopless : ∀ other ∈ [node] ++ failureNodes, other.isImplicit = false := by
      refine List.forall_mem_append.mpr ⟨?_, fun other member => ?_⟩
      · intro other member
        rw [List.mem_singleton.mp member, ← explicit]
      · rw [List.eq_of_mem_replicate member]
        rfl
    have descends : Descends ([node] ++ failureNodes) fun _ => 0 := by
      intro index other found isImplicit
      rw [loopless other (List.mem_of_getElem? found)] at isImplicit
      cases isImplicit
    refine ⟨[0], ⟨containsImplicitLoop_false descends, ⟨node, rfl, ?_⟩, ?_, rfl⟩, rfl⟩
    · have first : ([node] ++ failureNodes)[0]? = some node := rfl
      have counts : implicitCount node = 0 := by
        unfold implicitCount
        rw [← explicit]
        rfl
      rw [counts]
      have fuel : runFuel ([node] ++ failureNodes) (BufferCursor.new []) = 255 + 1 := by
        unfold runFuel
        rw [List.length_append, length_failureNodes, List.length_singleton]
        change (1 + 4 * 0) * (1 + 255) = 255 + 1
        omega
      change visits _ (runFuel _ _) 0 0 _ = _
      rw [fuel, visits, advanceStateMachine, indexAt_eq_ok.mpr first, Except.ok_bind]
      rfl
    · intro pos member
      rw [List.mem_singleton.mp member]
      exact Nat.one_pos

/-- A machine is built for every sequence of tags. -/
theorem machine_for {encodedTags : List Nat} (room : Room tags encodedTags)
    (bufferPos : NodeId → Option Nat) :
    ∃ stateMachine built tags' entries transitions,
      MachineFor tags encodedTags bufferPos stateMachine built tags' entries transitions := by
  by_cases empty : encodedTags = []
  · subst empty
    exact ⟨_, _, _, _, _, machine_empty tags bufferPos⟩
  · obtain ⟨_, _, _, _, _, _, machine, _⟩ := machine_replays room empty bufferPos
    exact ⟨_, _, _, _, _, machine⟩

/-- The machine that the encoder builds for a sequence of tags and the bytes of
its transitions lead the decoder through exactly these tags, last one first. -/
theorem createStateMachine_replays {encodedTags : List Nat} (room : Room tags encodedTags)
    (nonempty : encodedTags ≠ []) (bufferPos : NodeId → Option Nat) :
    Replays tags encodedTags bufferPos := by
  obtain ⟨stateMachine, built, tags', entries, offsets, transitions, machine, traced, small,
    packed⟩ := machine_replays room nonempty bufferPos
  refine ⟨stateMachine, built, tags', entries, offsets, transitions, machine.created,
    machine.explicit, machine.written, machine.based, machine.packed, traced, small, packed,
    machine.nodes, fun nodes nodesOf => ?_⟩
  obtain ⟨path, drives, ended⟩ := machine.drives nodes nodesOf
  obtain ⟨first, there, visited⟩ := drives.visited
  exact ⟨drives.looping, first, path, there, visited, drives.tagged, ended⟩

/-- Three fields that come in turn, the first of them ten times in a row. -/
theorem createStateMachine_replays_fields :
    Replays
      [EncodedTagInfo.new { parentMessageId := 1, tag := 8 } 0,
        EncodedTagInfo.new { parentMessageId := 1, tag := 16 } 0,
        EncodedTagInfo.new { parentMessageId := 1, tag := 24 } 0]
      ([2, 1] ++ List.replicate 10 0 ++ [1, 2, 0]) (fun _ => none) := by
  refine createStateMachine_replays ⟨?_, ?_, ?_⟩ (by decide) _
  · intro info member
    rcases List.mem_cons.mp member with rfl | member
    · exact ⟨rfl, rfl, rfl, rfl, rfl⟩
    · rcases List.mem_cons.mp member with rfl | member
      · exact ⟨rfl, rfl, rfl, rfl, rfl⟩
      · obtain rfl := List.mem_singleton.mp member
        exact ⟨rfl, rfl, rfl, rfl, rfl⟩
  · decide
  · decide

end Riegeli
