/-
Module: Riegeli.Library.Bisection
Purpose: Search by halves for an index that a three-way probe accepts, in a
  range and in a sequence of groups probed by their first index.
Trusted boundary: none
Main exports: Ascending, bisect, bisectLast, bisect_found, bisect_left,
  bisectGroups, lastProbe, bisectGroups_some, bisectGroups_none
-/
import Mathlib.Algebra.BigOperators.Group.List.Basic
import Mathlib.Algebra.GroupWithZero.Nat
import Mathlib.Data.List.GetD
import Mathlib.Tactic.Common

namespace Riegeli

/-! ## A range -/

/-- Below `last` the probe is first less, then equal, then greater. -/
structure Ascending (probe : Nat → Ordering) (first last : Nat) : Prop where
  less : ∀ {low high : Nat}, first ≤ low → low ≤ high → high < last → probe high = .lt →
    probe low = .lt
  greater : ∀ {low high : Nat}, first ≤ low → low ≤ high → high < last → probe low = .gt →
    probe high = .gt

/-- How a search by halves ends: at an index that the probe accepts, or at the
bound between less and greater. -/
inductive Bisected where
  | found (index : Nat)
  | left (bound : Nat)
deriving Repr, DecidableEq

/-- Search the range from `lo` to `hi` by halves. -/
def bisect (probe : Nat → Ordering) : Nat → Nat → Nat → Bisected
  | 0, lo, _ => .left lo
  | fuel + 1, lo, hi =>
      if lo < hi then
        match probe (lo + (hi - lo) / 2) with
        | .lt => bisect probe fuel (lo + (hi - lo) / 2 + 1) hi
        | .gt => bisect probe fuel lo (lo + (hi - lo) / 2)
        | .eq => .found (lo + (hi - lo) / 2)
      else .left lo

/-- The index that a search by halves probes last. -/
def bisectLast (probe : Nat → Ordering) : Nat → Nat → Nat → Option Nat
  | 0, _, _ => none
  | fuel + 1, lo, hi =>
      if lo < hi then
        match probe (lo + (hi - lo) / 2) with
        | .lt => (bisectLast probe fuel (lo + (hi - lo) / 2 + 1) hi).or (some (lo + (hi - lo) / 2))
        | .gt => (bisectLast probe fuel lo (lo + (hi - lo) / 2)).or (some (lo + (hi - lo) / 2))
        | .eq => some (lo + (hi - lo) / 2)
      else none

variable {probe : Nat → Ordering}

/-- A range that is not empty is probed. -/
theorem bisectLast_isSome {fuel lo hi : Nat} (more : lo < hi) :
    (bisectLast probe (fuel + 1) lo hi).isSome = true := by
  rw [bisectLast, if_pos more]
  cases probe (lo + (hi - lo) / 2) with
  | lt => simp
  | gt => simp
  | eq => rfl

/-- What is found is in the range, and the probe accepts it. -/
theorem bisect_found {index : Nat} (fuel : Nat) :
    ∀ {lo hi : Nat}, bisect probe fuel lo hi = .found index →
      lo ≤ index ∧ index < hi ∧ probe index = .eq := by
  induction fuel with
  | zero =>
      intro lo hi found
      cases found
  | succ fuel ih =>
      intro lo hi found
      rw [bisect] at found
      by_cases more : lo < hi
      · rw [if_pos more] at found
        cases probed : probe (lo + (hi - lo) / 2) with
        | lt =>
            rw [probed] at found
            obtain ⟨after, before, accepted⟩ := ih found
            exact ⟨by omega, before, accepted⟩
        | gt =>
            rw [probed] at found
            obtain ⟨after, before, accepted⟩ := ih found
            exact ⟨after, by omega, accepted⟩
        | eq =>
            rw [probed] at found
            obtain rfl := Bisected.found.inj found
            exact ⟨by omega, by omega, probed⟩
      · rw [if_neg more] at found
        cases found

/-- The bound is in the range. -/
theorem bisect_left_le {bound : Nat} (fuel : Nat) :
    ∀ {lo hi : Nat}, lo ≤ hi → bisect probe fuel lo hi = .left bound → bound ≤ hi := by
  induction fuel with
  | zero =>
      intro lo hi ordered left
      obtain rfl := Bisected.left.inj left
      exact ordered
  | succ fuel ih =>
      intro lo hi ordered left
      rw [bisect] at left
      by_cases more : lo < hi
      · rw [if_pos more] at left
        cases probed : probe (lo + (hi - lo) / 2) with
        | lt =>
            rw [probed] at left
            exact ih (by omega) left
        | gt =>
            rw [probed] at left
            have short := ih (by omega) left
            omega
        | eq =>
            rw [probed] at left
            cases left
      · rw [if_neg more] at left
        obtain rfl := Bisected.left.inj left
        exact ordered

/-- The indices before `bound` are less, and those from there on greater. -/
structure Parts (probe : Nat → Ordering) (first last low high : Nat) : Prop where
  less : ∀ index, first ≤ index → index < low → probe index = .lt
  greater : ∀ index, high ≤ index → index < last → probe index = .gt

/-- On an ascending probe a search that finds nothing ends at the bound.  Every
pass keeps what is outside its range less or greater. -/
theorem bisect_left {first last bound : Nat} (ascending : Ascending probe first last)
    (fuel : Nat) :
    ∀ {lo hi : Nat}, first ≤ lo → hi ≤ last → lo ≤ hi → hi - lo < fuel →
      Parts probe first last lo hi → bisect probe fuel lo hi = .left bound →
      lo ≤ bound ∧ bound ≤ hi ∧ Parts probe first last bound bound := by
  induction fuel with
  | zero =>
      intro lo hi _ _ _ few
      omega
  | succ fuel ih =>
      intro lo hi after before ordered few parts left
      rw [bisect] at left
      by_cases more : lo < hi
      · rw [if_pos more] at left
        generalize half : lo + (hi - lo) / 2 = mid at left
        cases probed : probe mid with
        | lt =>
            rw [probed] at left
            have smaller : Parts probe first last (mid + 1) hi :=
              ⟨fun index from_ below => ascending.less from_ (by omega) (by omega) probed,
                parts.greater⟩
            obtain ⟨low, high, cut⟩ := ih (by omega) before (by omega) (by omega) smaller left
            exact ⟨by omega, high, cut⟩
        | gt =>
            rw [probed] at left
            have smaller : Parts probe first last lo mid :=
              ⟨parts.less, fun index above below =>
                ascending.greater (by omega) above below probed⟩
            obtain ⟨low, high, cut⟩ := ih after (by omega) (by omega) (by omega) smaller left
            exact ⟨low, by omega, cut⟩
        | eq =>
            rw [probed] at left
            cases left
      · rw [if_neg more] at left
        obtain rfl := Bisected.left.inj left
        have same : hi = lo := by omega
        rw [same] at parts
        exact ⟨Nat.le_refl _, ordered, parts⟩

/-! ## Groups -/

/-- Where a group of indices begins. -/
def groupStart (sizes : List Nat) (group : Nat) : Nat := (sizes.take group).sum

/-- Search a group behind its first index. -/
def bisectGroup (probe : Nat → Ordering) (start size : Nat) : Option Nat :=
  match bisect (fun offset => probe (start + offset)) (size + 1) 1 size with
  | .found offset => some (start + offset)
  | .left _ => none

/-- Search the group before the bound, if there is one. -/
def bisectBefore (probe : Nat → Ordering) (sizes : List Nat) : Nat → Option Nat
  | 0 => none
  | group + 1 => bisectGroup probe (groupStart sizes group) (sizes.getD group 0)

/-- Search the groups by their first indices, then the last group that begins
with less. -/
def bisectGroups (probe : Nat → Ordering) (sizes : List Nat) : Option Nat :=
  match bisect (fun group => probe (groupStart sizes group)) (sizes.length + 1) 0 sizes.length with
  | .found group => some (groupStart sizes group)
  | .left bound => bisectBefore probe sizes bound

/-- The index that a search of a group probes last. -/
def lastInGroup (probe : Nat → Ordering) (start size : Nat) : Option Nat :=
  (bisectLast (fun offset => probe (start + offset)) (size + 1) 1 size).map (start + ·)

/-- The index that a search of the group before the bound probes last. -/
def lastBefore (probe : Nat → Ordering) (sizes : List Nat) : Nat → Option Nat
  | 0 => none
  | group + 1 => lastInGroup probe (groupStart sizes group) (sizes.getD group 0)

/-- The first index of the group that a search of the groups probes last. -/
def lastGroup (probe : Nat → Ordering) (sizes : List Nat) : Option Nat :=
  (bisectLast (fun group => probe (groupStart sizes group)) (sizes.length + 1) 0 sizes.length).map
    (groupStart sizes)

/-- The index that a search of the groups probes last. -/
def lastProbe (probe : Nat → Ordering) (sizes : List Nat) : Option Nat :=
  match bisect (fun group => probe (groupStart sizes group)) (sizes.length + 1) 0 sizes.length with
  | .found _ => lastGroup probe sizes
  | .left bound => (lastBefore probe sizes bound).or (lastGroup probe sizes)

variable {sizes : List Nat}

/-- Where there are groups a search probes. -/
theorem lastProbe_isSome (some : sizes ≠ []) : (lastProbe probe sizes).isSome = true := by
  have probed : (lastGroup probe sizes).isSome = true := by
    rw [lastGroup, Option.isSome_map]
    exact bisectLast_isSome (List.length_pos_of_ne_nil some)
  unfold lastProbe
  split
  · exact probed
  · rw [Option.isSome_or, probed, Bool.or_true]

theorem groupStart_zero : groupStart sizes 0 = 0 := by
  rw [groupStart, List.take_zero, List.sum_nil]

theorem groupStart_succ {group : Nat} (within : group < sizes.length) :
    groupStart sizes (group + 1) = groupStart sizes group + sizes.getD group 0 := by
  unfold groupStart
  rw [List.take_succ_eq_append_getElem within, List.sum_append, List.sum_singleton,
    List.getD_eq_getElem _ _ within]

theorem groupStart_length : groupStart sizes sizes.length = sizes.sum := by
  rw [groupStart, List.take_length]

theorem groupStart_mono {first second : Nat} (ordered : first ≤ second) :
    groupStart sizes first ≤ groupStart sizes second := by
  obtain ⟨more, rfl⟩ := Nat.exists_eq_add_of_le ordered
  unfold groupStart
  rw [List.take_add, List.sum_append]
  exact Nat.le_add_right _ _

theorem groupStart_le (group : Nat) : groupStart sizes group ≤ sizes.sum := by
  rcases Nat.le_total group sizes.length with within | past
  · rw [← groupStart_length]
    exact groupStart_mono within
  · exact Nat.le_of_eq (congrArg List.sum (List.take_of_length_le past))

/-- Every index is in a group. -/
theorem groupStart_covers (bound : Nat) :
    ∀ {index : Nat}, bound ≤ sizes.length → index < groupStart sizes bound →
      ∃ group, group < bound ∧ groupStart sizes group ≤ index ∧
        index < groupStart sizes (group + 1) := by
  induction bound with
  | zero =>
      intro index _ before
      rw [groupStart_zero] at before
      omega
  | succ bound ih =>
      intro index within before
      by_cases last : groupStart sizes bound ≤ index
      · exact ⟨bound, Nat.lt_succ_self _, last, before⟩
      · obtain ⟨group, less, from_, upTo⟩ := @ih index (by omega) (by omega)
        exact ⟨group, by omega, from_, upTo⟩

/-- The first indices of ascending groups are ascending. -/
theorem Ascending.groups (ascending : Ascending probe 0 sizes.sum)
    (positive : ∀ size ∈ sizes, 0 < size) :
    Ascending (fun group => probe (groupStart sizes group)) 0 sizes.length := by
  have within : ∀ {group : Nat}, group < sizes.length → groupStart sizes group < sizes.sum := by
    intro group less
    have size := positive (sizes.getD group 0) (by
      rw [List.getD_eq_getElem _ _ less]
      exact List.getElem_mem less)
    have next := groupStart_succ less
    have top := @groupStart_le sizes (group + 1)
    omega
  exact ⟨fun _ ordered less => ascending.less (Nat.zero_le _) (groupStart_mono ordered) (within less),
    fun _ ordered less => ascending.greater (Nat.zero_le _) (groupStart_mono ordered) (within less)⟩

/-- What is found among groups is accepted. -/
theorem bisectGroups_some {index : Nat} (positive : ∀ size ∈ sizes, 0 < size)
    (found : bisectGroups probe sizes = some index) : index < sizes.sum ∧ probe index = .eq := by
  have ends : ∀ {group : Nat}, group < sizes.length → 0 < sizes.getD group 0 ∧
      groupStart sizes group + sizes.getD group 0 ≤ sizes.sum := by
    intro group less
    refine ⟨positive _ ?_, ?_⟩
    · rw [List.getD_eq_getElem _ _ less]
      exact List.getElem_mem less
    · rw [← groupStart_succ less]
      exact groupStart_le _
  unfold bisectGroups at found
  cases outer : bisect (fun group => probe (groupStart sizes group)) (sizes.length + 1) 0
      sizes.length with
  | found group =>
      rw [outer] at found
      obtain rfl := Option.some.inj found
      obtain ⟨_, less, accepted⟩ := bisect_found _ outer
      have room := ends less
      exact ⟨by omega, accepted⟩
  | left bound =>
      rw [outer] at found
      cases bound with
      | zero => cases found
      | succ group =>
          simp only [bisectBefore, bisectGroup] at found
          cases inner : bisect (fun offset => probe (groupStart sizes group + offset))
              (sizes.getD group 0 + 1) 1 (sizes.getD group 0) with
          | left _ =>
              rw [inner] at found
              cases found
          | found offset =>
              rw [inner] at found
              obtain rfl := Option.some.inj found
              obtain ⟨_, less, accepted⟩ := bisect_found _ inner
              have inside : group < sizes.length := by
                by_contra outside
                rw [List.getD_eq_default _ _ (Nat.le_of_not_lt outside)] at less
                omega
              have room := ends inside
              exact ⟨by omega, accepted⟩

/-- Where nothing is found among ascending groups, nothing is accepted. -/
theorem bisectGroups_none (positive : ∀ size ∈ sizes, 0 < size)
    (ascending : Ascending probe 0 sizes.sum) (missed : bisectGroups probe sizes = none) :
    ∀ index, index < sizes.sum → probe index ≠ .eq := by
  intro index within
  rw [← groupStart_length] at within
  obtain ⟨group, less, from_, upTo⟩ := groupStart_covers _ (Nat.le_refl _) within
  rw [groupStart_length] at within
  have top := @groupStart_le sizes (group + 1)
  unfold bisectGroups at missed
  cases outer : bisect (fun group => probe (groupStart sizes group)) (sizes.length + 1) 0
      sizes.length with
  | found first =>
      rw [outer] at missed
      cases missed
  | left bound =>
      rw [outer] at missed
      obtain ⟨_, short, cut⟩ := bisect_left (ascending.groups positive) _ (Nat.le_refl _)
        (Nat.le_refl _) (Nat.zero_le _) (Nat.lt_succ_self _)
        ⟨fun _ _ below => absurd below (Nat.not_lt_zero _),
          fun _ above below => absurd below (Nat.not_lt.mpr above)⟩ outer
      by_cases behind : bound ≤ group
      · have greater := cut.greater group behind less
        rw [ascending.greater (Nat.zero_le _) from_ (by omega) greater]
        decide
      · cases bound with
        | zero => omega
        | succ last =>
            -- the last group that begins with less is searched too
            have begins := cut.less last (Nat.zero_le _) (Nat.lt_succ_self _)
            have next := groupStart_succ (show last < sizes.length by omega)
            have ends := @groupStart_le sizes (last + 1)
            simp only [bisectBefore, bisectGroup] at missed
            cases inner : bisect (fun offset => probe (groupStart sizes last + offset))
                (sizes.getD last 0 + 1) 1 (sizes.getD last 0) with
            | found offset =>
                rw [inner] at missed
                cases missed
            | left bound =>
                have size := positive (sizes.getD last 0) (by
                  rw [List.getD_eq_getElem _ _ (by omega)]
                  exact List.getElem_mem _)
                have inside : Ascending (fun offset => probe (groupStart sizes last + offset)) 1
                    (sizes.getD last 0) :=
                  ⟨fun _ ordered less => ascending.less (Nat.zero_le _) (by omega) (by omega),
                    fun _ ordered less => ascending.greater (Nat.zero_le _) (by omega) (by omega)⟩
                obtain ⟨_, _, split⟩ := bisect_left inside _ (Nat.le_refl _) (Nat.le_refl _)
                  (by omega) (by omega)
                  ⟨fun _ above below => absurd below (Nat.not_lt.mpr above),
                    fun _ above below => absurd below (Nat.not_lt.mpr above)⟩ inner
                by_cases first : index ≤ groupStart sizes last
                · rw [ascending.less (Nat.zero_le _) first (by omega) begins]
                  decide
                · have bounded : groupStart sizes (group + 1) ≤ groupStart sizes (last + 1) :=
                    groupStart_mono (by omega)
                  have same : groupStart sizes last + (index - groupStart sizes last) = index := by
                    omega
                  by_cases low : index - groupStart sizes last < bound
                  · have lesser := split.less (index - groupStart sizes last) (by omega) low
                    simp only [same] at lesser
                    rw [lesser]
                    decide
                  · have greater := split.greater (index - groupStart sizes last) (by omega) (by omega)
                    simp only [same] at greater
                    rw [greater]
                    decide

end Riegeli
