/-
Module: Riegeli.Proofs.FieldRewriting
Purpose: Rewriting the fields of a record by the projected paths is what the
  decoder leaves of them by the inclusion of their paths.
Trusted boundary: none
Main exports: FieldTree.projected_whole, FieldTree.projected_none,
  FieldProjection.included_inside, FieldTree.rewritten_eq
-/
import Riegeli.Spec.ProjectedRecords
import Riegeli.Proofs.IncludeTrie

namespace Riegeli

/-! ## Rewriting by inclusion -/

variable {included : List Nat → FieldIncluded}

/-- Where everything inside is included, the contents stay as they are. -/
theorem FieldTree.projected_whole (tree : FieldTree) :
    ∀ {path : List Nat}, (∀ more, more ≠ [] → included (path ++ more) = .yes) →
      tree.projected included path = tree.bytes := by
  induction tree with
  | nil => exact fun _ => rfl
  | leaf field rest ih =>
      intro path all
      rw [FieldTree.projected, all _ (List.cons_ne_nil _ _), ih all]
      rfl
  | submessage number contents rest inside after =>
      intro path all
      rw [FieldTree.projected, all _ (List.cons_ne_nil _ _), if_neg (by decide), after all,
        inside fun more _ => ?_]
      · rfl
      · rw [List.append_assoc]
        exact all _ (List.cons_ne_nil _ _)
  | group number contents rest inside after =>
      intro path all
      rw [FieldTree.projected, all _ (List.cons_ne_nil _ _), if_neg (by decide), after all,
        inside fun more _ => ?_]
      · rfl
      · rw [List.append_assoc]
        exact all _ (List.cons_ne_nil _ _)

/-- Where nothing inside is included, nothing is left of the contents. -/
theorem FieldTree.projected_none (tree : FieldTree) :
    ∀ {path : List Nat}, (∀ more, more ≠ [] → included (path ++ more) = .no) →
      tree.projected included path = [] := by
  induction tree with
  | nil => exact fun _ => rfl
  | leaf field rest ih =>
      intro path none
      rw [FieldTree.projected, none _ (List.cons_ne_nil _ _), ih none]
      rfl
  | submessage number contents rest _ after =>
      intro path none
      rw [FieldTree.projected, none _ (List.cons_ne_nil _ _), if_pos rfl, after none]
      rfl
  | group number contents rest _ after =>
      intro path none
      rw [FieldTree.projected, none _ (List.cons_ne_nil _ _), if_pos rfl, after none]
      rfl

namespace FieldProjection

variable {projection : FieldProjection} {fields : List Field} {path : List Nat}

theorem included_of_whole (listed : projection.fields = some fields)
    (whole : projection.Whole path) : projection.included path = .yes := by
  rw [Whole, listed] at whole
  exact included_yes listed (.inl whole)

theorem included_of_through (listed : projection.fields = some fields)
    (through : projection.Through path) : projection.included path = .yes := by
  rw [Through, listed] at through
  exact included_yes listed (.inr through)

theorem included_of_noted (listed : projection.fields = some fields)
    (notWhole : ¬ projection.Whole path) (notThrough : ¬ projection.Through path)
    (noted : projection.Noted path) : projection.included path = .existenceOnly := by
  rw [Whole, listed] at notWhole
  rw [Through, listed] at notThrough
  rw [Noted, listed] at noted
  exact included_existenceOnly listed (fun either => either.elim notWhole notThrough) noted

theorem included_of_none (listed : projection.fields = some fields)
    (notWhole : ¬ projection.Whole path) (notThrough : ¬ projection.Through path)
    (notNoted : ¬ projection.Noted path) : projection.included path = .no := by
  rw [Whole, listed] at notWhole
  rw [Through, listed] at notThrough
  rw [Noted, listed] at notNoted
  rw [included, listed]
  exact (if_neg fun either => either.elim notWhole notThrough).trans (if_neg notNoted)

/-- All fields inside one that is kept whole are kept whole. -/
theorem Whole.inside (whole : projection.Whole path) (more : List Nat) :
    projection.Whole (path ++ more) := by
  obtain ⟨field, member, full, before⟩ := whole
  exact ⟨field, member, full, before.trans (List.prefix_append _ _)⟩

/-- Nothing inside a field is included where no path leads through it. -/
theorem included_inside (listed : projection.fields = some fields)
    (notWhole : ¬ projection.Whole path) (notThrough : ¬ projection.Through path)
    {more : List Nat} (below : more ≠ []) : projection.included (path ++ more) = .no := by
  rw [Whole, listed] at notWhole
  rw [Through, listed] at notThrough
  have through {field : Field} (member : field ∈ fields) : ¬ path ++ more <+: field.path := by
    intro before
    refine notThrough ⟨field, member, (List.prefix_append _ _).trans before, ?_⟩
    rintro rfl
    have lengths := before.length_le
    rw [List.length_append] at lengths
    have positive := List.length_pos_iff.mpr below
    omega
  refine included_no listed (fun field member full before => ?_) fun field member => through member
  rcases List.prefix_or_prefix_of_prefix before (List.prefix_append path more) with inner | outer
  · exact notWhole ⟨field, member, full, inner⟩
  · by_cases same : path = field.path
    · exact notWhole ⟨field, member, full, same ▸ List.prefix_rfl⟩
    · exact notThrough ⟨field, member, outer, same⟩

end FieldProjection

/-- Rewriting by the projected paths is rewriting by what they include. -/
theorem FieldTree.rewritten_eq {projection : FieldProjection} {fields : List Field}
    (listed : projection.fields = some fields) (tree : FieldTree) :
    ∀ path, tree.rewritten projection path = tree.projected projection.included path := by
  have whole {path : List Nat} (whole : projection.Whole path) (contents : FieldTree) :
      contents.projected projection.included path = contents.bytes :=
    contents.projected_whole fun more _ =>
      FieldProjection.included_of_whole listed (whole.inside more)
  have none {path : List Nat} (notWhole : ¬ projection.Whole path)
      (notThrough : ¬ projection.Through path) (contents : FieldTree) :
      contents.projected projection.included path = [] :=
    contents.projected_none fun _ => FieldProjection.included_inside listed notWhole notThrough
  induction tree with
  | nil => exact fun _ => rfl
  | leaf field rest ih =>
      intro path
      rw [FieldTree.rewritten, FieldTree.projected, ih]
      by_cases kept : projection.Whole (path ++ [field.number])
      · rw [if_pos kept, FieldProjection.included_of_whole listed kept]
        rfl
      rw [if_neg kept]
      by_cases entered : projection.Through (path ++ [field.number])
      · rw [if_pos entered, FieldProjection.included_of_through listed entered]
        rfl
      rw [if_neg entered]
      by_cases noted : projection.Noted (path ++ [field.number])
      · rw [if_pos noted, FieldProjection.included_of_noted listed kept entered noted]
        rfl
      · rw [if_neg noted, FieldProjection.included_of_none listed kept entered noted]
        rfl
  | submessage number contents rest inside after =>
      intro path
      rw [FieldTree.rewritten, FieldTree.projected, after, inside]
      by_cases kept : projection.Whole (path ++ [number])
      · rw [if_pos kept, FieldProjection.included_of_whole listed kept, if_neg (by decide),
          whole kept]
      rw [if_neg kept]
      by_cases entered : projection.Through (path ++ [number])
      · rw [if_pos entered, FieldProjection.included_of_through listed entered,
          if_neg (by decide)]
      rw [if_neg entered, none kept entered]
      by_cases noted : projection.Noted (path ++ [number])
      · rw [if_pos noted, FieldProjection.included_of_noted listed kept entered noted,
          if_neg (by decide), List.length_nil, List.append_nil]
      · rw [if_neg noted, FieldProjection.included_of_none listed kept entered noted, if_pos rfl]
  | group number contents rest inside after =>
      intro path
      rw [FieldTree.rewritten, FieldTree.projected, after, inside]
      by_cases kept : projection.Whole (path ++ [number])
      · rw [if_pos kept, FieldProjection.included_of_whole listed kept, if_neg (by decide),
          whole kept]
      rw [if_neg kept]
      by_cases entered : projection.Through (path ++ [number])
      · rw [if_pos entered, FieldProjection.included_of_through listed entered,
          if_neg (by decide)]
      rw [if_neg entered, none kept entered]
      by_cases noted : projection.Noted (path ++ [number])
      · rw [if_pos noted, FieldProjection.included_of_noted listed kept entered noted,
          if_neg (by decide), List.nil_append]
      · rw [if_neg noted, FieldProjection.included_of_none listed kept entered noted, if_pos rfl]

end Riegeli
