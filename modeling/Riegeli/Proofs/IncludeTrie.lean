/-
Module: Riegeli.Proofs.IncludeTrie
Purpose: The include map of a projection is a trie of its paths: the decoder's
  walk along a path finds what the projected paths say of it.
Trusted boundary: none
Main exports: IncludeFieldMap.Trie, insertFields_rank, walk_included,
  includes_fromProjection
-/
import Mathlib.Data.List.Induction
import Riegeli.Proofs.FieldReplay

namespace Riegeli

namespace IncludeFieldMap

/-- The entries of an include map. -/
abbrev Entries := List ((Nat × Nat) × IncludedField)

variable {map : Entries} {parentId number currentId : Nat} {includeType : IncludeType}

/-- How much of a field an entry includes: the less, the more. -/
def rankOf (entry : Option IncludedField) : Nat :=
  match entry with
  | none => 3
  | some entry => entry.includeType.toNat

theorem IncludeType.toNat_lt (includeType : IncludeType) : includeType.toNat < 3 := by
  cases includeType <;> decide

/-! ## One step -/

theorem lookup_update (key : Nat × Nat) (entry : IncludedField) (other : Nat × Nat) :
    (update map key entry).lookup other =
      if other = key then (map.lookup key).map fun _ => entry else map.lookup other := by
  induction map with
  | nil => simp [update]
  | cons item rest ih =>
      rw [show update (item :: rest) key entry =
        (if item.1 = key then (key, entry) else item) :: update rest key entry from rfl]
      by_cases here : item.1 = key
      · obtain ⟨itemKey, itemEntry⟩ := item
        obtain rfl : itemKey = key := here
        rw [if_pos rfl, List.lookup_cons, List.lookup_cons, List.lookup_cons, beq_self_eq_true]
        by_cases same : other = itemKey
        · rw [if_pos same, beq_iff_eq.mpr same]
          rfl
        · rw [if_neg same, beq_false_of_ne same, ih, if_neg same]
      · obtain ⟨itemKey, itemEntry⟩ := item
        rw [if_neg here, List.lookup_cons, List.lookup_cons, List.lookup_cons]
        by_cases same : other = itemKey
        · have apart : other ≠ key := fun equal => here (same.symm.trans equal)
          rw [if_neg apart, beq_iff_eq.mpr same]
        · rw [beq_false_of_ne same, ih, beq_false_of_ne (Ne.symm here)]

theorem lookup_concat (absent : map.lookup (parentId, number) = none) (entry : IncludedField)
    (other : Nat × Nat) :
    (map ++ [((parentId, number), entry)]).lookup other =
      if other = (parentId, number) then some entry else map.lookup other := by
  rw [List.lookup_append, List.lookup_cons, List.lookup_nil]
  by_cases same : other = (parentId, number)
  · rw [same, absent, if_pos rfl, beq_self_eq_true, Option.none_or]
  · rw [if_neg same, beq_false_of_ne same, Option.or_none]

theorem insertStep_absent (absent : map.lookup (currentId, number) = none) :
    insertStep map currentId number includeType =
      (map ++ [((currentId, number),
        { fieldId := map.length % 2 ^ 32, includeType := includeType })],
        map.length % 2 ^ 32) := by
  unfold insertStep
  simp only [absent]

theorem insertStep_present {entry : IncludedField}
    (found : map.lookup (currentId, number) = some entry) :
    insertStep map currentId number includeType =
      (if includeType.toNat < entry.includeType.toNat then
        update map (currentId, number) { entry with includeType := includeType } else map,
        entry.fieldId) := by
  unfold insertStep
  simp only [found]
  split <;> rfl

/-- A step changes the entry of its key only, and never includes less. -/
theorem insertStep_lookup (map : Entries) (currentId number : Nat) (includeType : IncludeType) :
    ∃ entry, entry.fieldId = (insertStep map currentId number includeType).2 ∧
      entry.includeType.toNat =
        min (rankOf (map.lookup (currentId, number))) includeType.toNat ∧
      ∀ key, (insertStep map currentId number includeType).1.lookup key =
        if key = (currentId, number) then some entry else map.lookup key := by
  have bounded := IncludeType.toNat_lt includeType
  cases found : map.lookup (currentId, number) with
  | none =>
      rw [insertStep_absent found]
      refine ⟨{ fieldId := map.length % 2 ^ 32, includeType := includeType }, rfl, ?_,
        lookup_concat found _⟩
      exact (Nat.min_eq_right (Nat.le_of_lt bounded)).symm
  | some entry =>
      rw [insertStep_present found]
      simp only [rankOf]
      by_cases wider : includeType.toNat < entry.includeType.toNat
      · rw [if_pos wider]
        refine ⟨{ entry with includeType := includeType }, rfl,
          (Nat.min_eq_right (Nat.le_of_lt wider)).symm, fun key => ?_⟩
        rw [lookup_update, found]
        rfl
      · rw [if_neg wider]
        refine ⟨entry, rfl, (Nat.min_eq_left (Nat.le_of_not_lt wider)).symm, fun key => ?_⟩
        by_cases same : key = (currentId, number)
        · rw [if_pos same, same, found]
        · rw [if_neg same]

theorem length_insertStep (map : Entries) (currentId number : Nat) (includeType : IncludeType) :
    (insertStep map currentId number includeType).1.length =
      if map.lookup (currentId, number) = none then map.length + 1 else map.length := by
  cases found : map.lookup (currentId, number) with
  | none =>
      rw [insertStep_absent found, if_pos rfl, List.length_append]
      rfl
  | some entry =>
      rw [insertStep_present found, if_neg (Option.some_ne_none entry)]
      simp only
      split
      · exact List.length_map _
      · rfl

/-! ## The trie -/

/-- The entries are the nodes of a trie: each has an identifier of its own, below
the number of entries, and hangs below the root or another entry. -/
structure Trie (map : Entries) : Prop where
  inside : ∀ {key entry}, map.lookup key = some entry → entry.fieldId < map.length
  once : ∀ {key key' entry entry'}, map.lookup key = some entry → map.lookup key' = some entry' →
    entry.fieldId = entry'.fieldId → key = key'
  below : ∀ {parentId number entry}, map.lookup (parentId, number) = some entry →
    parentId = invalidPos ∨ parentId < map.length
  small : map.length ≤ invalidPos

theorem Trie.empty : Trie [] where
  inside := fun found => nomatch found
  once := fun found => nomatch found
  below := fun found => nomatch found
  small := Nat.zero_le _

/-- A step keeps a trie a trie, while there are identifiers left. -/
theorem Trie.insertStep (trie : Trie map) (room : map.length < invalidPos)
    (hangs : currentId = invalidPos ∨ currentId < map.length) (number : Nat)
    (includeType : IncludeType) :
    Trie (IncludeFieldMap.insertStep map currentId number includeType).1 := by
  obtain ⟨entry, fieldId, _, lookups⟩ := insertStep_lookup map currentId number includeType
  have length := length_insertStep map currentId number includeType
  cases found : map.lookup (currentId, number) with
  | none =>
      rw [if_pos found] at length
      have fresh : entry.fieldId = map.length := by
        rw [fieldId, insertStep_absent found, Nat.mod_eq_of_lt]
        exact room.trans (by decide)
      refine ⟨fun {key other} held => ?_, fun {key key' other other'} held held' same => ?_,
        fun {parentId number' other} held => ?_, by omega⟩
      · rw [lookups] at held
        by_cases own : key = (currentId, number)
        · rw [if_pos own] at held
          cases held
          omega
        · rw [if_neg own] at held
          have old := trie.inside held
          omega
      · rw [lookups] at held held'
        by_cases own : key = (currentId, number)
        · by_cases own' : key' = (currentId, number)
          · rw [own, own']
          · rw [if_pos own] at held
            rw [if_neg own'] at held'
            cases held
            have old := trie.inside held'
            omega
        · rw [if_neg own] at held
          by_cases own' : key' = (currentId, number)
          · rw [if_pos own'] at held'
            cases held'
            have old := trie.inside held
            omega
          · rw [if_neg own'] at held'
            exact trie.once held held' same
      · rw [lookups] at held
        by_cases own : (parentId, number') = (currentId, number)
        · obtain rfl : parentId = currentId := congrArg Prod.fst own
          exact hangs.imp id (by omega)
        · rw [if_neg own] at held
          exact (trie.below held).imp id (by omega)
  | some old =>
      rw [found, if_neg (Option.some_ne_none old)] at length
      have kept : entry.fieldId = old.fieldId := by
        rw [fieldId, insertStep_present found]
      -- every entry has the identifier that its key had before
      have before {key : Nat × Nat} {other : IncludedField}
          (held : (IncludeFieldMap.insertStep map currentId number includeType).1.lookup key =
            some other) : ∃ first, map.lookup key = some first ∧ first.fieldId = other.fieldId := by
        rw [lookups] at held
        by_cases own : key = (currentId, number)
        · rw [if_pos own] at held
          cases held
          exact ⟨old, own ▸ found, kept.symm⟩
        · rw [if_neg own] at held
          exact ⟨other, held, rfl⟩
      refine ⟨fun {key other} held => ?_, fun {key key' other other'} held held' same => ?_,
        fun {parentId number' other} held => ?_, by rw [length]; exact trie.small⟩
      · obtain ⟨first, there, identity⟩ := before held
        rw [length, ← identity]
        exact trie.inside there
      · obtain ⟨first, there, identity⟩ := before held
        obtain ⟨first', there', identity'⟩ := before held'
        exact trie.once there there' (identity.trans (same.trans identity'.symm))
      · obtain ⟨first, there, _⟩ := before held
        rw [length]
        exact trie.below there

/-! ## Paths in the trie -/

/-- The identifier at the end of a path. -/
def idAt (map : Entries) : List Nat → Nat → Option Nat
  | [], parentId => some parentId
  | number :: rest, parentId =>
      (map.lookup (parentId, number)).bind fun entry => idAt map rest entry.fieldId

theorem idAt_append (first second : List Nat) :
    ∀ parentId, idAt map (first ++ second) parentId =
      (idAt map first parentId).bind (idAt map second) := by
  induction first with
  | nil => exact fun _ => rfl
  | cons number rest ih =>
      intro parentId
      rw [List.cons_append, idAt, idAt, Option.bind_assoc]
      exact congrArg _ (funext fun entry => ih entry.fieldId)

theorem idAt_snoc (path : List Nat) (number : Nat) :
    idAt map (path ++ [number]) parentId =
      (idAt map path parentId).bind fun id =>
        (map.lookup (id, number)).map IncludedField.fieldId := by
  rw [idAt_append]
  refine congrArg _ (funext fun id => ?_)
  rw [idAt, Option.map_eq_bind]
  rfl

/-- The rank of a number below a path. -/
def rankAt (map : Entries) (path : List Nat) (number : Nat) : Nat :=
  rankOf ((idAt map path invalidPos).bind fun id => map.lookup (id, number))

theorem Trie.idAt_cases (trie : Trie map) (path : List Nat) {id : Nat}
    (reached : idAt map path invalidPos = some id) :
    (path = [] ∧ id = invalidPos) ∨ id < map.length := by
  rcases List.eq_nil_or_concat' path with rfl | ⟨before, number, rfl⟩
  · exact .inl ⟨rfl, (Option.some.inj reached).symm⟩
  · rw [idAt_snoc] at reached
    obtain ⟨parent, _, reached⟩ := Option.bind_eq_some_iff.mp reached
    obtain ⟨entry, found, rfl⟩ := Option.map_eq_some_iff.mp reached
    exact .inr (trie.inside found)

/-- Different paths end at different identifiers. -/
theorem Trie.path_unique (trie : Trie map) (path : List Nat) :
    ∀ {other : List Nat} {id : Nat}, idAt map path invalidPos = some id →
      idAt map other invalidPos = some id → path = other := by
  induction path using List.reverseRecOn with
  | nil =>
      intro other id reached reached'
      obtain rfl := Option.some.inj reached
      rcases trie.idAt_cases other reached' with ⟨rfl, _⟩ | inside
      · rfl
      · have small := trie.small
        omega
  | append_singleton before number ih =>
      intro other id reached reached'
      rw [idAt_snoc] at reached
      obtain ⟨parent, here, reached⟩ := Option.bind_eq_some_iff.mp reached
      obtain ⟨entry, found, rfl⟩ := Option.map_eq_some_iff.mp reached
      rcases List.eq_nil_or_concat' other with rfl | ⟨before', number', rfl⟩
      · have root := Option.some.inj reached'
        have inside := trie.inside found
        have small := trie.small
        omega
      · rw [idAt_snoc] at reached'
        obtain ⟨parent', here', reached'⟩ := Option.bind_eq_some_iff.mp reached'
        obtain ⟨entry', found', same⟩ := Option.map_eq_some_iff.mp reached'
        obtain ⟨rfl, rfl⟩ := Prod.mk.inj (trie.once found found' same.symm)
        rw [ih here here']

variable {path other : List Nat}

/-- A step keeps the identifiers at the ends of paths. -/
theorem idAt_insertStep (other : List Nat) : ∀ {start id : Nat},
    idAt map other start = some id →
      idAt (insertStep map currentId number includeType).1 other start = some id := by
  obtain ⟨entry, fieldId, _, lookups⟩ := insertStep_lookup map currentId number includeType
  induction other with
  | nil => exact fun reached => reached
  | cons next rest ih =>
      intro start id reached
      obtain ⟨old, found, reached⟩ := Option.bind_eq_some_iff.mp reached
      have later := ih reached
      rw [idAt, lookups]
      by_cases own : (start, next) = (currentId, number)
      · obtain ⟨rfl, rfl⟩ := Prod.mk.inj own
        have kept : entry.fieldId = old.fieldId := by
          rw [fieldId, insertStep_present found]
        rw [if_pos rfl, Option.bind_some, kept]
        exact later
      · rw [if_neg own, found, Option.bind_some]
        exact later

/-- A step from the end of a path goes to the end of the longer one. -/
theorem idAt_insertStep_self (reached : idAt map path invalidPos = some currentId) :
    idAt (insertStep map currentId number includeType).1 (path ++ [number]) invalidPos =
      some (insertStep map currentId number includeType).2 := by
  obtain ⟨entry, fieldId, _, lookups⟩ := insertStep_lookup map currentId number includeType
  rw [idAt_snoc, idAt_insertStep path reached, Option.bind_some, lookups, if_pos rfl,
    Option.map_some, fieldId]

/-- A path that ends nowhere still does, or is the one that was entered. -/
theorem Trie.idAt_none (trie : Trie map) (room : map.length < invalidPos)
    (reached : idAt map path invalidPos = some currentId) (other : List Nat)
    (missing : idAt map other invalidPos = none) :
    idAt (IncludeFieldMap.insertStep map currentId number includeType).1 other invalidPos = none ∨
      (other = path ++ [number] ∧
        idAt (IncludeFieldMap.insertStep map currentId number includeType).1 other invalidPos =
          some map.length) := by
  obtain ⟨entry, fieldId, _, lookups⟩ := insertStep_lookup map currentId number includeType
  induction other using List.reverseRecOn with
  | nil => cases missing
  | append_singleton before next ih =>
      rw [idAt_snoc] at missing ⊢
      cases here : idAt map before invalidPos with
      | none =>
          rcases ih here with none | ⟨rfl, fresh⟩
          · rw [none]
            exact .inl rfl
          · -- nothing hangs below the new entry
            left
            rw [fresh, Option.bind_some, lookups]
            have apart : (map.length, next) ≠ (currentId, number) := by
              intro same
              have equal := congrArg Prod.fst same
              rcases trie.idAt_cases path reached with ⟨_, rfl⟩ | inside
              · exact absurd equal (Nat.ne_of_lt room)
              · exact absurd equal.symm (Nat.ne_of_lt inside)
            rw [if_neg apart]
            cases held : map.lookup (map.length, next) with
            | none => rfl
            | some below =>
                rcases trie.below held with root | inside
                · exact absurd root (Nat.ne_of_lt room)
                · exact absurd inside (Nat.lt_irrefl _)
      | some id =>
          rw [here, Option.bind_some, Option.map_eq_none_iff] at missing
          rw [idAt_insertStep before here, Option.bind_some, lookups]
          by_cases own : (id, next) = (currentId, number)
          · obtain ⟨rfl, rfl⟩ := Prod.mk.inj own
            right
            refine ⟨by rw [trie.path_unique before here reached], ?_⟩
            rw [if_pos rfl, Option.map_some, fieldId, insertStep_absent missing]
            exact congrArg some (Nat.mod_eq_of_lt (room.trans (by decide)))
          · rw [if_neg own, missing]
            exact .inl rfl

theorem rankAt_le (map : Entries) (path : List Nat) (number : Nat) : rankAt map path number ≤ 3 := by
  unfold rankAt rankOf
  split
  · exact Nat.le_refl _
  · exact Nat.le_of_lt (IncludeType.toNat_lt _)

/-- A step widens what it is about, and nothing else. -/
theorem Trie.rankAt_insertStep (trie : Trie map) (room : map.length < invalidPos)
    (reached : idAt map path invalidPos = some currentId) (other : List Nat) (next : Nat) :
    rankAt (IncludeFieldMap.insertStep map currentId number includeType).1 other next =
      if other = path ∧ next = number then min (rankAt map other next) includeType.toNat
      else rankAt map other next := by
  obtain ⟨entry, fieldId, rank, lookups⟩ := insertStep_lookup map currentId number includeType
  unfold rankAt
  cases here : idAt map other invalidPos with
  | none =>
      have apart : ¬ (other = path ∧ next = number) := by
        rintro ⟨rfl, _⟩
        rw [reached] at here
        cases here
      rw [if_neg apart, Option.bind_none]
      rcases trie.idAt_none room reached other here with none | ⟨_, fresh⟩
      · rw [none, Option.bind_none]
      · rw [fresh, Option.bind_some, lookups, if_neg]
        · cases held : map.lookup (map.length, next) with
          | none => rfl
          | some below =>
              rcases trie.below held with root | inside
              · exact absurd root (Nat.ne_of_lt room)
              · exact absurd inside (Nat.lt_irrefl _)
        · intro same
          have equal := congrArg Prod.fst same
          rcases trie.idAt_cases path reached with ⟨_, rfl⟩ | inside
          · exact absurd equal (Nat.ne_of_lt room)
          · exact absurd equal.symm (Nat.ne_of_lt inside)
  | some id =>
      rw [idAt_insertStep other here, Option.bind_some, Option.bind_some, lookups]
      by_cases own : (id, next) = (currentId, number)
      · obtain ⟨rfl, rfl⟩ := Prod.mk.inj own
        rw [if_pos rfl, if_pos ⟨trie.path_unique other here reached, rfl⟩]
        exact rank
      · rw [if_neg own, if_neg]
        rintro ⟨rfl, rfl⟩
        rw [reached] at here
        cases here
        exact own rfl

/-! ## Whole paths -/

/-- The rank that a projected path gives a number below another path. -/
def claimRank (existenceOnly : Bool) : List Nat → List Nat → Nat → Nat
  | [], _, _ => 3
  | first :: rest, [], number =>
      if number = first then
        if rest.isEmpty then
          if existenceOnly then IncludeType.existenceOnly.toNat else IncludeType.includeFully.toNat
        else IncludeType.includeChild.toNat
      else 3
  | first :: rest, next :: other, number =>
      if next = first then claimRank existenceOnly rest other number else 3

/-- A full path includes what it leads to. -/
theorem claimRank_full {existenceOnly : Bool} (projected : List Nat) :
    ∀ {other : List Nat} {number : Nat}, claimRank existenceOnly projected other number = 0 ↔
      existenceOnly = false ∧ projected = other ++ [number] := by
  induction projected with
  | nil =>
      intro other number
      exact ⟨(nomatch ·), fun ⟨_, same⟩ => absurd same.symm (List.append_ne_nil_of_right_ne_nil _
        (List.cons_ne_nil _ _))⟩
  | cons first rest ih =>
      intro other number
      cases other with
      | nil =>
          rw [claimRank, List.nil_append, List.cons.injEq]
          by_cases same : number = first
          · rw [if_pos same]
            cases rest with
            | nil => cases existenceOnly <;> simp [IncludeType.toNat, same]
            | cons second rest => simp [IncludeType.toNat]
          · rw [if_neg same]
            simp [Ne.symm same]
      | cons next other =>
          rw [claimRank, List.cons_append, List.cons.injEq]
          by_cases same : next = first
          · rw [if_pos same, ih]
            simp [same]
          · rw [if_neg same]
            simp [Ne.symm same]

/-- A path gives a rank to what it leads to and through. -/
theorem claimRank_listed {existenceOnly : Bool} (projected : List Nat) :
    ∀ {other : List Nat} {number : Nat}, claimRank existenceOnly projected other number < 3 ↔
      other ++ [number] <+: projected := by
  induction projected with
  | nil =>
      intro other number
      rw [List.prefix_nil]
      exact ⟨fun less => absurd less (Nat.lt_irrefl _), fun same => absurd same
        (List.append_ne_nil_of_right_ne_nil _ (List.cons_ne_nil _ _))⟩
  | cons first rest ih =>
      intro other number
      cases other with
      | nil =>
          rw [claimRank, List.nil_append, List.cons_prefix_cons]
          by_cases same : number = first
          · rw [if_pos same]
            refine ⟨fun _ => ⟨same, List.nil_prefix⟩, fun _ => ?_⟩
            split
            · split <;> decide
            · decide
          · rw [if_neg same]
            simp [same]
      | cons next other =>
          rw [claimRank, List.cons_append, List.cons_prefix_cons]
          by_cases same : next = first
          · rw [if_pos same, ih]
            simp [same]
          · rw [if_neg same]
            simp [same]

/-- A path includes the children of what it leads through. -/
theorem claimRank_through {existenceOnly : Bool} (projected : List Nat) :
    ∀ {other : List Nat} {number : Nat}, claimRank existenceOnly projected other number = 1 ↔
      other ++ [number] <+: projected ∧ other ++ [number] ≠ projected := by
  induction projected with
  | nil =>
      intro other number
      rw [List.prefix_nil]
      exact ⟨(nomatch ·), fun ⟨same, _⟩ => absurd same
        (List.append_ne_nil_of_right_ne_nil _ (List.cons_ne_nil _ _))⟩
  | cons first rest ih =>
      intro other number
      cases other with
      | nil =>
          rw [claimRank, List.nil_append, List.cons_prefix_cons]
          by_cases same : number = first
          · rw [if_pos same]
            cases rest with
            | nil => cases existenceOnly <;> simp [IncludeType.toNat, same]
            | cons second rest => simp [IncludeType.toNat, same]
          · rw [if_neg same]
            simp [same]
      | cons next other =>
          rw [claimRank, List.cons_append, List.cons_prefix_cons]
          by_cases same : next = first
          · rw [if_pos same, ih]
            simp [same]
          · rw [if_neg same]
            simp [same]

/-- What the loop over a path includes of a field, when the rest of the path is
given. -/
def stepType (existenceOnly : Bool) (rest : List Nat) : IncludeType :=
  if rest.isEmpty then if existenceOnly then .existenceOnly else .includeFully else .includeChild

/-- The loop over a path widens what the path claims. -/
theorem Trie.insertPath (existenceOnly : Bool) (rest : List Nat) :
    ∀ {path : List Nat} {map : Entries} {currentId : Nat}, Trie map →
      map.length + rest.length ≤ invalidPos → idAt map path invalidPos = some currentId →
      Trie (IncludeFieldMap.insertPath existenceOnly rest currentId map) ∧
        (IncludeFieldMap.insertPath existenceOnly rest currentId map).length ≤
          map.length + rest.length ∧
        (∀ other number, rankAt (IncludeFieldMap.insertPath existenceOnly rest currentId map)
          (path ++ other) number =
            min (rankAt map (path ++ other) number) (claimRank existenceOnly rest other number)) ∧
        ∀ other number, ¬ path <+: other →
          rankAt (IncludeFieldMap.insertPath existenceOnly rest currentId map) other number =
            rankAt map other number := by
  induction rest with
  | nil =>
      intro path map currentId trie _ _
      refine ⟨trie, Nat.le_refl _, fun other number => (Nat.min_eq_left ?_).symm, fun _ _ _ => rfl⟩
      exact rankAt_le map _ number
  | cons first rest ih =>
      intro path map currentId trie room reached
      rw [List.length_cons] at room
      have roomHere : map.length < invalidPos := by omega
      have hangs : currentId = invalidPos ∨ currentId < map.length :=
        (trie.idAt_cases path reached).imp And.right id
      have grown : (IncludeFieldMap.insertStep map currentId first
          (stepType existenceOnly rest)).1.length ≤ map.length + 1 := by
        rw [length_insertStep]
        split <;> omega
      have widens := @Trie.rankAt_insertStep map first currentId (stepType existenceOnly rest) path
        trie roomHere reached
      obtain ⟨trie', length', claims, keeps⟩ := ih
        (trie.insertStep roomHere hangs first (stepType existenceOnly rest)) (by omega)
        (idAt_insertStep_self reached)
      rw [show IncludeFieldMap.insertPath existenceOnly (first :: rest) currentId map =
        IncludeFieldMap.insertPath existenceOnly rest
          (IncludeFieldMap.insertStep map currentId first (stepType existenceOnly rest)).2
          (IncludeFieldMap.insertStep map currentId first (stepType existenceOnly rest)).1 from rfl]
      refine ⟨trie', by rw [List.length_cons]; omega, fun other number => ?_,
        fun other number apart => ?_⟩
      · cases other with
        | nil =>
            have before : ¬ path ++ [first] <+: path ++ [] := by
              rw [List.prefix_append_right_inj, List.prefix_nil]
              exact List.cons_ne_nil _ _
            refine (keeps _ number before).trans ?_
            rw [widens, List.append_nil, claimRank]
            by_cases same : number = first
            · rw [if_pos ⟨rfl, same⟩, if_pos same]
              unfold stepType
              split
              · split <;> rfl
              · rfl
            · rw [if_neg (fun both => same both.2), if_neg same]
              exact (Nat.min_eq_left (rankAt_le map _ number)).symm
        | cons next other =>
            have longer : ¬ (path ++ next :: other = path ∧ number = first) := by
              rintro ⟨same, _⟩
              have sizes := congrArg List.length same
              rw [List.length_append, List.length_cons] at sizes
              omega
            by_cases same : next = first
            · subst same
              have claimed := claims other number
              rw [List.append_assoc, List.singleton_append] at claimed
              refine claimed.trans ?_
              rw [widens, if_neg longer, claimRank, if_pos rfl]
            · have before : ¬ path ++ [first] <+: path ++ next :: other := by
                rw [List.prefix_append_right_inj, List.cons_prefix_cons]
                exact fun both => same both.1.symm
              refine (keeps _ number before).trans ?_
              rw [widens, if_neg longer, claimRank, if_neg same]
              exact (Nat.min_eq_left (rankAt_le map _ number)).symm
      · have before : ¬ path ++ [first] <+: other :=
          fun longer => apart ((List.prefix_append _ _).trans longer)
        refine (keeps other number before).trans ?_
        rw [widens, if_neg]
        rintro ⟨rfl, _⟩
        exact apart List.prefix_rfl

/-! ## All paths -/

/-- The rank that a list of projected paths gives. -/
def claimsRank (fields : List Field) (path : List Nat) (number start : Nat) : Nat :=
  fields.foldl (fun rank field =>
    min rank (claimRank field.existenceOnly field.path path number)) start

theorem claimsRank_le (fields : List Field) (path : List Nat) (number limit : Nat) :
    ∀ start, claimsRank fields path number start ≤ limit ↔ start ≤ limit ∨
      ∃ field ∈ fields, claimRank field.existenceOnly field.path path number ≤ limit := by
  induction fields with
  | nil =>
      intro start
      exact ⟨.inl, fun either => either.elim id fun ⟨_, member, _⟩ => nomatch member⟩
  | cons field rest ih =>
      intro start
      rw [claimsRank, List.foldl_cons]
      refine (ih _).trans ?_
      rw [min_le_iff, List.exists_mem_cons_iff, or_assoc]

/-- The loop over the projected fields builds the trie of their paths. -/
theorem Trie.insertFields (fields : List Field) :
    ∀ {map : Entries}, Trie map →
      map.length + (fields.map fun field => field.path.length).sum ≤ invalidPos →
      (∀ field ∈ fields, field.path ≠ []) →
      ∃ map', IncludeFieldMap.insertFields fields map = some map' ∧ Trie map' ∧
        ∀ path number, rankAt map' path number =
          claimsRank fields path number (rankAt map path number) := by
  induction fields with
  | nil => exact fun {map} trie _ _ => ⟨map, rfl, trie, fun _ _ => rfl⟩
  | cons field rest ih =>
      intro map trie room named
      rw [List.map_cons, List.sum_cons] at room
      obtain ⟨here, later⟩ := List.forall_mem_cons.mp named
      obtain ⟨trie', length, claims, _⟩ := @Trie.insertPath field.existenceOnly field.path [] map
        invalidPos trie (by omega) rfl
      obtain ⟨map', inserted, trieAfter, ranks⟩ := ih trie' (by omega) later
      refine ⟨map', ?_, trieAfter, fun path number => ?_⟩
      · rw [IncludeFieldMap.insertFields, if_neg]
        · exact inserted
        · rw [List.isEmpty_iff]
          exact here
      · have claimed := claims path number
        rw [List.nil_append] at claimed
        rw [ranks, claimed]
        rfl

end IncludeFieldMap

/-! ## What is included -/

namespace FieldProjection

variable {projection : FieldProjection} {fields : List Field} {path : List Nat}

theorem included_yes (listed : projection.fields = some fields)
    (kept : (∃ field ∈ fields, field.existenceOnly = false ∧ field.path <+: path) ∨
      ∃ field ∈ fields, path <+: field.path ∧ path ≠ field.path) :
    projection.included path = .yes := by
  rw [included, listed]
  exact if_pos kept

theorem included_existenceOnly (listed : projection.fields = some fields)
    (left : ¬ ((∃ field ∈ fields, field.existenceOnly = false ∧ field.path <+: path) ∨
      ∃ field ∈ fields, path <+: field.path ∧ path ≠ field.path))
    (noted : ∃ field ∈ fields, field.existenceOnly = true ∧ field.path = path) :
    projection.included path = .existenceOnly := by
  rw [included, listed]
  exact (if_neg left).trans (if_pos noted)

theorem included_no (listed : projection.fields = some fields)
    (unprefixed : ∀ field ∈ fields, field.existenceOnly = false → ¬ field.path <+: path)
    (unlisted : ∀ field ∈ fields, ¬ path <+: field.path) :
    projection.included path = .no := by
  rw [included, listed]
  refine (if_neg ?_).trans (if_neg ?_)
  · rintro (⟨field, member, full, before⟩ | ⟨field, member, before, _⟩)
    · exact unprefixed field member full before
    · exact unlisted field member before
  · rintro ⟨field, member, _, rfl⟩
    exact unlisted field member List.prefix_rfl

/-- What is dropped is dropped with all that is inside. -/
theorem included_hereditary (projection : FieldProjection) : Hereditary projection.included := by
  intro path more _ none
  cases listed : projection.fields with
  | none =>
      rw [included, listed] at none
      cases none
  | some fields =>
      have dropped : ∀ field ∈ fields, ¬ path <+: field.path := by
        intro field member before
        by_cases same : path = field.path
        · cases only : field.existenceOnly with
          | false =>
              rw [included_yes listed (.inl ⟨field, member, only, same ▸ List.prefix_rfl⟩)] at none
              cases none
          | true =>
              rw [included, listed] at none
              simp only at none
              split at none
              · cases none
              · rw [if_pos ⟨field, member, only, same.symm⟩] at none
                cases none
        · rw [included_yes listed (.inr ⟨field, member, before, same⟩)] at none
          cases none
      refine included_no listed (fun field member full before => ?_)
        fun field member before => dropped field member ((List.prefix_append _ _).trans before)
      rcases List.prefix_or_prefix_of_prefix before (List.prefix_append path more) with inner | outer
      · rw [included_yes listed (.inl ⟨field, member, full, inner⟩)] at none
        cases none
      · exact dropped field member outer

end FieldProjection

namespace IncludeFieldMap

variable {projection : FieldProjection} {fields : List Field} {includeMap : IncludeFieldMap}

/-- The walk from the end of a path, where no full path was met before, finds
what the projected paths say. -/
theorem walk_included (listed : projection.fields = some fields)
    (ranks : ∀ path number limit, limit < 3 → (rankAt includeMap.map path number ≤ limit ↔
      ∃ field ∈ fields, claimRank field.existenceOnly field.path path number ≤ limit)) (tag : Nat)
    (rest : List Nat) :
    ∀ {path : List Nat} {currentId : Nat}, idAt includeMap.map path invalidPos = some currentId →
      (∀ field ∈ fields, field.existenceOnly = false → ¬ field.path <+: path) →
      fieldIncludedBelow includeMap tag (includeMap.walk rest currentId) =
        projection.included (path ++ (rest ++ [tagFieldNumber tag])) := by
  -- a number without an entry is on no path
  have missing {path : List Nat} {currentId number : Nat}
      (reached : idAt includeMap.map path invalidPos = some currentId)
      (absent : includeMap.get currentId number = none) :
      ∀ field ∈ fields, ¬ path ++ [number] <+: field.path := by
    intro field member before
    have less := (@claimRank_listed field.existenceOnly field.path _ _).mpr before
    have low := (ranks path number 2 (by decide)).mpr ⟨field, member, by omega⟩
    rw [rankAt, reached, Option.bind_some, show includeMap.map.lookup _ = none from absent] at low
    exact absurd low (by decide)
  have rankIs {path : List Nat} {currentId number : Nat} {entry : IncludedField}
      (reached : idAt includeMap.map path invalidPos = some currentId)
      (found : includeMap.get currentId number = some entry) :
      rankAt includeMap.map path number = entry.includeType.toNat := by
    rw [rankAt, reached, Option.bind_some, show includeMap.map.lookup _ = some entry from found]
    rfl
  -- a rank up to one keeps the field
  have keeps {path : List Nat} {number : Nat}
      (low : rankAt includeMap.map path number ≤ 1) :
      projection.included (path ++ [number]) = .yes := by
    obtain ⟨field, member, claim⟩ := (ranks path number 1 (by decide)).mp low
    by_cases full : claimRank field.existenceOnly field.path path number = 0
    · obtain ⟨whole, same⟩ := (claimRank_full field.path).mp full
      exact FieldProjection.included_yes listed (.inl ⟨field, member, whole, same ▸ List.prefix_rfl⟩)
    · have one : claimRank field.existenceOnly field.path path number = 1 := by omega
      have through := (claimRank_through field.path).mp one
      exact FieldProjection.included_yes listed (.inr ⟨field, member, through⟩)
  -- a full path that ends here has the lowest rank
  have ends {path : List Nat} {number : Nat} {field : Field} (member : field ∈ fields)
      (full : field.existenceOnly = false) (same : field.path = path ++ [number]) :
      rankAt includeMap.map path number ≤ 0 :=
    (ranks path number 0 (by decide)).mpr
      ⟨field, member, ((claimRank_full field.path).mpr ⟨full, same⟩).le⟩
  induction rest with
  | nil =>
      intro path currentId reached unprefixed
      rw [List.nil_append, walk, fieldIncludedBelow]
      cases found : includeMap.get currentId (tagFieldNumber tag) with
      | none =>
          refine (FieldProjection.included_no listed (fun field member full before => ?_)
            (missing reached found)).symm
          rcases List.prefix_concat_iff.mp before with same | before
          · exact missing reached found field member (same ▸ List.prefix_rfl)
          · exact unprefixed field member full before
      | some entry =>
          have rank := rankIs reached found
          simp only
          cases type : entry.includeType with
          | includeFully | includeChild =>
              rw [if_pos (by decide)]
              refine (keeps ?_).symm
              rw [rank, type]
              decide
          | existenceOnly =>
              rw [if_neg (by decide)]
              rw [type, show IncludeType.existenceOnly.toNat = 2 from rfl] at rank
              have through : ∀ field ∈ fields, path ++ [tagFieldNumber tag] <+: field.path →
                  path ++ [tagFieldNumber tag] = field.path := by
                intro field member before
                by_contra differs
                have claim := (@claimRank_through field.existenceOnly field.path _ _).mpr
                  ⟨before, differs⟩
                have low := (ranks path _ 1 (by decide)).mpr ⟨field, member, claim.le⟩
                omega
              refine (FieldProjection.included_existenceOnly listed ?_ ?_).symm
              · rintro (⟨field, member, full, before⟩ | ⟨field, member, before, differs⟩)
                · rcases List.prefix_concat_iff.mp before with same | before
                  · have low := ends member full same
                    omega
                  · exact unprefixed field member full before
                · exact differs (through field member before)
              · obtain ⟨field, member, claim⟩ := (ranks path _ 2 (by decide)).mp rank.le
                have before := (claimRank_listed field.path).mp (Nat.lt_succ_of_le claim)
                have same := through field member before
                cases only : field.existenceOnly with
                | true => exact ⟨field, member, only, same.symm⟩
                | false =>
                    have low := ends member only same.symm
                    omega
  | cons number rest ih =>
      intro path currentId reached unprefixed
      have further : path ++ (number :: rest ++ [tagFieldNumber tag]) =
          path ++ [number] ++ (rest ++ [tagFieldNumber tag]) := by simp
      rw [further, walk]
      cases found : includeMap.get currentId number with
      | none =>
          have absent := missing reached found
          refine (FieldProjection.included_no listed (fun field member full before => ?_)
            fun field member before => absent field member
              ((List.prefix_append _ _).trans before)).symm
          rcases List.prefix_or_prefix_of_prefix before (List.prefix_append _ _) with inner | outer
          · rcases List.prefix_concat_iff.mp inner with same | before
            · exact absent field member (same ▸ List.prefix_rfl)
            · exact unprefixed field member full before
          · exact absent field member outer
      | some entry =>
          have rank := rankIs reached found
          simp only
          by_cases full : entry.includeType = .includeFully
          · rw [if_pos full]
            rw [full, show IncludeType.includeFully.toNat = 0 from rfl] at rank
            obtain ⟨field, member, claim⟩ := (ranks path number 0 (by decide)).mp rank.le
            obtain ⟨whole, same⟩ := (claimRank_full field.path).mp (Nat.le_zero.mp claim)
            refine (FieldProjection.included_yes listed (.inl ⟨field, member, whole, ?_⟩)).symm
            rw [same]
            exact List.prefix_append _ _
          · rw [if_neg full]
            refine ih ?_ fun field member whole before => ?_
            · rw [idAt_snoc, reached, Option.bind_some,
                show includeMap.map.lookup _ = some entry from found]
              rfl
            · rcases List.prefix_concat_iff.mp before with same | before
              · have low := ends member whole same
                rw [rank] at low
                cases type : entry.includeType with
                | includeFully => exact full type
                | includeChild | existenceOnly =>
                    rw [type] at low
                    exact absurd low (by decide)
              · exact unprefixed field member whole before

/-- The include map of a projection says what its paths say. -/
theorem includes_fromProjection (listed : projection.fields = some fields)
    (named : ∀ field ∈ fields, field.path ≠ [])
    (small : (fields.map fun field => field.path.length).sum ≤ invalidPos) :
    ∃ includeMap, fromProjection projection = some includeMap ∧
      Includes (some includeMap) projection.included := by
  obtain ⟨map, inserted, trie, ranks⟩ := Trie.empty.insertFields fields
    (by rw [List.length_nil, Nat.zero_add]; exact small) named
  refine ⟨{ map := map }, ?_, fun path tag => ?_⟩
  · rw [fromProjection, listed, Option.bind_eq_bind, Option.bind_some, inserted]
    rfl
  · have fresh (path : List Nat) (number : Nat) : rankAt [] path number = 3 := by
      rw [rankAt]
      cases idAt [] path invalidPos <;> rfl
    have counted : ∀ path number limit, limit < 3 → (rankAt map path number ≤ limit ↔
        ∃ field ∈ fields, claimRank field.existenceOnly field.path path number ≤ limit) := by
      intro path number limit low
      rw [ranks, claimsRank_le, fresh]
      exact or_iff_right (Nat.not_le_of_lt low)
    exact @walk_included projection fields { map := map } listed counted tag path [] invalidPos rfl
      fun field member _ before => named field member (List.prefix_nil.mp before)

end IncludeFieldMap

end Riegeli
