/-
Module: Riegeli.Proofs.FieldParsing
Purpose: The bytes of a record say which fields it has: two trees that the
  encoder could take it apart into are the same.
Trusted boundary: none
Main exports: FieldTree.parse_unique, ProjectedRecord.unique
-/
import Riegeli.Spec.ProjectedRecords
import Riegeli.Proofs.FieldCopies

namespace Riegeli

/-! ## Words and tags -/

theorem encodeU64_unique {first second : Nat} {rest rest' : Bytes} (fits : first ≤ u64Max)
    (fits' : second ≤ u64Max) (same : encodeU64 first ++ rest = encodeU64 second ++ rest') :
    first = second ∧ rest = rest' := by
  have decoded := decodeU64_encodeU64 fits rest
  rw [same, decodeU64_encodeU64 fits' rest'] at decoded
  obtain rfl : second = first := congrArg Prod.fst (Except.ok.inj decoded)
  exact ⟨rfl, List.append_cancel_left same⟩

theorem tagBytes_unique {number number' : Nat} {wireType wireType' : WireType} {rest rest' : Bytes}
    (valid : FieldNumber number) (valid' : FieldNumber number')
    (same : tagBytes number wireType ++ rest = tagBytes number' wireType' ++ rest') :
    number = number' ∧ wireType = wireType' ∧ rest = rest' := by
  have widen : u32Max ≤ u64Max := by decide
  obtain ⟨tags, rests⟩ := encodeU64_unique ((tag_fits valid wireType).trans widen)
    ((tag_fits valid' wireType').trans widen) same
  have numbers := congrArg tagFieldNumber tags
  have types := congrArg tagWireType tags
  rw [tagFieldNumber_tag, tagFieldNumber_tag] at numbers
  rw [tagWireType_tag, tagWireType_tag] at types
  exact ⟨numbers, Option.some.inj types, rests⟩

/-- The value of a field ends where its type and its bytes say. -/
theorem FieldLeaf.value_unique {field other : FieldLeaf} {rest rest' : Bytes}
    (canonical : field.Canonical) (canonical' : other.Canonical)
    (numbers : field.number = other.number) (types : field.wireType = other.wireType)
    (same : field.value ++ rest = other.value ++ rest') : field = other ∧ rest = rest' := by
  have widen : u32Max ≤ u64Max := by decide
  cases field with
  | varint number value =>
      cases other with
      | varint number' value' =>
          obtain rfl : number = number' := numbers
          obtain ⟨rfl, rests⟩ := encodeU64_unique canonical.2 canonical'.2 same
          exact ⟨rfl, rests⟩
      | fixed32 | fixed64 | string => cases types
  | fixed32 number bytes =>
      cases other with
      | fixed32 number' bytes' =>
          obtain rfl : number = number' := numbers
          obtain ⟨rfl, rests⟩ := List.append_inj same (canonical.2.trans canonical'.2.symm)
          exact ⟨rfl, rests⟩
      | varint | fixed64 | string => cases types
  | fixed64 number bytes =>
      cases other with
      | fixed64 number' bytes' =>
          obtain rfl : number = number' := numbers
          obtain ⟨rfl, rests⟩ := List.append_inj same (canonical.2.trans canonical'.2.symm)
          exact ⟨rfl, rests⟩
      | varint | fixed32 | string => cases types
  | string number bytes =>
      cases other with
      | string number' bytes' =>
          obtain rfl : number = number' := numbers
          rw [FieldLeaf.value, FieldLeaf.value, List.append_assoc, List.append_assoc] at same
          obtain ⟨lengths, same⟩ :=
            encodeU64_unique (canonical.2.trans widen) (canonical'.2.trans widen) same
          obtain ⟨rfl, rests⟩ := List.append_inj same lengths
          exact ⟨rfl, rests⟩
      | varint | fixed32 | fixed64 => cases types

/-! ## Trees -/

/-- The bytes after the fields of a message: its end, or that of a group. -/
def Closes (rest : Bytes) : Prop :=
  rest = [] ∨ ∃ number more, FieldNumber number ∧ rest = tagBytes number .endGroup ++ more

/-- No field begins where a message ends. -/
theorem Closes.not_field {rest more : Bytes} (closes : Closes rest) {number : Nat}
    {wireType : WireType} (valid : FieldNumber number) (opens : wireType ≠ .endGroup)
    (same : rest = tagBytes number wireType ++ more) : False := by
  rcases closes with rfl | ⟨number', more', valid', rfl⟩
  · have positive := encodeU64_length_pos (number * 8 + wireType.toNat)
    have none := (List.append_eq_nil_iff.mp same.symm).1
    rw [show encodeU64 _ = [] from none] at positive
    exact absurd positive (Nat.lt_irrefl _)
  · exact opens (tagBytes_unique valid' valid same).2.1.symm

/-- A tree that is not empty begins with the tag of a field. -/
theorem FieldTree.bytes_cons {tree : FieldTree} (filled : tree ≠ .nil) (canonical : tree.Canonical)
    (rest : Bytes) :
    ∃ number wireType more, FieldNumber number ∧ wireType ≠ WireType.endGroup ∧
      tree.bytes ++ rest = tagBytes number wireType ++ more := by
  cases tree with
  | nil => exact absurd rfl filled
  | leaf field after =>
      refine ⟨field.number, field.wireType, field.value ++ (after.bytes ++ rest), ?_, ?_, ?_⟩
      · obtain ⟨leaf, _⟩ := canonical
        cases field <;> exact leaf.1
      · cases field <;> simp [FieldLeaf.wireType]
      · rw [FieldTree.bytes, FieldLeaf.bytes]
        simp only [List.append_assoc]
  | submessage number contents after =>
      refine ⟨number, .lengthDelimited, encodeU32 contents.bytes.length ++ contents.bytes ++
        (after.bytes ++ rest), canonical.1, by decide, ?_⟩
      rw [FieldTree.bytes, List.append_assoc, List.append_assoc]
  | group number contents after =>
      refine ⟨number, .startGroup, contents.bytes ++ tagBytes number .endGroup ++
        (after.bytes ++ rest), canonical.1, by decide, ?_⟩
      rw [FieldTree.bytes, List.append_assoc, List.append_assoc]

/-- The fields of a message, up to where it ends, are those of one tree only. -/
theorem FieldTree.parse_unique (tree : FieldTree) :
    ∀ {other : FieldTree} {level : Nat} {rest rest' : Bytes}, tree.Canonical → other.Canonical →
      tree.Decomposed level → other.Decomposed level → Closes rest → Closes rest' →
      tree.bytes ++ rest = other.bytes ++ rest' → tree = other ∧ rest = rest' := by
  have widen : u32Max ≤ u64Max := by decide
  have leafNumber {field : FieldLeaf} (canonical : field.Canonical) : FieldNumber field.number := by
    cases field <;> exact canonical.1
  -- a string is no submessage of the same bytes
  have apart {field : FieldLeaf} {level number : Nat} {contents : FieldTree} {rest rest' : Bytes}
      (canonical : field.Canonical) (short : contents.bytes.length ≤ u32Max)
      (whole : ∀ number bytes, field = .string number bytes → ¬ Decomposes level bytes)
      (decomposes : Decomposes level contents.bytes) (valid : FieldNumber number)
      (same : field.bytes ++ rest = tagBytes number .lengthDelimited ++
        (encodeU32 contents.bytes.length ++ contents.bytes) ++ rest') : False := by
    rw [FieldLeaf.bytes, List.append_assoc, List.append_assoc] at same
    obtain ⟨_, types, same⟩ := tagBytes_unique (leafNumber canonical) valid same
    cases field with
    | string number' bytes =>
        rw [FieldLeaf.value, List.append_assoc, List.append_assoc] at same
        obtain ⟨lengths, same⟩ :=
          encodeU64_unique (canonical.2.trans widen) (short.trans widen) same
        obtain ⟨rfl, _⟩ := List.append_inj same lengths
        exact whole number' _ rfl decomposes
    | varint | fixed32 | fixed64 => cases types
  induction tree with
  | nil =>
      intro other level rest rest' _ canonical' _ _ closes _ same
      by_cases empty : other = .nil
      · subst empty
        exact ⟨rfl, same⟩
      · obtain ⟨number, wireType, more, valid, opens, split⟩ := bytes_cons empty canonical' rest'
        exact (closes.not_field valid opens (same.trans split)).elim
  | leaf field after ih =>
      intro other level rest rest' canonical canonical' decomposed decomposed' closes closes' same
      cases other with
      | nil =>
          obtain ⟨number, wireType, more, valid, opens, split⟩ :=
            @bytes_cons (.leaf field after) (by simp) canonical rest
          exact (closes'.not_field valid opens (same.symm.trans split)).elim
      | leaf field' after' =>
          rw [FieldTree.bytes, FieldTree.bytes, FieldLeaf.bytes, FieldLeaf.bytes] at same
          simp only [List.append_assoc] at same
          obtain ⟨numbers, types, same⟩ :=
            tagBytes_unique (leafNumber canonical.1) (leafNumber canonical'.1) same
          obtain ⟨rfl, next⟩ :=
            FieldLeaf.value_unique canonical.1 canonical'.1 numbers types same
          obtain ⟨rfl, rests⟩ := ih canonical.2 canonical'.2 decomposed.2 decomposed'.2 closes
            closes' next
          exact ⟨rfl, rests⟩
      | submessage number contents after' =>
          rw [FieldTree.bytes, FieldTree.bytes, List.append_assoc, List.append_assoc _ _ rest'] at same
          exact (apart canonical.1 canonical'.2.1 decomposed.1 decomposed'.1 canonical'.1 same).elim
      | group number contents after' =>
          rw [FieldTree.bytes, FieldTree.bytes, FieldLeaf.bytes] at same
          simp only [List.append_assoc] at same
          obtain ⟨_, types, _⟩ := tagBytes_unique (leafNumber canonical.1) canonical'.1 same
          cases field <;> cases types
  | submessage number contents after inside later =>
      intro other level rest rest' canonical canonical' decomposed decomposed' closes closes' same
      cases other with
      | nil =>
          obtain ⟨number', wireType, more, valid, opens, split⟩ :=
            @bytes_cons (.submessage number contents after) (by simp) canonical rest
          exact (closes'.not_field valid opens (same.symm.trans split)).elim
      | leaf field after' =>
          rw [FieldTree.bytes, FieldTree.bytes, List.append_assoc, List.append_assoc _ _ rest'] at same
          exact (apart canonical'.1 canonical.2.1 decomposed'.1 decomposed.1 canonical.1
            same.symm).elim
      | submessage number' contents' after' =>
          rw [FieldTree.bytes, FieldTree.bytes] at same
          simp only [List.append_assoc] at same
          obtain ⟨rfl, _, same⟩ := tagBytes_unique canonical.1 canonical'.1 same
          obtain ⟨lengths, same⟩ :=
            encodeU64_unique (canonical.2.1.trans widen) (canonical'.2.1.trans widen) same
          obtain ⟨contentsSame, next⟩ := List.append_inj same lengths
          obtain ⟨rfl, _⟩ := @inside contents' (level + 1) [] [] canonical.2.2.1 canonical'.2.2.1
            decomposed.2.1 decomposed'.2.1 (.inl rfl) (.inl rfl) (by rw [contentsSame])
          obtain ⟨rfl, rests⟩ := later canonical.2.2.2 canonical'.2.2.2 decomposed.2.2
            decomposed'.2.2 closes closes' next
          exact ⟨rfl, rests⟩
      | group number' contents' after' =>
          rw [FieldTree.bytes, FieldTree.bytes] at same
          simp only [List.append_assoc] at same
          obtain ⟨_, types, _⟩ := tagBytes_unique canonical.1 canonical'.1 same
          cases types
  | group number contents after inside later =>
      intro other level rest rest' canonical canonical' decomposed decomposed' closes closes' same
      cases other with
      | nil =>
          obtain ⟨number', wireType, more, valid, opens, split⟩ :=
            @bytes_cons (.group number contents after) (by simp) canonical rest
          exact (closes'.not_field valid opens (same.symm.trans split)).elim
      | leaf field after' =>
          rw [FieldTree.bytes, FieldTree.bytes, FieldLeaf.bytes] at same
          simp only [List.append_assoc] at same
          obtain ⟨_, types, _⟩ := tagBytes_unique canonical.1 (leafNumber canonical'.1) same
          cases field <;> cases types
      | submessage number' contents' after' =>
          rw [FieldTree.bytes, FieldTree.bytes] at same
          simp only [List.append_assoc] at same
          obtain ⟨_, types, _⟩ := tagBytes_unique canonical.1 canonical'.1 same
          cases types
      | group number' contents' after' =>
          rw [FieldTree.bytes, FieldTree.bytes] at same
          simp only [List.append_assoc] at same
          obtain ⟨rfl, _, same⟩ := tagBytes_unique canonical.1 canonical'.1 same
          obtain ⟨rfl, next⟩ := inside canonical.2.1 canonical'.2.1 decomposed.1 decomposed'.1
            (.inr ⟨number, _, canonical.1, rfl⟩) (.inr ⟨number, _, canonical.1, rfl⟩) same
          obtain ⟨rfl, rests⟩ := later canonical.2.2 canonical'.2.2 decomposed.2 decomposed'.2
            closes closes' (List.append_cancel_left next)
          exact ⟨rfl, rests⟩

/-- A projection leaves one thing of a record. -/
theorem ProjectedRecord.unique {projection : FieldProjection} {record kept kept' : Bytes}
    (projected : ProjectedRecord projection record kept)
    (projected' : ProjectedRecord projection record kept') : kept = kept' := by
  cases projected with
  | @proto fields valid canonical decomposed =>
      generalize same : fields.bytes = record at projected'
      cases projected' with
      | @proto fields' _ canonical' decomposed' =>
          obtain ⟨rfl, _⟩ := @FieldTree.parse_unique fields fields' 0 [] [] canonical canonical'
            decomposed decomposed' (.inl rfl) (.inl rfl) (by rw [same])
          rfl
      | nonProto invalid =>
          rw [same, invalid] at valid
          cases valid
  | nonProto invalid =>
      generalize same : record = whole at projected'
      cases projected' with
      | proto valid =>
          rw [same, valid] at invalid
          cases invalid
      | nonProto _ => rfl

end Riegeli
