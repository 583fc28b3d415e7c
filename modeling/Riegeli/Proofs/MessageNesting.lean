/-
Module: Riegeli.Proofs.MessageNesting
Purpose: The message writer writes any tree of fields, each scope with the
  length of what is inside, and notices scopes that do not match.
Trusted boundary: none
Main exports: Scalar.field_canonical, MessageTree.writes, MessageTree.canonical,
  calls_scopes, messageWriter_nests
-/
import Riegeli.Spec.MessageTrees

namespace Riegeli

open SerializedMessageWriter

/-! ## One field -/

theorem zigzag_word32 (value : Int32) : (zigzagEncodeI32 value).toNat = zigzag value.toInt :=
  zigzag_word value.toBitVec

theorem zigzag_word64 (value : Int64) : (zigzagEncodeI64 value).toNat = zigzag value.toInt :=
  zigzag_word value.toBitVec

theorem toNat_word32 (value : Int32) :
    value.toUInt32.toNat = (value.toInt % 2 ^ 32).toNat :=
  toNat_word value.toBitVec

theorem toNat_word64 (value : Int64) :
    value.toUInt64.toNat = (value.toInt % 2 ^ 64).toNat :=
  toNat_word value.toBitVec

/-- The field of a scalar is one that a reader can yield. -/
theorem Scalar.field_canonical {number : Nat} (valid : FieldNumber number) (value : Scalar) :
    (value.field number).Canonical := by
  have word32 : ∀ word : UInt32, word.toNat < 2 ^ 32 := fun word => word.toNat_lt
  have word64 : ∀ word : UInt64, word.toNat < 2 ^ 64 := fun word => word.toNat_lt
  have varint : ∀ {given : Nat}, given < 2 ^ 64 →
      ProtoField.Canonical ⟨number, .varint, .varint given⟩ :=
    fun small => .varint valid (by unfold u64Max; omega)
  cases value with
  | uint64 value => exact varint (word64 value)
  | uint32 value => exact varint (Nat.lt_trans (word32 value) (by decide))
  | int64 value =>
      refine varint ?_
      rw [← toNat_word64]
      exact word64 _
  | int32 value =>
      refine varint ?_
      have small := word64 value.toInt64.toUInt64
      rw [toNat_word64, Int32.toInt_toInt64] at small
      exact small
  | sint32 value =>
      refine varint ?_
      rw [← zigzag_word32]
      exact Nat.lt_trans (word32 _) (by decide)
  | sint64 value =>
      refine varint ?_
      rw [← zigzag_word64]
      exact word64 _
  | bool value => exact varint (by split <;> decide)
  | fixed32 value => exact .fixed32 valid (word32 value)
  | fixed64 value => exact .fixed64 valid (word64 value)
  | sfixed32 value =>
      refine .fixed32 valid ?_
      rw [← toNat_word32]
      exact word32 _
  | sfixed64 value =>
      refine .fixed64 valid ?_
      rw [← toNat_word64]
      exact word64 _
  | float bits => exact .fixed32 valid (word32 bits)
  | double bits => exact .fixed64 valid (word64 bits)

/-- Writing a scalar appends the bytes of its field. -/
theorem writeScalar_run {number : Nat} (valid : FieldNumber number) (value : Scalar)
    (writer : SerializedMessageWriter) :
    writeScalar number value writer =
      (.ok (), { writer with buf := writer.buf ++ (value.field number).bytes }) := by
  have varint : ∀ {given : Nat}, writeVarint number given writer =
      (.ok (), { writer with
        buf := writer.buf ++ ProtoField.bytes ⟨number, .varint, .varint given⟩ }) := by
    intro given
    unfold writeVarint
    rw [Act.modify_run, encodeTag_eq valid, encodeVarint64, List.append_assoc]
    rfl
  have bits32 : ∀ {bits : UInt32}, writeLeBytes32 number bits writer =
      (.ok (), { writer with
        buf := writer.buf ++ ProtoField.bytes ⟨number, .fixed32, .fixed32 bits.toNat⟩ }) := by
    intro bits
    unfold writeLeBytes32
    rw [Act.modify_run, encodeTag_eq valid, List.append_assoc]
    rfl
  have bits64 : ∀ {bits : UInt64}, writeLeBytes64 number bits writer =
      (.ok (), { writer with
        buf := writer.buf ++ ProtoField.bytes ⟨number, .fixed64, .fixed64 bits.toNat⟩ }) := by
    intro bits
    unfold writeLeBytes64
    rw [Act.modify_run, encodeTag_eq valid, List.append_assoc]
    rfl
  cases value with
  | uint64 value => exact varint
  | uint32 value => exact varint
  | int64 value =>
      rw [writeScalar, writeInt64, varint, toNat_word64]
      rfl
  | int32 value =>
      rw [writeScalar, writeInt32, varint, toNat_word64, Int32.toInt_toInt64]
      rfl
  | sint32 value =>
      rw [writeScalar, writeSint32, varint,
        show (zigzagEncodeI32 value).toUInt64.toNat = (zigzagEncodeI32 value).toNat from rfl,
        zigzag_word32]
      rfl
  | sint64 value =>
      rw [writeScalar, writeSint64, varint, zigzag_word64]
      rfl
  | bool value => exact varint
  | fixed32 value => exact bits32
  | fixed64 value => exact bits64
  | sfixed32 value =>
      rw [writeScalar, writeSfixed32, bits32, toNat_word32]
      rfl
  | sfixed64 value =>
      rw [writeScalar, writeSfixed64, bits64, toNat_word64]
      rfl
  | float bits => exact bits32
  | double bits => exact bits64

/-- Writing a byte string appends the bytes of its field. -/
theorem writeBytes_run {number : Nat} (valid : FieldNumber number) {data : Bytes}
    (fits : data.length < 2 ^ 31) (writer : SerializedMessageWriter) :
    writeBytes number data writer =
      (.ok (), { writer with
        buf := writer.buf ++
          ProtoField.bytes ⟨number, .lengthDelimited, .lengthDelimited data⟩ }) := by
  have short : ¬ maxLengthDelimited < data.length := by
    unfold maxLengthDelimited
    omega
  unfold writeBytes
  rw [if_neg short, Act.modify_run, encodeTag_eq valid, encodeVarint32,
    Nat.mod_eq_of_lt (by omega), List.append_assoc, List.append_assoc]
  rfl

/-! ## Sequences of calls -/

theorem calls_append (first second : List WriterCall) (writer : SerializedMessageWriter) :
    SerializedMessageWriter.calls (first ++ second) writer =
      ((SerializedMessageWriter.calls first writer).1 ++
          (SerializedMessageWriter.calls second (SerializedMessageWriter.calls first writer).2).1,
        (SerializedMessageWriter.calls second
          (SerializedMessageWriter.calls first writer).2).2) := by
  induction first generalizing writer with
  | nil => rfl
  | cons step rest ih =>
      simp only [List.cons_append, SerializedMessageWriter.calls, ih]

/-- These calls succeed and append these bytes. -/
def Appends (calls : List WriterCall) (bytes : Bytes) : Prop :=
  ∀ writer, (∀ result ∈ (SerializedMessageWriter.calls calls writer).1, result = .ok ()) ∧
    (SerializedMessageWriter.calls calls writer).2 = { writer with buf := writer.buf ++ bytes }

theorem Appends.nil : Appends [] [] := by
  intro writer
  refine ⟨List.forall_mem_nil _, ?_⟩
  rw [List.append_nil]
  rfl

/-- A call that appends its bytes, and the calls after it. -/
theorem Appends.cons {step : WriterCall} {rest : List WriterCall} {bytes more : Bytes}
    (here : ∀ writer, call step writer = (.ok (), { writer with buf := writer.buf ++ bytes }))
    (later : Appends rest more) : Appends (step :: rest) (bytes ++ more) := by
  intro writer
  obtain ⟨results, after⟩ := later { writer with buf := writer.buf ++ bytes }
  rw [SerializedMessageWriter.calls, here writer]
  refine ⟨List.forall_mem_cons.mpr ⟨rfl, results⟩, ?_⟩
  rw [after, List.append_assoc]

theorem Appends.append {first second : List WriterCall} {bytes more : Bytes}
    (here : Appends first bytes) (later : Appends second more) :
    Appends (first ++ second) (bytes ++ more) := by
  intro writer
  obtain ⟨results, after⟩ := here writer
  obtain ⟨others, final⟩ := later { writer with buf := writer.buf ++ bytes }
  rw [calls_append, after]
  refine ⟨List.forall_mem_append.mpr ⟨results, others⟩, ?_⟩
  rw [final, List.append_assoc]

/-- A scope puts the length of what is inside in front of it. -/
theorem Appends.scope {number : Nat} {inner rest : List WriterCall} {contents more : Bytes}
    (valid : FieldNumber number) (fits : contents.length < 2 ^ 31)
    (within : Appends inner contents) (later : Appends rest more) :
    Appends (.openLengthDelimited number :: (inner ++ .closeLengthDelimited :: rest))
      (ProtoField.bytes ⟨number, .lengthDelimited, .lengthDelimited contents⟩ ++ more) := by
  intro writer
  have start := encodeTag_eq valid .lengthDelimited writer.buf
  obtain ⟨results, filled⟩ := within
    { buf := writer.buf ++ tagBytes number .lengthDelimited
      scopeStack := (writer.buf ++ tagBytes number .lengthDelimited).length :: writer.scopeStack }
  have closed : closeLengthDelimited
      { buf := writer.buf ++ tagBytes number .lengthDelimited ++ contents
        scopeStack :=
          (writer.buf ++ tagBytes number .lengthDelimited).length :: writer.scopeStack } =
      (.ok (),
        { writer with
          buf := writer.buf ++
            ProtoField.bytes ⟨number, .lengthDelimited, .lengthDelimited contents⟩ }) := by
    have reach : (writer.buf ++ tagBytes number .lengthDelimited ++ contents).length =
        (writer.buf ++ tagBytes number .lengthDelimited).length + contents.length :=
      List.length_append
    unfold closeLengthDelimited
    simp only
    rw [subWord_eq (by omega), reach, Nat.add_sub_cancel_left]
    simp only
    rw [if_neg (by unfold maxLengthDelimited; omega), List.take_left, List.drop_left,
      Nat.mod_eq_of_lt (by omega)]
    simp only [encodeVarint32, List.nil_append, ProtoField.bytes, FieldValue.bytes,
      List.append_assoc]
  obtain ⟨others, final⟩ := later
    { writer with
      buf := writer.buf ++
        ProtoField.bytes ⟨number, .lengthDelimited, .lengthDelimited contents⟩ }
  have opened : call (.openLengthDelimited number) writer =
      (.ok (),
        { buf := writer.buf ++ tagBytes number .lengthDelimited
          scopeStack :=
            (writer.buf ++ tagBytes number .lengthDelimited).length :: writer.scopeStack }) := by
    simp only [call, openLengthDelimited, Act.modify_run, start]
  rw [SerializedMessageWriter.calls, opened]
  simp only
  rw [calls_append, filled, SerializedMessageWriter.calls]
  simp only [call]
  rw [closed]
  refine ⟨List.forall_mem_cons.mpr ⟨rfl, List.forall_mem_append.mpr
    ⟨results, List.forall_mem_cons.mpr ⟨rfl, others⟩⟩⟩, ?_⟩
  simp only
  rw [final, List.append_assoc]

/-! ## Trees -/

theorem fieldsBytes_append (first second : List ProtoField) :
    fieldsBytes (first ++ second) = fieldsBytes first ++ fieldsBytes second :=
  List.flatMap_append

/-- Start and end tags append their bytes. -/
theorem writeGroupTag_run {number : Nat} (valid : FieldNumber number)
    (writer : SerializedMessageWriter) :
    call (.startGroup number) writer =
        (.ok (), { writer with
          buf := writer.buf ++ ProtoField.bytes ⟨number, .startGroup, .startGroup⟩ }) ∧
      call (.endGroup number) writer =
        (.ok (), { writer with
          buf := writer.buf ++ ProtoField.bytes ⟨number, .endGroup, .endGroup⟩ }) := by
  constructor
  · simp only [call, writeStartGroup, Act.modify_run, encodeTag_eq valid, ProtoField.bytes,
      FieldValue.bytes, List.append_nil]
  · simp only [call, writeEndGroup, Act.modify_run, encodeTag_eq valid, ProtoField.bytes,
      FieldValue.bytes, List.append_nil]

namespace MessageTree

/-- The calls of a tree append its fields. -/
theorem appends : ∀ {tree : MessageTree}, tree.Numbered → tree.ScopesFit → tree.StringsFit →
    Appends tree.calls tree.serialized
  | .nil, _, _, _ => Appends.nil
  | .scalar _ value _, ⟨valid, numbered⟩, scopes, strings =>
      (appends numbered scopes strings).cons (writeScalar_run valid value)
  | .bytes _ _ _, ⟨valid, numbered⟩, scopes, ⟨fits, strings⟩ =>
      (appends numbered scopes strings).cons (writeBytes_run valid fits)
  | .string _ _ _, ⟨valid, numbered⟩, scopes, ⟨fits, strings⟩ =>
      (appends numbered scopes strings).cons (writeBytes_run valid fits)
  | .scope _ _ _, ⟨valid, inner, numbered⟩, ⟨fits, innerScopes, scopes⟩,
      ⟨innerStrings, strings⟩ =>
      Appends.scope valid fits (appends inner innerScopes innerStrings)
        (appends numbered scopes strings)
  | .group number contents rest, ⟨valid, inner, numbered⟩, ⟨innerScopes, scopes⟩,
      ⟨innerStrings, strings⟩ => by
      have after := (appends numbered scopes strings).cons
        fun writer => (writeGroupTag_run valid writer).2
      have whole := ((appends inner innerScopes innerStrings).append after).cons
        fun writer => (writeGroupTag_run valid writer).1
      have bytes : (MessageTree.group number contents rest).serialized =
          ProtoField.bytes ⟨number, .startGroup, .startGroup⟩ ++
            (contents.serialized ++
              (ProtoField.bytes ⟨number, .endGroup, .endGroup⟩ ++ rest.serialized)) := by
        simp only [serialized, fields, fieldsBytes_cons, fieldsBytes_append]
      rw [bytes]
      exact whole

/-- The fields of a tree are ones that a reader can yield. -/
theorem fields_canonical : ∀ {tree : MessageTree}, tree.Numbered → tree.ScopesFit →
    tree.StringsFit → ∀ field ∈ tree.fields, field.Canonical
  | .nil, _, _, _ => List.forall_mem_nil _
  | .scalar _ value _, ⟨valid, numbered⟩, scopes, strings =>
      List.forall_mem_cons.mpr
        ⟨value.field_canonical valid, fields_canonical numbered scopes strings⟩
  | .bytes _ _ _, ⟨valid, numbered⟩, scopes, ⟨fits, strings⟩ =>
      List.forall_mem_cons.mpr
        ⟨.lengthDelimited valid (by unfold u32Max; omega), fields_canonical numbered scopes strings⟩
  | .string _ _ _, ⟨valid, numbered⟩, scopes, ⟨fits, strings⟩ =>
      List.forall_mem_cons.mpr
        ⟨.lengthDelimited valid (by unfold u32Max; omega), fields_canonical numbered scopes strings⟩
  | .scope _ contents _, ⟨valid, _, numbered⟩, ⟨fits, _, scopes⟩, ⟨_, strings⟩ =>
      List.forall_mem_cons.mpr
        ⟨.lengthDelimited valid (by unfold serialized at fits; unfold u32Max; omega),
          fields_canonical numbered scopes strings⟩
  | .group _ _ _, ⟨valid, inner, numbered⟩, ⟨innerScopes, scopes⟩, ⟨innerStrings, strings⟩ =>
      List.forall_mem_cons.mpr
        ⟨.startGroup valid, List.forall_mem_append.mpr
          ⟨fields_canonical inner innerScopes innerStrings, List.forall_mem_cons.mpr
            ⟨.endGroup valid, fields_canonical numbered scopes strings⟩⟩⟩

/-- The groups of a tree are balanced. -/
theorem fields_balanced : ∀ (tree : MessageTree) (groups : List Nat),
    openGroups groups tree.fields = some groups
  | .nil, _ => rfl
  | .scalar _ value rest, groups => by
      cases value <;> exact fields_balanced rest groups
  | .bytes _ _ rest, groups => fields_balanced rest groups
  | .string _ _ rest, groups => fields_balanced rest groups
  | .scope _ _ rest, groups => fields_balanced rest groups
  | .group number contents rest, groups => by
      change openGroups (number :: groups) (contents.fields ++ _) = _
      rw [openGroups_append _ (fields_balanced contents (number :: groups))]
      change ((if number = number then some groups else none).bind fun after =>
        openGroups after rest.fields) = _
      rw [if_pos rfl]
      exact fields_balanced rest groups

/-- A tree is written and read back. -/
theorem writes {tree : MessageTree} (numbered : tree.Numbered) (scopes : tree.ScopesFit)
    (strings : tree.StringsFit) : WritesTree tree := by
  obtain ⟨results, after⟩ := appends numbered scopes strings SerializedMessageWriter.new
  have collected : (ProtoFieldIter.new tree.serialized).collect = .ok tree.fields := by
    refine collectLoop_complete (fields_canonical numbered scopes strings) ?_ ?_ (Nat.succ_pos _)
    · rw [List.drop_zero]
      rfl
    · exact Nat.lt_succ_self _
  refine ⟨results, ?_, ?_, collected⟩
  · rw [after]
    rfl
  · exact (isProtoMessage_iff_balanced _).mpr ⟨tree.fields, collected, fields_balanced tree []⟩

end MessageTree

/-! ## Scopes -/

theorem writeScalar_scopes (number : Nat) (value : Scalar) (writer : SerializedMessageWriter) :
    (writeScalar number value writer).2.scopeStack = writer.scopeStack := by
  cases value <;> rfl

theorem writeBytes_scopes (number : Nat) (data : Bytes) (writer : SerializedMessageWriter) :
    (writeBytes number data writer).2.scopeStack = writer.scopeStack := by
  unfold writeBytes
  split <;> rfl

/-- What a call does to the scopes that are open. -/
theorem call_scopes (step : WriterCall) (writer : SerializedMessageWriter)
    (rest : List (WriterCall × Except Fault Unit)) :
    openScopes writer.scopeStack.length ((step, (call step writer).1) :: rest) =
      openScopes (call step writer).2.scopeStack.length rest := by
  cases step with
  | scalar number value =>
      simp only [call]
      rw [writeScalar_scopes, openScopes]
      · nofun
      · nofun
  | bytes number data =>
      simp only [call]
      rw [writeBytes_scopes, openScopes]
      · nofun
      · nofun
  | string number text =>
      simp only [call, writeString]
      rw [writeBytes_scopes, openScopes]
      · nofun
      · nofun
  | openLengthDelimited number => rfl
  | closeLengthDelimited =>
      simp only [call, closeLengthDelimited]
      cases stack : writer.scopeStack with
      | nil =>
          simp only [stack]
          rfl
      | cons contentStart outer =>
          simp only
          cases subWord writer.buf.length contentStart with
          | error fault => simp only [stack]; rfl
          | ok contentLen =>
              by_cases long : maxLengthDelimited < contentLen
              · simp only [if_pos long, stack]
                rfl
              · simp only [if_neg long]
                rfl
  | startGroup number => rfl
  | endGroup number => rfl
  | field field => rfl

/-- The scopes that the writer holds are those left open. -/
theorem calls_scopes {calls : List WriterCall} :
    ∀ {writer : SerializedMessageWriter},
      openScopes writer.scopeStack.length
          (calls.zip (SerializedMessageWriter.calls calls writer).1) =
        (SerializedMessageWriter.calls calls writer).2.scopeStack.length := by
  induction calls with
  | nil => intro writer; rfl
  | cons step rest ih =>
      intro writer
      exact (call_scopes step writer _).trans ih

theorem guardsScopes (calls : List WriterCall) : GuardsScopes calls := by
  have open' := @calls_scopes calls SerializedMessageWriter.new
  refine ⟨fun none => ?_, fun some => ?_⟩
  · have empty := List.length_eq_zero_iff.mp (open'.symm.trans none)
    unfold closeLengthDelimited
    rw [empty]
    exact ⟨_, rfl⟩
  · have left := lt_of_lt_of_eq some open'
    unfold finish
    rw [if_pos (List.ne_nil_of_length_pos left)]
    exact ⟨_, rfl⟩

/-- The writer writes every tree whose scopes and byte strings fit, and no
sequence of calls gets past scopes that do not match. -/
theorem messageWriter_nests :
    (∀ tree : MessageTree, tree.Numbered → tree.ScopesFit → tree.StringsFit → WritesTree tree) ∧
      ∀ calls, GuardsScopes calls :=
  ⟨fun _ numbered scopes strings => MessageTree.writes numbered scopes strings, guardsScopes⟩

/-- A scope in a group in a scope, with fields behind and inside them. -/
def nestedTree : MessageTree :=
  .scope 1
    (.group 2 (.scope 3 (.scalar 1 (.uint64 150) .nil) (.bytes 4 [255] .nil))
      (.scalar 6 (.bool true) .nil))
    (.string 5 "ab" .nil)

/-- The tree is written, and neither a close too many nor a scope left open goes
unnoticed. -/
theorem messageWriter_nests_nested :
    WritesTree nestedTree ∧
      nestedTree.serialized = [10, 12, 19, 26, 3, 8, 150, 1, 34, 1, 255, 20, 48, 1, 42, 2, 97, 98] ∧
      GuardsScopes [.openLengthDelimited 1, .closeLengthDelimited] ∧
      GuardsScopes [.openLengthDelimited 1, .startGroup 2, .openLengthDelimited 3] := by
  obtain ⟨writes, guards⟩ := messageWriter_nests
  have numbered : nestedTree.Numbered := by
    simp [nestedTree, MessageTree.Numbered, FieldNumber]
  have scopes : nestedTree.ScopesFit := by
    refine ⟨?_, ⟨⟨?_, trivial, trivial⟩, trivial⟩, trivial⟩
    · decide +kernel
    · decide +kernel
  have strings : nestedTree.StringsFit :=
    ⟨⟨⟨trivial, by decide, trivial⟩, trivial⟩, by decide +kernel, trivial⟩
  exact ⟨writes nestedTree numbered scopes strings, by decide +kernel, guards _, guards _⟩

/-- A byte string of 2 GiB outside every scope. -/
def longString : MessageTree := .bytes 1 (List.replicate (2 ^ 31) 0) .nil

theorem longString_refused :
    ¬ ((∀ tree : MessageTree, tree.Numbered → tree.ScopesFit → WritesTree tree) ∧
      ∀ calls, GuardsScopes calls) := by
  rintro ⟨writes, _⟩
  obtain ⟨results, _⟩ := writes longString ⟨⟨by decide, by decide⟩, trivial⟩ trivial
  have long : maxLengthDelimited < (List.replicate (2 ^ 31) (0 : UInt8)).length := by
    rw [List.length_replicate]
    decide
  have refused : call (.bytes 1 (List.replicate (2 ^ 31) 0)) SerializedMessageWriter.new =
      (.error (tooLong (List.replicate (2 ^ 31) (0 : UInt8)).length),
        SerializedMessageWriter.new) := by
    simp only [call, writeBytes]
    rw [if_pos long]
    rfl
  have first := results (.error (tooLong (List.replicate (2 ^ 31) (0 : UInt8)).length)) (by
    rw [longString, MessageTree.calls, SerializedMessageWriter.calls, refused]
    exact List.mem_cons_self)
  cases first

end Riegeli
