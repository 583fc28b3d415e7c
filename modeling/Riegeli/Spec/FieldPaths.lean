/-
Module: Riegeli.Spec.FieldPaths
Purpose: The paths of fields: through the nodes of the encoder, and through the
  submessages and groups of a record that the encoder takes apart.
Trusted boundary: none
Main exports: TransposeChunkEncoder.Numbered, TransposeChunkEncoder.PathOf,
  FieldTree.Decomposed, SpelledAt, SpelledRecords
-/
import Riegeli.Spec.FieldTrees

namespace Riegeli

namespace TransposeChunkEncoder

/-- The message id of a node. -/
def messageIdOf (encoder : TransposeChunkEncoder) (nodeId : NodeId) : Option Nat :=
  (encoder.messageNodes nodeId).map MessageNode.messageId

/-- Every node has a message id of its own, above that of the root. -/
structure Numbered (encoder : TransposeChunkEncoder) : Prop where
  rooted : MessageId.root < encoder.nextMessageId
  inside : ∀ {nodeId id}, encoder.messageIdOf nodeId = some id →
    MessageId.root < id ∧ id < encoder.nextMessageId
  once : ∀ {first second id}, encoder.messageIdOf first = some id →
    encoder.messageIdOf second = some id → first = second

/-- The nodes keep their message ids, and new ones get others. -/
structure KeepsIds (before after : TransposeChunkEncoder) : Prop where
  numbered : before.Numbered → after.Numbered
  kept : ∀ {nodeId id}, before.messageIdOf nodeId = some id → after.messageIdOf nodeId = some id

/-- The field numbers on the way from a record to the message with this id. -/
inductive PathOf (encoder : TransposeChunkEncoder) : Nat → List Nat → Prop where
  | root : PathOf encoder MessageId.root []
  | field {parent tag id : Nat} {path : List Nat} :
      PathOf encoder parent path →
      encoder.messageIdOf { parentMessageId := parent, tag := tag } = some id →
      PathOf encoder id (path ++ [tagFieldNumber tag])

variable {encoder before after : TransposeChunkEncoder} {id : Nat} {path : List Nat}

/-- A message id has one path. -/
theorem Numbered.path_unique (numbered : encoder.Numbered) (named : encoder.PathOf id path) :
    ∀ {other : List Nat}, encoder.PathOf id other → path = other := by
  induction named with
  | root =>
      intro other named
      generalize same : MessageId.root = id at named
      cases named with
      | root => rfl
      | field _ found => exact absurd same (Nat.ne_of_lt (numbered.inside found).1)
  | @field parent tag id path _ found ih =>
      intro other named
      cases named with
      | root => exact absurd rfl (Nat.ne_of_lt (numbered.inside found).1)
      | field named found' =>
          cases numbered.once found found'
          rw [ih named]

theorem PathOf.mono (keeps : KeepsIds before after) (named : before.PathOf id path) :
    after.PathOf id path := by
  induction named with
  | root => exact .root
  | field _ found ih => exact .field ih (keeps.kept found)

theorem KeepsIds.refl (encoder : TransposeChunkEncoder) : KeepsIds encoder encoder := ⟨id, id⟩

theorem KeepsIds.trans {first second third : TransposeChunkEncoder}
    (here : KeepsIds first second) (there : KeepsIds second third) : KeepsIds first third :=
  ⟨fun numbered => there.numbered (here.numbered numbered), fun found => there.kept (here.kept found)⟩

/-- What leaves the node map leaves the ids. -/
theorem KeepsIds.of_eq (nodes : after.messageNodes = before.messageNodes)
    (next : after.nextMessageId = before.nextMessageId) : KeepsIds before after := by
  have same (nodeId : NodeId) : after.messageIdOf nodeId = before.messageIdOf nodeId := by
    rw [messageIdOf, messageIdOf, nodes]
  refine ⟨fun numbered => ⟨?_, fun found => ?_, fun found found' => ?_⟩, fun found => ?_⟩
  · rw [next]
    exact numbered.rooted
  · rw [same] at found
    rw [next]
    exact numbered.inside found
  · rw [same] at found found'
    exact numbered.once found found'
  · rw [same]
    exact found

/-- Steps around that leave the node map leave the ids. -/
theorem KeepsIds.around {first second third fourth : TransposeChunkEncoder}
    (between : KeepsIds second third) (nodes : second.messageNodes = first.messageNodes)
    (next : second.nextMessageId = first.nextMessageId)
    (nodes' : fourth.messageNodes = third.messageNodes)
    (next' : fourth.nextMessageId = third.nextMessageId) : KeepsIds first fourth :=
  ((KeepsIds.of_eq nodes next).trans between).trans (KeepsIds.of_eq nodes' next')

end TransposeChunkEncoder

/-! ## Records taken apart -/

/-- The encoder takes the contents of a field apart when they are a message, are
not empty and do not lie too deep. -/
def Decomposes (level : Nat) (bytes : Bytes) : Prop :=
  0 < bytes.length ∧ level < maxRecursionDepth ∧ isProtoMessage bytes = true

/-- The submessages of the tree are just those that the encoder takes apart. -/
def FieldTree.Decomposed : Nat → FieldTree → Prop
  | _, .nil => True
  | level, .leaf field rest =>
      (∀ number bytes, field = .string number bytes → ¬ Decomposes level bytes) ∧
        rest.Decomposed level
  | level, .submessage _ contents rest =>
      Decomposes level contents.bytes ∧ contents.Decomposed (level + 1) ∧ rest.Decomposed level
  | level, .group _ contents rest => contents.Decomposed (level + 1) ∧ rest.Decomposed level

/-- The tags of the fields of a message, where the parents have the paths of the
fields around them. -/
inductive SpelledAt (names : Nat → List Nat → Prop) :
    List Nat → List TagOp → FieldTree → Prop where
  | nil {path : List Nat} : SpelledAt names path [] .nil
  | leaf {path : List Nat} {ops : List TagOp} {parent : Nat} {field : FieldLeaf}
      {rest : FieldTree} :
      names parent path → SpelledAt names path ops rest →
      SpelledAt names path (.leaf parent field :: ops) (.leaf field rest)
  | submessage {path : List Nat} {inner ops : List TagOp} {parent number : Nat}
      {contents rest : FieldTree} :
      SpelledAt names (path ++ [number]) inner contents → SpelledAt names path ops rest →
      SpelledAt names path
        (.startOfSubmessage parent number :: (inner ++ .endOfSubmessage parent number :: ops))
        (.submessage number contents rest)
  | group {path : List Nat} {inner ops : List TagOp} {parent own number : Nat}
      {contents rest : FieldTree} :
      SpelledAt names (path ++ [number]) inner contents → SpelledAt names path ops rest →
      SpelledAt names path (.startGroup parent number :: (inner ++ .endGroup own number :: ops))
        (.group number contents rest)

theorem SpelledAt.mono {names names' : Nat → List Nat → Prop}
    (wider : ∀ {id path}, names id path → names' id path) {path : List Nat} {ops : List TagOp}
    {tree : FieldTree} (spelled : SpelledAt names path ops tree) :
    SpelledAt names' path ops tree := by
  induction spelled with
  | nil => exact .nil
  | leaf named _ ih => exact .leaf (wider named) ih
  | submessage _ _ inside after => exact .submessage inside after
  | group _ _ inside after => exact .group inside after

/-- The tags of a record that the encoder has taken apart. -/
inductive SpelledRecord (names : Nat → List Nat → Prop) : List TagOp → Bytes → Prop where
  | proto {ops : List TagOp} {fields : FieldTree} :
      isProtoMessage fields.bytes = true → fields.Canonical → fields.Decomposed 0 →
      SpelledAt names [] ops fields → SpelledRecord names (.startOfMessage :: ops) fields.bytes
  | nonProto {record : Bytes} :
      isProtoMessage record = false → record ≠ [] → SpelledRecord names [.nonProto record] record

/-- The tags of a sequence of records that the encoder has taken apart. -/
inductive SpelledRecords (names : Nat → List Nat → Prop) : List TagOp → List Bytes → Prop where
  | nil : SpelledRecords names [] []
  | snoc {before ops : List TagOp} {records : List Bytes} {record : Bytes} :
      SpelledRecords names before records → SpelledRecord names ops record →
      SpelledRecords names (before ++ ops) (records ++ [record])

theorem SpelledRecords.mono {names names' : Nat → List Nat → Prop}
    (wider : ∀ {id path}, names id path → names' id path) {ops : List TagOp}
    {records : List Bytes} (spelled : SpelledRecords names ops records) :
    SpelledRecords names' ops records := by
  induction spelled with
  | nil => exact .nil
  | snoc _ last ih =>
      refine ih.snoc ?_
      cases last with
      | proto valid canonical decomposed spelled =>
          exact .proto valid canonical decomposed (spelled.mono wider)
      | nonProto invalid filled => exact .nonProto invalid filled

end Riegeli
