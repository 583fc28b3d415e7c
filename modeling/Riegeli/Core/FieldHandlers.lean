/-
Module: Riegeli.Core.FieldHandlers
Purpose: The field handlers of `proto/handler.rs`: static and dynamic handler
  sets, and `read_message`.
Trusted boundary: the handlers
Main exports: FieldHandler, HandleField, dispatchToHandler, StaticHandlerSet1,
  StaticHandlerSet2, StaticHandlerSet3, DynamicHandlerSet, EmptyHandlerSet,
  readMessage
-/
import Riegeli.Core.FieldIteration

namespace Riegeli

/-- `HandleField`. -/
class HandleField (Handlers : Type) where
  dispatch : ProtoField → Act Handlers Fault Bool

/-- `FieldHandler`, with the defaults of its methods. -/
class FieldHandler (Handler : Type) where
  fieldNumber : Nat
  handleVarint : Nat → Act Handler Fault Unit := fun _ => pure ()
  handleFixed32 : Nat → Act Handler Fault Unit := fun _ => pure ()
  handleFixed64 : Nat → Act Handler Fault Unit := fun _ => pure ()
  handleLengthDelimited : Bytes → Act Handler Fault Unit := fun _ => pure ()
  handleStartGroup : Act Handler Fault Unit := pure ()
  handleEndGroup : Act Handler Fault Unit := pure ()

/-- The method for a value. -/
def FieldHandler.handle {Handler : Type} [FieldHandler Handler] :
    FieldValue → Act Handler Fault Unit
  | .varint value => FieldHandler.handleVarint value
  | .fixed32 value => FieldHandler.handleFixed32 value
  | .fixed64 value => FieldHandler.handleFixed64 value
  | .lengthDelimited data => FieldHandler.handleLengthDelimited data
  | .startGroup => FieldHandler.handleStartGroup
  | .endGroup => FieldHandler.handleEndGroup

/-- `dispatch_to_handler`. -/
def dispatchToHandler {Handler : Type} [FieldHandler Handler] (field : ProtoField) :
    Act Handler Fault Bool :=
  if field.fieldNumber ≠ FieldHandler.fieldNumber Handler then pure false
  else do
    FieldHandler.handle field.value
    pure true

/-- A method on a field of `self`. -/
def Act.inside {Whole Handler Value : Type} (get : Whole → Handler) (put : Handler → Whole → Whole)
    (method : Act Handler Fault Value) : Act Whole Fault Value :=
  fun whole => ((method (get whole)).1, put (method (get whole)).2 whole)

variable {H1 H2 H3 : Type}

/-! ## Static handler sets -/

/-- `StaticHandlerSet1`. -/
structure StaticHandlerSet1 (H1 : Type) where
  h1 : H1
deriving Repr, DecidableEq

/-- `StaticHandlerSet2`. -/
structure StaticHandlerSet2 (H1 H2 : Type) where
  h1 : H1
  h2 : H2
deriving Repr, DecidableEq

/-- `StaticHandlerSet3`. -/
structure StaticHandlerSet3 (H1 H2 H3 : Type) where
  h1 : H1
  h2 : H2
  h3 : H3
deriving Repr, DecidableEq

/-- `StaticHandlerSet::new`. -/
def StaticHandlerSet.new (h1 : H1) : StaticHandlerSet1 H1 := { h1 := h1 }

/-- `StaticHandlerSet1::and`. -/
def StaticHandlerSet1.and (set : StaticHandlerSet1 H1) (h2 : H2) : StaticHandlerSet2 H1 H2 :=
  { h1 := set.h1, h2 := h2 }

/-- `StaticHandlerSet2::and`. -/
def StaticHandlerSet2.and (set : StaticHandlerSet2 H1 H2) (h3 : H3) : StaticHandlerSet3 H1 H2 H3 :=
  { h1 := set.h1, h2 := set.h2, h3 := h3 }

instance [FieldHandler H1] : HandleField (StaticHandlerSet1 H1) where
  dispatch field :=
    Act.inside StaticHandlerSet1.h1 (fun h1 set => { set with h1 := h1 }) (dispatchToHandler field)

instance [FieldHandler H1] [FieldHandler H2] : HandleField (StaticHandlerSet2 H1 H2) where
  dispatch field := do
    let handled ← Act.inside StaticHandlerSet2.h1 (fun h1 set => { set with h1 := h1 })
      (dispatchToHandler field)
    if handled then pure true
    else
      Act.inside StaticHandlerSet2.h2 (fun h2 set => { set with h2 := h2 }) (dispatchToHandler field)

instance [FieldHandler H1] [FieldHandler H2] [FieldHandler H3] :
    HandleField (StaticHandlerSet3 H1 H2 H3) where
  dispatch field := do
    let handled ← Act.inside StaticHandlerSet3.h1 (fun h1 set => { set with h1 := h1 })
      (dispatchToHandler field)
    if handled then pure true
    else do
      let handled ← Act.inside StaticHandlerSet3.h2 (fun h2 set => { set with h2 := h2 })
        (dispatchToHandler field)
      if handled then pure true
      else
        Act.inside StaticHandlerSet3.h3 (fun h3 set => { set with h3 := h3 })
          (dispatchToHandler field)

/-! ## Dynamic handler sets -/

/-- `DynamicHandlerKey`. -/
abbrev DynamicHandlerKey := Nat × Nat

/-- `DynamicHandlerSet`, with what its closures have captured. -/
structure DynamicHandlerSet (World : Type) where
  handlers : List (DynamicHandlerKey × (FieldValue → Act World Fault Unit))
  world : World

namespace DynamicHandlerSet

variable {World : Type}

/-- `DynamicHandlerSet::new`. -/
def new (world : World) : DynamicHandlerSet World := { handlers := [], world := world }

/-- `self.handlers.insert(key, handler)`. -/
def insert (key : DynamicHandlerKey) (handler : FieldValue → Act World Fault Unit)
    (set : DynamicHandlerSet World) : DynamicHandlerSet World :=
  { set with handlers := (key, handler) :: set.handlers.filter fun entry => entry.1 != key }

/-- `self.handlers.get_mut(&key)`. -/
def lookup (set : DynamicHandlerSet World) (key : DynamicHandlerKey) :
    Option (FieldValue → Act World Fault Unit) :=
  (set.handlers.find? fun entry => entry.1 == key).map Prod.snd

/-- `on_varint`. -/
def onVarint (fieldNumber : Nat) (handler : Nat → Act World Fault Unit) :
    DynamicHandlerSet World → DynamicHandlerSet World :=
  insert (fieldNumber, WireType.varint.toNat) fun
    | .varint value => handler value
    | _ => pure ()

/-- `on_fixed32`. -/
def onFixed32 (fieldNumber : Nat) (handler : Nat → Act World Fault Unit) :
    DynamicHandlerSet World → DynamicHandlerSet World :=
  insert (fieldNumber, WireType.fixed32.toNat) fun
    | .fixed32 value => handler value
    | _ => pure ()

/-- `on_fixed64`. -/
def onFixed64 (fieldNumber : Nat) (handler : Nat → Act World Fault Unit) :
    DynamicHandlerSet World → DynamicHandlerSet World :=
  insert (fieldNumber, WireType.fixed64.toNat) fun
    | .fixed64 value => handler value
    | _ => pure ()

/-- `on_length_delimited`. -/
def onLengthDelimited (fieldNumber : Nat) (handler : Bytes → Act World Fault Unit) :
    DynamicHandlerSet World → DynamicHandlerSet World :=
  insert (fieldNumber, WireType.lengthDelimited.toNat) fun
    | .lengthDelimited data => handler data
    | _ => pure ()

/-- `on_start_group`. -/
def onStartGroup (fieldNumber : Nat) (handler : Act World Fault Unit) :
    DynamicHandlerSet World → DynamicHandlerSet World :=
  insert (fieldNumber, WireType.startGroup.toNat) fun
    | .startGroup => handler
    | _ => pure ()

/-- `on_end_group`. -/
def onEndGroup (fieldNumber : Nat) (handler : Act World Fault Unit) :
    DynamicHandlerSet World → DynamicHandlerSet World :=
  insert (fieldNumber, WireType.endGroup.toNat) fun
    | .endGroup => handler
    | _ => pure ()

end DynamicHandlerSet

instance {World : Type} : HandleField (DynamicHandlerSet World) where
  dispatch field := do
    let set ← Act.get
    match set.lookup (field.fieldNumber, field.wireType.toNat) with
    | some handler => do
        Act.inside DynamicHandlerSet.world (fun world set => { set with world := world })
          (handler field.value)
        pure true
    | none => pure false

/-- `EmptyHandlerSet`. -/
structure EmptyHandlerSet where
deriving Repr, DecidableEq

instance : HandleField EmptyHandlerSet where
  dispatch _ := pure false

/-! ## Reading a message -/

/-- The loop of `read_message`. -/
def readMessageLoop {Handlers : Type} [HandleField Handlers] : Nat → ProtoFieldIter → Act Handlers Fault Unit
  | 0, _ => Act.fail .outOfFuel
  | fuel + 1, iter =>
      match iter.next with
      | (none, _) => pure ()
      | (some (.error error), _) => Act.fail (.error error)
      | (some (.ok field), iter) => do
          let _ ← HandleField.dispatch field
          readMessageLoop fuel iter

/-- `read_message`.  Every field takes at least the byte of its tag. -/
def readMessage {Handlers : Type} [HandleField Handlers] (data : Bytes) : Act Handlers Fault Unit :=
  readMessageLoop (data.length + 1) (ProtoFieldIter.new data)

end Riegeli
