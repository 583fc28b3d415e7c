/-
Module: Riegeli.Spec.FieldDelivery
Purpose: What becomes of the fields of a message that is read with handlers: how
  far reading comes, why it stops, and what each handler has seen by then.
Trusted boundary: the handlers
Main exports: ReadingEnd, MessageDelivered, staticPart1, staticPart2, staticPart3,
  DynamicHandlerSet.register, StaticHandlerSet3.dynamic, Demultiplexes
-/
import Riegeli.Core.FieldHandlers
import Riegeli.Library.Dispatch
import Riegeli.Proofs.FieldRoundTrip

namespace Riegeli

/-! ## Delivery -/

/-- Why reading a message stops: it has ended, its bytes are no further field, or
a handler has failed on the last field that was handed over. -/
inductive ReadingEnd where
  | finished
  | malformed (error : RiegeliError)
  | refused (fault : Fault)
deriving Repr, DecidableEq

/-- What `read_message` returns then. -/
def ReadingEnd.result : ReadingEnd → Rust Unit
  | .finished => .ok ()
  | .malformed error => .error (.error error)
  | .refused fault => .error fault

/-- The fields that were handed over, the bytes behind them, and why reading
stopped there. -/
structure MessageDelivered {Handlers : Type} [HandleField Handlers] (data : Bytes) (before after : Handlers)
    (seen : List ProtoField) (left : Bytes) (ending : ReadingEnd) : Prop where
  canonical : ∀ field ∈ seen, field.Canonical
  split : data = fieldsBytes seen ++ left
  finished : ending = .finished → left = []
  malformed : ∀ error, ending = .malformed error →
    (ProtoFieldIter.at' data (fieldsBytes seen).length).next.1 = some (.error error)
  handled : ∀ {Own : Type} (part : Part ProtoField Handlers Own Fault),
    part.Serves HandleField.dispatch →
      ((∀ fault, ending ≠ .refused fault) → part.alone seen before = (.ok (), part.view after)) ∧
      ∀ fault, ending = .refused fault → ∃ front last, seen = front ++ [last] ∧
        part.alone seen before =
          (if part.takes last then .error fault else .ok (), part.view after)

/-! ## The handlers of a static set -/

variable {H1 H2 H3 : Type}

/-- A handler takes the fields of its number. -/
def FieldHandler.takes (Handler : Type) [FieldHandler Handler] (field : ProtoField) : Bool :=
  field.fieldNumber == FieldHandler.fieldNumber Handler

/-- The first handler of a set of three. -/
def staticPart1 [FieldHandler H1] : Part ProtoField (StaticHandlerSet3 H1 H2 H3) H1 Fault :=
  { view := StaticHandlerSet3.h1
    takes := FieldHandler.takes H1
    handle := fun field => FieldHandler.handle field.value }

/-- The second one takes what the first one leaves. -/
def staticPart2 [FieldHandler H1] [FieldHandler H2] :
    Part ProtoField (StaticHandlerSet3 H1 H2 H3) H2 Fault :=
  { view := StaticHandlerSet3.h2
    takes := fun field => !FieldHandler.takes H1 field && FieldHandler.takes H2 field
    handle := fun field => FieldHandler.handle field.value }

/-- The third one takes what both leave. -/
def staticPart3 [FieldHandler H1] [FieldHandler H2] [FieldHandler H3] :
    Part ProtoField (StaticHandlerSet3 H1 H2 H3) H3 Fault :=
  { view := StaticHandlerSet3.h3
    takes := fun field =>
      !FieldHandler.takes H1 field && !FieldHandler.takes H2 field && FieldHandler.takes H3 field
    handle := fun field => FieldHandler.handle field.value }

/-! ## Static handlers in a dynamic set -/

/-- All methods of a static handler, registered in a dynamic set on what its
closures have captured of it. -/
def DynamicHandlerSet.register {World Handler : Type} [FieldHandler Handler]
    (get : World → Handler) (put : Handler → World → World) (set : DynamicHandlerSet World) :
    DynamicHandlerSet World :=
  let number := FieldHandler.fieldNumber Handler
  ((((((set.onVarint number fun value => Act.inside get put (FieldHandler.handleVarint value)
    ).onFixed32 number fun value => Act.inside get put (FieldHandler.handleFixed32 value)
    ).onFixed64 number fun value => Act.inside get put (FieldHandler.handleFixed64 value)
    ).onLengthDelimited number fun data => Act.inside get put (FieldHandler.handleLengthDelimited data)
    ).onStartGroup number (Act.inside get put FieldHandler.handleStartGroup)
    ).onEndGroup number (Act.inside get put FieldHandler.handleEndGroup))

/-- A static set of three as a dynamic one.  What is registered later replaces
what was registered before. -/
def StaticHandlerSet3.dynamic [FieldHandler H1] [FieldHandler H2] [FieldHandler H3]
    (set : StaticHandlerSet3 H1 H2 H3) : DynamicHandlerSet (StaticHandlerSet3 H1 H2 H3) :=
  let registered := DynamicHandlerSet.register StaticHandlerSet3.h3
    (fun h3 set => { set with h3 := h3 }) (DynamicHandlerSet.new set)
  let registered := DynamicHandlerSet.register StaticHandlerSet3.h2
    (fun h2 set => { set with h2 := h2 }) registered
  DynamicHandlerSet.register StaticHandlerSet3.h1 (fun h1 set => { set with h1 := h1 }) registered

/-- Reading the message with the set delivers its fields, each to the first handler
of its number and to no other.  A field that no handler takes is skipped.  The
dynamic set of the same handlers comes to the same. -/
structure Demultiplexes [FieldHandler H1] [FieldHandler H2] [FieldHandler H3] (data : Bytes)
    (set : StaticHandlerSet3 H1 H2 H3) : Prop where
  delivers : ∃ seen left ending, (readMessage data set).1 = ReadingEnd.result ending ∧
    MessageDelivered data set (readMessage data set).2 seen left ending
  first : (@staticPart1 H1 H2 H3 _).Serves (@HandleField.dispatch (StaticHandlerSet3 H1 H2 H3) _)
  second : (@staticPart2 H1 H2 H3 _ _).Serves (@HandleField.dispatch (StaticHandlerSet3 H1 H2 H3) _)
  third : (@staticPart3 H1 H2 H3 _ _ _).Serves
    (@HandleField.dispatch (StaticHandlerSet3 H1 H2 H3) _)
  skips : ∀ (field : ProtoField) (state : StaticHandlerSet3 H1 H2 H3),
    FieldHandler.takes H1 field = false → FieldHandler.takes H2 field = false →
      FieldHandler.takes H3 field = false → HandleField.dispatch field state = (.ok false, state)
  dynamic : readMessage data set.dynamic =
    ((readMessage data set).1, (readMessage data set).2.dynamic)

end Riegeli
