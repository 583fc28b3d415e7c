/-
Module: Riegeli.Spec.StreamDelivery
Purpose: What becomes of the records of a reader that are handed to field handlers:
  the messages go to the handlers field by field, the other records to the
  fallback.
Trusted boundary: the handlers
Main exports: messageFields, fallenBack, StreamEnding, StreamDelivered
-/
import Riegeli.Core.RecordStream
import Riegeli.Spec.FieldDelivery

namespace Riegeli

open RecordStream

variable {Handlers World : Type}

/-- The fields of a record that is a message. -/
def messageFields (record : Bytes) : List ProtoField :=
  if isProtoMessage record then
    match (ProtoFieldIter.new record).collect with
    | .ok fields => fields
    | .error _ => []
  else []

/-- What the fallback makes of the records that are no messages, with the first
record at this index. -/
def fallenBack (fallback : Option (Nat → Bytes → World → World)) :
    Nat → List Bytes → World → World
  | _, [], world => world
  | index, record :: rest, world =>
      fallenBack fallback (index + 1) rest
        (if isProtoMessage record then world else callFallback fallback index record world)

/-- How going through the records ends: as reading them does, or with a handler
that fails on the record at an index. -/
inductive StreamEnding where
  | closed
  | refused (index : Nat) (fault : Fault)
deriving Repr, DecidableEq

/-- What is returned then, where reading ends like this behind this many
records. -/
def StreamEnding.result (closing : Except Fault Unit) (count : Nat) :
    StreamEnding → Except StreamFault Unit
  | .closed => closing.mapError (StreamFault.at count)
  | .refused index fault => .error (.at index fault)

/-- Every handler stands where it stands alone on the fields of the messages, and
the fallback has seen the other records, up to the field on which a handler
fails. -/
structure StreamDelivered [HandleField Handlers] (fallback : Option (Nat → Bytes → World → World))
    (records : List Bytes) (before after : HandledRecords Handlers World) (ending : StreamEnding) :
    Prop where
  closed : ending = .closed →
    after.world = fallenBack fallback 0 records before.world ∧
      ∀ {Own : Type} (part : Part ProtoField Handlers Own Fault), part.Serves HandleField.dispatch →
        part.alone (records.flatMap messageFields) before.handlers = (.ok (), part.view after.handlers)
  refused : ∀ index fault, ending = .refused index fault →
    ∃ record front last behind, records[index]? = some record ∧
      messageFields record = front ++ last :: behind ∧
      after.world = fallenBack fallback 0 (records.take index) before.world ∧
      ∀ {Own : Type} (part : Part ProtoField Handlers Own Fault), part.Serves HandleField.dispatch →
        part.alone ((records.take index).flatMap messageFields ++ front ++ [last]) before.handlers =
          (if part.takes last then .error fault else .ok (), part.view after.handlers)

end Riegeli
