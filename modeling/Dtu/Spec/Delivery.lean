import Dtu.Framework.Outbox
import Dtu.Impl.MainSend
import Dtu.Spec.Batch

/-!
# Delivery of logged records

What `main_send_thread` is for: each record logged leaves its log once, in the order
of the log, acknowledged over 4G or BeiDou, or skipped where the device has become a node
of the mesh. Between the files and this view stands `Leaves`: the records that the
offset of a log leaves to be sent.
-/

namespace Dtu

/-- How records leave their logs. -/
inductive Way where
  | over4g
  | overBd
  | skipped
deriving DecidableEq

/-- The entries that are sent of records: over 4G what the 512-byte reader shows of
them, over BeiDou their data; those of less than two bytes are not sent. -/
def Way.entries : Way → List Record → List (List UInt8)
  | .over4g => shownEntries
  | .overBd => recordEntries
  | .skipped => fun _ => []

/-- The payload of a shipment of the logs, unless it is skipped. -/
def shipmentPayload (shipment : Shipment (Fin mainPathCount) Record Way) : Option (List UInt8) :=
  if shipment.kind = .skipped then none
  else some (joinRaw ((List.finRange mainPathCount).flatMap fun i => shipment.kind.entries (shipment.taken i)))

/-- The end of a line that the 512-byte reader has stopped in, or nothing. -/
def LineRest (text : List Char) : Prop :=
  text = [] ∨ ∃ r : Record, packLineSize - 1 < r.line.length ∧ text = r.line.drop (packLineSize - 1)

/-- An offset of a log leaves these records; it can be within the line of the one before. -/
structure Leaves (file : Option (List Char)) (offset : Nat) (rest : List Record) : Prop where
  offset_le : offset ≤ (file.getD []).length
  text : ∃ front, LineRest front ∧ (file.getD []).drop offset = front ++ logText rest

end Dtu
