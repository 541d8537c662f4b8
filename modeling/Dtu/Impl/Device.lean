import Dtu.Impl.Delivery
import Dtu.Impl.Ingest

/-!
# The threads of a device together

What `write_file_thread` logs of `Ingest` is what `main_send_thread` of `Delivery` finds in
its logs. While a BeiDou segment is under way the other threads go on; at other times
they do between two iterations, and not in the middle of a commit, whose `save_offsets` does
not fail. The device can restart between two iterations: the FIFO and what the threads have in
hand is gone, the disk stays.
-/

namespace Dtu

/-- `paths` of `main_send_thread`, with `DEBUG` defined. -/
def mainPath : Fin mainPathCount → LogPath := fun i =>
  match i with
  | 0 => .rs485
  | 1 => .rs232
  | 2 => .lora
  | 3 => .bt

/-- What has been logged in `s'` since `s`. -/
def Ingest.loggedSince (s s' : Ingest) (i : Fin mainPathCount) : List Record :=
  (s'.log (mainPath i)).drop (s.log (mainPath i)).length

/-- The threads of the present life, `main_send_thread` and the disk, and how the threads were
at the end of each life before. -/
structure Device where
  ingest : Ingest
  delivery : Delivery
  past : List Ingest

namespace Device

/-- A device that has not logged anything starts. -/
def blank (fifoBuffer : Vector UInt8 fifoSize) : Device where
  ingest := .boot fifoBuffer
  delivery := .blank
  past := []

/-- All lives, the present one last. -/
def lives (s : Device) : List Ingest := s.past ++ [s.ingest]

end Device

/-- What happens next: a step of the threads of `Ingest`; an iteration of `main_send_thread` with its
whole commit, and what those do while it sends over BeiDou, or else behind it; or the device
restarts. -/
inductive DeviceAction where
  | ingest (a : IngestAction)
  | turn (t : Turn) (actions : List IngestAction)
  | restart (fifoBuffer : Vector UInt8 fifoSize)

namespace Device

/-- The lines appended to the logs. -/
def append (s : Device) (ingest : Ingest) (appended : Fin mainPathCount → List Record) : Option (Device × Unit) :=
  (s.delivery.step (.append appended)).map fun (delivery, _) => ({ s with ingest, delivery }, ())

def step (s : Device) : DeviceAction → Option (Device × Unit)
  | .ingest a => (s.ingest.step a).bind fun (ingest, _) => s.append ingest (s.ingest.loggedSince ingest)
  | .turn t actions =>
    (runList Ingest.step (fun _ _ => true) s.ingest actions).bind fun ingest =>
      let t := { t with appended := s.ingest.loggedSince ingest }
      (s.delivery.step (.turn t)).bind fun (delivery, _) =>
        { s with delivery }.append ingest fun i => (t.appended i).drop (s.delivery.main.appendedIn t i).length
  | .restart fifoBuffer => (s.delivery.step .restart).map fun (delivery, _) =>
    ({ ingest := .boot fifoBuffer
       delivery
       past := s.past ++ [s.ingest] }, ())

/-- The device does not become a node between packing and sending over 4G. -/
def NodeInTurn (s : Device) : DeviceAction → Prop
  | .ingest _ => True
  | .turn t _ => s.delivery.NodeInTurn (.turn t)
  | .restart _ => True

instance (s : Device) (a : DeviceAction) : Decidable (s.NodeInTurn a) :=
  match a with
  | .ingest _ => isTrue trivial
  | .turn t _ => inferInstanceAs (Decidable (s.delivery.NodeInTurn (.turn t)))
  | .restart _ => isTrue trivial

end Device

end Dtu
