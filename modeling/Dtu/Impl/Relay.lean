import Dtu.Framework.Flood
import Dtu.Impl.Lora

/-!
# A frame in a network of devices

Devices that all run `lora_receive_thread`, and what becomes of one frame that one of
them sends: each transmission of it reaches the devices that hear the sender, or some
of them, at any time, and each device does with it what the thread does
(`loraReceive`).
-/

namespace Dtu

/-- The configurations of the devices of a network, and which of them hears which. -/
structure Network (ι : Type) where
  cfg : ι → LoRaPara
  hears : ι → ι → Prop
  hears_irrefl : ∀ i, ¬hears i i

/-- The FIFOs of the devices, the transmissions of the frame (each by the devices it has
come through, the last one first), and who has heard which of them. -/
structure Relay (ι : Type) where
  fifo : ι → Kfifo
  sent : List (List ι)
  heard : List (List ι × ι)

variable {ι : Type} [DecidableEq ι]

/-- A device sends the frame. -/
def Relay.inject (fifo : ι → Kfifo) (src : ι) : Relay ι := ⟨fifo, [[src]], []⟩

/-- Device `j` hears a transmission; `sent` says whether a `Lora_send` gets to send. -/
def Relay.hear (net : Network ι) (frame : List UInt8) (s : Relay ι) (j : ι) (copy : List ι) (sent : Bool) : Relay ι :=
  let (fifo, _, relayed) := loraReceive (net.cfg j) (s.fifo j) frame
  { fifo := Function.update s.fifo j fifo
    sent := if relayed.isSome ∧ sent then (j :: copy) :: s.sent else s.sent
    heard := (copy, j) :: s.heard }

/-- A transmission is heard by a device that can hear its sender and has not heard it
yet. -/
inductive RelayStep (net : Network ι) (frame : List UInt8) : Relay ι → Relay ι → Prop where
  | hear {s : Relay ι} {i j : ι} {w : List ι} (sent : Bool) (hsent : i :: w ∈ s.sent) (hhears : net.hears j i)
      (hnew : (i :: w, j) ∉ s.heard) : RelayStep net frame s (s.hear net frame j (i :: w) sent)

/-- The networks a frame can be in. -/
abbrev RelayReach (net : Network ι) (frame : List UInt8) (fifo : ι → Kfifo) (src : ι) : Relay ι → Prop :=
  Relation.ReflTransGen (RelayStep net frame) (Relay.inject fifo src)

/-- How often a device has retransmitted the frame. -/
def Relay.retransmissions (s : Relay ι) (i : ι) : Nat := Flood.passes i s.sent

end Dtu
