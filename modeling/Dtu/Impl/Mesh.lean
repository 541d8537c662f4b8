import Dtu.Impl.Relay

/-!
# The frames in a network of devices

Nodes that send payloads with `Lora_send_packet`, and what `lora_receive_thread` makes of the
frames (`loraReceive`), in all devices at once: each transmission reaches the devices that
hear the sender, or some of them, at any time, and a device hears it once. What is heard is what
a device of the network has sent, as it was sent: there is no noise and no other sender, and the
configurations stay. `Mesh.origins` and `Mesh.queued` are not in the source.
-/

namespace Dtu

/-- A transmission of a frame: the number of the `Lora_send_packet` that it goes back to, the
devices that it has come through, the last one first, and its bytes. -/
structure Copy (ι : Type) where
  origin : Nat
  via : List ι
  frame : List UInt8

/-- The FIFOs of the devices, the transmissions and who has heard which of them. `origins` are the
payloads that have been sent, and by whom, and `queued` is what `push_lora_to_fifo` has put in the FIFO
of each device, with the transmission it has come by. -/
structure Mesh (ι : Type) where
  fifo : ι → Kfifo
  origins : List (ι × List UInt8)
  air : List (Copy ι)
  heard : List (Copy ι × ι)
  queued : ι → List (Copy ι × FifoMessage)

/-- Nothing has been sent. -/
def Mesh.start {ι : Type} (fifo : ι → Kfifo) : Mesh ι := ⟨fifo, [], [], [], fun _ => []⟩

inductive MeshAction (ι : Type) where
  /-- A device calls `Lora_send_packet`, and the radio sends. -/
  | send (i : ι) (payload : List UInt8)
  /-- A device hears a transmission; `sent` says whether a `Lora_send` gets to send. -/
  | hear (j : ι) (c : Copy ι) (sent : Bool)
  /-- The other threads of a device use its FIFO. -/
  | others (i : ι) (fifo : Kfifo)

variable {ι : Type} [DecidableEq ι]

def Mesh.step (net : Network ι) (s : Mesh ι) : MeshAction ι → Option (Mesh ι × Unit)
  | .send i payload =>
    (loraSendPacket (net.cfg i).netId (net.cfg i).devId payload).map fun (buf, size) =>
      ({ s with
        origins := s.origins ++ [(i, payload)]
        air := ⟨s.origins.length, [i], buf.take size.toNat⟩ :: s.air }, ())
  | .hear j c sent =>
    let (fifo, msg, relayed) := loraReceive (net.cfg j) (s.fifo j) c.frame
    some ({ s with
      fifo := Function.update s.fifo j fifo
      air := match relayed with
        | some frame => if sent then ⟨c.origin, j :: c.via, frame⟩ :: s.air else s.air
        | none => s.air
      heard := (c, j) :: s.heard
      queued := Function.update s.queued j (s.queued j ++ (msg.map (c, ·)).toList) }, ())
  | .others i fifo => some ({ s with fifo := Function.update s.fifo i fifo }, ())

end Dtu
