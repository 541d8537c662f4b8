import Dtu.Impl.Relay
import Dtu.Proof.LoraFrame

/-!
# How often a frame is relayed

`lora_receive_thread` of a node that is not root relays every frame it is given
(`loraReceive_relay`), so a network floods itself with the frame
(`RelayReach.flooded`, `Flood.Flooded.reach`). It ends where each node is reached from
the sender by one chain of such nodes only (`relay_once_iff`); two that hear each other
never end (`relay_forever`).
-/

namespace Dtu

open Flood

variable {ι : Type} [DecidableEq ι] {net : Network ι} {frame : List UInt8} {fifo : ι → Kfifo} {src : ι} {s : Relay ι}

/-! ## The relay rule -/

/-- The devices that relay a frame: the nodes but the root, if it fits them. -/
def Relays (cfg : LoRaPara) (frame : List UInt8) : Prop :=
  cfg.meshType = loraMeshNode ∧ cfg.isRoot ≠ loraMeshRoot ∧ frame.length ≠ 0 ∧ frame.length ≤ cfg.payloadSize.toNat

instance (cfg : LoRaPara) (frame : List UInt8) : Decidable (Relays cfg frame) := inferInstanceAs (Decidable (_ ∧ _))

/-- What is relayed is the frame. -/
theorem loraReceive_relay (cfg : LoRaPara) (fifo : Kfifo) (frame : List UInt8) :
    (loraReceive cfg fifo frame).2.2 = if Relays cfg frame then some frame else none := by
  by_cases hfits : frame.length = 0 ∨ cfg.payloadSize.toNat < frame.length
  · have hrecv : loraRecvPacket cfg frame = none := if_pos hfits
    rw [loraReceive, hrecv, if_neg]
    rintro ⟨-, -, hne, hle⟩
    omega
  · have hrecv : loraRecvPacket cfg frame = some frame := if_neg hfits
    rw [not_or, Nat.not_lt] at hfits
    simp only [loraReceive, hrecv, Relays, hfits, ne_eq, not_false_eq_true, and_true]
    by_cases hgateway : cfg.meshType = loraMeshGateway
    · rw [if_pos hgateway, if_neg]
      exact fun h => absurd (hgateway.symm.trans h.1) (by decide)
    · rw [if_neg hgateway]
      by_cases hnode : cfg.meshType = loraMeshNode
      · by_cases hroot : cfg.isRoot = loraMeshRoot
        · rw [if_pos hnode, if_pos hroot, if_neg fun h => h.2 hroot]
        · rw [if_pos hnode, if_neg hroot, if_pos ⟨hnode, hroot⟩]
      · rw [if_neg hnode, if_neg fun h => hnode h.1]

/-- Device `j` hears device `i`, and relays. -/
def Network.Passes (net : Network ι) (frame : List UInt8) (i j : ι) : Prop := net.hears j i ∧ Relays (net.cfg j) frame

theorem Relay.hear_sent (s : Relay ι) (net : Network ι) (frame : List UInt8) (j : ι) (copy : List ι) (sent : Bool) :
    (s.hear net frame j copy sent).sent =
      if Relays (net.cfg j) frame ∧ sent = true then (j :: copy) :: s.sent else s.sent := by
  simp only [Relay.hear, loraReceive_relay]
  by_cases hrelays : Relays (net.cfg j) frame
  · simp [hrelays]
  · simp [hrelays]

/-! ## The network floods itself -/

/-- Transmissions of the frame are copies of a flood, each heard by its sender before. -/
theorem RelayReach.flooded (h : RelayReach net frame fifo src s) :
    Flooded (net.Passes frame) src s.sent ∧ ∀ i j w, j :: i :: w ∈ s.sent → (i :: w, j) ∈ s.heard := by
  induction h with
  | refl =>
    refine ⟨.start, fun i j w hmem => ?_⟩
    cases List.mem_singleton.mp hmem
  | tail _ hstep ih =>
    obtain ⟨hflood, hheard⟩ := ih
    cases hstep with
    | @hear i j w sent hsent hhears hnew =>
      rw [Relay.hear_sent]
      split
      · rename_i hrelays
        refine ⟨hflood.pass hsent ⟨hhears, hrelays.1⟩ fun hmem => hnew (hheard i j w hmem), fun i' j' w' hmem => ?_⟩
        rcases List.mem_cons.mp hmem with heq | hmem
        · cases heq
          exact List.mem_cons_self
        · exact List.mem_cons_of_mem _ (hheard i' j' w' hmem)
      · exact ⟨hflood, fun i' j' w' hmem => List.mem_cons_of_mem _ (hheard i' j' w' hmem)⟩

/-- Any flood can happen. -/
theorem reach_of_flooded (fifo : ι → Kfifo) {sent : List (List ι)} (h : Flooded (net.Passes frame) src sent) :
    ∃ s, RelayReach net frame fifo src s ∧ s.sent = sent ∧ ∀ w j, (w, j) ∈ s.heard → j :: w ∈ s.sent := by
  induction h with
  | start => exact ⟨_, .refl, rfl, nofun⟩
  | pass _ hmem hpasses hnew ih =>
    rename_i i j w _
    obtain ⟨s, hreach, rfl, hheard⟩ := ih
    have hsent := s.hear_sent net frame j (i :: w) true
    rw [if_pos ⟨hpasses.2, rfl⟩] at hsent
    refine ⟨_, hreach.tail (.hear true hmem hpasses.1 fun hmem => hnew (hheard _ _ hmem)), hsent, fun w' j' hmem => ?_⟩
    rw [hsent]
    rcases List.mem_cons.mp hmem with heq | hmem
    · cases heq
      exact List.mem_cons_self
    · exact List.mem_cons_of_mem _ (hheard w' j' hmem)

/-- Whatever the order of deliveries, each device retransmits the frame at most once, and
there are no more transmissions than devices and the first, just when no device is
reached from the sender by two chains of devices that relay. -/
theorem relay_once_iff [Fintype ι] (net : Network ι) (frame : List UInt8) (fifo : ι → Kfifo) (src : ι) :
    (∀ s, RelayReach net frame fifo src s →
      (∀ i, s.retransmissions i ≤ 1) ∧ s.sent.length ≤ Fintype.card ι + 1) ↔
    OneWay (net.Passes frame) src := by
  rw [← flood_once_iff]
  constructor
  · intro h sent hflood i
    obtain ⟨s, hreach, rfl, -⟩ := reach_of_flooded fifo hflood
    exact (h s hreach).1 i
  · intro h s hreach
    have hflood := (RelayReach.flooded hreach).1
    exact ⟨h s.sent hflood, hflood.length_le (h s.sent hflood)⟩

/-- A node that is not root. -/
def plainNode : LoRaPara := { myLoraConfig with meshType := loraMeshNode, isRoot := 0x00 }

/-- Two of them that hear each other. -/
def twoNodes : Network (Fin 2) where
  cfg := fun _ => plainNode
  hears := fun i j => i ≠ j
  hears_irrefl := fun _ h => h rfl

/-- They send the frame to and fro. -/
theorem relay_forever :
    (∃ s, RelayReach twoNodes [0x01, 0x0a] (fun _ => emptyFifo) 0 s ∧ s.retransmissions 1 = 2) ∧
      ∀ k, ∃ s, RelayReach twoNodes [0x01, 0x0a] (fun _ => emptyFifo) 0 s ∧ s.sent.length = k + 1 := by
  have hpasses : ∀ i j, i ≠ j → twoNodes.Passes [0x01, 0x0a] i j := fun _ _ hne =>
    ⟨hne.symm, (by decide : Relays plainNode [0x01, 0x0a])⟩
  constructor
  · have h : Flooded (twoNodes.Passes [0x01, 0x0a]) 0 [[1, 0, 1, 0], [0, 1, 0], [1, 0], [0]] := by
      refine .pass (.pass (.pass .start (w := []) ?_ (hpasses 0 1 (by decide)) ?_) ?_ (hpasses 1 0 (by decide)) ?_) ?_
        (hpasses 0 1 (by decide)) ?_ <;> decide
    obtain ⟨s, hreach, hsent, -⟩ := reach_of_flooded (fun _ => emptyFifo) h
    refine ⟨s, hreach, ?_⟩
    rw [Relay.retransmissions, hsent]
    decide
  · intro k
    have hlong : ∃ i w rest, Flooded (twoNodes.Passes [0x01, 0x0a]) 0 ((i :: w) :: rest) ∧ rest.length = k ∧
        ∀ copy ∈ rest, copy.length < (i :: w).length := by
      induction k with
      | zero => exact ⟨0, [], [], .start, rfl, nofun⟩
      | succ k ih =>
        obtain ⟨i, w, rest, h, hlen, hshort⟩ := ih
        have hne : i ≠ i + 1 := (by decide : ∀ i : Fin 2, i ≠ i + 1) i
        have hall : ∀ copy ∈ (i :: w) :: rest, copy.length < ((i + 1) :: i :: w).length := by
          intro copy hmem
          rcases List.mem_cons.mp hmem with rfl | hmem
          · exact Nat.lt_succ_self _
          · exact Nat.lt_succ_of_lt (hshort copy hmem)
        refine ⟨i + 1, i :: w, (i :: w) :: rest, ?_, by rw [List.length_cons, hlen], hall⟩
        exact h.pass List.mem_cons_self (hpasses i (i + 1) hne) fun hmem => Nat.lt_irrefl _ (hall _ hmem)
    obtain ⟨i, w, rest, h, hlen, -⟩ := hlong
    obtain ⟨s, hreach, hsent, -⟩ := reach_of_flooded (fun _ => emptyFifo) h
    exact ⟨s, hreach, by rw [hsent, List.length_cons, hlen]⟩

end Dtu
