import Dtu.Framework.Runs
import Dtu.Impl.Mesh
import Dtu.Proof.Relay

/-!
# What the gateways of a network queue

Each message that a gateway queues is a frame that a node has sent, unchanged, and has come to it
through nodes that relay it; it is queued once for each transmission that the gateway hears
(`mesh_provenance`). These are as many as there are chains of nodes from the sender: a gateway never queues a payload
twice just when there is one chain at most (`mesh_once_iff`).
-/

namespace Dtu

open Flood

variable {ι : Type}

/-- The frame of a payload. -/
def Network.frame (net : Network ι) (i : ι) (payload : List UInt8) : List UInt8 :=
  loraPack (net.cfg i).netId (net.cfg i).devId payload

/-- Device `i` sends a payload, as `lora_transform_thread` or `debug_bt_send_lora_by_rule`. -/
def Network.Sends (net : Network ι) (i : ι) (payload : List UInt8) : Prop :=
  (net.cfg i).meshType = loraMeshNode ∧ LoraCaller (net.cfg i) payload

/-- Device `j` hears the last device of a chain. -/
def Network.HearsVia (net : Network ι) (j : ι) (via : List ι) : Prop := ∃ i w, via = i :: w ∧ net.hears j i

/-- What the network does: a device hears a transmission that it can hear and has not heard yet. -/
def Mesh.Can (net : Network ι) (s : Mesh ι) : MeshAction ι → Prop
  | .send i payload => net.Sends i payload
  | .hear j c _ => c ∈ s.air ∧ net.HearsVia j c.via ∧ (c, j) ∉ s.heard
  | .others _ _ => True

/-- The gateways that take a frame. -/
def Queues (cfg : LoRaPara) (frame : List UInt8) : Prop :=
  cfg.meshType = loraMeshGateway ∧ 0 < frame.length ∧ frame.length ≤ cfg.payloadSize.toNat

/-- The device hears a frame of device `i` through one chain of nodes at most. -/
def Network.OneChain (net : Network ι) (frame : List UInt8) (i j : ι) : Prop :=
  ∀ w w', Walk (net.Passes frame) i w → Walk (net.Passes frame) i w' → net.HearsVia j w → net.HearsVia j w' → w = w'

theorem queuedMessage_eq_some_iff {cfg : LoRaPara} {fifo : Kfifo} {frame : List UInt8} {msg : FifoMessage} :
    queuedMessage cfg fifo frame = some msg ↔
      Queues cfg frame ∧ ¬kfifoLeft fifo < messageSize ∧ message loraData frame 0 0 0 = msg := by
  by_cases hfits : 0 < frame.length ∧ frame.length ≤ cfg.payloadSize.toNat
  · by_cases hgateway : cfg.meshType = loraMeshGateway
    · rw [queuedMessage_eq hgateway fifo hfits.1 hfits.2, ite_eq_iff]
      simp [Queues, hgateway, hfits]
    · have hnone : queuedMessage cfg fifo frame = none := by
        simp only [queuedMessage, loraReceive, loraRecvPacket, if_neg hgateway]
        split_ifs <;> rfl
      rw [hnone]
      exact iff_of_false (Option.some_ne_none _).symm fun h => hgateway h.1.1
  · have hrecv : loraRecvPacket cfg frame = none := if_pos (by omega)
    have hnone : queuedMessage cfg fifo frame = none := by
      rw [queuedMessage, loraReceive, hrecv]
    rw [hnone]
    exact iff_of_false (Option.some_ne_none _).symm fun h => hfits h.1.2

variable {net : Network ι} {s s' : Mesh ι} {i j : ι} {payload : List UInt8}

/-! ## Provenance -/

/-- What holds of the transmissions, and of what they have left in the FIFOs. -/
structure Mesh.Sound (net : Network ι) (s : Mesh ι) : Prop where
  origins : ∀ o ∈ s.origins, net.Sends o.1 o.2
  air : ∀ c ∈ s.air, ∃ i payload, s.origins[c.origin]? = some (i, payload) ∧ c.frame = net.frame i payload ∧
    Walk (net.Passes c.frame) i c.via
  heard : ∀ c j, (c, j) ∈ s.heard → c ∈ s.air ∧ net.HearsVia j c.via
  queued : ∀ j c msg, (c, msg) ∈ s.queued j →
    (c, j) ∈ s.heard ∧ Queues (net.cfg j) c.frame ∧ message loraData c.frame 0 0 0 = msg
  once : ∀ j, ((s.queued j).map (·.1)).Nodup

theorem Mesh.sound_start (net : Network ι) (fifo : ι → Kfifo) : (Mesh.start fifo).Sound net where
  origins o ho := by cases ho
  air c hc := by cases hc
  heard c j hc := by cases hc
  queued j c msg hc := by cases hc
  once _ := List.nodup_nil

theorem Mesh.Sound.send (h : s.Sound net) (hsends : net.Sends i payload) :
    ({ s with
      origins := s.origins ++ [(i, payload)]
      air := ⟨s.origins.length, [i], net.frame i payload⟩ :: s.air } : Mesh ι).Sound net where
  origins o ho := by
    rcases List.mem_append.mp ho with ho | ho
    · exact h.origins o ho
    · cases List.mem_singleton.mp ho
      exact hsends
  air c hc := by
    rcases List.mem_cons.mp hc with rfl | hc
    · exact ⟨i, payload, List.getElem?_concat_length, rfl, .start⟩
    · obtain ⟨i', payload', horigin, hframe, hwalk⟩ := h.air c hc
      exact ⟨i', payload', List.getElem?_append_left (List.getElem?_eq_some_iff.mp horigin).1 ▸ horigin, hframe, hwalk⟩
  heard c j hc := ⟨List.mem_cons_of_mem _ (h.heard c j hc).1, (h.heard c j hc).2⟩
  queued := h.queued
  once := h.once

/-- One payload has been sent, and each device that has heard a transmission has relayed it. -/
structure Mesh.Full (net : Network ι) (i : ι) (payload : List UInt8) (s : Mesh ι) : Prop where
  first : ⟨0, [i], net.frame i payload⟩ ∈ s.air
  relayed : ∀ c k, (c, k) ∈ s.heard → Relays (net.cfg k) c.frame ∧ ⟨c.origin, k :: c.via, c.frame⟩ ∈ s.air

/-- No gateway has heard any. -/
theorem Mesh.Full.not_heard (h : s.Full net i payload) (hgateway : (net.cfg j).meshType = loraMeshGateway) (c : Copy ι) :
    (c, j) ∉ s.heard := fun hc => absurd ((h.relayed c j hc).1.1.symm.trans hgateway) (by decide)

variable [DecidableEq ι]

/-- A payload is sent as its frame. -/
theorem Mesh.step_send (h : net.Sends i payload) (s : Mesh ι) :
    s.step net (.send i payload) = some
      ({ s with
        origins := s.origins ++ [(i, payload)]
        air := ⟨s.origins.length, [i], net.frame i payload⟩ :: s.air }, ()) := by
  have hlen := h.2.length
  have hsize : (UInt8.ofNat (payload.length + 4)).toNat = (net.frame i payload).length := by
    rw [Network.frame, length_loraPack, UInt8.toNat_ofNat']
    omega
  rw [Mesh.step, loraSendPacket_eq _ _ hlen.1 (by omega), Option.map_some]
  show some ({ s with origins := _, air := ⟨_, _, (net.frame i payload).take _⟩ :: s.air }, ()) = _
  rw [hsize, List.take_length]

/-- What device `j` does with a transmission. -/
theorem Mesh.step_hear (net : Network ι) (s : Mesh ι) (j : ι) (c : Copy ι) (sent : Bool) :
    s.step net (.hear j c sent) = some
      ({ s with
        fifo := Function.update s.fifo j (loraReceive (net.cfg j) (s.fifo j) c.frame).1
        air := if Relays (net.cfg j) c.frame ∧ sent = true then ⟨c.origin, j :: c.via, c.frame⟩ :: s.air else s.air
        heard := (c, j) :: s.heard
        queued := Function.update s.queued j
          (s.queued j ++ ((queuedMessage (net.cfg j) (s.fifo j) c.frame).map (c, ·)).toList) }, ()) := by
  rw [Mesh.step]
  simp only [loraReceive_relay, queuedMessage]
  by_cases hrelays : Relays (net.cfg j) c.frame
  · simp [hrelays]
  · simp [hrelays]

theorem Mesh.Sound.hear (h : s.Sound net) {c : Copy ι} {sent : Bool} (hcan : s.Can net (.hear j c sent))
    (fifo : ι → Kfifo) :
    ({ s with
      fifo
      air := if Relays (net.cfg j) c.frame ∧ sent = true then ⟨c.origin, j :: c.via, c.frame⟩ :: s.air else s.air
      heard := (c, j) :: s.heard
      queued := Function.update s.queued j
        (s.queued j ++ ((queuedMessage (net.cfg j) (s.fifo j) c.frame).map (c, ·)).toList) } : Mesh ι).Sound net := by
  obtain ⟨hmem, hhears, hnew⟩ := hcan
  have hgrows : ∀ c', c' ∈ s.air →
      c' ∈ if Relays (net.cfg j) c.frame ∧ sent = true then ⟨c.origin, j :: c.via, c.frame⟩ :: s.air else s.air := by
    intro c' hc'
    split
    · exact List.mem_cons_of_mem _ hc'
    · exact hc'
  refine ⟨h.origins, fun c' hc' => ?_, fun c' j' hc' => ?_, fun j' c' msg hc' => ?_, fun j' => ?_⟩
  · show ∃ i payload, s.origins[c'.origin]? = some (i, payload) ∧ _
    dsimp only at hc'
    split at hc'
    · rename_i hrelays
      rcases List.mem_cons.mp hc' with rfl | hc'
      · obtain ⟨i, payload, horigin, hframe, hwalk⟩ := h.air c hmem
        obtain ⟨i', w, hvia, hhears⟩ := hhears
        refine ⟨i, payload, horigin, hframe, ?_⟩
        show Walk (net.Passes c.frame) i (j :: c.via)
        rw [hvia] at hwalk ⊢
        exact hwalk.next ⟨hhears, hrelays.1⟩
      · exact h.air c' hc'
    · exact h.air c' hc'
  · rcases List.mem_cons.mp hc' with heq | hc'
    · cases heq
      exact ⟨hgrows c hmem, hhears⟩
    · exact ⟨hgrows c' (h.heard c' j' hc').1, (h.heard c' j' hc').2⟩
  · show (c', j') ∈ (c, j) :: s.heard ∧ _
    by_cases hj : j' = j
    · subst hj
      simp only [Function.update_self, List.mem_append, Option.mem_toList,
        Option.map_eq_some_iff] at hc'
      rcases hc' with hc' | ⟨msg', hqueued, heq⟩
      · exact ⟨List.mem_cons_of_mem _ (h.queued _ _ _ hc').1, (h.queued _ _ _ hc').2⟩
      · cases heq
        obtain ⟨hqueues, -, hmsg⟩ := queuedMessage_eq_some_iff.mp hqueued
        exact ⟨List.mem_cons_self, hqueues, hmsg⟩
    · simp only [Function.update_of_ne hj] at hc'
      exact ⟨List.mem_cons_of_mem _ (h.queued _ _ _ hc').1, (h.queued _ _ _ hc').2⟩
  · by_cases hj : j' = j
    · subst hj
      simp only [Function.update_self, List.map_append]
      refine (h.once j').append ?_ ?_
      · cases queuedMessage (net.cfg j') (s.fifo j') c.frame <;> simp
      · intro c' hc' hlast
        obtain ⟨⟨c₁, msg⟩, hold, rfl⟩ := List.mem_map.mp hc'
        obtain ⟨⟨c₂, msg₁⟩, hmap, heq⟩ := List.mem_map.mp hlast
        obtain ⟨msg₂, -, hpair⟩ := Option.mem_map.mp (Option.mem_toList.mp hmap)
        cases hpair
        cases heq
        exact hnew (h.queued _ _ _ hold).1
    · simp only [Function.update_of_ne hj]
      exact h.once j'

theorem Mesh.Sound.step (h : s.Sound net) {a : MeshAction ι} {e : Unit} (hcan : s.Can net a)
    (hs : s.step net a = some (s', e)) : s'.Sound net := by
  cases a with
  | send i payload =>
    rw [Mesh.step_send hcan] at hs
    cases hs
    exact h.send hcan
  | hear j c sent =>
    rw [Mesh.step_hear] at hs
    cases hs
    exact h.hear hcan _
  | others i fifo =>
    cases hs
    exact ⟨h.origins, h.air, h.heard, h.queued, h.once⟩

theorem Mesh.sound_of_runs {fifo : ι → Kfifo} (hrun : Runs (Mesh.step net) (Mesh.Can net) (.start fifo) s) : s.Sound net :=
  hrun.invariant (I := Mesh.Sound net) (Mesh.sound_start net fifo) fun _ _ _ _ h hcan hs => h.step hcan hs

/-! ## Runs along chains -/

variable {fifo : ι → Kfifo}

theorem Mesh.full_of_sends (fifo : ι → Kfifo) (hsends : net.Sends i payload) :
    ∃ s, Runs (Mesh.step net) (Mesh.Can net) (.start fifo) s ∧ s.Full net i payload :=
  ⟨_, Runs.start.step (a := .send i payload) hsends (Mesh.step_send hsends _),
    List.mem_cons_self, fun c k hc => by cases hc⟩

/-- A transmission can come by any chain. -/
theorem Mesh.Full.extend (hrun : Runs (Mesh.step net) (Mesh.Can net) (.start fifo) s) (h : s.Full net i payload)
    {w : List ι} (hwalk : Walk (net.Passes (net.frame i payload)) i w) :
    ∃ s', Runs (Mesh.step net) (Mesh.Can net) (.start fifo) s' ∧ s'.Full net i payload ∧ s.air ⊆ s'.air ∧
      ⟨0, w, net.frame i payload⟩ ∈ s'.air := by
  induction hwalk with
  | start => exact ⟨s, hrun, h, List.Subset.refl _, h.first⟩
  | next hwalk hpasses ih =>
    rename_i k k' w
    obtain ⟨s', hrun', h', hsub, hmem⟩ := ih
    by_cases hthere : ⟨0, k' :: k :: w, net.frame i payload⟩ ∈ s'.air
    · exact ⟨s', hrun', h', hsub, hthere⟩
    have hnew : (⟨0, k :: w, net.frame i payload⟩, k') ∉ s'.heard := fun hheard => hthere (h'.relayed _ _ hheard).2
    have hstep := s'.step_hear net k' ⟨0, k :: w, net.frame i payload⟩ true
    rw [if_pos ⟨hpasses.2, rfl⟩] at hstep
    have hcan : s'.Can net (.hear k' ⟨0, k :: w, net.frame i payload⟩ true) := ⟨hmem, ⟨k, w, rfl, hpasses.1⟩, hnew⟩
    refine ⟨_, hrun'.step hcan hstep, ⟨List.mem_cons_of_mem _ h'.first, ?_⟩,
      fun c hc => List.mem_cons_of_mem _ (hsub hc), List.mem_cons_self⟩
    intro c l hheard
    rcases List.mem_cons.mp hheard with heq | hheard
    · cases heq
      exact ⟨hpasses.2, List.mem_cons_self⟩
    · exact ⟨(h'.relayed c l hheard).1, List.mem_cons_of_mem _ (h'.relayed c l hheard).2⟩

/-- A gateway whose FIFO has been emptied hears a transmission. -/
theorem Mesh.queue (hrun : Runs (Mesh.step net) (Mesh.Can net) (.start fifo) s) {c : Copy ι} (hmem : c ∈ s.air)
    (hhears : net.HearsVia j c.via) (hnew : (c, j) ∉ s.heard) (hqueues : Queues (net.cfg j) c.frame) :
    ∃ s', Runs (Mesh.step net) (Mesh.Can net) (.start fifo) s' ∧ s'.air = s.air ∧ s'.heard = (c, j) :: s.heard ∧
      s'.queued j = s.queued j ++ [(c, message loraData c.frame 0 0 0)] := by
  have hempty : Runs (Mesh.step net) (Mesh.Can net) (.start fifo)
      { s with fifo := Function.update s.fifo j emptyFifo } := hrun.step (a := .others j emptyFifo) trivial rfl
  have hroom : ¬kfifoLeft (Function.update s.fifo j emptyFifo j) < messageSize := by
    rw [Function.update_self]
    decide
  have hcan : Mesh.Can net { s with fifo := Function.update s.fifo j emptyFifo } (.hear j c false) :=
    ⟨hmem, hhears, hnew⟩
  refine ⟨_, hempty.step hcan (Mesh.step_hear net _ j c false), if_neg fun h => Bool.false_ne_true h.2, rfl, ?_⟩
  rw [queuedMessage_eq_some_iff.mpr ⟨hqueues, hroom, rfl⟩]
  exact Function.update_self ..

/-! ## What is queued -/

/-- Where devices hear only each other, and no frame is changed on its way: each message that a device has queued is
a frame that a node has sent, unchanged and with its payload, and has come to the device, a gateway,
through nodes that relay it; the device queues it once for each transmission that it hears. -/
theorem mesh_provenance {fifo : ι → Kfifo} (hrun : Runs (Mesh.step net) (Mesh.Can net) (.start fifo) s) (j : ι) :
    ((s.queued j).map (·.1)).Nodup ∧ ∀ c msg, (c, msg) ∈ s.queued j → (net.cfg j).meshType = loraMeshGateway ∧
      ∃ i payload, s.origins[c.origin]? = some (i, payload) ∧ net.Sends i payload ∧
        msg = message loraData (net.frame i payload) 0 0 0 ∧
        (loraUnpack .init (net.frame i payload) (net.cfg i).netId (net.cfg i).devId).1 = .ok payload ∧
        Walk (net.Passes (net.frame i payload)) i c.via ∧ net.HearsVia j c.via := by
  have h := Mesh.sound_of_runs hrun
  refine ⟨h.once j, fun c msg hmem => ?_⟩
  obtain ⟨hheard, hqueues, hmsg⟩ := h.queued j c msg hmem
  obtain ⟨hair, hhears⟩ := h.heard c j hheard
  obtain ⟨i, payload, horigin, hframe, hwalk⟩ := h.air c hair
  have hunpack := loraUnpack_loraPack .init (net.cfg i).netId (net.cfg i).devId payload
    fun hlast => Nat.succ_ne_zero _ hlast.1
  rw [hframe] at hmsg hwalk
  exact ⟨hqueues.1, i, payload, horigin, h.origins _ (List.mem_of_getElem? horigin), hmsg.symm,
    congrArg Prod.fst hunpack, hwalk, hhears⟩

/-- Device 0 sends, device 1 relays, and device 2 is a gateway. -/
def threeDevices : Network (Fin 3) where
  cfg := fun i => if i = 0 then nodeConfig else if i = 1 then plainNode else myLoraConfig
  hears := fun j i => j = i + 1
  hears_irrefl := by decide

theorem sends_threeDevices : threeDevices.Sends 0 [0x01, 0x02] :=
  ⟨rfl, .debugBt (show debugParsePlainHex ['0', '1', ' ', '0', '2'] debugBtMaxRawLen = some [0x01, 0x02] by decide)
    (by decide) (by decide)⟩

theorem mesh_provenance_three :
    ∃ s : Mesh (Fin 3), s.queued 2 ≠ [] ∧ ((s.queued 2).map (·.1)).Nodup ∧
      ∀ c msg, (c, msg) ∈ s.queued 2 → (threeDevices.cfg 2).meshType = loraMeshGateway ∧
        ∃ i payload, s.origins[c.origin]? = some (i, payload) ∧ threeDevices.Sends i payload ∧
          msg = message loraData (threeDevices.frame i payload) 0 0 0 ∧
          (loraUnpack .init (threeDevices.frame i payload) (threeDevices.cfg i).netId (threeDevices.cfg i).devId).1 =
            .ok payload ∧
          Walk (threeDevices.Passes (threeDevices.frame i payload)) i c.via ∧ threeDevices.HearsVia 2 c.via := by
  obtain ⟨s₀, hrun₀, hfull₀⟩ := Mesh.full_of_sends (fun _ => emptyFifo) sends_threeDevices
  have hwalk : Walk (threeDevices.Passes (threeDevices.frame 0 [0x01, 0x02])) 0 [1, 0] :=
    .next .start ⟨rfl, (by decide : Relays plainNode (threeDevices.frame 0 [0x01, 0x02]))⟩
  obtain ⟨s₁, hrun₁, hfull₁, -, hmem⟩ := hfull₀.extend hrun₀ hwalk
  have hqueues : Queues (threeDevices.cfg 2) (threeDevices.frame 0 [0x01, 0x02]) := ⟨rfl, by decide, by decide⟩
  obtain ⟨s, hrun, -, -, hqueued⟩ := Mesh.queue hrun₁ hmem ⟨1, [0], rfl, rfl⟩ (hfull₁.not_heard hqueues.1 _) hqueues
  exact ⟨s, List.append_ne_nil_of_right_ne_nil _ (List.cons_ne_nil _ _) |> hqueued.trans_ne, mesh_provenance hrun 2⟩

/-- Whatever the order of deliveries, no gateway queues a payload twice for one call of `Lora_send_packet`,
just when each gateway hears each node that sends to it through one chain of nodes at most. -/
theorem mesh_once_iff (net : Network ι) (fifo : ι → Kfifo) :
    (∀ s, Runs (Mesh.step net) (Mesh.Can net) (.start fifo) s → ∀ j, ((s.queued j).map (·.1.origin)).Nodup) ↔
      ∀ i payload, net.Sends i payload → ∀ j, Queues (net.cfg j) (net.frame i payload) →
        net.OneChain (net.frame i payload) i j := by
  constructor
  · intro honce i payload hsends j hqueues w w' hwalk hwalk' hhears hhears'
    by_contra hne
    obtain ⟨s₀, hrun₀, hfull₀⟩ := Mesh.full_of_sends fifo hsends
    obtain ⟨s₁, hrun₁, hfull₁, -, hmem⟩ := hfull₀.extend hrun₀ hwalk
    obtain ⟨s₂, hrun₂, hfull₂, hsub, hmem'⟩ := hfull₁.extend hrun₁ hwalk'
    have hnew := hfull₂.not_heard hqueues.1
    obtain ⟨s₃, hrun₃, hair₃, hheard₃, hqueued₃⟩ := Mesh.queue hrun₂ (hsub hmem) hhears (hnew _) hqueues
    have hnew' : (⟨0, w', net.frame i payload⟩, j) ∉ s₃.heard := by
      rw [hheard₃]
      intro hc
      rcases List.mem_cons.mp hc with heq | hc
      · cases heq
        exact hne rfl
      · exact hnew _ hc
    obtain ⟨s₄, hrun₄, -, -, hqueued₄⟩ := Mesh.queue hrun₃ (hair₃ ▸ hmem') hhears' hnew' hqueues
    have htwice := honce s₄ hrun₄ j
    rw [hqueued₄, hqueued₃] at htwice
    simp [List.nodup_append] at htwice
  · intro hone s hrun j
    have h := Mesh.sound_of_runs hrun
    have hnodup := h.once j
    rw [show (s.queued j).map (·.1.origin) = ((s.queued j).map (·.1)).map (·.origin) from
      (List.map_map ..).symm]
    refine List.Nodup.map_on ?_ hnodup
    intro c hc c' hc' heq
    obtain ⟨⟨c, msg⟩, hmem, rfl⟩ := List.mem_map.mp hc
    obtain ⟨⟨c', msg'⟩, hmem', rfl⟩ := List.mem_map.mp hc'
    obtain ⟨hheard, hqueues, -⟩ := h.queued j _ _ hmem
    obtain ⟨hheard', -, -⟩ := h.queued j _ _ hmem'
    obtain ⟨hair, hhears⟩ := h.heard _ _ hheard
    obtain ⟨hair', hhears'⟩ := h.heard _ _ hheard'
    obtain ⟨i, payload, horigin, hframe, hwalk⟩ := h.air _ hair
    obtain ⟨i', payload', horigin', hframe', hwalk'⟩ := h.air _ hair'
    obtain ⟨origin, via, frame⟩ := c
    obtain ⟨origin', via', frame'⟩ := c'
    cases heq
    cases Option.some.inj (horigin.symm.trans horigin')
    cases hframe
    cases hframe'
    have hsends := h.origins _ (List.mem_of_getElem? horigin)
    cases hone i payload hsends j hqueues via via' hwalk hwalk' hhears hhears'
    rfl

end Dtu
