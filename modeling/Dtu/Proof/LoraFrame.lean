import Dtu.Proof.LoraDecode

/-!
# LoRa frames at both ends

A frame is its payload and four bytes more. `Lora_send_packet` makes a frame that
its buffer and the `uint8_t` size hold of every payload it is called with, but a
receiver with the same parameters takes only those whose payload leaves room for
the four bytes (`loraFrame_reaches_iff`).

`lora_unpack` gives back the payload of such a frame, unless it is the last frame
again (`loraUnpack_loraPack`). `lora_receive_thread` does not call it: a gateway
queues each frame whole (`loraReceive_eq_unpack_iff`).
-/

namespace Dtu

open Stdio Bytes

theorem length_loraPack (netid devid : UInt8) (payload : List UInt8) :
    (loraPack netid devid payload).length = payload.length + 4 := by
  simp [loraPack]

/-! ## Sending -/

/-- The payloads with which the program calls `Lora_send_packet`. -/
inductive LoraCaller (cfg : LoRaPara) : List UInt8 → Prop where
  | transform {files : Fin 2 → Option (List Char)} {offsets pending : Fin 2 → Nat} {b : HexBatch}
      (stale : Nat → UInt8) (hpack : packDataFromFiles files offsets loraMaxHexLen = some (b, pending))
      (hcount : 0 < b.entryCount) : LoraCaller cfg (loraPayload stale b)
  | debugBt {line : List Char} {data payload : List UInt8}
      (hparse : debugParsePlainHex line debugBtMaxRawLen = some data) (hlen : 0 < data.length)
      (hrule : debugBtSendLoraByRule cfg data = some payload) : LoraCaller cfg payload

/-- `Lora_send_packet` makes a frame that fits its buffer, hands `Lora_send` the
length of it, and `Lora_recv_packet` takes it with the same parameters. -/
def FrameReaches (cfg : LoRaPara) (payload : List UInt8) : Prop :=
  ∃ buf size, loraSendPacket cfg.netId cfg.devId payload = some (buf, size) ∧ buf.length ≤ 256 ∧
    size.toNat = buf.length ∧ loraRecvPacket cfg (buf.take size.toNat) = some buf

theorem length_hexPairs {clean : List Char} {data : List UInt8} (h : hexPairs clean = some data) :
    data.length = clean.length / 2 := by
  fun_induction hexPairs clean generalizing data with
  | case1 c d clean high low hhigh hlow ih =>
    obtain ⟨rest, hrest, rfl⟩ := Option.map_eq_some_iff.mp h
    rw [List.length_cons, ih hrest]
    simp only [List.length_cons]
    omega
  | case2 => cases h
  | case3 clean hshort =>
    cases h
    rcases clean with _ | ⟨c, _ | ⟨d, clean⟩⟩
    · rfl
    · simp
    · exact absurd rfl (hshort c d clean)

theorem length_debugParsePlainHex {line : List Char} {outMax : Nat} {data : List UInt8}
    (h : debugParsePlainHex line outMax = some data) : data.length ≤ outMax := by
  unfold debugParsePlainHex at h
  split at h
  · cases h
  split at h
  · cases h
  split at h
  · cases h
  split at h
  · cases h
  rw [length_hexPairs h]
  omega

/-- A payload has at least one byte and at most 128. -/
theorem LoraCaller.length {cfg : LoRaPara} {payload : List UInt8} (h : LoraCaller cfg payload) :
    0 < payload.length ∧ payload.length ≤ 128 := by
  cases h with
  | @transform files offsets pending b stale hpack hcount =>
    have hfits := packDataFromFiles_fits hpack
    obtain ⟨rfl, -⟩ := packDataFromFiles_window hpack
    have hes := @ne_nil_of_mem_windowEntries packLineSize 2 files offsets pending
    generalize windowEntries packLineSize files offsets pending = es at *
    have hcap : (joinHex es).length ≤ loraMaxHexLen := hfits
    have htext : (batchOf es).hexBuf.take (batchOf es).hexLen = joinHex es := List.take_length
    have hraw := List.length_pos_iff.mpr (joinRaw_ne_nil (List.length_pos_iff.mp hcount) hes)
    have hcost := hexCost_add_length es
    have hsum := rawCost_eq_sum es
    rw [length_joinHex] at hcap
    rw [length_joinRaw] at hraw
    simp only [loraMaxHexLen] at hcap
    rw [loraPayload, htext, length_loraDecode stale _ (by rw [length_joinHex]; simp only [loraPayloadSize]; omega),
      length_joinHex]
    have hcount' : 0 < es.length := hcount
    omega
  | debugBt hparse hlen hrule =>
    have hle := length_debugParsePlainHex hparse
    unfold debugBtSendLoraByRule at hrule
    split at hrule
    · cases hrule
    split at hrule
    · cases hrule
    · cases hrule
      exact ⟨hlen, hle⟩

/-- What `Lora_send_packet` makes of a payload. -/
theorem loraSendPacket_eq (netid devid : UInt8) {payload : List UInt8} (hpos : 0 < payload.length)
    (hlt : payload.length < 256) :
    loraSendPacket netid devid payload =
      some (loraPack netid devid payload, UInt8.ofNat (payload.length + 4)) := by
  have hsize : (UInt8.ofNat payload.length).toNat = payload.length := by
    rw [UInt8.toNat_ofNat']
    omega
  have hne : UInt8.ofNat payload.length ≠ 0 := by
    intro hzero
    rw [hzero] at hsize
    exact Nat.ne_of_gt hpos hsize.symm
  simp only [loraSendPacket, if_neg hne, hsize, List.take_length, length_loraPack]

/-- A frame that reaches a receiver is not longer than it allows. -/
theorem FrameReaches.length_le {cfg : LoRaPara} {payload : List UInt8} (h : FrameReaches cfg payload)
    (hpos : 0 < payload.length) (hlt : payload.length < 256) : payload.length + 4 ≤ cfg.payloadSize.toNat := by
  obtain ⟨buf, size, hsend, -, hsize, hrecv⟩ := h
  rw [loraSendPacket_eq _ _ hpos hlt, Option.some.injEq, Prod.mk.injEq] at hsend
  obtain ⟨rfl, -⟩ := hsend
  rw [hsize, List.take_length, loraRecvPacket] at hrecv
  have hlen := length_loraPack cfg.netId cfg.devId payload
  split at hrecv
  · cases hrecv
  · omega

/-- A frame of the program reaches a receiver with the same parameters just when its
payload is four bytes shorter than they allow. -/
theorem loraFrame_reaches_iff {cfg : LoRaPara} {payload : List UInt8} (h : LoraCaller cfg payload) :
    FrameReaches cfg payload ↔ payload.length + 4 ≤ cfg.payloadSize.toNat := by
  obtain ⟨hpos, hle⟩ := h.length
  have hlen := length_loraPack cfg.netId cfg.devId payload
  have hsize : (UInt8.ofNat (payload.length + 4)).toNat = (loraPack cfg.netId cfg.devId payload).length := by
    rw [UInt8.toNat_ofNat']
    omega
  constructor
  · intro hreaches
    exact hreaches.length_le hpos (by omega)
  · intro hfits
    refine ⟨_, _, loraSendPacket_eq _ _ hpos (by omega), by omega, hsize, ?_⟩
    rw [hsize, List.take_length, loraRecvPacket, if_neg (by omega)]

/-- The parameters of `main.c` on a node. -/
def nodeConfig : LoRaPara := { myLoraConfig with meshType := loraMeshNode }

/-- A line of 122 digits: 61 bytes, not more than `payload_size`. -/
theorem loraFrame_reaches_too_long :
    LoraCaller nodeConfig (List.replicate 61 0) ∧ ¬FrameReaches nodeConfig (List.replicate 61 0) := by
  have hparse : debugParsePlainHex (List.replicate 122 '0') debugBtMaxRawLen = some (List.replicate 61 0) := by
    decide +kernel
  refine ⟨.debugBt hparse (by decide) (by decide), fun h => ?_⟩
  exact absurd (h.length_le (by decide) (by decide)) (by decide)

theorem loraFrame_reaches_iff_two :
    FrameReaches nodeConfig [0x01, 0x02] ↔ [(0x01 : UInt8), 0x02].length + 4 ≤ nodeConfig.payloadSize.toNat :=
  loraFrame_reaches_iff
    (.debugBt (show debugParsePlainHex ['0', '1', ' ', '0', '2'] debugBtMaxRawLen = some [0x01, 0x02] by decide)
      (by decide) (by decide))

/-! ## Receiving -/

/-- `lora_unpack` accepts a frame of `lora_pack` that is not the last one again, and
gives back its payload. -/
theorem loraUnpack_loraPack (last : LastFrame) (netid devid : UInt8) (payload : List UInt8)
    (hnew : ¬(payload.length + 4 = last.lastLen ∧
      loraPack netid devid payload = last.lastFrame.take (payload.length + 4))) :
    loraUnpack last (loraPack netid devid payload) netid devid =
      (.ok payload, ⟨loraPack netid devid payload, payload.length + 4⟩) := by
  have hlen := length_loraPack netid devid payload
  have htake : (loraPack netid devid payload).take (payload.length + 2) = netid :: devid :: payload := by
    rw [loraPack, List.take_left' (by simp)]
  have hcrc : ((loraPack netid devid payload).getD (payload.length + 2) 0).toUInt16 |||
      (((loraPack netid devid payload).getD (payload.length + 3) 0).toUInt16 <<< 8) =
      crc16 (netid :: devid :: payload) := by
    rw [← or_halves (crc16 (netid :: devid :: payload)), loraPack]
    congr 2
    · simp [List.getD_eq_getElem?_getD]
    · simp [List.getD_eq_getElem?_getD]
  have hids : ¬((loraPack netid devid payload).getD 0 0 ≠ netid ∨ (loraPack netid devid payload).getD 1 0 ≠ devid) := by
    simp [loraPack]
  have hpayload : ((loraPack netid devid payload).drop 2).take (payload.length + 4 - 4) = payload := by
    simp [loraPack]
  simp only [loraUnpack, hlen, if_neg (show ¬payload.length + 4 < 4 by omega),
    show payload.length + 4 - 2 = payload.length + 2 from rfl, show payload.length + 4 - 1 = payload.length + 3 from rfl,
    htake, hcrc, ne_eq, not_true, if_false, if_neg hids, if_neg hnew, hpayload]

/-- What `lora_unpack` would have kept of the frames that came before. -/
def lastFrameAfter (cfg : LoRaPara) (history : List (List UInt8)) : LastFrame :=
  history.foldl (fun last frame => (loraUnpack last frame cfg.netId (frame.getD 1 0)).2) .init

/-- The message of a frame, as `lora_unpack` would have it: with its payload, if it
accepts the frame for the device's network and the frame's sender. -/
def unpackedMessage (cfg : LoRaPara) (history : List (List UInt8)) (frame : List UInt8) : Option FifoMessage :=
  (loraUnpack (lastFrameAfter cfg history) frame cfg.netId (frame.getD 1 0)).1.toOption.map fun payload =>
    message loraData payload 0 0 0

/-- The message that `lora_receive_thread` puts into the FIFO. -/
def queuedMessage (cfg : LoRaPara) (fifo : Kfifo) (frame : List UInt8) : Option FifoMessage :=
  (loraReceive cfg fifo frame).2.1

/-- A gateway queues each frame whole, if there is room. -/
theorem queuedMessage_eq {cfg : LoRaPara} (hgateway : cfg.meshType = loraMeshGateway) (fifo : Kfifo)
    {frame : List UInt8} (hpos : 0 < frame.length) (hle : frame.length ≤ cfg.payloadSize.toNat) :
    queuedMessage cfg fifo frame = if kfifoLeft fifo < messageSize then none else some (message loraData frame 0 0 0) := by
  have hrecv : loraRecvPacket cfg frame = some frame := if_neg (by omega)
  simp only [queuedMessage, loraReceive, hrecv, if_pos hgateway, pushLoraToFifo, if_neg (Nat.ne_of_gt hpos)]
  split <;> rfl

/-- The payload that `lora_unpack` gives back is shorter than the frame. -/
theorem length_loraUnpack {last last' : LastFrame} {frame payload : List UInt8} {netid devid : UInt8}
    (h : loraUnpack last frame netid devid = (.ok payload, last')) : payload.length + 4 = frame.length := by
  unfold loraUnpack at h
  simp only at h
  split at h
  · cases h
  split at h
  · cases h
  split at h
  · cases h
  split at h
  · cases h
  cases h
  simp only [List.length_take, List.length_drop]
  omega

/-- A gateway queues the message that `lora_unpack` would make of a frame just when
it queues none for want of room and `lora_unpack` rejects the frame. -/
theorem loraReceive_eq_unpack_iff {cfg : LoRaPara} (hgateway : cfg.meshType = loraMeshGateway) (fifo : Kfifo)
    (history : List (List UInt8)) {frame : List UInt8} (hpos : 0 < frame.length)
    (hle : frame.length ≤ cfg.payloadSize.toNat) :
    queuedMessage cfg fifo frame = unpackedMessage cfg history frame ↔
      kfifoLeft fifo < messageSize ∧
        ∃ e, (loraUnpack (lastFrameAfter cfg history) frame cfg.netId (frame.getD 1 0)).1 = .error e := by
  have hbyte := cfg.payloadSize.toNat_lt
  rw [queuedMessage_eq hgateway fifo hpos hle, unpackedMessage]
  rcases hunpack : loraUnpack (lastFrameAfter cfg history) frame cfg.netId (frame.getD 1 0) with ⟨e | payload, last⟩
  · show _ = none ↔ _
    by_cases hfull : kfifoLeft fifo < messageSize
    · rw [if_pos hfull]
      exact ⟨fun _ => ⟨hfull, e, rfl⟩, fun _ => rfl⟩
    · rw [if_neg hfull]
      constructor
      · intro h
        cases h
      · intro h
        exact absurd h.1 hfull
  · show _ = some (message loraData payload 0 0 0) ↔ _
    have hlen := length_loraUnpack hunpack
    constructor
    · intro h
      by_cases hfull : kfifoLeft fifo < messageSize
      · rw [if_pos hfull] at h
        cases h
      · rw [if_neg hfull, Option.some.injEq] at h
        have hmsg : UInt32.ofNat frame.length = UInt32.ofNat payload.length := congrArg FifoMessage.len h
        rw [← UInt32.toNat_inj, UInt32.toNat_ofNat', UInt32.toNat_ofNat'] at hmsg
        omega
    · intro h
      obtain ⟨-, e, herror⟩ := h
      cases herror

/-- `data_fifo` as `main` initialises it, over zeros. -/
def emptyFifo : Kfifo := kfifoInit (List.replicate fifoSize 0) (UInt32.ofNat fifoSize)

/-- A frame of another network is queued. -/
theorem loraReceive_foreign :
    queuedMessage myLoraConfig emptyFifo (loraPack 0x02 0x0b [0x31]) =
      some (message loraData (loraPack 0x02 0x0b [0x31]) 0 0 0) ∧
    unpackedMessage myLoraConfig [] (loraPack 0x02 0x0b [0x31]) = none := by
  refine ⟨?_, by decide +kernel⟩
  rw [queuedMessage_eq rfl emptyFifo (by decide) (by decide), if_neg (by decide)]

/-- A frame of a node of the same network is queued, header and all. -/
theorem loraReceive_eq_unpack_iff_own :
    queuedMessage myLoraConfig emptyFifo (loraPack 0x01 0x0b [0x31, 0x32]) ≠
      unpackedMessage myLoraConfig [] (loraPack 0x01 0x0b [0x31, 0x32]) := by
  intro hsame
  have h := (loraReceive_eq_unpack_iff rfl emptyFifo [] (by decide) (by decide)).mp hsame
  exact absurd h.1 (by decide)

end Dtu
