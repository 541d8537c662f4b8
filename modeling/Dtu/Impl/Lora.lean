import Dtu.Impl.Kfifo
import Dtu.Impl.MainSend

/-!
# LoRa

The frames of `llcc68.c` (`lora_pack`, `lora_unpack`, `Lora_send_packet`,
`Lora_recv_packet`) and the threads over them: `lora_transform_thread`, which
packs the RS485 and RS232 logs of a node into frames, `debug_bt_send_lora_by_rule`
and `lora_receive_thread`. The radio is an answer to `Lora_send` and a list of
bytes that `Lora_recv_packet` is given.
-/

namespace Dtu

open Stdio

/-- The fields of `loRa_Para_t` that the threads read. -/
structure LoRaPara where
  isRoot : UInt8
  meshType : UInt8
  netId : UInt8
  devId : UInt8
  payloadSize : UInt8

/-- `LORA_MESH_GATEWAY`. -/
abbrev loraMeshGateway : UInt8 := 0x01

/-- `LORA_MESH_NODE`. -/
abbrev loraMeshNode : UInt8 := 0x00

/-- `LORA_MESH_ROOT`. -/
abbrev loraMeshRoot : UInt8 := 0xff

/-- `my_lora_config` as `main.c` initialises it. `lora_cfg_set` changes all of these
fields but `payload_size`. -/
def myLoraConfig : LoRaPara where
  isRoot := loraMeshRoot
  meshType := loraMeshGateway
  netId := 0x01
  devId := 0x0a
  payloadSize := 64

/-! ## Frames -/

/-- The turn of `crc16` for one bit. -/
def crc16Bit (crc : UInt16) : UInt16 := if crc &&& 1 ≠ 0 then (crc >>> 1) ^^^ 0xA001 else crc >>> 1

/-- `crc16`. -/
def crc16 (data : List UInt8) : UInt16 := data.foldl (fun crc b => crc16Bit^[8] (crc ^^^ b.toUInt16)) 0xFFFF

/-- `lora_pack`: `out_buf[0..len)`. -/
def loraPack (netid devid : UInt8) (payload : List UInt8) : List UInt8 :=
  let out := netid :: devid :: payload
  let crc := crc16 out
  out ++ [(crc &&& 0xFF).toUInt8, ((crc >>> 8) &&& 0xFF).toUInt8]

/-- `Lora_send_packet`, whose `size` is a `uint8_t`: the frame in `buf`, and the
`uint8_t` size of it with which it calls `Lora_send`; `none` where it returns -1. -/
def loraSendPacket (netid devid : UInt8) (payload : List UInt8) : Option (List UInt8 × UInt8) :=
  let size := UInt8.ofNat payload.length
  if size = 0 then none
  else
    let buf := loraPack netid devid (payload.take size.toNat)
    some (buf, UInt8.ofNat buf.length)

/-- What `lora_unpack` keeps of the last frame it has accepted. -/
structure LastFrame where
  lastFrame : List UInt8
  lastLen : Nat

/-- `last_frame` and `last_len` before the first frame. -/
def LastFrame.init : LastFrame := ⟨[], 0⟩

/-- `lora_unpack`: the payload of the frame, or the error it returns. -/
def loraUnpack (last : LastFrame) (buf : List UInt8) (expectNetid expectDevid : UInt8) :
    Except Int (List UInt8) × LastFrame :=
  let len := buf.length
  if len < 4 then (.error (-1), last)
  else
    let recvCrc := (buf.getD (len - 2) 0).toUInt16 ||| ((buf.getD (len - 1) 0).toUInt16 <<< 8)
    let calcCrc := crc16 (buf.take (len - 2))
    if recvCrc ≠ calcCrc then (.error (-2), last)
    else if buf.getD 0 0 ≠ expectNetid ∨ buf.getD 1 0 ≠ expectDevid then (.error (-3), last)
    else if len = last.lastLen ∧ buf = last.lastFrame.take len then (.error (-4), last)
    else (.ok ((buf.drop 2).take (len - 4)), ⟨buf, len⟩)

/-- What a caller of `lora_unpack` has in `out_payload` and `*out_len`. -/
structure UnpackOut where
  outPayload : List UInt8
  outLen : Int

/-- A call of `lora_unpack`: `buf[0..len)`, the ids it expects, and what it finds where
it stores. -/
structure UnpackCall where
  buf : List UInt8
  expectNetid : UInt8
  expectDevid : UInt8
  out : UnpackOut

/-- `lora_unpack` with what it returns and stores. -/
def UnpackCall.run (c : UnpackCall) (last : LastFrame) : Int × LastFrame × UnpackOut :=
  match loraUnpack last c.buf c.expectNetid c.expectDevid with
  | (.error e, last) => (e, last, c.out)
  | (.ok payload, last) => (0, last, ⟨payload ++ c.out.outPayload.drop payload.length, payload.length⟩)

/-- `Lora_recv_packet` when the radio has a packet for it: what it stores when it
returns 1; `none` where it returns -2. -/
def loraRecvPacket (para : LoRaPara) (packet : List UInt8) : Option (List UInt8) :=
  if packet.length = 0 ∨ para.payloadSize.toNat < packet.length then none else some packet

/-! ## `lora_transform_thread` -/

/-- `LORA_MAX_HEX_LEN`. -/
abbrev loraMaxHexLen : Nat := 256

/-- `sizeof(payload)` of `lora_transform_thread`. -/
abbrev loraPayloadSize : Nat := 256

/-- The loop that decodes `hex_buf`, two characters a turn; `k` is `payload_len`.
Its variable `byte` is not initialised: `stale k` is what it holds where `sscanf`
finds no number in turn `k`. -/
def loraDecode (stale : Nat → UInt8) : Nat → List Char → List UInt8
  | _, [] => []
  | k, [c] => if k < loraPayloadSize then [((scanX2 [c]).map UInt8.ofNat).getD (stale k)] else []
  | k, c :: d :: hex =>
    if k < loraPayloadSize then
      ((scanX2 (c :: d :: hex)).map UInt8.ofNat).getD (stale k) :: loraDecode stale (k + 1) hex
    else []

/-- `payload[0..payload_len)`. -/
def loraPayload (stale : Nat → UInt8) (b : HexBatch) : List UInt8 := loraDecode stale 0 (b.hexBuf.take b.hexLen)

/-- `load_offsets` of `n` offsets. -/
def loadOffsetsOf (n : Nat) (file : OffsetFile) : Fin n → Nat := fun i =>
  match file with
  | none => 0
  | some words => if words.length < n then 0 else words.getD i 0

/-- The RS485 and the RS232 log, as the records that `write_file_thread` has logged,
`offsets` of `lora_transform_thread`, `OFFSET_FILE_LORA`, and the payloads for which
`Lora_send_packet` has returned 0. A log without records may be missing. -/
structure LoraSend where
  records : Fin 2 → List Record
  offsets : Fin 2 → Nat
  offsetFile : OffsetFile
  delivered : List (List UInt8)

/-- A device that has not logged anything. -/
def LoraSend.blank : LoraSend := ⟨fun _ => [], fun _ => 0, none, []⟩

/-- What an iteration of `lora_transform_thread` finds and is answered: the
parameters, what its uninitialised variable holds, and whether `Lora_send`
returns 0. -/
structure LoraTurn where
  cfg : LoRaPara
  stale : Nat → UInt8
  sent : Bool

/-- What happens next. -/
inductive LoraAction where
  /-- `write_file_thread` appends records. -/
  | append (appended : Fin 2 → List Record)
  /-- The thread iterates. -/
  | iterate (t : LoraTurn)
  /-- The device loses power in an iteration, behind `Lora_send_packet` and `steps` of
  the steps of `save_offsets`, and starts again. -/
  | cut (t : LoraTurn) (steps : Nat)
  /-- The device loses power while the thread sleeps, and starts again. -/
  | restart
  /-- The thread leaves its loop, and the program is started again. -/
  | stop

/-- `pack_data_from_files` as `lora_transform_thread` calls it. -/
def LoraSend.pack (s : LoraSend) : Option (HexBatch × (Fin 2 → Nat)) :=
  packDataFromFiles (fun i => some (logText (s.records i))) s.offsets loraMaxHexLen

/-- A call of `pack_data_from_files` by `lora_transform_thread`, whose offsets it moves. -/
def sendLora (files : Fin 2 → Option (List Char)) (offsets : Fin 2 → Nat) : Option (Fin 2 → Nat) :=
  (packDataFromFiles files offsets loraMaxHexLen).map (·.2)

/-- An iteration up to `save_offsets`: the state, and whether it gets there. -/
def LoraSend.transmit (s : LoraSend) (t : LoraTurn) : Option (LoraSend × Bool) :=
  if t.cfg.meshType ≠ loraMeshNode then some (s, false)
  else s.pack.map fun (b, pending) =>
    if 0 < b.entryCount then
      let payload := loraPayload t.stale b
      let ret0 := (loraSendPacket t.cfg.netId t.cfg.devId payload).isSome && t.sent
      ({ s with offsets := pending, delivered := if ret0 then payload :: s.delivered else s.delivered }, true)
    else ({ s with offsets := pending }, false)

/-- The offset file after some of the steps of `save_offsets`: `open` with `O_TRUNC`,
and `write`. -/
def savedFile (file : OffsetFile) (offsets : Fin 2 → Nat) (steps : Nat) : OffsetFile :=
  if steps = 0 then file else if steps = 1 then some [] else some (List.ofFn offsets)

/-- The thread starts: it does not read the offset file. -/
def LoraSend.start (s : LoraSend) : LoraSend := { s with offsets := fun _ => 0 }

def LoraSend.step (s : LoraSend) : LoraAction → Option (LoraSend × Unit)
  | .append appended => some ({ s with records := fun i => s.records i ++ appended i }, ())
  | .iterate t => (s.transmit t).map fun (s, save) =>
    ({ s with offsetFile := savedFile s.offsetFile s.offsets (if save then 2 else 0) }, ())
  | .cut t steps => (s.transmit t).map fun (s, save) =>
    (LoraSend.start { s with offsetFile := savedFile s.offsetFile s.offsets (if save then steps else 0) }, ())
  | .restart => some (s.start, ())
  | .stop => some (LoraSend.start { s with offsetFile := savedFile s.offsetFile s.offsets 2 }, ())

/-! ## `debug_bt_send_lora_by_rule` -/

/-- `DEBUG_BT_MAX_RAW_LEN`. -/
abbrev debugBtMaxRawLen : Nat := 128

/-- The loop of `debug_parse_plain_hex` that copies digits into `clean[512]`; `none`
where it returns -1. -/
def cleanHex : Nat → List Char → Option (List Char)
  | 0, _ => some []
  | _ + 1, [] => some []
  | room + 1, c :: str =>
    if c = ' ' ∨ c = '\r' ∨ c = '\n' ∨ c = '\t' then cleanHex (room + 1) str
    else if (hexVal c).isNone then none
    else (cleanHex room str).map (c :: ·)

/-- The bytes of pairs of digits. -/
def hexPairs : List Char → Option (List UInt8)
  | c :: d :: clean =>
    match hexVal c, hexVal d with
    | some high, some low => (hexPairs clean).map (hexByte high low :: ·)
    | _, _ => none
  | _ => some []

/-- `debug_parse_plain_hex`: `out[0..byte_len)`, or `none` where it returns -1. -/
def debugParsePlainHex (str : List Char) (outMax : Nat) : Option (List UInt8) :=
  if outMax = 0 then none
  else
    match cleanHex (512 - 1) str with
    | none => none
    | some clean =>
      if clean.length = 0 ∨ clean.length % 2 ≠ 0 then none
      else if outMax < clean.length / 2 then none
      else hexPairs clean

/-- `debug_bt_send_lora_by_rule`: the payload with which it calls
`Lora_send_packet`, if it does. -/
def debugBtSendLoraByRule (cfg : LoRaPara) (data : List UInt8) : Option (List UInt8) :=
  if cfg.meshType ≠ loraMeshNode then none
  else if cfg.payloadSize.toNat < data.length then none
  else some data

/-! ## `lora_receive_thread` -/

/-- `LORA_DATA`. -/
abbrev loraData : UInt32 := 5

/-- `push_lora_to_fifo` of at most 255 bytes: the FIFO after it, and the message it
has put. -/
def pushLoraToFifo (fifo : Kfifo) (data : List UInt8) : Kfifo × Option FifoMessage :=
  if data.length = 0 then (fifo, none)
  else
    let msg := message loraData data 0 0 0
    if kfifoLeft fifo < messageSize then (fifo, none)
    else ((kfifoPut fifo msg.bytes messageSize).1, some msg)

/-- An iteration of `lora_receive_thread` whose radio has a packet: the FIFO after it,
the message it has put, and the frame it sends on. -/
def loraReceive (cfg : LoRaPara) (fifo : Kfifo) (packet : List UInt8) :
    Kfifo × Option FifoMessage × Option (List UInt8) :=
  match loraRecvPacket cfg packet with
  | none => (fifo, none, none)
  | some rxBuf =>
    if cfg.meshType = loraMeshGateway then
      let (fifo, msg) := pushLoraToFifo fifo rxBuf
      (fifo, msg, none)
    else if cfg.meshType = loraMeshNode then
      if cfg.isRoot = loraMeshRoot then (fifo, none, none) else (fifo, none, some rxBuf)
    else (fifo, none, none)

end Dtu
