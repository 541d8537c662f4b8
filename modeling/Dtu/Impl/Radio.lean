import Dtu.Framework.Program
import Dtu.Impl.Lora

/-!
# The LLCC68

The functions of `llcc68.c` that drive the chip, as programs of what they call
(`RadioOp`): they read the lines BUSY and DIO1, transfer bytes over SPI, and take and
release `g_lora_lock`. What these answer is up to the chip. `usleep` and `printf` are
left out.
-/

namespace Dtu

open Program

/-- What the functions call. -/
inductive RadioOp where
  | busy
  | dio1
  | spi (tx : List UInt8)
  | lock
  | unlock

/-- What that answers: the level of a line, and the bytes that came in. -/
abbrev RadioOp.Ans : RadioOp → Type
  | .busy => Bool
  | .dio1 => Bool
  | .spi _ => List UInt8
  | .lock => Unit
  | .unlock => Unit

/-- A function that drives the chip. -/
abbrev RadioProgram (α : Type) : Type := Program RadioOp RadioOp.Ans α

/-! ## Commands -/

/-- `CheckBusy`: the loop, with `timeout_ms - cnt` readings to go. -/
def checkBusy : Nat → RadioProgram Int
  | 0 => return -1
  | timeoutMs + 1 => do
    let busy ← op RadioOp.busy
    if busy then checkBusy timeoutMs else return 0

/-- `lora_write_cmd`. -/
def loraWriteCmd (opcode : UInt8) (params : List UInt8) : RadioProgram Int := do
  if 16 < params.length + 1 then return -1
  let ready ← checkBusy 100
  if ready ≠ 0 then return -1
  let _ ← op (RadioOp.spi (opcode :: params))
  return 0

/-- A command of the chip. -/
def command (opcode : UInt8) (params : List UInt8) : RadioProgram Unit := do
  let ready ← checkBusy 100
  if ready ≠ 0 then return
  let _ ← loraWriteCmd opcode params

/-- The high and the low byte of a word. -/
def bytesOf (w : UInt16) : List UInt8 := [(w >>> 8).toUInt8, w.toUInt8]

/-- `SetStandby`. -/
def setStandby (stdbyConfig : UInt8) : RadioProgram Unit := command 0x80 [stdbyConfig]

/-- `SetPacketParams`. -/
def setPacketParams (payloadLen : UInt8) : RadioProgram Unit :=
  command 0x8C (bytesOf 8 ++ [0x00, payloadLen, 0x01, 0x00, 0xFF, 0xFF, 0xFF])

/-- `SetBufferBaseAddress`. -/
def setBufferBaseAddress (txBaseAddr rxBaseAddr : UInt8) : RadioProgram Unit := command 0x8F [txBaseAddr, rxBaseAddr]

/-- `ClearIrqStatus`. -/
def clearIrqStatus (irq : UInt16) : RadioProgram Unit := command 0x02 (bytesOf irq)

/-- `SetDioIrqParams`. -/
def setDioIrqParams (irq : UInt16) : RadioProgram Unit := command 0x08 (bytesOf irq ++ bytesOf irq ++ [0, 0, 0, 0])

/-- `SetRx`. -/
def setRx (timeout : UInt32) : RadioProgram Unit :=
  command 0x82 [(timeout >>> 16).toUInt8, (timeout >>> 8).toUInt8, timeout.toUInt8]

/-- `SetTx`. -/
def setTx (timeout : UInt32) : RadioProgram Unit :=
  command 0x83 [(timeout >>> 16).toUInt8, (timeout >>> 8).toUInt8, timeout.toUInt8]

/-- `TxDone_IRQ`. -/
abbrev txDoneIrq : UInt16 := 0x01

/-- `RxDone_IRQ`. -/
abbrev rxDoneIrq : UInt16 := 0x02

/-- `IRQ_RX_DEBUG_MASK`. -/
abbrev irqRxDebugMask : UInt16 := 0x027E

/-- `RxInit`; `payloadSize` is `lora_para_pt->payload_size`. -/
def rxInit (payloadSize : UInt8) : RadioProgram Unit := do
  setStandby 0
  setPacketParams payloadSize
  setBufferBaseAddress 0 0
  clearIrqStatus 0xFFFF
  setDioIrqParams irqRxDebugMask
  setRx 0xFFFFFF

/-! ## Readings -/

/-- `GetIrqStatus`. -/
def getIrqStatus : RadioProgram UInt16 := do
  let ready ← checkBusy 100
  if ready ≠ 0 then return 0xFFFF
  let rxBuf ← op (RadioOp.spi [0x12, 0xFF, 0xFF, 0xFF])
  return ((rxBuf.getD 2 0).toUInt16 <<< 8) ||| (rxBuf.getD 3 0).toUInt16

/-- `GetRxBufferStatus`: `payload_len` and `buf_pointer`. -/
def getRxBufferStatus : RadioProgram (UInt8 × UInt8) := do
  let ready ← checkBusy 100
  if ready ≠ 0 then return (0, 0)
  let rxBuf ← op (RadioOp.spi [0x13, 0xFF, 0xFF, 0xFF])
  return (rxBuf.getD 2 0, rxBuf.getD 3 0)

/-- `ReadBuffer`: what it stores in `data`, if it does. -/
def readBuffer (offset length : UInt8) : RadioProgram (Option (List UInt8)) := do
  if length < 1 then return none
  if 260 < 3 + length.toNat then return none
  let ready ← checkBusy 100
  if ready ≠ 0 then return none
  let rxBuf ← op (RadioOp.spi (0x1E :: offset :: 0xFF :: List.replicate length.toNat 0xFF))
  return some ((List.range length.toNat).map fun i => rxBuf.getD (3 + i) 0)

/-- `WriteBuffer`. -/
def writeBuffer (offset : UInt8) (data : List UInt8) : RadioProgram Unit := do
  if data.length < 1 then return
  if 260 < 2 + data.length then return
  let ready ← checkBusy 100
  if ready ≠ 0 then return
  let _ ← op (RadioOp.spi (0x0E :: offset :: data))

/-! ## `Lora_send` and `Lora_recv_packet` -/

/-- `WaitForIRQ_TxDone`: the loop, with `timeout_ms` turns to go, and what follows it. -/
def waitForIrqTxDone : Nat → RadioProgram Bool
  | 0 => do
    let _ ← getIrqStatus
    let _ ← op RadioOp.dio1
    clearIrqStatus 0xFFFF
    return false
  | timeoutMs + 1 => do
    let dio1 ← op RadioOp.dio1
    if dio1 then
      let irq ← getIrqStatus
      if irq &&& txDoneIrq ≠ 0 then
        clearIrqStatus txDoneIrq
        return true
      if irq ≠ 0 then clearIrqStatus irq
    waitForIrqTxDone timeoutMs

/-- `Lora_send`. -/
def loraSend (payloadSize : UInt8) (payload : List UInt8) : RadioProgram Int := do
  if payload.length = 0 then return -1
  op RadioOp.lock
  setStandby 0
  setBufferBaseAddress 0 0
  writeBuffer 0 payload
  setPacketParams (UInt8.ofNat payload.length)
  clearIrqStatus 0xFFFF
  setDioIrqParams txDoneIrq
  setTx 0
  let ok ← waitForIrqTxDone 3000
  rxInit payloadSize
  op RadioOp.unlock
  return if ok then 0 else -1

/-- `Lora_recv_packet`: what it returns, and `payload[0..*out_len)` where that is 1; what
was in `payload` is `stale`. -/
def loraRecv (payloadSize : UInt8) (stale : List UInt8) : RadioProgram (Int × List UInt8) := do
  op RadioOp.lock
  let dio1 ← op RadioOp.dio1
  if !dio1 then
    op RadioOp.unlock
    return (0, [])
  let irqStatus ← getIrqStatus
  if irqStatus &&& rxDoneIrq ≠ rxDoneIrq then
    clearIrqStatus irqStatus
    op RadioOp.unlock
    return (0, [])
  let (packetSize, bufOffset) ← getRxBufferStatus
  if packetSize = 0 ∨ payloadSize < packetSize then
    clearIrqStatus rxDoneIrq
    rxInit payloadSize
    op RadioOp.unlock
    return (-2, [])
  let data ← readBuffer bufOffset packetSize
  clearIrqStatus rxDoneIrq
  rxInit payloadSize
  op RadioOp.unlock
  return (1, data.getD (stale.take packetSize.toNat))

end Dtu
