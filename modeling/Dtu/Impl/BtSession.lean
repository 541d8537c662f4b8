import Dtu.Framework.Replies
import Dtu.Impl.Bluetooth
import Dtu.Impl.BtComm

/-!
# A line of the Bluetooth thread

What `bt_comm_thread` does with a line that it has received, with `DEBUG` defined:
`debug_bt_handle_hex_payload_line` takes data, and `bt_handle_simple_command` the commands. They run as
programs of what they call.
-/

namespace Dtu

open Program

/-- What `debug_bt_handle_hex_payload_line` calls. -/
inductive DebugOp where
  | debugBtPushToFifo (data : List UInt8)
  | notifyDataWakeup
  | debugBtBdEnqueue (data : List UInt8)
  | debugBtBdFlushOnce
  | egConnected
  | egSendData (data : List UInt8)
  | loraSendPacket (netid devid : UInt8) (data : List UInt8)

/-- What that returns. -/
abbrev DebugOp.Ans : DebugOp → Type
  | .debugBtPushToFifo _ => Int
  | .notifyDataWakeup => Unit
  | .debugBtBdEnqueue _ => Int
  | .debugBtBdFlushOnce => Int
  | .egConnected => Bool
  | .egSendData _ => Int
  | .loraSendPacket _ _ _ => Int

/-- What the thread calls for a line. -/
inductive BtLineOp where
  | bt (o : BtOp)
  | debug (o : DebugOp)

abbrev BtLineOp.Ans : BtLineOp → Type
  | .bt o => o.Ans
  | .debug o => o.Ans

abbrev BtLineProgram (α : Type) : Type := Program BtLineOp BtLineOp.Ans α

/-- A function of `bluetooth.c`. -/
def ofBt {α : Type} (p : BtProgram α) : BtLineProgram α := embed BtLineOp.bt (fun _ => id) p

/-- `debug_bt_send_4g_now`. -/
def debugBtSend4gNow (data : List UInt8) : BtLineProgram Int := do
  if data.length = 0 then return -1
  let connected ← op (BtLineOp.debug .egConnected)
  if !connected then return -2
  let ret ← op (BtLineOp.debug (.egSendData data))
  if ret = 0 then return 0 else return -1

/-- `debug_bt_send_lora_by_rule`, with its configuration and what it returns. -/
def debugBtSendLora (data : List UInt8) : BtLineProgram Int := do
  let cfg ← op (BtLineOp.bt .loraCfgGet)
  if cfg.meshType ≠ loraMeshNode then return -2
  if cfg.payloadSize.toNat < data.length then return -4
  let ret ← op (BtLineOp.debug (.loraSendPacket cfg.netId cfg.devId data))
  if ret = 0 then return 0 else return -1

/-- `ack` of `debug_bt_handle_hex_payload_line`; `char ack[128]`. -/
def debugAck (bdQueueRet bdFlushRet egRet loraRet : Int) : List Char :=
  ("BL_DEBUG_ACK,BD_Q=" ++ toString bdQueueRet ++ ",BD_FLUSH=" ++ toString bdFlushRet ++ ",4G=" ++ toString egRet ++
    ",LORA=" ++ toString loraRet ++ "\r\n").toList.take 127

/-- `debug_bt_handle_hex_payload_line`: whether it has taken the line. -/
def BtLine.debugBtHandleHexPayloadLine (line : List Char) : BtLineProgram Bool := do
  if line = [] then return false
  if "BL_".toList.isPrefixOf line then return false
  match debugParsePlainHex line debugBtMaxRawLen with
  | none =>
    op (BtLineOp.bt (.sendText "BL_DEBUG_DATA_ERR\r\n".toList))
    return true
  | some payload =>
    let _ ← op (BtLineOp.debug (.debugBtPushToFifo payload))
    op (BtLineOp.debug .notifyDataWakeup)
    let bdQueueRet ← op (BtLineOp.debug (.debugBtBdEnqueue payload))
    let bdFlushRet ← op (BtLineOp.debug .debugBtBdFlushOnce)
    let egRet ← debugBtSend4gNow payload
    let loraRet ← debugBtSendLora payload
    op (BtLineOp.bt (.sendText (debugAck bdQueueRet bdFlushRet egRet loraRet)))
    return true

/-- What `bt_comm_thread` does with a line. -/
def btCommLine (line : List Char) : BtLineProgram Unit := do
  let handled ← BtLine.debugBtHandleHexPayloadLine line
  if !handled then ofBt (btHandleSimpleCommand line)

/-- The lines of a session, one after the other. -/
def btCommSession : List (List Char) → BtLineProgram Unit
  | [] => pure ()
  | line :: lines => do
    btCommLine line
    btCommSession lines

end Dtu
