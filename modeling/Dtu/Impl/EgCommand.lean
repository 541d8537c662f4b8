import Dtu.Framework.Program
import Dtu.Impl.Eg800k

/-!
# The dialogue with the 4G module

`eg_send_cmd`, `eg_init`, `eg_connect` with its commands, and `main_ensure_eg_ready`, as programs
(`EgProgram`) of the AT commands that they send and of what else they do; what they read is up to the module. `printf`,
`tcflush` and `sleep` are left out.
-/

namespace Dtu

open Stdio Program

/-- What the functions do. -/
inductive EgOp where
  /-- Send a command, and read until `timeout_sec` or `stop_flag`. -/
  | cmd (cmd : String) (timeoutSec : Nat)
  /-- Send `AT+QIOPEN`, and poll until `timeout_sec` or `stop_flag`. -/
  | qiopen (cmd : String)
  | serverPort
  | egFdOpen
  /-- `eg_power_on` if `!eg_power_is_on()`, and `rf_power_get_generation`. -/
  | power
  | uartReopenEg
  | stopFlag
  | interruptibleSleep (seconds : Nat)
  | mainSet4gAvailable (available : Bool)
  deriving DecidableEq

/-- The answers: the reads, the polls with what an uninitialised variable holds, and what the calls return; the booleans
say that `eg_fd >= 0`, that `uart_reopen_eg` returns 0, that `stop_flag` is set and that `interruptible_sleep` returns
`-1`. -/
abbrev EgOp.Ans : EgOp → Type
  | .cmd _ _ => List (List Char)
  | .qiopen _ => Int32 × List (Option (List Char))
  | .serverPort => Int32
  | .egFdOpen => Bool
  | .power => UInt32
  | .uartReopenEg => Bool
  | .stopFlag => Bool
  | .interruptibleSleep _ => Bool
  | .mainSet4gAvailable _ => Unit

abbrev EgProgram (α : Type) : Type := Program EgOp EgOp.Ans α

/-! ## `eg_send_cmd` -/

/-- `sizeof(buf)` of `eg_send_cmd`. -/
abbrev egCmdSize : Nat := 512

/-- `expected_resp && strstr(buf, expected_resp)`. -/
def egExpected (expectedResp : Option String) (buf : List Char) : Bool :=
  expectedResp.any fun expected => (strstr expected.toList (cstr buf)).isSome

/-- `strstr(buf, "ERROR")`. -/
def egError (buf : List Char) : Bool := (strstr "ERROR".toList (cstr buf)).isSome

/-- The loop of `eg_send_cmd`, with `buf[0..total)`. A read that `buf` has no room for reads nothing. -/
def egCmdResponse (expectedResp : Option String) : List Char → List (List Char) → Int
  | _, [] => -1
  | buf, chunk :: chunks =>
    let read := chunk.take (egCmdSize - 1 - buf.length)
    if read = [] then egCmdResponse expectedResp buf chunks
    else
      let buf := buf ++ read
      if egExpected expectedResp buf then 0
      else if egError buf then -1
      else egCmdResponse expectedResp buf chunks

/-- `eg_send_cmd`. -/
def egSendCmd (cmd : String) (expectedResp : Option String) (timeoutSec : Nat) : EgProgram Int := do
  let chunks ← op (EgOp.cmd cmd timeoutSec)
  return egCmdResponse expectedResp [] chunks

/-! ## `eg_init` and `eg_connect` -/

/-- `eg_init`. -/
def egInit : EgProgram Int := do
  let sync ← egSendCmd "AT\r\n" (some "OK") 2
  if sync ≠ 0 then return -1
  let _ ← egSendCmd "ATE0\r\n" (some "OK") 3
  let ati ← egSendCmd "ATI\r\n" (some "Revision") 8
  if ati ≠ 0 then return -1
  let cpin ← egSendCmd "AT+CPIN?\r\n" (some "READY") 5
  if cpin ≠ 0 then return -1
  let _ ← egSendCmd "AT+CSQ\r\n" none 2
  let cereg ← egSendCmd "AT+CEREG?\r\n" (some "1") 10
  if cereg ≠ 0 then return -1
  let _ ← egSendCmd "AT+QICLOSE=0\r\n" (some "OK") 5
  let _ ← egSendCmd "AT+QIDEACT=1\r\n" (some "OK") 10
  let csgp ← egSendCmd "AT+QICSGP=1,1,\"CMNET\",\"\",\"\",1\r\n" (some "OK") 5
  if csgp ≠ 0 then return -1
  let act ← egSendCmd "AT+QIACT=1\r\n" (some "OK") 150
  if act ≠ 0 then return -1
  let _ ← egSendCmd "AT+QIACT?\r\n" none 2
  return 0

/-- `tcp_cmd` of `eg_connect`. -/
def tcpCmd (port : Int32) : String :=
  "AT+QIOPEN=1,0,\"TCP\",\"115.120.239.161\"," ++ toString port ++ ",0,0\r\n"

/-- `eg_connect`, with its commands. -/
def egConnectCmds : EgProgram Int := do
  let port ← op EgOp.serverPort
  let _ ← egSendCmd "AT+QICLOSE=0\r\n" (some "OK") 3
  let (stale, polls) ← op (EgOp.qiopen (tcpCmd port))
  return egConnect stale polls

/-! ## `main_ensure_eg_ready` -/

/-- `*eg_initialized`, `*eg_connected` and `*eg_power_generation_seen`. -/
structure EgFlags where
  initialized : Bool
  connected : Bool
  generationSeen : UInt32

/-- The turns of the loop from `retry` on; there are `turns` of them to go. -/
def mainConnectEg (flags : EgFlags) : Nat → EgProgram (Int × EgFlags)
  | 0 => do
    op (EgOp.mainSet4gAvailable false)
    return (-2, flags)
  | turns + 1 => do
    let stop ← op EgOp.stopFlag
    if stop then
      op (EgOp.mainSet4gAvailable false)
      return (-2, flags)
    let ret ← egConnectCmds
    if ret = 0 then
      op (EgOp.mainSet4gAvailable true)
      return (0, { flags with connected := true })
    if 0 < turns then
      let interrupted ← op (EgOp.interruptibleSleep 30)
      if interrupted then return (-1, flags)
    mainConnectEg flags turns

/-- `eg_init`, `if (!*eg_initialized)`. -/
def egInitUnless (initialized : Bool) : EgProgram Int := if initialized then pure 0 else egInit

/-- `main_ensure_eg_ready` from `if (!*eg_initialized)` on. -/
def mainInitializeEg (connectMaxRetry : Nat) (flags : EgFlags) : EgProgram (Int × EgFlags) := do
  let ret ← egInitUnless flags.initialized
  if ret ≠ 0 then
    op (EgOp.mainSet4gAvailable false)
    return (-1, flags)
  let flags := { flags with initialized := true }
  if flags.connected then
    op (EgOp.mainSet4gAvailable true)
    return (0, flags)
  mainConnectEg flags connectMaxRetry

/-- `main_ensure_eg_ready`. -/
def mainEnsureEgReady (connectMaxRetry : Nat) (flags : EgFlags) : EgProgram (Int × EgFlags) := do
  let currentGeneration ← op EgOp.power
  let fdOpen ← op EgOp.egFdOpen
  if fdOpen = false ∨ flags.generationSeen ≠ currentGeneration then
    let reopened ← op EgOp.uartReopenEg
    if reopened then mainInitializeEg connectMaxRetry ⟨false, false, currentGeneration⟩
    else
      op (EgOp.mainSet4gAvailable false)
      return (-1, flags)
  else mainInitializeEg connectMaxRetry flags

end Dtu
