import Dtu.Impl.Bd3
import Dtu.Impl.Lora
import Dtu.Impl.MainSend

/-!
# The two senders of the BeiDou module

`main_send_thread` sends segments in `MAIN_ST_TRY_BD`, and the Bluetooth thread the
payloads it has queued from lines of digits (`debug_bt_bd_flush_once`); the module
answers each packet with a `TCQ` line, whenever it likes. `BdLink` runs the three:
`MAIN_ST_TRY_BD` step by step from where the pacing lets it through, and the other
iterations of `main_send_thread` at once. The history of packets and reports
(`BdLink.sent` and what follows it) is not in the source.
-/

namespace Dtu

open Stdio

/-! ## The Bluetooth thread -/

/-- `DEBUG_BT_BD_INTERVAL_SEC`. -/
abbrev debugBtBdIntervalSec : Nat := 60

/-- `DEBUG_BT_BD_QUEUE_DEPTH`. -/
abbrev debugBtBdQueueDepth : Nat := 8

/-- `g_debug_bt_bd_queue` and `g_debug_bt_last_bd_send_time`. -/
structure DebugBt where
  gDebugBtBdQueue : List (List UInt8)
  gDebugBtLastBdSendTime : Nat

/-- `debug_bt_bd_enqueue`. -/
def debugBtBdEnqueue (d : DebugBt) (data : List UInt8) : DebugBt × Int :=
  if data.length = 0 then (d, -1)
  else if bdMaxRawLen - 2 < data.length * 2 then (d, -2)
  else if debugBtBdQueueDepth ≤ d.gDebugBtBdQueue.length then (d, -3)
  else ({ d with gDebugBtBdQueue := d.gDebugBtBdQueue ++ [data] }, 0)

/-- `debug_bt_handle_hex_payload_line`: what it queues for the BeiDou module. -/
def debugBtHandleHexPayloadLine (d : DebugBt) (line : List Char) : DebugBt :=
  if line = [] then d
  else if "BL_".toList.isPrefixOf line then d
  else
    match debugParsePlainHex line debugBtMaxRawLen with
    | none => d
    | some payload => (debugBtBdEnqueue d payload).1

/-- `debug_bt_bd_flush_once` up to the call of `bd_send_packet`: the packet it sends,
unless it returns 0 before. `now` is `time(NULL)`. -/
def debugBtBdFlushOnce (d : DebugBt) (now : Nat) : Option (List UInt8 × DebugBt) :=
  match d.gDebugBtBdQueue with
  | [] => none
  | data :: queue =>
    if d.gDebugBtLastBdSendTime ≠ 0 ∧ now < d.gDebugBtLastBdSendTime + debugBtBdIntervalSec then none
    else some (data, ⟨queue, now⟩)

/-! ## The module -/

/-- The report on a packet in a line that `bd_status_parse_line` takes for one:
whether it is positive. -/
def tcqReport (line : List Char) : Option Bool :=
  if isReadyLine line then none
  else if "$BDPWI,".toList.isPrefixOf line then none
  else if "$BDFKI,".toList.isPrefixOf line then
    match scanFki line with
    | some (cmd, yn, code) => if cmd = "TCQ".toList then some (decide (yn = 'Y' ∧ code = 0)) else none
    | none => none
  else none

/-- What `main_send_thread` sends over BeiDou: its offsets, and those up to which it
has packed, after so many commits and iterations as a node. -/
structure BdSegment where
  epoch : Nat
  offsets : Offsets
  pendingOffsets : Offsets
  data : List UInt8
deriving DecidableEq

/-- A packet handed to the module: its segment if it is from `main_send_thread`, and
the monotonic clock and `g_debug_bt_last_bd_send_time` at that time. -/
structure Packet where
  data : List UInt8
  segment : Option BdSegment
  clock : Nat
  lastBdSendTime : Nat

/-! ## The threads -/

/-- Where `main_send_thread` is in `MAIN_ST_TRY_BD`: before `main_ensure_bd_ready`, in
`bd_wait_ready_and_pwi`, before `bd_get_tcq_seq`, before `bd_send_packet`, and in
`bd_wait_tcq_success` of the packet with number `i`. -/
inductive BdStage where
  | ensure
  | ready
  | sample
  | send (tcqSeqBefore : UInt32)
  | wait (tcqSeqBefore : UInt32) (i : Nat)

/-- `main_send_thread` is before an iteration, or in `MAIN_ST_TRY_BD` with a segment
packed. -/
inductive BdPc where
  | loop
  | tryBd (t : Turn) (r : PackResult mainPathCount) (stage : BdStage)

/-- The threads, `monotonic_sec()` and `time(NULL)`; `btSending` is the packet of the
Bluetooth thread before its `bd_send_packet`. `sent` are the packets handed to the
module, the last one last: their indices are their numbers. `acknowledged` are those
that `main_send_thread` has taken as acknowledged, `replies` the reports on packets,
and `epoch` is how often the offsets or the logs before them have changed. -/
structure BdLink where
  main : MainSend
  pc : BdPc
  status : BdStatus
  debug : DebugBt
  btSending : Option (List UInt8)
  clock : Nat
  wall : Nat
  sent : List Packet
  acknowledged : List Nat
  replies : List (Nat × Bool)
  epoch : Nat

def BdLink.boot (disk : Disk) (clock wall : Nat) : BdLink where
  main := .boot disk
  pc := .loop
  status := .init
  debug := ⟨[], 0⟩
  btSending := none
  clock := clock
  wall := wall
  sent := []
  acknowledged := []
  replies := []
  epoch := 0

inductive BdAction where
  /-- `write_file_thread` appends, between iterations of `main_send_thread`. -/
  | append (appended : Fin mainPathCount → List Record)
  /-- `main_send_thread` begins an iteration. -/
  | turn (t : Turn)
  /-- Its next step in `MAIN_ST_TRY_BD`; `ok` is `bd_power_is_on()`, or that
  `data_send` succeeds, or that a wait is not over by time. -/
  | main (ok : Bool)
  /-- The Bluetooth thread gets a line. -/
  | btLine (line : List Char)
  | btFlush
  | btSend
  /-- The module reports on the packet with number `i`. -/
  | reply (i : Nat) (line : List Char)
  /-- It sends another line. -/
  | line (line : List Char)
  | tick (clock wall : Nat)

/-- `MAIN_ST_TRY_BD` packs a segment, and the pacing lets it through. -/
def MainSend.bdDue (s : MainSend) (t : Turn) : Option (PackResult mainPathCount) :=
  if t.meshNode ∨ s.state ≠ .tryBd then none
  else
    match mainPackPendingUntil s.disk.logs s.offsets s.bdBatchEndOffsets bdMaxHexLen bdMaxRawLen with
    | none => none
    | some r =>
      if r.ret ≠ 0 ∨ r.entryCount = 0 then none
      else if s.nextBdSendTime ≠ 0 ∧ t.monotonic < s.nextBdSendTime then none
      else some r

namespace BdLink

/-- `bd_send_packet` of either thread. -/
def transmit (s : BdLink) (data : List UInt8) (segment : Option BdSegment) : BdLink :=
  if (bdSendPacket data).isSome then
    { s with sent := s.sent ++ [⟨data, segment, s.clock, s.debug.gDebugBtLastBdSendTime⟩] }
  else s

/-- The segment that is packed. -/
def segment (s : BdLink) (r : PackResult mainPathCount) : BdSegment :=
  ⟨s.epoch, s.main.offsets, r.pendingOffsets, r.rawBuf⟩

/-- `main_send_thread` ends an iteration. -/
def finish (s : BdLink) (t : Turn) : Option (BdLink × Option Commit) :=
  (s.main.turn t).map fun r =>
    ({ s with main := r.1, pc := .loop, epoch := if t.meshNode ∨ r.2.isSome then s.epoch + 1 else s.epoch }, r.2)

/-- What `bd_wait_tcq_success` returns 0 for. -/
def tcqSuccess (s : BdLink) (tcqSeqBefore : UInt32) : Bool :=
  decide (s.status.gBdTcqSeq ≠ tcqSeqBefore ∧ s.status.gBdTcqResult = 1)

/-- The step of `MAIN_ST_TRY_BD`. -/
def mainStep (s : BdLink) (t : Turn) (r : PackResult mainPathCount) (ok : Bool) :
    BdStage → Option (BdLink × Option Commit)
  | .ensure =>
    some ({ s with status := if ok then s.status else bdStatusReset s.status, pc := .tryBd t r .ready }, none)
  | .ready =>
    if ok = false then s.finish { t with bdReady := false }
    else if s.status.gBdReadySeen then some ({ s with pc := .tryBd t r .sample }, none)
    else some (s, none)
  | .sample => some ({ s with pc := .tryBd t r (.send s.status.gBdTcqSeq) }, none)
  | .send tcqSeqBefore =>
    if (bdSendPacket r.rawBuf).isSome && ok then
      some ({ s.transmit r.rawBuf (some (s.segment r)) with
        pc := .tryBd t r (.wait tcqSeqBefore s.sent.length) }, none)
    else (s.transmit r.rawBuf (some (s.segment r))).finish { t with bdReady := true, bdSent := false }
  | .wait tcqSeqBefore i =>
    if s.status.gBdTcqSeq = tcqSeqBefore ∧ ok then some (s, none)
    else
      { s with acknowledged := if s.tcqSuccess tcqSeqBefore then i :: s.acknowledged else s.acknowledged }.finish
        { t with
          bdReady := true
          bdSent := true
          tcqSuccess := s.tcqSuccess tcqSeqBefore
          monotonicSent := s.clock }

/-- A line arrives from the module. -/
def parseLine (s : BdLink) (line : List Char) : BdLink :=
  { s with status := bdStatusParseLine s.clock s.status line }

def step (s : BdLink) : BdAction → Option (BdLink × Option Commit)
  | .append appended =>
    match s.pc with
    | .loop => some ({ s with main := { s.main with disk := s.main.disk.append appended } }, none)
    | .tryBd _ _ _ => none
  | .turn t =>
    match s.pc with
    | .loop =>
      if t.monotonic ≠ s.clock then none
      else
        match s.main.bdDue t with
        | some r => some ({ s with pc := .tryBd t r .ensure }, none)
        | none => s.finish t
    | .tryBd _ _ _ => none
  | .main ok =>
    match s.pc with
    | .loop => none
    | .tryBd t r stage => s.mainStep t r ok stage
  | .btLine line =>
    if s.btSending.isSome then none
    else some ({ s with debug := debugBtHandleHexPayloadLine s.debug line }, none)
  | .btFlush =>
    if s.btSending.isSome then none
    else
      (debugBtBdFlushOnce s.debug s.wall).map fun (data, debug) =>
        ({ s with debug := debug, btSending := some data }, none)
  | .btSend => s.btSending.map fun data => ({ s.transmit data none with btSending := none }, none)
  | .reply i line =>
    if i < s.sent.length ∧ i ∉ s.replies.map Prod.fst then
      (tcqReport line).map fun positive =>
        ({ s.parseLine line with replies := (i, positive) :: s.replies }, none)
    else none
  | .line line => if (tcqReport line).isSome then none else some (s.parseLine line, none)
  | .tick clock wall => if clock < s.clock then none else some ({ s with clock := clock, wall := wall }, none)

end BdLink

end Dtu
