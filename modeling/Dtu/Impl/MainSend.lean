import Dtu.Impl.Compact
import Dtu.Impl.Pack

/-!
# `main_send_thread`

One iteration of the loop of `main_send_thread` (`MainSend.turn`) reads the logs
and what the modules and the Bluetooth thread answer it (`Turn`), and may commit:
make `pending_offsets` its offsets, once a payload is acknowledged. A commit
changes the logs and the offset file in several steps (`DiskOp`), between which
the device can lose power. `write_file_thread` appends to the logs between the
iterations (`Action.append`), and while a BeiDou segment is under way.

The power, UART and wakeup calls of the thread only take time and are left out:
their results are in `Turn`.
-/

namespace Dtu

open Stdio

/-- Offsets of the four logs. -/
abbrev Offsets : Type := Fin mainPathCount → Nat

/-- The logs by their paths; `none` is a file that does not exist. -/
abbrev Logs : Type := Fin mainPathCount → Option (List Char)

/-- `MAIN_4G_COOLDOWN_SEC`. -/
abbrev main4gCooldownSec : Nat := 60

/-- `BD_SEND_INTERVAL_SEC`. -/
abbrev bdSendIntervalSec : Nat := 60

/-- `BD_POWER_HOLD_SEC`. -/
abbrev bdPowerHoldSec : Nat := 30

/-- `BD_FAIL_MAX`. -/
abbrev bdFailMax : Nat := 3

/-! ## Files -/

/-- The offset file: the `off_t` values in it. -/
abbrev OffsetFile : Type := Option (List Nat)

/-- `load_offsets`. -/
def loadOffsets (file : OffsetFile) : Offsets := fun i =>
  match file with
  | none => 0
  | some words => if words.length < mainPathCount then 0 else words.getD i 0

/-- What the device keeps when it loses power. -/
structure Disk where
  logs : Logs
  offsetFile : OffsetFile

/-- A step on the files: `rename` of a temporary file over a log, `open` of the
offset file with `O_TRUNC`, and `write` to it. -/
inductive DiskOp where
  | rename (i : Fin mainPathCount) (content : List Char)
  | truncateOffsets
  | writeOffsets (offsets : Offsets)

def Disk.apply (disk : Disk) : DiskOp → Disk
  | .rename i content => { disk with logs := fun j => if j = i then some content else disk.logs j }
  | .truncateOffsets => { disk with offsetFile := some [] }
  | .writeOffsets offsets => { disk with offsetFile := some (List.ofFn offsets) }

def Disk.applyAll (disk : Disk) (ops : List DiskOp) : Disk := ops.foldl Disk.apply disk

/-- `save_offsets`. -/
def saveOffsets (offsets : Offsets) : List DiskOp := [.truncateOffsets, .writeOffsets offsets]

/-- `write_file_thread` appends the lines of records. -/
def Disk.append (disk : Disk) (appended : Fin mainPathCount → List Record) : Disk :=
  { disk with
    logs := fun i =>
      if appended i = [] then disk.logs i else some ((disk.logs i).getD [] ++ logText (appended i)) }

/-- The four calls of `compact_log_file(paths[i], &offsets[i], 10)`: the renames. -/
def compactOps (logs : Logs) (offsets : Offsets) (io : Fin mainPathCount → CompactIo) : List DiskOp :=
  (List.finRange mainPathCount).filterMap fun i =>
    (compactLogFile (logs i) (offsets i) 10 (io i)).1.map fun (content, _) => .rename i content

/-- The offsets after these calls. -/
def compactOffsets (logs : Logs) (offsets : Offsets) (io : Fin mainPathCount → CompactIo) : Offsets := fun i =>
  match (compactLogFile (logs i) (offsets i) 10 (io i)).1 with
  | some (_, newOffset) => newOffset
  | none => offsets i

/-- `offsets_reached`. -/
def offsetsReached (offsets endOffsets : Offsets) : Bool := decide (∀ i, endOffsets i ≤ offsets i)

/-! ## The state -/

/-- `send_path_t`. -/
inductive SendPath where
  | auto
  | only4g
  | onlyBd
  | first4g
  | firstBd
deriving DecidableEq

/-- `main_send_state_t`. -/
inductive MainSt where
  | idle
  | try4g
  | tryBd
  | bdWait
  | powerDown
deriving DecidableEq

/-- The files and the variables of `main_send_thread`. `rawData` is
`raw_data[0..raw_len)`; `pending_offsets` and it are not read before
`MAIN_ST_IDLE` sets them. -/
structure MainSend where
  disk : Disk
  offsets : Offsets
  pendingOffsets : Offsets
  rawData : List UInt8
  nextBdSendTime : Nat
  next4gTryTime : Nat
  egReadyFailCount : Nat
  bdFailCount : Nat
  bdFallbackActive : Bool
  state : MainSt
  sendPath : SendPath
  bdBatchEndOffsets : Offsets
  bdBatchActive : Bool
  bdPowerHoldUntil : Nat

/-- `main_send_thread` before its loop. -/
def MainSend.boot (disk : Disk) : MainSend where
  disk := disk
  offsets := loadOffsets disk.offsetFile
  pendingOffsets := fun _ => 0
  rawData := []
  nextBdSendTime := 0
  next4gTryTime := 0
  egReadyFailCount := 0
  bdFailCount := 0
  bdFallbackActive := false
  state := .idle
  sendPath := .auto
  bdBatchEndOffsets := fun _ => 0
  bdBatchActive := false
  bdPowerHoldUntil := 0

/-- What an iteration is answered: whether `mesh_type` is `LORA_MESH_NODE`,
`bt_get_send_path()`, the readings of `time(NULL)` and `monotonic_sec()` in
their order, whether the calls of the modules succeed, what
`compact_log_file` can do, and what is appended to the logs while a segment
is sent over BeiDou. -/
structure Turn where
  meshNode : Bool
  sendPath : SendPath
  now : Nat
  nowFailed : Nat
  monotonic : Nat
  monotonicSent : Nat
  monotonicHold : Nat
  egReady : Bool
  egSent : Bool
  bdReady : Bool
  bdSent : Bool
  tcqSuccess : Bool
  compact : Fin mainPathCount → CompactIo
  appended : Fin mainPathCount → List Record

/-- A commit: the payload acknowledged, packed by reading lines of at most
`lineSize - 1` characters; the files and offsets just before it; and its steps
on the files. -/
structure Commit where
  payload : List UInt8
  lineSize : Nat
  disk : Disk
  offsets : Offsets
  pendingOffsets : Offsets
  ops : List DiskOp

/-! ## The iterations -/

/-- A node does not send over 4G or BeiDou: it skips to the end of its logs. -/
def MainSend.nodeTurn (s : MainSend) : MainSend :=
  let offsets : Offsets := fun i =>
    match s.disk.logs i with
    | none => s.offsets i
    | some content => content.length
  { s with offsets := offsets, disk := s.disk.applyAll (saveOffsets offsets) }

/-- `MAIN_ST_IDLE`. -/
def MainSend.idle (s : MainSend) (t : Turn) : Option MainSend :=
  (mainPackPending s.disk.logs s.offsets egMaxHexLen (egMaxHexLen / 2 + 1)).map fun r =>
    let s := { s with pendingOffsets := r.pendingOffsets, rawData := r.rawBuf }
    if r.ret ≠ 0 then s
    else if r.entryCount = 0 then { s with bdFallbackActive := false, state := .powerDown }
    else if s.bdFallbackActive ∨ t.sendPath = .onlyBd ∨ t.sendPath = .firstBd then
      { s with sendPath := t.sendPath, state := .tryBd }
    else { s with sendPath := t.sendPath, state := .try4g }

/-- The end of both failures in `MAIN_ST_TRY_4G`. -/
def MainSend.fail4g (s : MainSend) : MainSend :=
  let s := if s.sendPath ≠ .only4g ∧ s.bdBatchActive = false then
      { s with bdBatchEndOffsets := s.pendingOffsets, bdBatchActive := true }
    else s
  { s with state := if s.sendPath = .only4g then .idle else .tryBd }

/-- The commit of `MAIN_ST_TRY_4G`. -/
def MainSend.commit4g (s : MainSend) (t : Turn) : Commit where
  payload := s.rawData
  lineSize := packLineSize
  disk := s.disk
  offsets := s.offsets
  pendingOffsets := s.pendingOffsets
  ops := compactOps s.disk.logs s.pendingOffsets t.compact ++
    saveOffsets (compactOffsets s.disk.logs s.pendingOffsets t.compact)

/-- `MAIN_ST_TRY_4G`. -/
def MainSend.try4g (s : MainSend) (t : Turn) : MainSend × Option Commit :=
  if s.sendPath = .onlyBd then ({ s with state := .tryBd }, none)
  else if t.now < s.next4gTryTime then
    ({ s with state := if s.sendPath = .only4g then .idle else .tryBd }, none)
  else if t.egReady = false then
    let s := { s with egReadyFailCount := s.egReadyFailCount + 1, next4gTryTime := t.nowFailed + main4gCooldownSec }
    if 10 ≤ s.egReadyFailCount then ({ s with state := .powerDown }, none)
    else (s.fail4g, none)
  else
    let s := { s with egReadyFailCount := 0, next4gTryTime := 0 }
    if t.egSent then
      let c := s.commit4g t
      ({ s with
          disk := c.disk.applyAll c.ops
          offsets := compactOffsets s.disk.logs s.pendingOffsets t.compact
          state := .idle }, some c)
    else (s.fail4g, none)

/-- The failures of `MAIN_ST_TRY_BD`. -/
def MainSend.failBd (s : MainSend) : MainSend :=
  { s with
    bdFailCount := s.bdFailCount + 1
    state := if bdFailMax ≤ s.bdFailCount + 1 then .powerDown else .bdWait }

/-- `main_send_thread` closes the batch with the segment that reaches its end. -/
def MainSend.batchDone (s : MainSend) (pending : Offsets) : Bool :=
  s.bdBatchActive && offsetsReached pending s.bdBatchEndOffsets

/-- The commit of `MAIN_ST_TRY_BD`, of a payload packed up to `pending`. -/
def MainSend.commitBd (s : MainSend) (t : Turn) (payload : List UInt8) (pending : Offsets) : Commit where
  payload := payload
  lineSize := untilLineSize
  disk := s.disk.append t.appended
  offsets := s.offsets
  pendingOffsets := pending
  ops := saveOffsets pending ++
    if s.batchDone pending then
      compactOps (s.disk.append t.appended).logs pending t.compact ++
        saveOffsets (compactOffsets (s.disk.append t.appended).logs pending t.compact)
    else []

/-- `MAIN_ST_TRY_BD`. -/
def MainSend.tryBd (s : MainSend) (t : Turn) : Option (MainSend × Option Commit) :=
  (mainPackPendingUntil s.disk.logs s.offsets s.bdBatchEndOffsets bdMaxHexLen bdMaxRawLen).map fun r =>
    let s := { s with bdFallbackActive := true, pendingOffsets := r.pendingOffsets }
    if r.ret ≠ 0 then ({ s with state := .bdWait }, none)
    else if r.entryCount = 0 then
      ({ s with bdFallbackActive := false, bdFailCount := 0, state := .idle }, none)
    else if s.nextBdSendTime ≠ 0 ∧ t.monotonic < s.nextBdSendTime then ({ s with state := .bdWait }, none)
    else if t.bdReady = false then ({ s with disk := s.disk.append t.appended }.failBd, none)
    else if t.bdSent = false then ({ s with disk := s.disk.append t.appended }.failBd, none)
    else if t.tcqSuccess = false then ({ s with disk := s.disk.append t.appended }.failBd, none)
    else
      let c := s.commitBd t r.rawBuf r.pendingOffsets
      let s := { s with
        disk := c.disk.applyAll c.ops
        offsets := r.pendingOffsets
        nextBdSendTime := t.monotonicSent + bdSendIntervalSec
        bdPowerHoldUntil := t.monotonicHold + bdPowerHoldSec
        bdFailCount := 0 }
      if s.batchDone r.pendingOffsets then
        ({ s with
            offsets := compactOffsets c.disk.logs r.pendingOffsets t.compact
            bdBatchActive := false
            bdFallbackActive := false
            next4gTryTime := 0
            state := .idle }, some c)
      else ({ s with state := .bdWait }, some c)

/-- `MAIN_ST_BD_WAIT`. -/
def MainSend.bdWait (s : MainSend) (t : Turn) : MainSend :=
  if s.nextBdSendTime = 0 ∨ s.nextBdSendTime ≤ t.monotonic then { s with state := .tryBd }
  else { s with state := .bdWait }

/-- `MAIN_ST_POWER_DOWN`. -/
def MainSend.powerDown (s : MainSend) (t : Turn) : MainSend :=
  if s.bdPowerHoldUntil ≠ 0 ∧ t.monotonic < s.bdPowerHoldUntil then { s with state := .idle }
  else
    { s with
      bdPowerHoldUntil := 0
      bdFallbackActive := false
      bdFailCount := 0
      egReadyFailCount := 0
      next4gTryTime := 0
      state := .idle }

/-- One iteration. -/
def MainSend.turn (s : MainSend) (t : Turn) : Option (MainSend × Option Commit) :=
  if t.meshNode then some (s.nodeTurn, none)
  else
    match s.state with
    | .idle => (s.idle t).map (·, none)
    | .try4g => some (s.try4g t)
    | .tryBd => s.tryBd t
    | .bdWait => some (s.bdWait t, none)
    | .powerDown => some (s.powerDown t, none)

/-- What happens next: the thread iterates, or `write_file_thread` appends. -/
inductive Action where
  | append (appended : Fin mainPathCount → List Record)
  | turn (t : Turn)

def MainSend.step (s : MainSend) : Action → Option (MainSend × Option Commit)
  | .append appended => some ({ s with disk := s.disk.append appended }, none)
  | .turn t => s.turn t

end Dtu
