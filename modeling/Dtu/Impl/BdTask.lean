import Dtu.Framework.Ring
import Dtu.Framework.Runs
import Dtu.Impl.Bd3
import Dtu.Impl.MainSend

/-!
# A block sent over BeiDou segment by segment

`bd_task_start` keeps a copy of a block, and each `bd_task_send_one_segment` hands at
most one segment of it to `bd_send_packet`. `BdTaskRun` makes the calls one after the
other, with `time(NULL)` as it is at each; the sends that succeed (`BdTaskRun.sent`) are
not in the source.
-/

namespace Dtu

/-- `EG_MSG_LEN`. -/
abbrev egMsgLen : Nat := 1024

abbrev bdTaskDone : Int := 0
abbrev bdTaskPending : Int := 1
abbrev bdTaskFailed : Int := -1

/-- `bd_segment_task_t`. -/
structure BdSegmentTask where
  active : Bool
  data : List UInt8
  len : Nat
  offset : Nat

/-- `memset(task, 0, sizeof(*task))`. -/
def BdSegmentTask.zero : BdSegmentTask where
  active := false
  data := List.replicate egMsgLen 0
  len := 0
  offset := 0

/-- `bd_task_start`: the task behind it, and what it returns. `none` is a pointer that
is `NULL`. -/
def bdTaskStart (task : Option BdSegmentTask) (data : Option (List UInt8)) (len : Int) : Option BdSegmentTask × Int :=
  match task, data with
  | some _, some data =>
    if len ≤ 0 ∨ (egMsgLen : Int) < len then (task, -1)
    else
      let task := BdSegmentTask.zero
      (some { task with
        data := Ring.memcpy task.data 0 (data.take len.toNat)
        len := len.toNat
        offset := 0
        active := true }, 0)
  | _, _ => (task, -1)

/-- What a call of `bd_task_send_one_segment` leaves and returns, and the payload that
it has handed to `bd_send_packet` with what this returned. -/
structure BdTaskCall where
  task : BdSegmentTask
  lastBdSendTime : Int
  ret : Int
  packet : Option (List UInt8 × Int)

/-- The rest of `bd_task_send_one_segment`, from `left` on; `sentAt` is `time(NULL)`
behind `bd_send_packet`. -/
def bdTaskSendSegment (dataSend : List Char → Int) (sentAt : Int) (task : BdSegmentTask) (lastBdSendTime : Int) :
    BdTaskCall :=
  let left := task.len - task.offset
  let chunkLen := if bdMaxRawLen < left then bdMaxRawLen else left
  let chunk := task.data.drop task.offset
  let ret := (bdSendPacketRun dataSend (some chunk) chunkLen).1
  let packet := some (chunk.take chunkLen, ret)
  if ret ≠ 0 then ⟨task, lastBdSendTime, bdTaskFailed, packet⟩
  else
    let task := { task with offset := task.offset + chunkLen }
    if task.len ≤ task.offset then ⟨{ task with active := false }, sentAt, bdTaskDone, packet⟩
    else ⟨task, sentAt, bdTaskPending, packet⟩

/-- `bd_task_send_one_segment` of two pointers that are not `NULL` (else it returns
`BD_TASK_FAILED`); `now` is the `time(NULL)` of the pacing. -/
def bdTaskSendOneSegment (dataSend : List Char → Int) (now sentAt : Int) (task : BdSegmentTask)
    (lastBdSendTime : Int) : BdTaskCall :=
  if task.active = false then ⟨task, lastBdSendTime, bdTaskDone, none⟩
  else
    let waitSec : Int32 := Int32.ofNat bdSendIntervalSec - Int32.ofInt (now - lastBdSendTime)
    if lastBdSendTime ≠ 0 ∧ 0 < waitSec then ⟨task, lastBdSendTime, bdTaskPending, none⟩
    else bdTaskSendSegment dataSend sentAt task lastBdSendTime

/-! ## The calls -/

/-- A send that has succeeded: its payload, and `time(NULL)` before and behind it. -/
structure BdTaskSent where
  payload : List UInt8
  now : Int
  sentAt : Int

/-- `sent` are the sends that have succeeded, the last one last. -/
structure BdTaskRun where
  task : BdSegmentTask
  lastBdSendTime : Int
  clock : Int
  sent : List BdTaskSent

/-- One call: `time(NULL)` before and behind `bd_send_packet`, and what `data_send`
answers. -/
structure BdTaskTurn where
  now : Int
  sentAt : Int
  dataSend : List Char → Int

namespace BdTaskRun

/-- Before the first call. -/
def start (task : BdSegmentTask) (lastBdSendTime clock : Int) : BdTaskRun := ⟨task, lastBdSendTime, clock, []⟩

/-- The call, with the time as the thread sees it. -/
def call (s : BdTaskRun) (c : BdTaskTurn) : BdTaskCall :=
  bdTaskSendOneSegment c.dataSend c.now c.sentAt s.task s.lastBdSendTime

/-- The send of a call, if it has succeeded. -/
def sentBy (r : BdTaskCall) (c : BdTaskTurn) : List BdTaskSent :=
  match r.packet with
  | some (payload, 0) => [⟨payload, c.now, c.sentAt⟩]
  | _ => []

/-- The clock does not go back. -/
def step (s : BdTaskRun) (c : BdTaskTurn) : Option (BdTaskRun × BdTaskCall) :=
  if c.now < s.clock ∨ c.sentAt < c.now then none
  else
    let r := s.call c
    some (⟨r.task, r.lastBdSendTime, c.sentAt, s.sent ++ sentBy r c⟩, r)

end BdTaskRun

end Dtu
