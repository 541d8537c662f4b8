import Dtu.Framework.Ring
import Dtu.Framework.Runs
import Dtu.Impl.BdLink

/-!
# The queue of the Bluetooth thread

`g_debug_bt_bd_queue` as it lies in memory: eight items with a buffer each, and the
indices `head`, `tail` and `count`; `DebugBt` is what the items between them are.
`DebugRun` makes calls of `debug_bt_bd_enqueue` and `debug_bt_bd_flush_once` in any
order; what it has accepted and handed to `bd_send_packet` is not in the source.
-/

namespace Dtu

/-- `debug_bt_bd_item_t`. -/
structure DebugBtBdItem where
  data : List UInt8
  len : Nat

/-- The queue and `g_debug_bt_last_bd_send_time`. -/
structure DebugBtQueue where
  gDebugBtBdQueue : List DebugBtBdItem
  gDebugBtBdHead : Nat
  gDebugBtBdTail : Nat
  gDebugBtBdCount : Int
  gDebugBtLastBdSendTime : Int

/-- The variables as they are initialised. -/
def DebugBtQueue.init : DebugBtQueue where
  gDebugBtBdQueue := List.replicate debugBtBdQueueDepth ⟨List.replicate debugBtMaxRawLen 0, 0⟩
  gDebugBtBdHead := 0
  gDebugBtBdTail := 0
  gDebugBtBdCount := 0
  gDebugBtLastBdSendTime := 0

namespace DebugBtQueue

/-- `debug_bt_bd_enqueue`; `none` where it has no defined result, as `len * 2` is no
`int`. `data` is `none` if it is `NULL`. -/
def enqueue (q : DebugBtQueue) (data : Option (List UInt8)) (len : Int) : Option (DebugBtQueue × Int) :=
  match data with
  | none => some (q, -1)
  | some data =>
    if len ≤ 0 then some (q, -1)
    else if 2 ^ 31 ≤ len * 2 then none
    else if (bdMaxRawLen - 2 : Int) < len * 2 then some (q, -2)
    else if debugBtBdQueueDepth ≤ q.gDebugBtBdCount then some (q, -3)
    else
      some ({ q with
        gDebugBtBdQueue := q.gDebugBtBdQueue.modify q.gDebugBtBdTail fun item =>
          ⟨Ring.memcpy item.data 0 (data.take len.toNat), len.toNat⟩
        gDebugBtBdTail := (q.gDebugBtBdTail + 1) % debugBtBdQueueDepth
        gDebugBtBdCount := q.gDebugBtBdCount + 1 }, 0)

/-- `debug_bt_bd_flush_once` up to its call of `bd_send_packet`: `data` and `len` as it
passes them, and the queue, unless it returns 0 before. `now` is `time(NULL)`. -/
def take (q : DebugBtQueue) (now : Int) : Option (DebugBtBdItem × DebugBtQueue) :=
  if q.gDebugBtBdCount ≤ 0 then none
  else if q.gDebugBtLastBdSendTime ≠ 0 ∧ now - q.gDebugBtLastBdSendTime < debugBtBdIntervalSec then none
  else
    match q.gDebugBtBdQueue[q.gDebugBtBdHead]? with
    | none => none
    | some item =>
      some (⟨item.data.take item.len, item.len⟩, { q with
        gDebugBtBdHead := (q.gDebugBtBdHead + 1) % debugBtBdQueueDepth
        gDebugBtBdCount := q.gDebugBtBdCount - 1
        gDebugBtLastBdSendTime := now })

/-- `debug_bt_bd_flush_once`: what it returns, and what it hands to `bd_send_packet`. -/
def flushOnce (q : DebugBtQueue) (dataSend : List Char → Int) (now : Int) :
    DebugBtQueue × Int × Option (List UInt8) :=
  match q.take now with
  | none => (q, 0, none)
  | some (item, q) =>
    (q, if (bdSendPacketRun dataSend (some item.data) item.len).1 = 0 then 1 else -1, some item.data)

end DebugBtQueue

/-! ## The calls -/

/-- `accepted` are the payloads for which `debug_bt_bd_enqueue` has returned 0, `handed`
those handed to `bd_send_packet` and when, the last one last. -/
structure DebugRun where
  queue : DebugBtQueue
  clock : Int
  accepted : List (List UInt8)
  handed : List (List UInt8 × Int)

inductive DebugCall where
  | enqueue (data : Option (List UInt8)) (len : Int)
  | flush (now : Int) (dataSend : List Char → Int)

namespace DebugRun

/-- Before the first call. -/
def start (clock : Int) : DebugRun := ⟨.init, clock, [], []⟩

/-- A call and what it returns. The clock does not go back, and at `data` are `len`
bytes. -/
def step (s : DebugRun) : DebugCall → Option (DebugRun × Int)
  | .enqueue data len =>
    if data.any fun data => (data.length : Int) < len then none
    else
      (s.queue.enqueue data len).map fun (queue, ret) =>
        ({ s with
          queue := queue
          accepted := if ret = 0 then s.accepted ++ (data.map (List.take len.toNat)).toList else s.accepted }, ret)
  | .flush now dataSend =>
    if now < s.clock then none
    else
      let r := s.queue.flushOnce dataSend now
      some ({ s with
        queue := r.1
        clock := now
        handed := s.handed ++ r.2.2.toList.map (·, now) }, r.2.1)

end DebugRun

end Dtu
