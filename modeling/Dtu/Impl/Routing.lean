import Dtu.Impl.MainSend

/-!
# What `main_send_thread` asks for and sends

The calls that an iteration of `main_send_thread` makes and that `MainSend.turn`
only has the results of: the evaluation of the send path in `MAIN_ST_IDLE`,
`eg_send_data` and `bd_send_packet`. A run keeps them (`Routed`), and the last
reading of the monotonic clock.
-/

namespace Dtu

/-- A call of `main_send_thread`: an evaluation of `MAIN_ST_IDLE`, with the path it
has read unless it ends before, or a transmission. -/
inductive Call where
  | idle (sendPath : Option SendPath)
  | egSendData (data : List UInt8)
  | bdSendPacket (data : List UInt8)

/-- The calls of an iteration. -/
def MainSend.calls (s : MainSend) (t : Turn) : List Call :=
  if t.meshNode then []
  else
    match s.state with
    | .idle =>
      match mainPackPending s.disk.logs s.offsets egMaxHexLen (egMaxHexLen / 2 + 1) with
      | none => []
      | some r => [.idle (if r.ret ≠ 0 then none else if r.entryCount = 0 then none else some t.sendPath)]
    | .try4g =>
      if s.sendPath = .onlyBd then []
      else if t.now < s.next4gTryTime then []
      else if t.egReady = false then []
      else [.egSendData s.rawData]
    | .tryBd =>
      match mainPackPendingUntil s.disk.logs s.offsets s.bdBatchEndOffsets bdMaxHexLen bdMaxRawLen with
      | none => []
      | some r =>
        if r.ret ≠ 0 then []
        else if r.entryCount = 0 then []
        else if s.nextBdSendTime ≠ 0 ∧ t.monotonic < s.nextBdSendTime then []
        else if t.bdReady = false then []
        else [.bdSendPacket r.rawBuf]
    | .bdWait => []
    | .powerDown => []

/-- `main_send_thread`, the calls it has made, the last one first, and the last
reading of `monotonic_sec()`. -/
structure Routed where
  main : MainSend
  calls : List Call
  clock : Nat

/-- `main_send_thread` before its loop. -/
def Routed.boot (disk : Disk) : Routed := ⟨.boot disk, [], 0⟩

def Routed.step (s : Routed) : Action → Option (Routed × Option Commit)
  | .append appended => (s.main.step (.append appended)).map fun r => ({ s with main := r.1 }, r.2)
  | .turn t => (s.main.turn t).map fun r => (⟨r.1, s.main.calls t ++ s.calls, t.monotonicHold⟩, r.2)

/-- The monotonic clock does not go back, and its two readings after a BeiDou packet
are at most `BD_POWER_HOLD_SEC` apart. -/
def Routed.InTime (s : Routed) : Action → Prop
  | .append _ => True
  | .turn t => s.clock ≤ t.monotonic ∧ t.monotonic ≤ t.monotonicSent ∧ t.monotonicSent ≤ t.monotonicHold ∧
      t.monotonicHold ≤ t.monotonicSent + bdPowerHoldSec

instance (s : Routed) (a : Action) : Decidable (s.InTime a) :=
  match a with
  | .append _ => isTrue trivial
  | .turn _ => inferInstanceAs (Decidable (_ ∧ _))

/-- The last evaluation of `MAIN_ST_IDLE` before some calls, the path it has read. -/
def lastIdle : List Call → Option SendPath
  | [] => none
  | .idle sendPath :: _ => sendPath
  | .egSendData _ :: calls => lastIdle calls
  | .bdSendPacket _ :: calls => lastIdle calls

end Dtu
