import Dtu.Framework.Runs
import Dtu.Impl.MainSend

/-!
# Waking `main_send_thread`

`write_file_thread`, which appends a line and then calls `notify_data_wakeup`, the
Bluetooth thread, which calls it too, and `main_send_thread` in gateway mode, as far as
they come to `main_data_wakeup`. What is done under one hold of `g_data_wakeup_mutex`
is a step; so is an append. Of the iterations of `main_send_thread` that do not wait the
steps say how they can go on (`MainSt.next`). `Wakeup.history` and `Wakeup.drained` are
not in the source.
-/

namespace Dtu

/-- The states that an iteration in gateway mode can go on with. -/
def MainSt.next : MainSt → List MainSt
  | .idle => [.idle, .powerDown, .tryBd, .try4g]
  | .try4g => [.tryBd, .idle, .powerDown]
  | .tryBd => [.bdWait, .idle, .powerDown]
  | .bdWait => [.tryBd, .bdWait]
  | .powerDown => [.idle]

/-- The calls of `main_data_wakeup`: when `main_pack_pending` has failed, in
`MAIN_ST_BD_WAIT`, and in `MAIN_ST_POWER_DOWN`, while the power is held or after it. -/
inductive WakeCall where
  | packFailed
  | bdWait
  | powerHold
  | powerDown
  deriving DecidableEq

/-- The state after a call. -/
def WakeCall.after : WakeCall → MainSt
  | .packFailed => .idle
  | .bdWait => .bdWait
  | .powerHold => .idle
  | .powerDown => .idle

/-- Where `main_send_thread` is: before it first reads `g_data_wakeup_seq`, at an
iteration, in `main_pack_pending` of `MAIN_ST_IDLE`, at the call of `main_data_wakeup`
(or on the way to it), or in `pthread_cond_timedwait`. -/
inductive WakePc where
  | start
  | loop (state : MainSt)
  | packing
  | lock (call : WakeCall)
  | wait (call : WakeCall)
  deriving DecidableEq

/-- What happens to the lines of the RS485 and the BT log, to `g_data_wakeup_seq` and
`wakeup_seq_seen`. -/
inductive WakeEvent where
  | logged (line : Nat)
  | notified (line : Nat)
  | extra
  | reading
  | sampled
  deriving DecidableEq

/-- `g_data_wakeup_seq`, `wakeup_seq_seen`, where the threads are (`write_file_thread` has
appended a line of the RS485 or the BT log and is to notify), the number of these lines,
whether `MAIN_ST_POWER_DOWN` was entered from `MAIN_ST_IDLE`, and what has happened, the
last event first. -/
structure Wakeup where
  gDataWakeupSeq : UInt32
  wakeupSeqSeen : UInt32
  main : WakePc
  writer : Option Nat
  lines : Nat
  drained : Bool
  history : List WakeEvent

/-- The threads when they start. -/
def Wakeup.boot : Wakeup := ⟨0, 0, .start, none, 0, false, []⟩

/-- `notify_data_wakeup`. -/
def Wakeup.notifyDataWakeup (s : Wakeup) (e : WakeEvent) : Wakeup :=
  { s with gDataWakeupSeq := s.gDataWakeupSeq + 1, history := e :: s.history }

/-- `*seen_seq = g_data_wakeup_seq` at the end of `main_data_wakeup`, and the return. -/
def Wakeup.sample (s : Wakeup) (state : MainSt) : Wakeup :=
  { s with wakeupSeqSeen := s.gDataWakeupSeq, main := .loop state, history := .sampled :: s.history }

/-- What `main_pack_pending` of `MAIN_ST_IDLE` comes to. -/
inductive Packing where
  | failed
  | empty
  | entries (toBd : Bool)

/-- A step of a thread. -/
inductive WakeAction where
  /-- `write_file_thread` appends a line of the RS485 or the BT log; it notifies. -/
  | log
  | notify
  /-- The Bluetooth thread notifies. -/
  | notifyExtra
  /-- `main_send_thread` reads `g_data_wakeup_seq` before its loop. -/
  | start
  /-- `main_pack_pending` of `MAIN_ST_IDLE` begins to read; it ends. -/
  | pack
  | packed (result : Packing)
  /-- An iteration that does not wait. -/
  | turn (next : MainSt)
  /-- An iteration that comes to `main_data_wakeup`. -/
  | await (call : WakeCall)
  /-- `main_data_wakeup` gets the mutex. -/
  | lock
  /-- `pthread_cond_timedwait` ends the wait, by a signal or by the timeout. -/
  | wake (timeout : Bool)

def Wakeup.step (s : Wakeup) : WakeAction → Option (Wakeup × Unit)
  | .log =>
    if s.writer = none then
      some ({ s with writer := some s.lines, lines := s.lines + 1, history := .logged s.lines :: s.history }, ())
    else none
  | .notify => s.writer.map fun line => ({ s.notifyDataWakeup (.notified line) with writer := none }, ())
  | .notifyExtra => some (s.notifyDataWakeup .extra, ())
  | .start => if s.main = .start then some (s.sample .idle, ()) else none
  | .pack =>
    if s.main = .loop .idle then some ({ s with main := .packing, history := .reading :: s.history }, ()) else none
  | .packed result =>
    if s.main = .packing then
      match result with
      | .failed => some ({ s with main := .lock .packFailed }, ())
      | .empty => some ({ s with main := .loop .powerDown, drained := true }, ())
      | .entries toBd => some ({ s with main := .loop (if toBd then .tryBd else .try4g) }, ())
    else none
  | .turn next =>
    match s.main with
    | .loop .try4g => if next ∈ MainSt.try4g.next then some ({ s with main := .loop next, drained := false }, ()) else none
    | .loop .tryBd => if next ∈ MainSt.tryBd.next then some ({ s with main := .loop next, drained := false }, ()) else none
    | .loop .bdWait => if next = .tryBd then some ({ s with main := .loop .tryBd }, ()) else none
    | _ => none
  | .await call =>
    match s.main, call with
    | .loop .bdWait, .bdWait => some ({ s with main := .lock .bdWait }, ())
    | .loop .powerDown, .powerHold => some ({ s with main := .lock .powerHold }, ())
    | .loop .powerDown, .powerDown => some ({ s with main := .lock .powerDown }, ())
    | _, _ => none
  | .lock =>
    match s.main with
    | .lock call =>
      if s.gDataWakeupSeq = s.wakeupSeqSeen then some ({ s with main := .wait call }, ())
      else some (s.sample call.after, ())
    | _ => none
  | .wake timeout =>
    match s.main with
    | .wait call =>
      if timeout ∨ s.gDataWakeupSeq ≠ s.wakeupSeqSeen then some (s.sample call.after, ()) else none
    | _ => none

/-- The steps that the threads can take, in any order. -/
abbrev Wakeup.Reach : Wakeup → Prop := Runs Wakeup.step (fun _ _ => True) .boot

/-- `main_send_thread` is at or in a call of `main_data_wakeup` from
`MAIN_ST_POWER_DOWN`, which it has entered from `MAIN_ST_IDLE` without entries. -/
def Wakeup.Calls (s : Wakeup) : Prop :=
  s.drained = true ∧ ∃ call, (call = .powerHold ∨ call = .powerDown) ∧ (s.main = .lock call ∨ s.main = .wait call)

/-- It is blocked there. -/
def Wakeup.Blocked (s : Wakeup) : Prop :=
  s.Calls ∧ (s.main = .wait .powerHold ∨ s.main = .wait .powerDown) ∧ s.gDataWakeupSeq = s.wakeupSeqSeen

/-- Without the timeout, the call returns to `MAIN_ST_IDLE`. -/
def Wakeup.Returns (s : Wakeup) : Prop :=
  s.step .lock = some (s.sample .idle, ()) ∨ s.step (.wake false) = some (s.sample .idle, ())

def WakeEvent.isNotification : WakeEvent → Bool
  | .notified _ => true
  | .extra => true
  | _ => false

/-- How often `notify_data_wakeup` has been called since `main_send_thread` has last read
`g_data_wakeup_seq`. -/
def notificationsSince (history : List WakeEvent) : Nat :=
  (history.takeWhile (· ≠ .sampled)).countP WakeEvent.isNotification

end Dtu
