import Dtu.Impl.MainSend

/-!
# What is logged and what is acknowledged

`main_send_thread` and `write_file_thread` over the life of a device: beside their
state all records that have been logged, and the commits in their order. The device
can restart between two iterations, and `main_send_thread` then begins again with
what is on the disk (`DeliveryAction.restart`).

A commit is one step: `write_file_thread` appends between two iterations or while BeiDou
sends, and not between the calls of `compact_log_file` and the `save_offsets` behind them,
which is neither cut short nor fails.
-/

namespace Dtu

/-- What `t.appended` adds to the logs in an iteration: it does in `MAIN_ST_TRY_BD` from
where BeiDou is powered on. -/
def MainSend.appendedIn (s : MainSend) (t : Turn) : Fin mainPathCount → List Record :=
  if t.meshNode = false ∧ s.state = .tryBd then
    match mainPackPendingUntil s.disk.logs s.offsets s.bdBatchEndOffsets bdMaxHexLen bdMaxRawLen with
    | none => fun _ => []
    | some r =>
      if r.ret ≠ 0 then fun _ => []
      else if r.entryCount = 0 then fun _ => []
      else if s.nextBdSendTime ≠ 0 ∧ t.monotonic < s.nextBdSendTime then fun _ => []
      else t.appended
  else fun _ => []

/-- `main_send_thread`, the records logged so far and the commits so far. -/
structure Delivery where
  main : MainSend
  logged : Fin mainPathCount → List Record
  commits : List Commit

/-- A device with nothing logged yet. -/
def Delivery.blank : Delivery where
  main := .boot ⟨fun _ => none, none⟩
  logged := fun _ => []
  commits := []

/-- What happens next: a step as in `MainSend.step`, or the device restarts. An iteration is one
step, with all of its commit. -/
inductive DeliveryAction where
  | append (appended : Fin mainPathCount → List Record)
  | turn (t : Turn)
  | restart

def Delivery.step (s : Delivery) : DeliveryAction → Option (Delivery × Unit)
  | .append appended =>
    some ({ s with
      main := { s.main with disk := s.main.disk.append appended }
      logged := fun i => s.logged i ++ appended i }, ())
  | .turn t => (s.main.turn t).map fun (main, commit) =>
    ({ main
       logged := fun i => s.logged i ++ s.main.appendedIn t i
       commits := s.commits ++ commit.toList }, ())
  | .restart => some ({ s with main := .boot s.main.disk }, ())

/-- The device does not become a node between packing and sending over 4G. -/
def Delivery.NodeInTurn (s : Delivery) : DeliveryAction → Prop
  | .append _ => True
  | .turn t => t.meshNode = true → s.main.state ≠ .try4g
  | .restart => True

instance (s : Delivery) (a : DeliveryAction) : Decidable (s.NodeInTurn a) :=
  match a with
  | .append _ => isTrue trivial
  | .turn _ => inferInstanceAs (Decidable (_ → _))
  | .restart => isTrue trivial

end Dtu
