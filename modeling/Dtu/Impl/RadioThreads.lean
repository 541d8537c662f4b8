import Dtu.Framework.Runs
import Dtu.Impl.Radio
import Mathlib.Data.Fintype.Defs
import Mathlib.Logic.Function.Basic

/-!
# The threads that drive the LLCC68

`lora_receive_thread`, `lora_transform_thread` and the Bluetooth thread
(`debug_bt_send_lora_by_rule`), as the calls of `RxInit`, `Lora_recv_packet` and
`Lora_send` that they make. The threads run in any order, one operation at a time; an
operation is answered by the chip, or is one on `g_lora_lock`. The places and
numbers of calls and `Radio.trace` are not in the source.
-/

namespace Dtu

inductive LoraThread where
  | receive
  | transform
  | bluetooth
  deriving DecidableEq

instance : Fintype LoraThread := ⟨{.receive, .transform, .bluetooth}, fun t => by cases t <;> decide⟩

/-- A call of a thread. -/
inductive LoraCall where
  | rxInit
  | recvPacket (stale : List UInt8)
  | send (payload : List UInt8)
  deriving DecidableEq

/-- The program of a call: what it returns, and the packet it has received. -/
def LoraCall.program (payloadSize : UInt8) : LoraCall → RadioProgram (Int × List UInt8)
  | .rxInit => do
    Dtu.rxInit payloadSize
    return (0, [])
  | .recvPacket stale => loraRecv payloadSize stale
  | .send payload => do
    let ret ← loraSend payloadSize payload
    return (ret, [])

/-- Whether a thread goes on with a call after another one (`none` at its start) has returned
`ret` and a packet. `lora_receive_thread` calls `RxInit` at its start and after an error,
and relays a packet or not; the other threads send. -/
def LoraThread.goesOn : LoraThread → Option LoraCall → Int × List UInt8 → LoraCall → Bool
  | .receive, none, _, call => call = .rxInit
  | .receive, some (.recvPacket _), (ret, packet), call =>
    match call with
    | .rxInit => ret < 0
    | .recvPacket _ => 0 ≤ ret
    | .send payload => ret = 1 ∧ payload = packet
  | .receive, some _, _, .recvPacket _ => true
  | .receive, some _, _, _ => false
  | _, _, _, .send _ => true
  | _, _, _, _ => false

/-- Where a thread is in its call: before it takes `g_lora_lock`, while it holds it, after
it has released it; in a call that does not take it; or where no function goes. -/
inductive Place where
  | before
  | locked
  | after
  | bare
  | stray
  deriving DecidableEq

/-- The place after an operation. -/
def Place.next : Place → RadioOp → Place
  | .before, .lock => .locked
  | .locked, .unlock => .after
  | .locked, .lock => .stray
  | .locked, _ => .locked
  | .bare, .lock => .stray
  | .bare, .unlock => .stray
  | .bare, _ => .bare
  | _, _ => .stray

/-- The place at the begin of a call. -/
def LoraCall.place : LoraCall → Place
  | .rxInit => .bare
  | _ => .before

/-- The last call of a thread, what is left of it, its place, and the number of calls. -/
structure RadioThread where
  call : Option LoraCall
  program : RadioProgram (Int × List UInt8)
  place : Place
  number : Nat

/-- Who holds `g_lora_lock`, the threads, and the commands that the chip has got, the last
one first, each with the thread and the number of its call. -/
structure Radio where
  lock : Option LoraThread
  threads : LoraThread → RadioThread
  trace : List ((LoraThread × Nat) × List UInt8)

/-- The chip before the threads start. -/
def Radio.boot : Radio := ⟨none, fun _ => ⟨none, pure (0, []), .after, 0⟩, []⟩

/-- An answer. -/
inductive RadioAns where
  | level (high : Bool)
  | bytes (rx : List UInt8)
  | done

/-- The answers of an operation. -/
def RadioOp.answer : (o : RadioOp) → RadioAns → Option o.Ans
  | .busy, .level high => some high
  | .dio1, .level high => some high
  | .spi _, .bytes rx => some rx
  | .lock, .done => some ()
  | .unlock, .done => some ()
  | _, _ => none

/-- A thread makes a call, or its next operation is answered. -/
inductive RadioAction where
  | begin (t : LoraThread) (call : LoraCall)
  | answer (t : LoraThread) (ans : RadioAns)

/-- A thread begins a call. -/
def RadioThread.begin (th : RadioThread) (payloadSize : UInt8) (call : LoraCall) : RadioThread where
  call := some call
  program := call.program payloadSize
  place := call.place
  number := th.number + 1

/-- A thread goes on with a program after an operation. -/
def RadioThread.goOn (th : RadioThread) (o : RadioOp) (program : RadioProgram (Int × List UInt8)) : RadioThread :=
  { th with program := program, place := th.place.next o }

/-- What an operation of a thread does to the lock and to the chip. -/
def Radio.operate (s : Radio) (t : LoraThread) : RadioOp → Option Radio
  | .busy => some s
  | .dio1 => some s
  | .spi tx => some { s with trace := ((t, (s.threads t).number), tx) :: s.trace }
  | .lock => if s.lock = none then some { s with lock := some t } else none
  | .unlock => if s.lock = some t then some { s with lock := none } else none

def Radio.step (payloadSize : UInt8) (s : Radio) : RadioAction → Option (Radio × Unit)
  | .begin t call =>
    match (s.threads t).program with
    | .ret r =>
      if t.goesOn (s.threads t).call r call then
        some ({ s with threads := Function.update s.threads t ((s.threads t).begin payloadSize call) }, ())
      else none
    | .call _ _ => none
  | .answer t ans =>
    match (s.threads t).program with
    | .ret _ => none
    | .call o next =>
      (o.answer ans).bind fun a =>
        (s.operate t o).map fun s' =>
          ({ s' with threads := Function.update s.threads t ((s.threads t).goOn o (next a)) }, ())

/-- A thread is in a call. -/
def RadioThread.busy (th : RadioThread) : Bool :=
  match th.program with
  | .ret _ => false
  | .call _ _ => true

/-- The calls whose commands the chip has got. -/
def Radio.calls (s : Radio) : List (LoraThread × Nat) := s.trace.map Prod.fst

/-- A thread is in a call that has given the chip a command. -/
def Radio.Commanding (s : Radio) (t : LoraThread) : Prop :=
  (s.threads t).busy = true ∧ (t, (s.threads t).number) ∈ s.calls

instance (s : Radio) (t : LoraThread) : Decidable (s.Commanding t) := inferInstanceAs (Decidable (_ ∧ _))

/-- `RxInit` outside of `g_lora_lock` gives the chip a command only while nobody holds the
lock, and nobody takes the lock while an `RxInit` outside of it has given the chip a
command and has not returned. -/
def Radio.ExcludesOp (s : Radio) (t : LoraThread) : RadioOp → Prop
  | .spi _ => (s.threads t).place = .bare → s.lock = none
  | .lock => ∀ u, (s.threads u).place = .bare → ¬s.Commanding u
  | _ => True

/-- That, where a thread goes on with a program. -/
def Radio.ExcludesNext (s : Radio) (t : LoraThread) : RadioProgram (Int × List UInt8) → Prop
  | .ret _ => True
  | .call o _ => s.ExcludesOp t o

/-- That, for a step. -/
def Radio.Excludes (s : Radio) : RadioAction → Prop
  | .begin _ _ => True
  | .answer t _ => s.ExcludesNext t (s.threads t).program

instance (s : Radio) (t : LoraThread) (o : RadioOp) : Decidable (s.ExcludesOp t o) :=
  match o with
  | .spi _ => inferInstanceAs (Decidable (_ → _))
  | .lock => inferInstanceAs (Decidable (∀ u, (s.threads u).place = .bare → ¬s.Commanding u))
  | .unlock => isTrue trivial
  | .busy => isTrue trivial
  | .dio1 => isTrue trivial

instance (s : Radio) (t : LoraThread) (p : RadioProgram (Int × List UInt8)) : Decidable (s.ExcludesNext t p) :=
  match p with
  | .ret _ => isTrue trivial
  | .call o _ => inferInstanceAs (Decidable (s.ExcludesOp t o))

instance (s : Radio) (a : RadioAction) : Decidable (s.Excludes a) :=
  match a with
  | .begin _ _ => isTrue trivial
  | .answer t _ => inferInstanceAs (Decidable (s.ExcludesNext t (s.threads t).program))

/-! ## Whole calls -/

/-- Each command, the last one first, is one of the call of the command before it, or of a
call without a command before it. -/
def Whole : List (LoraThread × Nat) → Prop
  | [] => True
  | call :: calls => (calls.head? = some call ∨ call ∉ calls) ∧ Whole calls

/-- The commands of each call follow each other, and while a thread is in a `Lora_send` that
has given the chip a command, the chip has got none of another call since. -/
structure Radio.Apart (s : Radio) : Prop where
  whole : Whole s.calls
  sending : ∀ t payload, (s.threads t).call = some (.send payload) → s.Commanding t →
    s.calls.head? = some (t, (s.threads t).number)

end Dtu
