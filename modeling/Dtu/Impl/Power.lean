import Dtu.Impl.Bd3

/-!
# Powering the modules

The supplies of the 4G module (EG) and the BeiDou module (BD) of `power.c`
(`Power`), and the functions by which `main_send_thread` makes the modules ready
and switches them off: `main_ensure_eg_ready` (with `uart_reopen_eg`),
`main_eg_power_down`, `main_all_power_down`, `main_ensure_bd_ready` and
`bd_wait_ready_and_pwi`. They run step by step (`Modules`) beside the Bluetooth
thread, which calls `rf_power_on`, and the receive thread, which calls
`bd_status_feed`. A step is what is done under one hold of a mutex, or one call
into the module. `Modules.history` is not in the source.
-/

namespace Dtu

/-! ## The supplies -/

structure Power where
  gBdPowerEnabled : Bool
  gEgPowerEnabled : Bool
  gRfPowerGeneration : UInt32

def bdPowerOn (p : Power) : Power :=
  if p.gBdPowerEnabled then p
  else { p with gBdPowerEnabled := true, gRfPowerGeneration := p.gRfPowerGeneration + 1 }

def bdPowerOff (p : Power) : Power :=
  if p.gBdPowerEnabled then { p with gBdPowerEnabled := false, gRfPowerGeneration := p.gRfPowerGeneration + 1 }
  else p

def egPowerOn (p : Power) : Power :=
  if p.gEgPowerEnabled then p
  else { p with gEgPowerEnabled := true, gRfPowerGeneration := p.gRfPowerGeneration + 1 }

def egPowerOff (p : Power) : Power :=
  if p.gEgPowerEnabled then { p with gEgPowerEnabled := false, gRfPowerGeneration := p.gRfPowerGeneration + 1 }
  else p

def rfPowerOn (p : Power) : Power := egPowerOn (bdPowerOn p)

def rfPowerIsOn (p : Power) : Bool := p.gBdPowerEnabled || p.gEgPowerEnabled

/-! ## The threads -/

/-- What the properties of a run are about. -/
inductive ModuleEvent where
  | bdPowerOn
  | bdReadyLine
  | egPowerOn
  | egOpened
  | egInit
  | egConnect
  deriving DecidableEq

/-- Where `main_send_thread` is: in its loop, or before a step of a function that
it has called. -/
inductive MainPc where
  | loop
  /-- `main_ensure_eg_ready`, with its `connect_max_retry`. -/
  | egIsOn (maxRetry : Nat)
  | egOn (maxRetry : Nat)
  | egGeneration (maxRetry : Nat)
  | egClose (maxRetry : Nat) (current : UInt32)
  | egOpen (maxRetry : Nat) (current : UInt32) (i : Nat)
  | egInit (maxRetry : Nat)
  | egRetry (maxRetry retry : Nat)
  | egConnect (maxRetry retry : Nat)
  | egSleep (maxRetry retry : Nat)
  /-- `main_eg_power_down`, in `main_all_power_down` if `all`. -/
  | downFlags (all : Bool)
  | downPower (all : Bool)
  | downClose (all : Bool)
  | downSeen (all : Bool)
  | downBd
  /-- `main_ensure_bd_ready`. -/
  | bdIsOn
  | bdReset
  | bdOn
  /-- `bd_wait_ready_and_pwi`: before the test of its loop, and in
  `pthread_cond_timedwait`. -/
  | bdWait
  | bdTimedwait

/-- Where the Bluetooth thread is: before `if (!rf_power_is_on())`, or in `rf_power_on`. -/
inductive BtPc where
  | isOn
  | bdOn
  | egOn

/-- The variables that the threads share, and the local ones of `main_send_thread`
(`egInitialized`, `egConnected`, `egPowerGenerationSeen`). `egFd` is `eg_fd >= 0`,
and `history` what has happened, the last first. -/
structure Modules where
  power : Power
  egFd : Bool
  status : BdStatus
  stopFlag : Bool
  egInitialized : Bool
  egConnected : Bool
  egPowerGenerationSeen : UInt32
  main : MainPc
  bt : BtPc
  history : List ModuleEvent

/-- The threads start after `rf_power_on` and `uart_init_gather` of `main`. -/
def Modules.boot : Modules where
  power := rfPowerOn ⟨false, false, 0⟩
  egFd := true
  status := .init
  stopFlag := false
  egInitialized := false
  egConnected := false
  egPowerGenerationSeen := (rfPowerOn ⟨false, false, 0⟩).gRfPowerGeneration
  main := .loop
  bt := .isOn
  history := [.egOpened, .egPowerOn, .bdPowerOn]

/-- What a function of `main_send_thread` has returned. -/
inductive Return where
  | mainEnsureEgReady (ret : Int)
  | bdWaitReadyAndPwi (ret : Int)
  deriving DecidableEq

/-- The functions that `main_send_thread` calls from its loop, and the assignment
`eg_connected = 0` of `MAIN_ST_TRY_4G`. -/
inductive MainCall where
  | mainEnsureEgReady (connectMaxRetry : Nat)
  | mainEgPowerDown
  | mainAllPowerDown
  | mainEnsureBdReady
  | disconnected

inductive ModuleAction where
  /-- `main_send_thread`, in its loop, calls a function. -/
  | call (f : MainCall)
  /-- Its next step; `ok` is the result of the call that the step makes: `uart_init`,
  `eg_init` or `eg_connect` has succeeded, `pthread_cond_timedwait` has been woken. -/
  | main (ok : Bool)
  /-- The Bluetooth thread's next step. -/
  | bt
  /-- The receive thread: the turn of `bd_status_feed` for a byte. -/
  | feed (now : Nat) (ch : UInt8)
  /-- `handle_signal`. -/
  | stop

namespace Modules

/-- `bd_power_on` and `eg_power_on`, as the threads call them. -/
def bdPowerOn (s : Modules) : Modules :=
  { s with
    power := Dtu.bdPowerOn s.power
    history := if s.power.gBdPowerEnabled then s.history else .bdPowerOn :: s.history }

def egPowerOn (s : Modules) : Modules :=
  { s with
    power := Dtu.egPowerOn s.power
    history := if s.power.gEgPowerEnabled then s.history else .egPowerOn :: s.history }

/-- `max_retry` of `uart_reopen_eg`. -/
def reopenMaxRetry : Nat := 10

/-- `main_ensure_eg_ready` from `if (!*eg_connected)` on. -/
def egEnsureConnected (s : Modules) (connectMaxRetry : Nat) : Modules × Option Return :=
  if s.egConnected then ({ s with main := .loop }, some (.mainEnsureEgReady 0))
  else ({ s with main := .egRetry connectMaxRetry 1 }, none)

def call (s : Modules) : MainCall → Modules
  | .mainEnsureEgReady connectMaxRetry => { s with main := .egIsOn connectMaxRetry }
  | .mainEgPowerDown => { s with main := .downFlags false }
  | .mainAllPowerDown => { s with main := .downFlags true }
  | .mainEnsureBdReady => { s with main := .bdIsOn }
  | .disconnected => { s with egConnected := false }

/-- The step of `main_send_thread` at `s.main`, and what the function it is in returns
with it. -/
def mainStep (s : Modules) (ok : Bool) : Option (Modules × Option Return) :=
  match s.main with
  | .loop => none
  | .egIsOn n => some ({ s with main := if s.power.gEgPowerEnabled then .egGeneration n else .egOn n }, none)
  | .egOn n => some ({ s.egPowerOn with main := .egGeneration n }, none)
  | .egGeneration n =>
    let current := s.power.gRfPowerGeneration
    some ({ s with main :=
      if s.egFd = false ∨ s.egPowerGenerationSeen ≠ current then .egClose n current else .egInit n }, none)
  | .egClose n current => some ({ s with egFd := false, main := .egOpen n current 0 }, none)
  | .egOpen n current i =>
    if ok then
      some ({ s with
        egFd := true
        egInitialized := false
        egConnected := false
        egPowerGenerationSeen := current
        main := .egInit n
        history := .egOpened :: s.history }, none)
    else if i + 1 < reopenMaxRetry then some ({ s with main := .egOpen n current (i + 1) }, none)
    else some ({ s with main := .loop }, some (.mainEnsureEgReady (-1)))
  | .egInit n =>
    if s.egInitialized then some (s.egEnsureConnected n)
    else if ok then some ({ s with egInitialized := true, history := .egInit :: s.history }.egEnsureConnected n)
    else some ({ s with main := .loop }, some (.mainEnsureEgReady (-1)))
  | .egRetry n retry =>
    if retry ≤ n ∧ s.stopFlag = false then some ({ s with main := .egConnect n retry }, none)
    else some ({ s with main := .loop }, some (.mainEnsureEgReady (-2)))
  | .egConnect n retry =>
    if ok then
      some ({ s with egConnected := true, main := .loop, history := .egConnect :: s.history },
        some (.mainEnsureEgReady 0))
    else some ({ s with main := if retry < n then .egSleep n retry else .egRetry n (retry + 1) }, none)
  | .egSleep n retry =>
    if s.stopFlag then some ({ s with main := .loop }, some (.mainEnsureEgReady (-1)))
    else some ({ s with main := .egRetry n (retry + 1) }, none)
  | .downFlags all => some ({ s with egConnected := false, egInitialized := false, main := .downPower all }, none)
  | .downPower all => some ({ s with power := egPowerOff s.power, main := .downClose all }, none)
  | .downClose all => some ({ s with egFd := false, main := .downSeen all }, none)
  | .downSeen all =>
    some ({ s with
      egPowerGenerationSeen := s.power.gRfPowerGeneration
      main := if all then .downBd else .loop }, none)
  | .downBd => some ({ s with power := bdPowerOff s.power, main := .loop }, none)
  | .bdIsOn => some ({ s with main := if s.power.gBdPowerEnabled then .bdWait else .bdReset }, none)
  | .bdReset => some ({ s with status := bdStatusReset s.status, main := .bdOn }, none)
  | .bdOn => some ({ s.bdPowerOn with main := .bdWait }, none)
  | .bdWait =>
    if s.stopFlag then some ({ s with main := .loop }, some (.bdWaitReadyAndPwi (-1)))
    else if s.status.gBdReadySeen then some ({ s with main := .loop }, some (.bdWaitReadyAndPwi 0))
    else some ({ s with main := .bdTimedwait }, none)
  | .bdTimedwait =>
    if ok then some ({ s with main := .bdWait }, none)
    else some ({ s with main := .loop }, some (.bdWaitReadyAndPwi (-1)))

/-- The step of the Bluetooth thread at `s.bt`. -/
def btStep (s : Modules) : Modules :=
  match s.bt with
  | .isOn => if rfPowerIsOn s.power then s else { s with bt := .bdOn }
  | .bdOn => { s.bdPowerOn with bt := .egOn }
  | .egOn => { s.egPowerOn with bt := .isOn }

/-- Whether a byte ends a line that says the BeiDou module is ready. -/
def endsReadyLine (s : Modules) (ch : UInt8) : Bool :=
  ch == 0x0A && 0 < s.status.line.length && isReadyLine s.status.line

def feed (s : Modules) (now : Nat) (ch : UInt8) : Modules :=
  { s with
    status := bdStatusFeedByte now s.status ch
    history := if s.endsReadyLine ch then .bdReadyLine :: s.history else s.history }

def step (s : Modules) : ModuleAction → Option (Modules × Option Return)
  | .call f => match s.main with
    | .loop => some (s.call f, none)
    | _ => none
  | .main ok => s.mainStep ok
  | .bt => some (s.btStep, none)
  | .feed now ch => some (s.feed now ch, none)
  | .stop => some ({ s with stopFlag := true }, none)

end Modules

end Dtu
