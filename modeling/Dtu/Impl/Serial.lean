import Dtu.Impl.LogLine

/-!
# Receiving from a serial port

`serial_state_t`, `process_serial_data` and `flush_serial_state`, and
`submit_frame`, which makes messages of a frame. Other threads draw frame ids
from `log_next_frame_id` and use the FIFO at any time, so each call of
`submit_frame` finds its own counter and its own room (`Queueing`).
-/

namespace Dtu

/-- `BUFFER_SIZE`: the size of `frame_buf`. -/
abbrev bufferSize : Nat := 1024

/-- `MAX_LOG_LEN`. -/
abbrev maxLogLen : Nat := 256

/-- `FRAME_TIMEOUT_MS`. -/
abbrev frameTimeoutMs : Int := 10

/-- `struct timeval` as `gettimeofday` sets it; in milliseconds it fits a `long`. -/
structure Timeval where
  tvSec : Nat
  tvUsec : Nat
  sec_lt : tvSec < 2 ^ 53
  usec_lt : tvUsec < 1000000

/-- The milliseconds from `last` to `now`, as `process_serial_data` finds them. -/
def diffMs (now last : Timeval) : Int :=
  let secDiff : Int := now.tvSec - last.tvSec
  let usecDiff : Int := now.tvUsec - last.tvUsec
  if usecDiff < 0 then (secDiff - 1) * 1000 + (usecDiff + 1000000).tdiv 1000
  else secDiff * 1000 + usecDiff.tdiv 1000

/-- `serial_state_t`: `frameBuf` is `frame_buf[0..frame_len)`. -/
structure SerialState where
  frameBuf : List UInt8
  lastRecv : Timeval
  dataType : UInt32

/-- `serial_state_init`. -/
def serialStateInit (dataType : UInt32) : SerialState where
  frameBuf := []
  lastRecv := ⟨0, 0, by decide, by decide⟩
  dataType := dataType

/-! ## `submit_frame` -/

/-- `is_garbage_data`. -/
def isGarbageData (frame : List UInt8) : Bool :=
  if frame.length = 1 ∧ frame.head? = some 0 then true
  else frame.all (· = 0) && decide (0 < frame.length)

/-- What a call of `submit_frame` finds: `g_log_frame_id`, and whether the FIFO
has room for part `i`. -/
structure Queueing where
  gLogFrameId : UInt32
  room : Nat → Bool

/-- The `while` loop of `submit_frame` over the rest of the frame, from part
`i` on; each part is at least one byte, so the length is enough `fuel`. -/
def submitParts (dataType frameId : UInt32) (partCount : Nat) (room : Nat → Bool) :
    Nat → List UInt8 → Nat → List FifoMessage
  | 0, _, _ => []
  | fuel + 1, rest, i =>
    if rest = [] then []
    else if room i then
      message dataType (rest.take 256) frameId (UInt16.ofNat i) (UInt16.ofNat partCount) ::
        submitParts dataType frameId partCount room fuel (rest.drop 256) (i + 1)
    else []

/-- `submit_frame`: the messages it puts. -/
def submitFrame (dataType : UInt32) (frame : List UInt8) (q : Queueing) : List FifoMessage :=
  if frame = [] then []
  else if isGarbageData frame then []
  else
    submitParts dataType (logNextFrameId q.gLogFrameId).1 ((frame.length + 256 - 1) / 256) q.room frame.length frame 0

/-! ## `process_serial_data` -/

/-- The `reason` of a call of `submit_frame`. -/
inductive Reason where
  | timeout
  | maxLen
  | overflow
  | flush
deriving DecidableEq

/-- A call of `submit_frame`. -/
structure Submit where
  frame : List UInt8
  reason : Reason
  q : Queueing

/-- A call of `process_serial_data` with `read_buf[0..read_len)`, at time `now`,
and what its calls of `submit_frame` find. -/
structure SerialCall where
  read : List UInt8
  now : Timeval
  atTimeout : Queueing
  atRead : Queueing

/-- The frame is complete since nothing has been received for too long. -/
def timedOut (state : SerialState) (now : Timeval) : Bool :=
  decide (0 < state.frameBuf.length) && decide (frameTimeoutMs < diffMs now state.lastRecv)

/-- `process_serial_data`: the state after it, and its calls of `submit_frame`. -/
def processSerialData (state : SerialState) (call : SerialCall) : SerialState × List Submit :=
  let (state, submits) :=
    if timedOut state call.now then
      ({ state with frameBuf := [] }, [⟨state.frameBuf, .timeout, call.atTimeout⟩])
    else (state, [])
  if call.read = [] then (state, submits)
  else
    let read := call.read.take bufferSize
    if state.frameBuf.length + read.length ≤ bufferSize then
      let state := { state with frameBuf := state.frameBuf ++ read, lastRecv := call.now }
      if maxLogLen ≤ state.frameBuf.length then
        ({ state with frameBuf := [] }, submits ++ [⟨state.frameBuf, .maxLen, call.atRead⟩])
      else (state, submits)
    else
      ({ state with frameBuf := read, lastRecv := call.now },
        submits ++ [⟨state.frameBuf, .overflow, call.atRead⟩])

/-- `flush_serial_state`. -/
def flushSerialState (state : SerialState) (q : Queueing) : SerialState × List Submit :=
  if 0 < state.frameBuf.length then ({ state with frameBuf := [] }, [⟨state.frameBuf, .flush, q⟩])
  else (state, [])

/-- The calls one after the other, with what they submit. -/
def serialRun (state : SerialState) : List SerialCall → SerialState × List Submit
  | [] => (state, [])
  | call :: calls =>
    let (state, submits) := processSerialData state call
    let (state, rest) := serialRun state calls
    (state, submits ++ rest)

/-- The messages put by calls of `submit_frame`. -/
def queueMessages (dataType : UInt32) (submits : List Submit) : List FifoMessage :=
  submits.flatMap fun s => submitFrame dataType s.frame s.q

end Dtu
