import Dtu.Framework.Runs
import Dtu.Impl.Kfifo
import Dtu.Impl.Lora
import Dtu.Impl.Serial

/-!
# From the ports to the logs

`receive_thread`, which cuts what its three ports receive into frames and submits them,
the producers of LoRa and Bluetooth messages, and `write_file_thread`, which takes the
messages from the FIFO and appends a line to the log of each, as they run side by side
(`Ingest`). A step is what a thread does between two accesses that it shares with
others: `fifo_lock`, the FIFO under it, `g_log_frame_id` and `stop_flag`.

What has been received, submitted and handled so far is not in the source.
-/

namespace Dtu

/-! ## Ports and logs -/

/-- The ports that `receive_thread` serves, in their order. -/
inductive Port where
  | rs485
  | rs232
  | bd
deriving DecidableEq

/-- The port served next in an iteration. -/
def Port.next : Port → Option Port
  | .rs485 => some .rs232
  | .rs232 => some .bd
  | .bd => none

/-- `RS485_DATA`, `RS232_DATA` and `BD_DATA`: the `data_type` that `receive_thread` gives
the states of its ports. -/
def Port.dataType : Port → UInt32
  | .rs485 => 0
  | .rs232 => 1
  | .bd => 2

/-- `BT_DATA`. -/
abbrev btData : UInt32 := 3

/-- The logs of `write_file_thread`. -/
inductive LogPath where
  | rs485
  | rs232
  | bd
  | lora
  | bt
deriving DecidableEq

/-- The `switch` of `write_file_thread` over `msg.type`, with `DEBUG` defined. -/
def logPath (type : UInt32) : Option LogPath :=
  if type = Port.rs485.dataType then some .rs485
  else if type = Port.rs232.dataType then some .rs232
  else if type = Port.bd.dataType then some .bd
  else if type = loraData then some .lora
  else if type = btData then some .bt
  else none

/-- A producer of messages. -/
inductive Producer where
  | receive
  | lora
  | bt
deriving DecidableEq

/-- `push_lora_to_fifo` and `debug_bt_push_to_fifo`: the message for which they take the
lock; other lengths they refuse before. A length of LoRa data is an `uint8_t`. -/
def pushed (producer : Producer) (data : List UInt8) : Option FifoMessage :=
  match producer with
  | .receive => none
  | .lora => if data.length = 0 ∨ 255 < data.length then none else some (message loraData data 0 0 0)
  | .bt => if data.length = 0 ∨ 256 < data.length then none else some (message btData data 0 0 0)

/-! ## The state -/

/-- A call of `submit_frame`, with its locals; `full` is set where it has found no room. -/
structure SubmitCall where
  port : Port
  frame : List UInt8
  frameId : UInt32
  offset : Nat
  partIndex : Nat
  full : Bool

namespace SubmitCall

/-- `chunk_len`. -/
def chunkLen (c : SubmitCall) : Nat :=
  if 256 < c.frame.length - c.offset then 256 else c.frame.length - c.offset

/-- `part_count`. -/
def partCount (c : SubmitCall) : Nat := (c.frame.length + 256 - 1) / 256

/-- `msg` of the loop. -/
def msg (c : SubmitCall) : FifoMessage :=
  message c.port.dataType ((c.frame.drop c.offset).take c.chunkLen) c.frameId (UInt16.ofNat c.partIndex)
    (UInt16.ofNat c.partCount)

/-- The loop goes on behind a message that has been put. -/
def advance (c : SubmitCall) : SubmitCall :=
  { c with
    offset := c.offset + c.chunkLen
    partIndex := c.partIndex + 1 }

end SubmitCall

/-- Where `receive_thread` is when it submits nothing: at `while (!stop_flag)`, before a port
in an iteration, before the flush of a port, or behind its return. -/
inductive ReceivePlace where
  | loop
  | serve (port : Port)
  | flush (port : Port)
  | returned
deriving DecidableEq

/-- `receive_thread`: the states of its ports, the frames of `port` that
`process_serial_data` still has to submit, and the call of `submit_frame` it is in. -/
structure Receiver where
  place : ReceivePlace
  states : Port → SerialState
  port : Port
  frames : List (List UInt8)
  call : Option SubmitCall

/-- Where `write_file_thread` is: at `while (!stop_flag)`, at the FIFO, behind it with a
message, before `fopen` with that and the `g_log_frame_id` it has found, or behind its
return. -/
inductive WritePlace where
  | loop
  | fifo
  | got (msg : FifoMessage)
  | write (path : LogPath) (msg : FifoMessage) (gLogFrameId : UInt32)
  | returned

/-- A message that `write_file_thread` is done with, the number it has at the end, and what
has been logged of it. -/
structure Handled where
  msg : FifoMessage
  frameId : UInt32
  logged : Option (LogPath × Record)

/-- The threads, and what has happened: the bytes received from each port, the calls of
`submit_frame` that have returned, the messages that `write_file_thread` is done with, and
how many frame ids have been drawn. -/
structure Ingest where
  fifo : DataFifo Producer
  gLogFrameId : UInt32
  stopFlag : Bool
  receiver : Receiver
  writer : WritePlace
  received : Port → List UInt8
  submitted : List SubmitCall
  handled : List Handled
  drawn : Nat

/-- `main` starts the threads. -/
def Ingest.boot (fifoBuffer : Vector UInt8 fifoSize) : Ingest where
  fifo := .init Producer fifoBuffer
  gLogFrameId := 0
  stopFlag := false
  receiver := ⟨.loop, fun port => serialStateInit port.dataType, .rs485, [], none⟩
  writer := .loop
  received := fun _ => []
  submitted := []
  handled := []
  drawn := 0

/-! ## `receive_thread` -/

/-- What a step of `receive_thread` finds: whether `select` returns with no error, what
`data_recv` reads, nothing if the port is not ready, and the time. -/
structure Reading where
  selects : Bool
  bytes : List UInt8
  now : Timeval
  length_le : bytes.length ≤ 255

/-- What `write_file_thread` finds: the time, and whether `fopen` and `fputs` succeed. -/
structure Writing where
  tm : Tm
  succeeds : Bool

namespace Ingest

/-- `submit_frame` returns. -/
def submitReturns (s : Ingest) (c : SubmitCall) : Ingest :=
  { s with
    receiver := { s.receiver with call := none }
    submitted := s.submitted ++ [c] }

/-- `submit_frame` up to its loop. -/
def submitBegins (s : Ingest) (frame : List UInt8) (frames : List (List UInt8)) : Ingest :=
  if frame = [] ∨ isGarbageData frame = true then
    { s with
      receiver := { s.receiver with frames := frames }
      submitted := s.submitted ++ [⟨s.receiver.port, frame, 0, 0, 0, false⟩] }
  else
    { s with
      gLogFrameId := (logNextFrameId s.gLogFrameId).2
      receiver := { s.receiver with
        frames := frames
        call := some ⟨s.receiver.port, frame, (logNextFrameId s.gLogFrameId).1, 0, 0, false⟩ }
      drawn := s.drawn + 1 }

/-- The loop of `submit_frame`: one access. -/
def submitLoop (s : Ingest) (c : SubmitCall) : Option Ingest :=
  if c.frame.length ≤ c.offset then some (s.submitReturns c)
  else
    match s.fifo.holder with
    | .free => (s.fifo.step (.lockPut .receive c.msg)).map fun fifo => { s with fifo := fifo }
    | .testLeft .receive _ => (s.fifo.step .resume).map fun fifo =>
        if kfifoLeft s.fifo.fifo < messageSize then { s with fifo := fifo }.submitReturns { c with full := true }
        else { s with fifo := fifo }
    | .put .receive _ => (s.fifo.step .resume).map fun fifo =>
        { s with
          fifo := fifo
          receiver := { s.receiver with call := some c.advance } }
    | _ => none

/-- `process_serial_data` of a port; what it finds in `submit_frame` does not change its frames. -/
def serve (s : Ingest) (port : Port) (r : Reading) : Ingest :=
  let q : Queueing := ⟨0, fun _ => true⟩
  let (state, submits) := processSerialData (s.receiver.states port) ⟨r.bytes, r.now, q, q⟩
  { s with
    receiver := { s.receiver with
      place := (port.next.map .serve).getD .loop
      states := fun p => if p = port then state else s.receiver.states p
      port := port
      frames := submits.map (·.frame) }
    received := fun p => if p = port then s.received p ++ r.bytes else s.received p }

/-- `flush_serial_state` of a port. -/
def flush (s : Ingest) (port : Port) : Ingest :=
  let (state, submits) := flushSerialState (s.receiver.states port) ⟨0, fun _ => true⟩
  { s with
    receiver := { s.receiver with
      place := (port.next.map .flush).getD .returned
      states := fun p => if p = port then state else s.receiver.states p
      port := port
      frames := submits.map (·.frame) } }

/-- The next step of `receive_thread`. -/
def receive (s : Ingest) (r : Reading) : Option Ingest :=
  match s.receiver.call, s.receiver.frames with
  | some c, _ => s.submitLoop c
  | none, frame :: frames => some (s.submitBegins frame frames)
  | none, [] =>
    match s.receiver.place with
    | .loop =>
      if s.stopFlag then some { s with receiver := { s.receiver with place := .flush .rs485 } }
      else if r.selects then some { s with receiver := { s.receiver with place := .serve .rs485 } }
      else some s
    | .serve port => some (s.serve port r)
    | .flush port => some (s.flush port)
    | .returned => none

/-! ## `write_file_thread` -/

/-- At the FIFO: `write_file_thread` takes the lock, or is woken with it; looks for a message and at
`stop_flag`; or gets the message it has found. -/
def writeFifo (s : Ingest) : Option Ingest :=
  match s.fifo.holder with
  | .free => (s.fifo.step .lockGet).map fun fifo => { s with fifo := fifo }
  | .testLen =>
    if s.stopFlag then (s.fifo.step .stop).map fun fifo => { s with fifo := fifo, writer := .returned }
    else (s.fifo.step .resume).map fun fifo => { s with fifo := fifo }
  | .get =>
    let (_, bytes, readLen) := kfifoGet s.fifo.fifo messageSize
    (s.fifo.step .resume).map fun fifo =>
      { s with
        fifo := fifo
        writer := if readLen = messageSize then .got (FifoMessage.ofBytes bytes) else .loop }
  | _ => none

/-- The next step of `write_file_thread`. Of a message of more than 256 bytes it reads
behind the data. -/
def write (s : Ingest) (w : Writing) : Option Ingest :=
  match s.writer with
  | .loop => some { s with writer := if s.stopFlag then .returned else .fifo }
  | .fifo => s.writeFifo
  | .got msg =>
    match logPath msg.type with
    | none => some { s with writer := .loop, handled := s.handled ++ [⟨msg, msg.frameId, none⟩] }
    | some path => some { s with
        gLogFrameId := (assignFrameId s.gLogFrameId msg).2
        writer := .write path msg s.gLogFrameId
        drawn := if msg.frameId = 0 then s.drawn + 1 else s.drawn }
  | .write path msg gLogFrameId =>
    if h : msg.len.toNat ≤ 256 then
      let r := record gLogFrameId w.tm msg h
      some { s with
        writer := .loop
        handled := s.handled ++ [⟨msg, r.msg.frameId, if w.succeeds then some (path, r) else none⟩] }
    else none
  | .returned => none

/-! ## What has come to the logs -/

/-- The calls of `submit_frame`, those that have returned first. -/
def calls (s : Ingest) : List SubmitCall := s.submitted ++ s.receiver.call.toList

/-- The frames of a port that wait for their call. -/
def waiting (s : Ingest) (port : Port) : List (List UInt8) := if s.receiver.port = port then s.receiver.frames else []

/-- The message that `write_file_thread` has got and is not done with. -/
def hand (s : Ingest) : List FifoMessage :=
  match s.writer with
  | .got msg => [msg]
  | .write _ msg _ => [msg]
  | _ => []

/-- The records of a log. -/
def log (s : Ingest) (path : LogPath) : List Record :=
  s.handled.filterMap fun h => h.logged.bind fun (p, r) => if p = path then some r else none

end Ingest

/-! ## All threads -/

/-- A step of `receive_thread`; of a thread that pushes LoRa or Bluetooth messages, when
it takes the lock and while it holds it; of `write_file_thread`; or the signal that sets
`stop_flag`. -/
inductive IngestAction where
  | receive (r : Reading)
  | push (producer : Producer) (data : List UInt8)
  | pushing
  | write (w : Writing)
  | stop

def Ingest.step (s : Ingest) : IngestAction → Option (Ingest × Unit)
  | .receive r => (s.receive r).map (·, ())
  | .push producer data =>
    match pushed producer data with
    | none => some (s, ())
    | some msg => (s.fifo.step (.lockPut producer msg)).map fun fifo => ({ s with fifo := fifo }, ())
  | .pushing =>
    match s.fifo.holder with
    | .testLeft producer _ =>
      if producer = .receive then none else (s.fifo.step .resume).map fun fifo => ({ s with fifo := fifo }, ())
    | .put producer _ =>
      if producer = .receive then none else (s.fifo.step .resume).map fun fifo => ({ s with fifo := fifo }, ())
    | _ => none
  | .write w => (s.write w).map (·, ())
  | .stop => some ({ s with stopFlag := true }, ())

end Dtu
