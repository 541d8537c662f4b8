import Dtu.Framework.Runs
import Dtu.Impl.Kfifo
import Dtu.Impl.Serial

/-!
# A call of `submit_frame` among the threads of the FIFO

`submit_frame` takes `fifo_lock` for each part of its frame and lets go of it between
two parts; the other producers and `write_file_thread` take it whenever it is free
(`Submission`). Of the producers of `DataFifo`, `none` is the one that submits the
frame. Who has put which message, and how full the FIFO was where `submit_frame` has
looked, is not in the source.
-/

namespace Dtu

variable {ι : Type}

/-- The call after `log_next_frame_id`: `rest` is the frame from `offset` on. `puts` are
the messages put since the call, by whom, and `fills` the whole messages queued at each
`kfifo_left` of the call, the last one last. -/
structure Submission (ι : Type) where
  fifo : DataFifo (Option ι)
  dataType : UInt32
  frameId : UInt32
  partCount : Nat
  rest : List UInt8
  partIndex : Nat
  finished : Bool
  puts : List (Option ι × FifoMessage)
  fills : List Nat

/-- The message that an access puts, and by whom. -/
def DataFifo.putting {ι : Type} (s : DataFifo ι) : FifoAction ι → List (ι × FifoMessage)
  | .resume =>
    match s.holder with
    | .put producer msg => [(producer, msg)]
    | _ => []
  | _ => []

/-- `submit_frame` holds the lock. -/
def Holder.submits : Holder (Option ι) → Bool
  | .testLeft none _ => true
  | .put none _ => true
  | _ => false

/-- `submit_frame` does its next access, or another thread does. -/
inductive SubmitAction (ι : Type) where
  | submit
  | other (action : FifoAction ι)

namespace Submission

/-- A call of `submit_frame`, up to the loop; `g_log_frame_id` is what it finds there. -/
def start (fifo : DataFifo (Option ι)) (dataType gLogFrameId : UInt32) (frame : List UInt8) : Submission ι where
  fifo := fifo
  dataType := dataType
  frameId := (logNextFrameId gLogFrameId).1
  partCount := (frame.length + 256 - 1) / 256
  rest := frame
  partIndex := 0
  finished := decide (frame = []) || isGarbageData frame
  puts := []
  fills := []

/-- `msg` of the loop. -/
def msg (s : Submission ι) : FifoMessage :=
  message s.dataType (s.rest.take 256) s.frameId (UInt16.ofNat s.partIndex) (UInt16.ofNat s.partCount)

/-- An access at the lock, by whoever holds it or takes it. -/
def access (s : Submission ι) (action : FifoAction (Option ι)) : Option (Submission ι) :=
  (s.fifo.step action).map fun fifo =>
    { s with
      fifo := fifo
      puts := s.puts ++ s.fifo.putting action }

/-- The next access of `submit_frame`. -/
def submit (s : Submission ι) : Option (Submission ι) :=
  if s.finished then none
  else if s.rest = [] then some { s with finished := true }
  else
    match s.fifo.holder with
    | .free => s.access (.lockPut none s.msg)
    | .testLeft none _ => (s.access .resume).map fun s' =>
        { s' with
          finished := decide (kfifoLeft s.fifo.fifo < messageSize)
          fills := s.fills ++ [(kfifoLen s.fifo.fifo).toNat / messageSize.toNat] }
    | .put none _ => (s.access .resume).map fun s' =>
        { s' with rest := s.rest.drop 256, partIndex := s.partIndex + 1 }
    | _ => none

def step (s : Submission ι) : SubmitAction ι → Option (Submission ι × Unit)
  | .submit => s.submit.map (·, ())
  | .other (.lockPut producer msg) => (s.access (.lockPut (some producer) msg)).map (·, ())
  | .other .lockGet => (s.access .lockGet).map (·, ())
  | .other .stop => (s.access .stop).map (·, ())
  | .other .resume => if s.fifo.holder.submits then none else (s.access .resume).map (·, ())

/-- The messages of the frame that have been put. -/
def put (s : Submission ι) : List FifoMessage := s.puts.filterMap fun p => if p.1.isNone then some p.2 else none

end Submission

end Dtu
