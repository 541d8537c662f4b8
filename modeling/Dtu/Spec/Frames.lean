import Dtu.Impl.Serial

/-!
# Frames of a serial port

What receiving is for: `frames` cuts the successive reads of a port into frames,
where nothing was received for too long or where a frame is long enough, and
`IsParts` says which messages carry a frame.
-/

namespace Dtu

/-- Some bytes received, and when. -/
structure Read where
  now : Timeval
  bytes : List UInt8

/-- The calls of `process_serial_data` that receive something. -/
def nonEmptyReads (calls : List SerialCall) : List Read :=
  (calls.filter fun call => !call.read.isEmpty).map fun call => ⟨call.now, call.read⟩

def Timeval.micros (t : Timeval) : Int := t.tvSec * 1000000 + t.tvUsec

/-- The time between two reads in whole milliseconds, rounded down. -/
def gapMs (last now : Timeval) : Int := (now.micros - last.micros) / 1000

/-- The frames of reads when `cur` has been received of the first one, the last
of it at time `last`. -/
def framesFrom (cur : List UInt8) (last : Timeval) : List Read → List (List UInt8)
  | [] => [cur]
  | r :: rs =>
    if frameTimeoutMs < gapMs last r.now ∨ maxLogLen ≤ cur.length then cur :: framesFrom r.bytes r.now rs
    else framesFrom (cur ++ r.bytes) r.now rs

/-- The frames of successive reads: a frame ends where the next read is more than
10 ms later, or where it has 256 bytes. -/
def frames : List Read → List (List UInt8)
  | [] => []
  | r :: rs => framesFrom r.bytes r.now rs

/-- `msgs` carry a frame under the id `frameId`. -/
structure IsParts (dataType frameId : UInt32) (frame : List UInt8) (msgs : List FifoMessage) : Prop where
  count : msgs.length = (frame.length + 255) / 256
  header (i : Nat) (h : i < msgs.length) : msgs[i].type = dataType ∧ msgs[i].frameId = frameId ∧
    msgs[i].partIndex.toNat = i ∧ msgs[i].partCount.toNat = msgs.length
  full (i : Nat) (h : i < msgs.length) : i + 1 < msgs.length → msgs[i].payload.length = 256
  join : msgs.flatMap FifoMessage.payload = frame

end Dtu
