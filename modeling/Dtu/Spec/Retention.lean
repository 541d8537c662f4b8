import Dtu.Framework.Recent
import Dtu.Impl.Compact

/-!
# What compaction keeps

Compaction is there to keep of the sent lines those of the last frames
(`keptLines`), and all lines that have not been sent. A log is a list of lines that
the reader of `compact_log_file` finds whole (`TextLine`); a frame is the lines that
one message of a serial port, or one other message, has been logged in
(`LoggedFrame`).
-/

namespace Dtu

open Recent

/-- A line that is read whole. -/
def TextLine (line : List Char) : Prop :=
  ∃ body, line = body ++ ['\n'] ∧ '\n' ∉ body ∧ '\x00' ∉ body ∧ line.length < logCompactMaxLine

/-- The frame ids of lines; those without one are numbered. -/
def frameIds : UInt32 → List (List Char) → List UInt32
  | _, [] => []
  | legacyFrameId, line :: lines =>
    let (frameId, legacyFrameId) := lineFrameId line legacyFrameId
    frameId :: frameIds legacyFrameId lines

/-- The lines whose frame ids are in a list. -/
def linesWith (frames : List UInt32) (lines : List (List Char)) : List (List Char) :=
  ((lines.zip (frameIds 0 lines)).filter (·.2 ∈ frames)).map (·.1)

/-- The lines of the last frames, by the ids that a register of this size holds. -/
def keptLines (keepFrames : Nat) (lines : List (List Char)) : List (List Char) :=
  linesWith (recent keepFrames (frameIds 0 lines)) lines

/-- The ids that `log_next_frame_id` gives a process, one after the other. -/
def frameIdsFrom : UInt32 → Nat → List UInt32
  | _, 0 => []
  | gLogFrameId, n + 1 =>
    let (id, gLogFrameId) := logNextFrameId gLogFrameId
    id :: frameIdsFrom gLogFrameId n

/-- A frame in a log, or as much of it as is there: the records of its parts have its id. -/
structure LoggedFrame where
  id : UInt32
  records : List Record
  records_ne : records ≠ []
  frameId_eq : ∀ r ∈ records, r.msg.frameId = id

/-- The text of frames in their log. -/
def framesText (frames : List LoggedFrame) : List Char := logText (frames.flatMap LoggedFrame.records)

end Dtu
