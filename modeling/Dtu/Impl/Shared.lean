import Dtu.Impl.BdLink
import Dtu.Impl.Lora

/-!
# Two threads over the serial logs

`main_send_thread` and `lora_transform_thread` read the RS485 and the RS232 log, each
with offsets of its own, and `main_send_thread` compacts them. `SharedLogs` is both
threads over the same files. `lines` follows the lines of each log: which were appended
while the device was a node, and how often `lora_transform_thread` has packed each; it
is `none` from when a log no longer consists of lines as they were logged. A thread can
go on with a `mesh_type` that it has read before it changed.
-/

namespace Dtu

open Stdio

/-- A line in a log. -/
structure TrackedLine where
  record : Record
  node : Bool
  packed : Nat

/-- The text of lines. -/
def linesText (ls : List TrackedLine) : List Char := logText (ls.map TrackedLine.record)

/-- Lines that are appended. -/
def tracked (node : Bool) (rs : List Record) : List TrackedLine := rs.map fun r => ⟨r, node, 0⟩

/-- The lines from position `pos` on, each with whether it lies whole between two
offsets. -/
def cutLines (start stop : Nat) : Nat → List TrackedLine → List (TrackedLine × Bool)
  | _, [] => []
  | pos, l :: ls =>
    (l, decide (start ≤ pos ∧ pos + l.record.line.length ≤ stop)) ::
      cutLines start stop (pos + l.record.line.length) ls

/-- The lines that lie whole between two offsets. -/
def passedLines (start stop : Nat) (ls : List TrackedLine) : List TrackedLine :=
  ((cutLines start stop 0 ls).filter (·.2)).map (·.1)

/-- A line with an entry is packed once more. -/
def TrackedLine.pack (l : TrackedLine) : TrackedLine :=
  if 2 ≤ l.record.payload.length then { l with packed := l.packed + 1 } else l

/-- The lines between two offsets are packed. -/
def packLines (start stop : Nat) (ls : List TrackedLine) : List TrackedLine :=
  (cutLines start stop 0 ls).map fun (l, passed) => if passed then l.pack else l

/-- The line that starts at an offset, or the end. -/
def lineAt (ls : List TrackedLine) (offset : Nat) : Option Nat :=
  (List.range (ls.length + 1)).find? fun k => decide ((linesText (ls.take k)).length = offset)

/-- `compact_log_file` keeps a line before line `k`. -/
def keepsLine (ls : List TrackedLine) (k : Nat) (l : TrackedLine) : Bool :=
  frameIdIsKept (keptFrames ((ls.take k).map fun l => l.record.line) 0 (List.replicate 10 none)) l.record.msg.frameId

/-- The lines after `compact_log_file` up to line `k`, and those it has dropped. -/
def compactLines (ls : List TrackedLine) (k : Nat) : List TrackedLine × List TrackedLine :=
  ((ls.take k).filter (keepsLine ls k) ++ ls.drop k, (ls.take k).filter fun l => !keepsLine ls k l)

/-- What a step on the files renames over log `i`. -/
def DiskOp.renamed (i : Fin mainPathCount) : DiskOp → Option (List Char)
  | .rename j content => if j = i then some content else none
  | _ => none

/-- What a commit renames over log `i`. -/
def Commit.renamed (c : Commit) (i : Fin mainPathCount) : Option (List Char) :=
  (c.ops.filterMap (DiskOp.renamed i)).getLast?

/-- The threads, and `mesh_type`. -/
structure SharedLogs where
  main : MainSend
  node : Bool
  loraOffsets : Fin 2 → Nat
  lines : Fin 2 → Option (List TrackedLine)
  dropped : Fin 2 → List TrackedLine

/-- `RS485_LOG_PATH` and `RS232_LOG_PATH` among the paths of `main_send_thread`. -/
def serialLog (i : Fin 2) : Fin mainPathCount := i.castLE (by decide)

/-- What happens next. -/
inductive SharedAction where
  /-- `mesh_type` is set. -/
  | mesh (node : Bool)
  /-- `write_file_thread` appends records. -/
  | append (appended : Fin mainPathCount → List Record)
  /-- `main_send_thread` iterates. -/
  | main (t : Turn)
  /-- `lora_transform_thread` iterates as a node. -/
  | lora

namespace SharedLogs

/-- The threads start, with logs that hold records. -/
def boot (recs : Fin mainPathCount → List Record) (offsetFile : OffsetFile) (node : Bool) : SharedLogs where
  main := MainSend.boot ⟨fun i => if recs i = [] then none else some (logText (recs i)), offsetFile⟩
  node := node
  loraOffsets := fun _ => 0
  lines := fun i => some (tracked false (recs (serialLog i)))
  dropped := fun _ => []

/-- `pack_data_from_files` as `lora_transform_thread` calls it. -/
def pack (s : SharedLogs) : Option (HexBatch × (Fin 2 → Nat)) :=
  packDataFromFiles (fun i => s.main.disk.logs (serialLog i)) s.loraOffsets loraMaxHexLen

/-- The records that are appended in an iteration of `main_send_thread`. -/
def appendedIn (s : SharedLogs) (t : Turn) : Fin mainPathCount → List Record :=
  if (s.main.bdDue t).isSome then t.appended else fun _ => []

/-- The lines once records are appended. -/
def appendLines (s : SharedLogs) (appended : Fin mainPathCount → List Record) (i : Fin 2) : Option (List TrackedLine) :=
  (s.lines i).map (· ++ tracked s.node (appended (serialLog i)))

/-- The lines after an iteration of `main_send_thread`, and those that are dropped in it. -/
def turnLines (s : SharedLogs) (t : Turn) (c : Option Commit) (i : Fin 2) :
    Option (List TrackedLine) × List TrackedLine :=
  let lines := s.appendLines (s.appendedIn t) i
  match c with
  | none => (lines, [])
  | some c =>
    if (c.renamed (serialLog i)).isSome then
      match lines.bind fun ls => (lineAt ls (c.pendingOffsets (serialLog i))).map (compactLines ls) with
      | some (kept, dropped) => (some kept, dropped)
      | none => (none, [])
    else (lines, [])

def step (s : SharedLogs) : SharedAction → Option (SharedLogs × Unit)
  | .mesh node => some ({ s with node := node }, ())
  | .append appended =>
    some ({ s with
      main := { s.main with disk := s.main.disk.append appended }
      lines := s.appendLines appended }, ())
  | .main t => (s.main.turn t).map fun (main, c) =>
    ({ s with
      main := main
      lines := fun i => (s.turnLines t c i).1
      dropped := fun i => s.dropped i ++ (s.turnLines t c i).2 }, ())
  | .lora => s.pack.map fun (_, pending) =>
    ({ s with
      loraOffsets := pending
      lines := fun i => (s.lines i).map (packLines (s.loraOffsets i) (pending i)) }, ())

end SharedLogs

end Dtu
