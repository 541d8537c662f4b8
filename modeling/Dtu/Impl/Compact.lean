import Dtu.Impl.LogLine

/-!
# Compacting a log

`compact_log_file` rewrites a log to the lines of the last frames before an
offset and all that is behind it: the text it writes to the temporary file
(`compactText`), and whether it gets to rename that over the log.
-/

namespace Dtu

open Stdio

/-- `LOG_COMPACT_MAX_LINE`. -/
abbrev logCompactMaxLine : Nat := 1024

/-- `LOG_COMPACT_MAX_KEEP_FRAMES`. -/
abbrev logCompactMaxKeepFrames : Nat := 32

/-- `frame_id_is_kept`: `none` is an entry of `kept_frame_t` that is not valid. -/
def frameIdIsKept (frames : List (Option UInt32)) (frameId : UInt32) : Bool := frames.contains (some frameId)

/-- `keep_frame_id`. -/
def keepFrameId (frames : List (Option UInt32)) (frameId : UInt32) : List (Option UInt32) :=
  if frameIdIsKept frames frameId then frames else frames.drop 1 ++ [some frameId]

/-- The frame id of a line, and `legacy_frame_id` after it: a line without one
is given the next. -/
def lineFrameId (line : List Char) (legacyFrameId : UInt32) : UInt32 × UInt32 :=
  match parseLogFrameId (cstr line) with
  | some frameId => (frameId, legacyFrameId)
  | none => (legacyFrameId + 1, legacyFrameId + 1)

/-- The lines that `while (ftello(fp) < sent_end && fgets(...))` reads, from
position `pos` on. -/
def sentLines (sentEnd : Nat) : Nat → List (List Char) → List (List Char)
  | _, [] => []
  | pos, line :: lines => if pos < sentEnd then line :: sentLines sentEnd (pos + line.length) lines else []

/-- The first loop of `compact_log_file`: the frame ids it keeps. -/
def keptFrames : List (List Char) → UInt32 → List (Option UInt32) → List (Option UInt32)
  | [], _, kept => kept
  | line :: lines, legacyFrameId, kept =>
    let (frameId, legacyFrameId) := lineFrameId line legacyFrameId
    keptFrames lines legacyFrameId (keepFrameId kept frameId)

/-- The second loop: the text of the lines with these ids. -/
def retainedText (kept : List (Option UInt32)) : List (List Char) → UInt32 → List Char
  | [], _ => []
  | line :: lines, legacyFrameId =>
    let (frameId, legacyFrameId) := lineFrameId line legacyFrameId
    (if frameIdIsKept kept frameId then cstr line else []) ++ retainedText kept lines legacyFrameId

/-- What `compact_log_file` retains of the part of a log before `sentEnd`. -/
def retained (content : List Char) (sentEnd keepFrames : Nat) : List Char :=
  let lines := sentLines sentEnd 0 (fgetsAll logCompactMaxLine content)
  retainedText (keptFrames lines 0 (List.replicate keepFrames none)) lines 0

/-- The text of the temporary file. -/
def compactText (content : List Char) (sentEnd keepFrames : Nat) : List Char :=
  retained content sentEnd keepFrames ++ (fgetsAll logCompactMaxLine (content.drop sentEnd)).flatMap cstr

/-- Whether `compact_log_file` can open its temporary file, and rename it. -/
structure CompactIo where
  tmpOpens : Bool
  renames : Bool

/-- `compact_log_file`, when what it writes is stored: what it renames over the
log with the new `*offset`, if it does, and what it returns. -/
def compactLogFile (file : Option (List Char)) (offset : Nat) (keepFrames : Int) (io : CompactIo) :
    Option (List Char × Nat) × Int :=
  if offset = 0 ∨ keepFrames ≤ 0 then (none, 0)
  else
    let keepFrames := min keepFrames.toNat logCompactMaxKeepFrames
    match file with
    | none => (none, 0)
    | some content =>
      if !io.tmpOpens then (none, -1)
      else if !io.renames then (none, -1)
      else (some (compactText content offset keepFrames, (retained content offset keepFrames).length), 0)

/-- The log and `*offset` after a call. -/
def afterCompact (file : Option (List Char)) (offset : Nat) (renamed : Option (List Char × Nat)) :
    Option (List Char) × Nat :=
  match renamed with
  | some (content, newOffset) => (some content, newOffset)
  | none => (file, offset)

/-- The characters of a text, from character `k` on, that are stored. -/
def storedText (stored : Nat → Bool) : Nat → List Char → List Char
  | _, [] => []
  | k, c :: text => if stored k then c :: storedText stored (k + 1) text else storedText stored (k + 1) text

/-- `compact_log_file`, when its writes can fail: `stored k` says whether character `k`
of what it writes is stored. It looks at the result of no `fputs`, `fflush`, `fsync`
or `fclose`. -/
def compactLogFileStored (file : Option (List Char)) (offset : Nat) (keepFrames : Int) (io : CompactIo)
    (stored : Nat → Bool) : Option (List Char × Nat) × Int :=
  let (renamed, ret) := compactLogFile file offset keepFrames io
  (renamed.map fun (content, newOffset) => (storedText stored 0 content, newOffset), ret)

end Dtu
