import Dtu.Impl.Compact

/-!
# A log, its writer and its compactor

`write_file_thread` appends to a log while `compact_log_file` rewrites it, without
a common lock. `LogFile.step` is one step of either. A stream stays with the file
that was under the path when it was opened, also when `rename` has put another
one there; each loop of `compact_log_file` reads one line in a step, and so sees
what has been appended before.
-/

namespace Dtu

open Stdio

/-- Where `write_file_thread` is: before `fopen`, between it and `fflush` with the
stream and the line, or before `fclose`. -/
inductive Writer where
  | idle
  | opened (fd : Nat) (r : Record)
  | flushed

/-- Where `compact_log_file` is, with its stream, the position of that and its other
locals: at the call, in its three loops, before `rename`, or behind its return. -/
inductive Compactor where
  | called
  | scan (fd pos : Nat) (legacyFrameId : UInt32) (kept : List (Option UInt32))
  | retain (fd pos : Nat) (legacyFrameId : UInt32) (kept : List (Option UInt32)) (out : List Char) (newOffset : Nat)
  | copy (fd pos : Nat) (out : List Char) (newOffset : Nat)
  | copied (fd pos : Nat) (out : List Char) (newOffset : Nat)
  | returned (ret : Int)

/-- The files by number, the one under the path of the log, the two threads, the
`*offset` of the compactor, and the lines flushed so far. -/
structure LogFile where
  files : Nat → List Char
  path : Nat
  nextFile : Nat
  writer : Writer
  compactor : Compactor
  offset : Nat
  flushed : List Record

/-- The log. -/
def LogFile.text (s : LogFile) : List Char := s.files s.path

/-- A log before both threads. -/
def LogFile.start (content : List Char) (offset : Nat) : LogFile where
  files := fun fd => if fd = 0 then content else []
  path := 0
  nextFile := 1
  writer := .idle
  compactor := .called
  offset := offset
  flushed := []

/-- `while (ftello(fp) < sent_end && fgets(line, sizeof(line), fp))`: the line, or
none when the loop is left. -/
def LogFile.sentLine (s : LogFile) (fd pos : Nat) : List Char :=
  if pos < s.offset then fgets logCompactMaxLine ((s.files fd).drop pos) else []

/-- The next step of `compact_log_file(path, &offset, 10)`, given whether `fopen` of
the log, and of the temporary file, and `rename` succeed. -/
def LogFile.compact (s : LogFile) (opens : Bool) (io : CompactIo) : Option LogFile :=
  match s.compactor with
  | .called =>
    if s.offset = 0 then some { s with compactor := .returned 0 }
    else if !opens then some { s with compactor := .returned 0 }
    else some { s with compactor := .scan s.path 0 0 (List.replicate 10 none) }
  | .scan fd pos legacyFrameId kept =>
    let line := s.sentLine fd pos
    if line = [] then
      some { s with compactor := if io.tmpOpens then .retain fd 0 0 kept [] 0 else .returned (-1) }
    else
      let (frameId, legacyFrameId) := lineFrameId line legacyFrameId
      some { s with compactor := .scan fd (pos + line.length) legacyFrameId (keepFrameId kept frameId) }
  | .retain fd pos legacyFrameId kept out newOffset =>
    let line := s.sentLine fd pos
    if line = [] then some { s with compactor := .copy fd s.offset out newOffset }
    else
      let (frameId, legacyFrameId) := lineFrameId line legacyFrameId
      if frameIdIsKept kept frameId then
        some { s with
          compactor := .retain fd (pos + line.length) legacyFrameId kept (out ++ cstr line)
            (newOffset + (cstr line).length) }
      else some { s with compactor := .retain fd (pos + line.length) legacyFrameId kept out newOffset }
  | .copy fd pos out newOffset =>
    let line := fgets logCompactMaxLine ((s.files fd).drop pos)
    if line = [] then some { s with compactor := .copied fd pos out newOffset }
    else some { s with compactor := .copy fd (pos + line.length) (out ++ cstr line) newOffset }
  | .copied _ _ out newOffset =>
    if io.renames then
      some { s with
        files := fun fd => if fd = s.nextFile then out else s.files fd
        path := s.nextFile
        nextFile := s.nextFile + 1
        compactor := .returned 0
        offset := newOffset }
    else some { s with compactor := .returned (-1) }
  | .returned _ => none

/-- A step of one of the threads; `fputs` that fails is followed by `fclose`. -/
inductive FileAction where
  | fopen (r : Record)
  | fflush
  | fputsFails
  | fclose
  | compact (opens : Bool) (io : CompactIo)

def LogFile.step (s : LogFile) : FileAction → Option (LogFile × Unit)
  | .fopen r =>
    match s.writer with
    | .idle => some ({ s with writer := .opened s.path r }, ())
    | _ => none
  | .fflush =>
    match s.writer with
    | .opened fd r =>
      some ({ s with
        files := fun i => if i = fd then s.files fd ++ r.line else s.files i
        writer := .flushed
        flushed := s.flushed ++ [r] }, ())
    | _ => none
  | .fputsFails =>
    match s.writer with
    | .opened _ _ => some ({ s with writer := .idle }, ())
    | _ => none
  | .fclose =>
    match s.writer with
    | .flushed => some ({ s with writer := .idle }, ())
    | _ => none
  | .compact opens io => (s.compact opens io).map (·, ())

end Dtu
