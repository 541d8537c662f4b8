import Dtu.Impl.Compact

/-!
# The log of BeiDou data

`write_file_thread` appends to the log of BeiDou data, which no thread reads, and calls
`trim_log_file_by_size` at every hundredth line of a process (`BdLog`). What has been
written, how often the process was restarted and how often trimming failed is not in
the source.
-/

namespace Dtu

/-- `LOG_MAX_SIZE`. -/
abbrev logMaxSize : Nat := 5 * 1024 * 1024

/-- `LOG_KEEP_TAIL_SIZE`. -/
abbrev logKeepTailSize : Nat := 1 * 1024 * 1024

/-- How the calls of `trim_log_file_by_size` end: `fopen` of the log, both `fseek`, `fopen` of the
temporary file, `rename`; and the characters written that are stored. -/
structure TrimIo where
  opens : Bool
  seeks : Bool
  tmpOpens : Bool
  renames : Bool
  stored : Nat → Bool

/-- The loop of `trim_log_file_by_size`: what it writes when `rest` is left to read. The end of
the file shows at the first read that is short. -/
def trimCopy (rest : List Char) : List Char :=
  let n := min 4096 rest.length
  if n < 4096 then rest.take n else rest.take n ++ trimCopy (rest.drop n)
termination_by rest.length
decreasing_by
  rw [List.length_drop]
  omega

/-- `trim_log_file_by_size`: the log after it. It looks at the result of no `fwrite`, `fflush`
or `fsync`. -/
def trimLogFileBySize (file : Option (List Char)) (io : TrimIo) : Option (List Char) :=
  match file with
  | none => none
  | some content =>
    if !io.opens then file
    else if !io.seeks then file
    else if content.length < logMaxSize then file
    else if !io.tmpOpens then file
    else if !io.renames then file
    else some (storedText io.stored 0 (trimCopy (content.drop (content.length - logKeepTailSize))))

/-- No call of `trim_log_file_by_size` fails. -/
def TrimIo.succeeds (io : TrimIo) : Bool := io.opens && io.seeks && io.tmpOpens && io.renames

/-- The log of BeiDou data and `bd_log_trim_count`; the records written, the restarts, and the
calls of `trim_log_file_by_size` that have failed. -/
structure BdLog where
  file : Option (List Char)
  bdLogTrimCount : Nat
  written : List Record
  restarts : Nat
  failures : Nat

/-- The program starts with a log. -/
def BdLog.start (file : Option (List Char)) : BdLog := ⟨file, 0, [], 0, 0⟩

/-- `write_file_thread` writes a line, or the process ends, if in `trim_log_file_by_size` then before
`rename`, and is started again. -/
inductive BdLogAction where
  | write (r : Record) (io : TrimIo)
  | restart

namespace BdLog

def step (s : BdLog) : BdLogAction → Option (BdLog × Unit)
  | .write r io =>
    let file := some (s.file.getD [] ++ r.line)
    let bdLogTrimCount := s.bdLogTrimCount + 1
    if 100 ≤ bdLogTrimCount then
      some ({ s with
        file := trimLogFileBySize file io
        bdLogTrimCount := 0
        written := s.written ++ [r]
        failures := if io.succeeds then s.failures else s.failures + 1 }, ())
    else some ({ s with file, bdLogTrimCount, written := s.written ++ [r] }, ())
  | .restart => some ({ s with bdLogTrimCount := 0, restarts := s.restarts + 1 }, ())

/-- What is written to the temporary file is stored. -/
def Stored (_ : BdLog) : BdLogAction → Prop
  | .write _ io => ∀ k, io.stored k = true
  | .restart => True

end BdLog

end Dtu
