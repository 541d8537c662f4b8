import Dtu.Framework.Stdio

/-!
# Log lines

`fifo_message_t`, the line `write_file_thread` makes of a message, and what
reads such lines back: `parse_log_line`, `parse_log_frame_id`, and
`data_separator`, which decodes the text packed from them.

A `Record` is a message as `write_file_thread` has logged it, with the time
of its line: its frame id is not zero any more.
-/

namespace Dtu

open Stdio

/-- `fifo_message_t`. -/
structure FifoMessage where
  type : UInt32
  len : UInt32
  data : Vector UInt8 256
  frameId : UInt32
  partIndex : UInt16
  partCount : UInt16
deriving DecidableEq

/-- The first `len` bytes of `data`. -/
def FifoMessage.payload (msg : FifoMessage) : List UInt8 := msg.data.toList.take msg.len.toNat

/-- The message a producer makes of `data`: zeroed, then its fields set. -/
def message (type : UInt32) (data : List UInt8) (frameId : UInt32) (partIndex partCount : UInt16) :
    FifoMessage where
  type := type
  len := UInt32.ofNat data.length
  data := Vector.ofFn fun i => data.getD i 0
  frameId := frameId
  partIndex := partIndex
  partCount := partCount

/-- The fields of `struct tm` that a line shows, as `localtime` sets them:
`tm_year + 1900` is an `int`. -/
structure Tm where
  tmYear : Nat
  tmMon : Nat
  tmMday : Nat
  tmHour : Nat
  tmMin : Nat
  tmSec : Nat
  year_lt : tmYear + 1900 < 2 ^ 31
  mon_lt : tmMon < 12
  mday_le : tmMday ≤ 31
  hour_lt : tmHour < 24
  min_lt : tmMin < 60
  sec_le : tmSec ≤ 60

/-- The time `main` has in `set_time`: 2026-04-22 17:00:00. -/
def Tm.setTime : Tm where
  tmYear := 2026 - 1900
  tmMon := 4 - 1
  tmMday := 22
  tmHour := 17
  tmMin := 0
  tmSec := 0
  year_lt := by decide
  mon_lt := by decide
  mday_le := by decide
  hour_lt := by decide
  min_lt := by decide
  sec_le := by decide

/-! ## Writing -/

/-- `log_next_frame_id`: the id, and `g_log_frame_id` after the call. -/
def logNextFrameId (gLogFrameId : UInt32) : UInt32 × UInt32 :=
  if gLogFrameId + 1 = 0 then (1, 1) else (gLogFrameId + 1, gLogFrameId + 1)

/-- `write_file_thread` gives a message without a frame id one of its own. -/
def assignFrameId (gLogFrameId : UInt32) (msg : FifoMessage) : FifoMessage × UInt32 :=
  if msg.frameId = 0 then
    let (id, g) := logNextFrameId gLogFrameId
    ({ msg with frameId := id, partIndex := 0, partCount := 1 }, g)
  else (msg, gLogFrameId)

/-- `snprintf(buf + pos, size - pos, …)` of `text` into `buf[size]`: what
does not fit, with a NUL behind it, is cut off. -/
def snprintfAt (size pos : Nat) (buf text : List Char) : List Char :=
  buf.take pos ++ text.take (size - pos - 1)

/-- `sizeof(log_line)`. -/
abbrev logLineSize : Nat := 1024

/-- `"[%04d-%02d-%02d %02d:%02d:%02d] F=%u P=%u/%u "`. -/
def logHeader (tm : Tm) (msg : FifoMessage) : List Char :=
  '[' :: (fmt0 4 (tm.tmYear + 1900) ++ '-' :: (fmt0 2 (tm.tmMon + 1) ++ '-' :: (fmt0 2 tm.tmMday ++
    ' ' :: (fmt0 2 tm.tmHour ++ ':' :: (fmt0 2 tm.tmMin ++ ':' :: (fmt0 2 tm.tmSec ++
    [']', ' ', 'F', '='] ++ fmtU msg.frameId.toNat ++ [' ', 'P', '='] ++ fmtU msg.partIndex.toNat ++
    '/' :: (fmtU msg.partCount.toNat ++ [' '])))))))

/-- The loop over the data bytes, from position `pos` of the line; the line
and the position after it. -/
def logData : List UInt8 → List Char → Nat → List Char × Nat
  | [], logLine, pos => (logLine, pos)
  | b :: bs, logLine, pos =>
    if pos < logLineSize - 5 then
      logData bs (snprintfAt logLineSize pos logLine (fmtX2 b ++ [' '])) (pos + 3)
    else (logLine, pos)

/-- The line `write_file_thread` builds for a message. -/
def logLine (tm : Tm) (msg : FifoMessage) : List Char :=
  let header := logHeader tm msg
  let (line, pos) := logData msg.payload (snprintfAt logLineSize 0 [] header) header.length
  line.take pos ++ ['\n']

/-- A message that `write_file_thread` has logged, and when. -/
structure Record where
  tm : Tm
  msg : FifoMessage
  len_le : msg.len.toNat ≤ 256
  frameId_ne : msg.frameId ≠ 0

/-- The text of a record in its log. -/
def Record.line (r : Record) : List Char := logLine r.tm r.msg

/-- The data bytes of a record. -/
def Record.payload (r : Record) : List UInt8 := r.msg.payload

/-- The text of a log with these records. -/
def logText (rs : List Record) : List Char := rs.flatMap Record.line

/-- The offset of record `k` in its log; the end of the log past the last. -/
def lineStart (rs : List Record) (k : Nat) : Nat := (logText (rs.take k)).length

theorem logNextFrameId_ne_zero (g : UInt32) : (logNextFrameId g).1 ≠ 0 := by
  unfold logNextFrameId
  split
  · decide
  · assumption

/-- What `write_file_thread` logs of a message from a FIFO at time `tm`. -/
def record (g : UInt32) (tm : Tm) (msg : FifoMessage) (h : msg.len.toNat ≤ 256) : Record where
  tm := tm
  msg := (assignFrameId g msg).1
  len_le := by unfold assignFrameId; split <;> exact h
  frameId_ne := by
    unfold assignFrameId
    split
    · exact logNextFrameId_ne_zero g
    · assumption

/-! ## Reading -/

/-- The loop of `parse_log_line` over the bytes, with room for `max_len - count`
more of them: `none` if the cursor has stepped over the terminating NUL, from
where its reads are undefined (the loop reads `*p` before it looks at `count`). -/
def parseBytes : Nat → List Char → Option (List UInt8)
  | 0, _ => some []
  | room + 1, p =>
    match p.dropWhile (· = ' ') with
    | [] => some []
    | c :: q =>
      match scanX2 (c :: q) with
      | none => some []
      | some byte =>
        match q with
        | [] => none
        | _ :: rest => (parseBytes room rest).map (UInt8.ofNat byte :: ·)

/-- The loop of `parse_log_line` over the `F=` and `P=` tokens; each is at
least two characters, so the length of the text is enough `fuel`. -/
def skipTokens : Nat → List Char → List Char
  | 0, s => s
  | fuel + 1, s =>
    if ['F', '='].isPrefixOf s ∨ ['P', '='].isPrefixOf s then
      skipTokens fuel ((s.dropWhile (· ≠ ' ')).dropWhile (· = ' '))
    else s

/-- `parse_log_line` of a C string: `out_data[0..count)`, or `none` where its
cursor leaves the string. -/
def parseLogLine (line : List Char) (maxLen : Nat) : Option (List UInt8) :=
  match strchr ']' line with
  | none => some []
  | some s =>
    let dataStart := s.tail.dropWhile (· = ' ')
    parseBytes maxLen (skipTokens dataStart.length dataStart)

/-- `parse_log_frame_id`: the id it stores when it returns 1. -/
def parseLogFrameId (line : List Char) : Option UInt32 :=
  match strstr [']', ' ', 'F', '='] line with
  | none => none
  | some p => scanU (p.drop 4)

/-- The loop of `data_separator`, `byteCount` bytes into `out_bytes[max_len]`;
`none` where it returns -1. -/
def separateBytes (maxLen : Nat) : Nat → List Char → Option (List UInt8)
  | _, [] => some []
  | byteCount, c :: p =>
    if c = ',' then
      if maxLen ≤ byteCount then none else (separateBytes maxLen (byteCount + 1) p).map (0x2C :: ·)
    else
      match p with
      | [] => none
      | d :: rest =>
        match hexVal c, hexVal d with
        | some hi, some lo =>
          if maxLen ≤ byteCount then none
          else (separateBytes maxLen (byteCount + 1) rest).map (hexByte hi lo :: ·)
        | _, _ => none

/-- `data_separator`: `out_bytes[0..byte_count)`, or `none` where it returns -1. -/
def dataSeparator (hexStr : List Char) (maxLen : Nat) : Option (List UInt8) :=
  if maxLen = 0 then none else separateBytes maxLen 0 hexStr

end Dtu
