import Dtu.Framework.Lines
import Dtu.Framework.Stdio

/-!
# What the 4G module answers

`eg_connect` behind its `AT+QIOPEN`, and `eg_send_data` behind its `AT+QISEND` and behind
the data: both look for the module's answers in what they read.
-/

namespace Dtu

open Stdio Lines

/-! ## `eg_connect` -/

/-- The delimiters of `eg_connect`. -/
def isEol (c : Char) : Bool := c = '\r' || c = '\n'

/-- `strtok(s, "\r\n")`, and `strtok(NULL, "\r\n")` up to NULL. -/
def strtokEol (s : List Char) : List (List Char) :=
  let (lines, rest) := linesOf isEol (cstr s)
  (lines ++ [rest]).filter fun line => line ≠ []

/-- `sscanf(line, "+QIOPEN: %d,%d", &id, &err)` of a line that begins with `+QIOPEN:`,
where it stores `err`. -/
def scanQiopen (line : List Char) : Option Int32 := do
  let (_, s) ← scanD (line.drop 8)
  let (err, _) ← scanD (← scanLit ',' s)
  return err

/-- The turn of the loop for a line, and what `eg_connect` returns there. Its variable `err`
is not initialised: `stale` is what it holds where `sscanf` does not store it. -/
def egConnectLine (stale : Int32) (line : List Char) : Option Int :=
  if "+QIOPEN:".toList.isPrefixOf line then
    let err := (scanQiopen line).getD stale
    if err = 0 then some 0 else some (-1)
  else if line = "ERROR".toList then some (-1)
  else none

/-- The loop over the polls of the module: a poll reads a chunk, or nothing. -/
def egConnectPolls (stale : Int32) : List (Option (List Char)) → Int
  | [] => -1
  | none :: polls => egConnectPolls stale polls
  | some buf :: polls =>
    match (strtokEol buf).findSome? (egConnectLine stale) with
    | some ret => ret
    | none => egConnectPolls stale polls

/-- `eg_connect` behind its `AT+QIOPEN`. It polls once a second until `timeout_sec` or
`stop_flag`; there are no more polls than are made. -/
def egConnect (stale : Int32) (polls : List (Option (List Char))) : Int := egConnectPolls stale (polls.take 60)

/-! ## `eg_send_data` -/

/-- `sizeof(resp)` of `eg_send_data`. -/
abbrev egRespSize : Nat := 128

/-- A character more in `resp[0..resp_len)`. -/
def egRespPush (resp : List Char) (c : Char) : List Char :=
  (if egRespSize - 1 ≤ resp.length then resp.tail else resp) ++ [c]

/-- `resp` says that the data has been sent. -/
def egSendOk (resp : List Char) : Bool := (strstr "SEND OK".toList (cstr resp)).isSome

/-- `resp` says that it has not. -/
def egSendFailed (resp : List Char) : Bool :=
  (strstr "SEND FAIL".toList (cstr resp)).isSome || (strstr "ERROR".toList (cstr resp)).isSome ||
    (strstr "CLOSED".toList (cstr resp)).isSome

/-- The loop of `eg_send_data` behind the data, over what it reads until its time is over
or `stop_flag` is set. -/
def egSendResponse : List Char → List (List Char) → Int
  | _, [] => -1
  | resp, chunk :: chunks =>
    let resp := chunk.foldl egRespPush resp
    if egSendOk resp then 0
    else if egSendFailed resp then -1
    else egSendResponse resp chunks

/-- `sizeof(buf)` of `eg_send_data`. -/
abbrev egSendSize : Nat := 512

/-- The loop for the prompt, with `buf[0..total)`: whether it comes, in what is read until the
time is over or `stop_flag` is set. A read that `buf` has no room for reads nothing. -/
def egSendPrompt : List Char → List (List Char) → Bool
  | _, [] => false
  | buf, chunk :: chunks =>
    let read := chunk.take (egSendSize - 1 - buf.length)
    if read = [] then egSendPrompt buf chunks
    else
      let buf := buf ++ read
      if (strstr ['>'] (cstr buf)).isSome then true
      else if (strstr "ERROR".toList (cstr buf)).isSome then false
      else egSendPrompt buf chunks

/-- `eg_send_data`, of what it reads before and behind the data. -/
def egSendData (prompt response : List (List Char)) : Int :=
  if egSendPrompt [] prompt then egSendResponse [] response else -1

end Dtu
