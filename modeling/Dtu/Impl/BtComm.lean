import Dtu.Framework.Stdio

/-!
# The receive buffer of the Bluetooth line

What `bt_comm_thread` does with the bytes that it reads: `recv_buf` keeps them until the
CR LF of their line is there. Each line goes to `debug_bt_handle_hex_payload_line`, and to
`bt_handle_simple_command` if that returns 0.
-/

namespace Dtu

open Stdio

/-- `sizeof(recv_buf)`. -/
abbrev recvBufSize : Nat := 256

/-- The loop over the lines in `recv_buf[0..recv_len)`: the lines that are handled, and
what is left in it. Each turn takes at least two characters, so `fuel` turns take as many. -/
def btCommLines : Nat → List Char → List (List Char) × List Char
  | 0, recvBuf => ([], recvBuf)
  | fuel + 1, recvBuf =>
    match strstr ['\r', '\n'] (cstr recvBuf) with
    | none => ([], recvBuf)
    | some atEnd =>
      let len := (cstr recvBuf).length - atEnd.length
      let next := btCommLines fuel (recvBuf.drop (len + 2))
      (recvBuf.take len :: next.1, next.2)

/-- A `read` that returns the bytes `chunk`: the lines that are handled, and
`recv_buf[0..recv_len)` behind it; `none` where `read` cannot return them. -/
def btCommRead (recvBuf chunk : List Char) : Option (List (List Char) × List Char) :=
  if 0 < chunk.length ∧ chunk.length ≤ recvBufSize - 1 - recvBuf.length then
    let recvBuf := recvBuf ++ chunk
    let (lines, recvBuf) := btCommLines recvBuf.length recvBuf
    some (lines, if 200 < recvBuf.length then [] else recvBuf)
  else none

/-- The lines that are handled in one read after another. -/
def btCommReads : List Char → List (List Char) → Option (List (List Char))
  | _, [] => some []
  | recvBuf, chunk :: chunks => do
    let (lines, recvBuf) ← btCommRead recvBuf chunk
    let lines' ← btCommReads recvBuf chunks
    return lines ++ lines'

end Dtu
