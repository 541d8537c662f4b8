import Dtu.Impl.Pack

/-!
# The BeiDou module

`bd_send_packet`, and what the receive thread keeps of the lines the module
sends (`BdStatus`): `bd_status_feed` cuts its bytes into lines, and
`bd_status_parse_line` looks for the module's readiness, its signal, and its
reports on packets (`TCQ`).
-/

namespace Dtu

open Stdio

/-- `calc_checksum`. -/
def calcChecksum (s : List Char) : UInt8 :=
  match strchr '$' s with
  | none => 0
  | some p => (p.tail.takeWhile (· ≠ '*')).foldl (fun checksum c => checksum ^^^ UInt8.ofNat c.toNat) 0

/-- `bd_send_packet`: the message it hands to `data_send`, or `none` where it
returns -1 before. -/
def bdSendPacket (data : List UInt8) : Option (List Char) :=
  if data.length = 0 then none
  else if bdMaxRawLen < data.length then none
  else
    let msg := "$CCTCQ,4314513,2,1,2,".toList ++ data.flatMap fmtX2 ++ ",0*".toList
    some (msg ++ fmtX2 (calcChecksum msg) ++ ['\r', '\n'])

/-- `sizeof(msg)` of `bd_send_packet`. -/
abbrev bdMsgSize : Nat := 640

/-- `bd_send_packet` with its buffers: what it returns, and the messages it hands to
`data_send`, which returns `dataSend msg`. `data` is what is at the pointer, `none` if
this is `NULL`. -/
def bdSendPacketRun (dataSend : List Char → Int) (data : Option (List UInt8)) (len : Int) : Int × List (List Char) :=
  match data with
  | none => (-1, [])
  | some data =>
    if len ≤ 0 then (-1, [])
    else if (bdMaxRawLen : Int) < len then (-1, [])
    else
      let hexBuf := (data.take len.toNat).flatMap fmtX2
      let msg := snprintfAt bdMsgSize 0 [] ("$CCTCQ,".toList ++ "4314513".toList ++ ",2,1,2,".toList ++ hexBuf ++
        ",0*".toList)
      let cs := calcChecksum msg
      let msgLen := msg.length
      let msg := snprintfAt bdMsgSize msgLen msg (fmtX2 cs ++ ['\r', '\n'])
      let sendLen := msg.length
      if dataSend msg = sendLen then (0, [msg]) else (-1, [msg])

/-! ## What the module reports -/

/-- The variables of `bd_status_parse_line`, and `line[0..pos)` of
`bd_status_feed`. -/
structure BdStatus where
  gBdReadySeen : Bool
  gBdPwiValid : Bool
  gBdPwiSignal : Int32
  gBdPwiSeenTime : Nat
  gBdTcqSeq : UInt32
  gBdTcqResult : Int
  gBdTcqCode : Int32
  line : List Char

/-- The variables as they are initialised. -/
def BdStatus.init : BdStatus where
  gBdReadySeen := false
  gBdPwiValid := false
  gBdPwiSignal := 0
  gBdPwiSeenTime := 0
  gBdTcqSeq := 0
  gBdTcqResult := 0
  gBdTcqCode := -1
  line := []

/-- `bd_status_reset`. -/
def bdStatusReset (st : BdStatus) : BdStatus := { BdStatus.init with line := st.line }

/-- A line that says the module is ready. -/
def isReadyLine (line : List Char) : Bool :=
  (strstr "READY FOR TRANSMISSION".toList line).isSome || "$BDICP,".toList.isPrefixOf line

/-- `sscanf(line, "$BDPWI,%31[^,],%d,%d,%d,%d,%d", utc, &a, &valid, &c, &sig1, &sig2)`
where it stores all six: `valid`, `sig1` and `sig2`. -/
def scanPwi (line : List Char) : Option (Int32 × Int32 × Int32) := do
  let (_, s) ← scanNot ',' 31 (line.drop 7)
  let (_, s) ← scanD (← scanLit ',' s)
  let (valid, s) ← scanD (← scanLit ',' s)
  let (_, s) ← scanD (← scanLit ',' s)
  let (sig1, s) ← scanD (← scanLit ',' s)
  let (sig2, _) ← scanD (← scanLit ',' s)
  return (valid, sig1, sig2)

/-- `sscanf(line, "$BDFKI,%*[^,],%15[^,],%c,%d", cmd, &yn, &code)` where it stores
all three. -/
def scanFki (line : List Char) : Option (List Char × Char × Int32) := do
  let (_, s) ← scanNot ',' line.length (line.drop 7)
  let (cmd, s) ← scanNot ',' 15 (← scanLit ',' s)
  let (yn, s) ← scanC (← scanLit ',' s)
  let (code, _) ← scanD (← scanLit ',' s)
  return (cmd, yn, code)

/-- `bd_status_parse_line` of a line that is not empty; `now` is `monotonic_sec()`. -/
def bdStatusParseLine (now : Nat) (st : BdStatus) (line : List Char) : BdStatus :=
  if isReadyLine line then { st with gBdReadySeen := true }
  else if "$BDPWI,".toList.isPrefixOf line then
    match scanPwi line with
    | some (valid, sig1, sig2) =>
      if valid = 1 ∧ 0 < sig1 ∧ 0 < sig2 then
        { st with gBdPwiValid := true, gBdPwiSignal := sig1, gBdPwiSeenTime := now }
      else { st with gBdPwiValid := false, gBdPwiSignal := 0 }
    | none => { st with gBdPwiValid := false, gBdPwiSignal := 0 }
  else if "$BDFKI,".toList.isPrefixOf line then
    match scanFki line with
    | some (cmd, yn, code) =>
      if cmd = "TCQ".toList then
        { st with
          gBdTcqSeq := st.gBdTcqSeq + 1
          gBdTcqCode := code
          gBdTcqResult := if yn = 'Y' ∧ code = 0 then 1 else -1 }
      else st
    | none => st
  else st

/-- `line[0..pos)` of `bd_status_feed` behind a byte, and the line with which it calls
`bd_status_parse_line` there. -/
def bdFeedLine (line : List Char) (ch : UInt8) : List Char × Option (List Char) :=
  if ch = 0x0D then (line, none)
  else if ch = 0x0A then ([], if 0 < line.length then some line else none)
  else if ch < 0x20 ∨ 0x7E < ch then (line, none)
  else if line.length < 256 - 1 then (line ++ [Char.ofNat ch.toNat], none)
  else ([], none)

/-- `line[0..pos)` behind some bytes, and the calls of `bd_status_parse_line`. -/
def bdFeedLines : List Char → List UInt8 → List Char × List (List Char)
  | line, [] => (line, [])
  | line, ch :: data =>
    let next := bdFeedLine line ch
    let rest := bdFeedLines next.1 data
    (rest.1, next.2.toList ++ rest.2)

/-- `bdFeedLines` of the bytes of one `bd_status_feed` after another. -/
def bdFeedAll : List Char → List (List UInt8) → List Char × List (List Char)
  | line, [] => (line, [])
  | line, data :: datas =>
    let next := bdFeedLines line data
    let rest := bdFeedAll next.1 datas
    (rest.1, next.2 ++ rest.2)

/-- The turn of `bd_status_feed` for one byte. -/
def bdStatusFeedByte (now : Nat) (st : BdStatus) (ch : UInt8) : BdStatus :=
  if ch = 0x0D then st
  else if ch = 0x0A then
    { (if 0 < st.line.length then bdStatusParseLine now st st.line else st) with line := [] }
  else if ch < 0x20 ∨ 0x7E < ch then st
  else if st.line.length < 256 - 1 then { st with line := st.line ++ [Char.ofNat ch.toNat] }
  else { st with line := [] }

/-- `bd_status_feed`. -/
def bdStatusFeed (now : Nat) (st : BdStatus) (data : List UInt8) : BdStatus := data.foldl (bdStatusFeedByte now) st

end Dtu
