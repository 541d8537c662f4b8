import Dtu.Framework.Loop
import Dtu.Impl.LogLine

/-!
# Packing log files

`pack_data_from_files` and the two packers of `main_send_thread` over it,
`main_pack_pending` and `main_pack_pending_until`. An array `x[n]` is a function
of its index; a file that cannot be opened is `none`. The result is `none` where
`parse_log_line` leaves its line (see `parseBytes`): the C code has no defined
behaviour from there.
-/

namespace Dtu

open Stdio Loop

/-- `MAIN_PATH_COUNT`: the logs of the serial ports, LoRa and Bluetooth. -/
abbrev mainPathCount : Nat := 4

/-- `EG_MAX_HEX_LEN`. -/
abbrev egMaxHexLen : Nat := 1024 * 2 + 256

/-- `BD_MAX_RAW_LEN`. -/
abbrev bdMaxRawLen : Nat := 229

/-- `BD_MAX_HEX_LEN`. -/
abbrev bdMaxHexLen : Nat := bdMaxRawLen * 2

/-! ## `pack_data_from_files` -/

/-- `sizeof(line)` of `pack_data_from_files`. -/
abbrev packLineSize : Nat := 512

/-- The outputs of `pack_data_from_files` other than the offsets. -/
structure HexBatch where
  hexBuf : List Char
  hexLen : Nat
  entryCount : Nat

/-- One entry is appended, behind a comma unless it is the first. -/
def HexBatch.add (b : HexBatch) (raw : List UInt8) : HexBatch where
  hexBuf := (if 0 < b.entryCount then b.hexBuf ++ [','] else b.hexBuf) ++ raw.flatMap fmtX2
  hexLen := (if 0 < b.entryCount then b.hexLen + 1 else b.hexLen) + 2 * raw.length
  entryCount := b.entryCount + 1

/-- The `fgets` loop over one file, with its pieces from position `pos` on;
`off` is `offsets[i]`. -/
def packFile (maxHexLen : Nat) : List (List Char) → Nat → Nat → HexBatch → Option (HexBatch × Nat)
  | [], _, off, b => some (b, off)
  | line :: rest, pos, off, b =>
    match parseLogLine (cstr line) 256 with
    | none => none
    | some raw =>
      if raw.length < 2 then packFile maxHexLen rest (pos + line.length) off b
      else if maxHexLen < b.hexLen + (if 0 < b.entryCount then 1 else 0) + 2 * raw.length then some (b, off)
      else packFile maxHexLen rest (pos + line.length) (pos + line.length) (b.add raw)

/-- `pack_data_from_files`, with arguments it accepts. -/
def packDataFromFiles {n : Nat} (files : Fin n → Option (List Char)) (offsets : Fin n → Nat) (maxHexLen : Nat) :
    Option (HexBatch × (Fin n → Nat)) :=
  threadFin (fun i b =>
    match files i with
    | none => some (b, offsets i)
    | some content =>
      packFile maxHexLen (fgetsAll packLineSize (content.drop (offsets i))) (offsets i) (offsets i) b)
    ⟨[], 0, 0⟩

/-- What a packer of `main_send_thread` returns and writes; `rawBuf` is
`raw_buf[0..raw_len)`, empty when `raw_len` is -1. -/
structure PackResult (n : Nat) where
  ret : Int
  pendingOffsets : Fin n → Nat
  hexBuf : List Char
  rawBuf : List UInt8
  rawLen : Int
  entryCount : Nat

/-- The end of both packers: the text is decoded into `raw_buf`. -/
def finishPack {n : Nat} (pendingOffsets : Fin n → Nat) (hexBuf : List Char) (entryCount rawBufSize : Nat) :
    PackResult n :=
  if entryCount = 0 then ⟨0, pendingOffsets, hexBuf, [], 0, 0⟩
  else
    match dataSeparator hexBuf rawBufSize with
    | none => ⟨-1, pendingOffsets, hexBuf, [], -1, entryCount⟩
    | some raw => ⟨if 0 < raw.length then 0 else -1, pendingOffsets, hexBuf, raw, raw.length, entryCount⟩

/-- `main_pack_pending`. -/
def mainPackPending {n : Nat} (files : Fin n → Option (List Char)) (offsets : Fin n → Nat)
    (maxHexLen rawBufSize : Nat) : Option (PackResult n) :=
  (packDataFromFiles files offsets maxHexLen).map fun (b, pendingOffsets) =>
    finishPack pendingOffsets b.hexBuf b.entryCount rawBufSize

/-! ## `main_pack_pending_until` -/

/-- `sizeof(line)` of `main_pack_pending_until`. -/
abbrev untilLineSize : Nat := 1024

/-- The locals of `main_pack_pending_until` that outlive a file, and
`entry_count`. -/
structure UntilBatch where
  hexBuf : List Char
  hexLen : Nat
  packedRawLen : Nat
  entryCount : Nat

/-- The `snprintf` loop over the bytes of an entry, into `hex_buf[max_hex_len + 1]`. -/
def putHex (maxHexLen : Nat) : List UInt8 → List Char → Nat → List Char × Nat
  | [], hexBuf, hexLen => (hexBuf, hexLen)
  | b :: bs, hexBuf, hexLen =>
    putHex maxHexLen bs (snprintfAt (maxHexLen + 1) hexLen hexBuf (fmtX2 b)) (hexLen + 2)

/-- One entry is appended, behind a comma unless it is the first. -/
def UntilBatch.add (maxHexLen : Nat) (b : UntilBatch) (raw : List UInt8) : UntilBatch :=
  let (hexBuf, hexLen) :=
    if 0 < b.entryCount then (b.hexBuf.take b.hexLen ++ [','], b.hexLen + 1) else (b.hexBuf, b.hexLen)
  let (hexBuf, hexLen) := putHex maxHexLen raw hexBuf hexLen
  { hexBuf, hexLen
    packedRawLen := b.packedRawLen + ((if 0 < b.entryCount then 1 else 0) + raw.length)
    entryCount := b.entryCount + 1 }

/-- The `fgets` loop over one file up to `endOffset`; `pending` is
`pending_offsets[i]`. -/
def packUntil (maxHexLen rawBufSize endOffset : Nat) :
    List (List Char) → Nat → Nat → UntilBatch → Option (UntilBatch × Nat)
  | [], _, pending, b => some (b, pending)
  | line :: rest, pos, pending, b =>
    if endOffset ≤ pos then some (b, pending)
    else if endOffset < pos + line.length then some (b, pending)
    else
      match parseLogLine (cstr line) 256 with
      | none => none
      | some raw =>
        let comma := if 0 < b.entryCount then 1 else 0
        if raw.length < 2 then
          packUntil maxHexLen rawBufSize endOffset rest (pos + line.length) (pos + line.length) b
        else if maxHexLen < b.hexLen + comma + 2 * raw.length then some (b, pending)
        else if rawBufSize < b.packedRawLen + comma + raw.length then some (b, pending)
        else
          packUntil maxHexLen rawBufSize endOffset rest (pos + line.length) (pos + line.length)
            (b.add maxHexLen raw)

/-- The turn of `main_pack_pending_until` for one file. -/
def packUntilFile (file : Option (List Char)) (offset endOffset maxHexLen rawBufSize : Nat) (b : UntilBatch) :
    Option (UntilBatch × Nat) :=
  match file with
  | none => some (b, offset)
  | some content =>
    if endOffset ≤ offset then some (b, offset)
    else packUntil maxHexLen rawBufSize endOffset (fgetsAll untilLineSize (content.drop offset)) offset offset b

/-- `main_pack_pending_until`. -/
def mainPackPendingUntil {n : Nat} (files : Fin n → Option (List Char)) (offsets endOffsets : Fin n → Nat)
    (maxHexLen rawBufSize : Nat) : Option (PackResult n) :=
  (threadFin (fun i => packUntilFile (files i) (offsets i) (endOffsets i) maxHexLen rawBufSize)
    ⟨[], 0, 0, 0⟩).map fun (b, pendingOffsets) => finishPack pendingOffsets b.hexBuf b.entryCount rawBufSize

/-! ## The offsets of their caller -/

/-- The offsets of `main_send_thread` when what a packer has packed is sent: it takes
over `pending_offsets` only if the packer returns 0 with an entry. -/
def PackResult.sentOffsets {n : Nat} (offsets : Fin n → Nat) (r : PackResult n) : Fin n → Nat :=
  if r.ret = 0 ∧ 0 < r.entryCount then r.pendingOffsets else offsets

/-- A call of `main_pack_pending`, and what it has packed sent over 4G. -/
def send4g (files : Fin mainPathCount → Option (List Char)) (offsets : Fin mainPathCount → Nat) :
    Option (Fin mainPathCount → Nat) :=
  (mainPackPending files offsets egMaxHexLen (egMaxHexLen / 2 + 1)).map (·.sentOffsets offsets)

/-- A call of `main_pack_pending_until`, and what it has packed sent over BeiDou. -/
def sendBd (files : Fin mainPathCount → Option (List Char)) (endOffsets offsets : Fin mainPathCount → Nat) :
    Option (Fin mainPathCount → Nat) :=
  (mainPackPendingUntil files offsets endOffsets bdMaxHexLen bdMaxRawLen).map (·.sentOffsets offsets)

end Dtu
