import Dtu.Framework.Program
import Dtu.Impl.Lora

/-!
# The LoRa configuration and its file

The text that `lora_cfg_save_persist` writes and `lora_cfg_load_persist` reads, and
what the Bluetooth thread works on while it handles a command: the configuration and
the send path in memory, and their files (`Bt`). What it calls are operations on that
(`BtOp`), which can fail; a write can store less than it is to.
-/

namespace Dtu

open Stdio Program

deriving instance DecidableEq for LoRaPara

/-- `LORA_MESH_NOTROOT`. -/
abbrev loraMeshNotroot : UInt8 := 0x00

/-! ## The configuration -/

/-- `lora_cfg_set`. -/
def loraCfgSet (cfg : LoRaPara) (field value : UInt8) : LoRaPara :=
  match field with
  | 0 => { cfg with isRoot := value }
  | 1 => { cfg with meshType := value }
  | 2 => { cfg with netId := value }
  | 3 => { cfg with devId := value }
  | _ => cfg

/-- The text of a field and its newline. -/
def cfgLine (field : String) (value : UInt8) : List Char := field.toList ++ (fmtX2 value ++ ['\n'])

/-- What `lora_cfg_save_persist` has in `buf`, which is large enough for it. -/
def loraCfgText (cfg : LoRaPara) : List Char :=
  cfgLine "is_root=0x" cfg.isRoot ++ cfgLine "mesh_type=0x" cfg.meshType ++ cfgLine "net_id=0x" cfg.netId ++
    cfgLine "dev_id=0x" cfg.devId

/-- `sscanf(line, "<field>%x", &val) == 1`, with the value of `val`. -/
def scanField (field : String) (line : List Char) : Option UInt32 := (scanText field.toList line).bind scanX

/-- What `lora_cfg_load_persist` makes of a line. -/
def loraCfgLine (cfg : LoRaPara) (line : List Char) : LoRaPara :=
  match scanField "is_root=0x" line with
  | some val =>
    if val = loraMeshRoot.toUInt32 ∨ val = loraMeshNotroot.toUInt32 then { cfg with isRoot := val.toUInt8 } else cfg
  | none =>
    match scanField "mesh_type=0x" line with
    | some val =>
      if val = loraMeshGateway.toUInt32 ∨ val = loraMeshNode.toUInt32 then { cfg with meshType := val.toUInt8 } else cfg
    | none =>
      match scanField "net_id=0x" line with
      | some val => { cfg with netId := val.toUInt8 }
      | none =>
        match scanField "dev_id=0x" line with
        | some val => { cfg with devId := val.toUInt8 }
        | none => cfg

/-- `lora_cfg_load_persist`; `char line[64]`. -/
def loraCfgLoadPersist (file : Option (List Char)) (cfg : LoRaPara) : LoRaPara :=
  match file with
  | none => cfg
  | some text => (fgetsAll 64 text).foldl (fun cfg line => loraCfgLine cfg (cstr line)) cfg

/-! ## What the Bluetooth thread works on -/

/-- A file, and whether what it holds has been synced to the disk. -/
structure StoredFile where
  text : List Char
  synced : Bool

/-- What `write` returns, and how much it has stored. -/
structure Written where
  ret : Int
  stored : Nat

/-- The configuration has been renamed into place, or a text has been sent, with the
configuration that is in memory then. -/
inductive BtEvent where
  | renamed (cfg : LoRaPara)
  | sent (text : List Char) (cfg : LoRaPara)

/-- `my_lora_config`, `g_send_path` and `server_port`, the files `LORA_CFG_PATH`,
`LORA_CFG_TMP_PATH` and `SEND_PATH_CFG_PATH`, and what has happened, the last event
first. -/
structure Bt where
  cfg : LoRaPara
  sendPath : SendPath
  serverPort : Nat
  cfgFile : Option StoredFile
  tmpFile : Option StoredFile
  pathFile : Option (List Char)
  history : List BtEvent

/-- What the Bluetooth thread calls. -/
inductive BtOp where
  | loraCfgGet
  | loraCfgSet (field value : UInt8)
  | openTmp
  | writeTmp (buf : List Char)
  | fsyncTmp
  | renameTmp
  | setSendPath (path : SendPath)
  | openPath
  | writePath (text : List Char)
  | egConnected
  | setServerPort (port : Nat)
  | sendText (text : List Char)

/-- What its calls answer. -/
abbrev BtOp.Ans : BtOp → Type
  | .loraCfgGet => LoRaPara
  | .loraCfgSet _ _ => Unit
  | .openTmp => Bool
  | .writeTmp _ => Written
  | .fsyncTmp => Bool
  | .renameTmp => Bool
  | .setSendPath _ => Unit
  | .openPath => Bool
  | .writePath _ => Nat
  | .egConnected => Bool
  | .setServerPort _ => Unit
  | .sendText _ => Unit

/-- What its calls do. A write that returns the length of its text has stored it. -/
def BtOp.effect : (o : BtOp) → Bt → o.Ans → Option Bt
  | .loraCfgGet, s, (cfg : LoRaPara) => if cfg = s.cfg then some s else none
  | .loraCfgSet field value, s, _ => some { s with cfg := Dtu.loraCfgSet s.cfg field value }
  | .openTmp, s, true => some { s with tmpFile := some ⟨[], false⟩ }
  | .openTmp, s, false => some s
  | .writeTmp buf, s, (w : Written) =>
    if w.ret = buf.length ∧ w.stored ≠ buf.length then none
    else s.tmpFile.map fun f => { s with tmpFile := some ⟨f.text ++ buf.take w.stored, false⟩ }
  | .fsyncTmp, s, true => some { s with tmpFile := s.tmpFile.map fun f => ⟨f.text, true⟩ }
  | .fsyncTmp, s, false => some s
  | .renameTmp, s, true =>
    s.tmpFile.map fun f => { s with cfgFile := some f, tmpFile := none, history := .renamed s.cfg :: s.history }
  | .renameTmp, s, false => some s
  | .setSendPath path, s, _ => some { s with sendPath := path }
  | .openPath, s, true => some { s with pathFile := some [] }
  | .openPath, s, false => some s
  | .writePath text, s, (stored : Nat) => some { s with pathFile := some (text.take stored) }
  | .egConnected, s, (_ : Bool) => some s
  | .setServerPort port, s, _ => some { s with serverPort := port }
  | .sendText text, s, _ => some { s with history := .sent text s.cfg :: s.history }

/-- A function of the Bluetooth thread. -/
abbrev BtProgram (α : Type) : Type := Program BtOp BtOp.Ans α

/-! ## `lora_cfg_save_persist` -/

/-- `lora_cfg_save_persist`. -/
def loraCfgSavePersist : BtProgram Int := do
  let cfg : LoRaPara ← op BtOp.loraCfgGet
  let opened : Bool ← op BtOp.openTmp
  if !opened then return -1
  let buf := loraCfgText cfg
  let w : Written ← op (BtOp.writeTmp buf)
  if w.ret ≠ buf.length then return -1
  let synced : Bool ← op BtOp.fsyncTmp
  if !synced then return -1
  let renamed : Bool ← op BtOp.renameTmp
  if !renamed then return -1
  return 0

end Dtu
