import Dtu.Impl.LoraCfg

/-!
# The commands of the Bluetooth line

`bt_handle_simple_command`, and a device that handles such commands
(`BtStep`): its operations can fail, it can die between any two of them, and it starts
again with what is on its disk.
-/

namespace Dtu

open Stdio Program

/-- The number of a send path. -/
def SendPath.num : SendPath → Nat
  | .auto => 0
  | .only4g => 1
  | .onlyBd => 2
  | .first4g => 3
  | .firstBd => 4

/-- `bt_load_send_path`. -/
def btLoadSendPath (file : Option (List Char)) : SendPath :=
  match file.bind scanD with
  | some (value, _) =>
    match value.toInt with
    | 1 => .only4g
    | 2 => .onlyBd
    | 3 => .first4g
    | 4 => .firstBd
    | _ => .auto
  | none => .auto

/-- `bt_save_send_path`. It looks at no result but that of `fopen`. -/
def btSaveSendPath (path : SendPath) : BtProgram Int := do
  let opened ← op BtOp.openPath
  if !opened then return -1
  let _ ← op (BtOp.writePath (fmtU path.num ++ ['\n']))
  return 0

/-- `bt_send_text`. -/
def btSendText (text : String) : BtProgram Unit := op (BtOp.sendText text.toList)

/-- What `bt_send_lora_cfg` has in `msg`. -/
def loraCfgMsg (cfg : LoRaPara) : List Char :=
  "BL_LORA_ROOT_0x".toList ++ fmtX2 cfg.isRoot ++ ",MESH_0x".toList ++ fmtX2 cfg.meshType ++ ",NET_0x".toList ++
    fmtX2 cfg.netId ++ ",DEV_0x".toList ++ fmtX2 cfg.devId ++ "\r\n".toList

/-- `bt_send_lora_cfg`. -/
def btSendLoraCfg : BtProgram Unit := do
  let cfg ← op BtOp.loraCfgGet
  op (BtOp.sendText (loraCfgMsg cfg))

/-- `bt_send_4g_status_simple`. -/
def btSend4gStatusSimple : BtProgram Unit := do
  let egConnected ← op BtOp.egConnected
  if egConnected then btSendText "BL_4G_0x01\r\n" else btSendText "BL_4G_0x00\r\n"

/-- What a command for the send path does. -/
def btPathCommand (path : SendPath) (ack : String) : BtProgram Unit := do
  op (BtOp.setSendPath path)
  let _ ← btSaveSendPath path
  btSendText ack

/-- What a command for a field of the LoRa configuration does. -/
def btLoraCommand (field : UInt8) (val : UInt32) (ack : String) : BtProgram Unit := do
  op (BtOp.loraCfgSet field val.toUInt8)
  let saved ← loraCfgSavePersist
  if saved = 0 then btSendText ack else btSendText "BL_ACK_SAVE_ERR\r\n"

/-- `bt_handle_simple_command`. -/
def btHandleSimpleCommand (cmd : List Char) : BtProgram Unit :=
  if cmd = [] then pure ()
  else if cmd = "BL_00".toList then btPathCommand .auto "BL_ACK_00\r\n"
  else if cmd = "BL_01".toList then btPathCommand .only4g "BL_ACK_01\r\n"
  else if cmd = "BL_02".toList then btPathCommand .onlyBd "BL_ACK_02\r\n"
  else if cmd = "BL_03".toList then btPathCommand .first4g "BL_ACK_03\r\n"
  else if cmd = "BL_04".toList then btPathCommand .firstBd "BL_ACK_04\r\n"
  else if cmd = "BL_0a".toList ∨ cmd = "BL_0A".toList then btSend4gStatusSimple
  else if cmd = "BL_LORA_GET".toList then btSendLoraCfg
  else
    match scanField "BL_ROOT_" cmd with
    | some val =>
      if val = loraMeshRoot.toUInt32 ∨ val = loraMeshNotroot.toUInt32 then btLoraCommand 0 val "BL_ACK_ROOT\r\n"
      else btSendText "BL_ACK_ERR\r\n"
    | none =>
      match scanField "BL_MESH_" cmd with
      | some val =>
        if val = loraMeshGateway.toUInt32 ∨ val = loraMeshNode.toUInt32 then btLoraCommand 1 val "BL_ACK_MESH\r\n"
        else btSendText "BL_ACK_ERR\r\n"
      | none =>
        match scanField "BL_NET_" cmd with
        | some val => btLoraCommand 2 val "BL_ACK_NET\r\n"
        | none =>
          match scanField "BL_DEV_" cmd with
          | some val => btLoraCommand 3 val "BL_ACK_DEV\r\n"
          | none =>
            match (scanText "BL_4G_".toList cmd).bind scanU with
            | some val =>
              if 1 ≤ val ∧ val ≤ 65535 then do
                op (BtOp.setServerPort val.toNat)
                btSendText "BL_ACK_4G\r\n"
              else btSendText "BL_ACK_ERR\r\n"
            | none => btSendText "BL_ACK_ERR\r\n"

/-! ## The device -/

/-- `SERVER_PORT`. -/
abbrev serverPortDefault : Nat := 23738

/-- A device that starts with the files on its disk. -/
def Bt.restart (s : Bt) : Bt :=
  { s with
    cfg := loraCfgLoadPersist (s.cfgFile.map (·.text)) myLoraConfig
    sendPath := btLoadSendPath s.pathFile
    serverPort := serverPortDefault }

/-- A device that starts with these texts in its files. -/
def Bt.boot (cfgText tmpText pathText : Option (List Char)) : Bt :=
  Bt.restart {
    cfg := myLoraConfig
    sendPath := .auto
    serverPort := serverPortDefault
    cfgFile := cfgText.map (⟨·, true⟩)
    tmpFile := tmpText.map (⟨·, true⟩)
    pathFile := pathText
    history := [] }

/-- What a crash can leave of a file: what has been synced stays, of the rest
anything. -/
def Crashed : Option StoredFile → Option StoredFile → Prop
  | none, file' => file' = none
  | some f, file' => if f.synced then file' = some f else ∀ g ∈ file', g.synced = true

/-- What a crash, at any time, can leave of a device that starts again. -/
inductive Restarts (s : Bt) : Bt → Prop where
  | intro {cfgFile tmpFile : Option StoredFile} (pathFile : Option (List Char)) (hcfg : Crashed s.cfgFile cfgFile)
      (htmp : Crashed s.tmpFile tmpFile) :
      Restarts s (Bt.restart { s with cfgFile := cfgFile, tmpFile := tmpFile, pathFile := pathFile })

/-- A device with the Bluetooth thread in a command, or between two. -/
abbrev BtConfig : Type := Config BtOp BtOp.Ans Unit Bt

/-- A command line comes in, an operation is carried out, or the device crashes and starts
again. -/
inductive BtStep : BtConfig → BtConfig → Prop where
  | command (cmd : List Char) (s : Bt) : BtStep (pure (), s) (btHandleSimpleCommand cmd, s)
  | op {c c' : BtConfig} (h : Step BtOp.effect c c') : BtStep c c'
  | crash (p : BtProgram Unit) {s s' : Bt} (h : Restarts s s') : BtStep (p, s) (pure (), s')

end Dtu
