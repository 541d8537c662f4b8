import Dtu.Impl.Bluetooth

/-!
# The LoRa configuration over commands, failures and crashes

`lora_cfg_load_persist` reads back what `lora_cfg_save_persist` writes of a
configuration whose fields have values it knows (`loraCfgLoadPersist_text`), and the
commands give them no others. What the configuration file holds changes by the rename
alone, so a device comes back with the configuration that was renamed last
(`bt_cfgSafe`).
-/

namespace Dtu

open Stdio Program

/-! ## The file -/

/-- The configurations that commands set. -/
structure LoRaPara.Valid (cfg : LoRaPara) : Prop where
  isRoot : cfg.isRoot = loraMeshRoot ∨ cfg.isRoot = loraMeshNotroot
  meshType : cfg.meshType = loraMeshGateway ∨ cfg.meshType = loraMeshNode
  payloadSize : cfg.payloadSize = myLoraConfig.payloadSize

theorem valid_myLoraConfig : myLoraConfig.Valid := ⟨.inl rfl, .inl rfl, rfl⟩

theorem scanText_append (text s : List Char) : scanText text (text ++ s) = some s := scanText_eq_some_iff.mpr rfl

/-- A field is read back. -/
theorem scanField_cfgLine (field : String) (value : UInt8) :
    scanField field (cfgLine field value) = some value.toUInt32 := by
  rw [scanField, cfgLine, scanText_append, Option.bind_some]
  exact scanX_fmtX2 value (by decide) []

/-- Another field is not. -/
theorem scanField_other {field other : String} (h : ∀ s, scanText field.toList (other.toList ++ s) = none)
    (value : UInt8) : scanField field (cfgLine other value) = none := by
  rw [scanField, cfgLine, h, Option.bind_none]

theorem fmtX2_not_mem {c : Char} (hc : hexVal c = none) (b : UInt8) : c ∉ fmtX2 b := by
  obtain ⟨h, l⟩ := halves_lt b
  simp [fmtX2, (hexDigit_ne h hc).symm, (hexDigit_ne l hc).symm]

/-- A line of the file, as `fgets` reads it. -/
theorem cfgLine_line {field : String} (hlen : field.toList.length ≤ 12) (hnl : '\n' ∉ field.toList) (value : UInt8) :
    ∃ body, cfgLine field value = body ++ ['\n'] ∧ '\n' ∉ body ∧ (cfgLine field value).length < 64 := by
  refine ⟨field.toList ++ fmtX2 value, by rw [cfgLine, List.append_assoc], ?_, ?_⟩
  · rw [List.mem_append, not_or]
    exact ⟨hnl, fmtX2_not_mem (by decide) value⟩
  · rw [cfgLine, List.length_append, List.length_append]
    show field.toList.length + (2 + 1) < 64
    omega

theorem cstr_cfgLine {field : String} (hnul : '\x00' ∉ field.toList) (value : UInt8) :
    cstr (cfgLine field value) = cfgLine field value := by
  refine cstr_of_not_mem fun h => ?_
  rw [cfgLine, List.mem_append, List.mem_append] at h
  rcases h with h | h | h
  · exact hnul h
  · exact fmtX2_not_mem (by decide) value h
  · exact absurd h (by decide)

/-- `lora_cfg_load_persist` reads back all fields. -/
theorem loraCfgLoadPersist_text {saved : LoRaPara} (h : saved.Valid) :
    loraCfgLoadPersist (some (loraCfgText saved)) myLoraConfig = saved := by
  have hlines : fgetsAll 64 (loraCfgText saved) = [cfgLine "is_root=0x" saved.isRoot,
      cfgLine "mesh_type=0x" saved.meshType, cfgLine "net_id=0x" saved.netId, cfgLine "dev_id=0x" saved.devId] := by
    have hflat : loraCfgText saved = [cfgLine "is_root=0x" saved.isRoot, cfgLine "mesh_type=0x" saved.meshType,
        cfgLine "net_id=0x" saved.netId, cfgLine "dev_id=0x" saved.devId].flatten := by
      simp [loraCfgText]
    rw [hflat]
    refine fgetsAll_lines fun l hl => ?_
    simp only [List.mem_cons, List.not_mem_nil, or_false] at hl
    rcases hl with rfl | rfl | rfl | rfl
    · exact cfgLine_line (by decide) (by decide) _
    · exact cfgLine_line (by decide) (by decide) _
    · exact cfgLine_line (by decide) (by decide) _
    · exact cfgLine_line (by decide) (by decide) _
  have hroot : ∀ cfg,
      loraCfgLine cfg (cstr (cfgLine "is_root=0x" saved.isRoot)) = { cfg with isRoot := saved.isRoot } := by
    intro cfg
    rw [cstr_cfgLine (by decide), loraCfgLine, scanField_cfgLine]
    simp only [UInt8.toUInt8_toUInt32]
    rcases h.isRoot with h | h <;> simp [h]
  have hmesh : ∀ cfg,
      loraCfgLine cfg (cstr (cfgLine "mesh_type=0x" saved.meshType)) = { cfg with meshType := saved.meshType } := by
    intro cfg
    rw [cstr_cfgLine (by decide), loraCfgLine, scanField_other (fun _ => rfl), scanField_cfgLine]
    simp only [UInt8.toUInt8_toUInt32]
    rcases h.meshType with h | h <;> simp [h]
  have hnet : ∀ cfg, loraCfgLine cfg (cstr (cfgLine "net_id=0x" saved.netId)) = { cfg with netId := saved.netId } := by
    intro cfg
    rw [cstr_cfgLine (by decide), loraCfgLine, scanField_other (fun _ => rfl), scanField_other (fun _ => rfl),
      scanField_cfgLine]
    simp only [UInt8.toUInt8_toUInt32]
  have hdev : ∀ cfg, loraCfgLine cfg (cstr (cfgLine "dev_id=0x" saved.devId)) = { cfg with devId := saved.devId } := by
    intro cfg
    rw [cstr_cfgLine (by decide), loraCfgLine, scanField_other (fun _ => rfl), scanField_other (fun _ => rfl),
      scanField_other (fun _ => rfl), scanField_cfgLine]
    simp only [UInt8.toUInt8_toUInt32]
  rw [loraCfgLoadPersist, hlines]
  simp only [List.foldl_cons, List.foldl_nil, hroot, hmesh, hnet, hdev]
  rw [← h.payloadSize]

/-! ## Commands and crashes -/

/-- The configuration at the last rename. -/
def lastRenamed : List BtEvent → Option LoRaPara
  | [] => none
  | .renamed cfg :: _ => some cfg
  | .sent _ _ :: history => lastRenamed history

/-- The replies that say that a field has been saved. -/
def cfgAcks : List (List Char) :=
  ["BL_ACK_ROOT\r\n".toList, "BL_ACK_MESH\r\n".toList, "BL_ACK_NET\r\n".toList, "BL_ACK_DEV\r\n".toList]

/-- Each of these replies has been sent with the configuration of the last rename in
memory. -/
def Acknowledged (history : List BtEvent) : Prop :=
  ∀ text cfg before, (.sent text cfg :: before) <:+ history → text ∈ cfgAcks → lastRenamed before = some cfg

/-- What holds of a device that started with this text in its configuration file. -/
structure CfgInv (cfgText : Option (List Char)) (s : Bt) : Prop where
  valid : s.cfg.Valid
  renamed : ∀ saved, lastRenamed s.history = some saved → saved.Valid ∧ s.cfgFile = some ⟨loraCfgText saved, true⟩
  untouched : lastRenamed s.history = none → s.cfgFile = cfgText.map (⟨·, true⟩)
  acknowledged : Acknowledged s.history

variable {cfgText : Option (List Char)} {s : Bt}

theorem Acknowledged.sent {history : List BtEvent} (h : Acknowledged history) {text : List Char} {cfg : LoRaPara}
    (hsaved : text ∈ cfgAcks → lastRenamed history = some cfg) : Acknowledged (.sent text cfg :: history) := by
  intro text' cfg' before hsuffix hack
  rcases List.suffix_cons_iff.mp hsuffix with heq | hsuffix
  · cases heq
    exact hsaved hack
  · exact h text' cfg' before hsuffix hack

theorem Acknowledged.renamed {history : List BtEvent} (h : Acknowledged history) (cfg : LoRaPara) :
    Acknowledged (.renamed cfg :: history) := by
  intro text' cfg' before hsuffix hack
  rcases List.suffix_cons_iff.mp hsuffix with heq | hsuffix
  · cases heq
  · exact h text' cfg' before hsuffix hack

/-- A text is sent; an acknowledgement when the configuration has been renamed. -/
theorem wp_btSendText {text : String} {Q : Unit → Bt → Prop} (h : CfgInv cfgText s)
    (hsaved : text.toList ∈ cfgAcks → lastRenamed s.history = some s.cfg)
    (hQ : ∀ s', CfgInv cfgText s' → Q () s') : Wp BtOp.effect (CfgInv cfgText) (btSendText text) Q s := by
  refine wp_op.mpr ⟨h, fun _ s' hs => ?_⟩
  cases hs
  have h' : CfgInv cfgText { s with history := .sent text.toList s.cfg :: s.history } :=
    ⟨h.valid, h.renamed, h.untouched, h.acknowledged.sent hsaved⟩
  exact ⟨h', hQ _ h'⟩

theorem CfgInv.withTmp (h : CfgInv cfgText s) (tmpFile : Option StoredFile) :
    CfgInv cfgText { s with tmpFile := tmpFile } :=
  ⟨h.valid, h.renamed, h.untouched, h.acknowledged⟩

/-- What is in the temporary file after a `write` is the whole text, if it says so. -/
theorem writeTmp_eq_some {s' : Bt} {f : StoredFile} {buf : List Char} {w : Written} (htmp : s.tmpFile = some f)
    (h : BtOp.effect (.writeTmp buf) s w = some s') :
    (w.ret = buf.length → w.stored = buf.length) ∧
      { s with tmpFile := some ⟨f.text ++ buf.take w.stored, false⟩ } = s' := by
  simp only [BtOp.effect, htmp, Option.map_some, Option.ite_none_left_eq_some, Option.some.injEq, not_and, not_not] at h
  exact h

/-- `lora_cfg_save_persist` fails, with whatever in the temporary file, or has renamed it. -/
theorem wp_loraCfgSavePersist_of {C : Bt → Prop} {Q : Int → Bt → Prop}
    (hfails : ∀ tmpFile, C { s with tmpFile := tmpFile } ∧ Q (-1) { s with tmpFile := tmpFile })
    (hrenames : ∀ s', s' = { s with
      cfgFile := some ⟨loraCfgText s.cfg, true⟩, tmpFile := none, history := .renamed s.cfg :: s.history } →
        C s' ∧ Q 0 s') :
    Wp BtOp.effect C loraCfgSavePersist Q s := by
  have hC : ∀ tmpFile, C { s with tmpFile := tmpFile } := fun tmpFile => (hfails tmpFile).1
  refine wp_op_bind.mpr ⟨hC s.tmpFile, fun cfg s₁ hs => ?_⟩
  obtain ⟨hcfg, rfl⟩ : cfg = s.cfg ∧ s = s₁ := by
    simpa only [BtOp.effect, Option.ite_none_right_eq_some, Option.some.injEq] using hs
  subst hcfg
  refine wp_op_bind.mpr ⟨hC s.tmpFile, fun opened s₁ hs => ?_⟩
  cases opened with
  | false =>
    cases hs
    exact hfails s.tmpFile
  | true =>
  cases hs
  refine wp_op_bind.mpr ⟨hC _, fun w s₁ hs => ?_⟩
  obtain ⟨hwritten, rfl⟩ := writeTmp_eq_some rfl hs
  refine wp_ite (fun _ => hfails _) fun hret => ?_
  rw [hwritten (not_not.mp hret), List.take_length]
  refine wp_op_bind.mpr ⟨hC _, fun synced s₁ hs => ?_⟩
  cases synced with
  | false =>
    cases hs
    exact hfails _
  | true =>
  cases hs
  refine wp_op_bind.mpr ⟨hC _, fun renamed s₁ hs => ?_⟩
  cases renamed with
  | false =>
    cases hs
    exact hfails _
  | true =>
  cases hs
  exact hrenames _ rfl

/-- `lora_cfg_save_persist` fails with the file as it was, or leaves the configuration
in it. -/
theorem wp_loraCfgSavePersist (h : CfgInv cfgText s) :
    Wp BtOp.effect (CfgInv cfgText) loraCfgSavePersist
      (fun ret s' => CfgInv cfgText s' ∧ (ret = 0 → lastRenamed s'.history = some s'.cfg)) s := by
  refine wp_loraCfgSavePersist_of (fun tmpFile => ⟨h.withTmp tmpFile, h.withTmp tmpFile, nofun⟩) fun s' hs => ?_
  subst hs
  have hrenamed : CfgInv cfgText { s with
      cfgFile := some ⟨loraCfgText s.cfg, true⟩, tmpFile := none, history := .renamed s.cfg :: s.history } :=
    ⟨h.valid, fun saved hsaved => by cases hsaved; exact ⟨h.valid, rfl⟩, nofun, h.acknowledged.renamed s.cfg⟩
  exact ⟨hrenamed, hrenamed, fun _ => rfl⟩

/-- A command for a field, with a value the field may have. -/
theorem wp_btLoraCommand (h : CfgInv cfgText s) {field : UInt8} {val : UInt32} {ack : String}
    (hvalid : (loraCfgSet s.cfg field val.toUInt8).Valid) :
    Wp BtOp.effect (CfgInv cfgText) (btLoraCommand field val ack) (fun _ => CfgInv cfgText) s := by
  refine wp_op_bind.mpr ⟨h, fun _ s₁ hs => ?_⟩
  cases hs
  have hset : CfgInv cfgText { s with cfg := loraCfgSet s.cfg field val.toUInt8 } :=
    ⟨hvalid, h.renamed, h.untouched, h.acknowledged⟩
  refine wp_bind.mpr ((wp_loraCfgSavePersist hset).mono fun saved s₂ _ hsaved => ?_)
  by_cases hret : saved = 0
  · rw [if_pos hret]
    exact wp_btSendText hsaved.1 (fun _ => hsaved.2 hret) fun _ h' => h'
  · rw [if_neg hret]
    exact wp_btSendText hsaved.1 (fun hack => absurd hack (by decide)) fun _ h' => h'

/-- What does not depend on the send path and its file is kept by a command for it. -/
theorem wp_btPathCommand_of {C : Bt → Prop} (hpath : ∀ s path, C s → C { s with sendPath := path })
    (hfile : ∀ s file, C s → C { s with pathFile := file }) {ack : String}
    (hsend : ∀ s, C s → Wp BtOp.effect C (btSendText ack) (fun _ => C) s) (h : C s) (path : SendPath) :
    Wp BtOp.effect C (btPathCommand path ack) (fun _ => C) s := by
  refine wp_op_bind.mpr ⟨h, fun _ s₁ hs => ?_⟩
  cases hs
  have hset := hpath s path h
  refine wp_bind.mpr (wp_op_bind.mpr ⟨hset, fun opened s₁ hs => ?_⟩)
  cases opened with
  | false =>
    cases hs
    exact ⟨hset, hsend _ hset⟩
  | true =>
  cases hs
  refine wp_op_bind.mpr ⟨hfile _ _ hset, fun stored s₁ hs => ?_⟩
  cases hs
  have hstored := hfile _ (some ((fmtU path.num ++ ['\n']).take stored)) hset
  exact ⟨hstored, hsend _ hstored⟩

theorem wp_btPathCommand (h : CfgInv cfgText s) (path : SendPath) {ack : String} (hack : ack.toList ∉ cfgAcks) :
    Wp BtOp.effect (CfgInv cfgText) (btPathCommand path ack) (fun _ => CfgInv cfgText) s :=
  wp_btPathCommand_of (fun _ _ h => ⟨h.valid, h.renamed, h.untouched, h.acknowledged⟩)
    (fun _ _ h => ⟨h.valid, h.renamed, h.untouched, h.acknowledged⟩)
    (fun _ h => wp_btSendText h (fun hmem => absurd hmem hack) fun _ h' => h') h path

/-- What is no acknowledgement. -/
theorem not_mem_cfgAcks {text : List Char} {c : Char} (h : text[3]? = some c) (hc : c ≠ 'A') : text ∉ cfgAcks := by
  have hacks : ∀ ack ∈ cfgAcks, ack[3]? = some 'A' := by decide
  intro hmem
  rw [hacks text hmem] at h
  exact hc (Option.some.inj h).symm

/-- Whatever the line, its command keeps the invariant. -/
theorem wp_btHandleSimpleCommand (h : CfgInv cfgText s) (cmd : List Char) :
    Wp BtOp.effect (CfgInv cfgText) (btHandleSimpleCommand cmd) (fun _ => CfgInv cfgText) s := by
  have hsend : ∀ {s' : Bt} {text : String}, CfgInv cfgText s' → text.toList ∉ cfgAcks →
      Wp BtOp.effect (CfgInv cfgText) (btSendText text) (fun _ => CfgInv cfgText) s' := fun h' hack =>
    wp_btSendText h' (fun hmem => absurd hmem hack) fun _ h' => h'
  have herr : Wp BtOp.effect (CfgInv cfgText) (btSendText "BL_ACK_ERR\r\n") (fun _ => CfgInv cfgText) s :=
    hsend h (by decide)
  refine wp_ite (fun _ => ⟨h, h⟩) fun _ => ?_
  refine wp_ite (fun _ => wp_btPathCommand h _ (by decide)) fun _ => ?_
  refine wp_ite (fun _ => wp_btPathCommand h _ (by decide)) fun _ => ?_
  refine wp_ite (fun _ => wp_btPathCommand h _ (by decide)) fun _ => ?_
  refine wp_ite (fun _ => wp_btPathCommand h _ (by decide)) fun _ => ?_
  refine wp_ite (fun _ => wp_btPathCommand h _ (by decide)) fun _ => ?_
  refine wp_ite (fun _ => ?status) fun _ => ?_
  case status =>
    refine wp_op_bind.mpr ⟨h, fun egConnected s₁ hs => ?_⟩
    cases hs
    exact wp_ite (fun _ => hsend h (by decide)) fun _ => hsend h (by decide)
  refine wp_ite (fun _ => ?get) fun _ => ?_
  case get =>
    refine wp_op_bind.mpr ⟨h, fun cfg s₁ hs => ?_⟩
    obtain ⟨-, rfl⟩ : cfg = s.cfg ∧ s = s₁ := by
      simpa only [BtOp.effect, Option.ite_none_right_eq_some, Option.some.injEq] using hs
    refine wp_op.mpr ⟨h, fun _ s₁ hs => ?_⟩
    cases hs
    have hack : loraCfgMsg cfg ∉ cfgAcks := not_mem_cfgAcks (c := 'L') rfl (by decide)
    have h' : CfgInv cfgText { s with history := .sent (loraCfgMsg cfg) s.cfg :: s.history } :=
      ⟨h.valid, h.renamed, h.untouched, h.acknowledged.sent fun hmem => absurd hmem hack⟩
    exact ⟨h', h'⟩
  cases scanField "BL_ROOT_" cmd with
  | some val =>
    refine wp_ite (fun hval => wp_btLoraCommand h ?_) fun _ => herr
    exact ⟨hval.imp (by rintro rfl; rfl) (by rintro rfl; rfl), h.valid.meshType, h.valid.payloadSize⟩
  | none =>
  cases scanField "BL_MESH_" cmd with
  | some val =>
    refine wp_ite (fun hval => wp_btLoraCommand h ?_) fun _ => herr
    exact ⟨h.valid.isRoot, hval.imp (by rintro rfl; rfl) (by rintro rfl; rfl), h.valid.payloadSize⟩
  | none =>
  cases scanField "BL_NET_" cmd with
  | some val => exact wp_btLoraCommand h ⟨h.valid.isRoot, h.valid.meshType, h.valid.payloadSize⟩
  | none =>
  cases scanField "BL_DEV_" cmd with
  | some val => exact wp_btLoraCommand h ⟨h.valid.isRoot, h.valid.meshType, h.valid.payloadSize⟩
  | none =>
  cases (scanText "BL_4G_".toList cmd).bind scanU with
  | some val =>
    refine wp_ite (fun _ => wp_op_bind.mpr ⟨h, fun _ s₁ hs => ?_⟩) fun _ => herr
    cases hs
    exact hsend ⟨h.valid, h.renamed, h.untouched, h.acknowledged⟩ (by decide)
  | none => exact herr

theorem loraCfgLine_valid {cfg : LoRaPara} (h : cfg.Valid) (line : List Char) : (loraCfgLine cfg line).Valid := by
  unfold loraCfgLine
  cases scanField "is_root=0x" line with
  | some val =>
    show (if val = loraMeshRoot.toUInt32 ∨ val = loraMeshNotroot.toUInt32 then
      { cfg with isRoot := val.toUInt8 } else cfg).Valid
    split
    · rename_i hval
      exact ⟨hval.imp (by rintro rfl; rfl) (by rintro rfl; rfl), h.meshType, h.payloadSize⟩
    · exact h
  | none =>
  cases scanField "mesh_type=0x" line with
  | some val =>
    show (if val = loraMeshGateway.toUInt32 ∨ val = loraMeshNode.toUInt32 then
      { cfg with meshType := val.toUInt8 } else cfg).Valid
    split
    · rename_i hval
      exact ⟨h.isRoot, hval.imp (by rintro rfl; rfl) (by rintro rfl; rfl), h.payloadSize⟩
    · exact h
  | none =>
  cases scanField "net_id=0x" line with
  | some val => exact ⟨h.isRoot, h.meshType, h.payloadSize⟩
  | none =>
  cases scanField "dev_id=0x" line with
  | some val => exact ⟨h.isRoot, h.meshType, h.payloadSize⟩
  | none => exact h

/-- Whatever is in the file, `lora_cfg_load_persist` gives no field a value that the
commands do not. -/
theorem loraCfgLoadPersist_valid (file : Option (List Char)) : (loraCfgLoadPersist file myLoraConfig).Valid := by
  cases file with
  | none => exact valid_myLoraConfig
  | some text =>
    refine List.foldlRecOn (fgetsAll 64 text) _ valid_myLoraConfig fun cfg hcfg line _ => ?_
    exact loraCfgLine_valid hcfg (cstr line)

/-- A crash leaves what has been renamed into place. -/
theorem CfgInv.restarts (h : CfgInv cfgText s) {s' : Bt} (hrestart : Restarts s s') :
    CfgInv cfgText s' ∧ s'.history = s.history ∧ ∀ saved, lastRenamed s.history = some saved → s'.cfg = saved := by
  obtain ⟨pathFile, hcfg, htmp⟩ := hrestart
  rename_i cfgFile tmpFile
  have hfile : cfgFile = s.cfgFile := by
    cases hlast : lastRenamed s.history with
    | some saved =>
      rw [(h.renamed saved hlast).2] at hcfg ⊢
      exact hcfg
    | none =>
      rw [h.untouched hlast] at hcfg ⊢
      cases cfgText with
      | none => exact hcfg
      | some text => exact hcfg
  refine ⟨⟨loraCfgLoadPersist_valid _, ?_, ?_, h.acknowledged⟩, rfl, fun saved hsaved => ?_⟩
  · exact fun saved hsaved => ⟨(h.renamed saved hsaved).1, hfile.trans (h.renamed saved hsaved).2⟩
  · exact fun hnone => hfile.trans (h.untouched hnone)
  · obtain ⟨hvalid, hsame⟩ := h.renamed saved hsaved
    show loraCfgLoadPersist (cfgFile.map (·.text)) myLoraConfig = saved
    rw [hfile, hsame]
    exact loraCfgLoadPersist_text hvalid

/-- What a device that started with this text in its configuration file is to keep:
the values of two fields; what the last rename has put into place, wherever the device
crashes; the file as it was, before that; and that it acknowledges nothing that is
not in place. -/
structure CfgSafe (cfgText : Option (List Char)) (s : Bt) : Prop where
  isRoot : s.cfg.isRoot = 0x00 ∨ s.cfg.isRoot = 0xFF
  meshType : s.cfg.meshType = 0x00 ∨ s.cfg.meshType = 0x01
  restored : ∀ saved, lastRenamed s.history = some saved → ∀ s', Restarts s s' → s'.cfg = saved
  untouched : lastRenamed s.history = none → s.cfgFile.map (·.text) = cfgText
  acknowledged : Acknowledged s.history

theorem CfgInv.boot (cfgText tmpText pathText : Option (List Char)) :
    CfgInv cfgText (Bt.boot cfgText tmpText pathText) where
  valid := loraCfgLoadPersist_valid _
  renamed := nofun
  untouched := fun _ => rfl
  acknowledged := fun _ _ _ h => by simp [Bt.boot, Bt.restart] at h

/-- A device keeps its configuration over all command lines, failures of its calls and
crashes. -/
theorem bt_cfgSafe (cfgText tmpText pathText : Option (List Char)) {c : BtConfig}
    (h : Relation.ReflTransGen BtStep (pure (), Bt.boot cfgText tmpText pathText) c) : CfgSafe cfgText c.2 := by
  have hrun : Wp BtOp.effect (CfgInv cfgText) c.1 (fun _ => CfgInv cfgText) c.2 := by
    induction h with
    | refl => exact ⟨.boot _ _ _, .boot _ _ _⟩
    | tail _ hstep ih =>
      cases hstep with
      | command cmd s => exact wp_btHandleSimpleCommand ih.holds cmd
      | op hop => exact ih.step hop
      | crash p hrestart =>
        have hinv := (ih.holds.restarts hrestart).1
        exact ⟨hinv, hinv⟩
  have hinv := hrun.holds
  exact {
    isRoot := hinv.valid.isRoot.symm
    meshType := hinv.valid.meshType.symm
    restored := fun saved hsaved s' hs' => (hinv.restarts hs').2.2 saved hsaved
    untouched := fun hnone => by
      rw [hinv.untouched hnone]
      cases cfgText with
      | none => rfl
      | some text => rfl
    acknowledged := hinv.acknowledged }

theorem bt_cfgSafe_net :
    let cfg := { myLoraConfig with netId := 0x07 }
    let history := [.sent "BL_ACK_NET\r\n".toList cfg, .renamed cfg]
    CfgSafe none { Bt.boot none none none with
      cfg := cfg, cfgFile := some ⟨loraCfgText cfg, true⟩, history := history } := by
  intro cfg history
  have hcmd : btHandleSimpleCommand "BL_NET_7".toList = btLoraCommand 2 7 "BL_ACK_NET\r\n" := rfl
  refine bt_cfgSafe none none none (c := (pure (), _)) ?_
  refine .head (.command "BL_NET_7".toList _) ?_
  rw [hcmd]
  refine .head (.op (.call () rfl)) ?_
  refine .head (.op (.call cfg rfl)) ?_
  refine .head (.op (.call true rfl)) ?_
  refine .head (.op (.call ⟨52, 52⟩ rfl)) ?_
  refine .head (.op (.call true rfl)) ?_
  refine .head (.op (.call true rfl)) ?_
  refine .head (.op (.call () rfl)) ?_
  exact .refl

end Dtu
