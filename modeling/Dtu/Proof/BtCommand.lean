import Dtu.Framework.Numbers
import Dtu.Proof.LoraCfg

/-!
# The settings of the Bluetooth line

`bt_handle_simple_command` takes what `sscanf` reads behind the text of a setting: a
number with blanks, a sign or a `0x` before it and anything behind it, cut to 32 bits, and
for two of the settings to 8 bits more. So a line is handled as it is meant to be if it is a setting's
text and a number in its range, or nothing that is taken for one
(`btSettings_iff`).
-/

namespace Dtu

open Stdio Program Relation

/-- What a command line can set. -/
inductive BtSetting where
  | root
  | mesh
  | net
  | dev
  | port

namespace BtSetting

/-- What the lines that set it start with. -/
def text : BtSetting → String
  | root => "BL_ROOT_"
  | mesh => "BL_MESH_"
  | net => "BL_NET_"
  | dev => "BL_DEV_"
  | port => "BL_4G_"

/-- The reply that it is set. -/
def ack : BtSetting → String
  | root => "BL_ACK_ROOT\r\n"
  | mesh => "BL_ACK_MESH\r\n"
  | net => "BL_ACK_NET\r\n"
  | dev => "BL_ACK_DEV\r\n"
  | port => "BL_ACK_4G\r\n"

/-- How its numbers are written. -/
def conv : BtSetting → NumConv
  | port => convU
  | _ => convX

/-- The numbers it is meant to have. -/
def InRange : BtSetting → Nat → Prop
  | root, n => n = 0x00 ∨ n = 0xFF
  | mesh, n => n = 0x00 ∨ n = 0x01
  | net, n => n ≤ 0xFF
  | dev, n => n ≤ 0xFF
  | port, n => 1 ≤ n ∧ n ≤ 65535

/-- What is set. -/
def get : BtSetting → Bt → Nat
  | root, s => s.cfg.isRoot.toNat
  | mesh, s => s.cfg.meshType.toNat
  | net, s => s.cfg.netId.toNat
  | dev, s => s.cfg.devId.toNat
  | port, s => s.serverPort

/-- The line that is meant to set it to `n`. -/
def Line (f : BtSetting) (n : Nat) (cmd : List Char) : Prop :=
  ∃ ds, cmd = f.text.toList ++ ds ∧ ds ≠ [] ∧ (∀ c ∈ ds, f.conv.digit c = true) ∧ f.conv.value ds = n ∧ f.InRange n

/-- It has been set to `n`, and nothing else. -/
structure Took (f : BtSetting) (n : Nat) (s s' : Bt) : Prop where
  value : f.get s' = n
  others : ∀ g ≠ f, g.get s' = g.get s
  payloadSize : s'.cfg.payloadSize = s.cfg.payloadSize
  sendPath : s'.sendPath = s.sendPath

/-- The check of `bt_handle_simple_command` on the number it has read. -/
def Accepts : BtSetting → UInt32 → Prop
  | root, val => val = loraMeshRoot.toUInt32 ∨ val = loraMeshNotroot.toUInt32
  | mesh, val => val = loraMeshGateway.toUInt32 ∨ val = loraMeshNode.toUInt32
  | net, _ => True
  | dev, _ => True
  | port, val => 1 ≤ val ∧ val ≤ 65535

end BtSetting

/-- What has been sent. -/
def replies (history : List BtEvent) : List (List Char) :=
  history.filterMap fun event =>
    match event with
    | .sent text _ => some text
    | .renamed _ => none

/-- A command from its start to its end; the operations succeed or fail. -/
def BtRun (cmd : List Char) (s s' : Bt) : Prop :=
  ReflTransGen (Step BtOp.effect) (btHandleSimpleCommand cmd, { s with history := [] }) (pure (), s')

/-- What is meant to have been done with a line: what has been acknowledged has been set
to the number in the line, and a line that starts like one for a setting and is none
has been refused. -/
structure SettingChecked (cmd : List Char) (s s' : Bt) : Prop where
  acked : ∀ f : BtSetting, f.ack.toList ∈ replies s'.history → ∃ n, f.Line n cmd ∧ f.Took n s s'
  refused : (∃ f : BtSetting, f.text.toList <+: cmd) → (∀ (f : BtSetting) n, ¬f.Line n cmd) →
    replies s'.history = ["BL_ACK_ERR\r\n".toList] ∧ s' = { s with history := s'.history }

/-- The line is as it is meant to be, or nothing behind a setting's text is taken for a
number of the setting. -/
def SettingPlain (cmd : List Char) : Prop :=
  (∃ (f : BtSetting) (n : Nat), f.Line n cmd) ∨
    ∀ (f : BtSetting) rest neg ds, cmd = f.text.toList ++ rest → f.conv.Reads rest neg ds →
      ¬f.Accepts (strtoul neg (f.conv.value ds))

/-! ## The commands of the settings -/

namespace BtSetting

variable {f : BtSetting} {val : UInt32} {rest : List Char} {s : Bt}

instance : (f : BtSetting) → (val : UInt32) → Decidable (f.Accepts val)
  | root, _ => inferInstanceAs (Decidable (_ ∨ _))
  | mesh, _ => inferInstanceAs (Decidable (_ ∨ _))
  | net, _ => .isTrue trivial
  | dev, _ => .isTrue trivial
  | port, _ => inferInstanceAs (Decidable (_ ∧ _))

/-- What is done with a number that the check lets through. -/
def store : BtSetting → UInt32 → BtProgram Unit
  | root, val => btLoraCommand 0 val root.ack
  | mesh, val => btLoraCommand 1 val mesh.ack
  | net, val => btLoraCommand 2 val net.ack
  | dev, val => btLoraCommand 3 val dev.ack
  | port, val => do
    op (BtOp.setServerPort val.toNat)
    btSendText port.ack

/-- What it is set to then. -/
def stored : BtSetting → UInt32 → Nat
  | port, val => val.toNat
  | _, val => val.toUInt8.toNat

theorem text_char (f : BtSetting) :
    ∃ c, (∀ rest, (f.text.toList ++ rest)[3]? = some c) ∧ c ≠ '0' ∧ c ≠ 'L' := by
  cases f with
  | root => exact ⟨'R', fun _ => rfl, by decide, by decide⟩
  | mesh => exact ⟨'M', fun _ => rfl, by decide, by decide⟩
  | net => exact ⟨'N', fun _ => rfl, by decide, by decide⟩
  | dev => exact ⟨'D', fun _ => rfl, by decide, by decide⟩
  | port => exact ⟨'4', fun _ => rfl, by decide, by decide⟩

/-- A line that starts like one for a setting is handled as one for that setting. -/
theorem btHandleSimpleCommand_eq (f : BtSetting) (rest : List Char) :
    btHandleSimpleCommand (f.text.toList ++ rest) =
      match f.conv.scan rest with
      | some val => if f.Accepts val then f.store val else btSendText "BL_ACK_ERR\r\n"
      | none => btSendText "BL_ACK_ERR\r\n" := by
  obtain ⟨c, hc, h0, hL⟩ := f.text_char
  have hne : ∀ {fixed : List Char}, fixed[3]? ≠ some c → ¬f.text.toList ++ rest = fixed := fun h e =>
    h (e ▸ hc rest)
  have hzero : some '0' ≠ some c := fun h => h0 (Option.some.inj h).symm
  have hell : some 'L' ≠ some c := fun h => hL (Option.some.inj h).symm
  have hnil : ([] : List Char)[3]? ≠ some c := nofun
  rw [btHandleSimpleCommand, if_neg (hne hnil), if_neg (hne hzero), if_neg (hne hzero), if_neg (hne hzero),
    if_neg (hne hzero), if_neg (hne hzero), if_neg (not_or.mpr ⟨hne hzero, hne hzero⟩), if_neg (hne hell)]
  have hscan : ∀ field : String, scanField field (field.toList ++ rest) = convX.scan rest := fun field => by
    rw [scanField, scanText_append, Option.bind_some, scanX_eq_scan]
  cases f with
  | root =>
    rw [show scanField "BL_ROOT_" (root.text.toList ++ rest) = root.conv.scan rest from hscan _]
    cases root.conv.scan rest with
    | none => rfl
    | some val => rfl
  | mesh =>
    rw [show scanField "BL_ROOT_" (mesh.text.toList ++ rest) = none from rfl,
      show scanField "BL_MESH_" (mesh.text.toList ++ rest) = mesh.conv.scan rest from hscan _]
    cases mesh.conv.scan rest with
    | none => rfl
    | some val => rfl
  | net =>
    rw [show scanField "BL_ROOT_" (net.text.toList ++ rest) = none from rfl,
      show scanField "BL_MESH_" (net.text.toList ++ rest) = none from rfl,
      show scanField "BL_NET_" (net.text.toList ++ rest) = net.conv.scan rest from hscan _]
    cases net.conv.scan rest with
    | none => rfl
    | some val => rfl
  | dev =>
    rw [show scanField "BL_ROOT_" (dev.text.toList ++ rest) = none from rfl,
      show scanField "BL_MESH_" (dev.text.toList ++ rest) = none from rfl,
      show scanField "BL_NET_" (dev.text.toList ++ rest) = none from rfl,
      show scanField "BL_DEV_" (dev.text.toList ++ rest) = dev.conv.scan rest from hscan _]
    cases dev.conv.scan rest with
    | none => rfl
    | some val => rfl
  | port =>
    have hport : (scanText "BL_4G_".toList (port.text.toList ++ rest)).bind scanU = port.conv.scan rest := by
      rw [show scanText "BL_4G_".toList (port.text.toList ++ rest) = some rest from scanText_append _ _,
        Option.bind_some, scanU_eq_scan]
      rfl
    rw [show scanField "BL_ROOT_" (port.text.toList ++ rest) = none from rfl,
      show scanField "BL_MESH_" (port.text.toList ++ rest) = none from rfl,
      show scanField "BL_NET_" (port.text.toList ++ rest) = none from rfl,
      show scanField "BL_DEV_" (port.text.toList ++ rest) = none from rfl, hport]
    cases port.conv.scan rest with
    | none => rfl
    | some val => rfl

theorem ack_char (f : BtSetting) : f.ack.toList[7]? ∈ [some 'R', some 'M', some 'N', some 'D', some '4'] := by
  cases f <;> decide

theorem ack_inj {g : BtSetting} (h : f.ack.toList = g.ack.toList) : f = g := by
  have h7 : f.ack.toList[7]? = g.ack.toList[7]? := congrArg (·[7]?) h
  cases f <;> cases g <;> first | rfl | exact absurd h7 (by decide)

/-- Another text is no acknowledgement. -/
theorem ack_ne {text : List Char} (h : text[7]? ∉ [some 'R', some 'M', some 'N', some 'D', some '4'])
    (f : BtSetting) : f.ack.toList ≠ text := fun e => h (e ▸ f.ack_char)

end BtSetting

/-! ## Runs of a command -/

section Runs

variable {s s' : Bt}

/-- What `lora_cfg_save_persist` leaves as it was. -/
structure CfgSaveKeeps (s s' : Bt) : Prop where
  cfg : s'.cfg = s.cfg
  sendPath : s'.sendPath = s.sendPath
  serverPort : s'.serverPort = s.serverPort
  replies : replies s'.history = replies s.history

theorem wp_loraCfgSavePersist_keeps (s : Bt) :
    Wp BtOp.effect (fun _ => True) loraCfgSavePersist (fun _ s' => CfgSaveKeeps s s') s := by
  refine wp_loraCfgSavePersist_of (fun _ => ⟨trivial, rfl, rfl, rfl, rfl⟩) fun s' hs => ?_
  subst hs
  exact ⟨trivial, rfl, rfl, rfl, rfl⟩

/-- A field of the LoRa configuration is set; whether that is acknowledged depends on
whether it can be saved. -/
theorem wp_btLoraCommand_sets (hs : s.history = []) (field : UInt8) (val : UInt32) (ack : String) :
    Wp BtOp.effect (fun _ => True) (btLoraCommand field val ack)
      (fun _ s' => s'.cfg = loraCfgSet s.cfg field val.toUInt8 ∧ s'.sendPath = s.sendPath ∧
        s'.serverPort = s.serverPort ∧
        (replies s'.history = [ack.toList] ∨ replies s'.history = ["BL_ACK_SAVE_ERR\r\n".toList])) s := by
  refine wp_op_bind.mpr ⟨trivial, fun _ s₁ h₁ => ?_⟩
  cases h₁
  refine wp_bind.mpr ((wp_loraCfgSavePersist_keeps _).mono fun saved s₂ _ hkeeps => ?_)
  have hreplies : replies s₂.history = [] := by
    rw [hkeeps.replies]
    show replies s.history = []
    rw [hs]
    rfl
  have hsend : ∀ text : List Char, replies (.sent text s₂.cfg :: s₂.history) = [text] := fun text =>
    congrArg (text :: ·) hreplies
  by_cases hsaved : saved = 0
  · rw [if_pos hsaved]
    refine wp_op.mpr ⟨trivial, fun _ s₃ h₃ => ?_⟩
    cases h₃
    exact ⟨trivial, hkeeps.cfg, hkeeps.sendPath, hkeeps.serverPort, .inl (hsend _)⟩
  · rw [if_neg hsaved]
    refine wp_op.mpr ⟨trivial, fun _ s₃ h₃ => ?_⟩
    cases h₃
    exact ⟨trivial, hkeeps.cfg, hkeeps.sendPath, hkeeps.serverPort, .inr (hsend _)⟩

/-- It can be saved. -/
theorem btLoraCommand_saves (s : Bt) (field : UInt8) (val : UInt32) (ack : String) :
    ∃ s', ReflTransGen (Step BtOp.effect) (btLoraCommand field val ack, s) (pure (), s') ∧
      s'.cfg = loraCfgSet s.cfg field val.toUInt8 ∧ ack.toList ∈ replies s'.history := by
  let cfg := loraCfgSet s.cfg field val.toUInt8
  let history := .sent ack.toList cfg :: .renamed cfg :: s.history
  have hget : BtOp.effect .loraCfgGet { s with cfg := cfg } cfg = some { s with cfg := cfg } := if_pos rfl
  refine ⟨{ s with cfg := cfg, cfgFile := some ⟨loraCfgText cfg, true⟩, tmpFile := none, history := history },
    ?_, rfl, List.mem_cons_self⟩
  refine .head (.call () rfl) ?_
  refine .head (.call cfg hget) ?_
  refine .head (.call true rfl) ?_
  refine .head (.call ⟨52, 52⟩ rfl) ?_
  refine .head (.call true rfl) ?_
  refine .head (.call true rfl) ?_
  refine .head (.call () rfl) ?_
  exact .refl

namespace BtSetting

variable {f : BtSetting} {val : UInt32}

/-- A field of the LoRa configuration has been set. -/
theorem took_of_cfg {field v : UInt8} (hfield : (f, field) ∈ [(root, 0), (mesh, 1), (net, 2), (dev, 3)])
    (hcfg : s'.cfg = loraCfgSet s.cfg field v) (hpath : s'.sendPath = s.sendPath)
    (hport : s'.serverPort = s.serverPort) : f.Took v.toNat s s' := by
  simp only [List.mem_cons, Prod.mk.injEq, List.not_mem_nil, or_false] at hfield
  -- For each of the four fields, each of the five settings: itself, the port, another field.
  rcases hfield with ⟨rfl, rfl⟩ | ⟨rfl, rfl⟩ | ⟨rfl, rfl⟩ | ⟨rfl, rfl⟩ <;>
    refine ⟨by rw [get, hcfg]; rfl, fun g hg => ?_, by rw [hcfg]; rfl, hpath⟩ <;>
    cases g <;> first | exact absurd rfl hg | exact hport | (rw [get, get, hcfg]; rfl)

theorem wp_store (hs : s.history = []) (f : BtSetting) (val : UInt32) :
    Wp BtOp.effect (fun _ => True) (f.store val)
      (fun _ s' => f.Took (f.stored val) s s' ∧
        (replies s'.history = [f.ack.toList] ∨ replies s'.history = ["BL_ACK_SAVE_ERR\r\n".toList])) s := by
  have hlora : ∀ {g : BtSetting} {field : UInt8}, (g, field) ∈ [(root, 0), (mesh, 1), (net, 2), (dev, 3)] →
      Wp BtOp.effect (fun _ => True) (btLoraCommand field val g.ack)
        (fun _ s' => g.Took val.toUInt8.toNat s s' ∧
          (replies s'.history = [g.ack.toList] ∨ replies s'.history = ["BL_ACK_SAVE_ERR\r\n".toList])) s :=
    fun {g field} hfield => (wp_btLoraCommand_sets hs field val g.ack).mono fun _ s' _ hset =>
      ⟨took_of_cfg hfield hset.1 hset.2.1 hset.2.2.1, hset.2.2.2⟩
  cases f with
  | root => exact hlora (by simp)
  | mesh => exact hlora (by simp)
  | net => exact hlora (by simp)
  | dev => exact hlora (by simp)
  | port =>
    refine wp_op_bind.mpr ⟨trivial, fun _ s₁ h₁ => ?_⟩
    cases h₁
    refine wp_op.mpr ⟨trivial, fun _ s₂ h₂ => ?_⟩
    cases h₂
    refine ⟨trivial, ⟨rfl, fun g hg => ?_, rfl, rfl⟩, .inl (congrArg (port.ack.toList :: ·) (congrArg replies hs))⟩
    cases g <;> first | exact absurd rfl hg | rfl

/-- An accepted number can be stored and acknowledged. -/
theorem store_acks (f : BtSetting) (val : UInt32) (s : Bt) :
    ∃ s', ReflTransGen (Step BtOp.effect) (f.store val, s) (pure (), s') ∧ f.ack.toList ∈ replies s'.history := by
  have hlora : ∀ (field : UInt8) (ack : String), ∃ s', ReflTransGen (Step BtOp.effect)
      (btLoraCommand field val ack, s) (pure (), s') ∧ ack.toList ∈ replies s'.history := fun field ack => by
    obtain ⟨s', hrun, -, hack⟩ := btLoraCommand_saves s field val ack
    exact ⟨s', hrun, hack⟩
  cases f with
  | root => exact hlora 0 root.ack
  | mesh => exact hlora 1 mesh.ack
  | net => exact hlora 2 net.ack
  | dev => exact hlora 3 dev.ack
  | port => exact ⟨_, .head (.call () rfl) (.head (.call () rfl) .refl), List.mem_cons_self⟩

end BtSetting

/-- No setting has been acknowledged. -/
def Unacked (s : Bt) : Prop := ∀ f : BtSetting, f.ack.toList ∉ replies s.history

theorem wp_btSendText_unacked {text : List Char} (htext : text[7]? ∉ [some 'R', some 'M', some 'N', some 'D', some '4'])
    (h : Unacked s) : Wp BtOp.effect Unacked (op (BtOp.sendText text)) (fun _ => Unacked) s := by
  refine wp_op.mpr ⟨h, fun _ s' hs' => ?_⟩
  cases hs'
  have hsent : Unacked { s with history := .sent text s.cfg :: s.history } := fun f hf => by
    rcases List.mem_cons.mp hf with heq | hmem
    · exact BtSetting.ack_ne htext f heq
    · exact h f hmem
  exact ⟨hsent, hsent⟩

theorem wp_btPathCommand_unacked {ack : String}
    (htext : ack.toList[7]? ∉ [some 'R', some 'M', some 'N', some 'D', some '4']) (h : Unacked s) (path : SendPath) :
    Wp BtOp.effect Unacked (btPathCommand path ack) (fun _ => Unacked) s :=
  wp_btPathCommand_of (fun _ _ h => h) (fun _ _ h => h) (fun _ => wp_btSendText_unacked htext) h path

/-- A line that does not start like one for a setting has none acknowledged. -/
theorem wp_btHandleSimpleCommand_other {cmd : List Char} (h : Unacked s)
    (hother : ∀ f : BtSetting, ¬f.text.toList <+: cmd) :
    Wp BtOp.effect Unacked (btHandleSimpleCommand cmd) (fun _ => Unacked) s := by
  have htext : ∀ f : BtSetting, scanText f.text.toList cmd = none := fun f => by
    rw [Option.eq_none_iff_forall_not_mem]
    exact fun rest hrest => hother f ⟨rest, (scanText_eq_some_iff.mp hrest).symm⟩
  have hfield : ∀ f : BtSetting, scanField f.text cmd = none := fun f => by
    rw [scanField, htext, Option.bind_none]
  refine wp_ite (fun _ => ⟨h, h⟩) fun _ => ?_
  refine wp_ite (fun _ => wp_btPathCommand_unacked (by decide) h _) fun _ => ?_
  refine wp_ite (fun _ => wp_btPathCommand_unacked (by decide) h _) fun _ => ?_
  refine wp_ite (fun _ => wp_btPathCommand_unacked (by decide) h _) fun _ => ?_
  refine wp_ite (fun _ => wp_btPathCommand_unacked (by decide) h _) fun _ => ?_
  refine wp_ite (fun _ => wp_btPathCommand_unacked (by decide) h _) fun _ => ?_
  refine wp_ite (fun _ => ?status) fun _ => ?_
  case status =>
    refine wp_op_bind.mpr ⟨h, fun egConnected s₁ h₁ => ?_⟩
    cases h₁
    exact wp_ite (fun _ => wp_btSendText_unacked (by decide) h) fun _ => wp_btSendText_unacked (by decide) h
  refine wp_ite (fun _ => ?get) fun _ => ?_
  case get =>
    refine wp_op_bind.mpr ⟨h, fun cfg s₁ h₁ => ?_⟩
    obtain ⟨-, rfl⟩ : cfg = s.cfg ∧ s = s₁ := by
      simpa only [BtOp.effect, Option.ite_none_right_eq_some, Option.some.injEq] using h₁
    exact wp_btSendText_unacked (show some '_' ∉ _ by decide) h
  rw [show scanField "BL_ROOT_" cmd = none from hfield .root, show scanField "BL_MESH_" cmd = none from hfield .mesh,
    show scanField "BL_NET_" cmd = none from hfield .net, show scanField "BL_DEV_" cmd = none from hfield .dev,
    show scanText "BL_4G_".toList cmd = none from htext .port]
  exact wp_btSendText_unacked (by decide) h

end Runs

/-! ## Lines -/

namespace BtSetting

variable {f : BtSetting} {n : Nat} {cmd rest ds : List Char} {neg : Bool}

/-- The numbers that a setting is meant to have are let through, and not cut. -/
theorem InRange.kept (h : f.InRange n) : f.Accepts (strtoul false n) ∧ f.stored (strtoul false n) = n := by
  have hbyte : n ≤ 0xFF → (strtoul false n).toUInt8.toNat = n := fun hn => by
    have hval := toNat_strtoul (n := n) (by omega)
    rw [UInt32.toNat_toUInt8, hval]
    omega
  cases f with
  | root =>
    rcases h with rfl | rfl
    · exact ⟨.inr rfl, rfl⟩
    · exact ⟨.inl rfl, rfl⟩
  | mesh =>
    rcases h with rfl | rfl
    · exact ⟨.inr rfl, rfl⟩
    · exact ⟨.inl rfl, rfl⟩
  | net => exact ⟨trivial, hbyte h⟩
  | dev => exact ⟨trivial, hbyte h⟩
  | port =>
    obtain ⟨hpos, hmax⟩ := h
    have hval := toNat_strtoul (n := n) (by omega)
    refine ⟨⟨?_, ?_⟩, hval⟩
    · rw [UInt32.le_iff_toNat_le, hval]
      exact hpos
    · rw [UInt32.le_iff_toNat_le, hval]
      exact hmax

/-- What is behind the text of a setting is refused if no number of the setting is read
there. -/
theorem btHandleSimpleCommand_refuses
    (h : ∀ neg ds, f.conv.Reads rest neg ds → ¬f.Accepts (strtoul neg (f.conv.value ds))) :
    btHandleSimpleCommand (f.text.toList ++ rest) = btSendText "BL_ACK_ERR\r\n" := by
  rw [btHandleSimpleCommand_eq]
  cases hscan : f.conv.scan rest with
  | none => rfl
  | some val =>
    obtain ⟨neg, ds, hreads, rfl⟩ := NumConv.scan_eq_some_iff.mp hscan
    exact if_neg (h neg ds hreads)

/-- It is stored if one is. -/
theorem btHandleSimpleCommand_stores (hreads : f.conv.Reads rest neg ds)
    (h : f.Accepts (strtoul neg (f.conv.value ds))) :
    btHandleSimpleCommand (f.text.toList ++ rest) = f.store (strtoul neg (f.conv.value ds)) := by
  rw [btHandleSimpleCommand_eq, NumConv.scan_eq_some_iff.mpr ⟨neg, ds, hreads, rfl⟩]
  exact if_pos h

end BtSetting

/-- A line that is as it is meant to be is handled so. -/
theorem settingChecked_of_line {f : BtSetting} {n : Nat} {cmd : List Char} (hline : f.Line n cmd) {s s' : Bt}
    (hrun : BtRun cmd s s') : SettingChecked cmd s s' := by
  obtain ⟨ds, rfl, hne, hds, rfl, hrange⟩ := hline
  obtain ⟨haccepts, hstored⟩ := hrange.kept
  rw [BtRun, BtSetting.btHandleSimpleCommand_stores (NumConv.reads_digits hne hds) haccepts] at hrun
  obtain ⟨htook, hreplies⟩ := (BtSetting.wp_store rfl f _).ends hrun
  rw [hstored] at htook
  refine ⟨fun g hack => ?_, fun _ hnone => absurd ⟨ds, rfl, hne, hds, rfl, hrange⟩ (hnone f _)⟩
  rcases hreplies with hreplies | hreplies
  · rw [hreplies, List.mem_singleton] at hack
    obtain rfl := BtSetting.ack_inj hack
    have hothers : ∀ h ≠ g, h.get s' = h.get s := fun h hg => (htook.others h hg).trans (by cases h <;> rfl)
    exact ⟨_, ⟨ds, rfl, hne, hds, rfl, hrange⟩, htook.value, hothers, htook.payloadSize, htook.sendPath⟩
  · rw [hreplies, List.mem_singleton] at hack
    exact absurd hack (BtSetting.ack_ne (by decide) g)

/-- A line with nothing that is taken for a number of a setting is handled as it is meant
to be. -/
theorem settingChecked_of_refused {cmd : List Char}
    (h : ∀ (f : BtSetting) rest neg ds, cmd = f.text.toList ++ rest → f.conv.Reads rest neg ds →
      ¬f.Accepts (strtoul neg (f.conv.value ds))) {s s' : Bt}
    (hrun : BtRun cmd s s') : SettingChecked cmd s s' := by
  by_cases hsetting : ∃ f : BtSetting, f.text.toList <+: cmd
  · obtain ⟨f, rest, rfl⟩ := hsetting
    rw [BtRun, BtSetting.btHandleSimpleCommand_refuses fun neg ds => h f rest neg ds rfl] at hrun
    have herr : s' = { s with history := [.sent "BL_ACK_ERR\r\n".toList s.cfg] } := by
      refine Wp.ends (C := fun _ => True) (Q := fun _ s' => s' = _) ?_ hrun
      refine wp_op.mpr ⟨trivial, fun _ s₁ h₁ => ?_⟩
      cases h₁
      exact ⟨trivial, rfl⟩
    rw [herr]
    refine ⟨fun g hack => ?_, fun _ _ => ⟨rfl, rfl⟩⟩
    exact absurd (List.mem_singleton.mp hack) (BtSetting.ack_ne (by decide) g)
  · have hunacked : Unacked s' :=
      (wp_btHandleSimpleCommand_other (fun _ => List.not_mem_nil) (not_exists.mp hsetting)).ends hrun
    exact ⟨fun f hack => absurd hack (hunacked f), fun hsome => absurd hsome hsetting⟩

/-- In whatever state, lines are handled as they are meant to be just if they are as they
are meant to be, or nothing in them is taken for a number of the setting. -/
theorem btSettings_iff (cmd : List Char) (s : Bt) :
    (∀ s', BtRun cmd s s' → SettingChecked cmd s s') ↔ SettingPlain cmd := by
  constructor
  · intro hall
    refine or_iff_not_imp_left.mpr fun hline f rest neg ds hcmd hreads haccepts => hline ?_
    obtain ⟨s', hrun, hack⟩ := BtSetting.store_acks f (strtoul neg (f.conv.value ds)) { s with history := [] }
    rw [← BtSetting.btHandleSimpleCommand_stores hreads haccepts, ← hcmd] at hrun
    obtain ⟨n, hn, -⟩ := (hall s' hrun).acked f hack
    exact ⟨f, n, hn⟩
  · rintro (⟨f, n, hline⟩ | hrefused) s' hrun
    · exact settingChecked_of_line hline hrun
    · exact settingChecked_of_refused hrefused hrun

/-- The network 511 becomes the network 255. -/
theorem btSettings_cut :
    let cmd := "BL_NET_1ff".toList
    ∃ s', BtRun cmd (Bt.boot none none none) s' ∧ BtSetting.net.ack.toList ∈ replies s'.history ∧
      s'.cfg.netId = 0xFF ∧ ¬SettingChecked cmd (Bt.boot none none none) s' := by
  intro cmd
  have hcmd : btHandleSimpleCommand cmd = btLoraCommand 2 0x1FF "BL_ACK_NET\r\n" := rfl
  obtain ⟨s', hrun, hcfg, hack⟩ := btLoraCommand_saves { Bt.boot none none none with history := [] } 2 0x1FF "BL_ACK_NET\r\n"
  rw [← hcmd] at hrun
  refine ⟨s', hrun, hack, by rw [hcfg]; rfl, fun hchecked => ?_⟩
  obtain ⟨n, ⟨ds, heq, -, -, hval, hrange⟩, -⟩ := hchecked.acked .net hack
  obtain rfl : "1ff".toList = ds := @List.append_cancel_left _ BtSetting.net.text.toList _ _ heq
  rw [← hval] at hrange
  have hle : 511 ≤ 255 := hrange
  omega

end Dtu
