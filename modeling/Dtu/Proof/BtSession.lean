import Dtu.Impl.BtSession
import Dtu.Proof.BtComm

/-!
# The answers of the Bluetooth line

`bt_comm_thread` sends one text for each line that is not empty, in the order of the
lines (`btSession_answers`). A line that begins with `BL_` is a command: it hands out no data, and
its text does not begin with `BL_DEBUG_`. Any other line is data: its bytes, if it has any, are
handed to `debug_bt_push_to_fifo` once, its text begins with `BL_DEBUG_`, and it changes no
setting.
-/

namespace Dtu

open Program

/-! ## What a line does -/

/-- The text that a call sends. -/
def BtOp.text? : BtOp → Option (List Char)
  | .sendText text => some text
  | _ => none

def BtLineOp.text? : BtLineOp → Option (List Char)
  | .bt o => o.text?
  | .debug _ => none

/-- The data that a call hands to the data FIFO. -/
def BtLineOp.data? : BtLineOp → Option (List UInt8)
  | .debug (.debugBtPushToFifo data) => some data
  | _ => none

/-- A call that changes a setting or its file. -/
def BtLineOp.setting? : BtLineOp → Option BtOp
  | .bt (.loraCfgSet field value) => some (.loraCfgSet field value)
  | .bt .openTmp => some .openTmp
  | .bt (.writeTmp buf) => some (.writeTmp buf)
  | .bt .fsyncTmp => some .fsyncTmp
  | .bt .renameTmp => some .renameTmp
  | .bt (.setSendPath path) => some (.setSendPath path)
  | .bt .openPath => some .openPath
  | .bt (.writePath text) => some (.writePath text)
  | .bt (.setServerPort port) => some (.setServerPort port)
  | _ => none

/-- One text, about data. -/
def DebugText (texts : List (List Char)) : Prop := ∃ text, texts = [text] ∧ "BL_DEBUG_".toList <+: text

/-- One text, not about data. -/
def CommandText (texts : List (List Char)) : Prop := ∃ text, texts = [text] ∧ ¬"BL_DEBUG_".toList <+: text

/-- What a line of data does. -/
structure TakenAsData (line : List Char) (os : List BtLineOp) : Prop where
  text : DebugText (os.filterMap BtLineOp.text?)
  data : os.filterMap BtLineOp.data? = (debugParsePlainHex line debugBtMaxRawLen).toList
  setting : os.filterMap BtLineOp.setting? = []

/-- What a command does. -/
structure TakenAsCommand (os : List BtLineOp) : Prop where
  text : CommandText (os.filterMap BtLineOp.text?)
  data : os.filterMap BtLineOp.data? = []

/-- What a line does. -/
def LineAnswered (line : List Char) (os : List BtLineOp) : Prop :=
  if line = [] then os = [] else if "BL_".toList.isPrefixOf line then TakenAsCommand os else TakenAsData line os

/-! ## Commands -/

theorem puts_sendText {text : List Char} (h : ¬"BL_DEBUG_".toList <+: text) :
    Puts BtOp.text? (op (BtOp.sendText text) : BtProgram Unit) CommandText :=
  puts_op ⟨text, rfl, h⟩

theorem puts_btSendText {text : String} (h : ¬"BL_DEBUG_".toList <+: text.toList) :
    Puts BtOp.text? (btSendText text) CommandText :=
  puts_sendText h

theorem puts_loraCfgSavePersist : Puts BtOp.text? loraCfgSavePersist (· = []) := by
  refine puts_silent_bind rfl fun cfg => puts_silent_bind rfl fun opened => ?_
  refine puts_ite (fun _ => puts_pure rfl) fun _ => puts_silent_bind rfl fun w => ?_
  refine puts_ite (fun _ => puts_pure rfl) fun _ => puts_silent_bind rfl fun synced => ?_
  refine puts_ite (fun _ => puts_pure rfl) fun _ => puts_silent_bind rfl fun renamed => ?_
  exact puts_ite (fun _ => puts_pure rfl) fun _ => puts_pure rfl

theorem puts_btSaveSendPath (path : SendPath) : Puts BtOp.text? (btSaveSendPath path) (· = []) :=
  puts_silent_bind rfl fun _ =>
    puts_ite (fun _ => puts_pure rfl) fun _ => puts_silent_bind rfl fun _ => puts_pure rfl

theorem puts_btPathCommand (path : SendPath) {ack : String} (hack : ¬"BL_DEBUG_".toList <+: ack.toList) :
    Puts BtOp.text? (btPathCommand path ack) CommandText :=
  puts_silent_bind rfl fun _ => puts_bind (puts_btSaveSendPath path) fun _ => puts_btSendText hack

theorem puts_btLoraCommand (field : UInt8) (val : UInt32) {ack : String} (hack : ¬"BL_DEBUG_".toList <+: ack.toList) :
    Puts BtOp.text? (btLoraCommand field val ack) CommandText :=
  puts_silent_bind rfl fun _ => puts_bind puts_loraCfgSavePersist fun _ =>
    puts_ite (fun _ => puts_btSendText hack) fun _ => puts_btSendText (by decide)

theorem loraCfgMsg_char (cfg : LoRaPara) : (loraCfgMsg cfg)[3]? = some 'L' := rfl

theorem loraCfgMsg_command (cfg : LoRaPara) : ¬"BL_DEBUG_".toList <+: loraCfgMsg cfg := by
  rintro ⟨rest, hrest⟩
  have hchar := loraCfgMsg_char cfg
  rw [← hrest, List.getElem?_append_left (by decide)] at hchar
  exact absurd hchar (by decide)

theorem puts_btSendLoraCfg : Puts BtOp.text? btSendLoraCfg CommandText :=
  puts_silent_bind rfl fun cfg => puts_sendText (loraCfgMsg_command cfg)

theorem puts_btHandleSimpleCommand {cmd : List Char} (hcmd : cmd ≠ []) :
    Puts BtOp.text? (btHandleSimpleCommand cmd) CommandText := by
  have herr : Puts BtOp.text? (btSendText "BL_ACK_ERR\r\n") CommandText := puts_btSendText (by decide)
  unfold btHandleSimpleCommand
  refine puts_ite (fun h => absurd h hcmd) fun _ => ?_
  refine puts_ite (fun _ => puts_btPathCommand _ (by decide)) fun _ => ?_
  refine puts_ite (fun _ => puts_btPathCommand _ (by decide)) fun _ => ?_
  refine puts_ite (fun _ => puts_btPathCommand _ (by decide)) fun _ => ?_
  refine puts_ite (fun _ => puts_btPathCommand _ (by decide)) fun _ => ?_
  refine puts_ite (fun _ => puts_btPathCommand _ (by decide)) fun _ => ?_
  refine puts_ite (fun _ => ?_) fun _ => ?_
  · exact puts_silent_bind rfl fun _ =>
      puts_ite (fun _ => puts_btSendText (by decide)) fun _ => puts_btSendText (by decide)
  refine puts_ite (fun _ => puts_btSendLoraCfg) fun _ => ?_
  cases scanField "BL_ROOT_" cmd with
  | some val => exact puts_ite (fun _ => puts_btLoraCommand _ _ (by decide)) fun _ => herr
  | none =>
    cases scanField "BL_MESH_" cmd with
    | some val => exact puts_ite (fun _ => puts_btLoraCommand _ _ (by decide)) fun _ => herr
    | none =>
      cases scanField "BL_NET_" cmd with
      | some val => exact puts_btLoraCommand _ _ (by decide)
      | none =>
        cases scanField "BL_DEV_" cmd with
        | some val => exact puts_btLoraCommand _ _ (by decide)
        | none =>
          cases (Stdio.scanText "BL_4G_".toList cmd).bind Stdio.scanU with
          | some val => exact puts_ite (fun _ => puts_silent_bind rfl fun _ => puts_btSendText (by decide)) fun _ => herr
          | none => exact herr

/-- A function of `bluetooth.c` hands out no data. -/
theorem puts_ofBt {α : Type} (p : BtProgram α) : Puts BtLineOp.data? (ofBt p) (· = []) :=
  puts_embed fun _ _ _ => List.filterMap_eq_nil_iff.mpr fun _ _ => rfl

/-! ## Data -/

section Data

variable {τ : Type} {out : BtLineOp → Option τ}

/-- What the direct ways call is nothing that counts. -/
theorem puts_debugBtSend4gNow (hconn : out (.debug .egConnected) = none)
    (hsend : ∀ data, out (.debug (.egSendData data)) = none) (data : List UInt8) :
    Puts out (debugBtSend4gNow data) (· = []) := by
  refine puts_ite (fun _ => puts_pure rfl) fun _ => puts_silent_bind hconn fun connected => ?_
  refine puts_ite (fun _ => puts_pure rfl) fun _ => puts_silent_bind (hsend data) fun ret => ?_
  exact puts_ite (fun _ => puts_pure rfl) fun _ => puts_pure rfl

theorem puts_debugBtSendLora (hcfg : out (.bt .loraCfgGet) = none)
    (hsend : ∀ netid devid data, out (.debug (.loraSendPacket netid devid data)) = none) (data : List UInt8) :
    Puts out (debugBtSendLora data) (· = []) := by
  refine puts_silent_bind hcfg fun cfg => puts_ite (fun _ => puts_pure rfl) fun _ => ?_
  refine puts_ite (fun _ => puts_pure rfl) fun _ => puts_silent_bind (hsend _ _ data) fun ret => ?_
  exact puts_ite (fun _ => puts_pure rfl) fun _ => puts_pure rfl

/-- What a line of data puts out: all but its bytes and its text is nothing that counts. -/
theorem puts_debugBtHandleHexPayloadLine {T : List τ → Prop} {line : List Char} (hline : line ≠ [])
    (hcmd : ¬"BL_".toList.isPrefixOf line = true)
    (hnone : ∀ o, (∀ text, o ≠ .bt (.sendText text)) → (∀ data, o ≠ .debug (.debugBtPushToFifo data)) →
      BtLineOp.setting? o = none → out o = none)
    (herr : debugParsePlainHex line debugBtMaxRawLen = none →
      T (out (.bt (.sendText "BL_DEBUG_DATA_ERR\r\n".toList))).toList)
    (hack : ∀ payload bd flush eg lora, debugParsePlainHex line debugBtMaxRawLen = some payload →
      T ((out (.debug (.debugBtPushToFifo payload))).toList ++
        (out (.bt (.sendText (debugAck bd flush eg lora)))).toList)) :
    Puts out (BtLine.debugBtHandleHexPayloadLine line) T := by
  unfold BtLine.debugBtHandleHexPayloadLine
  refine puts_ite (fun h => absurd h hline) fun _ => puts_ite (fun h => absurd h hcmd) fun _ => ?_
  cases hparse : debugParsePlainHex line debugBtMaxRawLen with
  | none =>
    refine puts_op_bind fun _ => puts_pure ?_
    rw [List.append_nil]
    exact herr hparse
  | some payload =>
    refine puts_op_bind fun _ => ?_
    refine puts_silent_bind (hnone _ nofun nofun rfl) fun _ => puts_silent_bind (hnone _ nofun nofun rfl) fun bd => ?_
    refine puts_silent_bind (hnone _ nofun nofun rfl) fun flush => ?_
    refine puts_bind (puts_debugBtSend4gNow (hnone _ nofun nofun rfl) (fun _ => hnone _ nofun nofun rfl) payload)
      fun eg => ?_
    refine puts_bind (puts_debugBtSendLora (hnone _ nofun nofun rfl) (fun _ _ _ => hnone _ nofun nofun rfl) payload)
      fun lora => ?_
    refine puts_op_bind fun _ => puts_pure ?_
    rw [List.append_nil]
    exact hack payload bd flush eg lora hparse

end Data

theorem debugAck_prefix (bd flush eg lora : Int) : "BL_DEBUG_".toList <+: debugAck bd flush eg lora := by
  simp [debugAck]

theorem takenAsData {line : List Char} (hline : line ≠ []) (hcmd : ¬"BL_".toList.isPrefixOf line = true)
    {os : List BtLineOp} {handled : Bool} (h : Calls (BtLine.debugBtHandleHexPayloadLine line) os handled) :
    TakenAsData line os where
  text := by
    refine puts_debugBtHandleHexPayloadLine hline hcmd ?_ (fun _ => ⟨_, rfl, by decide⟩)
      (fun _ _ _ _ _ _ => ⟨_, rfl, debugAck_prefix _ _ _ _⟩) os handled h
    rintro ((_ | _ | _ | _ | _ | _ | _ | _ | _ | _ | _ | text) | o) htext _ _
    any_goals rfl
    exact absurd rfl (htext text)
  data := by
    refine puts_debugBtHandleHexPayloadLine (T := fun ds => ds = (debugParsePlainHex line debugBtMaxRawLen).toList)
      hline hcmd ?_ (fun hparse => by rw [hparse]; rfl) (fun payload _ _ _ _ hparse => by rw [hparse]; rfl) os handled h
    rintro (o | ⟨data⟩ | _ | _ | _ | _ | _ | _) _ hdata _
    any_goals rfl
    exact absurd rfl (hdata data)
  setting := puts_debugBtHandleHexPayloadLine (T := fun ops => ops = []) hline hcmd (fun _ _ _ hset => hset) (fun _ => rfl)
    (fun _ _ _ _ _ _ => rfl) os handled h

/-- It takes the line. -/
theorem returns_debugBtHandleHexPayloadLine {line : List Char} (hline : line ≠ [])
    (hcmd : ¬"BL_".toList.isPrefixOf line = true) : Returns (BtLine.debugBtHandleHexPayloadLine line) (· = true) := by
  rw [BtLine.debugBtHandleHexPayloadLine, if_neg hline, if_neg hcmd]
  cases debugParsePlainHex line debugBtMaxRawLen with
  | none => exact returns_bind fun _ => returns_pure rfl
  | some payload =>
    refine returns_bind fun _ => returns_bind fun _ => returns_bind fun _ => returns_bind fun _ => ?_
    exact returns_bind fun _ => returns_bind fun _ => returns_bind fun _ => returns_pure rfl

/-! ## Lines -/

theorem takenAsCommand {cmd : List Char} (hcmd : cmd ≠ []) {os : List BtLineOp}
    (h : Calls (ofBt (btHandleSimpleCommand cmd)) os ()) : TakenAsCommand os where
  text :=
    have hputs : Puts (fun o => BtLineOp.text? (.bt o)) (btHandleSimpleCommand cmd) CommandText :=
      puts_btHandleSimpleCommand hcmd
    puts_embed hputs os () h
  data := puts_ofBt _ os () h

/-- What `bt_comm_thread` does with a line. -/
theorem btCommLine_answered {line : List Char} {os : List BtLineOp} (h : Calls (btCommLine line) os ()) :
    LineAnswered line os := by
  obtain ⟨os₁, os₂, handled, rfl, h₁, h₂⟩ := ran_bind.mp h
  unfold LineAnswered
  split
  · rename_i hline
    subst hline
    -- The empty line is not taken, and it is no command.
    obtain ⟨rfl, rfl⟩ := ran_pure.mp (show Calls (pure false) os₁ handled from h₁)
    exact (ran_pure.mp (show Calls (pure ()) os₂ () from h₂)).1
  rename_i hline
  split
  · rename_i hcmd
    rw [BtLine.debugBtHandleHexPayloadLine, if_neg hline, if_pos hcmd] at h₁
    obtain ⟨rfl, rfl⟩ := ran_pure.mp h₁
    exact takenAsCommand hline h₂
  · rename_i hcmd
    obtain rfl : handled = true := returns_debugBtHandleHexPayloadLine hline hcmd os₁ handled h₁
    rw [(ran_pure.mp (show Calls (pure ()) os₂ () from h₂)).1, List.append_nil]
    exact takenAsData hline hcmd h₁

theorem btCommSession_answered {lines : List (List Char)} {os : List BtLineOp} (h : Calls (btCommSession lines) os ()) :
    ∃ oss, os = oss.flatten ∧ List.Forall₂ LineAnswered lines oss := by
  induction lines generalizing os with
  | nil => exact ⟨[], (ran_pure.mp h).1, .nil⟩
  | cons line lines ih =>
    obtain ⟨os₁, os₂, a, rfl, h₁, h₂⟩ := ran_bind.mp h
    obtain ⟨oss, rfl, hall⟩ := ih h₂
    exact ⟨os₁ :: oss, rfl, .cons (btCommLine_answered h₁) hall⟩

/-- In every session in which no line is dropped, however its bytes come in, the calls of
the thread are those for the lines of the stream, one line after the other. -/
theorem btSession_answers {chunks : List (List Char)} (hnul : ∀ chunk ∈ chunks, '\x00' ∉ chunk)
    {lines : List (List Char)} (hreads : btCommReads [] chunks = some lines) (hdropped : NoLineDropped [] chunks)
    {os : List BtLineOp} (h : Calls (btCommSession lines) os ()) :
    ∃ oss, os = oss.flatten ∧ List.Forall₂ LineAnswered (crlfLines chunks.flatten).1 oss := by
  have hlines := (btCommReads_eq_iff ⟨rfl, List.not_mem_nil, Nat.zero_le _⟩ hnul hreads).mpr hdropped
  rw [List.nil_append] at hlines
  exact hlines ▸ btCommSession_answered h

/-- Answers to calls. -/
def BtLineOp.answer : (o : BtLineOp) → o.Ans
  | .bt .loraCfgGet => myLoraConfig
  | .bt (.loraCfgSet _ _) => ()
  | .bt .openTmp => true
  | .bt (.writeTmp buf) => Written.mk buf.length buf.length
  | .bt .fsyncTmp => true
  | .bt .renameTmp => true
  | .bt (.setSendPath _) => ()
  | .bt .openPath => true
  | .bt (.writePath text) => text.length
  | .bt .egConnected => true
  | .bt (.setServerPort _) => ()
  | .bt (.sendText _) => ()
  | .debug (.debugBtPushToFifo _) => (0 : Int)
  | .debug .notifyDataWakeup => ()
  | .debug (.debugBtBdEnqueue _) => (0 : Int)
  | .debug .debugBtBdFlushOnce => (1 : Int)
  | .debug .egConnected => true
  | .debug (.egSendData _) => (0 : Int)
  | .debug (.loraSendPacket _ _ _) => (0 : Int)

/-- A command and a line of data. -/
def twoLines : List (List Char) := ["BL_NET_05".toList, "01 02".toList]

/-- They come in with three reads. -/
def threeReads : List (List Char) := ["BL_NE".toList, "T_05\r\n01 ".toList, "02\r\n".toList]

theorem btSession_answers_three :
    ∃ oss, (runWith (fun o _ => o) BtLineOp.answer (btCommSession twoLines)).1 = oss.flatten ∧
      List.Forall₂ LineAnswered (crlfLines threeReads.flatten).1 oss :=
  have hnul : ∀ chunk ∈ threeReads, '\x00' ∉ chunk := by decide
  have hreads : btCommReads [] threeReads = some twoLines := by decide
  have hdropped : NoLineDropped [] threeReads :=
    (btCommReads_eq_iff ⟨rfl, List.not_mem_nil, Nat.zero_le _⟩ hnul hreads).mp (by decide)
  btSession_answers hnul hreads hdropped (ran_runWith _ _)

end Dtu
