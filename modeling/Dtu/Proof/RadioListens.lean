import Dtu.Proof.Radio

/-!
# The LLCC68 listens

Of the commands that set the mode of the chip, the last one of each call is
`SetRx(0xFFFFFF)`, unless a `CheckBusy` of the call has given up (`program_moves`). So in any
order of the threads, with `RxInit` outside of `g_lora_lock` too, the chip listens but while a call
goes on that has given it the last of these commands, or behind one in which `CheckBusy` gave
up (`radio_listens`).
-/

namespace Dtu

open Program

/-! ## Modes -/

/-- `SetStandby`, `SetRx` and `SetTx`. -/
def isMode (tx : List UInt8) : Bool := tx.head? = some 0x80 ∨ tx.head? = some 0x82 ∨ tx.head? = some 0x83

/-- `SetRx(0xFFFFFF)`: the chip receives until the next command of these. -/
def setRxContinuous : List UInt8 := [0x82, 0xFF, 0xFF, 0xFF]

/-- The mode after the bytes `tx`. -/
def modeAfter (tx : List UInt8) (mode : Option (List UInt8)) : Option (List UInt8) := if isMode tx then some tx else mode

/-- What a call has done: its last command for a mode, the readings of BUSY in a row that
were high, and whether `CheckBusy` has given up. -/
@[ext] structure CallView where
  mode : Option (List UInt8)
  highs : Nat
  gaveUp : Bool

/-- At the begin of a call. -/
def CallView.init : CallView := ⟨none, 0, false⟩

/-- After an operation. -/
def CallView.next (v : CallView) : (o : RadioOp) → o.Ans → CallView
  | .busy, true =>
    if v.highs + 1 = 100 then { v with highs := 0, gaveUp := true } else { v with highs := v.highs + 1 }
  | .spi tx, _ => { v with mode := modeAfter tx v.mode, highs := 0 }
  | _, _ => { v with highs := 0 }

/-! ## Programs -/

def viewEffect (o : RadioOp) (v : CallView) (a : o.Ans) : Option CallView := some (v.next o a)

/-- A wait for BUSY has given up, or none is under way and the mode has `M`. -/
def CallView.Is (v : CallView) (M : Option (List UInt8) → Prop) : Prop := v.gaveUp = true ∨ v.highs = 0 ∧ M v.mode

/-- A program that leads from a mode with `M` to one with `N`. -/
def Moves {α : Type} (M : Option (List UInt8) → Prop) (p : RadioProgram α) (N : α → Option (List UInt8) → Prop) : Prop :=
  ∀ v : CallView, v.Is M → Wp viewEffect (fun _ => True) p (fun a v' => v'.Is (N a)) v

variable {α β : Type} {p q : RadioProgram α} {M M₁ : Option (List UInt8) → Prop} {N : α → Option (List UInt8) → Prop}

theorem CallView.gaveUp_next {v : CallView} (h : v.gaveUp = true) (o : RadioOp) (a : o.Ans) :
    (v.next o a).gaveUp = true := by
  cases o with
  | busy =>
    cases a with
    | false => exact h
    | true =>
      rw [next]
      split
      · rfl
      · exact h
  | dio1 => exact h
  | spi tx => exact h
  | lock => exact h
  | unlock => exact h

/-- Behind a wait that has given up. -/
theorem wp_gaveUp {v : CallView} (h : v.gaveUp = true) :
    Wp viewEffect (fun _ => True) p (fun a v' => v'.Is (N a)) v := by
  induction p generalizing v with
  | ret a => exact ⟨trivial, .inl h⟩
  | call o next ih =>
    refine ⟨trivial, fun a v' hv' => ?_⟩
    cases hv'
    exact ih a (CallView.gaveUp_next h o a)

theorem moves_of (h : ∀ v : CallView, v.highs = 0 → M v.mode →
      Wp viewEffect (fun _ => True) p (fun a v' => v'.Is (N a)) v) : Moves M p N := by
  rintro v (hgaveUp | ⟨hhighs, hmode⟩)
  · exact wp_gaveUp hgaveUp
  · exact h v hhighs hmode

theorem moves_pure {a : α} (h : ∀ m, M m → N a m) : Moves M (pure a : RadioProgram α) N :=
  moves_of fun v hhighs hmode => ⟨trivial, .inr ⟨hhighs, h v.mode hmode⟩⟩

theorem Moves.bind {f : α → RadioProgram β} {P : β → Option (List UInt8) → Prop} (hp : Moves M p N)
    (hf : ∀ a, Moves (N a) (f a) P) : Moves M (p >>= f) P :=
  fun v hv => wp_bind.mpr ((hp v hv).mono fun a v' _ hv' => hf a v' hv')

theorem moves_ite {c : Prop} [Decidable c] (hp : c → Moves M p N) (hq : ¬c → Moves M q N) :
    Moves M (if c then p else q) N := by
  split
  · exact hp ‹_›
  · exact hq ‹_›

/-- An operation that is no reading of BUSY. -/
theorem moves_op {o : RadioOp} {N : o.Ans → Option (List UInt8) → Prop}
    (h : ∀ (v : CallView) a, M v.mode → (v.next o a).highs = 0 ∧ N a (v.next o a).mode) : Moves M (op o) N :=
  moves_of fun v _ hmode => wp_op.mpr ⟨trivial, fun a v' hv' => by
    cases hv'
    exact ⟨trivial, .inr (h v a hmode)⟩⟩

theorem moves_dio1 : Moves M (op RadioOp.dio1) fun _ => M := moves_op fun _ _ hmode => ⟨rfl, hmode⟩

theorem moves_lock : Moves M (op RadioOp.lock) fun _ => M := moves_op fun _ _ hmode => ⟨rfl, hmode⟩

theorem moves_unlock : Moves M (op RadioOp.unlock) fun _ => M := moves_op fun _ _ hmode => ⟨rfl, hmode⟩

theorem moves_spi {tx : List UInt8} (h : ∀ m, M m → M₁ (modeAfter tx m)) : Moves M (op (RadioOp.spi tx)) fun _ => M₁ :=
  moves_op fun v _ hmode => ⟨rfl, h v.mode hmode⟩

/-- The loop of `CheckBusy`, after high readings. -/
theorem wp_checkBusy {timeoutMs : Nat} {v : CallView} (hhighs : v.highs + timeoutMs = 100) (hmode : M v.mode) :
    timeoutMs ≠ 0 →
      Wp viewEffect (fun _ => True) (checkBusy timeoutMs) (fun ret v' => v'.Is fun m => ret = 0 ∧ M m) v := by
  induction timeoutMs generalizing v with
  | zero => exact fun h => absurd rfl h
  | succ timeoutMs ih =>
    refine fun _ => wp_op_bind.mpr ⟨trivial, fun busy v' hv' => ?_⟩
    cases hv'
    cases busy with
    | false => exact ⟨trivial, .inr ⟨rfl, rfl, hmode⟩⟩
    | true =>
      by_cases hlast : v.highs + 1 = 100
      · refine wp_gaveUp ?_
        rw [CallView.next, if_pos hlast]
      · rw [CallView.next, if_neg hlast]
        exact ih (v := { v with highs := v.highs + 1 }) (by simp only; omega) hmode (by omega)

/-- It returns 0 or gives up. -/
theorem moves_checkBusy : Moves M (checkBusy 100) fun ret m => ret = 0 ∧ M m :=
  moves_of fun v hhighs hmode => wp_checkBusy (by rw [hhighs]) hmode (by decide)

/-- What follows `CheckBusy`. -/
theorem moves_ready {f : Int → RadioProgram α} (h : Moves M (f 0) N) : Moves M (checkBusy 100 >>= f) N := by
  refine moves_checkBusy.bind fun ret => moves_of fun v hhighs hmode => ?_
  obtain ⟨rfl, hmode⟩ := hmode
  exact h v (.inr ⟨hhighs, hmode⟩)

/-- A command; `lora_write_cmd` refuses a long one. -/
theorem moves_command {opcode : UInt8} {params : List UInt8} (h : ∀ m, M m → M₁ (modeAfter (opcode :: params) m))
    (hlong : 16 < params.length + 1 → ∀ m, M m → M₁ m) : Moves M (command opcode params) fun _ => M₁ := by
  refine moves_ready ?_
  rw [if_neg (by decide)]
  refine Moves.bind (N := fun _ => M₁) ?_ fun _ => moves_pure fun _ => id
  refine moves_ite (fun hlen => moves_pure (hlong hlen)) fun _ => moves_ready ?_
  rw [if_neg (by decide)]
  exact (moves_spi h).bind fun _ => moves_pure fun _ => id

/-- A function that keeps what the mode has. -/
abbrev KeepsMode (M : Option (List UInt8) → Prop) (p : RadioProgram α) : Prop := Moves M p fun _ => M

theorem modeAfter_eq {tx : List UInt8} (h : isMode tx = false) (m : Option (List UInt8)) : modeAfter tx m = m := by
  rw [modeAfter, h]
  rfl

/-- A command for no mode. -/
theorem keeps_command {opcode : UInt8} {params : List UInt8} (h : isMode (opcode :: params) = false) :
    KeepsMode M (command opcode params) :=
  moves_command (fun m hm => by rwa [modeAfter_eq h]) fun _ _ => id

theorem keeps_spi {tx : List UInt8} (h : isMode tx = false) : KeepsMode M (op (RadioOp.spi tx)) :=
  moves_spi fun m hm => by rwa [modeAfter_eq h]

theorem keeps_clearIrqStatus (irq : UInt16) : KeepsMode M (clearIrqStatus irq) :=
  keeps_command rfl

theorem keeps_getIrqStatus : KeepsMode M getIrqStatus :=
  moves_ready ((keeps_spi rfl).bind fun _ => moves_pure fun _ => id)

theorem keeps_getRxBufferStatus : KeepsMode M getRxBufferStatus :=
  moves_ready ((keeps_spi rfl).bind fun _ => moves_pure fun _ => id)

theorem keeps_readBuffer (offset length : UInt8) : KeepsMode M (readBuffer offset length) :=
  moves_ite (fun _ => moves_pure fun _ => id) fun _ => moves_ite (fun _ => moves_pure fun _ => id) fun _ =>
    moves_ready ((keeps_spi rfl).bind fun _ => moves_pure fun _ => id)

theorem keeps_writeBuffer (offset : UInt8) (data : List UInt8) : KeepsMode M (writeBuffer offset data) :=
  moves_ite (fun _ => moves_pure fun _ => id) fun _ => moves_ite (fun _ => moves_pure fun _ => id) fun _ =>
    moves_ready ((keeps_spi rfl).bind fun _ => moves_pure fun _ => id)

theorem keeps_waitForIrqTxDone (timeoutMs : Nat) : KeepsMode M (waitForIrqTxDone timeoutMs) := by
  induction timeoutMs with
  | zero =>
    exact keeps_getIrqStatus.bind fun _ => moves_dio1.bind fun _ => (keeps_clearIrqStatus _).bind fun _ =>
      moves_pure fun _ => id
  | succ timeoutMs ih =>
    refine moves_dio1.bind fun dio1 => moves_ite (fun _ => keeps_getIrqStatus.bind fun irq => ?_) fun _ => ih
    refine moves_ite (fun _ => (keeps_clearIrqStatus _).bind fun _ => moves_pure fun _ => id) fun _ => ?_
    exact moves_ite (fun _ => (keeps_clearIrqStatus irq).bind fun _ => ih) fun _ => ih

/-- The mode is any. -/
def AnyMode (_ : Option (List UInt8)) : Prop := True

theorem moves_any (opcode : UInt8) (params : List UInt8) : KeepsMode AnyMode (command opcode params) :=
  moves_command (fun _ _ => trivial) fun _ _ => id

/-- `RxInit`, from any mode. -/
theorem moves_rxInit (payloadSize : UInt8) :
    Moves AnyMode (rxInit payloadSize) fun _ m => m = some setRxContinuous := by
  refine (moves_any _ _).bind fun _ => (moves_any _ _).bind fun _ => ?_
  refine (moves_any _ _).bind fun _ => (keeps_clearIrqStatus _).bind fun _ => ?_
  refine (moves_any _ _).bind fun _ => ?_
  exact moves_command (fun _ _ => rfl) fun hlong => absurd hlong (by decide)

/-- The mode of a call that has returned. -/
def EndMode (m : Option (List UInt8)) : Prop := m = none ∨ m = some setRxContinuous

/-- `RxInit` at the end of a call. -/
theorem moves_end (payloadSize : UInt8) (a : α) :
    Moves AnyMode (do rxInit payloadSize; op RadioOp.unlock; return a) fun _ => EndMode :=
  (moves_rxInit payloadSize).bind fun _ => moves_unlock.bind fun _ => moves_pure fun _ => .inr

theorem moves_loraSend (payloadSize : UInt8) (payload : List UInt8) :
    Moves (· = none) (loraSend payloadSize payload) fun _ => EndMode := by
  refine moves_ite (fun _ => moves_pure fun _ => .inl) fun _ => ?_
  refine Moves.bind (N := fun _ => AnyMode) (moves_op fun _ _ _ => ⟨rfl, trivial⟩) fun _ => ?_
  refine (moves_any _ _).bind fun _ => (moves_any _ _).bind fun _ => ?_
  refine (keeps_writeBuffer 0 payload).bind fun _ => (moves_any _ _).bind fun _ => ?_
  refine (keeps_clearIrqStatus _).bind fun _ => (moves_any _ _).bind fun _ => ?_
  refine (moves_any _ _).bind fun _ => (keeps_waitForIrqTxDone 3000).bind fun ok => ?_
  exact moves_end payloadSize _

theorem moves_loraRecv (payloadSize : UInt8) (stale : List UInt8) :
    Moves (· = none) (loraRecv payloadSize stale) fun _ => EndMode := by
  have hunlock : ∀ r : Int × List UInt8, Moves (· = none) (do op RadioOp.unlock; return r) fun _ => EndMode := fun r =>
    moves_unlock.bind fun _ => moves_pure fun _ => .inl
  have hend : ∀ r : Int × List UInt8,
      Moves (· = none) (do clearIrqStatus rxDoneIrq; rxInit payloadSize; op RadioOp.unlock; return r) fun _ => EndMode :=
    fun r => (keeps_clearIrqStatus rxDoneIrq).bind fun _ v hv =>
      moves_end payloadSize r v (hv.imp_right fun h => ⟨h.1, trivial⟩)
  refine moves_lock.bind fun _ => moves_dio1.bind fun dio1 => moves_ite (fun _ => hunlock _) fun _ => ?_
  refine keeps_getIrqStatus.bind fun irqStatus => ?_
  refine moves_ite (fun _ => (keeps_clearIrqStatus irqStatus).bind fun _ => hunlock _) fun _ => ?_
  refine keeps_getRxBufferStatus.bind fun (packetSize, bufOffset) => moves_ite (fun _ => hend _) fun _ => ?_
  exact (keeps_readBuffer bufOffset packetSize).bind fun data => hend _

/-- Every call. -/
theorem program_moves (payloadSize : UInt8) (call : LoraCall) :
    Moves (· = none) (call.program payloadSize) fun _ => EndMode := by
  cases call with
  | rxInit =>
    refine Moves.bind (N := fun _ m => m = some setRxContinuous) (fun v hv => ?_) fun _ => moves_pure fun _ => .inr
    exact moves_rxInit payloadSize v (hv.imp_right fun h => ⟨h.1, trivial⟩)
  | recvPacket stale => exact moves_loraRecv payloadSize stale
  | send payload => exact (moves_loraSend payloadSize payload).bind fun _ => moves_pure fun _ => id

/-! ## The threads -/

/-- The threads, with the readings of BUSY in a row that were high for each, and the calls in
which `CheckBusy` has given up. -/
structure WatchedRadio where
  radio : Radio
  highs : LoraThread → Nat
  gaveUp : List (LoraThread × Nat)

def WatchedRadio.boot : WatchedRadio := ⟨.boot, fun _ => 0, []⟩

/-- The next operation is a reading of BUSY. -/
def RadioThread.readsBusy (th : RadioThread) : Bool :=
  match th.program with
  | .call .busy _ => true
  | _ => false

/-- The high readings in a row after an answer. -/
def WatchedRadio.highsAfter (s : WatchedRadio) (t : LoraThread) : RadioAns → Nat
  | .level true => if (s.radio.threads t).readsBusy then s.highs t + 1 else 0
  | _ => 0

/-- The 100th of them ends the loop of `CheckBusy`. -/
def WatchedRadio.watch (s : WatchedRadio) (radio : Radio) : RadioAction → WatchedRadio
  | .begin t _ => { s with radio := radio, highs := Function.update s.highs t 0 }
  | .answer t ans =>
    if s.highsAfter t ans = 100 then
      { radio := radio
        highs := Function.update s.highs t 0
        gaveUp := (t, (s.radio.threads t).number) :: s.gaveUp }
    else { s with radio := radio, highs := Function.update s.highs t (s.highsAfter t ans) }

@[simp] theorem watch_radio (s : WatchedRadio) (radio : Radio) (a : RadioAction) : (s.watch radio a).radio = radio := by
  cases a with
  | begin t call => rfl
  | answer t ans =>
    rw [WatchedRadio.watch]
    split <;> rfl

def WatchedRadio.step (payloadSize : UInt8) (s : WatchedRadio) (a : RadioAction) : Option (WatchedRadio × Unit) :=
  (s.radio.step payloadSize a).map fun (radio, _) => (s.watch radio a, ())

/-- The last command for a mode, with its call. -/
def Radio.modeCommand (s : Radio) : Option ((LoraThread × Nat) × List UInt8) := s.trace.find? fun c => isMode c.2

/-- A call goes on. -/
def Radio.GoesOn (s : Radio) (call : LoraThread × Nat) : Prop :=
  (s.threads call.1).busy = true ∧ (s.threads call.1).number = call.2

instance (s : Radio) (call : LoraThread × Nat) : Decidable (s.GoesOn call) := inferInstanceAs (Decidable (_ ∧ _))

/-- What a call has done. -/
def WatchedRadio.view (s : WatchedRadio) (call : LoraThread × Nat) : CallView where
  mode := (s.radio.trace.find? fun c => c.1 = call ∧ isMode c.2).map Prod.snd
  highs := s.highs call.1
  gaveUp := call ∈ s.gaveUp

/-- The last call of each thread ends with such a mode, and each call before it has. -/
structure WatchedRadio.Inv (s : WatchedRadio) : Prop where
  goesOn : ∀ t, Wp viewEffect (fun _ => True) (s.radio.threads t).program (fun _ v => v.Is EndMode)
    (s.view (t, (s.radio.threads t).number))
  number : ∀ c ∈ s.radio.trace, c.1.2 ≤ (s.radio.threads c.1.1).number
  numberGaveUp : ∀ call ∈ s.gaveUp, call.2 ≤ (s.radio.threads call.1).number
  ended : ∀ t, ∀ n < (s.radio.threads t).number, (s.view (t, n)).gaveUp = true ∨ EndMode (s.view (t, n)).mode

variable {s : WatchedRadio} {t : LoraThread}

theorem WatchedRadio.Inv.boot : WatchedRadio.Inv .boot where
  goesOn := fun _ => ⟨trivial, .inr ⟨rfl, .inl rfl⟩⟩
  number := nofun
  numberGaveUp := nofun
  ended := nofun

/-- What a call that has not begun has done. -/
theorem WatchedRadio.Inv.view_new (h : s.Inv) {n : Nat} (hn : (s.radio.threads t).number < n) :
    (s.view (t, n)).mode = none ∧ (s.view (t, n)).gaveUp = false := by
  constructor
  · refine Option.map_eq_none_iff.mpr (List.find?_eq_none.mpr fun c hc heq => ?_)
    obtain ⟨hcall, -⟩ := of_decide_eq_true heq
    have hle := h.number c hc
    rw [hcall] at hle
    exact absurd hle (Nat.not_le.mpr hn)
  · exact decide_eq_false fun hmem => absurd (h.numberGaveUp _ hmem) (Nat.not_le.mpr hn)

/-- The begin of a call. -/
theorem WatchedRadio.Inv.begin (h : s.Inv) {r : Int × List UInt8} (hret : (s.radio.threads t).program = .ret r)
    (payloadSize : UInt8) (call : LoraCall) :
    (s.watch { s.radio with threads := Function.update s.radio.threads t ((s.radio.threads t).begin payloadSize call) }
      (.begin t call)).Inv where
  goesOn := by
    intro u
    by_cases hu : u = t
    · subst hu
      simp only [WatchedRadio.watch, Function.update_self]
      refine program_moves payloadSize call _ (.inr ⟨Function.update_self .., ?_⟩)
      exact (h.view_new (Nat.lt_succ_self _)).1
    · simp only [WatchedRadio.watch, Function.update_of_ne hu]
      have hgoes := h.goesOn u
      simp only [WatchedRadio.view] at hgoes ⊢
      rwa [Function.update_of_ne hu]
  number := fun c hc => Nat.le_trans (h.number c hc) (number_update s.radio.threads (Nat.le_succ _) c.1.1)
  numberGaveUp := fun c hc => Nat.le_trans (h.numberGaveUp c hc) (number_update s.radio.threads (Nat.le_succ _) c.1)
  ended := by
    intro u n hn
    by_cases hu : u = t
    · subst hu
      simp only [WatchedRadio.watch, Function.update_self] at hn
      rcases Nat.lt_succ_iff_lt_or_eq.mp hn with hlt | rfl
      · exact h.ended u n hlt
      · -- The call that has returned.
        have hgoes := h.goesOn u
        rw [hret] at hgoes
        exact hgoes.2.imp_right And.right
    · simp only [WatchedRadio.watch, Function.update_of_ne hu] at hn
      exact h.ended u n hn

/-- The command that an operation gives the chip. -/
def RadioOp.traced (call : LoraThread × Nat) : RadioOp → List ((LoraThread × Nat) × List UInt8)
  | .spi tx => [(call, tx)]
  | _ => []

/-- What an operation does to the trace. -/
theorem operate_eq {r s₁ : Radio} {o : RadioOp} (hop : r.operate t o = some s₁) :
    s₁.threads = r.threads ∧ s₁.trace = o.traced (t, (r.threads t).number) ++ r.trace := by
  cases o with
  | lock =>
    simp only [Radio.operate, Option.ite_none_right_eq_some, Option.some.injEq] at hop
    obtain ⟨-, rfl⟩ := hop
    exact ⟨rfl, rfl⟩
  | unlock =>
    simp only [Radio.operate, Option.ite_none_right_eq_some, Option.some.injEq] at hop
    obtain ⟨-, rfl⟩ := hop
    exact ⟨rfl, rfl⟩
  | busy =>
    cases hop
    exact ⟨rfl, rfl⟩
  | dio1 =>
    cases hop
    exact ⟨rfl, rfl⟩
  | spi tx =>
    cases hop
    exact ⟨rfl, rfl⟩

section Answer

variable {ans : RadioAns} {o : RadioOp} {next : o.Ans → RadioProgram (Int × List UInt8)} {a : o.Ans} {s₁ : Radio}

/-- The view of the call of a thread after an operation of it. -/
theorem view_answer (hcall : (s.radio.threads t).program = .call o next) (hans : o.answer ans = some a)
    (hop : s.radio.operate t o = some s₁) (threads : LoraThread → RadioThread) :
    (s.watch { s₁ with threads := threads } (.answer t ans)).view (t, (s.radio.threads t).number) =
      (s.view (t, (s.radio.threads t).number)).next o a := by
  have htrace := (operate_eq hop).2
  cases o with
  | busy =>
    have hbusy : (s.radio.threads t).readsBusy = true := by rw [RadioThread.readsBusy, hcall]
    cases ans with
    | level high =>
      cases hans
      cases a with
      | false =>
        simp [WatchedRadio.watch, WatchedRadio.highsAfter, WatchedRadio.view, CallView.next, htrace, RadioOp.traced]
      | true =>
        by_cases hlast : s.highs t + 1 = 100
        · simp [WatchedRadio.watch, WatchedRadio.highsAfter, WatchedRadio.view, CallView.next, htrace, hbusy, hlast,
            RadioOp.traced]
        · simp [WatchedRadio.watch, WatchedRadio.highsAfter, WatchedRadio.view, CallView.next, htrace, hbusy, hlast,
            RadioOp.traced]
    | bytes rx => cases hans
    | done => cases hans
  | dio1 =>
    have hbusy : (s.radio.threads t).readsBusy = false := by rw [RadioThread.readsBusy, hcall]
    cases ans with
    | level high =>
      cases hans
      cases a <;> simp [WatchedRadio.watch, WatchedRadio.highsAfter, WatchedRadio.view, CallView.next, htrace, hbusy,
        RadioOp.traced]
    | bytes rx => cases hans
    | done => cases hans
  | spi tx =>
    cases ans with
    | bytes rx =>
      simp only [WatchedRadio.watch, WatchedRadio.highsAfter, WatchedRadio.view, CallView.next, htrace, modeAfter,
        RadioOp.traced]
      cases hmode : isMode tx <;> simp [hmode]
    | level high => cases hans
    | done => cases hans
  | lock =>
    cases ans with
    | done => simp [WatchedRadio.watch, WatchedRadio.highsAfter, WatchedRadio.view, CallView.next, htrace, RadioOp.traced]
    | level high => cases hans
    | bytes rx => cases hans
  | unlock =>
    cases ans with
    | done => simp [WatchedRadio.watch, WatchedRadio.highsAfter, WatchedRadio.view, CallView.next, htrace, RadioOp.traced]
    | level high => cases hans
    | bytes rx => cases hans

/-- The view of another call. -/
theorem view_answer_of_ne (ans : RadioAns) (hop : s.radio.operate t o = some s₁) (threads : LoraThread → RadioThread)
    {call : LoraThread × Nat} (hne : call ≠ (t, (s.radio.threads t).number)) :
    ((s.watch { s₁ with threads := threads } (.answer t ans)).view call).mode = (s.view call).mode ∧
      ((s.watch { s₁ with threads := threads } (.answer t ans)).view call).gaveUp = (s.view call).gaveUp := by
  have htrace := (operate_eq hop).2
  have hgaveUp : call ∈ (s.watch { s₁ with threads := threads } (.answer t ans)).gaveUp ↔ call ∈ s.gaveUp := by
    rw [WatchedRadio.watch]
    split
    · rw [List.mem_cons]
      exact or_iff_right hne
    · exact Iff.rfl
  refine ⟨?_, decide_eq_decide.mpr hgaveUp⟩
  simp only [WatchedRadio.view, watch_radio, htrace]
  cases o with
  | spi tx => simp [RadioOp.traced, hne.symm]
  | busy => rfl
  | dio1 => rfl
  | lock => rfl
  | unlock => rfl

/-- The view of a call of another thread. -/
theorem view_answer_other (ans : RadioAns) (hop : s.radio.operate t o = some s₁) (threads : LoraThread → RadioThread) {u : LoraThread}
    (hu : u ≠ t) (n : Nat) :
    (s.watch { s₁ with threads := threads } (.answer t ans)).view (u, n) = s.view (u, n) := by
  have hne : (u, n) ≠ (t, (s.radio.threads t).number) := fun heq => hu (congrArg Prod.fst heq)
  obtain ⟨hmode, hgaveUp⟩ := view_answer_of_ne ans hop threads hne
  refine CallView.ext hmode ?_ hgaveUp
  simp only [WatchedRadio.view, WatchedRadio.watch]
  split <;> exact Function.update_of_ne hu _ _

/-- An operation of a thread. -/
theorem WatchedRadio.Inv.answer (h : s.Inv) (hcall : (s.radio.threads t).program = .call o next)
    (hans : o.answer ans = some a) (hop : s.radio.operate t o = some s₁) :
    (s.watch { s₁ with threads := Function.update s.radio.threads t ((s.radio.threads t).goOn o (next a)) }
      (.answer t ans)).Inv := by
  have hnumber : ∀ u, (Function.update s.radio.threads t ((s.radio.threads t).goOn o (next a)) u).number =
      (s.radio.threads u).number := fun u => by
    by_cases hu : u = t
    · subst hu
      rw [Function.update_self]
      rfl
    · rw [Function.update_of_ne hu]
  constructor
  case goesOn =>
    intro u
    simp only [watch_radio, hnumber]
    by_cases hu : u = t
    · subst hu
      have hgoes := h.goesOn u
      rw [hcall] at hgoes
      rw [view_answer hcall hans hop, Function.update_self]
      exact hgoes.2 a _ rfl
    · rw [view_answer_other ans hop _ hu, Function.update_of_ne hu]
      exact h.goesOn u
  case number =>
    simp only [watch_radio, hnumber, (operate_eq hop).2]
    intro c hc
    rcases List.mem_append.mp hc with hnew | hold
    · cases o with
      | spi tx =>
        obtain rfl := List.mem_singleton.mp hnew
        exact Nat.le_refl _
      | busy => cases hnew
      | dio1 => cases hnew
      | lock => cases hnew
      | unlock => cases hnew
    · exact h.number c hold
  case numberGaveUp =>
    simp only [watch_radio, hnumber]
    intro call hmem
    rw [WatchedRadio.watch] at hmem
    split at hmem
    · rcases List.mem_cons.mp hmem with rfl | hold
      · exact Nat.le_refl _
      · exact h.numberGaveUp call hold
    · exact h.numberGaveUp call hmem
  case ended =>
    simp only [watch_radio, hnumber]
    intro u n hn
    have hne : (u, n) ≠ (t, (s.radio.threads t).number) := fun heq => by
      obtain ⟨rfl, rfl⟩ := Prod.mk.inj heq
      exact Nat.lt_irrefl _ hn
    obtain ⟨hmode, hgaveUp⟩ := view_answer_of_ne ans hop
      (Function.update s.radio.threads t ((s.radio.threads t).goOn o (next a))) hne
    rw [hmode, hgaveUp]
    exact h.ended u n hn

end Answer

/-- Every step keeps the invariant. -/
theorem WatchedRadio.Inv.step (h : s.Inv) {payloadSize : UInt8} {a : RadioAction} {s' : WatchedRadio}
    (hs : s.step payloadSize a = some (s', ())) : s'.Inv := by
  obtain ⟨⟨radio, _⟩, hradio, heq⟩ := Option.map_eq_some_iff.mp hs
  cases heq
  cases a with
  | begin t call =>
    simp only [Radio.step] at hradio
    split at hradio
    · rename_i r hret
      simp only [Option.ite_none_right_eq_some, Option.some.injEq, Prod.mk.injEq, and_true] at hradio
      obtain ⟨-, rfl⟩ := hradio
      exact h.begin hret payloadSize call
    · cases hradio
  | answer t ans =>
    simp only [Radio.step] at hradio
    split at hradio
    · cases hradio
    rename_i o next hcall
    obtain ⟨a, hans, hradio⟩ := Option.bind_eq_some_iff.mp hradio
    obtain ⟨s₁, hop, heq⟩ := Option.map_eq_some_iff.mp hradio
    cases heq
    exact h.answer hcall hans hop

/-- The last command for a mode is the last one of its call. -/
theorem view_mode {c : (LoraThread × Nat) × List UInt8} (hc : s.radio.modeCommand = some c) :
    c ∈ s.radio.trace ∧ (s.view c.1).mode = some c.2 := by
  refine ⟨List.mem_of_find?_eq_some hc, ?_⟩
  obtain ⟨hmode, before, after, htrace, hbefore⟩ := List.find?_eq_some_iff_append.mp hc
  have hfind : (before ++ c :: after).find? (fun d => d.1 = c.1 ∧ isMode d.2) = some c := by
    refine List.find?_eq_some_iff_append.mpr ⟨by simpa using hmode, before, after, rfl, fun d hd => ?_⟩
    have hno : isMode d.2 = false := by simpa using hbefore d hd
    simp [hno]
  rw [WatchedRadio.view, htrace, hfind]
  rfl

/-- In every order of the threads, the last command for a mode is `SetRx(0xFFFFFF)`, or its call
goes on, or `CheckBusy` has given up in it. -/
theorem radio_listens (payloadSize : UInt8) (h : Runs (WatchedRadio.step payloadSize) (fun _ _ => True) .boot s)
    {c : (LoraThread × Nat) × List UInt8} (hc : s.radio.modeCommand = some c) :
    c.2 = setRxContinuous ∨ s.radio.GoesOn c.1 ∨ c.1 ∈ s.gaveUp := by
  have hinv : s.Inv := h.invariant .boot fun _ _ _ _ hinv _ hs => hinv.step hs
  obtain ⟨hmem, hmode⟩ := view_mode hc
  have hends : (s.view c.1).gaveUp = true ∨ EndMode (s.view c.1).mode → c.2 = setRxContinuous ∨ c.1 ∈ s.gaveUp := by
    rintro (hgaveUp | hnone | hrx)
    · exact .inr (of_decide_eq_true hgaveUp)
    · exact absurd (hmode.symm.trans hnone) nofun
    · exact .inl (Option.some.inj (hmode.symm.trans hrx))
  rcases Nat.lt_or_eq_of_le (hinv.number c hmem) with hlt | heq
  · exact (hends (hinv.ended c.1.1 c.1.2 hlt)).imp_right .inr
  · have hgoes := hinv.goesOn c.1.1
    rw [← heq] at hgoes
    cases hprogram : (s.radio.threads c.1.1).program with
    | ret r =>
      rw [hprogram] at hgoes
      exact (hends (hgoes.2.imp_right And.right)).imp_right .inr
    | call o next => exact .inr (.inl ⟨busy_of_call hprogram, heq.symm⟩)

/-- `RxInit` of `lora_receive_thread`, where BUSY stays high before `SetRx`. -/
def deafRun : List RadioAction :=
  .begin .receive .rxInit :: (List.replicate 5 (ready .receive)).flatten ++
    List.replicate 100 (.answer .receive (.level true))

/-- The chip is left in standby. -/
theorem radio_listens_deaf :
    ∃ s c, runList (WatchedRadio.step 64) (fun _ _ => true) .boot deafRun = some s ∧ s.radio.modeCommand = some c ∧
      c.2 = [0x80, 0x00] ∧ ¬s.radio.GoesOn c.1 ∧ (c.2 = setRxContinuous ∨ s.radio.GoesOn c.1 ∨ c.1 ∈ s.gaveUp) := by
  have hrun : (runList (WatchedRadio.step 64) (fun _ _ => true) .boot deafRun).map (fun s =>
      (s.radio.modeCommand, decide (s.radio.GoesOn (.receive, 1)))) =
      some (some ((.receive, 1), [0x80, 0x00]), false) := by
    decide +kernel
  obtain ⟨s, hs, heq⟩ := Option.map_eq_some_iff.mp hrun
  simp only [Prod.mk.injEq, decide_eq_false_iff_not] at heq
  obtain ⟨hmode, hends⟩ := heq
  exact ⟨s, _, hs, hmode, rfl, hends, radio_listens 64 (Runs.of_runList (fun _ _ _ => trivial) .start hs) hmode⟩

end Dtu
