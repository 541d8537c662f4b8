import Dtu.Impl.Radio

/-!
# What the LLCC68 has answered

`Lora_send` and `Lora_recv_packet` succeed without an answer of the chip where
`CheckBusy` gives up inside them: `GetIrqStatus` then returns 0xFFFF, a word with all
interrupts set, and `ReadBuffer` leaves `payload` as it is. Just then they report what the
chip has not: `loraSend_iff` and `loraRecv_iff`, over the answers of any run.
-/

namespace Dtu

open Program

/-! ## Events -/

/-- An operation with its answer. -/
inductive RadioEvent where
  | busy (high : Bool)
  | dio1 (high : Bool)
  | spi (tx rx : List UInt8)
  | lock
  | unlock
  deriving DecidableEq

def radioEvent : (o : RadioOp) → o.Ans → RadioEvent
  | .busy, high => .busy high
  | .dio1, high => .dio1 high
  | .spi tx, rx => .spi tx rx
  | .lock, _ => .lock
  | .unlock, _ => .unlock

/-- The chip has answered the bytes `rx` to a command. -/
def Got (opcode : UInt8) (es : List RadioEvent) (rx : List UInt8) : Prop :=
  ∃ tx, .spi tx rx ∈ es ∧ tx.head? = some opcode

/-- The readings with which `CheckBusy(100)` gives up. -/
def busyTimeout : List RadioEvent := List.replicate 100 (.busy true)

/-- Among the first `n` readings of DIO1 there is a high one directly before such readings. -/
def StuckAtDio1 : Nat → List RadioEvent → Prop
  | _, [] => False
  | n, e :: es =>
    match e with
    | .dio1 high => 0 < n ∧ (high = true ∧ busyTimeout <+: es ∨ StuckAtDio1 (n - 1) es)
    | _ => StuckAtDio1 n es

/-- The answer to a command is directly before such readings. -/
def StuckBehind (opcode : UInt8) : List RadioEvent → Prop
  | [] => False
  | e :: es =>
    match e with
    | .spi tx _ => tx.head? = some opcode ∧ busyTimeout <+: es ∨ StuckBehind opcode es
    | _ => StuckBehind opcode es

variable {α β : Type} {p q : RadioProgram α} {es fs : List RadioEvent} {opcode : UInt8} {rx : List UInt8}

theorem got_append : Got opcode (es ++ fs) rx ↔ Got opcode es rx ∨ Got opcode fs rx := by
  simp only [Got, List.mem_append, or_and_right, exists_or]

theorem got_cons {e : RadioEvent} (h : ∀ tx rx, e ≠ .spi tx rx) : Got opcode (e :: es) rx ↔ Got opcode es rx := by
  simp only [Got, List.mem_cons, (h _ _).symm, false_or]

theorem not_stuckAtDio1_zero (es : List RadioEvent) : ¬StuckAtDio1 0 es := by
  induction es with
  | nil => exact id
  | cons e es ih =>
    cases e with
    | dio1 high => exact fun h => Nat.lt_irrefl 0 h.1
    | busy high => exact ih
    | spi tx rx => exact ih
    | lock => exact ih
    | unlock => exact ih

theorem stuckAtDio1_append (h : ∀ high, .dio1 high ∉ es) (n : Nat) :
    StuckAtDio1 n (es ++ fs) ↔ StuckAtDio1 n fs := by
  induction es with
  | nil => exact Iff.rfl
  | cons e es ih =>
    have hes := ih fun high hmem => h high (List.mem_cons_of_mem e hmem)
    cases e with
    | dio1 high => exact absurd List.mem_cons_self (h high)
    | busy high => exact hes
    | spi tx rx => exact hes
    | lock => exact hes
    | unlock => exact hes

theorem stuckBehind_append (h : ∀ rx, ¬Got opcode es rx) : StuckBehind opcode (es ++ fs) ↔ StuckBehind opcode fs := by
  induction es with
  | nil => exact Iff.rfl
  | cons e es ih =>
    have hes := ih fun rx ⟨tx, hmem, htx⟩ => h rx ⟨tx, List.mem_cons_of_mem e hmem, htx⟩
    cases e with
    | spi tx rx =>
      have htx : tx.head? ≠ some opcode := fun htx => h rx ⟨tx, List.mem_cons_self, htx⟩
      rw [List.cons_append, StuckBehind, hes]
      simp only [htx, false_and, false_or]
    | busy high => exact hes
    | dio1 high => exact hes
    | lock => exact hes
    | unlock => exact hes

/-! ## Functions that read nothing -/

/-- The commands that read what the chip has. -/
def IsReading (opcode : UInt8) : Prop := opcode = 0x12 ∨ opcode = 0x13 ∨ opcode = 0x1E

theorem not_isReading {opcode : UInt8} (h : opcode ≠ 0x12 ∧ opcode ≠ 0x13 ∧ opcode ≠ 0x1E) : ¬IsReading opcode := by
  rintro (rfl | rfl | rfl)
  · exact h.1 rfl
  · exact h.2.1 rfl
  · exact h.2.2 rfl

/-- No reading of DIO1, and no answer to such a command. -/
structure QuietEvents (es : List RadioEvent) : Prop where
  dio1 : ∀ high, .dio1 high ∉ es
  got : ∀ opcode, IsReading opcode → ∀ rx, ¬Got opcode es rx

theorem quietEvents_nil : QuietEvents [] := ⟨fun _ => List.not_mem_nil, fun _ _ _ ⟨_, hmem, _⟩ => List.not_mem_nil hmem⟩

theorem QuietEvents.append (h : QuietEvents es) (h' : QuietEvents fs) : QuietEvents (es ++ fs) :=
  ⟨fun high => List.not_mem_append (h.dio1 high) (h'.dio1 high), fun opcode hop rx hgot =>
    (got_append.mp hgot).elim (h.got opcode hop rx) (h'.got opcode hop rx)⟩

/-- All runs of a program are so. -/
def Quiet (p : RadioProgram α) : Prop := ∀ es a, Ran radioEvent p es a → QuietEvents es

theorem quiet_pure (a : α) : Quiet (pure a : RadioProgram α) := by
  intro es b h
  rw [(ran_pure.mp h).1]
  exact quietEvents_nil

theorem Quiet.bind {f : α → RadioProgram β} (hp : Quiet p) (hf : ∀ a, Quiet (f a)) : Quiet (p >>= f) := by
  intro es b h
  obtain ⟨es₁, es₂, a, rfl, h₁, h₂⟩ := ran_bind.mp h
  exact (hp es₁ a h₁).append (hf a es₂ b h₂)

theorem Quiet.ite {c : Prop} [Decidable c] (hp : Quiet p) (hq : Quiet q) : Quiet (if c then p else q) := by
  split
  · exact hp
  · exact hq

/-- One operation. -/
theorem quiet_op {o : RadioOp} (hdio : ∀ a high, radioEvent o a ≠ .dio1 high)
    (hspi : ∀ a tx rx, radioEvent o a = .spi tx rx → ∀ opcode, IsReading opcode → tx.head? ≠ some opcode) :
    Quiet (op o) := by
  intro es b h
  obtain ⟨a, es', rfl, h'⟩ := ran_op_bind.mp (show Ran radioEvent (op o >>= pure) es b from h)
  rw [(ran_pure.mp h').1]
  refine ⟨fun high hmem => hdio a high (List.mem_singleton.mp hmem).symm, ?_⟩
  rintro opcode hop rx ⟨tx, hmem, htx⟩
  exact hspi a tx rx (List.mem_singleton.mp hmem).symm opcode hop htx

theorem quiet_busy : Quiet (op RadioOp.busy) := quiet_op (fun _ _ => nofun) fun _ _ _ => nofun

theorem quiet_lock : Quiet (op RadioOp.lock) := quiet_op (fun _ _ => nofun) fun _ _ _ => nofun

theorem quiet_unlock : Quiet (op RadioOp.unlock) := quiet_op (fun _ _ => nofun) fun _ _ _ => nofun

theorem quiet_spi {opcode : UInt8} (h : ¬IsReading opcode) (params : List UInt8) :
    Quiet (op (RadioOp.spi (opcode :: params))) := by
  refine quiet_op (fun _ _ => nofun) fun a tx rx heq opcode' hop htx => ?_
  cases heq
  exact h (Option.some.inj htx ▸ hop)

theorem quiet_checkBusy (timeoutMs : Nat) : Quiet (checkBusy timeoutMs) := by
  induction timeoutMs with
  | zero => exact quiet_pure _
  | succ timeoutMs ih => exact quiet_busy.bind fun _ => ih.ite (quiet_pure _)

theorem quiet_command {opcode : UInt8} (h : ¬IsReading opcode) (params : List UInt8) : Quiet (command opcode params) :=
  (quiet_checkBusy 100).bind fun _ => .ite (quiet_pure _) (.bind (.ite (quiet_pure _) ((quiet_checkBusy 100).bind fun _ =>
    .ite (quiet_pure _) ((quiet_spi h _).bind fun _ => quiet_pure _))) fun _ => quiet_pure _)

theorem quiet_writeBuffer (offset : UInt8) (data : List UInt8) : Quiet (writeBuffer offset data) :=
  .ite (quiet_pure _) (.ite (quiet_pure _) ((quiet_checkBusy 100).bind fun _ =>
    .ite (quiet_pure _) ((quiet_spi (not_isReading (by decide)) _).bind fun _ => quiet_pure _)))

theorem quiet_clearIrqStatus (irq : UInt16) : Quiet (clearIrqStatus irq) := quiet_command (not_isReading (by decide)) _

theorem quiet_rxInit (payloadSize : UInt8) : Quiet (rxInit payloadSize) :=
  (quiet_command (not_isReading (by decide)) _).bind fun _ => (quiet_command (not_isReading (by decide)) _).bind fun _ =>
    (quiet_command (not_isReading (by decide)) _).bind fun _ => (quiet_clearIrqStatus _).bind fun _ =>
      (quiet_command (not_isReading (by decide)) _).bind fun _ => quiet_command (not_isReading (by decide)) _

/-- A program that begins by reading nothing, and what does not depend on that. -/
theorem Quiet.skip {f : α → RadioProgram β} {P : List RadioEvent → β → Prop} (hp : Quiet p)
    (hP : ∀ es fs b, QuietEvents es → P fs b → P (es ++ fs) b) (hf : ∀ a es b, Ran radioEvent (f a) es b → P es b) :
    ∀ es b, Ran radioEvent (p >>= f) es b → P es b := by
  intro es b h
  obtain ⟨es₁, es₂, a, rfl, h₁, h₂⟩ := ran_bind.mp h
  exact hP es₁ es₂ b (hp es₁ a h₁) (hf a es₂ b h₂)

/-- All runs of a program read nothing, and give `a`. -/
def Ends (p : RadioProgram α) (a : α) : Prop := ∀ es b, Ran radioEvent p es b → QuietEvents es ∧ b = a

theorem ends_pure (a : α) : Ends (pure a) a := fun _ _ h => ⟨quiet_pure a _ _ h, (ran_pure.mp h).2⟩

theorem Quiet.ends {f : α → RadioProgram β} {b : β} (hp : Quiet p) (hf : ∀ a, Ends (f a) b) : Ends (p >>= f) b := by
  intro es b' h
  obtain ⟨es₁, es₂, a, rfl, h₁, h₂⟩ := ran_bind.mp h
  obtain ⟨hquiet, rfl⟩ := hf a es₂ b' h₂
  exact ⟨(hp es₁ a h₁).append hquiet, rfl⟩

/-! ## Transfers -/

/-- The readings with which `CheckBusy(100)` does not give up. -/
def Ready (es : List RadioEvent) : Prop := ∃ k < 100, es = List.replicate k (.busy true) ++ [.busy false]

/-- What a function does that waits for BUSY and transfers `tx`: the bytes that come in, if
it gets so far. -/
inductive Transfer (tx : List UInt8) : List RadioEvent → Option (List UInt8) → Prop where
  | timeout : Transfer tx busyTimeout none
  | done {ready : List RadioEvent} (hready : Ready ready) (rx : List UInt8) : Transfer tx (ready ++ [.spi tx rx]) (some rx)

theorem ran_checkBusy {timeoutMs : Nat} {ret : Int} (h : Ran radioEvent (checkBusy timeoutMs) es ret) :
    (ret = 0 ∧ ∃ k < timeoutMs, es = List.replicate k (.busy true) ++ [.busy false]) ∨
      (ret = -1 ∧ es = List.replicate timeoutMs (.busy true)) := by
  induction timeoutMs generalizing es with
  | zero =>
    obtain ⟨rfl, rfl⟩ := ran_pure.mp h
    exact Or.inr ⟨rfl, rfl⟩
  | succ timeoutMs ih =>
    obtain ⟨busy, es', rfl, hrest⟩ := ran_op_bind.mp h
    split at hrest
    · rename_i hbusy
      obtain rfl : busy = true := hbusy
      rcases ih hrest with ⟨rfl, k, hk, rfl⟩ | ⟨rfl, rfl⟩
      · exact Or.inl ⟨rfl, k + 1, Nat.succ_lt_succ hk, rfl⟩
      · exact Or.inr ⟨rfl, rfl⟩
    · rename_i hbusy
      obtain rfl : busy = false := Bool.eq_false_iff.mpr hbusy
      obtain ⟨rfl, rfl⟩ := ran_pure.mp hrest
      exact Or.inl ⟨rfl, 0, Nat.succ_pos _, rfl⟩

/-- Such a function. -/
theorem ran_transfer {tx : List UInt8} {a : α} {f : List UInt8 → α}
    (h : Ran radioEvent (checkBusy 100 >>= fun ready => if ready ≠ 0 then pure a else
      op (RadioOp.spi tx) >>= fun rx => pure (f rx)) es b) :
    ∃ got, Transfer tx es got ∧ b = (got.map f).getD a := by
  obtain ⟨es₁, es₂, ret, rfl, h₁, h₂⟩ := ran_bind.mp h
  rcases ran_checkBusy h₁ with ⟨rfl, hready⟩ | ⟨rfl, rfl⟩
  · obtain ⟨rx, es', rfl, h'⟩ := ran_op_bind.mp h₂
    obtain ⟨rfl, rfl⟩ := ran_pure.mp h'
    exact ⟨some rx, .done hready rx, rfl⟩
  · obtain ⟨rfl, rfl⟩ := ran_pure.mp h₂
    rw [List.append_nil]
    exact ⟨none, .timeout, rfl⟩

/-- The IRQ word in an answer to `GetIrqStatus`. -/
def irqWord (rx : List UInt8) : UInt16 := ((rx.getD 2 0).toUInt16 <<< 8) ||| (rx.getD 3 0).toUInt16

theorem ran_getIrqStatus {irq : UInt16} (h : Ran radioEvent getIrqStatus es irq) :
    ∃ got, Transfer [0x12, 0xFF, 0xFF, 0xFF] es got ∧ irq = (got.map irqWord).getD 0xFFFF := ran_transfer h

theorem ran_getRxBufferStatus {status : UInt8 × UInt8} (h : Ran radioEvent getRxBufferStatus es status) :
    ∃ got, Transfer [0x13, 0xFF, 0xFF, 0xFF] es got ∧
      status = (got.map fun rx => (rx.getD 2 0, rx.getD 3 0)).getD (0, 0) := ran_transfer h

/-- The bytes of the chip's buffer in an answer to `ReadBuffer`. -/
def bufferBytes (length : Nat) (rx : List UInt8) : List UInt8 := (List.range length).map fun i => rx.getD (3 + i) 0

theorem ran_readBuffer {offset length : UInt8} (hlen : length ≠ 0) {data : Option (List UInt8)}
    (h : Ran radioEvent (readBuffer offset length) es data) :
    ∃ got, Transfer (0x1E :: offset :: 0xFF :: List.replicate length.toNat 0xFF) es got ∧
      data = got.map (bufferBytes length.toNat) := by
  have hpos : ¬length < 1 := by
    rw [UInt8.lt_iff_toNat_lt]
    intro h
    exact hlen (UInt8.toNat_inj.mp (Nat.lt_one_iff.mp h))
  have hfits : ¬260 < 3 + length.toNat := by
    have := length.toNat_lt
    omega
  rw [readBuffer, if_neg hpos, if_neg hfits] at h
  obtain ⟨got, htransfer, rfl⟩ := ran_transfer h
  exact ⟨got, htransfer, by cases got <;> rfl⟩

theorem Transfer.busyTimeout_iff {tx : List UInt8} {got : Option (List UInt8)} (h : Transfer tx es got)
    (tail : List RadioEvent) : busyTimeout <+: es ++ tail ↔ got = none := by
  cases h with
  | timeout => exact iff_of_true (List.prefix_append _ _) rfl
  | done hready rx =>
    obtain ⟨k, hk, rfl⟩ := hready
    refine iff_of_false (fun hpre => ?_) (Option.some_ne_none rx)
    -- The low reading is among the first 100.
    have hlow : .busy false ∈ busyTimeout := by
      rw [List.prefix_iff_eq_take.mp hpre, busyTimeout, List.length_replicate]
      refine List.mem_take_iff_getElem.mpr ⟨k, ?_, ?_⟩
      · simp
        omega
      · simp
    cases List.eq_of_mem_replicate hlow

theorem Transfer.got_iff {tx : List UInt8} {got : Option (List UInt8)} (h : Transfer tx es got) :
    Got opcode es rx ↔ tx.head? = some opcode ∧ got = some rx := by
  cases h with
  | timeout =>
    refine iff_of_false ?_ fun h => nomatch h.2
    rintro ⟨tx, hmem, -⟩
    cases List.eq_of_mem_replicate hmem
  | done hready rx' =>
    obtain ⟨k, hk, rfl⟩ := hready
    have hmem : ∀ tx', RadioEvent.spi tx' rx ∈ List.replicate k (.busy true) ++ [.busy false] ++ [.spi tx rx'] ↔
        tx' = tx ∧ rx' = rx := fun tx' => by simp [@eq_comm _ rx]
    simp only [Got, hmem, Option.some.injEq]
    constructor
    · rintro ⟨tx', ⟨rfl, rfl⟩, htx⟩
      exact ⟨htx, rfl⟩
    · rintro ⟨htx, rfl⟩
      exact ⟨tx, ⟨rfl, rfl⟩, htx⟩

theorem Transfer.dio1 {tx : List UInt8} {got : Option (List UInt8)} (h : Transfer tx es got) (high : Bool) :
    .dio1 high ∉ es := by
  cases h with
  | timeout => exact fun hmem => nomatch List.eq_of_mem_replicate hmem
  | done hready rx' =>
    obtain ⟨k, hk, rfl⟩ := hready
    simp

/-! ## `Lora_send` -/

/-- An IRQ word with TxDone has been read. -/
def TxDoneRead (es : List RadioEvent) : Prop := ∃ rx, Got 0x12 es rx ∧ irqWord rx &&& txDoneIrq ≠ 0

theorem txDoneRead_append : TxDoneRead (es ++ fs) ↔ TxDoneRead es ∨ TxDoneRead fs := by
  simp only [TxDoneRead, got_append, or_and_right, exists_or]

theorem QuietEvents.not_txDoneRead (h : QuietEvents es) : ¬TxDoneRead es :=
  fun ⟨rx, hgot, _⟩ => h.got 0x12 (Or.inl rfl) rx hgot

theorem QuietEvents.stuckAtDio1 (h : QuietEvents es) (n : Nat) : ¬StuckAtDio1 n es := by
  rw [← List.append_nil es, stuckAtDio1_append h.dio1]
  exact id

theorem txDoneRead_dio1 {high : Bool} : TxDoneRead (.dio1 high :: es) ↔ TxDoneRead es := by
  have hne : ∀ tx rx, RadioEvent.dio1 high ≠ .spi tx rx := fun _ _ => nofun
  simp only [TxDoneRead, got_cons hne]

theorem stuckAtDio1_low {n : Nat} : StuckAtDio1 (n + 1) (.dio1 false :: es) ↔ StuckAtDio1 n es := by
  simp [StuckAtDio1]

/-- A high reading, and `GetIrqStatus`. -/
theorem stuckAtDio1_high {n : Nat} {tx : List UInt8} {got : Option (List UInt8)} (h : Transfer tx es got) :
    StuckAtDio1 (n + 1) (.dio1 true :: (es ++ fs)) ↔ got = none ∨ StuckAtDio1 n fs := by
  rw [StuckAtDio1, h.busyTimeout_iff, stuckAtDio1_append h.dio1]
  simp

/-- The wait, in front of what reads nothing: it ends well without a word with TxDone just
where it has got stuck. -/
theorem ran_waitForIrqTxDone {n : Nat} {ok : Bool} (h : Ran radioEvent (waitForIrqTxDone n) es ok)
    (htail : QuietEvents fs) :
    (ok = true → (StuckAtDio1 n (es ++ fs) ↔ ¬TxDoneRead es)) ∧ (ok = false → ¬StuckAtDio1 n (es ++ fs)) := by
  induction n generalizing es with
  | zero =>
    obtain ⟨-, es', -, -, -, h'⟩ := ran_bind.mp h
    obtain ⟨-, es'', -, h''⟩ := ran_op_bind.mp h'
    obtain ⟨-, es₃, -, -, -, h₃⟩ := ran_bind.mp h''
    obtain ⟨-, rfl⟩ := ran_pure.mp h₃
    exact ⟨nofun, fun _ => not_stuckAtDio1_zero _⟩
  | succ n ih =>
    obtain ⟨dio1, es', rfl, hturn⟩ := ran_op_bind.mp h
    split at hturn
    · rename_i hdio
      obtain rfl : dio1 = true := hdio
      obtain ⟨es₁, es₂, irq, rfl, hirq, hrest⟩ := ran_bind.mp hturn
      obtain ⟨got, htransfer, rfl⟩ := ran_getIrqStatus hirq
      have hstuck : StuckAtDio1 (n + 1) (.dio1 true :: (es₁ ++ es₂) ++ fs) ↔
          got = none ∨ StuckAtDio1 n (es₂ ++ fs) := by
        rw [List.cons_append, List.append_assoc]
        exact stuckAtDio1_high htransfer
      have hread : TxDoneRead (.dio1 true :: (es₁ ++ es₂)) ↔
          (∃ rx ∈ got, irqWord rx &&& txDoneIrq ≠ 0) ∨ TxDoneRead es₂ := by
        rw [txDoneRead_dio1, txDoneRead_append]
        simp only [TxDoneRead, htransfer.got_iff, List.head?_cons, true_and, Option.mem_def]
      show (_ → (StuckAtDio1 (n + 1) (.dio1 true :: (es₁ ++ es₂) ++ fs) ↔
        ¬TxDoneRead (.dio1 true :: (es₁ ++ es₂)))) ∧ (_ → ¬StuckAtDio1 (n + 1) (.dio1 true :: (es₁ ++ es₂) ++ fs))
      rw [hstuck, hread]
      split at hrest
      · -- The word has TxDone, and the wait is over.
        rename_i hdone
        obtain ⟨c, es₃, _, rfl, hc, hend⟩ := ran_bind.mp hrest
        obtain ⟨rfl, rfl⟩ := ran_pure.mp hend
        rw [List.append_nil]
        have hquiet := quiet_clearIrqStatus _ c _ hc
        refine ⟨fun _ => ?_, nofun⟩
        cases got with
        | none => simp [hquiet.not_txDoneRead]
        | some rx =>
          have hdone' : irqWord rx &&& txDoneIrq ≠ 0 := hdone
          simp [hdone', (hquiet.append htail).stuckAtDio1]
      · rename_i hnot
        have hwait : ∃ c es₃, es₂ = c ++ es₃ ∧ QuietEvents c ∧ Ran radioEvent (waitForIrqTxDone n) es₃ ok := by
          split at hrest
          · obtain ⟨c, es₃, _, rfl, hc, hwait⟩ := ran_bind.mp hrest
            exact ⟨c, es₃, rfl, quiet_clearIrqStatus _ c _ hc, hwait⟩
          · exact ⟨[], es₂, rfl, quietEvents_nil, hrest⟩
        obtain ⟨c, es₃, rfl, hc, hwait⟩ := hwait
        cases got with
        | none => exact absurd (by decide) hnot
        | some rx =>
          have hnot' : irqWord rx &&& txDoneIrq = 0 := not_not.mp hnot
          rw [List.append_assoc, stuckAtDio1_append hc.dio1, txDoneRead_append]
          simpa [hnot', hc.not_txDoneRead] using ih hwait
    · rename_i hdio
      obtain rfl : dio1 = false := Bool.eq_false_iff.mpr hdio
      show (_ → (StuckAtDio1 (n + 1) (.dio1 false :: (es' ++ fs)) ↔ ¬TxDoneRead (.dio1 false :: es'))) ∧
        (_ → ¬StuckAtDio1 (n + 1) (.dio1 false :: (es' ++ fs)))
      rw [stuckAtDio1_low, txDoneRead_dio1]
      exact ih hturn

/-- `Lora_send` has an IRQ word with TxDone if it returns 0, just when no high reading of
DIO1, of the 3000 it waits with, is followed by a timeout of BUSY. -/
theorem loraSend_iff {payloadSize : UInt8} {payload : List UInt8} {ret : Int}
    (h : Ran radioEvent (loraSend payloadSize payload) es ret) :
    (ret = 0 → TxDoneRead es) ↔ ¬StuckAtDio1 3000 es := by
  have hskip : ∀ (es fs : List RadioEvent) (ret : Int), QuietEvents es →
      ((ret = 0 → TxDoneRead fs) ↔ ¬StuckAtDio1 3000 fs) →
        ((ret = 0 → TxDoneRead (es ++ fs)) ↔ ¬StuckAtDio1 3000 (es ++ fs)) := by
    intro es fs ret hquiet h
    rw [txDoneRead_append, stuckAtDio1_append hquiet.dio1]
    simpa [hquiet.not_txDoneRead] using h
  suffices hall : ∀ es ret, Ran radioEvent (loraSend payloadSize payload) es ret →
      ((ret = 0 → TxDoneRead es) ↔ ¬StuckAtDio1 3000 es) from hall es ret h
  unfold loraSend
  split
  · intro es ret h
    obtain ⟨rfl, rfl⟩ := ran_pure.mp h
    exact iff_of_true nofun (quietEvents_nil.stuckAtDio1 3000)
  refine quiet_lock.skip hskip fun _ => ?_
  refine (quiet_command (not_isReading (by decide)) _).skip hskip fun _ => ?_
  refine (quiet_command (not_isReading (by decide)) _).skip hskip fun _ => ?_
  refine (quiet_writeBuffer _ _).skip hskip fun _ => ?_
  refine (quiet_command (not_isReading (by decide)) _).skip hskip fun _ => ?_
  refine (quiet_clearIrqStatus _).skip hskip fun _ => ?_
  refine (quiet_command (not_isReading (by decide)) _).skip hskip fun _ => ?_
  refine (quiet_command (not_isReading (by decide)) _).skip hskip fun _ => ?_
  intro es ret h
  obtain ⟨es, fs, ok, rfl, hwait, hrest⟩ := ran_bind.mp h
  obtain ⟨hquiet, rfl⟩ := ((quiet_rxInit _).ends fun _ => quiet_unlock.ends fun _ => ends_pure _) fs ret hrest
  obtain ⟨hok, hfailed⟩ := ran_waitForIrqTxDone hwait hquiet
  rw [txDoneRead_append]
  cases ok with
  | true => simp [hok rfl, hquiet.not_txDoneRead]
  | false => simp [hfailed rfl]

/-! ## `Lora_recv_packet` -/

/-- An IRQ word with RxDone has been read. -/
def RxDoneRead (es : List RadioEvent) : Prop := ∃ rx, Got 0x12 es rx ∧ irqWord rx &&& rxDoneIrq = rxDoneIrq

/-- The data has been read from the chip's buffer. -/
def BufferRead (es : List RadioEvent) (data : List UInt8) : Prop :=
  ∃ rx, Got 0x1E es rx ∧ data = bufferBytes data.length rx

/-- The size of a packet that `Lora_recv_packet` takes has been read. -/
def SizeRead (payloadSize : UInt8) (es : List RadioEvent) : Prop :=
  ∃ rx, Got 0x13 es rx ∧ ¬(rx.getD 2 0 = 0 ∨ payloadSize < rx.getD 2 0)

/-- An answer, in front of what follows it. -/
theorem Transfer.stuckBehind_iff {tx : List UInt8} {got : Option (List UInt8)} (h : Transfer tx es got)
    (htx : tx.head? = some opcode) :
    StuckBehind opcode (es ++ fs) ↔ (got ≠ none ∧ busyTimeout <+: fs) ∨ StuckBehind opcode fs := by
  cases h with
  | timeout =>
    rw [stuckBehind_append]
    · simp
    · rintro rx ⟨tx, hmem, -⟩
      cases List.eq_of_mem_replicate hmem
  | done hready rx =>
    obtain ⟨k, hk, rfl⟩ := hready
    rw [List.append_assoc, stuckBehind_append, List.singleton_append, StuckBehind]
    · simp [htx]
    · rintro rx ⟨tx, hmem, -⟩
      simp at hmem

/-- What `Lora_recv_packet` does: it reports no packet and has read no size that it takes, or
it makes the three transfers for a packet, whether it gets their answers or not. -/
inductive Received (payloadSize : UInt8) : List RadioEvent → Int × List UInt8 → Prop where
  | none {es : List RadioEvent} {ret : Int × List UInt8} (hret : ret.1 ≠ 1) (hsize : ¬SizeRead payloadSize es) :
    Received payloadSize es ret
  | packet {irqEs sizeEs dataEs end_ : List RadioEvent} {irq data : Option (List UInt8)} {size tx stale : List UInt8}
    (hirq : Transfer [0x12, 0xFF, 0xFF, 0xFF] irqEs irq) (hrx : ∀ rx ∈ irq, irqWord rx &&& rxDoneIrq = rxDoneIrq)
    (hsize : Transfer [0x13, 0xFF, 0xFF, 0xFF] sizeEs (some size))
    (htakes : ¬(size.getD 2 0 = 0 ∨ payloadSize < size.getD 2 0))
    (hdata : Transfer (0x1E :: tx) dataEs data) (hend : QuietEvents end_) :
    Received payloadSize (.lock :: .dio1 true :: (irqEs ++ (sizeEs ++ (dataEs ++ end_))))
      (1, (data.map (bufferBytes (size.getD 2 0).toNat)).getD stale)

theorem ran_loraRecv {payloadSize : UInt8} {stale : List UInt8} {ret : Int × List UInt8}
    (h : Ran radioEvent (loraRecv payloadSize stale) es ret) : Received payloadSize es ret := by
  obtain ⟨-, es₀, rfl, hlocked⟩ := ran_op_bind.mp h
  obtain ⟨dio1, es₁, rfl, hdio1⟩ := ran_op_bind.mp hlocked
  have hlock : ∀ tx rx, RadioEvent.lock ≠ .spi tx rx := fun _ _ => nofun
  have hline : ∀ tx rx, radioEvent .dio1 dio1 ≠ .spi tx rx := fun _ _ => nofun
  have hnone : ∀ {es}, (∀ rx, Got 0x13 es rx → rx.getD 2 0 = 0 ∨ payloadSize < rx.getD 2 0) →
      ¬SizeRead payloadSize (.lock :: radioEvent .dio1 dio1 :: es) := by
    rintro es hes ⟨rx, hgot, htakes⟩
    rw [got_cons hlock, got_cons hline] at hgot
    exact htakes (hes rx hgot)
  -- No size is read before or behind the transfer for it.
  have hquiet₁₃ : ∀ {es}, QuietEvents es → ∀ rx, ¬Got 0x13 es rx := fun hquiet =>
    hquiet.got 0x13 (Or.inr (Or.inl rfl))
  split at hdio1
  · obtain ⟨hquiet, rfl⟩ := (quiet_unlock.ends fun _ => ends_pure _) es₁ ret hdio1
    exact .none (by decide) (hnone fun rx hgot => absurd hgot (hquiet₁₃ hquiet rx))
  rename_i hhigh
  obtain rfl : dio1 = true := by simpa using hhigh
  obtain ⟨irqEs, es₂, irqStatus, rfl, hstatus, hrest⟩ := ran_bind.mp hdio1
  obtain ⟨irq, hirq, rfl⟩ := ran_getIrqStatus hstatus
  have hirq₁₃ : ∀ rx, ¬Got 0x13 irqEs rx := fun rx hgot => by simpa using (hirq.got_iff.mp hgot).1
  split at hrest
  · obtain ⟨hquiet, rfl⟩ :=
      ((quiet_clearIrqStatus _).ends fun _ => quiet_unlock.ends fun _ => ends_pure _) es₂ ret hrest
    refine .none (by decide) (hnone fun rx hgot => ?_)
    exact absurd hgot (not_or.mpr ⟨hirq₁₃ rx, hquiet₁₃ hquiet rx⟩ ∘ got_append.mp)
  rename_i hrx
  obtain ⟨sizeEs, es₃, sizes, rfl, hsizes, hsized⟩ := ran_bind.mp hrest
  obtain ⟨size, hsize, rfl⟩ := ran_getRxBufferStatus hsizes
  -- The end where it does not take the packet.
  have hends : Ends (clearIrqStatus rxDoneIrq >>= fun _ => rxInit payloadSize >>= fun _ =>
      op RadioOp.unlock >>= fun _ => pure ((-2 : Int), ([] : List UInt8))) (-2, []) :=
    (quiet_clearIrqStatus _).ends fun _ => (quiet_rxInit _).ends fun _ => quiet_unlock.ends fun _ => ends_pure _
  cases size with
  | none =>
    have hsize₁₃ : ∀ rx, ¬Got 0x13 sizeEs rx := fun rx hgot => by simpa using (hsize.got_iff.mp hgot).2
    dsimp only [Option.map_none, Option.getD_none] at hsized
    rw [if_pos (Or.inl rfl)] at hsized
    obtain ⟨hquiet, rfl⟩ := hends es₃ ret hsized
    refine .none (by decide) (hnone fun rx hgot => ?_)
    rw [got_append, got_append] at hgot
    exact absurd hgot (not_or.mpr ⟨hirq₁₃ rx, not_or.mpr ⟨hsize₁₃ rx, hquiet₁₃ hquiet rx⟩⟩)
  | some size =>
    dsimp only [Option.map_some, Option.getD_some] at hsized
    split at hsized
    · rename_i hrefused
      obtain ⟨hquiet, rfl⟩ := hends es₃ ret hsized
      refine .none (by decide) (hnone fun rx hgot => ?_)
      rw [got_append, got_append] at hgot
      rcases hgot with hgot | hgot | hgot
      · exact absurd hgot (hirq₁₃ rx)
      · obtain rfl := Option.some.inj (hsize.got_iff.mp hgot).2
        exact hrefused
      · exact absurd hgot (hquiet₁₃ hquiet rx)
    · rename_i htakes
      obtain ⟨dataEs, end_, stored, rfl, hread, hrest⟩ := ran_bind.mp hsized
      obtain ⟨data, hdata, rfl⟩ := ran_readBuffer (fun hzero => htakes (Or.inl hzero)) hread
      obtain ⟨hquiet, rfl⟩ := ((quiet_clearIrqStatus _).ends fun _ => (quiet_rxInit _).ends fun _ =>
        quiet_unlock.ends fun _ => ends_pure _) end_ ret hrest
      refine .packet hirq (fun rx hmem => ?_) hsize htakes hdata hquiet
      obtain rfl : irq = some rx := hmem
      exact not_not.mp hrx

/-- `Lora_recv_packet` has an IRQ word with RxDone and its data from the chip if it returns 1,
just when, where it reads the size of a packet that it takes, neither the reading of DIO1
nor that size is followed by a timeout of BUSY. -/
theorem loraRecv_iff {payloadSize : UInt8} {stale : List UInt8} {ret : Int × List UInt8}
    (h : Ran radioEvent (loraRecv payloadSize stale) es ret) :
    (ret.1 = 1 → RxDoneRead es ∧ BufferRead es ret.2) ↔
      (SizeRead payloadSize es → ¬StuckAtDio1 1 es ∧ ¬StuckBehind 0x13 es) := by
  cases ran_loraRecv h with
  | none hret hsize => exact iff_of_true (fun h => absurd h hret) fun h => absurd h hsize
  | @packet irqEs sizeEs dataEs end_ irq data size tx stale hirq hrx hsize htakes hdata hend =>
    have hgot : ∀ {opcode rx}, IsReading opcode →
        (Got opcode (.lock :: .dio1 true :: (irqEs ++ (sizeEs ++ (dataEs ++ end_)))) rx ↔
          (some 0x12 = some opcode ∧ irq = some rx) ∨ (some 0x13 = some opcode ∧ some size = some rx) ∨
            (some 0x1E = some opcode ∧ data = some rx)) := by
      intro opcode rx hop
      have hlock : ∀ tx rx, RadioEvent.lock ≠ .spi tx rx := fun _ _ => nofun
      have hline : ∀ tx rx, RadioEvent.dio1 true ≠ .spi tx rx := fun _ _ => nofun
      rw [got_cons hlock, got_cons hline, got_append, got_append, got_append, hirq.got_iff, hsize.got_iff,
        hdata.got_iff, or_iff_left (hend.got opcode hop rx)]
      rfl
    have hrxDone : RxDoneRead (.lock :: .dio1 true :: (irqEs ++ (sizeEs ++ (dataEs ++ end_)))) ↔ irq ≠ none := by
      constructor
      · rintro ⟨rx, hword, -⟩
        rcases (hgot (Or.inl rfl)).mp hword with ⟨-, hsome⟩ | ⟨hop, -⟩ | ⟨hop, -⟩
        · rw [hsome]
          exact Option.some_ne_none rx
        · exact absurd hop (by decide)
        · exact absurd hop (by decide)
      · intro hne
        obtain ⟨rx, hsome⟩ := Option.ne_none_iff_exists'.mp hne
        exact ⟨rx, (hgot (Or.inl rfl)).mpr (Or.inl ⟨rfl, hsome⟩), hrx rx hsome⟩
    have hbuffer : BufferRead (.lock :: .dio1 true :: (irqEs ++ (sizeEs ++ (dataEs ++ end_))))
        ((data.map (bufferBytes (size.getD 2 0).toNat)).getD stale) ↔ data ≠ none := by
      constructor
      · rintro ⟨rx, hbytes, -⟩
        rcases (hgot (Or.inr (Or.inr rfl))).mp hbytes with ⟨hop, -⟩ | ⟨hop, -⟩ | ⟨-, hsome⟩
        · exact absurd hop (by decide)
        · exact absurd hop (by decide)
        · rw [hsome]
          exact Option.some_ne_none rx
      · intro hne
        obtain ⟨rx, hsome⟩ := Option.ne_none_iff_exists'.mp hne
        refine ⟨rx, (hgot (Or.inr (Or.inr rfl))).mpr (Or.inr (Or.inr ⟨rfl, hsome⟩)), ?_⟩
        rw [hsome]
        simp [bufferBytes]
    have hsizeRead : SizeRead payloadSize (.lock :: .dio1 true :: (irqEs ++ (sizeEs ++ (dataEs ++ end_)))) :=
      ⟨size, (hgot (Or.inr (Or.inl rfl))).mpr (Or.inr (Or.inl ⟨rfl, rfl⟩)), htakes⟩
    have hdio1 : StuckAtDio1 1 (.lock :: .dio1 true :: (irqEs ++ (sizeEs ++ (dataEs ++ end_)))) ↔ irq = none := by
      rw [show StuckAtDio1 1 (.lock :: .dio1 true :: (irqEs ++ (sizeEs ++ (dataEs ++ end_)))) ↔ _ from
        stuckAtDio1_high hirq]
      exact or_iff_left (not_stuckAtDio1_zero _)
    have hbehind : StuckBehind 0x13 (.lock :: .dio1 true :: (irqEs ++ (sizeEs ++ (dataEs ++ end_)))) ↔ data = none := by
      have hirq₁₃ : ∀ rx, ¬Got 0x13 irqEs rx := fun rx hgot => absurd (hirq.got_iff.mp hgot).1 (by decide)
      have hdata₁₃ : ∀ rx, ¬Got 0x13 dataEs rx := fun rx hgot =>
        absurd (Option.some.inj (hdata.got_iff.mp hgot).1) (by decide)
      have hend₁₃ : ¬StuckBehind 0x13 end_ := by
        rw [← List.append_nil end_, stuckBehind_append (hend.got 0x13 (Or.inr (Or.inl rfl)))]
        exact id
      rw [show StuckBehind 0x13 (.lock :: .dio1 true :: (irqEs ++ (sizeEs ++ (dataEs ++ end_)))) ↔ _ from
        stuckBehind_append hirq₁₃, hsize.stuckBehind_iff rfl, hdata.busyTimeout_iff, stuckBehind_append hdata₁₃]
      simp [hend₁₃]
    rw [hrxDone, hbuffer, hdio1, hbehind]
    exact ⟨fun h _ => h rfl, fun h _ => h hsizeRead⟩

/-! ## Both -/

/-- In every run of `Lora_send` and `Lora_recv_packet`, whatever the lines and the transfers
answer: what they report is what the chip has answered just when no timeout of BUSY follows
the reading of DIO1 for which they ask for the IRQ word, or the size of the packet. -/
theorem radio_reports_iff (payloadSize : UInt8) (es : List RadioEvent) :
    (∀ payload ret, Ran radioEvent (loraSend payloadSize payload) es ret →
      ((ret = 0 → TxDoneRead es) ↔ ¬StuckAtDio1 3000 es)) ∧
      ∀ stale ret, Ran radioEvent (loraRecv payloadSize stale) es ret →
        ((ret.1 = 1 → RxDoneRead es ∧ BufferRead es ret.2) ↔
          (SizeRead payloadSize es → ¬StuckAtDio1 1 es ∧ ¬StuckBehind 0x13 es)) :=
  ⟨fun _ _ h => loraSend_iff h, fun _ _ h => loraRecv_iff h⟩

/-- BUSY and DIO1 are high all the time. -/
def stuckAnswer : (o : RadioOp) → o.Ans
  | .busy => true
  | .dio1 => true
  | .spi _ => []
  | .lock => ()
  | .unlock => ()

/-- `Lora_send` of one byte then. -/
def stuckSend : List RadioEvent × Int := runWith radioEvent stuckAnswer (loraSend 64 [0x41])

theorem radio_reports_iff_stuck : (stuckSend.2 = 0 → TxDoneRead stuckSend.1) ↔ ¬StuckAtDio1 3000 stuckSend.1 :=
  (radio_reports_iff 64 _).1 [0x41] _ (ran_runWith _ _)

/-- It returns 0, and nothing has been transferred. -/
theorem radio_reports_stuck :
    Ran radioEvent (loraSend 64 [0x41]) stuckSend.1 stuckSend.2 ∧ stuckSend.2 = 0 ∧ ¬TxDoneRead stuckSend.1 := by
  refine ⟨ran_runWith _ _, by decide +kernel, ?_⟩
  have hlines : ∀ e ∈ stuckSend.1, e = .busy true ∨ e = .dio1 true ∨ e = .lock ∨ e = .unlock := by decide +kernel
  rintro ⟨rx, ⟨tx, hmem, -⟩, -⟩
  rcases hlines _ hmem with h | h | h | h <;> cases h

end Dtu
