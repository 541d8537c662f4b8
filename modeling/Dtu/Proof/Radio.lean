import Dtu.Impl.RadioThreads

/-!
# The commands of the LLCC68 in order

Every function that drives the chip keeps to a place: `Lora_send` and
`Lora_recv_packet` do between taking and releasing `g_lora_lock`, once, all that they do
with the chip (`program_places`), and `RxInit` by itself does not take it. So while the
`RxInit` of `lora_receive_thread` and the calls that hold the lock keep apart
(`Radio.Excludes`), the commands of each call follow each other (`radio_apart`).
-/

namespace Dtu

open Program

/-! ## Places -/

/-- What an operation does to the place. -/
def placeEffect (o : RadioOp) (place : Place) (_ : o.Ans) : Option Place := some (place.next o)

/-- A program that never strays, and ends in a place with `Q`. -/
abbrev Places {α : Type} (p : RadioProgram α) (Q : Place → Prop) (place : Place) : Prop :=
  Wp placeEffect (· ≠ .stray) p (fun _ => Q) place

/-- A program that can be run with the lock or in a call without it. -/
def Stays {α : Type} (p : RadioProgram α) : Prop :=
  ∀ place, place = .locked ∨ place = .bare → Places p (· = place) place

variable {α β : Type} {p q : RadioProgram α}

theorem stays_pure (a : α) : Stays (pure a : RadioProgram α) := by
  rintro place (rfl | rfl) <;> exact ⟨nofun, rfl⟩

theorem Stays.bind {f : α → RadioProgram β} (hp : Stays p) (hf : ∀ a, Stays (f a)) : Stays (p >>= f) := by
  intro place hplace
  refine wp_bind.mpr ((hp place hplace).mono fun a place' _ heq => ?_)
  rw [heq]
  exact hf a place hplace

theorem Stays.ite {c : Prop} [Decidable c] (hp : Stays p) (hq : Stays q) : Stays (if c then p else q) := by
  split
  · exact hp
  · exact hq

theorem stays_busy : Stays (op RadioOp.busy) := by
  rintro place (rfl | rfl) <;> refine wp_op.mpr ⟨nofun, fun _ place' h => ?_⟩ <;> cases h <;> exact ⟨nofun, rfl⟩

theorem stays_dio1 : Stays (op RadioOp.dio1) := by
  rintro place (rfl | rfl) <;> refine wp_op.mpr ⟨nofun, fun _ place' h => ?_⟩ <;> cases h <;> exact ⟨nofun, rfl⟩

theorem stays_spi (tx : List UInt8) : Stays (op (RadioOp.spi tx)) := by
  rintro place (rfl | rfl) <;> refine wp_op.mpr ⟨nofun, fun _ place' h => ?_⟩ <;> cases h <;> exact ⟨nofun, rfl⟩

theorem stays_checkBusy (timeoutMs : Nat) : Stays (checkBusy timeoutMs) := by
  induction timeoutMs with
  | zero => exact stays_pure _
  | succ timeoutMs ih => exact stays_busy.bind fun _ => ih.ite (stays_pure _)

theorem stays_loraWriteCmd (opcode : UInt8) (params : List UInt8) : Stays (loraWriteCmd opcode params) :=
  .ite (stays_pure _) ((stays_checkBusy 100).bind fun _ =>
    .ite (stays_pure _) ((stays_spi _).bind fun _ => stays_pure _))

theorem stays_command (opcode : UInt8) (params : List UInt8) : Stays (command opcode params) :=
  (stays_checkBusy 100).bind fun _ => .ite (stays_pure _) ((stays_loraWriteCmd opcode params).bind fun _ => stays_pure _)

theorem stays_rxInit (payloadSize : UInt8) : Stays (rxInit payloadSize) :=
  (stays_command _ _).bind fun _ => (stays_command _ _).bind fun _ => (stays_command _ _).bind fun _ =>
    (stays_command _ _).bind fun _ => (stays_command _ _).bind fun _ => stays_command _ _

theorem stays_getIrqStatus : Stays getIrqStatus :=
  (stays_checkBusy 100).bind fun _ => .ite (stays_pure _) ((stays_spi _).bind fun _ => stays_pure _)

theorem stays_getRxBufferStatus : Stays getRxBufferStatus :=
  (stays_checkBusy 100).bind fun _ => .ite (stays_pure _) ((stays_spi _).bind fun _ => stays_pure _)

theorem stays_readBuffer (offset length : UInt8) : Stays (readBuffer offset length) :=
  .ite (stays_pure _) (.ite (stays_pure _) ((stays_checkBusy 100).bind fun _ =>
    .ite (stays_pure _) ((stays_spi _).bind fun _ => stays_pure _)))

theorem stays_writeBuffer (offset : UInt8) (data : List UInt8) : Stays (writeBuffer offset data) :=
  .ite (stays_pure _) (.ite (stays_pure _) ((stays_checkBusy 100).bind fun _ =>
    .ite (stays_pure _) ((stays_spi _).bind fun _ => stays_pure _)))

theorem stays_waitForIrqTxDone (timeoutMs : Nat) : Stays (waitForIrqTxDone timeoutMs) := by
  induction timeoutMs with
  | zero =>
    exact stays_getIrqStatus.bind fun _ => stays_dio1.bind fun _ => (stays_command _ _).bind fun _ => stays_pure _
  | succ timeoutMs ih =>
    refine stays_dio1.bind fun _ => .ite (stays_getIrqStatus.bind fun _ => .ite ?_ ?_) ih
    · exact (stays_command _ _).bind fun _ => stays_pure _
    · exact .ite ((stays_command _ _).bind fun _ => ih) ih

/-- With the lock, a program that stays there and what follows it. -/
theorem Stays.locked {f : α → RadioProgram β} {Q : Place → Prop} (hp : Stays p) (hf : ∀ a, Places (f a) Q .locked) :
    Places (p >>= f) Q .locked := by
  refine wp_bind.mpr ((hp .locked (.inl rfl)).mono fun a place _ heq => ?_)
  rw [heq]
  exact hf a

theorem places_lock {f : Unit → RadioProgram α} {Q : Place → Prop} (hf : Places (f ()) Q .locked) :
    Places (op RadioOp.lock >>= f) Q .before := by
  refine wp_op_bind.mpr ⟨nofun, fun _ place h => ?_⟩
  cases h
  exact hf

/-- At the end the lock is released. -/
theorem places_unlock (a : α) : Places (op RadioOp.unlock >>= fun _ => pure a) (· ≠ .locked) .locked := by
  refine wp_op_bind.mpr ⟨nofun, fun _ place h => ?_⟩
  cases h
  exact ⟨nofun, nofun⟩

theorem places_loraSend (payloadSize : UInt8) (payload : List UInt8) :
    Places (loraSend payloadSize payload) (· ≠ .locked) .before := by
  unfold loraSend
  split
  · exact ⟨nofun, nofun⟩
  refine places_lock ?_
  refine (stays_command _ _).locked fun _ => ?_
  refine (stays_command _ _).locked fun _ => ?_
  refine (stays_writeBuffer _ _).locked fun _ => ?_
  refine (stays_command _ _).locked fun _ => ?_
  refine (stays_command _ _).locked fun _ => ?_
  refine (stays_command _ _).locked fun _ => ?_
  refine (stays_command _ _).locked fun _ => ?_
  refine (stays_waitForIrqTxDone _).locked fun ok => ?_
  refine (stays_rxInit _).locked fun _ => ?_
  exact places_unlock _

theorem places_loraRecv (payloadSize : UInt8) (stale : List UInt8) :
    Places (loraRecv payloadSize stale) (· ≠ .locked) .before := by
  refine places_lock (stays_dio1.locked fun dio1 => ?_)
  split
  · exact places_unlock _
  refine stays_getIrqStatus.locked fun irqStatus => ?_
  split
  · exact (stays_command _ _).locked fun _ => places_unlock _
  refine stays_getRxBufferStatus.locked fun (packetSize, bufOffset) => ?_
  show Places (if packetSize = 0 ∨ payloadSize < packetSize then _ else _) _ _
  split
  · exact (stays_command _ _).locked fun _ => (stays_rxInit _).locked fun _ => places_unlock _
  refine (stays_readBuffer _ _).locked fun data => (stays_command _ _).locked fun _ => ?_
  exact (stays_rxInit _).locked fun _ => places_unlock _

/-- Each call keeps to its place, and ends without the lock. -/
theorem program_places (payloadSize : UInt8) (call : LoraCall) :
    Places (call.program payloadSize) (· ≠ .locked) call.place := by
  cases call with
  | rxInit =>
    refine wp_bind.mpr ((stays_rxInit payloadSize .bare (.inr rfl)).mono fun _ place _ heq => ?_)
    rw [heq]
    exact ⟨nofun, nofun⟩
  | recvPacket stale => exact places_loraRecv payloadSize stale
  | send payload =>
    exact wp_bind.mpr ((places_loraSend payloadSize payload).mono fun _ _ hstray hplace => ⟨hstray, hplace⟩)

/-! ## The threads -/

/-- What holds of a thread, given who has the lock and the calls whose commands the chip
has got. -/
structure ThreadInv (lock : Option LoraThread) (calls : List (LoraThread × Nat)) (t : LoraThread) (th : RadioThread) :
    Prop where
  program : Places th.program (· ≠ .locked) th.place
  locked : th.place = .locked ↔ lock = some t
  bare : th.place = .bare → th.call = some .rxInit
  receive : th.call = some .rxInit → t = .receive
  before : th.place = .before → (t, th.number) ∉ calls
  /-- The last command is one of a call that goes on. -/
  last : (t, th.number) ∈ calls → th.place = .locked ∨ th.place = .bare ∧ th.busy = true →
    calls.head? = some (t, th.number)
  apart : (t, th.number) ∈ calls → th.place = .bare → th.busy = true → lock = none

structure RadioInv (s : Radio) : Prop where
  threads : ∀ t, ThreadInv s.lock s.calls t (s.threads t)
  number : ∀ c ∈ s.calls, c.2 ≤ (s.threads c.1).number
  whole : Whole s.calls

theorem RadioInv.boot : RadioInv .boot where
  threads := fun _ => {
    program := ⟨nofun, nofun⟩
    locked := ⟨nofun, nofun⟩
    bare := nofun
    receive := nofun
    before := nofun
    last := nofun
    apart := nofun }
  number := nofun
  whole := trivial

variable {s : Radio} {t : LoraThread} {lock : Option LoraThread} {calls : List (LoraThread × Nat)} {th : RadioThread}

theorem goesOn_rxInit {call : Option LoraCall} {r : Int × List UInt8} (h : t.goesOn call r .rxInit = true) :
    t = .receive := by
  cases t with
  | receive => rfl
  | transform => cases h
  | bluetooth => cases h

theorem LoraCall.place_cases (call : LoraCall) : call.place = .bare ∧ call = .rxInit ∨ call.place = .before := by
  cases call with
  | rxInit => exact .inl ⟨rfl, rfl⟩
  | recvPacket stale => exact .inr rfl
  | send payload => exact .inr rfl

/-- A thread that has returned does not hold the lock. -/
theorem ThreadInv.not_locked (h : ThreadInv lock calls t th) {r : Int × List UInt8} (hret : th.program = .ret r) :
    lock ≠ some t := by
  have hprogram := h.program
  rw [hret] at hprogram
  exact fun hlock => hprogram.2 (h.locked.mpr hlock)

/-- A thread begins a call. -/
theorem ThreadInv.begin (h : ThreadInv lock calls t th) {r : Int × List UInt8} (hret : th.program = .ret r)
    {call : LoraCall} (hgoes : t.goesOn th.call r call = true) (hnew : (t, th.number + 1) ∉ calls) (payloadSize : UInt8) :
    ThreadInv lock calls t (th.begin payloadSize call) where
  program := program_places payloadSize call
  locked := by
    refine iff_of_false ?_ (h.not_locked hret)
    show call.place ≠ .locked
    rcases call.place_cases with ⟨hplace, -⟩ | hplace <;> rw [hplace] <;> decide
  bare := fun hbare => by
    rcases call.place_cases with ⟨-, rfl⟩ | hplace
    · rfl
    · exact absurd (hplace.symm.trans hbare) (by decide)
  receive := fun hcall => by
    cases hcall
    exact goesOn_rxInit hgoes
  before := fun _ => hnew
  last := fun hmem => absurd hmem hnew
  apart := fun hmem => absurd hmem hnew

/-- Where an operation can be. -/
theorem ThreadInv.next_ne (h : ThreadInv lock calls t th) {o : RadioOp} {next : o.Ans → RadioProgram (Int × List UInt8)}
    (hcall : th.program = .call o next) (a : o.Ans) :
    Places (next a) (· ≠ .locked) (th.place.next o) ∧ th.place.next o ≠ .stray := by
  have hprogram := h.program
  rw [hcall] at hprogram
  have hnext := hprogram.2 a _ rfl
  exact ⟨hnext, hnext.holds⟩

theorem busy_of_call {o : RadioOp} {next : o.Ans → RadioProgram (Int × List UInt8)} (hcall : th.program = .call o next) :
    th.busy = true := by
  rw [RadioThread.busy, hcall]

/-- An operation on the chip keeps the place. -/
theorem Place.next_eq {o : RadioOp} (ho : o ≠ .lock ∧ o ≠ .unlock) {place : Place} (h : place.next o ≠ .stray) :
    place.next o = place ∧ (place = .locked ∨ place = .bare) := by
  cases place with
  | locked =>
    cases o with
    | lock => exact absurd rfl ho.1
    | unlock => exact absurd rfl ho.2
    | busy => exact ⟨rfl, .inl rfl⟩
    | dio1 => exact ⟨rfl, .inl rfl⟩
    | spi tx => exact ⟨rfl, .inl rfl⟩
  | bare =>
    cases o with
    | lock => exact absurd rfl ho.1
    | unlock => exact absurd rfl ho.2
    | busy => exact ⟨rfl, .inr rfl⟩
    | dio1 => exact ⟨rfl, .inr rfl⟩
    | spi tx => exact ⟨rfl, .inr rfl⟩
  | before => cases o <;> first | exact absurd rfl h | exact absurd rfl ho.1
  | after => cases o <;> exact absurd rfl h
  | stray => cases o <;> exact absurd rfl h

/-- A thread takes the lock in its place for that. -/
theorem Place.next_lock {place : Place} (h : place.next .lock ≠ .stray) : place = .before := by
  cases place <;> first | rfl | exact absurd rfl h

theorem Place.next_unlock {place : Place} (h : place.next .unlock ≠ .stray) : place = .locked := by
  cases place <;> first | rfl | exact absurd rfl h

/-- After the release of the lock a call has returned. -/
theorem ThreadInv.returned (h : ThreadInv lock calls t th) (hplace : th.place = .after) : th.busy = false := by
  cases hcall : th.program with
  | ret r => rw [RadioThread.busy, hcall]
  | call o next =>
    have hstray : ∀ _ : o.Ans, False := fun a => by
      refine (h.next_ne hcall a).2 ?_
      rw [hplace]
      cases o <;> rfl
    cases o with
    | busy => exact (hstray false).elim
    | dio1 => exact (hstray false).elim
    | spi tx => exact (hstray []).elim
    | lock => exact (hstray ()).elim
    | unlock => exact (hstray ()).elim

section Operations

variable {o : RadioOp} {next : o.Ans → RadioProgram (Int × List UInt8)} {u : LoraThread} {thu : RadioThread}

/-- A thread reads a line. -/
theorem ThreadInv.read (h : ThreadInv lock calls t th) (hcall : th.program = .call o next) (a : o.Ans)
    (ho : o ≠ .lock ∧ o ≠ .unlock) : ThreadInv lock calls t (th.goOn o (next a)) := by
  obtain ⟨hprogram, hstray⟩ := h.next_ne hcall a
  obtain ⟨hsame, hplace⟩ := Place.next_eq ho hstray
  have hbusy := busy_of_call hcall
  exact {
    program := hprogram
    locked := by
      show th.place.next o = .locked ↔ _
      rw [hsame]
      exact h.locked
    bare := fun hbare => h.bare (hsame.symm.trans hbare)
    receive := h.receive
    before := fun hbefore => h.before (hsame.symm.trans hbefore)
    last := fun hmem _ => h.last hmem (hplace.imp id fun hbare => ⟨hbare, hbusy⟩)
    apart := fun hmem hbare _ => h.apart hmem (hsame.symm.trans hbare) hbusy }

/-- A thread gives the chip a command. -/
theorem ThreadInv.command (h : ThreadInv lock calls t th) (hcall : th.program = .call o next) (a : o.Ans)
    (ho : o ≠ .lock ∧ o ≠ .unlock) (hexcludes : th.place = .bare → lock = none) :
    ThreadInv lock ((t, th.number) :: calls) t (th.goOn o (next a)) := by
  obtain ⟨-, hstray⟩ := h.next_ne hcall a
  obtain ⟨hsame, hplace⟩ := Place.next_eq ho hstray
  have hread := h.read hcall a ho
  exact {
    program := hread.program
    locked := hread.locked
    bare := hread.bare
    receive := hread.receive
    before := fun hbefore => by
      have hbefore := hsame.symm.trans hbefore
      rcases hplace with hlocked | hbare
      · exact absurd (hlocked.symm.trans hbefore) (by decide)
      · exact absurd (hbare.symm.trans hbefore) (by decide)
    last := fun _ _ => rfl
    apart := fun _ hbare _ => hexcludes (hsame.symm.trans hbare) }

/-- Another thread gives the chip a command. -/
theorem ThreadInv.other_command (h : ThreadInv lock calls u thu) (hne : u ≠ t) {n : Nat}
    (hquiet : (u, thu.number) ∈ calls → ¬(thu.place = .locked ∨ thu.place = .bare ∧ thu.busy = true)) :
    ThreadInv lock ((t, n) :: calls) u thu := by
  have hmem : (u, thu.number) ∈ (t, n) :: calls → (u, thu.number) ∈ calls := fun hmem =>
    (List.mem_cons.mp hmem).resolve_left fun heq => hne (congrArg Prod.fst heq)
  exact { h with
    before := fun hbefore hin => h.before hbefore (hmem hin)
    last := fun hin hgoes => absurd hgoes (hquiet (hmem hin))
    apart := fun hin => h.apart (hmem hin) }

/-- A thread takes the lock. -/
theorem ThreadInv.takes (h : ThreadInv none calls t th) {next : Unit → RadioProgram (Int × List UInt8)}
    (hcall : th.program = .call .lock next) : ThreadInv (some t) calls t (th.goOn .lock (next ())) := by
  obtain ⟨hprogram, hstray⟩ := h.next_ne hcall ()
  have hbefore := Place.next_lock hstray
  have hlocked : th.place.next .lock = .locked := by rw [hbefore]; rfl
  exact {
    program := hprogram
    locked := iff_of_true hlocked rfl
    bare := fun hbare => absurd (hlocked.symm.trans hbare) (by decide)
    receive := h.receive
    before := fun hplace => absurd (hlocked.symm.trans hplace) (by decide)
    last := fun hmem => absurd hmem (h.before hbefore)
    apart := fun hmem => absurd hmem (h.before hbefore) }

theorem ThreadInv.other_takes (h : ThreadInv none calls u thu) (hne : u ≠ t)
    (hexcludes : thu.place = .bare → ¬(thu.busy = true ∧ (u, thu.number) ∈ calls)) :
    ThreadInv (some t) calls u thu :=
  { h with
    locked := iff_of_false (fun hlocked => nomatch h.locked.mp hlocked) fun heq => hne (Option.some.inj heq).symm
    apart := fun hmem hbare hbusy => absurd ⟨hbusy, hmem⟩ (hexcludes hbare) }

/-- A thread releases the lock. -/
theorem ThreadInv.releases (h : ThreadInv (some t) calls t th) {next : Unit → RadioProgram (Int × List UInt8)}
    (hcall : th.program = .call .unlock next) : ThreadInv none calls t (th.goOn .unlock (next ())) := by
  obtain ⟨hprogram, hstray⟩ := h.next_ne hcall ()
  have hlocked := Place.next_unlock hstray
  have hafter : th.place.next .unlock = .after := by rw [hlocked]; rfl
  exact {
    program := hprogram
    locked := iff_of_false (fun hplace => absurd (hafter.symm.trans hplace) (by decide)) nofun
    bare := fun hbare => absurd (hafter.symm.trans hbare) (by decide)
    receive := h.receive
    before := fun hplace => absurd (hafter.symm.trans hplace) (by decide)
    last := fun _ hgoes => by
      rcases hgoes with hplace | ⟨hplace, -⟩
      · exact absurd (hafter.symm.trans hplace) (by decide)
      · exact absurd (hafter.symm.trans hplace) (by decide)
    apart := fun _ _ _ => rfl }

theorem ThreadInv.other_releases (h : ThreadInv (some t) calls u thu) (hne : u ≠ t) : ThreadInv none calls u thu :=
  { h with
    locked := iff_of_false (fun hlocked => hne (Option.some.inj (h.locked.mp hlocked)).symm) nofun
    apart := fun _ _ _ => rfl }

end Operations

/-! ## Runs -/

/-- What the threads are after one of them has moved. -/
theorem forall_update {I : LoraThread → RadioThread → Prop} {threads : LoraThread → RadioThread} {th : RadioThread}
    (ht : I t th) (hothers : ∀ u, u ≠ t → I u (threads u)) : ∀ u, I u (Function.update threads t th u) := by
  intro u
  by_cases hu : u = t
  · subst hu
    rw [Function.update_self]
    exact ht
  · rw [Function.update_of_ne hu]
    exact hothers u hu

/-- The number of calls does not go back. -/
theorem number_update (threads : LoraThread → RadioThread) {th : RadioThread} (h : (threads t).number ≤ th.number)
    (u : LoraThread) : (threads u).number ≤ (Function.update threads t th u).number := by
  by_cases hu : u = t
  · subst hu
    rw [Function.update_self]
    exact h
  · rw [Function.update_of_ne hu]

/-- Every step that keeps the calls apart keeps the invariant. -/
theorem RadioInv.step (h : RadioInv s) {payloadSize : UInt8} {a : RadioAction} {s' : Radio} (hexcludes : s.Excludes a)
    (hs : s.step payloadSize a = some (s', ())) : RadioInv s' := by
  cases a with
  | begin t call =>
    simp only [Radio.step] at hs
    split at hs
    · rename_i r hret
      simp only [Option.ite_none_right_eq_some, Option.some.injEq, Prod.mk.injEq, and_true] at hs
      obtain ⟨hgoes, rfl⟩ := hs
      have hnew : (t, (s.threads t).number + 1) ∉ s.calls := fun hmem => Nat.not_succ_le_self _ (h.number _ hmem)
      exact {
        threads := forall_update ((h.threads t).begin hret hgoes hnew payloadSize) fun u _ => h.threads u
        number := fun c hc => Nat.le_trans (h.number c hc) (number_update s.threads (Nat.le_succ _) c.1)
        whole := h.whole }
    · cases hs
  | answer t ans =>
    simp only [Radio.step] at hs
    split at hs
    · cases hs
    rename_i o next hcall
    obtain ⟨a, -, hs⟩ := Option.bind_eq_some_iff.mp hs
    obtain ⟨s₁, hop, hs⟩ := Option.map_eq_some_iff.mp hs
    cases hs
    have ht := h.threads t
    have hupdate : ∀ u, (s.threads u).number ≤ (Function.update s.threads t ((s.threads t).goOn o (next a)) u).number :=
      number_update s.threads (Nat.le_refl _)
    have hnumber : ∀ c ∈ s.calls, c.2 ≤ (Function.update s.threads t ((s.threads t).goOn o (next a)) c.1).number :=
      fun c hc => Nat.le_trans (h.number c hc) (hupdate c.1)
    rw [Radio.Excludes, hcall] at hexcludes
    change s.ExcludesOp t o at hexcludes
    cases o with
    | busy =>
      cases hop
      exact ⟨forall_update (ht.read hcall a ⟨nofun, nofun⟩) fun u _ => h.threads u, hnumber, h.whole⟩
    | dio1 =>
      cases hop
      exact ⟨forall_update (ht.read hcall a ⟨nofun, nofun⟩) fun u _ => h.threads u, hnumber, h.whole⟩
    | spi tx =>
      cases hop
      obtain ⟨-, hplace⟩ := Place.next_eq (o := .spi tx) ⟨nofun, nofun⟩ (ht.next_ne hcall a).2
      refine ⟨forall_update (ht.command hcall a ⟨nofun, nofun⟩ hexcludes) fun u hne =>
        (h.threads u).other_command hne fun hmem hgoes => ?_, fun c hc => ?_, ?_, h.whole⟩
      · -- Nobody else is in a call that goes on.
        rcases hplace with hlocked | hbare
        · rcases hgoes with hother | ⟨hother, hbusy⟩
          · exact hne (Option.some.inj (((h.threads u).locked.mp hother).symm.trans (ht.locked.mp hlocked)))
          · exact absurd ((ht.locked.mp hlocked).symm.trans ((h.threads u).apart hmem hother hbusy)) nofun
        · rcases hgoes with hother | ⟨hother, -⟩
          · exact absurd (((h.threads u).locked.mp hother).symm.trans (hexcludes hbare)) nofun
          · have hu := (h.threads u).receive ((h.threads u).bare hother)
            exact hne (hu.trans (ht.receive (ht.bare hbare)).symm)
      · rcases List.mem_cons.mp hc with rfl | hc
        · exact hupdate t
        · exact hnumber c hc
      · by_cases hmem : (t, (s.threads t).number) ∈ s.calls
        · exact .inl (ht.last hmem (hplace.imp id fun hbare => ⟨hbare, busy_of_call hcall⟩))
        · exact .inr hmem
    | lock =>
      simp only [Radio.operate, Option.ite_none_right_eq_some, Option.some.injEq] at hop
      obtain ⟨hfree, rfl⟩ := hop
      have hthreads := h.threads
      rw [hfree] at hthreads
      exact ⟨forall_update ((hthreads t).takes hcall) fun u hne => (hthreads u).other_takes hne (hexcludes u),
        hnumber, h.whole⟩
    | unlock =>
      simp only [Radio.operate, Option.ite_none_right_eq_some, Option.some.injEq] at hop
      obtain ⟨hheld, rfl⟩ := hop
      have hthreads := h.threads
      rw [hheld] at hthreads
      exact ⟨forall_update ((hthreads t).releases hcall) fun u hne => (hthreads u).other_releases hne,
        hnumber, h.whole⟩

/-- In every run in which `RxInit` outside of `g_lora_lock` and the calls that hold it
keep apart, the chip gets whole calls, and a `Lora_send` is not disturbed. -/
theorem radio_apart (payloadSize : UInt8) (h : Runs (Radio.step payloadSize) Radio.Excludes .boot s) : s.Apart := by
  have hinv : RadioInv s := h.invariant .boot fun _ _ _ _ hinv hexcludes hs => hinv.step hexcludes hs
  refine ⟨hinv.whole, fun t payload hcall hcommanding => ?_⟩
  obtain ⟨hbusy, hmem⟩ := hcommanding
  have ht := hinv.threads t
  refine ht.last hmem (.inl ?_)
  cases hplace : (s.threads t).place with
  | locked => rfl
  | before => exact absurd hmem (ht.before hplace)
  | bare => cases hcall.symm.trans (ht.bare hplace)
  | after => exact absurd (ht.returned hplace) (by simpa using hbusy)
  | stray => exact absurd hplace ht.program.holds

/-- The answers to a command of a thread: the chip is ready. -/
def ready (t : LoraThread) : List RadioAction :=
  [.answer t (.level false), .answer t (.level false), .answer t (.bytes [])]

/-- `lora_transform_thread` sends a byte, up to `SetTx`. -/
def sendRun : List RadioAction :=
  [.begin .transform (.send [0x31]), .answer .transform .done] ++ ready .transform ++ ready .transform ++
    [.answer .transform (.level false), .answer .transform (.bytes [])] ++ (List.replicate 4 (ready .transform)).flatten

/-- `lora_receive_thread` initialises the chip. -/
def startRun : List RadioAction := .begin .receive .rxInit :: (List.replicate 6 (ready .receive)).flatten

theorem radio_apart_send :
    ∃ s, runList (Radio.step 64) (fun s a => decide (s.Excludes a)) .boot (startRun ++ sendRun) = some s ∧
      s.calls = List.replicate 7 (.transform, 1) ++ List.replicate 6 (.receive, 1) ∧ s.Apart := by
  have hrun : (runList (Radio.step 64) (fun s a => decide (s.Excludes a)) .boot (startRun ++ sendRun)).map Radio.calls =
      some (List.replicate 7 (.transform, 1) ++ List.replicate 6 (.receive, 1)) := by
    decide +kernel
  obtain ⟨s, hs, hcalls⟩ := Option.map_eq_some_iff.mp hrun
  exact ⟨s, hs, hcalls, radio_apart 64 (Runs.of_runList (fun _ _ => of_decide_eq_true) .start hs)⟩

/-- `lora_receive_thread` initialises the chip, and is given a packet without bytes. The
other thread sends; the first one initialises the chip again. -/
def abortRun : List RadioAction :=
  startRun ++
    [.begin .receive (.recvPacket []), .answer .receive .done, .answer .receive (.level true),
      .answer .receive (.level false), .answer .receive (.bytes [0, 0, 0, 2]),
      .answer .receive (.level false), .answer .receive (.bytes [0, 0, 0, 0])] ++
    (List.replicate 7 (ready .receive)).flatten ++ [.answer .receive .done] ++ sendRun ++
    .begin .receive .rxInit :: ready .receive

/-- What the chip gets then: `SetStandby` of `RxInit` right after `SetTx` of a `Lora_send` that
goes on. -/
theorem radio_aborted :
    ∃ s, Runs (Radio.step 64) (fun _ _ => True) .boot s ∧
      s.trace.take 2 = [((.receive, 3), [0x80, 0x00]), ((.transform, 1), [0x83, 0x00, 0x00, 0x00])] ∧ ¬s.Apart := by
  have hrun : (runList (Radio.step 64) (fun _ _ => true) .boot abortRun).map (fun s =>
      (s.trace.take 2, (s.threads .transform).call, decide (s.Commanding .transform))) =
      some ([((.receive, 3), [0x80, 0x00]), ((.transform, 1), [0x83, 0x00, 0x00, 0x00])], some (.send [0x31]), true) := by
    decide +kernel
  obtain ⟨s, hs, heq⟩ := Option.map_eq_some_iff.mp hrun
  simp only [Prod.mk.injEq, decide_eq_true_eq] at heq
  obtain ⟨htrace, hcall, hcommanding⟩ := heq
  refine ⟨s, Runs.of_runList (fun _ _ _ => trivial) .start hs, htrace, fun hapart => ?_⟩
  have hlast := hapart.sending .transform [0x31] hcall hcommanding
  have hhead := congrArg (fun trace => trace.head?.map Prod.fst) htrace
  rw [List.head?_take, if_neg (by decide), ← List.head?_map] at hhead
  cases hlast.symm.trans hhead

end Dtu
