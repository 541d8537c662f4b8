import Dtu.Impl.Wakeup

/-!
# Wakeups are not lost

`g_data_wakeup_seq` is ahead of `wakeup_seq_seen` by the notifications since that was
read (`WakeInv.counted`), up to a multiple of 2^32, and it is read before the logs are
(`WakeInv.reading`). So where `main_send_thread` waits although a line has come in
since, there have been 2^32 notifications (`wakeup_not_lost`).
-/

namespace Dtu

variable {s : Wakeup}

/-! ## The iterations -/

/-- The iterations of `main_send_thread` go on as the steps have it. -/
theorem turn_next {m m' : MainSend} {t : Turn} {c : Option Commit} (hgateway : t.meshNode = false)
    (h : m.turn t = some (m', c)) : m'.state ∈ m.state.next := by
  rw [MainSend.turn, hgateway, if_neg Bool.false_ne_true] at h
  cases hstate : m.state with
  | idle =>
    simp only [hstate, MainSend.idle, Option.map_map, Option.map_eq_some_iff] at h
    obtain ⟨r, -, h⟩ := h
    cases h
    simp only [apply_ite MainSend.state]
    split_ifs <;> simp [MainSt.next]
  | try4g =>
    simp only [hstate, Option.some.injEq] at h
    cases congrArg Prod.fst h
    simp only [MainSend.try4g, MainSend.fail4g]
    split_ifs <;> simp [MainSt.next]
  | tryBd =>
    simp only [hstate, MainSend.tryBd, Option.map_eq_some_iff] at h
    obtain ⟨r, -, h⟩ := h
    cases congrArg Prod.fst h
    simp only [MainSend.failBd]
    split_ifs <;> simp [MainSt.next]
  | bdWait =>
    simp only [hstate] at h
    cases h
    rw [MainSend.bdWait]
    split_ifs <;> simp [MainSt.next]
  | powerDown =>
    simp only [hstate] at h
    cases h
    rw [MainSend.powerDown]
    split_ifs <;> simp [MainSt.next]

/-! ## The invariant -/

@[simp] theorem notificationsSince_sampled (history : List WakeEvent) :
    notificationsSince (.sampled :: history) = 0 := by
  simp [notificationsSince]

theorem notificationsSince_cons {e : WakeEvent} (he : e ≠ .sampled) (history : List WakeEvent) :
    notificationsSince (e :: history) = notificationsSince history + if e.isNotification then 1 else 0 := by
  rw [notificationsSince, List.takeWhile_cons, if_pos (by simpa using he), List.countP_cons]
  rfl

/-- From the reading of the logs to the wait, if they are found empty. -/
def Wakeup.Draining (s : Wakeup) : Prop :=
  s.main = .packing ∨ s.drained = true ∧ (s.main = .loop .powerDown ∨ s.main = .lock .powerHold ∨
    s.main = .lock .powerDown ∨ s.main = .wait .powerHold ∨ s.main = .wait .powerDown)

structure WakeInv (s : Wakeup) : Prop where
  counted : s.main ≠ .start → s.gDataWakeupSeq = s.wakeupSeqSeen + UInt32.ofNat (notificationsSince s.history)
  logged : ∀ line older, (.notified line :: older) <:+ s.history → .logged line ∈ older
  writer : ∀ line, s.writer = some line → .logged line ∈ s.history
  reading : s.Draining → ¬Since .sampled .reading s.history

theorem WakeInv.boot : WakeInv .boot where
  counted := fun h => absurd rfl h
  logged := fun _ _ h => by simp [Wakeup.boot] at h
  writer := nofun
  reading := fun h => by simp [Wakeup.Draining, Wakeup.boot] at h

/-- `main_send_thread` goes on. -/
theorem WakeInv.goto (h : WakeInv s) {main : WakePc} {drained : Bool} (hstart : main ≠ .start → s.main ≠ .start)
    (hreading : Wakeup.Draining { s with main := main, drained := drained } → ¬Since .sampled .reading s.history) :
    WakeInv { s with main := main, drained := drained } :=
  ⟨fun hne => h.counted (hstart hne), h.logged, h.writer, hreading⟩

/-- It goes where no reading of the logs counts. -/
theorem WakeInv.leave (h : WakeInv s) {main : WakePc} {drained : Bool} (hmain : s.main ≠ .start)
    (hnot : ¬Wakeup.Draining { s with main := main, drained := drained }) :
    WakeInv { s with main := main, drained := drained } :=
  h.goto (fun _ => hmain) fun hdraining => absurd hdraining hnot

/-- A line is logged, or the reading of the logs begins. -/
theorem WakeInv.event (h : WakeInv s) {e : WakeEvent} (he : e ≠ .sampled) (hsilent : e.isNotification = false)
    {main : WakePc} {writer : Option Nat} {lines : Nat} (hstart : main ≠ .start → s.main ≠ .start)
    (hwriter : ∀ line, writer = some line → .logged line ∈ e :: s.history)
    (hreading : Wakeup.Draining { s with main := main } → ¬Since .sampled .reading (e :: s.history)) :
    WakeInv { s with main := main, writer := writer, lines := lines, history := e :: s.history } where
  counted := fun hne => by
    rw [notificationsSince_cons he, hsilent]
    exact h.counted (hstart hne)
  logged := fun line older hsuffix => by
    rcases List.suffix_cons_iff.mp hsuffix with heq | hsuffix
    · cases heq
      cases hsilent
    · exact h.logged line older hsuffix
  writer := hwriter
  reading := hreading

/-- `notify_data_wakeup` is called. -/
theorem WakeInv.notify (h : WakeInv s) {e : WakeEvent} (he : e.isNotification = true)
    (hlogged : ∀ line, e = .notified line → .logged line ∈ s.history) {writer : Option Nat}
    (hwriter : ∀ line, writer = some line → s.writer = some line) :
    WakeInv { s.notifyDataWakeup e with writer := writer } where
  counted := fun hne => by
    have hsampled : e ≠ .sampled := by
      rintro rfl
      cases he
    show s.gDataWakeupSeq + 1 = s.wakeupSeqSeen + UInt32.ofNat (notificationsSince (e :: s.history))
    rw [notificationsSince_cons hsampled, if_pos he, UInt32.ofNat_add, ← UInt32.add_assoc, ← h.counted hne]
    rfl
  logged := fun line older hsuffix => by
    rcases List.suffix_cons_iff.mp hsuffix with heq | hsuffix
    · cases heq
      exact hlogged line rfl
    · exact h.logged line older hsuffix
  writer := fun line hline => List.mem_cons_of_mem _ (h.writer line (hwriter line hline))
  reading := fun hdraining hsince => by
    have hsampled : e ≠ .sampled := by
      rintro rfl
      cases he
    exact h.reading hdraining (Since.tail hsince hsampled)

/-- `main_data_wakeup` returns. -/
theorem WakeInv.sample (h : WakeInv s) {state : MainSt} (hstate : state ≠ .powerDown) : WakeInv (s.sample state) where
  counted := fun _ => by
    show s.gDataWakeupSeq = s.gDataWakeupSeq + UInt32.ofNat (notificationsSince (.sampled :: s.history))
    rw [notificationsSince_sampled]
    exact (UInt32.add_zero _).symm
  logged := fun line older hsuffix => by
    rcases List.suffix_cons_iff.mp hsuffix with heq | hsuffix
    · cases heq
    · exact h.logged line older hsuffix
  writer := fun line hline => List.mem_cons_of_mem _ (h.writer line hline)
  reading := fun hdraining => by
    refine absurd hdraining ?_
    simpa [Wakeup.Draining, Wakeup.sample] using fun _ => hstate

theorem WakeCall.after_ne (call : WakeCall) : call.after ≠ .powerDown := by
  cases call <;> decide

/-- Every step of every thread keeps the invariant. -/
theorem WakeInv.step (h : WakeInv s) {a : WakeAction} {s' : Wakeup} (hs : s.step a = some (s', ())) : WakeInv s' := by
  cases a with
  | log =>
    simp only [Wakeup.step, Option.ite_none_right_eq_some, Option.some.injEq, Prod.mk.injEq, and_true] at hs
    obtain ⟨-, rfl⟩ := hs
    refine h.event (by simp) rfl id (fun line hline => ?_) fun hdraining hsince => ?_
    · cases hline
      exact List.mem_cons_self
    · exact h.reading hdraining (hsince.tail (by simp))
  | notify =>
    simp only [Wakeup.step, Option.map_eq_some_iff, Prod.mk.injEq, and_true] at hs
    obtain ⟨line, hline, rfl⟩ := hs
    refine h.notify rfl (fun line' heq => ?_) nofun
    cases heq
    exact h.writer line hline
  | notifyExtra =>
    cases hs
    exact h.notify rfl (fun _ heq => by cases heq) fun _ hline => hline
  | start =>
    simp only [Wakeup.step, Option.ite_none_right_eq_some, Option.some.injEq, Prod.mk.injEq, and_true] at hs
    obtain ⟨-, rfl⟩ := hs
    exact h.sample (by decide)
  | pack =>
    simp only [Wakeup.step, Option.ite_none_right_eq_some, Option.some.injEq, Prod.mk.injEq, and_true] at hs
    obtain ⟨hmain, rfl⟩ := hs
    refine h.event (by simp) rfl (fun _ => by rw [hmain]; simp)
      (fun line hline => List.mem_cons_of_mem _ (h.writer line hline)) fun _ hsince => ?_
    rw [Since, List.takeWhile_cons, if_neg (by simp)] at hsince
    cases hsince
  | packed result =>
    simp only [Wakeup.step, Option.ite_none_right_eq_some] at hs
    obtain ⟨hmain, hs⟩ := hs
    have hreading := h.reading (.inl hmain)
    cases result with
    | failed =>
      cases hs
      exact h.goto (fun _ => by rw [hmain]; simp) fun _ => hreading
    | empty =>
      cases hs
      exact h.goto (fun _ => by rw [hmain]; simp) fun _ => hreading
    | entries toBd =>
      cases hs
      exact h.goto (fun _ => by rw [hmain]; simp) fun _ => hreading
  | turn next =>
    simp only [Wakeup.step] at hs
    split at hs
    · rename_i hmain
      simp only [Option.ite_none_right_eq_some, Option.some.injEq, Prod.mk.injEq, and_true] at hs
      obtain ⟨-, rfl⟩ := hs
      exact h.leave (by rw [hmain]; simp) (by simp [Wakeup.Draining])
    · rename_i hmain
      simp only [Option.ite_none_right_eq_some, Option.some.injEq, Prod.mk.injEq, and_true] at hs
      obtain ⟨-, rfl⟩ := hs
      exact h.leave (by rw [hmain]; simp) (by simp [Wakeup.Draining])
    · rename_i hmain
      simp only [Option.ite_none_right_eq_some, Option.some.injEq, Prod.mk.injEq, and_true] at hs
      obtain ⟨-, rfl⟩ := hs
      exact h.leave (by rw [hmain]; simp) (by simp [Wakeup.Draining])
    · cases hs
  | await call =>
    simp only [Wakeup.step] at hs
    split at hs
    · rename_i hmain
      cases hs
      exact h.leave (by rw [hmain]; simp) (by simp [Wakeup.Draining])
    · rename_i hmain
      cases hs
      refine h.goto (fun _ => by rw [hmain]; simp) fun hdraining => h.reading (.inr ⟨?_, .inl hmain⟩)
      simpa [Wakeup.Draining] using hdraining
    · rename_i hmain
      cases hs
      refine h.goto (fun _ => by rw [hmain]; simp) fun hdraining => h.reading (.inr ⟨?_, .inl hmain⟩)
      simpa [Wakeup.Draining] using hdraining
    · cases hs
  | lock =>
    simp only [Wakeup.step] at hs
    split at hs
    · rename_i call hmain
      split at hs
      · cases hs
        refine h.goto (fun _ => by rw [hmain]; simp) fun hdraining => h.reading ?_
        simpa [Wakeup.Draining, hmain] using hdraining
      · cases hs
        exact h.sample call.after_ne
    · cases hs
  | wake timeout =>
    simp only [Wakeup.step] at hs
    split at hs
    · rename_i call hmain
      simp only [Option.ite_none_right_eq_some, Option.some.injEq, Prod.mk.injEq, and_true] at hs
      obtain ⟨-, rfl⟩ := hs
      exact h.sample call.after_ne
    · cases hs

theorem Wakeup.Reach.inv (h : s.Reach) : WakeInv s :=
  Runs.invariant .boot (fun _ _ _ _ hinv _ hs => hinv.step hs) h

/-! ## Where `main_send_thread` waits -/

theorem Wakeup.Calls.draining (h : s.Calls) : s.Draining := by
  obtain ⟨hdrained, call, rfl | rfl, hmain | hmain⟩ := h <;> exact .inr ⟨hdrained, by simp [hmain]⟩

/-- Where `main_send_thread` has not been told of a notification. -/
theorem WakeInv.before (hinv : WakeInv s) (hcalls : s.Calls) (hseq : s.gDataWakeupSeq = s.wakeupSeqSeen)
    (hfew : notificationsSince s.history < 2 ^ 32) {line : Nat} (hnotified : .notified line ∈ s.history) :
    Before (.logged line) .reading s.history := by
  -- There has been no notification since the sequence number was read.
  have hnone : notificationsSince s.history = 0 := by
    have hcounted := hinv.counted fun hstart => by
      obtain ⟨-, call, -, hmain | hmain⟩ := hcalls <;> cases hstart.symm.trans hmain
    rw [hseq] at hcounted
    have hnat := congrArg UInt32.toNat (UInt32.left_eq_add.mp hcounted)
    rwa [UInt32.toNat_ofNat_of_lt' hfew] at hnat
  have hbefore : Before (.notified line) .sampled s.history := by
    rw [← List.takeWhile_append_dropWhile (l := s.history) (p := (· ≠ .sampled)), List.mem_append] at hnotified
    refine hnotified.resolve_left fun hsince => ?_
    have hcount := List.countP_eq_zero.mp hnone _ hsince
    exact hcount rfl
  obtain ⟨newer, older, hsplit⟩ := List.append_of_mem hbefore
  have hlogged : .logged line ∈ older := by
    refine hinv.logged line older ?_
    exact (hsplit ▸ List.suffix_append _ _).trans (List.dropWhile_suffix _)
  refine Before.of_not_since (hinv.reading hcalls.draining) ?_
  rw [Before, hsplit]
  exact List.mem_append_right _ (List.mem_cons_of_mem _ hlogged)

/-- While there have been fewer than 2^32 notifications since `g_data_wakeup_seq` was read:
where `main_send_thread` is blocked after it has found no entries, every line that has been
notified was in its log when `main_pack_pending` began to read; and a line that was not
makes the call return. -/
theorem wakeup_not_lost (h : s.Reach) (hfew : notificationsSince s.history < 2 ^ 32) :
    (s.Blocked → ∀ line, .notified line ∈ s.history → Before (.logged line) .reading s.history) ∧
      (s.Calls → ∀ line, .notified line ∈ s.history → ¬Before (.logged line) .reading s.history → s.Returns) := by
  refine ⟨fun hblocked line hnotified => h.inv.before hblocked.1 hblocked.2.2 hfew hnotified, ?_⟩
  intro hcalls line hnotified hlate
  have hseq : s.gDataWakeupSeq ≠ s.wakeupSeqSeen := fun hseq => hlate (h.inv.before hcalls hseq hfew hnotified)
  obtain ⟨-, call, hcall, hmain | hmain⟩ := hcalls
  · refine .inl ?_
    simp only [Wakeup.step, hmain, if_neg hseq]
    rcases hcall with rfl | rfl <;> rfl
  · refine .inr ?_
    simp only [Wakeup.step, hmain, if_pos (Or.inr hseq)]
    rcases hcall with rfl | rfl <;> rfl

theorem wakeup_not_lost_one :
    Before (WakeEvent.logged 0) .reading [.reading, .sampled, .reading, .notified 0, .logged 0, .sampled] := by
  have hrun : runList Wakeup.step (fun _ _ => true) .boot [.start, .log, .notify, .pack, .packed .empty,
      .await .powerDown, .lock, .pack, .packed .empty, .await .powerDown, .lock] =
      some ⟨1, 1, .wait .powerDown, none, 1, true,
        [.reading, .sampled, .reading, .notified 0, .logged 0, .sampled]⟩ := rfl
  have hreach : Wakeup.Reach _ := Runs.of_runList (fun _ _ _ => trivial) .start hrun
  refine (wakeup_not_lost hreach (by decide)).1 ⟨?_, .inr rfl, rfl⟩ 0 (by decide)
  exact ⟨rfl, .powerDown, .inr rfl, .inr rfl⟩

/-- The Bluetooth thread can notify any number of times. -/
theorem Wakeup.Reach.extra (h : s.Reach) (n : Nat) :
    Wakeup.Reach { s with
      gDataWakeupSeq := s.gDataWakeupSeq + UInt32.ofNat n, history := List.replicate n .extra ++ s.history } := by
  induction n with
  | zero =>
    rw [List.replicate_zero, List.nil_append, show UInt32.ofNat 0 = 0 from rfl, UInt32.add_zero]
    exact h
  | succ n ih =>
    rw [UInt32.ofNat_add, ← UInt32.add_assoc]
    exact .step ih trivial (a := .notifyExtra) rfl

/-- With 2^32 notifications it waits with a line that it has not read. -/
theorem wakeup_lost :
    ∃ s : Wakeup, s.Reach ∧ s.Blocked ∧ .notified 0 ∈ s.history ∧ ¬Before (.logged 0) .reading s.history := by
  have hrun : runList Wakeup.step (fun _ _ => true) .boot [.start, .pack, .packed .empty, .log, .notify] =
      some ⟨1, 0, .loop .powerDown, none, 1, true, [.notified 0, .logged 0, .reading, .sampled]⟩ := rfl
  have hreach : Wakeup.Reach _ := Runs.of_runList (fun _ _ _ => trivial) .start hrun
  have hextra := hreach.extra (2 ^ 32 - 1)
  have hwrap : (1 : UInt32) + UInt32.ofNat (2 ^ 32 - 1) = 0 := by decide
  rw [hwrap] at hextra
  have hawait := Runs.step hextra trivial (a := .await .powerDown) rfl
  have hlock := Runs.step hawait trivial (a := .lock) rfl
  refine ⟨_, hlock, ⟨⟨rfl, .powerDown, .inr rfl, .inr rfl⟩, .inr rfl, rfl⟩, List.mem_append_right _ (by decide), ?_⟩
  rw [Before, List.dropWhile_append_of_pos]
  · decide
  · intro e he
    rw [List.eq_of_mem_replicate he]
    decide

end Dtu
