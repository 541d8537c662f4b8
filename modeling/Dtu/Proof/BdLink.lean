import Dtu.Framework.Runs
import Dtu.Impl.BdLink
import Dtu.Proof.MainSend

/-!
# The two senders of the BeiDou module

`BdLink.Stepped` says what each step of the two senders and the module can do, where
`main_send_thread` in `MAIN_ST_TRY_BD` has a segment that the pacing lets through
(`BdLink.Due`, `BdLink.stepped`). From it: the iterations of `main_send_thread` that a
run makes are one of its runs (`BdLink.main_runs`).
-/

namespace Dtu

variable {s s' : BdLink}

/-! ## `MAIN_ST_TRY_BD` -/

theorem MainSend.bdDue_eq_some {s : MainSend} {t : Turn} {r : PackResult mainPathCount} (h : s.bdDue t = some r) :
    t.meshNode = false ∧ s.state = .tryBd ∧
      mainPackPendingUntil s.disk.logs s.offsets s.bdBatchEndOffsets bdMaxHexLen bdMaxRawLen = some r ∧
      r.ret = 0 ∧ r.entryCount ≠ 0 ∧ ¬(s.nextBdSendTime ≠ 0 ∧ t.monotonic < s.nextBdSendTime) := by
  unfold MainSend.bdDue at h
  split at h
  · cases h
  rename_i hst
  simp only [not_or, Bool.not_eq_true, ne_eq, not_not] at hst
  split at h
  · cases h
  rename_i r' hr
  split at h
  · cases h
  rename_i hret
  simp only [not_or, ne_eq, not_not] at hret
  split at h
  · cases h
  · rename_i htime
    cases h
    exact ⟨hst.1, hst.2, hr, hret.1, hret.2, htime⟩

/-- An iteration that has sent a segment commits it if it is acknowledged. -/
theorem MainSend.turn_of_bdDue {s s' : MainSend} {t t' : Turn} {r : PackResult mainPathCount} {c : Option Commit}
    (hdue : s.bdDue t = some r) (h : s.turn t' = some (s', c)) (hmesh : t'.meshNode = t.meshNode)
    (hmono : t'.monotonic = t.monotonic) :
    (c = none ∧ s'.nextBdSendTime = s.nextBdSendTime ∧ (t'.bdReady && t'.bdSent && t'.tcqSuccess) = false) ∨
      (t'.bdReady && t'.bdSent && t'.tcqSuccess) = true ∧
        s'.nextBdSendTime = t'.monotonicSent + bdSendIntervalSec ∧
        ∃ c', c = some c' ∧ c'.offsets = s.offsets ∧ c'.pendingOffsets = r.pendingOffsets ∧
          c'.payload = r.rawBuf := by
  obtain ⟨hnode, hst, hr, hret, hcount, htime⟩ := bdDue_eq_some hdue
  simp only [MainSend.turn, hmesh, hnode, hst, MainSend.tryBd, hr, Option.map_some, Bool.false_eq_true, if_false,
    hret, ne_eq, not_true, if_neg hcount, hmono, if_neg htime, Option.some.injEq] at h
  split at h
  · rename_i hready
    cases h
    exact .inl ⟨rfl, rfl, by rw [hready]; rfl⟩
  rename_i hready
  rw [Bool.of_not_eq_false hready]
  split at h
  · rename_i hsent
    cases h
    exact .inl ⟨rfl, rfl, by rw [hsent]; rfl⟩
  rename_i hsent
  rw [Bool.of_not_eq_false hsent]
  split at h
  · rename_i hsuccess
    cases h
    exact .inl ⟨rfl, rfl, hsuccess⟩
  rename_i hsuccess
  refine .inr ⟨Bool.of_not_eq_false hsuccess, ?_⟩
  split at h <;> cases h <;> exact ⟨rfl, _, rfl, rfl, rfl, rfl⟩

theorem MainSend.turn_failed {s s' : MainSend} {t t' : Turn} {r : PackResult mainPathCount} {c : Option Commit}
    (hdue : s.bdDue t = some r) (h : s.turn t' = some (s', c)) (hmesh : t'.meshNode = t.meshNode)
    (hmono : t'.monotonic = t.monotonic) (hfails : (t'.bdReady && t'.bdSent && t'.tcqSuccess) = false) :
    c = none ∧ s'.nextBdSendTime = s.nextBdSendTime := by
  rcases turn_of_bdDue hdue h hmesh hmono with ⟨hnone, hnext, -⟩ | ⟨hsuccess, -⟩
  · exact ⟨hnone, hnext⟩
  · rw [hfails] at hsuccess
    cases hsuccess

theorem MainSend.turn_acknowledged {s s' : MainSend} {t t' : Turn} {r : PackResult mainPathCount}
    {c : Option Commit} (hdue : s.bdDue t = some r) (h : s.turn t' = some (s', c))
    (hmesh : t'.meshNode = t.meshNode) (hmono : t'.monotonic = t.monotonic)
    (hsuccess : (t'.bdReady && t'.bdSent && t'.tcqSuccess) = true) :
    ∃ c', c = some c' ∧ s'.nextBdSendTime = t'.monotonicSent + bdSendIntervalSec ∧ c'.offsets = s.offsets ∧
      c'.pendingOffsets = r.pendingOffsets ∧ c'.payload = r.rawBuf := by
  rcases turn_of_bdDue hdue h hmesh hmono with ⟨-, -, hfails⟩ | ⟨-, hnext, c', hc, hcommit⟩
  · rw [hfails] at hsuccess
    cases hsuccess
  · exact ⟨c', hc, hnext, hcommit⟩

theorem MainSend.nextBdSendTime_fail4g (s : MainSend) : s.fail4g.nextBdSendTime = s.nextBdSendTime := by
  unfold MainSend.fail4g
  simp only
  split <;> rfl

theorem MainSend.nextBdSendTime_idle {s s' : MainSend} {t : Turn} (h : s.idle t = some s') :
    s'.nextBdSendTime = s.nextBdSendTime := by
  obtain ⟨r, -, rfl⟩ := Option.map_eq_some_iff.mp h
  simp only
  repeat' split
  all_goals rfl

theorem MainSend.nextBdSendTime_try4g (s : MainSend) (t : Turn) :
    (s.try4g t).1.nextBdSendTime = s.nextBdSendTime := by
  unfold MainSend.try4g
  simp only
  repeat' split
  all_goals first | rfl | exact nextBdSendTime_fail4g _

/-- `MAIN_ST_TRY_BD` does not get to send. -/
theorem MainSend.tryBd_of_not_bdDue {s s' : MainSend} {t : Turn} {c : Option Commit} (hmesh : t.meshNode = false)
    (hst : s.state = .tryBd) (hdue : s.bdDue t = none) (h : s.tryBd t = some (s', c)) :
    c = none ∧ s'.nextBdSendTime = s.nextBdSendTime ∧ s'.disk = s.disk := by
  obtain ⟨r, hr, heq⟩ := Option.map_eq_some_iff.mp h
  simp only [MainSend.bdDue, hmesh, hst, Bool.false_eq_true, ne_eq, not_true, or_self, if_false, hr] at hdue
  simp only at heq
  split at heq
  · cases heq
    exact ⟨rfl, rfl, rfl⟩
  rename_i hret
  split at heq
  · cases heq
    exact ⟨rfl, rfl, rfl⟩
  rename_i hcount
  split at heq
  · cases heq
    exact ⟨rfl, rfl, rfl⟩
  rename_i htime
  simp only [hret, hcount, or_self, if_false] at hdue
  rw [if_neg htime] at hdue
  cases hdue

/-- The iterations that do not get to send over BeiDou leave the pacing as it is, and
commit nothing in `MAIN_ST_TRY_BD`. -/
theorem MainSend.turn_of_not_bdDue {s s' : MainSend} {t : Turn} {c : Option Commit} (hdue : s.bdDue t = none)
    (h : s.turn t = some (s', c)) :
    s'.nextBdSendTime = s.nextBdSendTime ∧ (s.state = .tryBd → c = none) := by
  unfold MainSend.turn at h
  split at h
  · cases h
    exact ⟨rfl, fun _ => rfl⟩
  rename_i hmesh
  rcases hst : s.state <;> simp only [hst, Option.some.injEq, Prod.mk.injEq] at h
  · obtain ⟨s₁, hs₁, heq⟩ := Option.map_eq_some_iff.mp h
    cases heq
    exact ⟨nextBdSendTime_idle hs₁, fun _ => rfl⟩
  · have hnext := nextBdSendTime_try4g s t
    rw [h] at hnext
    exact ⟨hnext, fun hst => nomatch hst⟩
  · obtain ⟨hnone, hnext, -⟩ := tryBd_of_not_bdDue (Bool.eq_false_iff.mpr hmesh) hst hdue h
    exact ⟨hnext, fun _ => hnone⟩
  · rw [← h.1]
    refine ⟨?_, fun hst => nomatch hst⟩
    unfold MainSend.bdWait
    split <;> rfl
  · rw [← h.1]
    refine ⟨?_, fun hst => nomatch hst⟩
    unfold MainSend.powerDown
    split <;> rfl

/-! ## The steps -/

/-- The segment that `main_send_thread` has packed, the pacing lets through. -/
def BdLink.Due (s : BdLink) : Prop := ∀ t r stage, s.pc = .tryBd t r stage → s.main.bdDue t = some r

/-- What a step can do. -/
inductive BdLink.Stepped (s : BdLink) : BdAction → BdLink → Option Commit → Prop where
  | append (appended : Fin mainPathCount → List Record) (hpc : s.pc = .loop) :
      Stepped s (.append appended) { s with main := { s.main with disk := s.main.disk.append appended } } none
  /-- An iteration that hands over no packet. -/
  | turned {t : Turn} {main : MainSend} {epoch : Nat} {c : Option Commit} (hpc : s.pc = .loop)
      (hdue : s.main.bdDue t = none) (hturn : s.main.turn t = some (main, c)) :
      Stepped s (.turn t) { s with main := main, pc := .loop, epoch := epoch } c
  | due {t : Turn} {r : PackResult mainPathCount} (hpc : s.pc = .loop) (hclock : t.monotonic = s.clock)
      (hdue : s.main.bdDue t = some r) : Stepped s (.turn t) { s with pc := .tryBd t r .ensure } none
  | ensured {t : Turn} {r : PackResult mainPathCount} {ok : Bool} (status : BdStatus)
      (hpc : s.pc = .tryBd t r .ensure) :
      Stepped s (.main ok) { s with status := status, pc := .tryBd t r .ready } none
  | ready {t : Turn} {r : PackResult mainPathCount} {ok : Bool} (hpc : s.pc = .tryBd t r .ready) :
      Stepped s (.main ok) { s with pc := .tryBd t r .sample } none
  | sampled {t : Turn} {r : PackResult mainPathCount} {ok : Bool} (hpc : s.pc = .tryBd t r .sample) :
      Stepped s (.main ok) { s with pc := .tryBd t r (.send s.status.gBdTcqSeq) } none
  | waited {t : Turn} {r : PackResult mainPathCount} {stage : BdStage} {ok : Bool} (hpc : s.pc = .tryBd t r stage)
      (hstage : ∀ q, stage ≠ .send q) : Stepped s (.main ok) s none
  /-- `bd_send_packet` returns 0. -/
  | sentBd {t : Turn} {r : PackResult mainPathCount} {ok : Bool} {q : UInt32} (hpc : s.pc = .tryBd t r (.send q))
      (hsent : (bdSendPacket r.rawBuf).isSome = true) :
      Stepped s (.main ok) { s with
        sent := (s.transmit r.rawBuf (some (s.segment r))).sent
        pc := .tryBd t r (.wait q s.sent.length) } none
  /-- It does not. -/
  | notSent {t t' : Turn} {r : PackResult mainPathCount} {ok : Bool} {q : UInt32} {main : MainSend} {epoch : Nat}
      (hpc : s.pc = .tryBd t r (.send q)) (hturn : s.main.turn t' = some (main, none))
      (hnext : main.nextBdSendTime = s.main.nextBdSendTime) :
      Stepped s (.main ok) { s with
        main := main
        sent := (s.transmit r.rawBuf (some (s.segment r))).sent
        pc := .loop
        epoch := epoch } none
  /-- A wait ends in vain. -/
  | failed {t t' : Turn} {r : PackResult mainPathCount} {stage : BdStage} {ok : Bool} {main : MainSend}
      {epoch : Nat} (hpc : s.pc = .tryBd t r stage) (hstage : ∀ q, stage ≠ .send q)
      (hturn : s.main.turn t' = some (main, none)) (hnext : main.nextBdSendTime = s.main.nextBdSendTime) :
      Stepped s (.main ok) { s with main := main, pc := .loop, epoch := epoch } none
  /-- `bd_wait_tcq_success` returns 0. -/
  | acknowledged {t t' : Turn} {r : PackResult mainPathCount} {ok : Bool} {q : UInt32} {i : Nat} {main : MainSend}
      {epoch : Nat} {c : Commit} (hpc : s.pc = .tryBd t r (.wait q i)) (hseq : s.status.gBdTcqSeq ≠ q)
      (hresult : s.status.gBdTcqResult = 1) (hturn : s.main.turn t' = some (main, some c))
      (hnext : main.nextBdSendTime = s.clock + bdSendIntervalSec)
      (hsegment : s.segment r = ⟨s.epoch, c.offsets, c.pendingOffsets, c.payload⟩) :
      Stepped s (.main ok) { s with
        main := main
        pc := .loop
        acknowledged := i :: s.acknowledged
        epoch := epoch } (some c)
  | btLine (line : List Char) :
      Stepped s (.btLine line) { s with debug := debugBtHandleHexPayloadLine s.debug line } none
  | btFlush {data : List UInt8} {debug : DebugBt} (hidle : s.btSending = none)
      (hflush : debugBtBdFlushOnce s.debug s.wall = some (data, debug)) :
      Stepped s .btFlush { s with debug := debug, btSending := some data } none
  | btSend {data : List UInt8} (hdata : s.btSending = some data) :
      Stepped s .btSend { s with sent := (s.transmit data none).sent, btSending := none } none
  | reply {i : Nat} {line : List Char} {positive : Bool} (hi : i < s.sent.length)
      (hpositive : tcqReport line = some positive) :
      Stepped s (.reply i line) { s.parseLine line with replies := (i, positive) :: s.replies } none
  | line {line : List Char} (hline : tcqReport line = none) : Stepped s (.line line) (s.parseLine line) none
  | tick {clock wall : Nat} (hclock : s.clock ≤ clock) :
      Stepped s (.tick clock wall) { s with clock := clock, wall := wall } none

/-- `debug_bt_bd_flush_once` takes the first payload when none was taken 60 seconds before. -/
theorem debugBtBdFlushOnce_eq_some {d d' : DebugBt} {now : Nat} {data : List UInt8}
    (h : debugBtBdFlushOnce d now = some (data, d')) :
    ∃ queue, d.gDebugBtBdQueue = data :: queue ∧ d' = ⟨queue, now⟩ ∧
      (d.gDebugBtLastBdSendTime = 0 ∨ d.gDebugBtLastBdSendTime + debugBtBdIntervalSec ≤ now) := by
  unfold debugBtBdFlushOnce at h
  split at h
  · cases h
  split at h <;> cases h
  exact ⟨_, ‹_›, rfl, by omega⟩

theorem BdLink.finish_eq {t : Turn} {c : Option Commit} (h : s.finish t = some (s', c)) :
    ∃ main epoch, s.main.turn t = some (main, c) ∧ s' = { s with main := main, pc := .loop, epoch := epoch } := by
  obtain ⟨r, hr, heq⟩ := Option.map_eq_some_iff.mp h
  cases heq
  exact ⟨_, _, hr, rfl⟩

theorem BdLink.sent_transmit (s : BdLink) (data : List UInt8) (segment : Option BdSegment) :
    (s.transmit data segment).sent =
      if (bdSendPacket data).isSome then s.sent ++ [⟨data, segment, s.clock, s.debug.gDebugBtLastBdSendTime⟩]
      else s.sent := by
  unfold BdLink.transmit
  split <;> rfl

/-- All but the packets is as before. -/
theorem BdLink.transmit_eq (s : BdLink) (data : List UInt8) (segment : Option BdSegment) :
    s.transmit data segment = { s with sent := (s.transmit data segment).sent } := by
  unfold BdLink.transmit
  split <;> rfl

theorem BdLink.sent_prefix (s : BdLink) (data : List UInt8) (segment : Option BdSegment) :
    s.sent <+: (s.transmit data segment).sent := by
  rw [sent_transmit]
  split
  · exact List.prefix_append _ _
  · exact List.prefix_rfl

theorem BdLink.stepped_main {t : Turn} {r : PackResult mainPathCount} {ok : Bool} {stage : BdStage}
    {c : Option Commit} (hpc : s.pc = .tryBd t r stage) (hdue : s.main.bdDue t = some r)
    (hs : s.mainStep t r ok stage = some (s', c)) : s.Stepped (.main ok) s' c := by
  rcases stage with _ | _ | _ | q | ⟨q, i⟩ <;> simp only [BdLink.mainStep] at hs
  case ensure =>
    cases hs
    exact .ensured _ hpc
  case ready =>
    split at hs
    · obtain ⟨main, epoch, hturn, rfl⟩ := finish_eq hs
      obtain ⟨rfl, hnext⟩ := MainSend.turn_failed hdue hturn rfl rfl rfl
      exact .failed hpc nofun hturn hnext
    split at hs <;> cases hs
    · exact .ready hpc
    · exact .waited hpc nofun
  case sample =>
    cases hs
    exact .sampled hpc
  case send =>
    rw [transmit_eq] at hs
    split at hs
    · rename_i hsent
      cases hs
      exact .sentBd hpc (Bool.and_eq_true_iff.mp hsent).1
    · obtain ⟨main, epoch, hturn, rfl⟩ := finish_eq hs
      obtain ⟨rfl, hnext⟩ := MainSend.turn_failed hdue hturn rfl rfl rfl
      exact .notSent hpc hturn hnext
  case wait =>
    split at hs
    · cases hs
      exact .waited hpc nofun
    obtain ⟨main, epoch, hturn, rfl⟩ := finish_eq hs
    rcases hsuccess : s.tcqSuccess q with _ | _
    · obtain ⟨rfl, hnext⟩ := MainSend.turn_failed hdue hturn rfl rfl hsuccess
      exact .failed hpc nofun hturn hnext
    · obtain ⟨c, rfl, hnext, hoffsets, hpending, hpayload⟩ :=
        MainSend.turn_acknowledged hdue hturn rfl rfl hsuccess
      obtain ⟨hseq, hresult⟩ := of_decide_eq_true hsuccess
      refine .acknowledged hpc hseq hresult hturn hnext ?_
      rw [BdLink.segment, hoffsets, hpending, hpayload]

theorem BdLink.stepped (h : s.Due) {a : BdAction} {c : Option Commit} (hs : s.step a = some (s', c)) :
    s.Stepped a s' c := by
  rcases a with appended | t | ok | line | _ | _ | ⟨i, line⟩ | line | ⟨clock, wall⟩ <;>
    simp only [BdLink.step] at hs
  case append =>
    split at hs <;> cases hs
    exact .append appended ‹_›
  case turn =>
    split at hs
    · rename_i hpc
      split at hs
      · cases hs
      rename_i hclock
      split at hs
      · cases hs
        exact .due hpc (Decidable.not_not.mp hclock) ‹_›
      · obtain ⟨main, epoch, hturn, rfl⟩ := finish_eq hs
        exact .turned hpc ‹_› hturn
    · cases hs
  case main =>
    split at hs
    · cases hs
    · rename_i t r stage hpc
      exact stepped_main hpc (h t r stage hpc) hs
  case btLine =>
    split at hs <;> cases hs
    exact .btLine line
  case btFlush =>
    split at hs
    · cases hs
    · rename_i hidle
      obtain ⟨⟨data, debug⟩, hflush, heq⟩ := Option.map_eq_some_iff.mp hs
      cases heq
      exact .btFlush (Option.not_isSome_iff_eq_none.mp hidle) hflush
  case btSend =>
    obtain ⟨data, hdata, heq⟩ := Option.map_eq_some_iff.mp hs
    cases heq
    rw [transmit_eq]
    exact .btSend hdata
  case reply =>
    split at hs
    · rename_i hi
      obtain ⟨positive, hpositive, heq⟩ := Option.map_eq_some_iff.mp hs
      cases heq
      exact .reply hi.1 hpositive
    · cases hs
  case line =>
    split at hs <;> cases hs
    exact .line (Option.not_isSome_iff_eq_none.mp ‹_›)
  case tick =>
    split at hs <;> cases hs
    exact .tick (Nat.le_of_not_lt ‹_›)

theorem BdLink.Due.boot (disk : Disk) (clock wall : Nat) : (BdLink.boot disk clock wall).Due :=
  fun _ _ _ hpc => nomatch hpc

theorem BdLink.Due.step (h : s.Due) {a : BdAction} {c : Option Commit} (hs : s.step a = some (s', c)) :
    s'.Due := by
  rcases stepped h hs <;> intro t' r' stage' hpc'
  case append appended hpc => cases hpc.symm.trans hpc'
  case due hdue =>
    cases hpc'
    exact hdue
  case ensured hpc | ready hpc | sampled hpc | sentBd hpc _ =>
    cases hpc'
    exact h _ _ _ hpc
  case turned | notSent | failed | acknowledged => cases hpc'
  all_goals exact h t' r' stage' hpc'

/-- Each step leaves `main_send_thread` as it is, or is one of its steps. -/
theorem BdLink.Due.main_step (h : s.Due) {a : BdAction} {c : Option Commit} (hs : s.step a = some (s', c)) :
    s'.main = s.main ∨ ∃ action, s.main.step action = some (s'.main, c) := by
  rcases stepped h hs
  case append appended _ => exact .inr ⟨.append appended, rfl⟩
  case turned hturn | notSent hturn _ | failed _ hturn _ | acknowledged hturn _ _ => exact .inr ⟨.turn _, hturn⟩
  all_goals exact .inl rfl

/-- What holds of every run of `main_send_thread` holds of it here. -/
theorem BdLink.main_runs {disk : Disk} {clock wall : Nat} {ok : BdLink → BdAction → Prop}
    (hrun : Runs BdLink.step ok (.boot disk clock wall) s) :
    Runs MainSend.step (fun _ _ => True) (MainSend.boot disk) s.main := by
  have h : s.Due ∧ Runs MainSend.step (fun _ _ => True) (MainSend.boot disk) s.main := by
    refine hrun.invariant (I := fun s => s.Due ∧ Runs MainSend.step (fun _ _ => True) (MainSend.boot disk) s.main)
      ⟨.boot disk clock wall, .start⟩ fun s a s' c h _ hs => ⟨h.1.step hs, ?_⟩
    rcases h.1.main_step hs with hmain | ⟨action, haction⟩
    · exact hmain ▸ h.2
    · exact .step h.2 trivial haction
  exact h.2

end Dtu
