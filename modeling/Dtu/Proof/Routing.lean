import Dtu.Framework.Runs
import Dtu.Impl.Routing
import Dtu.Proof.SendPath

/-!
# The send path of an excursion

`main_send_thread` reads the send path in `MAIN_ST_IDLE` and goes to
`MAIN_ST_TRY_BD` when `bd_fallback_active` is set, whatever the path is. But it is
never set there: the one way back to `MAIN_ST_IDLE` that leaves it set is the wait
in `MAIN_ST_POWER_DOWN` for `bd_power_hold_until`, which is never behind
`next_bd_send_time`, and a BeiDou attempt that can fail is not made before that
(`Routed.Routes`). So what is sent over 4G or BeiDou follows an evaluation that
has read a path for it (`mainSend_routing`).
-/

namespace Dtu

open Stdio

/-- The invariant of the states: where the last evaluation has led to. -/
structure Routed.Routes (s : Routed) : Prop where
  idle : s.main.state = .idle → s.main.bdFallbackActive = false
  try4g : s.main.state = .try4g → s.main.bdFallbackActive = false ∧ lastIdle s.calls = some s.main.sendPath ∧
    s.main.sendPath ≠ .onlyBd ∧ s.main.sendPath ≠ .firstBd
  tryBd : s.main.state = .tryBd ∨ s.main.state = .bdWait →
    lastIdle s.calls = some s.main.sendPath ∧ s.main.sendPath ≠ .only4g
  hold : s.main.bdPowerHoldUntil ≤ s.main.nextBdSendTime
  powerDown : s.main.state = .powerDown → s.main.bdFallbackActive = true → s.main.bdPowerHoldUntil ≤ s.clock

/-- Of these calls, the last one first, each transmission follows an evaluation that
has read a path for it. -/
def Allowed : List Call → Prop
  | [] => True
  | .idle _ :: calls => Allowed calls
  | .egSendData _ :: calls => (∃ p, lastIdle calls = some p ∧ p ≠ .onlyBd ∧ p ≠ .firstBd) ∧ Allowed calls
  | .bdSendPacket _ :: calls => (∃ p, lastIdle calls = some p ∧ p ≠ .only4g) ∧ Allowed calls

/-! ## The iterations -/

variable {s : Routed} {t : Turn} {m : MainSend} {c : Option Commit} {calls : List Call} {clock : Nat}

theorem Routed.Routes.of_idle (hst : m.state = .idle) (hfallback : m.bdFallbackActive = false)
    (hhold : m.bdPowerHoldUntil ≤ m.nextBdSendTime) : Routed.Routes ⟨m, calls, clock⟩ :=
  ⟨fun _ => hfallback, by simp [hst], by simp [hst], hhold, by simp [hst]⟩

theorem Routed.Routes.of_try4g (hst : m.state = .try4g) (hfallback : m.bdFallbackActive = false)
    (hlast : lastIdle calls = some m.sendPath) (honlyBd : m.sendPath ≠ .onlyBd) (hfirstBd : m.sendPath ≠ .firstBd)
    (hhold : m.bdPowerHoldUntil ≤ m.nextBdSendTime) : Routed.Routes ⟨m, calls, clock⟩ :=
  ⟨by simp [hst], fun _ => ⟨hfallback, hlast, honlyBd, hfirstBd⟩, by simp [hst], hhold, by simp [hst]⟩

theorem Routed.Routes.of_tryBd (hst : m.state = .tryBd ∨ m.state = .bdWait) (hlast : lastIdle calls = some m.sendPath)
    (hpath : m.sendPath ≠ .only4g) (hhold : m.bdPowerHoldUntil ≤ m.nextBdSendTime) :
    Routed.Routes ⟨m, calls, clock⟩ := by
  refine ⟨fun h => ?_, fun h => ?_, fun _ => ⟨hlast, hpath⟩, hhold, fun h => ?_⟩
  all_goals
    have h : m.state = _ := h
    rw [h] at hst
    simp at hst

theorem Routed.Routes.of_powerDown (hst : m.state = .powerDown) (hhold : m.bdPowerHoldUntil ≤ m.nextBdSendTime)
    (hclock : m.bdFallbackActive = true → m.bdPowerHoldUntil ≤ clock) : Routed.Routes ⟨m, calls, clock⟩ :=
  ⟨by simp [hst], by simp [hst], by simp [hst], hhold, fun _ => hclock⟩

/-- The calls of an iteration that is no evaluation. -/
theorem lastIdle_calls (hst : s.main.state ≠ .idle) : lastIdle (s.main.calls t ++ s.calls) = lastIdle s.calls := by
  unfold MainSend.calls
  cases hmain : s.main.state with
  | idle => exact absurd hmain hst
  | bdWait | powerDown => simp
  | try4g | tryBd => simp only; (repeat' split) <;> rfl

theorem Routed.Routes.idle_turn (h : s.Routes) (hmesh : t.meshNode = false) (hst : s.main.state = .idle)
    (hturn : s.main.idle t = some m) : Routed.Routes ⟨m, s.main.calls t ++ s.calls, clock⟩ := by
  have hfallback := h.idle hst
  simp only [MainSend.idle, Option.map_eq_some_iff] at hturn
  obtain ⟨r, hr, rfl⟩ := hturn
  have hcalls : s.main.calls t =
      [.idle (if r.ret ≠ 0 then none else if r.entryCount = 0 then none else some t.sendPath)] := by
    simp only [MainSend.calls, hmesh, hst, hr, Bool.false_eq_true, if_false]
  rw [hcalls]
  by_cases hret : r.ret = 0
  · by_cases hcount : r.entryCount = 0
    · simp only [hret, hcount, ne_eq, not_true, if_false, if_true]
      exact .of_powerDown rfl h.hold (by simp)
    · simp only [hret, ne_eq, not_true, if_false, if_neg hcount, hfallback, Bool.false_eq_true, false_or]
      split
      · next hpath =>
        refine .of_tryBd (.inl rfl) rfl ?_ h.hold
        show t.sendPath ≠ .only4g
        rcases hpath with hpath | hpath <;> rw [hpath] <;> decide
      · next hpath => exact .of_try4g rfl rfl rfl (fun e => hpath (.inl e)) (fun e => hpath (.inr e)) h.hold
  · simp only [ne_eq, hret, not_false_iff, if_true]
    exact .of_idle hst hfallback h.hold

/-- Where `MAIN_ST_TRY_4G` goes when it does not send: not to `MAIN_ST_TRY_BD` with
`SEND_PATH_4G_ONLY`. -/
theorem Routed.Routes.of_leave4g (hst : m.state = if m.sendPath = .only4g then .idle else .tryBd)
    (hfallback : m.bdFallbackActive = false) (hlast : lastIdle calls = some m.sendPath)
    (hhold : m.bdPowerHoldUntil ≤ m.nextBdSendTime) : Routed.Routes ⟨m, calls, clock⟩ := by
  split at hst
  · exact .of_idle hst hfallback hhold
  · next hpath => exact .of_tryBd (.inl hst) hlast hpath hhold

theorem Routed.Routes.fail4g (hfallback : m.bdFallbackActive = false) (hlast : lastIdle calls = some m.sendPath)
    (hhold : m.bdPowerHoldUntil ≤ m.nextBdSendTime) : Routed.Routes ⟨m.fail4g, calls, clock⟩ := by
  unfold MainSend.fail4g
  split
  · exact .of_leave4g rfl hfallback hlast hhold
  · exact .of_leave4g rfl hfallback hlast hhold

theorem Routed.Routes.try4g_turn (h : s.Routes) (hst : s.main.state = .try4g) (hturn : s.main.try4g t = (m, c)) :
    Routed.Routes ⟨m, s.main.calls t ++ s.calls, clock⟩ := by
  obtain ⟨hfallback, hlast, honlyBd, hfirstBd⟩ := h.try4g hst
  rw [← lastIdle_calls (t := t) (by simp [hst])] at hlast
  unfold MainSend.try4g at hturn
  rw [if_neg honlyBd] at hturn
  split at hturn
  · cases hturn
    exact .of_leave4g rfl hfallback hlast h.hold
  split at hturn
  · simp only at hturn
    split at hturn
    · cases hturn
      refine .of_powerDown rfl h.hold fun hset => ?_
      have : s.main.bdFallbackActive = true := hset
      rw [hfallback] at this
      cases this
    · cases hturn
      exact .fail4g hfallback hlast h.hold
  · simp only at hturn
    split at hturn
    · cases hturn
      exact .of_idle rfl hfallback h.hold
    · cases hturn
      exact .fail4g hfallback hlast h.hold

/-- An attempt over BeiDou that fails: its time had come. -/
theorem Routed.Routes.failBd (hlast : lastIdle calls = some m.sendPath) (hpath : m.sendPath ≠ .only4g)
    (hhold : m.bdPowerHoldUntil ≤ m.nextBdSendTime) (hclock : m.nextBdSendTime ≤ clock) :
    Routed.Routes ⟨m.failBd, calls, clock⟩ := by
  rcases m.failBd_state with hst | hst
  · exact .of_powerDown hst hhold fun _ => Nat.le_trans hhold hclock
  · exact .of_tryBd (.inr hst) hlast hpath hhold

theorem Routed.Routes.tryBd_turn (h : s.Routes) (hst : s.main.state = .tryBd) (hturn : s.main.tryBd t = some (m, c))
    (htime : s.InTime (.turn t)) : Routed.Routes ⟨m, s.main.calls t ++ s.calls, t.monotonicHold⟩ := by
  obtain ⟨hclock, hsent, hheld, hapart⟩ := htime
  obtain ⟨hlast, hpath⟩ := h.tryBd (.inl hst)
  rw [← lastIdle_calls (t := t) (by simp [hst])] at hlast
  simp only [MainSend.tryBd, Option.map_eq_some_iff] at hturn
  obtain ⟨r, -, hturn⟩ := hturn
  have hhold := h.hold
  split at hturn
  · cases hturn
    exact .of_tryBd (.inr rfl) hlast hpath hhold
  split at hturn
  · cases hturn
    exact .of_idle rfl rfl hhold
  split at hturn
  · cases hturn
    exact .of_tryBd (.inr rfl) hlast hpath hhold
  rename_i hpace
  have hnext : s.main.nextBdSendTime ≤ t.monotonicHold := by
    have : ¬(s.main.nextBdSendTime ≠ 0 ∧ t.monotonic < s.main.nextBdSendTime) := hpace
    omega
  split at hturn
  · cases hturn
    exact .failBd hlast hpath hhold hnext
  split at hturn
  · cases hturn
    exact .failBd hlast hpath hhold hnext
  split at hturn
  · cases hturn
    exact .failBd hlast hpath hhold hnext
  have hheld' : t.monotonicHold + bdPowerHoldSec ≤ t.monotonicSent + bdSendIntervalSec := by
    simp only [bdPowerHoldSec, bdSendIntervalSec] at hapart ⊢
    omega
  split at hturn
  · cases hturn
    exact .of_idle rfl rfl hheld'
  · cases hturn
    exact .of_tryBd (.inr rfl) hlast hpath hheld'

theorem Routed.Routes.bdWait_turn (h : s.Routes) (hst : s.main.state = .bdWait) :
    Routed.Routes ⟨s.main.bdWait t, s.main.calls t ++ s.calls, clock⟩ := by
  obtain ⟨hlast, hpath⟩ := h.tryBd (.inr hst)
  rw [← lastIdle_calls (t := t) (by simp [hst])] at hlast
  unfold MainSend.bdWait
  split
  · exact .of_tryBd (.inl rfl) hlast hpath h.hold
  · exact .of_tryBd (.inr rfl) hlast hpath h.hold

/-- `MAIN_ST_POWER_DOWN` does not wait with `bd_fallback_active` set. -/
theorem Routed.Routes.powerDown_turn (h : s.Routes) (hst : s.main.state = .powerDown) (hclock : s.clock ≤ t.monotonic) :
    Routed.Routes ⟨s.main.powerDown t, s.main.calls t ++ s.calls, clock⟩ := by
  unfold MainSend.powerDown
  split
  · next hwait =>
    refine .of_idle rfl ?_ h.hold
    show s.main.bdFallbackActive = false
    refine (Bool.not_eq_true _).mp fun hset => ?_
    have := h.powerDown hst hset
    omega
  · exact .of_idle rfl rfl (Nat.zero_le _)

/-! ## The run -/

theorem Routed.Routes.step {s' : Routed} {a : Action} (h : s.Routes) (htime : s.InTime a)
    (hstep : s.step a = some (s', c)) : s'.Routes := by
  rcases a with appended | t
  · cases hstep
    exact ⟨h.idle, h.try4g, h.tryBd, h.hold, h.powerDown⟩
  · obtain ⟨⟨m, c'⟩, hturn, heq⟩ := Option.map_eq_some_iff.mp hstep
    cases heq
    show Routed.Routes ⟨m, s.main.calls t ++ s.calls, t.monotonicHold⟩
    have hclock : s.clock ≤ t.monotonic := htime.1
    unfold MainSend.turn at hturn
    by_cases hmesh : t.meshNode = true
    · have hcalls : s.main.calls t = [] := by rw [MainSend.calls, if_pos hmesh]
      rw [if_pos hmesh] at hturn
      cases hturn
      rw [hcalls]
      refine ⟨h.idle, h.try4g, h.tryBd, h.hold, fun hst hset => ?_⟩
      have := h.powerDown hst hset
      have := htime.2
      show s.main.bdPowerHoldUntil ≤ t.monotonicHold
      omega
    rw [if_neg hmesh] at hturn
    have hmesh' : t.meshNode = false := (Bool.not_eq_true _).mp hmesh
    cases hst : s.main.state with
    | idle =>
      simp only [hst, Option.map_eq_some_iff, Prod.mk.injEq] at hturn
      obtain ⟨_, hturn, rfl, -⟩ := hturn
      exact h.idle_turn hmesh' hst hturn
    | try4g =>
      simp only [hst, Option.some.injEq] at hturn
      exact h.try4g_turn hst hturn
    | tryBd =>
      simp only [hst] at hturn
      exact h.tryBd_turn hst hturn htime
    | bdWait =>
      simp only [hst, Option.some.injEq, Prod.mk.injEq] at hturn
      exact hturn.1 ▸ h.bdWait_turn hst
    | powerDown =>
      simp only [hst, Option.some.injEq, Prod.mk.injEq] at hturn
      exact hturn.1 ▸ h.powerDown_turn hst hclock

/-- The calls of an iteration are allowed in the state it is in. -/
theorem Routed.Routes.allowed (h : s.Routes) (hcalls : Allowed s.calls) (t : Turn) :
    Allowed (s.main.calls t ++ s.calls) := by
  unfold MainSend.calls
  split
  · exact hcalls
  cases hst : s.main.state with
  | idle => simp only; split <;> exact hcalls
  | bdWait | powerDown => exact hcalls
  | try4g =>
    obtain ⟨-, hlast, hpath⟩ := h.try4g hst
    simp only
    (repeat' split) <;> first | exact hcalls | exact ⟨⟨_, hlast, hpath⟩, hcalls⟩
  | tryBd =>
    obtain ⟨hlast, hpath⟩ := h.tryBd (.inl hst)
    simp only
    (repeat' split) <;> first | exact hcalls | exact ⟨⟨_, hlast, hpath⟩, hcalls⟩

/-- In every run with a monotonic clock whose two readings after a BeiDou packet are
at most `BD_POWER_HOLD_SEC` apart, each `eg_send_data` follows an evaluation of
`MAIN_ST_IDLE` that has read a path other than `SEND_PATH_BD_ONLY` and
`SEND_PATH_BD_FIRST`, each `bd_send_packet` one that has read a path other than
`SEND_PATH_4G_ONLY`, and `bd_fallback_active` is not set in `MAIN_ST_IDLE`. -/
theorem mainSend_routing {disk : Disk} {s : Routed} (hrun : Runs Routed.step Routed.InTime (Routed.boot disk) s) :
    Allowed s.calls ∧ (s.main.state = .idle → s.main.bdFallbackActive = false) := by
  have hboot : (Routed.boot disk).Routes ∧ Allowed (Routed.boot disk).calls :=
    ⟨.of_idle rfl rfl (Nat.le_refl _), trivial⟩
  have h : s.Routes ∧ Allowed s.calls := by
    refine hrun.invariant (I := fun s => s.Routes ∧ Allowed s.calls) hboot fun s a s' c hinv htime hstep => ?_
    obtain ⟨hroutes, hcalls⟩ := hinv
    refine ⟨hroutes.step htime hstep, ?_⟩
    rcases a with appended | t
    · cases hstep
      exact hcalls
    · obtain ⟨r, -, heq⟩ := Option.map_eq_some_iff.mp hstep
      cases heq
      exact hroutes.allowed hcalls t
  exact ⟨h.2, h.1.idle⟩

/-- A message over 4G, and one over BeiDou after 4G has failed. -/
def routedRun : List Action :=
  [.append (firstLog [short 0]), .turn Turn.gateway, .turn Turn.gateway, .append (firstLog [short 1]),
    .turn Turn.gateway, .turn { Turn.gateway with egReady := false }, .turn Turn.gateway]

theorem mainSend_routing_two :
    ∃ s : Routed, s.calls.length = 4 ∧ s.main.state = .idle ∧ Allowed s.calls ∧
      (s.main.state = .idle → s.main.bdFallbackActive = false) := by
  have h : (runList Routed.step (fun s a => decide (s.InTime a)) (Routed.boot Disk.blank) routedRun).map (fun s =>
      (s.calls.length, s.main.state)) = some (4, .idle) := by
    decide +kernel
  obtain ⟨s, hs, heq⟩ := Option.map_eq_some_iff.mp h
  obtain ⟨hcalls, hst⟩ := Prod.mk.inj heq
  exact ⟨s, hcalls, hst, mainSend_routing (.of_runList (fun _ _ h => of_decide_eq_true h) .start hs)⟩

end Dtu
