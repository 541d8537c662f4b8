import Dtu.Framework.Runs
import Dtu.Impl.Power

/-!
# What the modules are known to be ready for

What `main_send_thread` remembers of the modules' readiness, while the Bluetooth
thread switches them on at any point.

`main_ensure_eg_ready` remembers it in two flags, the descriptor and the
generation, and all it remembers holds of the module since it was last switched
on (`Modules.EgCached`); so it returns 0 only with a module that is on, opened,
initialized and connected (`mainEnsureEgReady_ready`).

`bd_wait_ready_and_pwi` reads `g_bd_ready_seen`, which only `main_ensure_bd_ready`
clears. It is right where the BeiDou module is switched on with the flag clear
(`bdWaitReady_ready`), and not after `rf_power_on` of the Bluetooth thread
(`bdWaitReady_stale`).
-/

namespace Dtu

variable {s s' : Modules}

theorem Since.of_ite {e e₀ x : ModuleEvent} {c : Bool} {history : List ModuleEvent} (hx : x ≠ e₀)
    (h : Since e e₀ history) : Since e e₀ (if c then history else x :: history) := by
  split
  · exact h
  · exact h.cons hx

theorem Modules.call_step {f : MainCall} {r : Option Return} (hs : s.step (.call f) = some (s', r)) :
    s.main = .loop ∧ s.call f = s' ∧ r = none := by
  rcases hm : s.main <;> simp only [Modules.step, hm, reduceCtorEq, Option.some.injEq, Prod.mk.injEq] at hs
  exact ⟨rfl, hs.1, hs.2.symm⟩

/-- Only the steps of `main_send_thread` return from one of its functions. -/
theorem Modules.step_returns {a : ModuleAction} {r : Return} (hs : s.step a = some (s', some r)) :
    ∃ ok, s.mainStep ok = some (s', some r) := by
  rcases a with f | ok | _ | ⟨now, ch⟩ | _
  · cases (call_step hs).2.2
  · exact ⟨ok, hs⟩
  all_goals cases hs

/-- `main_ensure_eg_ready` returns from its last test only with `*eg_connected` set. -/
theorem Modules.egEnsureConnected_returns {n : Nat} {r : Return} (hs : s.egEnsureConnected n = (s', some r)) :
    r = .mainEnsureEgReady 0 ∧ s.egConnected = true ∧ s' = { s with main := .loop } := by
  unfold Modules.egEnsureConnected at hs
  split at hs <;> cases hs
  exact ⟨rfl, ‹_›, rfl⟩

/-! ## The supplies -/

theorem gEgPowerEnabled_egPowerOn (p : Power) : (egPowerOn p).gEgPowerEnabled = true := by
  unfold egPowerOn
  split
  · assumption
  · rfl

theorem gEgPowerEnabled_bdPowerOn (p : Power) : (bdPowerOn p).gEgPowerEnabled = p.gEgPowerEnabled := by
  unfold bdPowerOn
  split <;> rfl

theorem gEgPowerEnabled_bdPowerOff (p : Power) : (bdPowerOff p).gEgPowerEnabled = p.gEgPowerEnabled := by
  unfold bdPowerOff
  split <;> rfl

/-! ## The 4G module -/

/-- `main_eg_power_down` has switched the module off and not yet closed the UART. -/
def MainPc.closing : MainPc → Bool
  | .downClose _ => true
  | _ => false

/-- Where `main_send_thread` is, the module is on, its UART open, and it is
initialized. -/
def MainPc.EgAt (on fd initialized : Bool) : MainPc → Prop
  | .egGeneration _ | .egClose _ _ | .egOpen _ _ _ => on = true
  | .egInit _ => on = true ∧ fd = true
  | .egRetry _ _ | .egConnect _ _ | .egSleep _ _ => on = true ∧ fd = true ∧ initialized = true
  | .downPower _ | .downClose _ => initialized = false
  | _ => True

theorem MainPc.EgAt.on {on fd initialized : Bool} {pc : MainPc} (h : pc.EgAt on fd initialized) :
    pc.EgAt true fd initialized := by
  rcases pc <;> first | exact h | exact rfl | exact ⟨rfl, h.2⟩

/-- What is remembered of the 4G module holds since it was last switched on. -/
structure Modules.EgCached (s : Modules) : Prop where
  initialized : s.egInitialized = true → s.power.gEgPowerEnabled = true ∧ Since .egInit .egPowerOn s.history
  connected : s.egConnected = true → s.egInitialized = true ∧ Since .egConnect .egInit s.history
  opened : s.egFd = true → s.main.closing = false →
    s.power.gEgPowerEnabled = true ∧ Since .egOpened .egPowerOn s.history
  egAt : s.main.EgAt s.power.gEgPowerEnabled s.egFd s.egInitialized

namespace Modules.EgCached

theorem boot : Modules.boot.EgCached where
  initialized h := nomatch h
  connected h := nomatch h
  opened _ _ := ⟨rfl, .here (by decide)⟩
  egAt := trivial

/-- A step that only moves `main_send_thread`. -/
theorem goto (h : s.EgCached) {pc : MainPc} (hclosing : s.main.closing = false)
    (hat : pc.EgAt s.power.gEgPowerEnabled s.egFd s.egInitialized) : { s with main := pc }.EgCached where
  initialized := h.initialized
  connected := h.connected
  opened hfd _ := h.opened hfd hclosing
  egAt := hat

/-- An event that leaves the 4G module alone. -/
theorem event (h : s.EgCached) {history : List ModuleEvent}
    (hkeep : ∀ e e₀, e₀ = .egPowerOn ∨ e₀ = .egInit → Since e e₀ s.history → Since e e₀ history) :
    { s with history := history }.EgCached where
  initialized hi := ⟨(h.initialized hi).1, hkeep _ _ (.inl rfl) (h.initialized hi).2⟩
  connected hc := ⟨(h.connected hc).1, hkeep _ _ (.inr rfl) (h.connected hc).2⟩
  opened hfd hclosing := ⟨(h.opened hfd hclosing).1, hkeep _ _ (.inl rfl) (h.opened hfd hclosing).2⟩
  egAt := h.egAt

theorem egPowerOn (h : s.EgCached) : s.egPowerOn.EgCached := by
  unfold Modules.egPowerOn Dtu.egPowerOn
  rcases hon : s.power.gEgPowerEnabled with _ | _
  · have hinit : s.egInitialized = false := by
      refine Bool.eq_false_iff.mpr fun hinit => ?_
      rw [(h.initialized hinit).1] at hon
      cases hon
    refine ⟨fun hi => ?_, fun hc => ?_, fun hfd hclosing => ?_, h.egAt.on⟩
    · exact absurd (hinit.symm.trans hi) (by decide)
    · exact absurd (hinit.symm.trans (h.connected hc).1) (by decide)
    · exact absurd ((h.opened hfd hclosing).1.symm.trans hon) (by decide)
  · exact h

/-- A change of the other supply. -/
theorem setPower (h : s.EgCached) {power : Power} (hpower : power.gEgPowerEnabled = s.power.gEgPowerEnabled) :
    { s with power := power }.EgCached where
  initialized hi := ⟨hpower.trans (h.initialized hi).1, (h.initialized hi).2⟩
  connected := h.connected
  opened hfd hclosing := ⟨hpower.trans (h.opened hfd hclosing).1, (h.opened hfd hclosing).2⟩
  egAt := by
    show s.main.EgAt power.gEgPowerEnabled s.egFd s.egInitialized
    rw [hpower]
    exact h.egAt

theorem bdPowerOn (h : s.EgCached) : s.bdPowerOn.EgCached := by
  have hkeep : ∀ e e₀, e₀ = .egPowerOn ∨ e₀ = .egInit → Since e e₀ s.history → Since e e₀ s.bdPowerOn.history := by
    rintro e e₀ (rfl | rfl) he <;> exact he.of_ite (by decide)
  exact (h.event hkeep).setPower (gEgPowerEnabled_bdPowerOn s.power)

theorem egEnsureConnected (h : s.EgCached) {n : Nat} {r : Option Return} (hclosing : s.main.closing = false)
    (hon : s.power.gEgPowerEnabled = true) (hfd : s.egFd = true) (hinit : s.egInitialized = true)
    (hs : s.egEnsureConnected n = (s', r)) : s'.EgCached := by
  unfold Modules.egEnsureConnected at hs
  split at hs <;> cases hs
  · exact h.goto hclosing trivial
  · exact h.goto hclosing ⟨hon, hfd, hinit⟩

theorem call (h : s.EgCached) (hmain : s.main = .loop) (f : MainCall) : (s.call f).EgCached := by
  have hclosing : s.main.closing = false := by rw [hmain]; rfl
  rcases f with n | _ | _ | _ | _
  case disconnected => exact ⟨h.initialized, fun hc => (nomatch hc), h.opened, h.egAt⟩
  all_goals exact h.goto hclosing trivial

/-- `uart_reopen_eg` has opened the UART of a module that is on. -/
theorem reopened (hon : s.power.gEgPowerEnabled = true) {n : Nat} {current : UInt32} :
    { s with
      egFd := true
      egInitialized := false
      egConnected := false
      egPowerGenerationSeen := current
      main := .egInit n
      history := .egOpened :: s.history }.EgCached where
  initialized hi := nomatch hi
  connected hc := nomatch hc
  opened _ _ := ⟨hon, .here (by decide)⟩
  egAt := ⟨hon, rfl⟩

/-- `eg_init` has succeeded. -/
theorem inited (h : s.EgCached) {n : Nat} (hmain : s.main = .egInit n) (hinit : s.egInitialized = false)
    (hon : s.power.gEgPowerEnabled = true) (hfd : s.egFd = true) :
    { s with egInitialized := true, history := .egInit :: s.history }.EgCached where
  initialized _ := ⟨hon, .here (by decide)⟩
  connected hc := absurd (hinit.symm.trans (h.connected hc).1) (by decide)
  opened hfd hclosing := ⟨hon, (h.opened hfd hclosing).2.cons (by decide)⟩
  egAt := by
    rw [hmain]
    exact ⟨hon, hfd⟩

theorem mainStep (h : s.EgCached) {ok : Bool} {r : Option Return} (hs : s.mainStep ok = some (s', r)) :
    s'.EgCached := by
  have hat := h.egAt
  have hgoto := @goto s h
  unfold Modules.mainStep at hs
  rcases hm : s.main <;> rw [hm] at hat hgoto <;>
    simp only [hm, reduceCtorEq, Option.some.injEq, Prod.mk.injEq] at hs
  case egIsOn =>
    rcases hs with ⟨rfl, rfl⟩
    refine hgoto rfl ?_
    split
    · assumption
    · trivial
  case egOn =>
    rcases hs with ⟨rfl, rfl⟩
    exact h.egPowerOn.goto (congrArg MainPc.closing hm) (gEgPowerEnabled_egPowerOn s.power)
  case egGeneration =>
    rcases hs with ⟨rfl, rfl⟩
    refine hgoto rfl ?_
    split
    · exact hat
    · rename_i hopen
      exact ⟨hat, Bool.of_not_eq_false fun hfd => hopen (.inl hfd)⟩
  case egClose =>
    rcases hs with ⟨rfl, rfl⟩
    exact ⟨h.initialized, h.connected, fun hfd => (nomatch hfd), hat⟩
  case egOpen =>
    split at hs
    · cases hs
      exact reopened hat
    split at hs <;> cases hs
    · exact hgoto rfl hat
    · exact hgoto rfl trivial
  case egInit =>
    obtain ⟨hon, hfd⟩ := hat
    have hclosing : s.main.closing = false := congrArg MainPc.closing hm
    split at hs
    · exact h.egEnsureConnected hclosing hon hfd ‹_› (Option.some.inj hs)
    rename_i hinit
    split at hs
    · exact (h.inited hm (Bool.eq_false_iff.mpr hinit) hon hfd).egEnsureConnected hclosing hon hfd rfl
        (Option.some.inj hs)
    · cases hs
      exact hgoto rfl trivial
  case egRetry =>
    split at hs <;> cases hs
    · exact hgoto rfl hat
    · exact hgoto rfl trivial
  case egConnect =>
    split at hs <;> cases hs
    · refine ⟨fun _ => ?_, fun _ => ⟨hat.2.2, .here (by decide)⟩, fun _ _ => ?_, trivial⟩
      · exact ⟨hat.1, (h.initialized hat.2.2).2.cons (by decide)⟩
      · exact ⟨hat.1, (h.opened hat.2.1 (congrArg MainPc.closing hm)).2.cons (by decide)⟩
    · refine hgoto rfl ?_
      split <;> exact hat
  case egSleep =>
    split at hs <;> cases hs
    · exact hgoto rfl trivial
    · exact hgoto rfl hat
  case downFlags =>
    rcases hs with ⟨rfl, rfl⟩
    refine ⟨fun hi => (nomatch hi), fun hc => (nomatch hc), fun hfd _ => ?_, rfl⟩
    exact h.opened hfd (congrArg MainPc.closing hm)
  case downPower =>
    rcases hs with ⟨rfl, rfl⟩
    refine ⟨fun hi => ?_, h.connected, fun _ hclosing => (nomatch hclosing), hat⟩
    exact absurd (hat.symm.trans hi) (by decide)
  case downClose =>
    rcases hs with ⟨rfl, rfl⟩
    exact ⟨h.initialized, h.connected, fun hfd => (nomatch hfd), trivial⟩
  case downSeen all =>
    rcases hs with ⟨rfl, rfl⟩
    refine ⟨h.initialized, h.connected, fun hfd _ => h.opened hfd (congrArg MainPc.closing hm), ?_⟩
    show MainPc.EgAt _ _ _ (if all then .downBd else .loop)
    split <;> trivial
  case downBd =>
    rcases hs with ⟨rfl, rfl⟩
    exact (h.setPower (gEgPowerEnabled_bdPowerOff s.power)).goto (congrArg MainPc.closing hm) trivial
  case bdIsOn =>
    rcases hs with ⟨rfl, rfl⟩
    refine hgoto rfl ?_
    split <;> trivial
  case bdReset =>
    rcases hs with ⟨rfl, rfl⟩
    exact ⟨h.initialized, h.connected, fun hfd _ => h.opened hfd (congrArg MainPc.closing hm), trivial⟩
  case bdOn =>
    rcases hs with ⟨rfl, rfl⟩
    exact h.bdPowerOn.goto (congrArg MainPc.closing hm) trivial
  case bdWait =>
    split at hs
    · cases hs
      exact hgoto rfl trivial
    split at hs <;> cases hs <;> exact hgoto rfl trivial
  case bdTimedwait => split at hs <;> cases hs <;> exact hgoto rfl trivial

theorem btStep (h : s.EgCached) : s.btStep.EgCached := by
  unfold Modules.btStep
  split
  · split
    · exact h
    · exact ⟨h.initialized, h.connected, h.opened, h.egAt⟩
  · exact ⟨h.bdPowerOn.initialized, h.bdPowerOn.connected, h.bdPowerOn.opened, h.bdPowerOn.egAt⟩
  · exact ⟨h.egPowerOn.initialized, h.egPowerOn.connected, h.egPowerOn.opened, h.egPowerOn.egAt⟩

theorem step (h : s.EgCached) {a : ModuleAction} {r : Option Return} (hs : s.step a = some (s', r)) :
    s'.EgCached := by
  rcases a with f | ok | _ | ⟨now, ch⟩ | _
  case call =>
    obtain ⟨hm, rfl, -⟩ := Modules.call_step hs
    exact h.call hm f
  case main => exact h.mainStep hs
  case bt =>
    cases hs
    exact h.btStep
  case feed =>
    cases hs
    have hkeep : ∀ e e₀, e₀ = .egPowerOn ∨ e₀ = .egInit → Since e e₀ s.history →
        Since e e₀ (s.feed now ch).history := by
      rintro e e₀ (rfl | rfl) he
      all_goals
        show Since _ _ (if _ then _ else _)
        split
        · exact he.cons (by decide)
        · exact he
    have h' := h.event hkeep
    exact ⟨h'.initialized, h'.connected, h'.opened, h'.egAt⟩
  case stop =>
    cases hs
    exact ⟨h.initialized, h.connected, h.opened, h.egAt⟩

/-- `main_ensure_eg_ready` returns 0 with the UART open and `*eg_connected` set. -/
theorem returns (h : s.EgCached) {ok : Bool} (hs : s.mainStep ok = some (s', some (.mainEnsureEgReady 0))) :
    s'.egFd = true ∧ s'.egConnected = true ∧ s'.main = .loop := by
  have hat := h.egAt
  unfold Modules.mainStep at hs
  rcases hm : s.main <;> rw [hm] at hat <;> simp only [hm, reduceCtorEq] at hs
  case egInit =>
    split at hs
    · obtain ⟨-, hconn, rfl⟩ := Modules.egEnsureConnected_returns (Option.some.inj hs)
      exact ⟨hat.2, hconn, rfl⟩
    split at hs
    · obtain ⟨-, hconn, rfl⟩ := Modules.egEnsureConnected_returns (Option.some.inj hs)
      exact ⟨hat.2, hconn, rfl⟩
    · cases hs
  case egConnect =>
    split at hs <;> cases hs
    exact ⟨hat.2.1, rfl, rfl⟩
  all_goals repeat' split at hs
  all_goals cases hs

end Modules.EgCached

/-- Whenever `main_ensure_eg_ready` returns 0, in any run, the module is on, its UART
is open and was opened after the module was last switched on, `eg_init` has succeeded
since then, and `eg_connect` since the last `eg_init`. -/
theorem mainEnsureEgReady_ready {a : ModuleAction} (hrun : Runs Modules.step (fun _ _ => True) .boot s)
    (hs : s.step a = some (s', some (.mainEnsureEgReady 0))) :
    s'.power.gEgPowerEnabled = true ∧ s'.egFd = true ∧ Since .egOpened .egPowerOn s'.history ∧
      Since .egInit .egPowerOn s'.history ∧ Since .egConnect .egInit s'.history := by
  have h : s.EgCached := hrun.invariant .boot fun _ _ _ _ h _ hs => h.step hs
  obtain ⟨ok, hs⟩ := Modules.step_returns hs
  have h' := h.mainStep hs
  obtain ⟨hfd, hconn, hmain⟩ := h.returns hs
  obtain ⟨hinit, hconnect⟩ := h'.connected hconn
  obtain ⟨hon, hopened⟩ := h'.opened hfd (congrArg MainPc.closing hmain)
  exact ⟨hon, hfd, hopened, (h'.initialized hinit).2, hconnect⟩

/-- The Bluetooth thread finds the modules off just before `main_send_thread` switches
the 4G module on, whose UART then does not open at the first attempt. -/
def egReadyRun : List ModuleAction :=
  [.call .mainAllPowerDown, .main true, .main true, .main true, .main true, .main true, .bt,
    .call (.mainEnsureEgReady 1), .main true, .main true, .bt, .main true, .bt, .main true, .main false,
    .main true, .main true, .main true]

theorem mainEnsureEgReady_ready_two :
    ∃ s' : Modules, s'.history.length = 8 ∧ s'.power.gEgPowerEnabled = true ∧ s'.egFd = true ∧
      Since .egOpened .egPowerOn s'.history ∧ Since .egInit .egPowerOn s'.history ∧
      Since .egConnect .egInit s'.history := by
  have h : (runList Modules.step (fun _ _ => true) .boot egReadyRun).map (fun s =>
      (s.step (.main true)).map fun r => (r.1.history.length, r.2)) =
        some (some (8, some (.mainEnsureEgReady 0))) := by
    decide +kernel
  obtain ⟨s, hs, hstep⟩ := Option.map_eq_some_iff.mp h
  obtain ⟨⟨s', r⟩, hstep, heq⟩ := Option.map_eq_some_iff.mp hstep
  simp only [Prod.mk.injEq] at heq
  obtain ⟨hlength, rfl⟩ := heq
  exact ⟨s', hlength, mainEnsureEgReady_ready (.of_runList (fun _ _ _ => trivial) .start hs) hstep⟩

/-! ## The BeiDou module -/

theorem gBdReadySeen_parseLine (now : Nat) (st : BdStatus) (line : List Char) :
    (bdStatusParseLine now st line).gBdReadySeen = (isReadyLine line || st.gBdReadySeen) := by
  unfold bdStatusParseLine
  split
  · rename_i hready
    rw [hready, Bool.true_or]
  · rename_i hready
    rw [Bool.not_eq_true] at hready
    rw [hready, Bool.false_or]
    repeat' split
    all_goals rfl

/-- The flag is set by a byte that ends a line of readiness, and kept by any other. -/
theorem gBdReadySeen_feed (s : Modules) (now : Nat) (ch : UInt8) :
    (s.feed now ch).status.gBdReadySeen = (s.endsReadyLine ch || s.status.gBdReadySeen) := by
  show (bdStatusFeedByte now s.status ch).gBdReadySeen = _
  unfold bdStatusFeedByte Modules.endsReadyLine
  split
  · rename_i hcr
    rw [hcr]
    rfl
  split
  · rename_i hlf
    rw [hlf]
    split
    · rename_i hpos
      rw [decide_eq_true hpos]
      exact gBdReadySeen_parseLine now s.status s.status.line
    · rename_i hpos
      rw [decide_eq_false hpos]
      rfl
  · rename_i hlf
    rw [beq_false_of_ne hlf]
    repeat' split
    all_goals rfl

/-- The step switches the BeiDou module on. -/
def Modules.switchesBdOn (s : Modules) (a : ModuleAction) : Bool :=
  !s.power.gBdPowerEnabled && match a with
    | .main _ => (s.main matches .bdOn)
    | .bt => (s.bt matches .bdOn)
    | _ => false

/-- The BeiDou module is switched on only with `g_bd_ready_seen` clear. -/
def Modules.Clear (s : Modules) (a : ModuleAction) : Prop :=
  s.switchesBdOn a = true → s.status.gBdReadySeen = false

instance (s : Modules) (a : ModuleAction) : Decidable (s.Clear a) :=
  inferInstanceAs (Decidable (_ → _))

/-- `g_bd_ready_seen` is about the module since it was last switched on. -/
def Modules.BdFresh (s : Modules) : Prop :=
  s.status.gBdReadySeen = true → Since .bdReadyLine .bdPowerOn s.history

namespace Modules.BdFresh

theorem bdPowerOn (h : s.BdFresh) (hclear : s.power.gBdPowerEnabled = false → s.status.gBdReadySeen = false) :
    s.bdPowerOn.BdFresh := by
  intro hready
  have hon : s.power.gBdPowerEnabled = true :=
    Bool.of_not_eq_false fun hoff => absurd (hready.symm.trans (hclear hoff)) (by decide)
  show Since _ _ (if s.power.gBdPowerEnabled then _ else _)
  rw [if_pos hon]
  exact h hready

theorem egPowerOn (h : s.BdFresh) : s.egPowerOn.BdFresh := fun hready => (h hready).of_ite (by decide)

theorem egEnsureConnected (h : s.BdFresh) {n : Nat} {r : Option Return} (hs : s.egEnsureConnected n = (s', r)) :
    s'.BdFresh := by
  unfold Modules.egEnsureConnected at hs
  split at hs <;> cases hs <;> exact h

theorem mainStep (h : s.BdFresh) {ok : Bool} {r : Option Return} (hclear : s.Clear (.main ok))
    (hs : s.mainStep ok = some (s', r)) : s'.BdFresh := by
  have hevent : ∀ x : ModuleEvent, x ≠ .bdPowerOn → { s with history := x :: s.history }.BdFresh :=
    fun x hx hready => (h hready).cons hx
  unfold Modules.mainStep at hs
  rcases hm : s.main <;> simp only [hm, reduceCtorEq] at hs
  case egOn =>
    cases hs
    exact h.egPowerOn
  case egOpen =>
    split at hs
    · cases hs
      exact hevent .egOpened (by decide)
    · split at hs <;> cases hs <;> exact h
  case egInit =>
    split at hs
    · exact h.egEnsureConnected (Option.some.inj hs)
    split at hs
    · exact BdFresh.egEnsureConnected (s := { s with egInitialized := true, history := .egInit :: s.history })
        (hevent .egInit (by decide)) (Option.some.inj hs)
    · cases hs
      exact h
  case egConnect =>
    split at hs <;> cases hs
    · exact hevent .egConnect (by decide)
    · exact h
  case bdReset =>
    cases hs
    exact fun hready => nomatch hready
  case bdOn =>
    cases hs
    refine h.bdPowerOn fun hoff => hclear ?_
    rw [switchesBdOn, hoff, hm]
    rfl
  all_goals repeat' split at hs
  all_goals
    cases hs
    exact h

theorem btStep (h : s.BdFresh) (hclear : s.Clear .bt) : s.btStep.BdFresh := by
  unfold Modules.btStep
  rcases hb : s.bt with _ | _ | _
  · show (if rfPowerIsOn s.power then s else { s with bt := .bdOn }).BdFresh
    split <;> exact h
  · refine h.bdPowerOn fun hoff => hclear ?_
    rw [switchesBdOn, hoff, hb]
    rfl
  · exact h.egPowerOn

theorem feed (h : s.BdFresh) (now : Nat) (ch : UInt8) : (s.feed now ch).BdFresh := by
  intro hready
  rw [gBdReadySeen_feed, Bool.or_eq_true] at hready
  show Since _ _ (if s.endsReadyLine ch then _ else _)
  split
  · exact .here (by decide)
  · rename_i hends
    exact h (hready.resolve_left hends)

theorem step (h : s.BdFresh) {a : ModuleAction} {r : Option Return} (hclear : s.Clear a)
    (hs : s.step a = some (s', r)) : s'.BdFresh := by
  rcases a with f | ok | _ | ⟨now, ch⟩ | _
  · obtain ⟨-, rfl, -⟩ := call_step hs
    rcases f <;> exact h
  · exact h.mainStep hclear hs
  · cases hs
    exact h.btStep hclear
  · cases hs
    exact h.feed now ch
  · cases hs
    exact h

end Modules.BdFresh

/-- `bd_wait_ready_and_pwi` returns 0 only with `g_bd_ready_seen` set. -/
theorem Modules.mainStep_bdWait {ok : Bool} (hs : s.mainStep ok = some (s', some (.bdWaitReadyAndPwi 0))) :
    s.status.gBdReadySeen = true ∧ s'.history = s.history := by
  unfold Modules.mainStep at hs
  rcases hm : s.main <;> simp only [hm, reduceCtorEq] at hs
  case egInit =>
    split at hs
    · cases (egEnsureConnected_returns (Option.some.inj hs)).1
    split at hs
    · cases (egEnsureConnected_returns (Option.some.inj hs)).1
    · cases hs
  case bdWait =>
    split at hs
    · cases hs
    · split at hs <;> cases hs
      exact ⟨‹_›, rfl⟩
  all_goals repeat' split at hs
  all_goals cases hs

/-- In every run that switches the BeiDou module on only with `g_bd_ready_seen` clear,
`bd_wait_ready_and_pwi` returns 0 only if a line of readiness has been received since
the module was last switched on. -/
theorem bdWaitReady_ready {a : ModuleAction} (hrun : Runs Modules.step Modules.Clear .boot s)
    (hs : s.step a = some (s', some (.bdWaitReadyAndPwi 0))) : Since .bdReadyLine .bdPowerOn s'.history := by
  have hboot : Modules.boot.BdFresh := fun hready => nomatch hready
  have h : s.BdFresh := hrun.invariant hboot fun _ _ _ _ h hclear hs => h.step hclear hs
  obtain ⟨ok, hs⟩ := Modules.step_returns hs
  obtain ⟨hready, hhistory⟩ := Modules.mainStep_bdWait hs
  exact hhistory ▸ h hready

/-- A line of readiness, as the module sends it. -/
def readyLine : List ModuleAction :=
  ("READY FOR TRANSMISSION".toList.map fun c => .feed 0 (UInt8.ofNat c.toNat)) ++ [.feed 0 0x0A]

/-- `main_send_thread` switches the BeiDou module on, and it becomes ready. -/
def freshReadyRun : List ModuleAction :=
  ([.call .mainAllPowerDown, .main true, .main true, .main true, .main true, .main true, .call .mainEnsureBdReady,
    .main true, .main true, .main true] : List ModuleAction) ++ readyLine

theorem bdWaitReady_ready_one :
    ∃ s' : Modules, s'.history.length = 5 ∧ Since .bdReadyLine .bdPowerOn s'.history := by
  have h : (runList Modules.step (fun s a => decide (s.Clear a)) .boot freshReadyRun).map (fun s =>
      (s.step (.main true)).map fun r => (r.1.history.length, r.2)) =
        some (some (5, some (.bdWaitReadyAndPwi 0))) := by
    decide +kernel
  obtain ⟨s, hs, hstep⟩ := Option.map_eq_some_iff.mp h
  obtain ⟨⟨s', r⟩, hstep, heq⟩ := Option.map_eq_some_iff.mp hstep
  simp only [Prod.mk.injEq] at heq
  obtain ⟨hlength, rfl⟩ := heq
  exact ⟨s', hlength, bdWaitReady_ready (.of_runList (fun _ _ h => of_decide_eq_true h) .start hs) hstep⟩

/-- The module is ready, switched off, and switched on by the Bluetooth thread; then
`main_send_thread` switches the 4G module off again and waits for the BeiDou module. -/
def staleReadyRun : List ModuleAction :=
  readyLine ++ ([.call .mainAllPowerDown, .main true, .main true, .main true, .main true, .main true, .bt, .bt, .bt,
    .call .mainEgPowerDown, .main true, .main true, .main true, .main true, .call .mainEnsureBdReady,
    .main true] : List ModuleAction)

theorem bdWaitReady_stale :
    ¬∀ s s' : Modules, ∀ a, Runs Modules.step (fun _ _ => True) .boot s →
      s.step a = some (s', some (.bdWaitReadyAndPwi 0)) → Since .bdReadyLine .bdPowerOn s'.history := by
  intro hready
  have h : (runList Modules.step (fun _ _ => true) .boot staleReadyRun).map (fun s =>
      (s.step (.main true)).map fun r => (decide (Since .bdReadyLine .bdPowerOn r.1.history), r.2)) =
        some (some (false, some (.bdWaitReadyAndPwi 0))) := by
    decide +kernel
  obtain ⟨s, hs, hstep⟩ := Option.map_eq_some_iff.mp h
  obtain ⟨⟨s', r⟩, hstep, heq⟩ := Option.map_eq_some_iff.mp hstep
  simp only [Prod.mk.injEq, decide_eq_false_iff_not] at heq
  obtain ⟨hstale, rfl⟩ := heq
  exact hstale (hready s s' _ (.of_runList (fun _ _ _ => trivial) .start hs) hstep)

end Dtu
