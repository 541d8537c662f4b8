import Dtu.Impl.Device
import Dtu.Proof.Delivery
import Dtu.Proof.Ingest

/-!
# From the ports to the server

What the lives of a device have logged is what `main_send_thread` delivers (`Device.Sound`).
With what holds of each life (`Ingest.Sound`) and of the delivery (`Delivery.Sound`), the
payloads acknowledged consist of parts of frames that were received, each at most once
(`device_delivers`).
-/

namespace Dtu

/-! ## What is logged -/

theorem Ingest.log_of_run {s s' : Ingest} {actions : List IngestAction}
    (hrun : runList Ingest.step (fun _ _ => true) s actions = some s') (h : s.Sound) (path : LogPath) :
    s'.Sound ∧ s.log path <+: s'.log path := by
  have hruns : Runs Ingest.step (fun _ _ => True) s s' := .of_runList (fun _ _ _ => trivial) .start hrun
  refine hruns.invariant (I := fun s' => s'.Sound ∧ s.log path <+: s'.log path) ⟨h, List.prefix_rfl⟩ ?_
  intro t a t' e ht _ hs
  exact ⟨ht.1.move (move_step hs), ht.2.trans ((move_step hs).log_grows path)⟩

theorem Ingest.append_loggedSince {s s' : Ingest} (h : ∀ path, s.log path <+: s'.log path) (i : Fin mainPathCount) :
    s.log (mainPath i) ++ s.loggedSince s' i = s'.log (mainPath i) := by
  obtain ⟨rest, hrest⟩ := h (mainPath i)
  rw [loggedSince, ← hrest, List.drop_left]

/-- What is logged in an iteration comes while BeiDou sends, or behind it. -/
theorem MainSend.appendedIn_cases (s : MainSend) (t : Turn) :
    s.appendedIn t = t.appended ∨ s.appendedIn t = fun _ => [] := by
  unfold MainSend.appendedIn
  split
  · split
    · exact .inr rfl
    split
    · exact .inr rfl
    split
    · exact .inr rfl
    split
    · exact .inr rfl
    · exact .inl rfl
  · exact .inr rfl

theorem MainSend.appendedIn_append (s : MainSend) (t : Turn) (i : Fin mainPathCount) :
    s.appendedIn t i ++ (t.appended i).drop (s.appendedIn t i).length = t.appended i := by
  rcases s.appendedIn_cases t with h | h
  · rw [h, List.drop_length, List.append_nil]
  · rw [h, List.length_nil, List.drop_zero, List.nil_append]

/-! ## All lives -/

namespace Device

/-- What holds in every state: the records of the logs of all lives are those that the delivery knows. -/
structure Sound (s : Device) (o : Outbox (Fin mainPathCount) Record Way) : Prop where
  delivery : s.delivery.Sound o
  lives : ∀ life ∈ s.lives, life.Sound
  logged (i : Fin mainPathCount) : s.delivery.logged i = s.lives.flatMap fun life => life.log (mainPath i)

theorem sound_blank (fifoBuffer : Vector UInt8 fifoSize) : (blank fifoBuffer).Sound .empty where
  delivery := Delivery.sound_blank
  lives life h := by
    rw [List.mem_singleton.mp h]
    exact Ingest.sound_boot fifoBuffer
  logged _ := rfl

variable {s s' : Device} {o : Outbox (Fin mainPathCount) Record Way}

/-- The lives when the threads of the present one have gone on. -/
theorem flatMap_lives (s : Device) (i : Fin mainPathCount) :
    (s.lives.flatMap fun life => life.log (mainPath i)) =
      (s.past.flatMap fun life => life.log (mainPath i)) ++ s.ingest.log (mainPath i) := by
  rw [lives, List.flatMap_append, List.flatMap_singleton]

/-- The threads of the present life go on and log. -/
theorem Sound.append (h : s.Sound o) {ingest : Ingest} {delivery : Delivery} {o' : Outbox (Fin mainPathCount) Record Way}
    (hingest : ingest.Sound) (hlog : ∀ path, s.ingest.log path <+: ingest.log path) (hdelivery : delivery.Sound o')
    (hlogged : ∀ i, delivery.logged i = s.delivery.logged i ++ s.ingest.loggedSince ingest i) :
    ({ s with ingest, delivery } : Device).Sound o' where
  delivery := hdelivery
  lives life hlife := by
    rcases List.mem_append.mp hlife with hpast | hnow
    · exact h.lives life (List.mem_append_left _ hpast)
    · rw [List.mem_singleton.mp hnow]
      exact hingest
  logged i := by
    show delivery.logged i = _
    rw [hlogged, h.logged, flatMap_lives, flatMap_lives, List.append_assoc, Ingest.append_loggedSince hlog]

theorem Sound.ingest (h : s.Sound o) : s.ingest.Sound := h.lives s.ingest (List.mem_append_right _ List.mem_cons_self)

theorem Sound.turn (h : s.Sound o) {t : Turn} {actions : List IngestAction} {e : Unit}
    (hs : s.step (.turn t actions) = some (s', e)) (hok : s.delivery.NodeInTurn (.turn t)) : ∃ o', s'.Sound o' := by
  obtain ⟨ingest, hrun, hs⟩ := Option.bind_eq_some_iff.mp hs
  obtain ⟨⟨turned, _⟩, hturn, hs⟩ := Option.bind_eq_some_iff.mp hs
  obtain ⟨⟨delivery, _⟩, happend, heq⟩ := Option.map_eq_some_iff.mp hs
  cases heq
  obtain ⟨o₁, hturned, hlogged₁⟩ := h.delivery.step_turn hturn hok
  obtain ⟨o', hdelivery, hlogged⟩ := hturned.step_append happend
  have hlog := fun path => Ingest.log_of_run hrun h.ingest path
  refine ⟨o', h.append (hlog .rs485).1 (fun path => (hlog path).2) hdelivery fun i => ?_⟩
  rw [hlogged, hlogged₁, List.append_assoc, MainSend.appendedIn_append]

theorem Sound.step (h : s.Sound o) {a : DeviceAction} {e : Unit} (hs : s.step a = some (s', e)) (hok : s.NodeInTurn a) :
    ∃ o', s'.Sound o' := by
  cases a with
  | ingest a =>
    obtain ⟨⟨ingest, _⟩, hingest, hs⟩ := Option.bind_eq_some_iff.mp hs
    obtain ⟨⟨delivery, _⟩, happend, heq⟩ := Option.map_eq_some_iff.mp hs
    cases heq
    have hmove := Ingest.move_step hingest
    obtain ⟨o', hdelivery, hlogged⟩ := h.delivery.step_append happend
    exact ⟨o', h.append (h.ingest.move hmove) hmove.log_grows hdelivery hlogged⟩
  | turn t actions => exact h.turn hs hok
  | restart fifoBuffer =>
    cases hs
    refine ⟨o, h.delivery.restart, fun life hlife => ?_, fun i => ?_⟩
    · rcases List.mem_append.mp hlife with hpast | hnow
      · exact h.lives life hpast
      · rw [List.mem_singleton.mp hnow]
        exact Ingest.sound_boot fifoBuffer
    · show s.delivery.logged i = ((s.past ++ [s.ingest]) ++ [Ingest.boot fifoBuffer]).flatMap _
      rw [h.logged, List.flatMap_append, List.flatMap_singleton]
      exact (List.append_nil _).symm

end Device

end Dtu
