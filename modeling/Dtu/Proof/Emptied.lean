import Dtu.Proof.Ingest

/-!
# The FIFO is emptied

Wherever `write_file_thread` is, its next step brings it nearer to the end of what is queued
(`Ingest.Draining.step`), so by itself it is done with all of it in six steps for each message, and
logs each (`ingest_drains`), if its files can be written.
-/

namespace Dtu

namespace Ingest

/-- A message that `write_file_thread` logs. -/
structure Known (msg : FifoMessage) : Prop where
  path : (logPath msg.type).isSome = true
  len : msg.len.toNat ≤ 256

theorem known_message {type : UInt32} (htype : (logPath type).isSome = true) {data : List UInt8} (hlen : data.length ≤ 256)
    (frameId : UInt32) (partIndex partCount : UInt16) : Known (message type data frameId partIndex partCount) where
  path := htype
  len := (Nat.mod_le _ _).trans hlen

/-- All messages that come to the FIFO are. -/
theorem Sound.known {s : Ingest} (h : s.Sound) : ∀ msg ∈ s.fifo.accepted, Known msg := by
  intro msg hmsg
  by_cases hport : msg.fromPort = true
  · have hput : msg ∈ s.calls.flatMap SubmitCall.put := h.carries.accepted ▸ List.mem_filter.mpr ⟨hmsg, hport⟩
    obtain ⟨c, -, hc⟩ := List.mem_flatMap.mp hput
    obtain ⟨k, -, rfl⟩ := List.mem_map.mp hc
    exact known_message (by cases c.port <;> decide) (List.length_take_le _ _) _ _ _
  · have hpushed := h.carries.pushes msg hmsg (Bool.eq_false_iff.mpr hport)
    refine ⟨?_, hpushed.len⟩
    rcases hpushed.type with htype | htype
    · rw [htype]
      decide
    · rw [htype]
      decide

/-- No producer holds the FIFO. -/
def Unlocked (s : Ingest) : Prop :=
  ∀ producer msg, s.fifo.holder ≠ .testLeft producer msg ∧ s.fifo.holder ≠ .put producer msg

/-- How many steps `write_file_thread` takes with `n` messages in the FIFO. -/
def togo (s : Ingest) (n : Nat) : Nat :=
  match s.writer with
  | .loop => 6 * n
  | .fifo =>
    match s.fifo.holder with
    | .testLen => 6 * n - 2
    | .get => 6 * n - 3
    | _ => 6 * n - 1
  | .got _ => 6 * n + 2
  | .write _ _ _ => 6 * n + 1
  | .returned => 0

/-- `write_file_thread` runs and can have the FIFO, in which there are these messages. -/
structure Draining (s : Ingest) (pending : List FifoMessage) : Prop where
  going : s.stopFlag = false
  running : s.writer ≠ .returned
  unlocked : s.Unlocked
  reads : s.Reads
  queue : s.fifo.Queue pending
  known : ∀ msg ∈ s.hand ++ pending, Known msg

/-- A step of `write_file_thread`: less is to do, and what has left its hand is logged. -/
structure DrainStep (s : Ingest) (pending : List FifoMessage) (s' : Ingest) (pending' : List FifoMessage) : Prop where
  draining : s'.Draining pending'
  togo : s'.togo pending'.length + 1 = s.togo pending.length
  handled : ∃ new, s'.handled = s.handled ++ new ∧ new.map (·.msg) ++ s'.hand ++ pending' = s.hand ++ pending ∧
    ∀ d ∈ new, d.logged.isSome = true

variable {s : Ingest} {pending : List FifoMessage}

/-- Elsewhere nobody holds the FIFO. -/
theorem Draining.free (h : s.Draining pending) (hwriter : s.writer ≠ .fifo) : s.fifo.holder = .free := by
  cases hholder : s.fifo.holder with
  | free => rfl
  | testLeft producer msg => exact absurd hholder (h.unlocked producer msg).1
  | put producer msg => exact absurd hholder (h.unlocked producer msg).2
  | testLen => exact absurd (h.reads (.inl hholder)) hwriter
  | get => exact absurd (h.reads (.inr hholder)) hwriter

/-- A step that leaves the FIFO and its lock. -/
theorem Draining.local (h : s.Draining pending) (hwriter : s.writer ≠ .fifo) {s' : Ingest} (hfifo : s'.fifo = s.fifo)
    (hstop : s'.stopFlag = s.stopFlag) (hrunning : s'.writer ≠ .returned) (hhand : ∀ msg ∈ s'.hand, msg ∈ s.hand) :
    s'.Draining pending where
  going := hstop.trans h.going
  running := hrunning
  unlocked := by
    rw [Unlocked, hfifo]
    exact h.unlocked
  reads := h.reads.elsewhere hwriter hfifo
  queue := hfifo ▸ h.queue
  known := fun msg hmsg => h.known msg <| by
    rcases List.mem_append.mp hmsg with hmsg | hmsg
    · exact List.mem_append_left _ (hhand msg hmsg)
    · exact List.mem_append_right _ hmsg

/-- A step at the FIFO. -/
theorem Draining.fifo (h : s.Draining pending) (hwriter : s.writer = .fifo) {holder : Holder Producer}
    (hholder : holder = .testLen ∨ holder = .get) (hget : holder = .get → messageSize ≤ kfifoLen s.fifo.fifo) :
    ({ s with fifo := { s.fifo with holder := holder } } : Ingest).Draining pending where
  going := h.going
  running := h.running
  unlocked producer msg := by rcases hholder with rfl | rfl <;> exact ⟨fun h => (by cases h), fun h => by cases h⟩
  reads _ := hwriter
  queue := h.queue.hold (fun producer msg hput => by rcases hholder with rfl | rfl <;> cases hput) hget
  known := h.known

theorem Draining.step (h : s.Draining pending) (hmore : s.togo pending.length ≠ 0) {w : Writing} (hw : w.succeeds = true) :
    ∃ s' pending', s.write w = some s' ∧ s.DrainStep pending s' pending' := by
  have hgoing := h.going
  cases hwriter : s.writer with
  | loop =>
    simp only [togo, hwriter] at hmore
    have hfree := h.free (by simp [hwriter])
    refine ⟨{ s with writer := .fifo }, pending, by rw [Ingest.write, hwriter, hgoing]; rfl, ?_, ?_, [], ?_, ?_, ?_⟩
    · exact h.local (by simp [hwriter]) rfl rfl (by simp) fun msg hmsg => by cases hmsg
    · simp only [togo, hwriter, hfree]
      omega
    · exact (List.append_nil _).symm
    · simp [hand, hwriter]
    · simp
  | fifo =>
    have hnil : s.hand = [] := by rw [hand, hwriter]
    simp only [togo, hwriter] at hmore
    cases hholder : s.fifo.holder with
    | free =>
      simp only [hholder] at hmore
      refine ⟨{ s with fifo := { s.fifo with holder := .testLen } }, pending, ?_, ?_, ?_, [], ?_, ?_, ?_⟩
      · simp only [Ingest.write, hwriter, writeFifo, hholder, DataFifo.step, Option.map_some]
      · exact h.fifo hwriter (.inl rfl) fun h => by cases h
      · simp only [togo, hwriter, hholder]
        omega
      · exact (List.append_nil _).symm
      · simp [hand, hwriter]
      · simp
    | testLen =>
      simp only [hholder] at hmore
      have hlen := h.queue.toNat_len
      have hsize : messageSize.toNat = 272 := rfl
      have havail : ¬kfifoLen s.fifo.fifo < messageSize := by
        rw [UInt32.lt_iff_toNat_lt]
        rw [hsize] at hlen ⊢
        omega
      refine ⟨{ s with fifo := { s.fifo with holder := .get } }, pending, ?_, ?_, ?_, [], ?_, ?_, ?_⟩
      · simp only [Ingest.write, hwriter, writeFifo, hholder, hgoing, DataFifo.step, if_neg havail, Bool.false_eq_true,
          if_false, Option.map_some]
      · exact h.fifo hwriter (.inr rfl) fun _ => UInt32.not_lt.mp havail
      · simp only [togo, hwriter, hholder]
        omega
      · exact (List.append_nil _).symm
      · simp [hand, hwriter]
      · simp
    | get =>
      simp only [hholder] at hmore
      obtain ⟨fifo, hs⟩ : ∃ fifo, s.fifo.step .resume = some fifo := by
        rw [DataFifo.step, hholder]
        exact ⟨_, rfl⟩
      obtain ⟨msg, rest, rfl, hobtained, hfree, -, hrest⟩ := h.queue.get hholder hs
      obtain ⟨hlen, hmsg⟩ := DataFifo.got hholder hs hobtained
      refine ⟨{ s with fifo, writer := .got msg }, rest, ?_, ⟨h.going, by simp, fun _ _ => ?_, fun hread => ?_, hrest, ?_⟩,
        ?_, [], ?_, ?_, ?_⟩
      · simp only [Ingest.write, hwriter, writeFifo, hholder, hs, Option.map_some, hlen, if_true, hmsg]
      · show fifo.holder ≠ _ ∧ fifo.holder ≠ _
        rw [hfree]
        exact ⟨fun h => (by cases h), fun h => by cases h⟩
      · have hno : fifo.holder = .testLen ∨ fifo.holder = .get := hread
        rw [hfree] at hno
        rcases hno with hno | hno <;> cases hno
      · have hknown := h.known
        rw [hnil, List.nil_append] at hknown
        exact hknown
      · simp only [togo, hwriter, hholder, List.length_cons]
        omega
      · exact (List.append_nil _).symm
      · simp [hand, hwriter]
      · simp
    | testLeft producer msg => exact absurd hholder (h.unlocked producer msg).1
    | put producer msg => exact absurd hholder (h.unlocked producer msg).2
  | got msg =>
    have hhand : s.hand = [msg] := by rw [hand, hwriter]
    have hknown := h.known msg (List.mem_append_left _ (hhand ▸ List.mem_singleton_self msg))
    obtain ⟨path, hpath⟩ := Option.isSome_iff_exists.mp hknown.path
    refine ⟨{ s with
        gLogFrameId := (assignFrameId s.gLogFrameId msg).2
        writer := .write path msg s.gLogFrameId
        drawn := if msg.frameId = 0 then s.drawn + 1 else s.drawn }, pending, ?_, ?_, ?_, [], ?_, ?_, ?_⟩
    · simp only [Ingest.write, hwriter, hpath]
    · refine h.local (by simp [hwriter]) rfl rfl (by simp) fun msg' hmsg' => ?_
      rw [hhand]
      exact hmsg'
    · simp only [togo, hwriter]
    · exact (List.append_nil _).symm
    · rw [hhand]
      rfl
    · simp
  | write path msg g =>
    have hhand : s.hand = [msg] := by rw [hand, hwriter]
    have hlen := (h.known msg (List.mem_append_left _ (hhand ▸ List.mem_singleton_self msg))).len
    refine ⟨{ s with
        writer := .loop
        handled := s.handled ++ [⟨msg, (record g w.tm msg hlen).msg.frameId, some (path, record g w.tm msg hlen)⟩] },
      pending, ?_, ?_, ?_, [⟨msg, (record g w.tm msg hlen).msg.frameId, some (path, record g w.tm msg hlen)⟩], rfl, ?_, ?_⟩
    · simp only [Ingest.write, hwriter, dif_pos hlen, hw, if_true]
    · exact h.local (by simp [hwriter]) rfl rfl (by simp) fun msg hmsg => by cases hmsg
    · simp only [togo, hwriter]
    · rw [hhand]
      rfl
    · simp
  | returned => exact absurd hwriter h.running

theorem togo_le (s : Ingest) (n : Nat) : s.togo n ≤ 6 * n + 2 := by
  unfold togo
  split
  · omega
  · split <;> omega
  · omega
  · omega
  · omega

theorem Draining.done (h : s.Draining pending) (hzero : s.togo pending.length = 0) : s.hand = [] ∧ pending = [] := by
  have hpending : 6 * pending.length ≤ 3 → pending = [] := fun h => List.length_eq_zero_iff.mp (by omega)
  cases hwriter : s.writer with
  | loop =>
    simp only [togo, hwriter] at hzero
    exact ⟨by rw [hand, hwriter], hpending (by omega)⟩
  | fifo =>
    refine ⟨by rw [hand, hwriter], hpending ?_⟩
    simp only [togo, hwriter] at hzero
    split at hzero <;> omega
  | got msg =>
    simp only [togo, hwriter] at hzero
    omega
  | write path msg g =>
    simp only [togo, hwriter] at hzero
    omega
  | returned => exact absurd hwriter h.running

/-- The steps of `write_file_thread` to the end, by induction on them. -/
theorem Draining.run {ws : List Writing} (h : s.Draining pending) (hws : ∀ w ∈ ws, w.succeeds = true)
    (hmany : ws.length = s.togo pending.length) :
    ∃ s' new, runList Ingest.step (fun _ _ => true) s (ws.map .write) = some s' ∧ s'.fifo.Queue [] ∧ s'.hand = [] ∧
      s'.handled = s.handled ++ new ∧ new.map (·.msg) = s.hand ++ pending ∧ ∀ d ∈ new, d.logged.isSome = true := by
  induction ws generalizing s pending with
  | nil =>
    obtain ⟨hhand, rfl⟩ := h.done hmany.symm
    exact ⟨s, [], rfl, h.queue, hhand, (List.append_nil _).symm, by rw [hhand]; rfl, by simp⟩
  | cons w ws ih =>
    rw [List.length_cons] at hmany
    obtain ⟨hw, hws⟩ := List.forall_mem_cons.mp hws
    obtain ⟨s₁, pending₁, hstep, hdraining, htogo, new₁, hhandled₁, hmsgs₁, hlogged₁⟩ := h.step (by omega) hw
    obtain ⟨s', new, hrun, hqueue, hhand, hhandled, hmsgs, hlogged⟩ := ih hdraining hws (by omega)
    refine ⟨s', new₁ ++ new, ?_, hqueue, hhand, ?_, ?_, List.forall_mem_append.mpr ⟨hlogged₁, hlogged⟩⟩
    · rw [List.map_cons, runList, if_pos rfl, Ingest.step, hstep]
      exact hrun
    · rw [hhandled, hhandled₁, List.append_assoc]
    · rw [List.map_append, hmsgs, ← List.append_assoc, hmsgs₁]

/-- `write_file_thread` returns only when `stop_flag` is set. -/
theorem Move.returned {s s' : Ingest} (h : s.writer = .returned → s.stopFlag = true) (hs : s.Move s') :
    s'.writer = .returned → s'.stopFlag = true := by
  cases hs with
  | stop => exact fun _ => rfl
  | writes =>
    intro hreturned
    by_contra hstop
    simp only [hstop, if_false] at hreturned
    cases hreturned
  | leaves _ _ hstop => exact fun _ => hstop
  | gets =>
    intro hreturned
    split at hreturned <;> cases hreturned
  | skips | numbers | logs => exact fun h => by cases h
  | begins =>
    unfold submitBegins
    split <;> exact h
  | _ => exact h

end Ingest

/-- Whenever `stop_flag` is not set and no producer holds the FIFO, `write_file_thread`, stepping alone and with files
that can be written, is done with all that it has in hand and in the FIFO after a number of steps, six at
most for each message in the FIFO and two more: it has logged each of them, in order. -/
theorem ingest_drains {fifoBuffer : Vector UInt8 fifoSize} {s : Ingest}
    (hrun : Runs Ingest.step (fun _ _ => True) (.boot fifoBuffer) s) (hstop : s.stopFlag = false) (hlock : s.Unlocked)
    {pending : List FifoMessage} (hqueue : s.fifo.Queue pending) :
    ∃ k ≤ 6 * pending.length + 2, ∀ ws : List Writing, ws.length = k → (∀ w ∈ ws, w.succeeds = true) →
      ∃ s' new, runList Ingest.step (fun _ _ => true) s (ws.map .write) = some s' ∧ s'.fifo.Queue [] ∧ s'.hand = [] ∧
        s'.handled = s.handled ++ new ∧ new.map (·.msg) = s.hand ++ pending ∧ ∀ d ∈ new, d.logged.isSome = true := by
  have hsound := Ingest.sound_of_runs hrun
  have hreturned : s.writer = .returned → s.stopFlag = true :=
    hrun.invariant (I := fun s => s.writer = .returned → s.stopFlag = true) (fun h => by cases h) fun _ _ _ _ h _ hs =>
      Ingest.Move.returned h (Ingest.move_step hs)
  have hdraining : s.Draining pending :=
    { going := hstop
      running := fun h => absurd (hreturned h) (by simp [hstop])
      unlocked := hlock
      reads := Ingest.reads_of_runs hrun
      queue := hqueue
      known := fun msg hmsg => by
        refine hsound.known msg ?_
        rw [hqueue.accepted, hsound.carries.obtained, List.append_assoc]
        exact List.mem_append_right _ hmsg }
  exact ⟨_, s.togo_le _, fun ws hlen hws => hdraining.run hws hlen⟩

/-- Two messages are queued, and one of them found. -/
def queuedRun : List IngestAction :=
  [.push .lora [3], .pushing, .pushing, .push .bt [4], .pushing, .pushing] ++
    List.replicate 3 (.write ⟨.setTime, true⟩)

theorem ingest_drains_two :
    ∃ s : Ingest, ∃ pending : List FifoMessage, s.fifo.accepted.length = 2 ∧
      ∃ k ≤ 6 * pending.length + 2, ∀ ws : List Writing, ws.length = k → (∀ w ∈ ws, w.succeeds = true) →
        ∃ s' new, runList Ingest.step (fun _ _ => true) s (ws.map .write) = some s' ∧ s'.fifo.Queue [] ∧ s'.hand = [] ∧
          s'.handled = s.handled ++ new ∧ new.map (·.msg) = s.hand ++ pending ∧ ∀ d ∈ new, d.logged.isSome = true := by
  have h : (runList Ingest.step (fun _ _ => true) (.boot (Vector.replicate fifoSize 0)) queuedRun).map (fun s =>
      (s.stopFlag, s.fifo.accepted.length, match s.fifo.holder with | .get => true | _ => false)) =
        some (false, 2, true) := by
    decide +kernel
  obtain ⟨s, hlist, heq⟩ := Option.map_eq_some_iff.mp h
  simp only [Prod.mk.injEq] at heq
  obtain ⟨hstop, hcount, hholder⟩ := heq
  have hrun : Runs Ingest.step (fun _ _ => True) (.boot (Vector.replicate fifoSize 0)) s :=
    .of_runList (fun _ _ _ => trivial) .start hlist
  have hlock : s.Unlocked := fun producer msg => by
    constructor
    · intro h
      rw [h] at hholder
      cases hholder
    · intro h
      rw [h] at hholder
      cases hholder
  obtain ⟨pending, hqueue⟩ := (Ingest.sound_of_runs hrun).carries.queue
  exact ⟨s, pending, hcount, ingest_drains hrun hstop hlock hqueue⟩

end Dtu
