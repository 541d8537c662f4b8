import Dtu.Framework.Pacing
import Dtu.Impl.BdTask
import Dtu.Proof.BdPacket

/-!
# Segments of a block, exactly once

A call of `bd_task_send_one_segment` finds the task inactive, waits, fails, or sends the
next segment (`bdTaskSendOneSegment_cases`); only the last moves the task on. So what is
sent is the block up to `task->offset` (`BdTaskRun.Sliced`), and the time of the last
send keeps the sends apart (`BdTaskRun.Apart`). Both are invariants of the calls
(`bdTaskSendOneSegment_served`).
-/

namespace Dtu

/-! ## One call -/

/-- What lets a segment through: the pacing as an `int`, also where the difference of
the times is none. -/
theorem sixty_le_of_waitSec {d : Int} (hd : 0 ≤ d) (hwait : ¬0 < Int32.ofNat bdSendIntervalSec - Int32.ofInt d) :
    (bdSendIntervalSec : Int) ≤ d := by
  show (60 : Int) ≤ d
  by_contra hlt
  apply hwait
  have hd' : (Int32.ofInt d).toInt = d := Int32.toInt_ofInt_of_le (by omega) (by omega)
  have hsixty : (Int32.ofNat bdSendIntervalSec).toInt = 60 := by decide
  rw [Int32.lt_iff_toInt_lt, Int32.toInt_sub, hd', hsixty, Int.bmod_eq_of_le (by omega) (by omega)]
  show (0 : Int) < 60 - d
  omega

theorem bdSendPacketRun_ret (dataSend : List Char → Int) (data : Option (List UInt8)) (len : Int) :
    (bdSendPacketRun dataSend data len).1 = 0 ∨ (bdSendPacketRun dataSend data len).1 = -1 := by
  cases data with
  | none => exact .inr rfl
  | some data =>
    by_cases hbad : len ≤ 0 ∨ (bdMaxRawLen : Int) < len
    · rw [bdSendPacketRun_of_bad hbad]
      exact .inr rfl
    · rw [bdSendPacketRun]
      simp only [if_neg (not_or.mp hbad).1, if_neg (not_or.mp hbad).2]
      split
      · exact .inl rfl
      · exact .inr rfl

/-- `bd_send_packet` takes 1 to 229 bytes. -/
theorem bdSendPacketRun_pos {dataSend : List Char → Int} {data : Option (List UInt8)} {len : Int}
    (h : (bdSendPacketRun dataSend data len).1 = 0) : 0 < len ∧ len ≤ bdMaxRawLen := by
  by_contra hbad
  rw [bdSendPacketRun_of_bad (by omega)] at h
  cases h

/-- The next segment of a task. -/
def BdSegmentTask.segment (task : BdSegmentTask) : List UInt8 :=
  (task.data.drop task.offset).take (min bdMaxRawLen (task.len - task.offset))

/-- What a call does. -/
inductive BdTaskCalled (now sentAt : Int) (task : BdSegmentTask) (last : Int) : BdTaskCall → Prop where
  | inactive : task.active = false → BdTaskCalled now sentAt task last ⟨task, last, bdTaskDone, none⟩
  | waits : task.active = true → BdTaskCalled now sentAt task last ⟨task, last, bdTaskPending, none⟩
  | failed (payload : List UInt8) : task.active = true →
    BdTaskCalled now sentAt task last ⟨task, last, bdTaskFailed, some (payload, -1)⟩
  | sent : task.active = true → (0 < last → last ≤ now → last + bdSendIntervalSec ≤ now) →
    task.offset + bdMaxRawLen < task.len →
    BdTaskCalled now sentAt task last
      ⟨{ task with offset := task.offset + bdMaxRawLen }, sentAt, bdTaskPending, some (task.segment, 0)⟩
  | done : task.active = true → (0 < last → last ≤ now → last + bdSendIntervalSec ≤ now) →
    task.offset < task.len → task.len ≤ task.offset + bdMaxRawLen →
    BdTaskCalled now sentAt task last
      ⟨{ task with active := false, offset := task.len }, sentAt, bdTaskDone, some (task.segment, 0)⟩

theorem bdTaskSendOneSegment_cases (dataSend : List Char → Int) (now sentAt : Int) (task : BdSegmentTask)
    (last : Int) :
    BdTaskCalled now sentAt task last (bdTaskSendOneSegment dataSend now sentAt task last) := by
  unfold bdTaskSendOneSegment
  split
  · exact .inactive ‹_›
  rename_i hactive
  have hactive : task.active = true := Bool.eq_true_of_not_eq_false hactive
  dsimp only
  split
  · exact .waits hactive
  rename_i hpaced
  have hlate : 0 < last → last ≤ now → last + bdSendIntervalSec ≤ now := fun hpos hle => by
    have hwait := sixty_le_of_waitSec (d := now - last) (by omega) fun h => hpaced ⟨by omega, h⟩
    omega
  have hchunk : (if bdMaxRawLen < task.len - task.offset then bdMaxRawLen else task.len - task.offset) =
      min bdMaxRawLen (task.len - task.offset) := by
    split <;> omega
  rw [bdTaskSendSegment]
  dsimp only
  rw [hchunk]
  split
  · rename_i hret
    rw [(bdSendPacketRun_ret _ _ _).resolve_left hret]
    exact .failed _ hactive
  · rename_i hret
    have hret := not_not.mp hret
    have hpos := bdSendPacketRun_pos hret
    rw [hret]
    split
    · rename_i hlen
      have hoffset : task.offset + min bdMaxRawLen (task.len - task.offset) = task.len := by omega
      rw [hoffset]
      exact .done hactive hlate (by omega) (by omega)
    · rename_i hlen
      have hoffset : min bdMaxRawLen (task.len - task.offset) = bdMaxRawLen := by omega
      have hsent := @BdTaskCalled.sent now sentAt task last hactive hlate (by omega)
      rw [BdSegmentTask.segment, hoffset] at hsent
      rw [hoffset]
      exact hsent

/-! ## The calls -/

/-- What has been sent is the block up to `task->offset`, in segments of which only the
last one is short. -/
structure BdTaskRun.Sliced (data : List UInt8) (s : BdTaskRun) : Prop where
  len : s.task.len = data.length
  copy : s.task.data.take data.length = data
  offset : s.task.offset = min data.length (bdMaxRawLen * s.sent.length)
  needed : bdMaxRawLen * s.sent.length < data.length + bdMaxRawLen
  active : s.task.active = true ↔ s.task.offset < data.length
  sizes : ∀ p ∈ s.sent, 1 ≤ p.payload.length ∧ p.payload.length ≤ bdMaxRawLen
  bytes : (s.sent.map BdTaskSent.payload).flatten = data.take s.task.offset

/-- The pacing of the sends that have succeeded. -/
def BdTaskRun.Apart (s : BdTaskRun) : Prop :=
  Paced bdSendIntervalSec (s.sent.map fun p => (p.now, p.sentAt)) s.lastBdSendTime s.clock

namespace BdTaskRun

variable {data : List UInt8} {s s' : BdTaskRun} {c : BdTaskTurn} {r : BdTaskCall}

theorem step_eq_some (h : s.step c = some (s', r)) :
    s.clock ≤ c.now ∧ c.now ≤ c.sentAt ∧ BdTaskCalled c.now c.sentAt s.task s.lastBdSendTime r ∧
      s' = ⟨r.task, r.lastBdSendTime, c.sentAt, s.sent ++ sentBy r c⟩ := by
  unfold step at h
  split at h
  · cases h
  rename_i hclock
  cases h
  exact ⟨by omega, by omega, bdTaskSendOneSegment_cases .., rfl⟩

/-- The next segment of the copy is the next one of the block. -/
theorem Sliced.segment_eq (h : s.Sliced data) :
    s.task.segment = (data.drop s.task.offset).take (min bdMaxRawLen (data.length - s.task.offset)) := by
  rw [BdSegmentTask.segment, h.len]
  conv_rhs => rw [← h.copy]
  rw [List.drop_take, List.take_take]
  congr 1
  rw [List.length_take]
  have hcopy := congrArg List.length h.copy
  rw [List.length_take] at hcopy
  omega

/-- Behind the send of a segment. -/
theorem Sliced.send {now sentAt last clock : Int} {task : BdSegmentTask} (h : s.Sliced data)
    (hmore : s.task.offset < data.length) (hlen : task.len = s.task.len) (hdata : task.data = s.task.data)
    (hoffset : task.offset = min data.length (s.task.offset + bdMaxRawLen))
    (hactive : task.active = true ↔ task.offset < data.length) :
    Sliced data ⟨task, last, clock, s.sent ++ [⟨s.task.segment, now, sentAt⟩]⟩ := by
  have hsegment := h.segment_eq
  have hlength : s.task.segment.length = min bdMaxRawLen (data.length - s.task.offset) := by
    rw [hsegment, List.length_take, List.length_drop]
    omega
  have hold := h.offset
  have hneeded := h.needed
  refine ⟨hlen.trans h.len, hdata ▸ h.copy, ?_, ?_, hactive, fun p hp => ?_, ?_⟩
  · simp only [List.length_append, List.length_singleton, bdMaxRawLen] at hold hoffset ⊢
    omega
  · simp only [List.length_append, List.length_singleton, bdMaxRawLen] at hold ⊢
    omega
  · rcases List.mem_append.mp hp with hp | hp
    · exact h.sizes p hp
    · rw [List.mem_singleton.mp hp]
      simp only [bdMaxRawLen] at hlength ⊢
      omega
  · have hnext : task.offset = s.task.offset + min bdMaxRawLen (data.length - s.task.offset) := by omega
    show ((s.sent ++ [_]).map BdTaskSent.payload).flatten = data.take task.offset
    rw [List.map_append, List.flatten_append, h.bytes, hnext, List.take_add, ← hsegment]
    simp

theorem Sliced.step (h : s.Sliced data) (hs : s.step c = some (s', r)) : s'.Sliced data := by
  obtain ⟨-, -, hcalled, rfl⟩ := step_eq_some hs
  have hold := h.len
  cases hcalled with
  | inactive | waits | failed =>
    simp only [sentBy, List.append_nil]
    exact ⟨h.len, h.copy, h.offset, h.needed, h.active, h.sizes, h.bytes⟩
  | sent hactive _ hmore =>
    have hlt : s.task.offset + bdMaxRawLen < data.length := by omega
    exact h.send (by omega) rfl rfl (Nat.min_eq_right (Nat.le_of_lt hlt)).symm (iff_of_true hactive hlt)
  | done hactive _ hmore hlast =>
    refine h.send (by omega) rfl rfl ?_ ?_
    · show s.task.len = _
      omega
    · exact iff_of_false Bool.false_ne_true (show ¬s.task.len < data.length by omega)

theorem Apart.step (h : s.Apart) (hs : s.step c = some (s', r)) : s'.Apart := by
  obtain ⟨hclock, hsent, hcalled, rfl⟩ := step_eq_some hs
  cases hcalled with
  | inactive | waits | failed =>
    simp only [Apart, sentBy, List.append_nil]
    exact Paced.tick h (hclock.trans hsent)
  | sent _ hlate | done _ hlate =>
    simp only [Apart, sentBy, List.map_append, List.map_singleton]
    exact Paced.concat h hclock hsent hlate

/-- What holds behind any calls. -/
structure Served (data : List UInt8) (s : BdTaskRun) : Prop where
  sizes : ∀ p ∈ s.sent, 1 ≤ p.payload.length ∧ p.payload.length ≤ bdMaxRawLen
  bytes : (s.sent.map BdTaskSent.payload).flatten = data.take s.task.offset
  apart : s.sent.Pairwise fun (p q : BdTaskSent) => p.sentAt + bdSendIntervalSec ≤ q.now
  atMost : s.sent.length ≤ (data.length + (bdMaxRawLen - 1)) / bdMaxRawLen
  complete : s.task.active = false ↔ s.sent.length = (data.length + (bdMaxRawLen - 1)) / bdMaxRawLen
  kept : ∀ c s' r, s.step c = some (s', r) → r.ret = bdTaskFailed ∨ r.ret = bdTaskPending ∧ r.packet = none →
    s'.task = s.task ∧ s'.lastBdSendTime = s.lastBdSendTime
  done : ∀ c s' r, s.step c = some (s', r) →
    (r.ret = bdTaskDone ↔ s.task.active = false ∨ s'.task.offset = data.length) ∧
      (r.ret = bdTaskDone → s'.task.active = false)

/-- An inactive task has been sent. -/
theorem Sliced.inactive_iff (h : s.Sliced data) : s.task.active = false ↔ s.task.offset = data.length := by
  have hactive := h.active
  have hoffset := h.offset
  rw [← Bool.not_eq_true, hactive]
  omega

theorem Sliced.done_iff (h : s.Sliced data) (hs : s.step c = some (s', r)) :
    (r.ret = bdTaskDone ↔ s.task.active = false ∨ s'.task.offset = data.length) ∧
      (r.ret = bdTaskDone → s'.task.active = false) := by
  have hend := (h.step hs).inactive_iff
  obtain ⟨-, -, hcalled, rfl⟩ := step_eq_some hs
  have hpending : bdTaskPending ≠ bdTaskDone := by decide
  have hfailed : bdTaskFailed ≠ bdTaskDone := by decide
  rw [← hend]
  cases hcalled with
  | inactive hactive => exact ⟨iff_of_true rfl (.inl hactive), fun _ => hactive⟩
  | waits hactive => exact ⟨iff_of_false hpending (by simp [hactive]), fun hret => absurd hret hpending⟩
  | failed _ hactive => exact ⟨iff_of_false hfailed (by simp [hactive]), fun hret => absurd hret hfailed⟩
  | sent hactive => exact ⟨iff_of_false hpending (by simp [hactive]), fun hret => absurd hret hpending⟩
  | done => exact ⟨iff_of_true rfl (.inr rfl), fun _ => rfl⟩

theorem kept (hs : s.step c = some (s', r)) (hret : r.ret = bdTaskFailed ∨ r.ret = bdTaskPending ∧ r.packet = none) :
    s'.task = s.task ∧ s'.lastBdSendTime = s.lastBdSendTime := by
  obtain ⟨-, -, hcalled, rfl⟩ := step_eq_some hs
  cases hcalled with
  | inactive | waits | failed => exact ⟨rfl, rfl⟩
  | sent => exact absurd hret (by simp [bdTaskFailed, bdTaskPending])
  | done => exact absurd hret (by simp [bdTaskFailed, bdTaskPending, bdTaskDone])

theorem Sliced.served (h : s.Sliced data) (hapart : s.Apart) : s.Served data where
  sizes := h.sizes
  bytes := h.bytes
  apart := List.pairwise_map.mp (Paced.apart hapart)
  atMost := by
    have hneeded := h.needed
    simp only [bdMaxRawLen] at hneeded ⊢
    omega
  complete := by
    have hneeded := h.needed
    have hoffset := h.offset
    rw [h.inactive_iff]
    simp only [bdMaxRawLen] at hneeded hoffset ⊢
    omega
  kept := fun _ _ _ => kept
  done := fun _ _ _ => h.done_iff

end BdTaskRun

/-- `bd_task_start` takes a block of 1 to 1024 bytes. -/
theorem bdTaskStart_eq {data : List UInt8} (hpos : 1 ≤ data.length) (hlen : data.length ≤ egMsgLen)
    (task₀ : BdSegmentTask) :
    bdTaskStart (some task₀) (some data) data.length =
      (some ⟨true, data ++ List.replicate (egMsgLen - data.length) 0, data.length, 0⟩, 0) := by
  rw [bdTaskStart, if_neg (by omega)]
  simp only [Int.toNat_natCast, List.take_length, BdSegmentTask.zero, Ring.memcpy, List.take_zero, List.nil_append,
    Nat.zero_add, List.drop_replicate]

/-- Whatever the task and the time of the last send were before `bd_task_start`, and
whatever happens to the calls. -/
theorem bdTaskSendOneSegment_served {data : List UInt8} (hpos : 1 ≤ data.length) (hlen : data.length ≤ egMsgLen)
    (task₀ : BdSegmentTask) :
    ∃ task, bdTaskStart (some task₀) (some data) data.length = (some task, 0) ∧
      ∀ (last clock : Int), 0 < clock → ∀ s,
        Runs BdTaskRun.step (fun _ _ => True) (BdTaskRun.start task last clock) s → s.Served data := by
  refine ⟨_, bdTaskStart_eq hpos hlen task₀, fun last clock hclock s hrun => ?_⟩
  have hsliced : s.Sliced data := by
    refine hrun.invariant ?_ fun _ _ _ _ h _ => h.step
    refine ⟨rfl, List.take_left, (Nat.min_zero _).symm, ?_, iff_of_true rfl hpos, fun _ hp => (nomatch hp), rfl⟩
    show bdMaxRawLen * 0 < data.length + bdMaxRawLen
    omega
  have hapart : s.Apart := by
    refine hrun.invariant ?_ fun _ _ _ _ h _ => h.step
    exact Paced.start hclock
  exact hsliced.served hapart

/-- A segment of 229 bytes, a call that waits, one that fails, and the byte that is left. -/
theorem bdTaskSendOneSegment_served_230 :
    ∃ task s, bdTaskStart (some .zero) (some (List.replicate 230 7)) 230 = (some task, 0) ∧
      Runs BdTaskRun.step (fun _ _ => True) (BdTaskRun.start task 0 1) s ∧
      s.sent.map (fun p => (p.payload.length, p.now)) = [(229, 1), (1, 63)] ∧ s.task.active = false ∧
      s.Served (List.replicate 230 7) := by
  have hlength : (List.replicate 230 (7 : UInt8)).length = 230 := List.length_replicate
  have hpos : 1 ≤ (List.replicate 230 (7 : UInt8)).length := by omega
  have hlen : (List.replicate 230 (7 : UInt8)).length ≤ egMsgLen := hlength.trans_le (by decide)
  obtain ⟨task, hstart, hserved⟩ := bdTaskSendOneSegment_served hpos hlen .zero
  have hcalls : ((runList BdTaskRun.step (fun _ _ => true) (BdTaskRun.start task 0 1)
      [⟨1, 2, fun msg => msg.length⟩, ⟨30, 30, fun msg => msg.length⟩, ⟨62, 62, fun _ => 0⟩,
        ⟨63, 63, fun msg => msg.length⟩]).map fun s =>
      (s.sent.map (fun p => (p.payload.length, p.now)), s.task.active)) = some ([(229, 1), (1, 63)], false) := by
    have htask := (bdTaskStart_eq hpos hlen .zero).symm.trans hstart
    cases htask
    decide +kernel
  obtain ⟨s, hrun, hsent⟩ := Option.map_eq_some_iff.mp hcalls
  have hruns : Runs BdTaskRun.step (fun _ _ => True) (BdTaskRun.start task 0 1) s :=
    Runs.start.of_runList (fun _ _ _ => trivial) hrun
  exact ⟨task, s, hstart, hruns, congrArg Prod.fst hsent, congrArg Prod.snd hsent, hserved 0 1 (by decide) s hruns⟩

end Dtu
