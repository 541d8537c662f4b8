import Dtu.Proof.LogLine
import Dtu.Spec.Frames

/-!
# Receiving from a serial port

`process_serial_data` and `flush_serial_state` submit the bytes received, all of
them and in order (`serialRun_bytes`), as the frames that the times of the reads
cut (`submitted_frames`); `submit_frame` queues each frame in parts, unless it is
all zero (`submitFrame_parts`).
-/

namespace Dtu

/-! ## The parts of a frame -/

theorem isGarbageData_iff {frame : List UInt8} (h : frame ≠ []) : isGarbageData frame = frame.all (· = 0) := by
  have hpos := List.length_pos_iff.mpr h
  unfold isGarbageData
  split
  · rename_i hone
    obtain ⟨b, rfl⟩ := List.length_eq_one_iff.mp hone.1
    simpa using hone.2
  · rw [decide_eq_true hpos, Bool.and_true]

/-- The loop of `submit_frame` when there is room. -/
theorem submitParts_eq (dataType frameId : UInt32) (partCount : Nat) {room : Nat → Bool} (hroom : ∀ i, room i = true)
    {fuel : Nat} {rest : List UInt8} (hfuel : rest.length ≤ fuel) (i : Nat) :
    submitParts dataType frameId partCount room fuel rest i =
      (List.range ((rest.length + 255) / 256)).map fun j =>
        message dataType ((rest.drop (256 * j)).take 256) frameId (UInt16.ofNat (i + j)) (UInt16.ofNat partCount) := by
  induction fuel generalizing rest i with
  | zero => rw [List.length_eq_zero_iff.mp (Nat.le_zero.mp hfuel)]; rfl
  | succ fuel ih =>
    by_cases hnil : rest = []
    · simp [submitParts, hnil]
    · have hpos := List.length_pos_iff.mpr hnil
      have hcount : (rest.length + 255) / 256 = ((rest.drop 256).length + 255) / 256 + 1 := by
        rw [List.length_drop]
        omega
      rw [submitParts, if_neg hnil, if_pos (hroom i), ih (by rw [List.length_drop]; omega), hcount,
        List.range_succ_eq_map, List.map_cons, List.map_map]
      simp only [List.drop_zero, Nat.mul_zero, Nat.add_zero, List.cons.injEq, true_and]
      refine List.map_congr_left fun j _ => ?_
      rw [Function.comp_apply, List.drop_drop, Nat.succ_eq_add_one, show 256 + 256 * j = 256 * (j + 1) by omega,
        show i + 1 + j = i + (j + 1) by omega]

/-- The loop of `submit_frame` puts the parts before the first without room. -/
theorem submitParts_take (dataType frameId : UInt32) (partCount : Nat) {room : Nat → Bool} (fuel : Nat)
    (rest : List UInt8) (i : Nat) {k : Nat} (hroom : ∀ j < k, room (i + j) = true) (hstop : room (i + k) = false) :
    submitParts dataType frameId partCount room fuel rest i =
      (submitParts dataType frameId partCount (fun _ => true) fuel rest i).take k := by
  induction fuel generalizing rest i k with
  | zero => exact List.take_nil.symm
  | succ fuel ih =>
    by_cases hnil : rest = []
    · rw [submitParts, submitParts, if_pos hnil, if_pos hnil, List.take_nil]
    · rw [submitParts, submitParts, if_neg hnil, if_neg hnil, if_pos rfl]
      cases k with
      | zero => rw [if_neg (by rw [← Nat.add_zero i, hstop]; decide), List.take_zero]
      | succ k =>
        have hnext := ih (rest.drop 256) (i + 1) (k := k)
          (fun j hj => by rw [Nat.add_right_comm]; exact hroom (j + 1) (Nat.succ_lt_succ hj))
          (by rw [Nat.add_right_comm]; exact hstop)
        have hfirst : room i = true := hroom 0 (Nat.succ_pos k)
        rw [if_pos hfirst, List.take_succ_cons, hnext]

theorem flatMap_chunks (n : Nat) (frame : List UInt8) (h : frame.length ≤ 256 * n) :
    ((List.range n).flatMap fun j => (frame.drop (256 * j)).take 256) = frame := by
  induction n generalizing frame with
  | zero => rw [List.length_eq_zero_iff.mp (Nat.le_zero.mp h)]; rfl
  | succ n ih =>
    have hrest := ih (frame.drop 256) (by rw [List.length_drop]; omega)
    simp only [List.drop_drop] at hrest
    rw [List.range_succ_eq_map, List.flatMap_cons, List.flatMap_map, Nat.mul_zero, List.drop_zero]
    simp only [Nat.succ_eq_add_one, show ∀ j, 256 * (j + 1) = 256 + 256 * j from fun j => by omega]
    rw [hrest, List.take_append_drop]

/-- Part `j` of a frame. -/
def framePart (dataType frameId : UInt32) (frame : List UInt8) (j : Nat) : FifoMessage :=
  message dataType ((frame.drop (256 * j)).take 256) frameId (UInt16.ofNat j)
    (UInt16.ofNat ((frame.length + 255) / 256))

/-- `submit_frame` when there is room. -/
theorem submitFrame_eq (dataType : UInt32) {frame : List UInt8} (hne : frame ≠ []) (hbyte : ¬isGarbageData frame = true)
    {q : Queueing} (hroom : ∀ i, q.room i = true) :
    submitFrame dataType frame q = (List.range ((frame.length + 255) / 256)).map
      (framePart dataType (logNextFrameId q.gLogFrameId).1 frame) := by
  rw [submitFrame, if_neg hne, if_neg hbyte, submitParts_eq _ _ _ hroom (Nat.le_refl _)]
  simp only [Nat.zero_add]
  rfl

/-- `submit_frame` drops a frame of zeros and queues any other in parts. -/
theorem submitFrame_parts (dataType : UInt32) {frame : List UInt8} (hne : frame ≠ []) (hlen : frame.length < 2 ^ 16)
    {q : Queueing} (hroom : ∀ i, q.room i = true) :
    (submitFrame dataType frame q = [] ↔ ∀ b ∈ frame, b = 0) ∧
    ((∃ b ∈ frame, b ≠ 0) → ∃ frameId ≠ 0, IsParts dataType frameId frame (submitFrame dataType frame q)) := by
  have hpos := List.length_pos_iff.mpr hne
  have hzero : isGarbageData frame = true ↔ ∀ b ∈ frame, b = 0 := by rw [isGarbageData_iff hne]; simp
  by_cases hgarbage : isGarbageData frame = true
  · rw [submitFrame, if_neg hne, if_pos hgarbage]
    refine ⟨⟨fun _ => hzero.mp hgarbage, fun _ => rfl⟩, ?_⟩
    intro hbyte
    obtain ⟨b, hb, hb0⟩ := hbyte
    exact absurd (hzero.mp hgarbage b hb) hb0
  · have hsubmit := submitFrame_eq dataType hne hgarbage hroom
    have hcount : 0 < (frame.length + 255) / 256 ∧ (frame.length + 255) / 256 < 2 ^ 16 := by omega
    have hchunk : ∀ j, ((frame.drop (256 * j)).take 256).length ≤ 256 := fun j => List.length_take_le _ _
    refine ⟨?_, fun _ => ⟨_, logNextFrameId_ne_zero q.gLogFrameId, ?_⟩⟩
    · rw [hsubmit, List.map_eq_nil_iff, List.range_eq_nil, ← hzero]
      exact ⟨fun h => absurd h (by omega), fun h => absurd h hgarbage⟩
    · rw [hsubmit]
      refine ⟨by simp, fun i hi => ?_, fun i hi hnext => ?_, ?_⟩
      · rw [List.length_map, List.length_range] at hi
        simp only [List.getElem_map, List.getElem_range, framePart, message, List.length_map, List.length_range, true_and]
        rw [UInt16.toNat_ofNat_of_lt' (by simp only [UInt16.size]; omega),
          UInt16.toNat_ofNat_of_lt' (by simp only [UInt16.size]; omega)]
        exact ⟨rfl, rfl⟩
      · rw [List.length_map, List.length_range] at hi hnext
        rw [List.getElem_map, List.getElem_range, framePart, payload_message _ (hchunk i), List.length_take,
          List.length_drop]
        omega
      · rw [List.flatMap_map]
        simp only [framePart, payload_message _ (hchunk _)]
        exact flatMap_chunks _ frame (by omega)

/-! ## The bytes of a run -/

/-- What a call does of a read that is not longer than `receive_thread` passes,
while `frame_len` is less than `MAX_LOG_LEN`: it never lacks room. -/
theorem processSerialData_eq {state : SerialState} (hlt : state.frameBuf.length < maxLogLen) {call : SerialCall}
    (hread : call.read.length ≤ 255) :
    processSerialData state call =
      let cur := if timedOut state call.now then [] else state.frameBuf
      let submits := if timedOut state call.now then [⟨state.frameBuf, .timeout, call.atTimeout⟩] else []
      if call.read = [] then ({ state with frameBuf := cur }, submits)
      else if maxLogLen ≤ (cur ++ call.read).length then
        ({ state with frameBuf := [], lastRecv := call.now }, submits ++ [⟨cur ++ call.read, .maxLen, call.atRead⟩])
      else ({ state with frameBuf := cur ++ call.read, lastRecv := call.now }, submits) := by
  have hmax : maxLogLen = 256 := rfl
  have hbuf : bufferSize = 1024 := rfl
  have htake : call.read.take bufferSize = call.read := List.take_of_length_le (by omega)
  have hfit : state.frameBuf.length + call.read.length ≤ bufferSize := by omega
  have hfit' : ([] : List UInt8).length + call.read.length ≤ bufferSize := by rw [List.length_nil]; omega
  unfold processSerialData
  cases timedOut state call.now <;>
    simp only [htake, Bool.false_eq_true, if_true, if_false, if_pos hfit, if_pos hfit']

/-- What is submitted by calls and the flush after them. -/
def submitted (state : SerialState) (calls : List SerialCall) (q : Queueing) : List Submit :=
  (serialRun state calls).2 ++ (flushSerialState (serialRun state calls).1 q).2

theorem submitted_cons (state : SerialState) (call : SerialCall) (calls : List SerialCall) (q : Queueing) :
    submitted state (call :: calls) q =
      (processSerialData state call).2 ++ submitted (processSerialData state call).1 calls q := by
  simp only [submitted, serialRun, List.append_assoc]

/-- One call: the bytes received are in the frames submitted and in the buffer,
which stays short; it submits no empty frame, and none for lack of room. -/
theorem processSerialData_bytes {state : SerialState} (hlt : state.frameBuf.length < maxLogLen) {call : SerialCall}
    (hread : call.read.length ≤ 255) :
    (processSerialData state call).1.frameBuf.length < maxLogLen ∧
    ((processSerialData state call).2.map (·.frame)).flatten ++ (processSerialData state call).1.frameBuf =
      state.frameBuf ++ call.read ∧
    ∀ s ∈ (processSerialData state call).2, s.frame ≠ [] ∧ s.frame.length ≤ 510 ∧ s.reason ≠ .overflow ∧
      (s.q = call.atTimeout ∨ s.q = call.atRead) := by
  have hmax : maxLogLen = 256 := rfl
  have hne : timedOut state call.now = true → state.frameBuf ≠ [] := fun h => by
    simp only [timedOut, Bool.and_eq_true, decide_eq_true_eq] at h
    exact List.length_pos_iff.mp h.1
  rw [processSerialData_eq hlt hread]
  cases htime : timedOut state call.now <;> by_cases hnil : call.read = []
  · simp [hnil, hlt]
  · simp only [Bool.false_eq_true, if_false, if_neg hnil, List.nil_append]
    by_cases hfull : maxLogLen ≤ (state.frameBuf ++ call.read).length
    · rw [if_pos hfull]
      simp only [List.length_append] at hfull
      simp [hnil]
      omega
    · rw [if_neg hfull]
      exact ⟨Nat.lt_of_not_le hfull, by simp, by simp⟩
  · have := hne htime
    simp [hnil, this]
    omega
  · have := hne htime
    have hshort : ¬ maxLogLen ≤ ([] ++ call.read).length := by rw [List.nil_append]; omega
    simp only [if_true, if_neg hnil, if_neg hshort]
    simp [this]
    omega

/-- A run: the bytes received are in the frames submitted and in the buffer. -/
theorem serialRun_bytes {state : SerialState} (hlt : state.frameBuf.length < maxLogLen) {calls : List SerialCall}
    (hread : ∀ call ∈ calls, call.read.length ≤ 255) :
    (serialRun state calls).1.frameBuf.length < maxLogLen ∧
    ((serialRun state calls).2.map (·.frame)).flatten ++ (serialRun state calls).1.frameBuf =
      state.frameBuf ++ calls.flatMap (·.read) ∧
    ∀ s ∈ (serialRun state calls).2, s.frame ≠ [] ∧ s.frame.length ≤ 510 ∧ s.reason ≠ .overflow ∧
      ∃ call ∈ calls, s.q = call.atTimeout ∨ s.q = call.atRead := by
  induction calls generalizing state with
  | nil => exact ⟨hlt, by simp [serialRun], by simp [serialRun]⟩
  | cons call calls ih =>
    obtain ⟨hcall, hcalls⟩ := List.forall_mem_cons.mp hread
    obtain ⟨hlt₁, hbytes₁, hsubs₁⟩ := processSerialData_bytes hlt hcall
    obtain ⟨hlt₂, hbytes₂, hsubs₂⟩ := ih hlt₁ hcalls
    refine ⟨hlt₂, ?_, fun s hs => ?_⟩
    · simp only [serialRun, List.map_append, List.flatten_append, List.append_assoc, hbytes₂, List.flatMap_cons]
      rw [← List.append_assoc, hbytes₁, List.append_assoc]
    · rcases List.mem_append.mp hs with hs | hs
      · obtain ⟨h₁, h₂, h₃, hq⟩ := hsubs₁ s hs
        exact ⟨h₁, h₂, h₃, call, List.mem_cons_self, hq⟩
      · obtain ⟨h₁, h₂, h₃, call', hmem, hq⟩ := hsubs₂ s hs
        exact ⟨h₁, h₂, h₃, call', List.mem_cons_of_mem _ hmem, hq⟩

/-- With the flush, the bytes received are those submitted. -/
theorem submitted_bytes {state : SerialState} (hlt : state.frameBuf.length < maxLogLen) {calls : List SerialCall}
    (hread : ∀ call ∈ calls, call.read.length ≤ 255) (q : Queueing) :
    ((submitted state calls q).map (·.frame)).flatten = state.frameBuf ++ calls.flatMap (·.read) ∧
    ∀ s ∈ submitted state calls q, s.frame ≠ [] ∧ s.frame.length ≤ 510 ∧ s.reason ≠ .overflow ∧
      (s.q = q ∨ ∃ call ∈ calls, s.q = call.atTimeout ∨ s.q = call.atRead) := by
  obtain ⟨hend, hbytes, hsubs⟩ := serialRun_bytes hlt hread
  have hmax : maxLogLen = 256 := rfl
  rw [← hbytes, submitted, flushSerialState]
  by_cases hpos : 0 < (serialRun state calls).1.frameBuf.length
  · rw [if_pos hpos]
    refine ⟨by simp, fun s hs => ?_⟩
    rcases List.mem_append.mp hs with hs | hs
    · obtain ⟨h₁, h₂, h₃, hq⟩ := hsubs s hs
      exact ⟨h₁, h₂, h₃, .inr hq⟩
    · rw [List.mem_singleton.mp hs]
      refine ⟨List.length_pos_iff.mp hpos, ?_, by simp, .inl rfl⟩
      show (serialRun state calls).1.frameBuf.length ≤ 510
      omega
  · rw [if_neg hpos]
    refine ⟨?_, fun s hs => ?_⟩
    · rw [List.length_eq_zero_iff.mp (Nat.eq_zero_of_not_pos hpos)]
      simp
    · obtain ⟨h₁, h₂, h₃, hq⟩ := hsubs s (by simpa using hs)
      exact ⟨h₁, h₂, h₃, .inr hq⟩

/-! ## The boundaries of frames -/

/-- The source borrows a second where the microseconds are less. -/
theorem diffMs_eq (now last : Timeval) : diffMs now last = gapMs last now := by
  have h := now.usec_lt
  have h' := last.usec_lt
  simp only [diffMs, gapMs, Timeval.micros]
  split
  · rw [Int.tdiv_eq_ediv_of_nonneg (by omega)]
    omega
  · rw [Int.tdiv_eq_ediv_of_nonneg (by omega)]
    omega

theorem gapMs_mono {last now later : Timeval} (h : now.micros ≤ later.micros) : gapMs last now ≤ gapMs last later :=
  Int.ediv_le_ediv (by decide) (by omega)

theorem nonEmptyReads_cons_nil {call : SerialCall} (h : call.read = []) (calls : List SerialCall) :
    nonEmptyReads (call :: calls) = nonEmptyReads calls := by
  simp [nonEmptyReads, h]

theorem nonEmptyReads_cons {call : SerialCall} (h : call.read ≠ []) (calls : List SerialCall) :
    nonEmptyReads (call :: calls) = ⟨call.now, call.read⟩ :: nonEmptyReads calls := by
  simp [nonEmptyReads, h]

/-- A call that finds no frame open submits nothing, and what it reads opens one. -/
theorem submitted_start {state : SerialState} (hnil : state.frameBuf = []) {call : SerialCall}
    (hread : call.read.length ≤ 255) (calls : List SerialCall) (q : Queueing) :
    submitted state (call :: calls) q =
      if call.read = [] then submitted state calls q
      else submitted { state with frameBuf := call.read, lastRecv := call.now } calls q := by
  have hshort : ¬ maxLogLen ≤ call.read.length := by rw [maxLogLen]; omega
  have htime : timedOut state call.now = false := by simp [timedOut, hnil]
  rw [submitted_cons, processSerialData_eq (by rw [hnil]; decide) hread, htime, hnil]
  by_cases hempty : call.read = []
  · simp only [hempty, if_true, Bool.false_eq_true, if_false, List.nil_append]
    rw [← hnil]
  · simp only [Bool.false_eq_true, if_false, if_neg hempty, if_neg hshort, List.nil_append]

/-- The frames submitted when a frame is open, and when one is complete: it has
been submitted before the read that starts the next one. -/
theorem submitted_framesFrom {calls : List SerialCall} (hread : ∀ call ∈ calls, call.read.length ≤ 255)
    (hclock : calls.Pairwise fun a b => a.now.micros ≤ b.now.micros) (q : Queueing) (state : SerialState) :
    (state.frameBuf ≠ [] → state.frameBuf.length < maxLogLen →
      (submitted state calls q).map (·.frame) = framesFrom state.frameBuf state.lastRecv (nonEmptyReads calls)) ∧
    ∀ cur last, state.frameBuf = [] →
      (maxLogLen ≤ cur.length ∨ ∀ call ∈ calls, frameTimeoutMs < gapMs last call.now) →
      cur :: (submitted state calls q).map (·.frame) = framesFrom cur last (nonEmptyReads calls) := by
  have hmax : maxLogLen = 256 := rfl
  induction calls generalizing state with
  | nil =>
    refine ⟨fun hne _ => ?_, fun cur last hnil _ => ?_⟩
    · simp [submitted, serialRun, flushSerialState, List.length_pos_iff.mpr hne, nonEmptyReads, framesFrom]
    · simp [submitted, serialRun, flushSerialState, hnil, nonEmptyReads, framesFrom]
  | cons call calls ih =>
    obtain ⟨hcall, hcalls⟩ := List.forall_mem_cons.mp hread
    obtain ⟨hlater, hclock'⟩ := List.pairwise_cons.mp hclock
    have hshort : ¬ maxLogLen ≤ call.read.length := by omega
    refine ⟨fun hne hlt => ?_, fun cur last hnil hdone => ?_⟩
    · have hpos := List.length_pos_iff.mpr hne
      have htime : timedOut state call.now = decide (frameTimeoutMs < gapMs state.lastRecv call.now) := by
        rw [timedOut, diffMs_eq, decide_eq_true hpos, Bool.true_and]
      rw [submitted_cons, processSerialData_eq hlt hcall, htime]
      by_cases hgap : frameTimeoutMs < gapMs state.lastRecv call.now
      · rw [decide_eq_true hgap]
        by_cases hnil : call.read = []
        · -- The read that starts the next frame will be later still.
          simp only [hnil, if_true, List.singleton_append, List.map_cons, nonEmptyReads_cons_nil hnil]
          refine (ih hcalls hclock' _).2 _ _ rfl (.inr fun call' hmem => ?_)
          exact Int.lt_of_lt_of_le hgap (gapMs_mono (hlater call' hmem))
        · simp only [if_true, if_neg hnil, if_neg hshort, List.nil_append, List.singleton_append,
            List.map_cons, nonEmptyReads_cons hnil, framesFrom, if_pos (Or.inl hgap), List.cons.injEq, true_and]
          exact (ih hcalls hclock' _).1 hnil (Nat.lt_of_not_le hshort)
      · rw [decide_eq_false hgap]
        by_cases hnil : call.read = []
        · simp only [hnil, if_true, Bool.false_eq_true, if_false, List.nil_append, nonEmptyReads_cons_nil hnil]
          exact (ih hcalls hclock' _).1 hne hlt
        · have hjoin : ¬ (frameTimeoutMs < gapMs state.lastRecv call.now ∨ maxLogLen ≤ state.frameBuf.length) := by
            intro h
            rcases h with h | h
            · exact hgap h
            · omega
          simp only [Bool.false_eq_true, if_false, if_neg hnil, List.nil_append, nonEmptyReads_cons hnil, framesFrom,
            if_neg hjoin]
          by_cases hfull : maxLogLen ≤ (state.frameBuf ++ call.read).length
          · rw [if_pos hfull, List.map_append, List.map_singleton, List.singleton_append]
            exact (ih hcalls hclock' _).2 _ _ rfl (.inl hfull)
          · rw [if_neg hfull, List.map_append, List.map_nil, List.nil_append]
            exact (ih hcalls hclock' _).1 (by simp [hne]) (Nat.lt_of_not_le hfull)
    · rw [submitted_start hnil hcall]
      by_cases hempty : call.read = []
      · rw [if_pos hempty, nonEmptyReads_cons_nil hempty]
        exact (ih hcalls hclock' _).2 _ _ hnil (hdone.imp_right fun h call' hmem => h call' (List.mem_cons_of_mem _ hmem))
      · have hcut : frameTimeoutMs < gapMs last call.now ∨ maxLogLen ≤ cur.length :=
          hdone.symm.imp_left fun h => h call List.mem_cons_self
        rw [if_neg hempty, nonEmptyReads_cons hempty, framesFrom, if_pos hcut]
        exact congrArg (cur :: ·) ((ih hcalls hclock' _).1 hempty (Nat.lt_of_not_le hshort))

/-- From an empty buffer, the frames submitted are those of the reads. -/
theorem submitted_frames {calls : List SerialCall} (hread : ∀ call ∈ calls, call.read.length ≤ 255)
    (hclock : calls.Pairwise fun a b => a.now.micros ≤ b.now.micros) (q : Queueing) {state : SerialState}
    (hnil : state.frameBuf = []) :
    (submitted state calls q).map (·.frame) = frames (nonEmptyReads calls) := by
  induction calls generalizing state with
  | nil => simp [submitted, serialRun, flushSerialState, hnil, nonEmptyReads, frames]
  | cons call calls ih =>
    obtain ⟨hcall, hcalls⟩ := List.forall_mem_cons.mp hread
    obtain ⟨-, hclock'⟩ := List.pairwise_cons.mp hclock
    rw [submitted_start hnil hcall]
    by_cases hempty : call.read = []
    · rw [if_pos hempty, nonEmptyReads_cons_nil hempty]
      exact ih hcalls hclock' hnil
    · rw [if_neg hempty, nonEmptyReads_cons hempty, frames]
      refine (submitted_framesFrom hcalls hclock' q _).1 hempty ?_
      exact Nat.lt_of_le_of_lt hcall (by decide)

/-- The messages carry the frames that are not all zero. -/
theorem queueMessages_payload (dataType : UInt32) {submits : List Submit}
    (h : ∀ s ∈ submits, (submitFrame dataType s.frame s.q = [] ↔ ∀ b ∈ s.frame, b = 0) ∧
      ((∃ b ∈ s.frame, b ≠ 0) →
        ∃ frameId ≠ 0, IsParts dataType frameId s.frame (submitFrame dataType s.frame s.q))) :
    (queueMessages dataType submits).flatMap FifoMessage.payload =
      ((submits.map (·.frame)).filter fun frame => frame.any (· ≠ 0)).flatten := by
  induction submits with
  | nil => rfl
  | cons s submits ih =>
    obtain ⟨⟨hzero, hparts⟩, hrest⟩ := List.forall_mem_cons.mp h
    have hcons : queueMessages dataType (s :: submits) =
        submitFrame dataType s.frame s.q ++ queueMessages dataType submits := List.flatMap_cons
    rw [hcons, List.flatMap_append, ih hrest, List.map_cons]
    by_cases hany : ∃ b ∈ s.frame, b ≠ 0
    · obtain ⟨_, -, hp⟩ := hparts hany
      rw [List.filter_cons_of_pos (by simpa using hany), List.flatten_cons, hp.join]
    · have hall : ∀ b ∈ s.frame, b = 0 := fun b hb => Classical.not_not.mp fun h => hany ⟨b, hb, h⟩
      rw [List.filter_cons_of_neg (by simpa using hall), hzero.mpr hall, List.flatMap_nil, List.nil_append]

/-- What receiving on a port does of any reads of at most 255 bytes. The buffer
never fills up, and the frames submitted hold the bytes received; a frame of
zeros is dropped and any other queued in parts; and if the clock does not go
back, the frames are those that the times of the reads cut. -/
theorem serialRun_frames (dataType : UInt32) {calls : List SerialCall} {q : Queueing}
    (hread : ∀ call ∈ calls, call.read.length ≤ 255)
    (hroom : ∀ i, q.room i = true ∧ ∀ call ∈ calls, call.atTimeout.room i = true ∧ call.atRead.room i = true) :
    (∀ k, (serialRun (serialStateInit dataType) (calls.take k)).1.frameBuf.length < maxLogLen) ∧
    (∀ s ∈ submitted (serialStateInit dataType) calls q, s.reason ≠ .overflow) ∧
    ((submitted (serialStateInit dataType) calls q).map (·.frame)).flatten = calls.flatMap (·.read) ∧
    (∀ s ∈ submitted (serialStateInit dataType) calls q,
      (submitFrame dataType s.frame s.q = [] ↔ ∀ b ∈ s.frame, b = 0) ∧
      ((∃ b ∈ s.frame, b ≠ 0) →
        ∃ frameId ≠ 0, IsParts dataType frameId s.frame (submitFrame dataType s.frame s.q))) ∧
    (queueMessages dataType (submitted (serialStateInit dataType) calls q)).flatMap FifoMessage.payload =
      (((submitted (serialStateInit dataType) calls q).map (·.frame)).filter fun frame =>
        frame.any (· ≠ 0)).flatten ∧
    ((calls.Pairwise fun a b => a.now.micros ≤ b.now.micros) →
      (submitted (serialStateInit dataType) calls q).map (·.frame) = frames (nonEmptyReads calls)) := by
  have hinit : (serialStateInit dataType).frameBuf.length < maxLogLen := Nat.zero_lt_succ 255
  obtain ⟨hbytes, hsubs⟩ := submitted_bytes hinit hread q
  have hparts : ∀ s ∈ submitted (serialStateInit dataType) calls q,
      (submitFrame dataType s.frame s.q = [] ↔ ∀ b ∈ s.frame, b = 0) ∧
      ((∃ b ∈ s.frame, b ≠ 0) →
        ∃ frameId ≠ 0, IsParts dataType frameId s.frame (submitFrame dataType s.frame s.q)) := fun s hs => by
    obtain ⟨hne, hlen, -, hq⟩ := hsubs s hs
    refine submitFrame_parts dataType hne (Nat.lt_of_le_of_lt hlen (by decide)) fun i => ?_
    obtain ⟨hflush, hcalls⟩ := hroom i
    rcases hq with rfl | ⟨call, hmem, hq | hq⟩
    · exact hflush
    · rw [hq]; exact (hcalls call hmem).1
    · rw [hq]; exact (hcalls call hmem).2
  refine ⟨fun k => ?_, fun s hs => (hsubs s hs).2.2.1, hbytes, hparts, queueMessages_payload dataType hparts,
    fun hclock => submitted_frames hread hclock q rfl⟩
  exact (serialRun_bytes hinit fun call h => hread call (List.mem_of_mem_take h)).1

/-- Two reads 11 ms apart. -/
theorem serialRun_frames_two :
    (submitted (serialStateInit 0)
      [⟨[1, 2], ⟨5, 999000, by decide, by decide⟩, ⟨0, fun _ => true⟩, ⟨0, fun _ => true⟩⟩,
        ⟨[3], ⟨6, 10000, by decide, by decide⟩, ⟨0, fun _ => true⟩, ⟨0, fun _ => true⟩⟩]
      ⟨0, fun _ => true⟩).map (·.frame) = [[1, 2], [3]] :=
  ((serialRun_frames 0 (by decide) (by simp)).2.2.2.2.2 (by decide)).trans (by decide)

end Dtu
