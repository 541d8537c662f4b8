import Dtu.Impl.Ingest
import Dtu.Proof.Submit

/-!
# From the ports to the logs

`Ingest.Move` is what one step can do. From it: the bytes received are those of the frames
submitted, waiting or being received (`Ingest.Receives`), the messages of a frame put in the
FIFO are its first parts and come to `write_file_thread` in the order they were put
(`Ingest.Carries`), and no two frames have one number while the counter does not wrap
(`Ingest.Numbers`).
-/

namespace Dtu

/-! ## What a step does -/

/-- What a step can do. -/
inductive Ingest.Move (s : Ingest) : Ingest → Prop
  | stay : Move s s
  | stop : Move s { s with stopFlag := true }
  /-- `receive_thread` goes on in its loop. -/
  | place {place : ReceivePlace} (hcall : s.receiver.call = none) (hframes : s.receiver.frames = []) :
      Move s { s with receiver := { s.receiver with place := place } }
  | serve {port : Port} {r : Reading} (hcall : s.receiver.call = none) (hframes : s.receiver.frames = []) :
      Move s (s.serve port r)
  | flush {port : Port} (hcall : s.receiver.call = none) (hframes : s.receiver.frames = []) : Move s (s.flush port)
  /-- `submit_frame` is called, and in its loop. -/
  | begins {frame : List UInt8} {frames : List (List UInt8)} (hcall : s.receiver.call = none)
      (hframes : s.receiver.frames = frame :: frames) : Move s (s.submitBegins frame frames)
  | ends {c : SubmitCall} (hcall : s.receiver.call = some c) (hoffset : c.frame.length ≤ c.offset) :
      Move s (s.submitReturns c)
  | lock {c : SubmitCall} {fifo : DataFifo Producer} (hcall : s.receiver.call = some c)
      (hoffset : c.offset < c.frame.length) (hs : s.fifo.step (.lockPut .receive c.msg) = some fifo) :
      Move s { s with fifo := fifo }
  | room {c : SubmitCall} {msg : FifoMessage} {fifo : DataFifo Producer} (hcall : s.receiver.call = some c)
      (hholder : s.fifo.holder = .testLeft .receive msg) (hs : s.fifo.step .resume = some fifo) :
      Move s { s with fifo := fifo }
  | full {c : SubmitCall} {msg : FifoMessage} {fifo : DataFifo Producer} (hcall : s.receiver.call = some c)
      (hholder : s.fifo.holder = .testLeft .receive msg) (hs : s.fifo.step .resume = some fifo)
      (hleft : kfifoLeft s.fifo.fifo < messageSize) :
      Move s ({ s with fifo := fifo }.submitReturns { c with full := true })
  | put {c : SubmitCall} {msg : FifoMessage} {fifo : DataFifo Producer} (hcall : s.receiver.call = some c)
      (hholder : s.fifo.holder = .put .receive msg) (hs : s.fifo.step .resume = some fifo) :
      Move s { s with
        fifo := fifo
        receiver := { s.receiver with call := some c.advance } }
  /-- LoRa or Bluetooth data is pushed. -/
  | push {producer : Producer} {data : List UInt8} {msg : FifoMessage} {fifo : DataFifo Producer}
      (hpush : pushed producer data = some msg) (hs : s.fifo.step (.lockPut producer msg) = some fifo) :
      Move s { s with fifo := fifo }
  | pushing {producer : Producer} {msg : FifoMessage} {fifo : DataFifo Producer} (hproducer : producer ≠ .receive)
      (hholder : s.fifo.holder = .testLeft producer msg ∨ s.fifo.holder = .put producer msg)
      (hs : s.fifo.step .resume = some fifo) : Move s { s with fifo := fifo }
  /-- `write_file_thread` goes on in its loop, looks into the FIFO, or leaves it. -/
  | writes (hwriter : s.writer = .loop) :
      Move s { s with writer := if s.stopFlag then .returned else .fifo }
  | enters {fifo : DataFifo Producer} (hwriter : s.writer = .fifo) (hs : s.fifo.step .lockGet = some fifo) :
      Move s { s with fifo := fifo }
  | looks {fifo : DataFifo Producer} (hwriter : s.writer = .fifo) (hholder : s.fifo.holder = .testLen)
      (hstop : s.stopFlag = false) (hs : s.fifo.step .resume = some fifo) : Move s { s with fifo := fifo }
  | leaves {fifo : DataFifo Producer} (hwriter : s.writer = .fifo) (hholder : s.fifo.holder = .testLen)
      (hstop : s.stopFlag = true) (hs : s.fifo.step .stop = some fifo) :
      Move s { s with
        fifo := fifo
        writer := .returned }
  | gets {fifo : DataFifo Producer} (hwriter : s.writer = .fifo) (hholder : s.fifo.holder = .get)
      (hs : s.fifo.step .resume = some fifo) :
      Move s { s with
        fifo := fifo
        writer :=
          if (kfifoGet s.fifo.fifo messageSize).2.2 = messageSize then
            .got (FifoMessage.ofBytes (kfifoGet s.fifo.fifo messageSize).2.1)
          else .loop }
  /-- `write_file_thread` skips a message, numbers it, or is done with it. -/
  | skips {msg : FifoMessage} (hwriter : s.writer = .got msg) (hpath : logPath msg.type = none) :
      Move s { s with
        writer := .loop
        handled := s.handled ++ [⟨msg, msg.frameId, none⟩] }
  | numbers {msg : FifoMessage} {path : LogPath} (hwriter : s.writer = .got msg) (hpath : logPath msg.type = some path) :
      Move s { s with
        gLogFrameId := (assignFrameId s.gLogFrameId msg).2
        writer := .write path msg s.gLogFrameId
        drawn := if msg.frameId = 0 then s.drawn + 1 else s.drawn }
  | logs {path : LogPath} {msg : FifoMessage} {g : UInt32} {w : Writing} (hwriter : s.writer = .write path msg g)
      (hlen : msg.len.toNat ≤ 256) :
      Move s { s with
        writer := .loop
        handled := s.handled ++ [⟨msg, (record g w.tm msg hlen).msg.frameId,
          if w.succeeds then some (path, record g w.tm msg hlen) else none⟩] }

namespace Ingest

variable {s s' : Ingest}

theorem move_submitLoop {c : SubmitCall} (hcall : s.receiver.call = some c) (hs : s.submitLoop c = some s') :
    s.Move s' := by
  unfold submitLoop at hs
  split at hs
  · rename_i hoffset
    cases hs
    exact .ends hcall hoffset
  rename_i hoffset
  split at hs
  · obtain ⟨fifo, hstep, rfl⟩ := Option.map_eq_some_iff.mp hs
    exact .lock hcall (Nat.lt_of_not_le hoffset) hstep
  · rename_i hholder
    obtain ⟨fifo, hstep, rfl⟩ := Option.map_eq_some_iff.mp hs
    split
    · rename_i hleft
      exact .full hcall hholder hstep hleft
    · exact .room hcall hholder hstep
  · rename_i hholder
    obtain ⟨fifo, hstep, rfl⟩ := Option.map_eq_some_iff.mp hs
    exact .put hcall hholder hstep
  · cases hs

theorem move_receive {r : Reading} (hs : s.receive r = some s') : s.Move s' := by
  unfold receive at hs
  split at hs
  · rename_i hcall
    exact move_submitLoop hcall hs
  · rename_i hcall hframes
    cases hs
    exact .begins hcall hframes
  · rename_i hcall hframes
    split at hs
    · split at hs
      · cases hs
        exact .place hcall hframes
      · split at hs
        · cases hs
          exact .place hcall hframes
        · cases hs
          exact .stay
    · cases hs
      exact .serve hcall hframes
    · cases hs
      exact .flush hcall hframes
    · cases hs

theorem move_write {w : Writing} (hs : s.write w = some s') : s.Move s' := by
  unfold write at hs
  split at hs
  · rename_i hwriter
    cases hs
    exact .writes hwriter
  · rename_i hwriter
    unfold writeFifo at hs
    split at hs
    · obtain ⟨fifo, hstep, rfl⟩ := Option.map_eq_some_iff.mp hs
      exact .enters hwriter hstep
    · rename_i hholder
      split at hs
      · rename_i hstop
        obtain ⟨fifo, hstep, rfl⟩ := Option.map_eq_some_iff.mp hs
        exact .leaves hwriter hholder hstop hstep
      · rename_i hstop
        obtain ⟨fifo, hstep, rfl⟩ := Option.map_eq_some_iff.mp hs
        exact .looks hwriter hholder ((Bool.not_eq_true _).mp hstop) hstep
    · rename_i hholder
      obtain ⟨fifo, hstep, rfl⟩ := Option.map_eq_some_iff.mp hs
      exact .gets hwriter hholder hstep
    · cases hs
  · rename_i hwriter
    split at hs
    · rename_i hpath
      cases hs
      exact .skips hwriter hpath
    · rename_i hpath
      cases hs
      exact .numbers hwriter hpath
  · rename_i hwriter
    split at hs
    · rename_i hlen
      cases hs
      exact .logs hwriter hlen
    · cases hs
  · cases hs

/-- A step is one of `Ingest.Move`. -/
theorem move_step {a : IngestAction} {e : Unit} (hs : s.step a = some (s', e)) : s.Move s' := by
  cases a with
  | receive r =>
    obtain ⟨_, hreceive, heq⟩ := Option.map_eq_some_iff.mp hs
    cases heq
    exact move_receive hreceive
  | push producer data =>
    rw [step] at hs
    split at hs
    · cases hs
      exact .stay
    · rename_i hpush
      obtain ⟨fifo, hstep, heq⟩ := Option.map_eq_some_iff.mp hs
      cases heq
      exact .push hpush hstep
  | pushing =>
    rw [step] at hs
    split at hs
    · rename_i hholder
      split at hs
      · cases hs
      rename_i hproducer
      obtain ⟨fifo, hstep, heq⟩ := Option.map_eq_some_iff.mp hs
      cases heq
      exact .pushing hproducer (.inl hholder) hstep
    · rename_i hholder
      split at hs
      · cases hs
      rename_i hproducer
      obtain ⟨fifo, hstep, heq⟩ := Option.map_eq_some_iff.mp hs
      cases heq
      exact .pushing hproducer (.inr hholder) hstep
    · cases hs
  | write w =>
    obtain ⟨_, hwrite, heq⟩ := Option.map_eq_some_iff.mp hs
    cases heq
    exact move_write hwrite
  | stop =>
    cases hs
    exact .stop

theorem Move.handled_grows (hs : s.Move s') : s.handled <+: s'.handled := by
  cases hs with
  | skips => exact List.prefix_append _ _
  | logs => exact List.prefix_append _ _
  | begins =>
    unfold submitBegins
    split <;> exact List.prefix_rfl
  | _ => exact List.prefix_rfl

theorem Move.log_grows (hs : s.Move s') (path : LogPath) : s.log path <+: s'.log path :=
  hs.handled_grows.filterMap _

/-! ## What is received -/

/-- The frames of a port that `submit_frame` has been called with. -/
def framesOf (s : Ingest) (port : Port) : List (List UInt8) := (s.calls.filter (·.port = port)).map (·.frame)

end Ingest

/-- A call of `submit_frame` has put the parts before `part_index`, under a number of its own, or
has found a frame of zeros. -/
structure SubmitCall.Valid (c : SubmitCall) : Prop where
  ne_nil : c.frame ≠ []
  length_le : c.frame.length ≤ 510
  offset_eq : c.offset = min (256 * c.partIndex) c.frame.length
  le : c.partIndex ≤ (c.frame.length + 255) / 256
  numbered : c.frameId ≠ 0 ∨ isGarbageData c.frame = true ∧ c.partIndex = 0

/-- It has returned, as the frame is all zero, the FIFO was full, or all of it is put. -/
def SubmitCall.Returned (c : SubmitCall) : Prop :=
  (isGarbageData c.frame = true ∧ c.partIndex = 0) ∨ c.full = true ∨ c.frame.length ≤ c.offset

namespace Ingest

variable {s s' : Ingest}

/-- The bytes received are those of the frames submitted, of those that wait, and of the one
being received. -/
structure Receives (s : Ingest) : Prop where
  bytes (port : Port) : s.received port =
    (s.framesOf port).flatten ++ (s.waiting port).flatten ++ (s.receiver.states port).frameBuf
  buf (port : Port) : (s.receiver.states port).frameBuf.length < maxLogLen
  frames : ∀ frame ∈ s.receiver.frames, frame ≠ [] ∧ frame.length ≤ 510
  calls : ∀ c ∈ s.calls, c.Valid
  returned : ∀ c ∈ s.submitted, c.Returned
  busy : ∀ c, s.receiver.call = some c → c.frameId ≠ 0

theorem receives_boot (fifoBuffer : Vector UInt8 fifoSize) : (boot fifoBuffer).Receives where
  bytes port := by cases port <;> rfl
  buf _ := Nat.zero_lt_succ _
  frames _ h := by cases h
  calls _ h := by cases h
  returned _ h := by cases h
  busy _ h := by cases h

theorem calls_of_call {c : SubmitCall} (hcall : s.receiver.call = some c) : s.calls = s.submitted ++ [c] := by
  rw [calls, hcall, Option.toList_some]

theorem calls_of_none (hcall : s.receiver.call = none) : s.calls = s.submitted := by
  rw [calls, hcall, Option.toList_none, List.append_nil]

theorem calls_submitReturns (s : Ingest) (c : SubmitCall) : (s.submitReturns c).calls = s.submitted ++ [c] :=
  calls_of_none rfl

theorem framesOf_eq {submitted : List SubmitCall} {c : SubmitCall} (h : s.calls = submitted ++ [c]) (port : Port) :
    s.framesOf port = (submitted.filter (·.port = port)).map (·.frame) ++ if c.port = port then [c.frame] else [] := by
  rw [framesOf, h, List.filter_append, List.map_append]
  by_cases hport : c.port = port <;> simp [hport]

theorem waiting_of_nil (hframes : s.receiver.frames = []) (port : Port) : s.waiting port = [] := by
  rw [waiting, hframes, ite_self]

/-- The call in progress goes on or returns, with the same frame. -/
theorem Receives.call (h : s.Receives) {c : SubmitCall} (c' : SubmitCall) (hcall : s.receiver.call = some c) (hport : c'.port = c.port)
    (hframe : c'.frame = c.frame) (hvalid : c'.Valid) (hreceived : s'.received = s.received)
    (hcalls : s'.calls = s.submitted ++ [c']) (hstates : s'.receiver.states = s.receiver.states)
    (hwaiting : s'.receiver.port = s.receiver.port ∧ s'.receiver.frames = s.receiver.frames)
    (hreturned : ∀ c ∈ s'.submitted, c.Returned) (hbusy : ∀ c, s'.receiver.call = some c → c.frameId ≠ 0) :
    s'.Receives where
  bytes port := by
    rw [hreceived, h.bytes, framesOf_eq hcalls, framesOf_eq (calls_of_call hcall), hport, hframe, waiting, waiting,
      hwaiting.1, hwaiting.2, hstates]
  buf port := hstates ▸ h.buf port
  frames := hwaiting.2 ▸ h.frames
  calls c hc := by
    have hold := h.calls
    rw [calls_of_call hcall] at hold
    rw [hcalls] at hc
    rcases List.mem_append.mp hc with hc | hc
    · exact hold c (List.mem_append_left _ hc)
    · exact List.mem_singleton.mp hc ▸ hvalid
  returned := hreturned
  busy := hbusy

/-- The frames that `process_serial_data` or a flush cuts of a port wait. -/
theorem Receives.cut (h : s.Receives) (hframes : s.receiver.frames = []) (bytes : List UInt8)
    {port : Port} {place : ReceivePlace} {state : SerialState} {frames : List (List UInt8)} {received : Port → List UInt8}
    (hreceived : ∀ p, received p = if p = port then s.received p ++ bytes else s.received p) (hbuf : state.frameBuf.length < maxLogLen)
    (hbytes : frames.flatten ++ state.frameBuf = (s.receiver.states port).frameBuf ++ bytes)
    (hcut : ∀ frame ∈ frames, frame ≠ [] ∧ frame.length ≤ 510) :
    ({ s with
      receiver := { s.receiver with
        place := place
        states := fun p => if p = port then state else s.receiver.states p
        port := port
        frames := frames }
      received := received } : Ingest).Receives where
  bytes p := by
    have hold := h.bytes p
    rw [waiting_of_nil hframes, List.flatten_nil, List.append_nil] at hold
    show received p = (s.framesOf p).flatten ++ (if port = p then frames else []).flatten ++
      (if p = port then state else s.receiver.states p).frameBuf
    rw [hreceived]
    by_cases hp : p = port
    · subst hp
      rw [if_pos rfl, if_pos rfl, if_pos rfl, List.append_assoc, hbytes, hold, List.append_assoc]
    · rw [if_neg hp, if_neg (Ne.symm hp), if_neg hp, List.flatten_nil, List.append_nil, hold]
  buf p := by
    show (if p = port then state else s.receiver.states p).frameBuf.length < maxLogLen
    split
    · exact hbuf
    · exact h.buf p
  frames := hcut
  calls := h.calls
  returned := h.returned
  busy := h.busy

theorem Receives.serve (h : s.Receives) (hframes : s.receiver.frames = []) (port : Port) (r : Reading) :
    (s.serve port r).Receives := by
  have hread : (SerialCall.mk r.bytes r.now ⟨0, fun _ => true⟩ ⟨0, fun _ => true⟩).read.length ≤ 255 := r.length_le
  obtain ⟨hbuf, hbytes, hsubmits⟩ := processSerialData_bytes (h.buf port) hread
  refine h.cut hframes r.bytes (fun p => rfl) hbuf hbytes fun frame hframe => ?_
  obtain ⟨submit, hsubmit, rfl⟩ := List.mem_map.mp hframe
  exact ⟨(hsubmits submit hsubmit).1, (hsubmits submit hsubmit).2.1⟩

theorem Receives.flush (h : s.Receives) (hframes : s.receiver.frames = []) (port : Port) :
    (s.flush port).Receives := by
  have hbuf := h.buf port
  have hmax : maxLogLen = 256 := rfl
  by_cases hpos : 0 < (s.receiver.states port).frameBuf.length
  · have hflush : flushSerialState (s.receiver.states port) ⟨0, fun _ => true⟩ =
        ({ s.receiver.states port with frameBuf := [] },
          [⟨(s.receiver.states port).frameBuf, .flush, ⟨0, fun _ => true⟩⟩]) := if_pos hpos
    rw [Ingest.flush, hflush]
    refine h.cut hframes [] (fun p => ?_) (Nat.zero_lt_succ _) ?_ fun frame hframe => ?_
    · rw [List.append_nil, ite_self]
    · simp
    · rw [List.map_singleton, List.mem_singleton] at hframe
      rw [hframe]
      show (s.receiver.states port).frameBuf ≠ [] ∧ (s.receiver.states port).frameBuf.length ≤ 510
      exact ⟨List.length_pos_iff.mp hpos, by omega⟩
  · have hflush : flushSerialState (s.receiver.states port) ⟨0, fun _ => true⟩ = (s.receiver.states port, []) :=
      if_neg hpos
    rw [Ingest.flush, hflush]
    refine h.cut hframes [] (fun p => ?_) hbuf ?_ fun frame hframe => ?_
    · rw [List.append_nil, ite_self]
    · simp
    · cases hframe

theorem Receives.begins (h : s.Receives) (hcall : s.receiver.call = none) {frame : List UInt8}
    {frames : List (List UInt8)} (hframes : s.receiver.frames = frame :: frames) :
    (s.submitBegins frame frames).Receives := by
  obtain ⟨hframe, hrest⟩ := List.forall_mem_cons.mp (hframes ▸ h.frames)
  -- The call that begins, or has returned at once, takes the place of the first frame.
  have hmoves : ∀ (t : Ingest) (c : SubmitCall), t.received = s.received → t.calls = s.submitted ++ [c] →
      t.receiver.states = s.receiver.states → t.receiver.port = s.receiver.port → t.receiver.frames = frames →
      c.port = s.receiver.port → c.frame = frame → c.offset = 0 → c.partIndex = 0 →
      (c.frameId ≠ 0 ∨ isGarbageData c.frame = true) → (∀ c ∈ t.submitted, c.Returned) →
      (∀ c, t.receiver.call = some c → c.frameId ≠ 0) → t.Receives := by
    intro t c hreceived hcalls hstates hport hwaiting hcport hcframe hoffset hpart hnumbered hreturned hbusy
    refine ⟨fun port => ?_, fun port => hstates ▸ h.buf port, hwaiting ▸ hrest, fun c' hc => ?_, hreturned, hbusy⟩
    · have hold := h.bytes port
      rw [framesOf, calls_of_none hcall, waiting, hframes] at hold
      rw [hreceived, hold, framesOf_eq hcalls, waiting, hport, hwaiting, hstates, hcport, hcframe]
      by_cases hp : s.receiver.port = port
      · simp only [if_pos hp, List.flatten_append, List.flatten_cons, List.flatten_nil, List.append_nil,
          List.append_assoc]
      · simp only [if_neg hp, List.flatten_nil, List.append_nil]
    · rw [hcalls] at hc
      rcases List.mem_append.mp hc with hc | hc
      · exact h.calls c' (calls_of_none hcall ▸ hc)
      · rw [List.mem_singleton.mp hc]
        exact ⟨hcframe ▸ hframe.1, hcframe ▸ hframe.2, by rw [hoffset, hpart]; exact (Nat.zero_min _).symm,
          by rw [hpart]; exact Nat.zero_le _, hnumbered.imp_right fun hgarbage => ⟨hgarbage, hpart⟩⟩
  unfold submitBegins
  split
  · rename_i hzero
    have hgarbage := hzero.resolve_left hframe.1
    refine hmoves _ ⟨s.receiver.port, frame, 0, 0, 0, false⟩ rfl (calls_of_none hcall) rfl rfl rfl rfl rfl rfl rfl
      (.inr hgarbage) ?_ fun c hc => ?_
    · intro c hc
      rcases List.mem_append.mp hc with hc | hc
      · exact h.returned c hc
      · rw [List.mem_singleton.mp hc]
        exact .inl ⟨hgarbage, rfl⟩
    · exact absurd (hcall.symm.trans hc) (by simp)
  · refine hmoves _ ⟨s.receiver.port, frame, (logNextFrameId s.gLogFrameId).1, 0, 0, false⟩ rfl rfl rfl rfl rfl rfl rfl
      rfl rfl (.inl (logNextFrameId_ne_zero _)) h.returned fun c hc => ?_
    cases hc
    exact logNextFrameId_ne_zero _

end Ingest

theorem SubmitCall.Valid.advance {c : SubmitCall} (h : c.Valid) (hlt : c.offset < c.frame.length)
    (hbusy : c.frameId ≠ 0) : c.advance.Valid := by
  have hoffset := h.offset_eq
  refine ⟨h.ne_nil, h.length_le, ?_, ?_, .inl hbusy⟩
  · show c.offset + c.chunkLen = min (256 * (c.partIndex + 1)) c.frame.length
    rw [SubmitCall.chunkLen]
    split <;> omega
  · show c.partIndex + 1 ≤ (c.frame.length + 255) / 256
    omega

namespace Ingest

variable {s s' : Ingest}

theorem Receives.move (h : s.Receives) (hlocked : ∀ c msg, s.receiver.call = some c →
    s.fifo.holder = .put .receive msg → c.offset < c.frame.length) (hs : s.Move s') : s'.Receives := by
  have hvalid : ∀ {c}, s.receiver.call = some c → c.Valid := fun hcall =>
    h.calls _ (by rw [calls_of_call hcall]; exact List.mem_append_right _ List.mem_cons_self)
  cases hs with
  | place => exact ⟨h.bytes, h.buf, h.frames, h.calls, h.returned, h.busy⟩
  | serve _ hframes => exact h.serve hframes _ _
  | flush _ hframes => exact h.flush hframes _
  | begins hcall hframes => exact h.begins hcall hframes
  | @ends c hcall hoffset =>
    refine h.call c hcall rfl rfl (hvalid hcall) rfl (calls_submitReturns s c) rfl ⟨rfl, rfl⟩ (fun c' hc => ?_)
      fun _ hc => by cases hc
    rcases List.mem_append.mp hc with hc | hc
    · exact h.returned c' hc
    · rw [List.mem_singleton.mp hc]
      exact .inr (.inr hoffset)
  | @full c msg fifo hcall hholder hs hleft =>
    have hold := hvalid hcall
    refine h.call { c with full := true } hcall rfl rfl
      ⟨hold.ne_nil, hold.length_le, hold.offset_eq, hold.le, hold.numbered⟩ rfl (calls_submitReturns _ _) rfl ⟨rfl, rfl⟩
      (fun c' hc => ?_) fun _ hc => by cases hc
    rcases List.mem_append.mp hc with hc | hc
    · exact h.returned c' hc
    · rw [List.mem_singleton.mp hc]
      exact .inr (.inl rfl)
  | @put c msg fifo hcall hholder hs =>
    refine h.call c.advance hcall rfl rfl
      ((hvalid hcall).advance (hlocked c msg hcall hholder) (h.busy c hcall)) rfl rfl rfl ⟨rfl, rfl⟩ h.returned fun c' hc => ?_
    cases hc
    exact h.busy c hcall
  | _ => exact ⟨h.bytes, h.buf, h.frames, h.calls, h.returned, h.busy⟩

end Ingest

/-! ## What is put and got -/

/-- The parts that a call has put. -/
def SubmitCall.put (c : SubmitCall) : List FifoMessage :=
  (List.range c.partIndex).map (framePart c.port.dataType c.frameId c.frame)

/-- A message of `receive_thread`. -/
def FifoMessage.fromPort (msg : FifoMessage) : Bool := decide (msg.type.toNat < 3)

/-- A message of LoRa or Bluetooth data: it has no number yet. -/
structure FifoMessage.Pushed (msg : FifoMessage) : Prop where
  type : msg.type = loraData ∨ msg.type = btData
  frameId : msg.frameId = 0
  len : msg.len.toNat ≤ 256

theorem FifoMessage.Pushed.fromPort {msg : FifoMessage} (h : msg.Pushed) : msg.fromPort = false := by
  rw [FifoMessage.fromPort]
  rcases h.type with htype | htype <;> rw [htype] <;> decide

theorem pushed_message {type : UInt32} (htype : type = loraData ∨ type = btData) {data : List UInt8}
    (hlen : data.length ≤ 256) : (message type data 0 0 0).Pushed where
  type := htype
  frameId := rfl
  len := by
    show (UInt32.ofNat data.length).toNat ≤ 256
    rw [UInt32.toNat_ofNat']
    exact Nat.le_trans (Nat.mod_le _ _) hlen

theorem pushed_of_some {producer : Producer} {data : List UInt8} {msg : FifoMessage}
    (h : pushed producer data = some msg) : producer ≠ .receive ∧ msg.Pushed := by
  cases producer with
  | receive => cases h
  | lora =>
    rw [pushed] at h
    split at h
    · cases h
    · cases h
      exact ⟨by decide, pushed_message (.inl rfl) (by omega)⟩
  | bt =>
    rw [pushed] at h
    split at h
    · cases h
    · cases h
      exact ⟨by decide, pushed_message (.inr rfl) (by omega)⟩

theorem fromPort_framePart (port : Port) (frameId : UInt32) (frame : List UInt8) (j : Nat) :
    (framePart port.dataType frameId frame j).fromPort = true := by
  cases port <;> rfl

/-- The message of the loop is the next part. -/
theorem SubmitCall.Valid.msg_eq {c : SubmitCall} (h : c.Valid) (hlt : c.offset < c.frame.length) :
    c.msg = framePart c.port.dataType c.frameId c.frame c.partIndex := by
  have hoffset : c.offset = 256 * c.partIndex := by
    have := h.offset_eq
    omega
  have hchunk : (c.frame.drop c.offset).take c.chunkLen = (c.frame.drop (256 * c.partIndex)).take 256 := by
    rw [hoffset, SubmitCall.chunkLen]
    split
    · rfl
    · rw [List.take_of_length_le (by rw [List.length_drop]; omega),
        List.take_of_length_le (by rw [List.length_drop]; omega)]
  rw [SubmitCall.msg, hchunk]
  rfl

theorem SubmitCall.put_advance {c : SubmitCall} (h : c.Valid) (hlt : c.offset < c.frame.length) :
    c.advance.put = c.put ++ [c.msg] := by
  rw [h.msg_eq hlt, SubmitCall.put, SubmitCall.put]
  show (List.range (c.partIndex + 1)).map _ = _
  rw [List.range_succ, List.map_append]
  rfl

/-- Who is about to test or put what after an access. -/
theorem DataFifo.holder_of_step {ι : Type} {s s' : DataFifo ι} {action : FifoAction ι} (hs : s.step action = some s')
    (producer : ι) (msg : FifoMessage) :
    (s'.holder = .testLeft producer msg → action = .lockPut producer msg) ∧
      (s'.holder = .put producer msg → s.holder = .testLeft producer msg) := by
  cases DataFifo.access_of_step hs with
  | lockPut => exact ⟨fun h => by cases h; rfl, fun h => by cases h⟩
  | room hholder => exact ⟨fun h => (by cases h), fun h => by cases h; exact hholder⟩
  | lockGet | stop | full | put | empty | found | get => exact ⟨fun h => (by cases h), fun h => by cases h⟩

/-- Only `write_file_thread` gets messages. -/
theorem DataFifo.step_obtained {ι : Type} {s s' : DataFifo ι} {action : FifoAction ι} (hs : s.step action = some s')
    (hget : s.holder = .get → action ≠ .resume) : s'.obtained = s.obtained := by
  cases DataFifo.access_of_step hs with
  | get hholder => exact absurd rfl (hget hholder)
  | lockPut | lockGet | stop | full | room | put | empty | found => rfl

theorem DataFifo.holder_of_putting {ι : Type} {s : DataFifo ι} {action : FifoAction ι} {p : ι × FifoMessage}
    (h : p ∈ s.putting action) : action = .resume ∧ s.holder = .put p.1 p.2 := by
  unfold DataFifo.putting at h
  split at h
  · split at h
    · rename_i hholder
      rw [List.mem_singleton.mp h]
      exact ⟨rfl, hholder⟩
    · cases h
  · cases h

/-- What `write_file_thread` has in `msg` is the message got. -/
theorem DataFifo.got {ι : Type} {s s' : DataFifo ι} (hholder : s.holder = .get) (hs : s.step .resume = some s')
    {msg : FifoMessage} (hobtained : s'.obtained = s.obtained ++ [msg]) :
    (kfifoGet s.fifo messageSize).2.2 = messageSize ∧ FifoMessage.ofBytes (kfifoGet s.fifo messageSize).2.1 = msg := by
  simp only [DataFifo.step, hholder, Option.some.injEq] at hs
  subst hs
  simp only at hobtained
  split at hobtained
  · rename_i hlen
    exact ⟨hlen, List.singleton_inj.mp (List.append_cancel_left hobtained)⟩
  · exact absurd hobtained (by simp)

namespace Ingest

variable {s s' : Ingest}

/-- What a producer that holds the lock is about to put. -/
def Puts (s : Ingest) : Producer → FifoMessage → Prop
  | .receive, msg => ∃ c, s.receiver.call = some c ∧ msg = c.msg ∧ c.offset < c.frame.length
  | .lora, msg => msg.Pushed
  | .bt, msg => msg.Pushed

theorem Puts.pushed {producer : Producer} {msg : FifoMessage} (h : s.Puts producer msg) (hne : producer ≠ .receive) :
    msg.Pushed := by
  cases producer with
  | receive => exact absurd rfl hne
  | lora | bt => exact h

theorem puts_of_pushed {producer : Producer} {msg : FifoMessage} (h : msg.Pushed) (hne : producer ≠ .receive) :
    s.Puts producer msg := by
  cases producer with
  | receive => exact absurd rfl hne
  | lora | bt => exact h

/-- The messages of `receive_thread` in the FIFO are the parts put by its calls, the others have
no number; those got are those that `write_file_thread` is done with and the one it has. -/
structure Carries (s : Ingest) : Prop where
  queue : ∃ pending, s.fifo.Queue pending
  obtained : s.fifo.obtained = s.handled.map (·.msg) ++ s.hand
  accepted : s.fifo.accepted.filter FifoMessage.fromPort = s.calls.flatMap SubmitCall.put
  pushes : ∀ msg ∈ s.fifo.accepted, msg.fromPort = false → msg.Pushed
  holder : ∀ producer msg, s.fifo.holder = .testLeft producer msg ∨ s.fifo.holder = .put producer msg →
    s.Puts producer msg

theorem carries_boot (fifoBuffer : Vector UInt8 fifoSize) : (boot fifoBuffer).Carries where
  queue := ⟨_, DataFifo.queue_init Producer fifoBuffer⟩
  obtained := rfl
  accepted := rfl
  pushes _ h := by cases h
  holder _ _ h := by rcases h with h | h <;> cases h

/-- An access at the FIFO that neither puts a message of `receive_thread` nor gets one. -/
theorem Carries.access (h : s.Carries) {action : FifoAction Producer} {fifo : DataFifo Producer}
    (hs : s.fifo.step action = some fifo) (hlock : ∀ producer msg, action = .lockPut producer msg → s.Puts producer msg)
    (hput : action = .resume → ∀ msg, s.fifo.holder ≠ .put .receive msg) (hget : s.fifo.holder = .get → action ≠ .resume) :
    ({ s with fifo := fifo } : Ingest).Carries := by
  have hputs : ∀ msg ∈ (s.fifo.putting action).map Prod.snd, msg.Pushed := fun msg hmsg => by
    obtain ⟨⟨producer, msg⟩, hmem, rfl⟩ := List.mem_map.mp hmsg
    obtain ⟨hresume, hholder⟩ := DataFifo.holder_of_putting hmem
    refine (h.holder producer msg (.inr hholder)).pushed ?_
    rintro rfl
    exact hput hresume msg hholder
  obtain ⟨pending, hqueue⟩ := h.queue
  refine ⟨hqueue.step hs, ?_, ?_, fun msg hmsg hport => ?_, fun producer msg hholder => ?_⟩
  · show fifo.obtained = s.handled.map (·.msg) ++ s.hand
    rw [DataFifo.step_obtained hs hget, h.obtained]
  · show fifo.accepted.filter FifoMessage.fromPort = s.calls.flatMap SubmitCall.put
    rw [DataFifo.step_accepted hs, List.filter_append, h.accepted,
      List.filter_eq_nil_iff.mpr fun msg hmsg => by simp [(hputs msg hmsg).fromPort], List.append_nil]
  · have hmem : msg ∈ s.fifo.accepted ++ (s.fifo.putting action).map Prod.snd := DataFifo.step_accepted hs ▸ hmsg
    rcases List.mem_append.mp hmem with hmem | hmem
    · exact h.pushes msg hmem hport
    · exact hputs msg hmem
  · obtain ⟨htest, hroom⟩ := DataFifo.holder_of_step hs producer msg
    rcases hholder with hholder | hholder
    · exact hlock producer msg (htest hholder)
    · exact h.holder producer msg (.inl (hroom hholder))

/-- A step without access. -/
theorem Carries.local (h : s.Carries) (hfifo : s'.fifo = s.fifo)
    (hobtained : s'.handled.map (·.msg) ++ s'.hand = s.handled.map (·.msg) ++ s.hand)
    (hcalls : s'.calls.flatMap SubmitCall.put = s.calls.flatMap SubmitCall.put)
    (hcall : ∀ c, s.receiver.call = some c → c.offset < c.frame.length → s'.receiver.call = some c) : s'.Carries where
  queue := hfifo ▸ h.queue
  obtained := by rw [hfifo, h.obtained, hobtained]
  accepted := by rw [hfifo, h.accepted, hcalls]
  pushes := hfifo ▸ h.pushes
  holder producer msg hholder := by
    rw [hfifo] at hholder
    have hputs := h.holder producer msg hholder
    cases producer with
    | receive =>
      obtain ⟨c, hc, hmsg, hlt⟩ := hputs
      exact ⟨c, hcall c hc hlt, hmsg, hlt⟩
    | lora | bt => exact hputs

/-- A call that begins has put nothing; it has drawn a number unless its frame is all zero. -/
theorem calls_submitBegins (hcall : s.receiver.call = none) (frame : List UInt8) (frames : List (List UInt8)) :
    (s.submitBegins frame frames).calls = s.submitted ++
      [⟨s.receiver.port, frame, if frame = [] ∨ isGarbageData frame = true then 0 else (logNextFrameId s.gLogFrameId).1,
        0, 0, false⟩] := by
  unfold submitBegins
  split
  · exact calls_of_none hcall
  · rfl

theorem Carries.begins (h : s.Carries) (hcall : s.receiver.call = none) (frame : List UInt8) (frames : List (List UInt8)) :
    (s.submitBegins frame frames).Carries := by
  have hnone : ∀ c, s.receiver.call = some c → c.offset < c.frame.length →
      (s.submitBegins frame frames).receiver.call = some c := fun c hc => by
    rw [hcall] at hc
    cases hc
  refine h.local ?_ ?_ ?_ hnone
  · unfold submitBegins
    split <;> rfl
  · unfold submitBegins
    split <;> rfl
  · rw [calls_submitBegins hcall, calls_of_none hcall, List.flatMap_append, List.flatMap_singleton]
    exact List.append_nil _

/-- `submit_frame` finds no room and returns. -/
theorem Carries.full (h : s.Carries) {c : SubmitCall} {msg : FifoMessage} {fifo : DataFifo Producer}
    (hcall : s.receiver.call = some c) (hholder : s.fifo.holder = .testLeft .receive msg)
    (hs : s.fifo.step .resume = some fifo) (hleft : kfifoLeft s.fifo.fifo < messageSize) :
    ({ s with fifo := fifo }.submitReturns { c with full := true } : Ingest).Carries := by
  have hfifo := h.access hs (fun _ _ haction => (by cases haction)) (fun _ _ hput => by rw [hholder] at hput; cases hput)
    (fun hget => by rw [hholder] at hget; cases hget)
  simp only [DataFifo.step, hholder, if_pos hleft, Option.some.injEq] at hs
  subst hs
  refine ⟨hfifo.queue, hfifo.obtained, ?_, hfifo.pushes, fun _ _ hfree => by rcases hfree with h | h <;> cases h⟩
  rw [calls_submitReturns, List.flatMap_append, List.flatMap_singleton]
  refine hfifo.accepted.trans ?_
  show s.calls.flatMap SubmitCall.put = _
  rw [calls_of_call hcall, List.flatMap_append, List.flatMap_singleton]
  rfl

/-- `submit_frame` puts the next part. -/
theorem Carries.put (h : s.Carries) (hvalid : ∀ c ∈ s.calls, c.Valid) {c : SubmitCall} {msg : FifoMessage}
    {fifo : DataFifo Producer} (hcall : s.receiver.call = some c) (hholder : s.fifo.holder = .put .receive msg)
    (hs : s.fifo.step .resume = some fifo) :
    ({ s with
      fifo := fifo
      receiver := { s.receiver with call := some c.advance } } : Ingest).Carries := by
  obtain ⟨pending, hqueue⟩ := h.queue
  obtain ⟨c', hc', rfl, hlt⟩ := h.holder _ _ (.inr hholder)
  rw [hcall] at hc'
  cases hc'
  have hc : c.Valid := hvalid c (by rw [calls_of_call hcall]; exact List.mem_append_right _ List.mem_cons_self)
  have hport : c.msg.fromPort = true := by
    rw [hc.msg_eq hlt]
    exact fromPort_framePart _ _ _ _
  have haccepted : fifo.accepted = s.fifo.accepted ++ [c.msg] := by
    rw [DataFifo.step_accepted hs]
    simp only [DataFifo.putting, hholder, List.map_cons, List.map_nil]
  refine ⟨⟨_, hqueue.put hholder hs⟩, ?_, ?_, fun m hm hno => ?_, fun producer m hfree => ?_⟩
  · show fifo.obtained = _
    rw [DataFifo.step_obtained hs (fun hget => by rw [hholder] at hget; cases hget), h.obtained]
    rfl
  · show fifo.accepted.filter FifoMessage.fromPort = _
    rw [haccepted, List.filter_append, h.accepted, List.filter_singleton, hport, calls_of_call hcall, calls_of_call rfl,
      List.flatMap_append, List.flatMap_append, List.flatMap_singleton, List.flatMap_singleton,
      SubmitCall.put_advance hc hlt, List.append_assoc]
    rfl
  · have hmem : m ∈ s.fifo.accepted ++ [c.msg] := haccepted ▸ hm
    rcases List.mem_append.mp hmem with hmem | hmem
    · exact h.pushes m hmem hno
    · rw [List.mem_singleton.mp hmem, hport] at hno
      cases hno
  · simp only [DataFifo.step, hholder, Option.some.injEq] at hs
    subst hs
    rcases hfree with h | h <;> cases h

/-- `write_file_thread` gets the first message queued. -/
theorem Carries.gets (h : s.Carries) {fifo : DataFifo Producer} (hwriter : s.writer = .fifo)
    (hholder : s.fifo.holder = .get) (hs : s.fifo.step .resume = some fifo) :
    ({ s with
      fifo := fifo
      writer :=
        if (kfifoGet s.fifo.fifo messageSize).2.2 = messageSize then
          .got (FifoMessage.ofBytes (kfifoGet s.fifo.fifo messageSize).2.1)
        else .loop } : Ingest).Carries := by
  obtain ⟨pending, hqueue⟩ := h.queue
  obtain ⟨msg, rest, -, hobtained, hfree, haccepted, hrest⟩ := hqueue.get hholder hs
  have hgot := DataFifo.got hholder hs hobtained
  have hnil : s.hand = [] := by rw [hand, hwriter]
  rw [if_pos hgot.1, hgot.2]
  refine ⟨⟨rest, hrest⟩, ?_, ?_, ?_, fun producer m hh => ?_⟩
  · show fifo.obtained = s.handled.map (·.msg) ++ [msg]
    rw [hobtained, h.obtained, hnil, List.append_nil]
  · show fifo.accepted.filter _ = _
    rw [haccepted]
    exact h.accepted
  · intro m hm
    exact h.pushes m (haccepted ▸ hm)
  · have hno : fifo.holder = .testLeft producer m ∨ fifo.holder = .put producer m := hh
    rw [hfree] at hno
    rcases hno with h | h <;> cases h

theorem Carries.move (h : s.Carries) (hvalid : ∀ c ∈ s.calls, c.Valid) (hs : s.Move s') : s'.Carries := by
  cases hs with
  | stay => exact h
  | stop | place _ _ | serve _ _ | flush _ _ => exact h.local rfl rfl rfl fun c hc _ => hc
  | begins hcall => exact h.begins hcall _ _
  | @ends c hcall hoffset =>
    refine h.local rfl rfl ?_ fun c' hc hlt => ?_
    · rw [calls_submitReturns, calls_of_call hcall]
    · rw [hcall] at hc
      cases hc
      exact absurd hlt (Nat.not_lt.mpr hoffset)
  | @lock c fifo hcall hoffset hs =>
    refine h.access hs (fun producer msg haction => ?_) (fun haction => by cases haction) fun _ => by simp
    cases haction
    exact ⟨c, hcall, rfl, hoffset⟩
  | room hcall hholder hs =>
    exact h.access hs (fun _ _ haction => (by cases haction)) (fun _ _ hput => by rw [hholder] at hput; cases hput)
      (fun hget => by rw [hholder] at hget; cases hget)
  | full hcall hholder hs hleft => exact h.full hcall hholder hs hleft
  | put hcall hholder hs => exact h.put hvalid hcall hholder hs
  | push hpush hs =>
    refine h.access hs (fun producer msg haction => ?_) (fun haction => by cases haction) fun _ => by simp
    cases haction
    exact puts_of_pushed (pushed_of_some hpush).2 (pushed_of_some hpush).1
  | pushing hproducer hholder hs =>
    refine h.access hs (fun _ _ haction => (by cases haction)) (fun _ msg hput => ?_) fun hget => ?_
    · rcases hholder with hh | hh <;> rw [hh] at hput <;> cases hput
      exact hproducer rfl
    · rcases hholder with hh | hh <;> rw [hh] at hget <;> cases hget
  | writes hwriter =>
    refine h.local rfl ?_ rfl fun c hc _ => hc
    rw [hand, hand, hwriter]
    split <;> rfl
  | enters hwriter hs =>
    exact h.access hs (fun _ _ haction => (by cases haction)) (fun haction => by cases haction) fun _ => by simp
  | looks hwriter hholder hstop hs =>
    exact h.access hs (fun _ _ haction => (by cases haction)) (fun _ _ hput => by rw [hholder] at hput; cases hput)
      (fun hget => by rw [hholder] at hget; cases hget)
  | leaves hwriter hholder hstop hs =>
    have hfifo := h.access hs (fun _ _ haction => (by cases haction)) (fun haction => (by cases haction)) fun _ => by simp
    refine hfifo.local rfl ?_ rfl fun c hc _ => hc
    rw [hand, hand, hwriter]
  | gets hwriter hholder hs => exact h.gets hwriter hholder hs
  | skips hwriter hpath =>
    refine h.local rfl ?_ rfl fun c hc _ => hc
    rw [hand, hand, hwriter, List.map_append, List.append_nil]
    rfl
  | numbers hwriter hpath =>
    refine h.local rfl ?_ rfl fun c hc _ => hc
    rw [hand, hand, hwriter]
  | logs hwriter hlen =>
    refine h.local rfl ?_ rfl fun c hc _ => hc
    rw [hand, hand, hwriter, List.map_append, List.append_nil]
    rfl

/-! ## What is logged -/

/-- What is logged of a message has its data, under its number. -/
structure LoggedAs (msg : FifoMessage) (frameId : UInt32) (path : LogPath) (r : Record) : Prop where
  path : logPath msg.type = some path
  frameId : r.msg.frameId = frameId
  payload : r.payload = msg.payload
  msg : msg.frameId ≠ 0 → r.msg = msg

/-- What `write_file_thread` logs belongs to the messages it is done with. -/
structure Logs (s : Ingest) : Prop where
  logged : ∀ h ∈ s.handled, ∀ path r, h.logged = some (path, r) → LoggedAs h.msg h.frameId path r
  writer : ∀ path msg g, s.writer = .write path msg g → logPath msg.type = some path

theorem assignFrameId_of_ne {g : UInt32} {msg : FifoMessage} (h : msg.frameId ≠ 0) : assignFrameId g msg = (msg, g) :=
  if_neg h

theorem Logs.move (h : s.Logs) (hs : s.Move s') : s'.Logs := by
  cases hs with
  | begins hcall hframes =>
    unfold submitBegins
    split <;> exact ⟨h.logged, h.writer⟩
  | writes hwriter =>
    refine ⟨h.logged, fun path msg g hwrite => ?_⟩
    have hwrite : (if s.stopFlag then WritePlace.returned else .fifo) = .write path msg g := hwrite
    split at hwrite <;> cases hwrite
  | leaves => exact ⟨h.logged, fun _ _ _ hwrite => by cases hwrite⟩
  | gets =>
    refine ⟨h.logged, fun path msg g hwrite => ?_⟩
    simp only at hwrite
    split at hwrite <;> cases hwrite
  | skips hwriter hpath =>
    refine ⟨fun d hd path r hlogged => ?_, fun _ _ _ hwrite => by cases hwrite⟩
    rcases List.mem_append.mp hd with hd | hd
    · exact h.logged d hd path r hlogged
    · rw [List.mem_singleton.mp hd] at hlogged
      cases hlogged
  | numbers hwriter hpath =>
    refine ⟨h.logged, fun path msg g hwrite => ?_⟩
    cases hwrite
    exact hpath
  | @logs path msg g w hwriter hlen =>
    refine ⟨fun d hd path' r hlogged => ?_, fun _ _ _ hwrite => by cases hwrite⟩
    rcases List.mem_append.mp hd with hd | hd
    · exact h.logged d hd path' r hlogged
    rw [List.mem_singleton.mp hd] at hlogged ⊢
    simp only at hlogged
    split at hlogged
    · cases hlogged
      refine ⟨h.writer path msg g hwriter, rfl, ?_, fun hne => congrArg Prod.fst (assignFrameId_of_ne hne)⟩
      show (assignFrameId g msg).1.payload = msg.payload
      unfold assignFrameId
      split <;> rfl
    · cases hlogged
  | _ => exact ⟨h.logged, h.writer⟩

/-- What holds in every state. -/
structure Sound (s : Ingest) : Prop where
  receives : s.Receives
  carries : s.Carries
  logs : s.Logs

theorem Sound.move (h : s.Sound) (hs : s.Move s') : s'.Sound where
  receives := h.receives.move (fun c msg hcall hholder => by
    obtain ⟨c', hc', -, hlt⟩ := h.carries.holder _ _ (.inr hholder)
    rw [hcall] at hc'
    cases hc'
    exact hlt) hs
  carries := h.carries.move h.receives.calls hs
  logs := h.logs.move hs

theorem sound_boot (fifoBuffer : Vector UInt8 fifoSize) : (boot fifoBuffer).Sound where
  receives := receives_boot fifoBuffer
  carries := carries_boot fifoBuffer
  logs := ⟨fun _ h => (by cases h), fun _ _ _ h => by cases h⟩

theorem sound_of_runs {fifoBuffer : Vector UInt8 fifoSize}
    (hrun : Runs Ingest.step (fun _ _ => True) (boot fifoBuffer) s) : s.Sound :=
  hrun.invariant (I := Sound) (sound_boot fifoBuffer) fun _ _ _ _ h _ hs => h.move (move_step hs)

end Ingest

/-! ## The messages of a port -/

/-- The log of a port. -/
def Port.logPath : Port → LogPath
  | .rs485 => .rs485
  | .rs232 => .rs232
  | .bd => .bd

theorem logPath_eq_port_iff (type : UInt32) (port : Port) : logPath type = some port.logPath ↔ type = port.dataType := by
  constructor
  · intro h
    unfold logPath at h
    split at h
    · rename_i htype
      cases port <;> cases h
      exact htype
    split at h
    · rename_i htype
      cases port <;> cases h
      exact htype
    split at h
    · rename_i htype
      cases port <;> cases h
      exact htype
    split at h
    · cases port <;> cases h
    split at h
    · cases port <;> cases h
    · cases h
  · rintro rfl
    cases port <;> rfl

theorem Port.dataType_inj {port port' : Port} : port.dataType = port'.dataType ↔ port = port' := by
  cases port <;> cases port' <;> decide

theorem SubmitCall.filter_put (c : SubmitCall) (port : Port) :
    c.put.filter (·.type = port.dataType) = if c.port = port then c.put else [] := by
  have htype : ∀ msg ∈ c.put, msg.type = c.port.dataType := fun msg hmsg => by
    obtain ⟨j, -, rfl⟩ := List.mem_map.mp hmsg
    rfl
  split
  · rename_i hport
    exact List.filter_eq_self.mpr fun msg hmsg => decide_eq_true (hport ▸ htype msg hmsg)
  · rename_i hport
    apply List.filter_eq_nil_iff.mpr
    intro msg hmsg
    simp only [htype msg hmsg, Port.dataType_inj, hport, decide_false, Bool.false_eq_true, not_false_eq_true]

theorem filter_flatMap_put (calls : List SubmitCall) (port : Port) :
    (calls.flatMap SubmitCall.put).filter (·.type = port.dataType) =
      (calls.filter (·.port = port)).flatMap SubmitCall.put := by
  induction calls with
  | nil => rfl
  | cons c calls ih =>
    rw [List.flatMap_cons, List.filter_append, c.filter_put, ih, List.filter_cons]
    by_cases hport : c.port = port
    · simp only [hport, if_true, decide_true, List.flatMap_cons]
    · simp only [hport, if_false, decide_false, List.nil_append, Bool.false_eq_true]

/-- The parts put carry the frame up to there. -/
theorem SubmitCall.payload_put (c : SubmitCall) :
    c.put.flatMap FifoMessage.payload = c.frame.take (256 * c.partIndex) := by
  have hchunk : ∀ j, ((c.frame.drop (256 * j)).take 256).length ≤ 256 := fun j => List.length_take_le _ _
  rw [SubmitCall.put, List.flatMap_map]
  simp only [framePart, payload_message _ (hchunk _)]
  refine Eq.trans ?_ (flatMap_chunks c.partIndex (c.frame.take (256 * c.partIndex)) (List.length_take_le _ _))
  apply List.flatMap_congr
  intro j hj
  have hlt := List.mem_range.mp hj
  rw [List.drop_take, List.take_take, Nat.min_eq_left (by omega)]

namespace Ingest

variable {s s' : Ingest}

theorem Sound.mem_accepted (h : s.Sound) {d : Handled} (hd : d ∈ s.handled) : d.msg ∈ s.fifo.accepted := by
  obtain ⟨pending, hqueue⟩ := h.carries.queue
  rw [hqueue.accepted, h.carries.obtained]
  exact List.mem_append_left _ (List.mem_append_left _ (List.mem_map_of_mem hd))

/-- A message of `receive_thread` that has come to `write_file_thread` is a part of a frame. -/
theorem Sound.exists_call (h : s.Sound) {d : Handled} (hd : d ∈ s.handled) (hport : d.msg.fromPort = true) :
    ∃ c ∈ s.calls, c.frameId ≠ 0 ∧ ∃ k < c.partIndex, d.msg = framePart c.port.dataType c.frameId c.frame k := by
  have hmem : d.msg ∈ s.fifo.accepted.filter FifoMessage.fromPort := List.mem_filter.mpr ⟨h.mem_accepted hd, hport⟩
  rw [h.carries.accepted] at hmem
  obtain ⟨c, hc, hmsg⟩ := List.mem_flatMap.mp hmem
  obtain ⟨k, hk, heq⟩ := List.mem_map.mp hmsg
  have hlt := List.mem_range.mp hk
  refine ⟨c, hc, ?_, k, hlt, heq.symm⟩
  rcases (h.receives.calls c hc).numbered with hne | ⟨-, hzero⟩
  · exact hne
  · omega

theorem fromPort_of_type {msg : FifoMessage} {port : Port} (h : msg.type = port.dataType) : msg.fromPort = true := by
  rw [FifoMessage.fromPort, h]
  cases port <;> rfl

/-- The log of a port has the messages of the port whose line could be written. -/
theorem Sound.log_eq (h : s.Sound) (port : Port) :
    (s.log port.logPath).map (·.msg) =
      ((s.handled.filter (·.logged.isSome)).map (·.msg)).filter (·.type = port.dataType) := by
  have hnumbered : ∀ d ∈ s.handled, d.msg.type = port.dataType → d.msg.frameId ≠ 0 := fun d hd htype => by
    obtain ⟨c, -, hne, k, -, heq⟩ := h.exists_call hd (fromPort_of_type htype)
    exact heq ▸ hne
  have hlogged := h.logs.logged
  unfold Ingest.log
  generalize s.handled = handled at hnumbered hlogged
  induction handled with
  | nil => rfl
  | cons d handled ih =>
    have hrest := ih (fun d hd => hnumbered d (List.mem_cons_of_mem _ hd))
      (fun d hd => hlogged d (List.mem_cons_of_mem _ hd))
    rw [List.filterMap_cons]
    match hd : d.logged with
    | none =>
      rw [List.filter_cons_of_neg (by simp [hd])]
      exact hrest
    | some (path, r) =>
      have hlog := hlogged d List.mem_cons_self path r hd
      rw [List.filter_cons_of_pos (by simp [hd]), List.map_cons, List.filter_cons]
      by_cases hpath : path = port.logPath
      · have htype : d.msg.type = port.dataType := (logPath_eq_port_iff _ _).mp (hpath ▸ hlog.path)
        rw [if_pos (decide_eq_true htype), ← hrest, ← hlog.msg (hnumbered d List.mem_cons_self htype)]
        simp only [Option.bind_some, if_pos hpath, List.map_cons]
      · have htype : ¬d.msg.type = port.dataType := fun htype =>
          hpath (Option.some.inj (hlog.path.symm.trans ((logPath_eq_port_iff _ _).mpr htype)))
        rw [if_neg (by simpa using htype), ← hrest]
        simp only [Option.bind_some, if_neg hpath]

/-- The parts put by the calls of a port are the messages of its type in the FIFO. -/
theorem Sound.parts_eq (h : s.Sound) (port : Port) :
    (s.calls.filter (·.port = port)).flatMap SubmitCall.put = s.fifo.accepted.filter (·.type = port.dataType) := by
  rw [← filter_flatMap_put, ← h.carries.accepted, List.filter_filter]
  apply List.filter_congr
  intro msg _
  by_cases htype : msg.type = port.dataType
  · rw [decide_eq_true htype, fromPort_of_type htype]
    rfl
  · rw [decide_eq_false htype]
    rfl

end Ingest

/-- Where the bytes received from a port are: in the frames that `submit_frame` was called with, those
that wait for it, and the one being received. A call has put its frame in parts, unless the frame was
all zero or the FIFO full; the parts have come to `write_file_thread` or will, in their order; and
those whose line it could write are the records of the port's log. -/
theorem ingest_conserves {fifoBuffer : Vector UInt8 fifoSize} {s : Ingest}
    (hrun : Runs Ingest.step (fun _ _ => True) (.boot fifoBuffer) s) (port : Port) :
    s.received port = (s.framesOf port).flatten ++ (s.waiting port).flatten ++ (s.receiver.states port).frameBuf ∧
    (∀ c ∈ s.calls, c.put.flatMap FifoMessage.payload = c.frame.take (256 * c.partIndex)) ∧
    (∀ c ∈ s.submitted, isGarbageData c.frame = true ∧ c.put = [] ∨ c.full = true ∨
      c.put.flatMap FifoMessage.payload = c.frame) ∧
    ∃ pending, s.fifo.Queue pending ∧
      (s.calls.filter (·.port = port)).flatMap SubmitCall.put =
        (s.handled.map (·.msg) ++ s.hand ++ pending).filter (·.type = port.dataType) ∧
      (s.log port.logPath).map (·.msg) =
        ((s.handled.filter (·.logged.isSome)).map (·.msg)).filter (·.type = port.dataType) := by
  have hsound := Ingest.sound_of_runs hrun
  obtain ⟨pending, hqueue⟩ := hsound.carries.queue
  refine ⟨hsound.receives.bytes port, fun c _ => c.payload_put, fun c hc => ?_, pending, hqueue, ?_, hsound.log_eq port⟩
  · have hvalid := hsound.receives.calls c (List.mem_append_left _ hc)
    rcases hsound.receives.returned c hc with ⟨hgarbage, hzero⟩ | hfull | hdone
    · left
      exact ⟨hgarbage, by rw [SubmitCall.put, hzero]; rfl⟩
    · right
      left
      exact hfull
    · right
      right
      have hoffset := hvalid.offset_eq
      rw [c.payload_put, List.take_of_length_le (by omega)]
  · rw [hsound.parts_eq port, ← hsound.carries.obtained, ← hqueue.accepted]

/-- What is read `ms` milliseconds after some time. -/
def readAt (ms : Nat) (bytes : List UInt8) : Reading where
  selects := true
  bytes := bytes.take 255
  now := ⟨ms / 1000 % 2 ^ 53, ms % 1000 * 1000, Nat.mod_lt _ (Nat.two_pow_pos 53), by omega⟩
  length_le := List.length_take_le _ _

/-- Two bytes come from RS485 and, when nothing has come for 20 ms, are logged. -/
def ingestRun : List IngestAction :=
  [.receive (readAt 1000 []), .receive (readAt 1000 [1, 2])] ++ List.replicate 9 (.receive (readAt 1020 [])) ++
    List.replicate 6 (.write ⟨.setTime, true⟩)

theorem ingest_conserves_two :
    ∃ s : Ingest, s.received .rs485 = [1, 2] ∧ (s.log .rs485).map (·.payload) = [[1, 2]] ∧
      s.received .rs485 =
        (s.framesOf .rs485).flatten ++ (s.waiting .rs485).flatten ++ (s.receiver.states .rs485).frameBuf ∧
      ∃ pending, s.fifo.Queue pending ∧
        (s.calls.filter (·.port = .rs485)).flatMap SubmitCall.put =
          (s.handled.map (·.msg) ++ s.hand ++ pending).filter (·.type = Port.rs485.dataType) ∧
        (s.log .rs485).map (·.msg) =
          ((s.handled.filter (·.logged.isSome)).map (·.msg)).filter (·.type = Port.rs485.dataType) := by
  have h : (runList Ingest.step (fun _ _ => true) (.boot (Vector.replicate fifoSize 0)) ingestRun).map (fun s =>
      (s.received .rs485, (s.log .rs485).map (·.payload))) = some ([1, 2], [[1, 2]]) := by
    decide +kernel
  obtain ⟨s, hrun, heq⟩ := Option.map_eq_some_iff.mp h
  obtain ⟨hreceived, hlog⟩ := Prod.mk.inj heq
  obtain ⟨hbytes, -, -, hparts⟩ := ingest_conserves (.of_runList (fun _ _ _ => trivial) .start hrun) .rs485
  exact ⟨s, hreceived, hlog, hbytes, hparts⟩

/-! ## The numbers -/

/-- Below 2³² the next number is the one behind. -/
theorem toNat_logNextFrameId {g : UInt32} (h : g.toNat + 1 < 2 ^ 32) :
    (logNextFrameId g).1.toNat = g.toNat + 1 ∧ (logNextFrameId g).2 = (logNextFrameId g).1 := by
  have hnext : (g + 1).toNat = g.toNat + 1 := by
    rw [UInt32.toNat_add, Nat.mod_eq_of_lt (by exact h)]
    rfl
  have hne : g + 1 ≠ 0 := fun hzero => by
    rw [hzero] at hnext
    cases hnext
  rw [logNextFrameId, if_neg hne]
  exact ⟨hnext, rfl⟩

/-- The number that `write_file_thread` has drawn for a message. -/
def Handled.own (d : Handled) : Option UInt32 := if d.msg.frameId = 0 ∧ d.frameId ≠ 0 then some d.frameId else none

namespace Ingest

variable {s s' : Ingest}

/-- The numbers of frames. -/
def frameNumbers (s : Ingest) : List UInt32 := (s.calls.map (·.frameId)).filter (· ≠ 0)

theorem frameNumbers_eq {submitted : List SubmitCall} {c : SubmitCall} (h : s.calls = submitted ++ [c]) :
    s.frameNumbers = (submitted.map (·.frameId)).filter (· ≠ 0) ++ if c.frameId = 0 then [] else [c.frameId] := by
  rw [frameNumbers, h, List.map_append, List.filter_append]
  by_cases hzero : c.frameId = 0 <;> simp [hzero]

/-- The number that `write_file_thread` has drawn for the message it is about to log. -/
def handNumber (s : Ingest) : List UInt32 :=
  match s.writer with
  | .write _ msg g => if msg.frameId = 0 then [(logNextFrameId g).1] else []
  | _ => []

theorem handNumber_eq_nil (h : ∀ path msg g, s.writer ≠ .write path msg g) : s.handNumber = [] := by
  unfold handNumber
  split
  · rename_i hwriter
    exact absurd hwriter (h _ _ _)
  · rfl

/-- The numbers that `write_file_thread` has drawn. -/
def ownNumbers (s : Ingest) : List UInt32 := s.handled.filterMap Handled.own ++ s.handNumber

/-- The numbers drawn are different. -/
structure Numbers (s : Ingest) : Prop where
  drawn : s.gLogFrameId.toNat = s.drawn
  frames : s.frameNumbers.Nodup
  own : s.ownNumbers.Nodup
  disjoint : ∀ n ∈ s.frameNumbers, n ∉ s.ownNumbers
  le : ∀ n ∈ s.frameNumbers ++ s.ownNumbers, n.toNat ≤ s.drawn

theorem numbers_boot (fifoBuffer : Vector UInt8 fifoSize) : (boot fifoBuffer).Numbers where
  drawn := rfl
  frames := .nil
  own := .nil
  disjoint _ h := by cases h
  le _ h := by cases h

/-- No number is drawn. -/
theorem Numbers.same (h : s.Numbers) (hframes : s'.frameNumbers = s.frameNumbers) (hown : s'.ownNumbers = s.ownNumbers)
    (hcounter : s'.gLogFrameId = s.gLogFrameId ∧ s'.drawn = s.drawn) : s'.Numbers where
  drawn := by rw [hcounter.1, hcounter.2, h.drawn]
  frames := hframes ▸ h.frames
  own := hown ▸ h.own
  disjoint := by rw [hframes, hown]; exact h.disjoint
  le := by rw [hframes, hown, hcounter.2]; exact h.le

theorem Numbers.fresh (h : s.Numbers) (hlt : s.drawn + 1 < 2 ^ 32) :
    (logNextFrameId s.gLogFrameId).1.toNat = s.drawn + 1 ∧
      (logNextFrameId s.gLogFrameId).1 ∉ s.frameNumbers ++ s.ownNumbers := by
  have hnext := (toNat_logNextFrameId (by rw [h.drawn]; exact hlt)).1
  rw [h.drawn] at hnext
  refine ⟨hnext, fun hmem => ?_⟩
  have hle := h.le _ hmem
  omega

/-- A frame is given the next number, or `write_file_thread` draws it. -/
theorem Numbers.draw (h : s.Numbers) (hlt : s.drawn + 1 < 2 ^ 32)
    (hnew : s'.frameNumbers = s.frameNumbers ++ [(logNextFrameId s.gLogFrameId).1] ∧ s'.ownNumbers = s.ownNumbers ∨
      s'.frameNumbers = s.frameNumbers ∧ s'.ownNumbers = s.ownNumbers ++ [(logNextFrameId s.gLogFrameId).1])
    (hcounter : s'.gLogFrameId = (logNextFrameId s.gLogFrameId).2 ∧ s'.drawn = s.drawn + 1) : s'.Numbers := by
  obtain ⟨hnext, hfresh⟩ := h.fresh hlt
  have hsecond := (toNat_logNextFrameId (by rw [h.drawn]; exact hlt)).2
  generalize (logNextFrameId s.gLogFrameId).1 = new at hnext hfresh hnew hsecond
  rw [List.mem_append, not_or] at hfresh
  have hle : ∀ n ∈ s'.frameNumbers ++ s'.ownNumbers, n.toNat ≤ s'.drawn := by
    have hold : ∀ n ∈ s.frameNumbers ++ s.ownNumbers, n.toNat ≤ s.drawn + 1 := fun n hn => Nat.le_succ_of_le (h.le n hn)
    rw [hcounter.2]
    intro n hn
    have hmem : n ∈ s.frameNumbers ++ s.ownNumbers ∨ n = new := by
      rcases hnew with ⟨hframes, hown⟩ | ⟨hframes, hown⟩ <;>
        · rw [hframes, hown] at hn
          simp only [List.mem_append, List.mem_singleton] at hn ⊢
          tauto
    rcases hmem with hmem | rfl
    · exact hold n hmem
    · exact Nat.le_of_eq hnext
  have hdrawn : s'.gLogFrameId.toNat = s'.drawn := by rw [hcounter.1, hsecond, hnext, hcounter.2]
  rcases hnew with ⟨hframes, hown⟩ | ⟨hframes, hown⟩
  · refine ⟨hdrawn, ?_, hown ▸ h.own, fun n hn => ?_, hle⟩
    · rw [hframes]
      exact h.frames.append (List.nodup_singleton _) (List.disjoint_singleton.mpr hfresh.1)
    · rw [hframes] at hn
      rw [hown]
      rcases List.mem_append.mp hn with hn | hn
      · exact h.disjoint n hn
      · rw [List.mem_singleton.mp hn]
        exact hfresh.2
  · refine ⟨hdrawn, hframes ▸ h.frames, ?_, fun n hn hmem => ?_, hle⟩
    · rw [hown]
      exact h.own.append (List.nodup_singleton _) (List.disjoint_singleton.mpr hfresh.2)
    · rw [hframes] at hn
      rw [hown] at hmem
      rcases List.mem_append.mp hmem with hmem | hmem
      · exact h.disjoint n hn hmem
      · rw [List.mem_singleton.mp hmem] at hn
        exact hfresh.1 hn

theorem Numbers.move (h : s.Numbers) (hs : s.Move s') (hlt : s'.drawn < 2 ^ 32) : s'.Numbers := by
  cases hs with
  | @begins frame frames hcall hframes =>
    have hnumbers := frameNumbers_eq (calls_submitBegins hcall frame frames)
    rw [← calls_of_none hcall] at hnumbers
    unfold submitBegins at hlt hnumbers ⊢
    by_cases hzero : frame = [] ∨ isGarbageData frame = true
    · simp only [if_pos hzero, if_true, List.append_nil] at hnumbers ⊢
      exact h.same hnumbers rfl ⟨rfl, rfl⟩
    · simp only [if_neg hzero, if_neg (logNextFrameId_ne_zero _)] at hlt hnumbers ⊢
      exact h.draw hlt (.inl ⟨hnumbers, rfl⟩) ⟨rfl, rfl⟩
  | @ends c hcall hoffset =>
    refine h.same ?_ rfl ⟨rfl, rfl⟩
    rw [frameNumbers_eq (calls_submitReturns _ _), frameNumbers_eq (calls_of_call hcall)]
  | full hcall =>
    refine h.same ?_ rfl ⟨rfl, rfl⟩
    rw [frameNumbers_eq (calls_submitReturns _ _), frameNumbers_eq (calls_of_call hcall)]
  | put hcall =>
    refine h.same ?_ rfl ⟨rfl, rfl⟩
    rw [frameNumbers_eq (calls_of_call rfl), frameNumbers_eq (calls_of_call hcall)]
    rfl
  | writes hwriter =>
    refine h.same rfl ?_ ⟨rfl, rfl⟩
    rw [ownNumbers, ownNumbers, handNumber_eq_nil (s := s) (by simp [hwriter]), handNumber_eq_nil]
    intro path msg g hwrite
    change (if s.stopFlag then WritePlace.returned else .fifo) = .write path msg g at hwrite
    split at hwrite <;> cases hwrite
  | leaves hwriter =>
    refine h.same rfl ?_ ⟨rfl, rfl⟩
    rw [ownNumbers, ownNumbers, handNumber, handNumber, hwriter]
  | gets hwriter =>
    refine h.same rfl ?_ ⟨rfl, rfl⟩
    rw [ownNumbers, ownNumbers, handNumber_eq_nil (s := s) (by simp [hwriter]), handNumber_eq_nil]
    intro path msg g hwrite
    simp only at hwrite
    split at hwrite <;> cases hwrite
  | skips hwriter hpath =>
    refine h.same rfl ?_ ⟨rfl, rfl⟩
    rw [ownNumbers, ownNumbers, handNumber, handNumber, hwriter, List.filterMap_append]
    simp [Handled.own]
  | @numbers msg path hwriter hpath =>
    by_cases hzero : msg.frameId = 0
    · simp only [if_pos hzero] at hlt ⊢
      refine h.draw hlt (.inr ⟨rfl, ?_⟩) ⟨?_, rfl⟩
      · rw [ownNumbers, ownNumbers, handNumber, handNumber, hwriter]
        simp only [if_pos hzero, List.append_nil]
      · rw [assignFrameId, if_pos hzero]
    · refine h.same rfl ?_ ⟨?_, if_neg hzero⟩
      · rw [ownNumbers, ownNumbers, handNumber, handNumber, hwriter]
        simp only [if_neg hzero]
      · rw [assignFrameId, if_neg hzero]
  | @logs path msg g w hwriter hlen =>
    refine h.same rfl ?_ ⟨rfl, rfl⟩
    rw [ownNumbers, ownNumbers, handNumber, handNumber, hwriter, List.filterMap_append]
    show _ ++ List.filterMap Handled.own [⟨msg, (assignFrameId g msg).1.frameId, _⟩] ++ [] = _
    by_cases hzero : msg.frameId = 0
    · simp [Handled.own, assignFrameId, hzero, logNextFrameId_ne_zero]
    · simp [Handled.own, assignFrameId, hzero]
  | _ => exact h.same rfl rfl ⟨rfl, rfl⟩

theorem Move.drawn_le (hs : s.Move s') : s.drawn ≤ s'.drawn := by
  cases hs with
  | begins =>
    unfold submitBegins
    split
    · exact Nat.le_refl _
    · exact Nat.le_succ _
  | numbers =>
    show s.drawn ≤ if _ then s.drawn + 1 else s.drawn
    split
    · exact Nat.le_succ _
    · exact Nat.le_refl _
  | _ => exact Nat.le_refl _

theorem numbers_of_runs {fifoBuffer : Vector UInt8 fifoSize}
    (hrun : Runs Ingest.step (fun _ _ => True) (boot fifoBuffer) s) (hlt : s.drawn < 2 ^ 32) : s.Numbers := by
  have hnumbers : s.drawn < 2 ^ 32 → s.Numbers := by
    refine hrun.invariant (I := fun s => s.drawn < 2 ^ 32 → s.Numbers) (fun _ => numbers_boot fifoBuffer) ?_
    intro s a s' e h _ hs hlt
    have hmove := move_step hs
    exact (h (Nat.lt_of_le_of_lt hmove.drawn_le hlt)).move hmove hlt
  exact hnumbers hlt

/-- A part of a frame is logged under the number of the frame. -/
theorem Sound.frameNumber (h : s.Sound) {d : Handled} (hd : d ∈ s.handled) (hport : d.msg.fromPort = true)
    {path : LogPath} {r : Record} (hlogged : d.logged = some (path, r)) :
    r.msg = d.msg ∧ r.msg.frameId ∈ s.frameNumbers := by
  obtain ⟨c, hc, hne, k, -, heq⟩ := h.exists_call hd hport
  have hmsg : r.msg = d.msg := by
    refine (h.logs.logged d hd path r hlogged).msg ?_
    rw [heq]
    exact hne
  refine ⟨hmsg, ?_⟩
  rw [hmsg, heq]
  exact List.mem_filter.mpr ⟨List.mem_map_of_mem hc, decide_eq_true hne⟩

/-- Other data is logged under a number that `write_file_thread` has drawn for it. -/
theorem Sound.ownNumber (h : s.Sound) {d : Handled} (hd : d ∈ s.handled) (hport : d.msg.fromPort = false)
    {path : LogPath} {r : Record} (hlogged : d.logged = some (path, r)) : d.own = some r.msg.frameId := by
  have hzero := (h.carries.pushes d.msg (h.mem_accepted hd) hport).frameId
  have hid := (h.logs.logged d hd path r hlogged).frameId
  rw [Handled.own, if_pos ⟨hzero, hid ▸ r.frameId_ne⟩, hid]

/-- Two messages put for frames have one number if they are parts of one frame. -/
theorem Sound.pairwise_put (h : s.Sound) (hnumbers : s.frameNumbers.Nodup) :
    (s.calls.flatMap SubmitCall.put).Pairwise fun msg msg' => msg.frameId = msg'.frameId →
      ∃ c ∈ s.calls, ∃ k k', k < k' ∧ k' < c.partIndex ∧ msg = framePart c.port.dataType c.frameId c.frame k ∧
        msg' = framePart c.port.dataType c.frameId c.frame k' := by
  apply List.pairwise_flatMap.mpr
  constructor
  · intro c hc
    apply List.pairwise_map.mpr
    refine List.pairwise_lt_range.imp_of_mem fun {k k'} _ hk' hlt _ => ?_
    exact ⟨c, hc, k, k', hlt, List.mem_range.mp hk', rfl, rfl⟩
  · have hcalls := List.pairwise_map.mp (List.pairwise_filter.mp hnumbers)
    refine hcalls.imp_of_mem fun {c c'} hc hc' hne msg hmsg msg' hmsg' heq => ?_
    obtain ⟨k, hk, rfl⟩ := List.mem_map.mp hmsg
    obtain ⟨k', hk', rfl⟩ := List.mem_map.mp hmsg'
    have hlt := List.mem_range.mp hk
    have hlt' := List.mem_range.mp hk'
    have hnumbered : ∀ c ∈ s.calls, 0 < c.partIndex → c.frameId ≠ 0 := fun c hc hpos => by
      rcases (h.receives.calls c hc).numbered with hne | ⟨-, hzero⟩
      · exact hne
      · omega
    exact absurd heq (hne (decide_eq_true (hnumbered c hc (by omega))) (decide_eq_true (hnumbered c' hc' (by omega))))

end Ingest

/-- Before 2³² numbers are drawn, two records logged have one frame id only if they are parts of one frame,
the one with the smaller index logged first: no number is given twice, by whatever thread. -/
theorem ingest_numbers {fifoBuffer : Vector UInt8 fifoSize} {s : Ingest}
    (hrun : Runs Ingest.step (fun _ _ => True) (.boot fifoBuffer) s) (hlt : s.drawn < 2 ^ 32) :
    s.handled.Pairwise fun d d' => ∀ path r path' r', d.logged = some (path, r) → d'.logged = some (path', r') →
      r.msg.frameId = r'.msg.frameId →
      path = path' ∧ ∃ c ∈ s.calls, ∃ k k', k < k' ∧ k' < c.partIndex ∧
        r.msg = framePart c.port.dataType c.frameId c.frame k ∧
        r'.msg = framePart c.port.dataType c.frameId c.frame k' := by
  have hsound := Ingest.sound_of_runs hrun
  have hnumbers := Ingest.numbers_of_runs hrun hlt
  obtain ⟨pending, hqueue⟩ := hsound.carries.queue
  have hparts := hsound.pairwise_put hnumbers.frames
  rw [← hsound.carries.accepted, hqueue.accepted, hsound.carries.obtained, List.append_assoc] at hparts
  have hparts := List.pairwise_map.mp ((List.pairwise_filter.mp hparts).sublist (List.sublist_append_left _ _))
  have hown := List.pairwise_filterMap.mp (hnumbers.own.sublist (List.sublist_append_left _ _))
  refine (hparts.and hown).imp_of_mem fun {d d'} hd hd' hboth path r path' r' hlog hlog' heq => ?_
  cases hport : d.msg.fromPort <;> cases hport' : d'.msg.fromPort
  · -- Two numbers that `write_file_thread` has drawn.
    exact absurd heq (hboth.2 _ (hsound.ownNumber hd hport hlog) _ (hsound.ownNumber hd' hport' hlog'))
  · have hmem : r.msg.frameId ∈ s.ownNumbers :=
      List.mem_append_left _ (List.mem_filterMap.mpr ⟨d, hd, hsound.ownNumber hd hport hlog⟩)
    exact absurd (heq ▸ hmem) (hnumbers.disjoint _ (hsound.frameNumber hd' hport' hlog').2)
  · have hmem : r'.msg.frameId ∈ s.ownNumbers :=
      List.mem_append_left _ (List.mem_filterMap.mpr ⟨d', hd', hsound.ownNumber hd' hport' hlog'⟩)
    exact absurd (heq ▸ hmem) (hnumbers.disjoint _ (hsound.frameNumber hd hport hlog).2)
  · obtain ⟨hmsg, -⟩ := hsound.frameNumber hd hport hlog
    obtain ⟨hmsg', -⟩ := hsound.frameNumber hd' hport' hlog'
    rw [hmsg, hmsg'] at heq ⊢
    obtain ⟨c, hc, k, k', hk, hk', hpart, hpart'⟩ := hboth.1 hport hport' heq
    refine ⟨?_, c, hc, k, k', hk, hk', hpart, hpart'⟩
    have hpath := (hsound.logs.logged d hd path r hlog).path
    have hpath' := (hsound.logs.logged d' hd' path' r' hlog').path
    rw [hpart] at hpath
    rw [hpart'] at hpath'
    exact Option.some.inj (hpath.symm.trans hpath')

/-- The two bytes, and then a LoRa message, are logged under two numbers. -/
def numbersRun : List IngestAction :=
  ingestRun ++ [.push .lora [3], .pushing, .pushing] ++ List.replicate 6 (.write ⟨.setTime, true⟩)

theorem ingest_numbers_two :
    ∃ s : Ingest, s.handled.map (·.logged.map fun log => log.2.msg.frameId) = [some 1, some 2] ∧ s.drawn < 2 ^ 32 ∧
      s.handled.Pairwise fun d d' => ∀ path r path' r', d.logged = some (path, r) → d'.logged = some (path', r') →
        r.msg.frameId = r'.msg.frameId →
        path = path' ∧ ∃ c ∈ s.calls, ∃ k k', k < k' ∧ k' < c.partIndex ∧
          r.msg = framePart c.port.dataType c.frameId c.frame k ∧
          r'.msg = framePart c.port.dataType c.frameId c.frame k' := by
  have h : (runList Ingest.step (fun _ _ => true) (.boot (Vector.replicate fifoSize 0)) numbersRun).map (fun s =>
      (s.handled.map (·.logged.map fun log => log.2.msg.frameId), s.drawn)) = some ([some 1, some 2], 2) := by
    decide +kernel
  obtain ⟨s, hrun, heq⟩ := Option.map_eq_some_iff.mp h
  obtain ⟨hlogged, hdrawn⟩ := Prod.mk.inj heq
  have hlt : s.drawn < 2 ^ 32 := by rw [hdrawn]; decide
  exact ⟨s, hlogged, hlt, ingest_numbers (.of_runList (fun _ _ _ => trivial) .start hrun) hlt⟩

/-! ## `stop_flag` -/

namespace Ingest

variable {s s' : Ingest}

/-- `write_file_thread` holds the FIFO only while it is at it. -/
def Reads (s : Ingest) : Prop := s.fifo.holder = .testLen ∨ s.fifo.holder = .get → s.writer = .fifo

end Ingest

/-- Only `write_file_thread` comes to its accesses. -/
theorem DataFifo.reads_of_step {ι : Type} {s s' : DataFifo ι} {action : FifoAction ι} (hs : s.step action = some s')
    (haction : action ≠ .lockGet) (hlen : s.holder ≠ .testLen ∨ action ≠ .resume) :
    s'.holder ≠ .testLen ∧ s'.holder ≠ .get := by
  cases DataFifo.access_of_step hs with
  | lockGet => exact absurd rfl haction
  | found hholder => exact absurd rfl (hlen.resolve_left (fun hne => hne hholder))
  | lockPut | stop | full | room | put | empty | get => exact ⟨fun h => (by cases h), fun h => by cases h⟩

namespace Ingest

variable {s s' : Ingest}

theorem Reads.access {fifo : DataFifo Producer} {action : FifoAction Producer} (hs : s.fifo.step action = some fifo)
    (haction : action ≠ .lockGet) (hlen : s.fifo.holder ≠ .testLen ∨ action ≠ .resume) (hfifo : s'.fifo = fifo) :
    s'.Reads := by
  obtain ⟨htest, hget⟩ := DataFifo.reads_of_step hs haction hlen
  intro hholder
  rw [hfifo] at hholder
  rcases hholder with h | h
  · exact absurd h htest
  · exact absurd h hget

/-- While `write_file_thread` is elsewhere it does not hold the FIFO. -/
theorem Reads.elsewhere (h : s.Reads) (hwriter : s.writer ≠ .fifo) (hfifo : s'.fifo = s.fifo) : s'.Reads := by
  intro hholder
  exact absurd (h (hfifo ▸ hholder)) hwriter

theorem Reads.move (h : s.Reads) (hs : s.Move s') : s'.Reads := by
  cases hs with
  | lock _ _ hs => exact Reads.access hs (by simp) (.inr (by simp)) rfl
  | room _ hholder hs => exact Reads.access hs (by simp) (.inl (by simp [hholder])) rfl
  | full _ hholder hs => exact Reads.access hs (by simp) (.inl (by simp [hholder])) rfl
  | put _ hholder hs => exact Reads.access hs (by simp) (.inl (by simp [hholder])) rfl
  | push _ hs => exact Reads.access hs (by simp) (.inr (by simp)) rfl
  | pushing _ hholder hs =>
    refine Reads.access hs (by simp) (.inl ?_) rfl
    rcases hholder with hholder | hholder <;> simp [hholder]
  | writes hwriter => exact h.elsewhere (by simp [hwriter]) rfl
  | enters hwriter | looks hwriter => exact fun _ => hwriter
  | leaves hwriter _ _ hs => exact Reads.access hs (by simp) (.inr (by simp)) rfl
  | gets hwriter hholder hs => exact Reads.access hs (by simp) (.inl (by simp [hholder])) rfl
  | skips hwriter | numbers hwriter | logs hwriter => exact h.elsewhere (by simp [hwriter]) rfl
  | begins =>
    unfold submitBegins
    split <;> exact h
  | _ => exact h

theorem reads_of_runs {fifoBuffer : Vector UInt8 fifoSize}
    (hrun : Runs Ingest.step (fun _ _ => True) (boot fifoBuffer) s) : s.Reads :=
  hrun.invariant (I := Reads) (fun h => by rcases h with h | h <;> cases h) fun _ _ _ _ h _ hs => h.move (move_step hs)

/-- `s'` comes after `s`, in which `stop_flag` is set. -/
structure Closing (s s' : Ingest) : Prop where
  stop : s'.stopFlag = true
  accepted : s.fifo.accepted <+: s'.fifo.accepted
  handled : s.handled <+: s'.handled
  /-- The message that had been found is the last one got. -/
  obtained : s'.fifo.obtained = s.fifo.obtained ∧ (s'.fifo.holder = .get → s.fifo.holder = .get) ∨
    s'.fifo.holder ≠ .get ∧ s.fifo.holder = .get ∧ ∃ msg, s'.fifo.obtained = s.fifo.obtained ++ [msg]

theorem Closing.refl (hstop : s.stopFlag = true) : s.Closing s where
  stop := hstop
  accepted := List.prefix_rfl
  handled := List.prefix_rfl
  obtained := .inl ⟨rfl, id⟩

variable {t : Ingest}

/-- An access at the FIFO; no message is found. -/
theorem Closing.access (h : s.Closing s') {fifo : DataFifo Producer} {action : FifoAction Producer}
    (hs : s'.fifo.step action = some fifo) (hlen : s'.fifo.holder ≠ .testLen ∨ action ≠ .resume)
    (hget : s'.fifo.holder = .get → action ≠ .resume) (hfifo : t.fifo = fifo) (hhandled : t.handled = s'.handled)
    (hstop : t.stopFlag = s'.stopFlag) : s.Closing t where
  stop := hstop ▸ h.stop
  accepted := by
    rw [hfifo, DataFifo.step_accepted hs]
    exact h.accepted.trans (List.prefix_append _ _)
  handled := hhandled ▸ h.handled
  obtained := by
    have hno : t.fifo.holder ≠ .get := by
      rw [hfifo]
      cases DataFifo.access_of_step hs with
      | found hholder => exact absurd rfl (hlen.resolve_left (fun hne => hne hholder))
      | lockPut | lockGet | stop | full | room | put | empty | get => exact fun h => by cases h
    have hobtained : t.fifo.obtained = s'.fifo.obtained := by rw [hfifo, DataFifo.step_obtained hs hget]
    rcases h.obtained with ⟨heq, -⟩ | ⟨-, hholder, msg, heq⟩
    · exact .inl ⟨hobtained.trans heq, fun h => absurd h hno⟩
    · exact .inr ⟨hno, hholder, msg, hobtained.trans heq⟩

/-- A step without access. -/
theorem Closing.local (h : s.Closing s') (hfifo : t.fifo = s'.fifo) (hhandled : s'.handled <+: t.handled)
    (hstop : t.stopFlag = true) : s.Closing t where
  stop := hstop
  accepted := hfifo ▸ h.accepted
  handled := h.handled.trans hhandled
  obtained := hfifo ▸ h.obtained

theorem Closing.gets (h : s.Closing s') (hqueue : ∃ pending, s'.fifo.Queue pending) {fifo : DataFifo Producer}
    (hholder : s'.fifo.holder = .get) (hs : s'.fifo.step .resume = some fifo) {writer : WritePlace} :
    s.Closing { s' with fifo := fifo, writer := writer } := by
  obtain ⟨pending, hqueue⟩ := hqueue
  obtain ⟨msg, rest, -, hobtained, hfree, haccepted, -⟩ := hqueue.get hholder hs
  refine ⟨h.stop, ?_, h.handled, .inr ⟨?_, ?_⟩⟩
  · show _ <+: fifo.accepted
    rw [haccepted]
    exact h.accepted
  · show fifo.holder ≠ .get
    rw [hfree]
    simp
  · rcases h.obtained with ⟨heq, hget⟩ | ⟨hno, -⟩
    · exact ⟨hget hholder, msg, hobtained.trans (by rw [heq])⟩
    · exact absurd hholder hno

theorem Closing.move (h : s.Closing s') (hqueue : ∃ pending, s'.fifo.Queue pending) (hs : s'.Move t) : s.Closing t := by
  cases hs with
  | lock _ _ hs => exact h.access hs (.inr (by simp)) (fun _ => by simp) rfl rfl rfl
  | room _ hholder hs => exact h.access hs (.inl (by simp [hholder])) (fun hget => by simp [hholder] at hget) rfl rfl rfl
  | full _ hholder hs => exact h.access hs (.inl (by simp [hholder])) (fun hget => by simp [hholder] at hget) rfl rfl rfl
  | put _ hholder hs => exact h.access hs (.inl (by simp [hholder])) (fun hget => by simp [hholder] at hget) rfl rfl rfl
  | push _ hs => exact h.access hs (.inr (by simp)) (fun _ => by simp) rfl rfl rfl
  | pushing _ hholder hs =>
    refine h.access hs (.inl ?_) (fun hget => ?_) rfl rfl rfl
    · rcases hholder with hholder | hholder <;> simp [hholder]
    · rcases hholder with hholder | hholder <;> simp [hholder] at hget
  | enters _ hs => exact h.access hs (.inr (by simp)) (fun _ => by simp) rfl rfl rfl
  | looks _ _ hstop =>
    rw [h.stop] at hstop
    cases hstop
  | leaves _ _ _ hs => exact h.access hs (.inr (by simp)) (fun _ => by simp) rfl rfl rfl
  | gets _ hholder hs => exact h.gets hqueue hholder hs
  | skips => exact h.local rfl (List.prefix_append _ _) h.stop
  | logs => exact h.local rfl (List.prefix_append _ _) h.stop
  | begins =>
    unfold submitBegins
    split <;> exact h.local rfl List.prefix_rfl h.stop
  | stop => exact h.local rfl List.prefix_rfl rfl
  | _ => exact h.local rfl List.prefix_rfl h.stop

end Ingest

/-- Once `stop_flag` is set, `write_file_thread` is done with at most one more message, one that was in the
FIFO before: what `submit_frame` puts later, also for the frames that `receive_thread` flushes
when it leaves its loop, is never logged. -/
theorem ingest_shutdown {fifoBuffer : Vector UInt8 fifoSize} {s s' : Ingest}
    (hrun : Runs Ingest.step (fun _ _ => True) (.boot fifoBuffer) s) (hstop : s.stopFlag = true)
    (hrun' : Runs Ingest.step (fun _ _ => True) s s') :
    (∃ new, s'.handled = s.handled ++ new ∧ new.length ≤ 1) ∧ s'.handled.map (·.msg) <+: s.fifo.accepted := by
  have hsound := Ingest.sound_of_runs hrun
  have hclosing : s'.Sound ∧ s.Closing s' :=
    hrun'.invariant (I := fun s' => s'.Sound ∧ s.Closing s') ⟨hsound, .refl hstop⟩ fun _ _ _ _ h _ hs =>
      ⟨h.1.move (Ingest.move_step hs), h.2.move h.1.carries.queue (Ingest.move_step hs)⟩
  obtain ⟨hsound', hclosing⟩ := hclosing
  obtain ⟨new, hnew⟩ := hclosing.handled
  obtain ⟨pending, hqueue⟩ := hsound.carries.queue
  obtain ⟨pending', hqueue'⟩ := hsound'.carries.queue
  have hhand : s.hand.length ≤ 1 := by
    unfold Ingest.hand
    split <;> simp
  have hold := congrArg List.length hsound.carries.obtained
  have hobtained := congrArg List.length hsound'.carries.obtained
  rw [← hnew] at hobtained
  simp only [List.length_append, List.length_map] at hold hobtained
  have haccepted := congrArg List.length hqueue.accepted
  rw [List.length_append] at haccepted
  have hcount : s'.fifo.obtained.length ≤ s.fifo.accepted.length ∧ new.length ≤ 1 := by
    rcases hclosing.obtained with ⟨heq, -⟩ | ⟨-, hget, msg, heq⟩
    · rw [heq] at hobtained ⊢
      omega
    · have hnil : s.hand = [] := by rw [Ingest.hand, Ingest.reads_of_runs hrun (.inr hget)]
      have havail : messageSize.toNat ≤ (kfifoLen s.fifo.fifo).toNat := UInt32.le_iff_toNat_le.mp (hqueue.avail hget)
      have hsize : messageSize.toNat = 272 := rfl
      have hlen := hqueue.toNat_len
      rw [hsize] at havail hlen
      rw [hnil, List.length_nil] at hold
      rw [heq, List.length_append, List.length_singleton] at hobtained
      rw [heq, List.length_append, List.length_singleton]
      omega
  refine ⟨⟨new, hnew.symm, hcount.2⟩, ?_⟩
  have hprefix : s'.handled.map (·.msg) <+: s'.fifo.obtained := by
    rw [hsound'.carries.obtained]
    exact List.prefix_append _ _
  refine hprefix.trans (List.prefix_of_prefix_length_le ?_ hclosing.accepted hcount.1)
  rw [hqueue'.accepted]
  exact List.prefix_append _ _

/-- Two messages are queued, one of them found, and a byte received, when `stop_flag` is set. -/
def stoppedRun : List IngestAction :=
  [.push .lora [3], .pushing, .pushing, .push .bt [4], .pushing, .pushing, .receive (readAt 1000 []),
    .receive (readAt 1000 [1]), .receive (readAt 1000 []), .receive (readAt 1000 [])] ++
    List.replicate 3 (.write ⟨.setTime, true⟩) ++ [.stop]

/-- The message found is logged, and the byte received is put in the FIFO. -/
def closingRun : List IngestAction :=
  List.replicate 4 (.write ⟨.setTime, true⟩) ++ List.replicate 6 (.receive (readAt 1000 []))

theorem ingest_shutdown_three :
    ∃ s s' : Ingest, s.fifo.accepted.length = 2 ∧ s'.fifo.accepted.length = 3 ∧ s'.handled.length = 1 ∧
      (∃ new, s'.handled = s.handled ++ new ∧ new.length ≤ 1) ∧ s'.handled.map (·.msg) <+: s.fifo.accepted := by
  have h : ((runList Ingest.step (fun _ _ => true) (.boot (Vector.replicate fifoSize 0)) stoppedRun).bind fun s =>
      (runList Ingest.step (fun _ _ => true) s closingRun).map fun s' =>
        (s.stopFlag, s.fifo.accepted.length, s'.fifo.accepted.length, s'.handled.length)) = some (true, 2, 3, 1) := by
    decide +kernel
  obtain ⟨s, hrun, h⟩ := Option.bind_eq_some_iff.mp h
  obtain ⟨s', hrun', heq⟩ := Option.map_eq_some_iff.mp h
  simp only [Prod.mk.injEq] at heq
  exact ⟨s, s', heq.2.1, heq.2.2.1, heq.2.2.2, ingest_shutdown (.of_runList (fun _ _ _ => trivial) .start hrun) heq.1
    (.of_runList (fun _ _ _ => trivial) .start hrun')⟩

end Dtu
