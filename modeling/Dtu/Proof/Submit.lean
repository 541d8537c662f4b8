import Dtu.Impl.Submit
import Dtu.Proof.Kfifo
import Dtu.Proof.Serial

/-!
# What `submit_frame` puts of a frame

`submit_frame` tests the room for each part on its own. `Submission.Access` is what one
access can do, `Submission.Follows` what holds after each: the parts before the first one
that has found the FIFO full are put, in order, whatever other threads do between them
(`submission_put`). Left alone it puts as many parts as there is room for
(`Submission.Follows.alone`), so a FIFO that is nearly full gets only the first part of a
long frame (`submission_torn`).
-/

namespace Dtu

variable {ι : Type}

/-- As many messages fit in the FIFO. -/
abbrev fifoMessages : Nat := fifoSize / messageSize.toNat

/-! ## The FIFO -/

/-- What has been put is what an access puts, behind what was. -/
theorem DataFifo.step_accepted {s s' : DataFifo ι} {action : FifoAction ι} (hs : s.step action = some s') :
    s'.accepted = s.accepted ++ (s.putting action).map Prod.snd := by
  cases DataFifo.access_of_step hs with
  | lockPut _ | lockGet _ | stop _ => exact (List.append_nil _).symm
  | full hholder _ | room hholder _ | put hholder | empty hholder _ | found hholder _ | get hholder =>
    simp [DataFifo.putting, hholder]

/-- The messages queued. -/
theorem DataFifo.Queue.len_div {s : DataFifo ι} {pending : List FifoMessage} (h : s.Queue pending) :
    (kfifoLen s.fifo).toNat / messageSize.toNat = pending.length := by
  rw [h.toNat_len]
  exact Nat.mul_div_cancel_left _ (by decide)

/-- `kfifo_left` finds no room for a message when the FIFO holds as many as fit. -/
theorem DataFifo.Queue.left_lt_iff {s : DataFifo ι} {pending : List FifoMessage} (h : s.Queue pending) :
    kfifoLeft s.fifo < messageSize ↔ fifoMessages ≤ pending.length := by
  have hlen : (s.fifo.in_ - s.fifo.out).toNat = messageSize.toNat * pending.length := h.toNat_len
  have hle := h.valid.le
  have hsize : s.fifo.size.toNat = 16384 := by rw [h.size]; rfl
  have hmessage : messageSize.toNat = 272 := rfl
  rw [hmessage] at hlen
  rw [hlen, hsize] at hle
  rw [UInt32.lt_iff_toNat_lt, h.valid.toNat_left, hlen, hsize, hmessage, show fifoMessages = 60 from rfl]
  omega

/-- With room a producer puts its message when no other thread takes the lock. -/
theorem DataFifo.Queue.putAlone {s : DataFifo ι} {pending : List FifoMessage} (h : s.Queue pending)
    (hfree : s.holder = .free) (hroom : pending.length < fifoMessages) (producer : ι) (msg : FifoMessage) :
    ∃ s', s.step (.lockPut producer msg) = some { s with holder := .testLeft producer msg } ∧
      { s with holder := .testLeft producer msg }.step .resume = some { s with holder := .put producer msg } ∧
      { s with holder := .put producer msg }.step .resume = some s' ∧ s'.holder = .free ∧
      s'.accepted = s.accepted ++ [msg] ∧ s'.Queue (pending ++ [msg]) := by
  have hleft : ¬kfifoLeft s.fifo < messageSize := by
    rw [h.left_lt_iff]
    omega
  have hput : ({ s with holder := .put producer msg } : DataFifo ι).Queue pending :=
    h.hold (fun _ _ _ => UInt32.not_lt.mp hleft) (by simp)
  refine ⟨_, ?_, ?_, rfl, rfl, rfl, hput.put rfl rfl⟩
  · simp only [DataFifo.step, hfree]
  · simp only [DataFifo.step, if_neg hleft]

/-- A producer fills the FIFO when nothing else happens. -/
theorem DataFifo.Queue.fill {s : DataFifo ι} {pending : List FifoMessage} (h : s.Queue pending)
    (hfree : s.holder = .free) (producer : ι) (msg : FifoMessage) {n : Nat} (hroom : pending.length + n ≤ fifoMessages) :
    ∃ s', s.run (List.replicate n [.lockPut producer msg, .resume, .resume]).flatten = some s' ∧
      s'.holder = .free ∧ s'.Queue (pending ++ List.replicate n msg) := by
  induction n generalizing s pending with
  | zero =>
    refine ⟨s, rfl, hfree, ?_⟩
    rw [List.replicate_zero, List.append_nil]
    exact h
  | succ n ih =>
    obtain ⟨s₁, hlock, htest, hput, hfree₁, -, h₁⟩ := h.putAlone hfree (by omega) producer msg
    obtain ⟨s', hrun, hfree', h'⟩ := ih h₁ hfree₁ (by rw [List.length_append, List.length_singleton]; omega)
    refine ⟨s', ?_, hfree', ?_⟩
    · rw [List.replicate_succ, List.flatten_cons, DataFifo.run, List.foldlM_append]
      simp only [List.foldlM_cons, List.foldlM_nil, Option.bind_eq_bind, hlock, htest, hput, Option.bind_some]
      exact hrun
    · rw [List.replicate_succ, ← List.singleton_append, ← List.append_assoc]
      exact h'

/-! ## One access -/

namespace Submission

variable {s s' : Submission ι}

/-- What an access does: the loop of `submit_frame` ends, or takes the lock, or finds room
for its message or none, or puts it; or the access is that of another thread. -/
inductive Access (s : Submission ι) : Submission ι → Prop
  | leave (hfinished : s.finished = false) (hrest : s.rest = []) : Access s { s with finished := true }
  | lock (hfinished : s.finished = false) (hrest : s.rest ≠ []) (hfree : s.fifo.holder = .free) :
      Access s { s with fifo := { s.fifo with holder := .testLeft none s.msg } }
  | room {msg : FifoMessage} (hfinished : s.finished = false) (hrest : s.rest ≠ [])
      (hholder : s.fifo.holder = .testLeft none msg) (hleft : ¬kfifoLeft s.fifo.fifo < messageSize) :
      Access s { s with
        fifo := { s.fifo with holder := .put none msg }
        fills := s.fills ++ [(kfifoLen s.fifo.fifo).toNat / messageSize.toNat] }
  | full {msg : FifoMessage} (hfinished : s.finished = false) (hrest : s.rest ≠ [])
      (hholder : s.fifo.holder = .testLeft none msg) (hleft : kfifoLeft s.fifo.fifo < messageSize) :
      Access s { s with
        fifo := { s.fifo with holder := .free }
        finished := true
        fills := s.fills ++ [(kfifoLen s.fifo.fifo).toNat / messageSize.toNat] }
  | put {msg : FifoMessage} {fifo : DataFifo (Option ι)} (hfinished : s.finished = false) (hrest : s.rest ≠ [])
      (hholder : s.fifo.holder = .put none msg) (hs : s.fifo.step .resume = some fifo) (hfree : fifo.holder = .free) :
      Access s { s with
        fifo := fifo
        puts := s.puts ++ [(none, msg)]
        rest := s.rest.drop 256
        partIndex := s.partIndex + 1 }
  | other {action : FifoAction (Option ι)} {fifo : DataFifo (Option ι)} (hlock : s.fifo.holder.submits = false)
      (hs : s.fifo.step action = some fifo) (hlock' : fifo.holder.submits = false)
      (hputs : ∀ p ∈ s.fifo.putting action, p.1 ≠ none) :
      Access s { s with fifo := fifo, puts := s.puts ++ s.fifo.putting action }

theorem access_submit (hs : s.submit = some s') : s.Access s' := by
  unfold submit at hs
  split at hs
  · cases hs
  rename_i hfinished
  rw [Bool.not_eq_true] at hfinished
  split at hs
  · rename_i hrest
    cases hs
    exact .leave hfinished hrest
  rename_i hrest
  split at hs
  · rename_i hfree
    simp only [access, DataFifo.step, hfree, Option.map_some, Option.some.injEq] at hs
    subst hs
    simp only [DataFifo.putting, List.append_nil]
    exact .lock hfinished hrest hfree
  · rename_i msg hholder
    by_cases hleft : kfifoLeft s.fifo.fifo < messageSize
    · simp only [access, DataFifo.step, hholder, if_pos hleft, Option.map_some, Option.some.injEq, decide_eq_true hleft,
        DataFifo.putting, List.append_nil] at hs
      subst hs
      exact .full hfinished hrest hholder hleft
    · simp only [access, DataFifo.step, hholder, if_neg hleft, Option.map_some, Option.some.injEq,
        decide_eq_false hleft, DataFifo.putting, List.append_nil] at hs
      subst hs
      have hroom := Access.room hfinished hrest hholder hleft
      rwa [← hfinished]
  · rename_i msg hholder
    simp only [access, DataFifo.step, hholder, Option.map_some, Option.some.injEq, DataFifo.putting] at hs
    subst hs
    exact .put hfinished hrest hholder (by simp only [DataFifo.step, hholder]) rfl
  · cases hs

/-- What is done at the lock by no access of its holder is done when `submit_frame` does not
hold it. -/
theorem submits_eq_false_of_step {fifo fifo' : DataFifo (Option ι)} {action : FifoAction (Option ι)}
    (hs : fifo.step action = some fifo') (hne : action ≠ .resume) : fifo.holder.submits = false := by
  cases DataFifo.access_of_step hs with
  | lockPut hfree | lockGet hfree => rw [hfree]; rfl
  | stop hholder => rw [hholder]; rfl
  | full _ _ | room _ _ | put _ | empty _ _ | found _ _ | get _ => exact absurd rfl hne

/-- Another thread does what it does at the lock while `submit_frame` does not hold it. -/
theorem access_other {action : FifoAction (Option ι)} (hs : s.access action = some s')
    (hresume : action = .resume → s.fifo.holder.submits = false) (hother : ∀ msg, action ≠ .lockPut none msg) :
    s.Access s' := by
  obtain ⟨fifo, hstep, rfl⟩ := Option.map_eq_some_iff.mp hs
  have hlock : s.fifo.holder.submits = false := by
    by_cases heq : action = .resume
    · exact hresume heq
    · exact submits_eq_false_of_step hstep heq
  have haccess := DataFifo.access_of_step hstep
  refine .other hlock hstep ?_ ?_
  · cases haccess with
    | @lockPut producer msg _ =>
      cases producer with
      | none => exact absurd rfl (hother msg)
      | some _ => rfl
    | @room producer _ hholder _ =>
      rw [hholder] at hlock
      cases producer with
      | none => cases hlock
      | some _ => rfl
    | lockGet _ | stop _ | full _ _ | put _ | empty _ _ | found _ _ | get _ => rfl
  · intro p hp
    cases haccess with
    | @put producer _ hholder =>
      rw [hholder] at hlock
      simp only [DataFifo.putting, hholder, List.mem_singleton] at hp
      subst hp
      cases producer with
      | none => cases hlock
      | some _ => exact Option.some_ne_none _
    | lockPut _ | lockGet _ | stop _ => cases hp
    | full hholder _ | room hholder _ | empty hholder _ | found hholder _ | get hholder =>
      simp only [DataFifo.putting, hholder, List.not_mem_nil] at hp

theorem access_step {action : SubmitAction ι} {e : Unit} (hs : s.step action = some (s', e)) : s.Access s' := by
  cases action with
  | submit =>
    obtain ⟨_, hsubmit, heq⟩ := Option.map_eq_some_iff.mp hs
    cases heq
    exact access_submit hsubmit
  | other action =>
    cases action with
    | lockPut _ _ | lockGet | stop =>
      obtain ⟨_, haccess, heq⟩ := Option.map_eq_some_iff.mp hs
      cases heq
      exact access_other haccess (by simp) (by simp)
    | resume =>
      rw [step] at hs
      split at hs
      · cases hs
      rename_i hlock
      obtain ⟨_, haccess, heq⟩ := Option.map_eq_some_iff.mp hs
      cases heq
      exact access_other haccess (fun _ => by simpa using hlock) (by simp)

/-! ## What every access keeps -/

/-- The FIFO has not been full at `k` tests. -/
def Roomy (fills : List Nat) (k : Nat) : Prop := fills.length = k ∧ ∀ n ∈ fills, n < fifoMessages

/-- Where the call is, and what its tests have found. -/
inductive Phase (s : Submission ι) : Prop
  | unlocked (hfinished : s.finished = false) (hlock : s.fifo.holder.submits = false)
      (hfills : Roomy s.fills s.partIndex)
  | testing (hfinished : s.finished = false) (hrest : s.rest ≠ []) (hholder : s.fifo.holder = .testLeft none s.msg)
      (hfills : Roomy s.fills s.partIndex)
  | putting (hfinished : s.finished = false) (hrest : s.rest ≠ []) (hholder : s.fifo.holder = .put none s.msg)
      (hfills : Roomy s.fills (s.partIndex + 1))
  | complete (hfinished : s.finished = true) (hlock : s.fifo.holder.submits = false) (hrest : s.rest = [])
      (hfills : Roomy s.fills s.partIndex)
  | dropped (hfinished : s.finished = true) (hlock : s.fifo.holder.submits = false) (hrest : s.rest ≠ [])
      {fills : List Nat} {n : Nat} (heq : s.fills = fills ++ [n]) (hfills : Roomy fills s.partIndex)
      (hfull : fifoMessages ≤ n)

/-- The call has put the parts before `part_index`; `accepted` was put before it. -/
structure Follows (s : Submission ι) (accepted : List FifoMessage) (dataType frameId : UInt32)
    (frame : List UInt8) : Prop where
  type : s.dataType = dataType
  id : s.frameId = frameId
  count : s.partCount = (frame.length + 255) / 256
  rest : s.rest = frame.drop (256 * s.partIndex)
  le : s.partIndex ≤ (frame.length + 255) / 256
  put : s.put = (List.range s.partIndex).map (framePart dataType frameId frame)
  queue : ∃ pending, s.fifo.Queue pending
  accepted : s.fifo.accepted = accepted ++ s.puts.map Prod.snd
  phase : s.Phase

variable {accepted : List FifoMessage} {dataType frameId : UInt32} {frame : List UInt8}

theorem Follows.msg_eq (h : s.Follows accepted dataType frameId frame) :
    s.msg = framePart dataType frameId frame s.partIndex := by
  rw [msg, framePart, h.type, h.id, h.count, h.rest]

/-- Some of the frame is left when `part_index` is less than `part_count`. -/
theorem Follows.rest_eq_nil_iff (h : s.Follows accepted dataType frameId frame) :
    s.rest = [] ↔ (frame.length + 255) / 256 ≤ s.partIndex := by
  rw [h.rest, List.drop_eq_nil_iff]
  omega

theorem Roomy.concat {fills : List Nat} {k n : Nat} (h : Roomy fills k) (hn : n < fifoMessages) :
    Roomy (fills ++ [n]) (k + 1) := by
  refine ⟨by rw [List.length_append, List.length_singleton, h.1], fun m hm => ?_⟩
  rcases List.mem_append.mp hm with hm | hm
  · exact h.2 m hm
  · rw [List.mem_singleton.mp hm]
    exact hn

/-- An access of another thread leaves the call where it is. -/
theorem Phase.other (h : s.Phase) (hlock : s.fifo.holder.submits = false) {fifo : DataFifo (Option ι)}
    (hlock' : fifo.holder.submits = false) (puts : List (Option ι × FifoMessage)) :
    { s with fifo := fifo, puts := puts }.Phase := by
  cases h with
  | unlocked hfinished _ hfills => exact .unlocked hfinished hlock' hfills
  | testing _ _ hholder _ | putting _ _ hholder _ =>
    rw [hholder] at hlock
    cases hlock
  | complete hfinished _ hrest hfills => exact .complete hfinished hlock' hrest hfills
  | dropped hfinished _ hrest heq hfills hfull => exact .dropped hfinished hlock' hrest heq hfills hfull

/-- Between its accesses the call waits for the lock, and holds it to test or put what is next. -/
theorem Phase.of_free (h : s.Phase) (hfinished : s.finished = false) (hfree : s.fifo.holder = .free) :
    Roomy s.fills s.partIndex := by
  cases h with
  | unlocked _ _ hfills => exact hfills
  | testing _ _ hholder _ | putting _ _ hholder _ =>
    rw [hfree] at hholder
    cases hholder
  | complete hreturned _ _ _ | dropped hreturned _ _ _ _ _ =>
    rw [hfinished] at hreturned
    cases hreturned

theorem Phase.of_testLeft (h : s.Phase) {msg : FifoMessage} (hholder : s.fifo.holder = .testLeft none msg) :
    msg = s.msg ∧ Roomy s.fills s.partIndex := by
  cases h with
  | testing _ _ htesting hfills =>
    rw [hholder] at htesting
    cases htesting
    exact ⟨rfl, hfills⟩
  | putting _ _ hputting _ =>
    rw [hholder] at hputting
    cases hputting
  | unlocked _ hlock _ | complete _ hlock _ _ | dropped _ hlock _ _ _ _ =>
    rw [hholder] at hlock
    cases hlock

theorem Phase.of_put (h : s.Phase) {msg : FifoMessage} (hholder : s.fifo.holder = .put none msg) :
    msg = s.msg ∧ Roomy s.fills (s.partIndex + 1) := by
  cases h with
  | putting _ _ hputting hfills =>
    rw [hholder] at hputting
    cases hputting
    exact ⟨rfl, hfills⟩
  | testing _ _ htesting _ =>
    rw [hholder] at htesting
    cases htesting
  | unlocked _ hlock _ | complete _ hlock _ _ | dropped _ hlock _ _ _ _ =>
    rw [hholder] at hlock
    cases hlock

theorem put_append {puts : List (Option ι × FifoMessage)} (h : s'.puts = s.puts ++ puts) :
    s'.put = s.put ++ puts.filterMap fun p => if p.1.isNone then some p.2 else none := by
  rw [put, put, h, List.filterMap_append]

/-- Messages of other threads are not of the frame. -/
theorem filterMap_put_eq_nil {puts : List (Option ι × FifoMessage)} (h : ∀ p ∈ puts, p.1 ≠ none) :
    (puts.filterMap fun p => if p.1.isNone then some p.2 else none) = [] := by
  apply List.filterMap_eq_nil_iff.mpr
  intro p hp
  rw [if_neg]
  rw [Option.isNone_iff_eq_none]
  exact h p hp

/-- Each access keeps it. -/
theorem Follows.access (h : s.Follows accepted dataType frameId frame) (hs : s.Access s') :
    s'.Follows accepted dataType frameId frame := by
  obtain ⟨pending, hqueue⟩ := h.queue
  cases hs with
  | leave hfinished hrest =>
    refine { h with phase := ?_ }
    cases h.phase with
    | unlocked _ hlock hfills => exact .complete rfl hlock hrest hfills
    | testing _ hne _ _ | putting _ hne _ _ => exact absurd hrest hne
    | complete hreturned _ _ _ | dropped hreturned _ _ _ _ _ =>
      rw [hfinished] at hreturned
      cases hreturned
  | lock hfinished hrest hfree =>
    exact { h with
      queue := ⟨pending, hqueue.hold (by simp) (by simp)⟩
      phase := .testing hfinished hrest rfl (h.phase.of_free hfinished hfree) }
  | room hfinished hrest hholder hleft =>
    obtain ⟨rfl, hfills⟩ := h.phase.of_testLeft hholder
    have hroom : pending.length < fifoMessages := Nat.lt_of_not_le fun hle => hleft (hqueue.left_lt_iff.mpr hle)
    exact { h with
      queue := ⟨pending, hqueue.hold (fun _ _ _ => UInt32.not_lt.mp hleft) (by simp)⟩
      phase := .putting hfinished hrest rfl (hfills.concat (hqueue.len_div ▸ hroom)) }
  | full hfinished hrest hholder hleft =>
    obtain ⟨-, hfills⟩ := h.phase.of_testLeft hholder
    exact { h with
      queue := ⟨pending, hqueue.hold (by simp) (by simp)⟩
      phase := .dropped rfl rfl hrest rfl hfills (hqueue.len_div ▸ hqueue.left_lt_iff.mp hleft) }
  | put hfinished hrest hholder hs hfree =>
    obtain ⟨rfl, hfills⟩ := h.phase.of_put hholder
    have hlt : s.partIndex < (frame.length + 255) / 256 := Nat.lt_of_not_le fun hle => hrest (h.rest_eq_nil_iff.mpr hle)
    exact
      { type := h.type
        id := h.id
        count := h.count
        rest := by
          show s.rest.drop 256 = frame.drop (256 * (s.partIndex + 1))
          rw [h.rest, List.drop_drop, Nat.mul_succ]
        le := hlt
        put := by
          rw [List.range_succ, List.map_append, ← h.put, List.map_singleton, ← h.msg_eq]
          exact @put_append _ s _ [(none, s.msg)] rfl
        queue := ⟨_, hqueue.put hholder hs⟩
        accepted := by
          rw [DataFifo.step_accepted hs, h.accepted, List.map_append, List.append_assoc]
          simp only [DataFifo.putting, hholder]
        phase := .unlocked hfinished (by rw [hfree]; rfl) hfills }
  | other hlock hs hlock' hputs =>
    exact { h with
      put := by
        refine (put_append rfl).trans ?_
        rw [filterMap_put_eq_nil hputs, List.append_nil]
        exact h.put
      queue := hqueue.step hs
      accepted := by rw [DataFifo.step_accepted hs, h.accepted, List.map_append, List.append_assoc]
      phase := h.phase.other hlock hlock' _ }

theorem follows_start {d : DataFifo (Option ι)} {pending : List FifoMessage} (hqueue : d.Queue pending)
    (hlock : d.holder.submits = false) (dataType gLogFrameId : UInt32) {frame : List UInt8} (hne : frame ≠ [])
    (hbyte : ¬isGarbageData frame = true) :
    (start d dataType gLogFrameId frame).Follows d.accepted dataType (logNextFrameId gLogFrameId).1 frame where
  type := rfl
  id := rfl
  count := rfl
  rest := rfl
  le := Nat.zero_le _
  put := rfl
  queue := ⟨pending, hqueue⟩
  accepted := (List.append_nil _).symm
  phase := by
    refine .unlocked ?_ hlock ⟨rfl, fun _ hn => nomatch hn⟩
    rw [start, decide_eq_false hne, Bool.false_or]
    exact Bool.not_eq_true _ ▸ hbyte

theorem Follows.run {s₀ : Submission ι} {ok : Submission ι → SubmitAction ι → Prop}
    (h : s₀.Follows accepted dataType frameId frame) (hrun : Runs step ok s₀ s) :
    s.Follows accepted dataType frameId frame :=
  hrun.invariant (I := fun s => s.Follows accepted dataType frameId frame) h
    fun _ _ _ _ hfollows _ hs => hfollows.access (access_step hs)

/-! ## The call returns -/

theorem takeWhile_roomy {fills : List Nat} {k n : Nat} (h : Roomy fills k) (hn : fifoMessages ≤ n) :
    (fills.takeWhile (· < fifoMessages)).length = k ∧ ((fills ++ [n]).takeWhile (· < fifoMessages)).length = k := by
  have hall : fills.takeWhile (· < fifoMessages) = fills := by
    rw [List.takeWhile_eq_self_iff]
    intro m hm
    exact decide_eq_true (h.2 m hm)
  constructor
  · rw [hall, h.1]
  · rw [List.takeWhile_append, if_pos (congrArg List.length hall), List.takeWhile_cons,
      if_neg (by rw [decide_eq_true_eq]; omega), List.append_nil, h.1]

/-- A call that has returned is through its frame, or its last test has found the FIFO full. -/
theorem Phase.returned (h : s.Phase) (hfinished : s.finished = true) :
    (s.rest = [] ∧ Roomy s.fills s.partIndex) ∨
      (s.rest ≠ [] ∧ ∃ fills n, s.fills = fills ++ [n] ∧ Roomy fills s.partIndex ∧ fifoMessages ≤ n) := by
  cases h with
  | unlocked hworks _ _ | testing hworks _ _ _ | putting hworks _ _ _ =>
    rw [hfinished] at hworks
    cases hworks
  | complete _ _ hrest hfills => exact .inl ⟨hrest, hfills⟩
  | dropped _ _ hrest heq hfills hfull => exact .inr ⟨hrest, _, _, heq, hfills, hfull⟩

/-- The parts put are as many as the tests before one that has found the FIFO full. -/
theorem Phase.length_takeWhile (h : s.Phase) (hfinished : s.finished = true) :
    (s.fills.takeWhile (· < fifoMessages)).length = s.partIndex := by
  rcases h.returned hfinished with ⟨-, hfills⟩ | ⟨-, fills, n, heq, hfills, hfull⟩
  · exact (takeWhile_roomy hfills (Nat.le_refl _)).1
  · rw [heq]
    exact (takeWhile_roomy hfills hfull).2

/-- So a test has found room for part `j` if the part has been put. -/
theorem Phase.getD_fills (h : s.Phase) (hfinished : s.finished = true) :
    (∀ j < s.partIndex, s.fills.getD j fifoMessages < fifoMessages) ∧
      fifoMessages ≤ s.fills.getD s.partIndex fifoMessages := by
  rcases h.returned hfinished with ⟨-, hlength, hall⟩ | ⟨-, fills, n, heq, ⟨hlength, hall⟩, hfull⟩
  · constructor
    · intro j hj
      rw [List.getD_eq_getElem _ _ (hlength ▸ hj)]
      exact hall _ (List.getElem_mem _)
    · rw [List.getD_eq_default _ _ (Nat.le_of_eq hlength)]
  · rw [heq, ← hlength]
    constructor
    · intro j hj
      rw [List.getD_append _ _ _ _ hj, List.getD_eq_getElem _ _ hj]
      exact hall _ (List.getElem_mem _)
    · rw [List.getD_append_right _ _ _ _ (Nat.le_refl _), Nat.sub_self]
      exact hfull

/-- All parts are put if no test has found the FIFO full. -/
theorem Follows.complete_iff (h : s.Follows accepted dataType frameId frame) (hfinished : s.finished = true) :
    s.partIndex = (frame.length + 255) / 256 ↔ ∀ n ∈ s.fills, n < fifoMessages := by
  have hle := h.le
  rcases h.phase.returned hfinished with ⟨hrest, hfills⟩ | ⟨hrest, fills, n, heq, -, hfull⟩
  · have hge := h.rest_eq_nil_iff.mp hrest
    exact iff_of_true (Nat.le_antisymm hle hge) hfills.2
  · rw [Ne, h.rest_eq_nil_iff] at hrest
    refine iff_of_false (by omega) fun hall => ?_
    have := hall n (by rw [heq]; exact List.mem_append_right _ List.mem_cons_self)
    omega

/-- None is put if the first test has. -/
theorem Follows.none_iff (h : s.Follows accepted dataType frameId frame) (hne : frame ≠ [])
    (hfinished : s.finished = true) : s.partIndex = 0 ↔ ∃ n ∈ s.fills.head?, fifoMessages ≤ n := by
  have hpos := List.length_pos_iff.mpr hne
  rcases h.phase.returned hfinished with ⟨hrest, hfills⟩ | ⟨-, fills, n, heq, ⟨hlength, hall⟩, hfull⟩
  · have hge := h.rest_eq_nil_iff.mp hrest
    refine iff_of_false (by omega) fun hhead => ?_
    obtain ⟨n, hn, hfull⟩ := hhead
    have := hfills.2 n (List.mem_of_mem_head? hn)
    omega
  · rw [heq, ← hlength]
    cases fills with
    | nil => exact iff_of_true rfl ⟨n, rfl, hfull⟩
    | cons m fills =>
      refine iff_of_false (Nat.succ_ne_zero _) fun hhead => ?_
      obtain ⟨_, hm, hfull⟩ := hhead
      cases hm
      have := hall m List.mem_cons_self
      omega

/-! ## The call alone -/

theorem submit_of_rest_eq_nil (hfinished : s.finished = false) (hrest : s.rest = []) :
    s.step .submit = some ({ s with finished := true }, ()) := by
  simp only [step, submit, hfinished, Bool.false_eq_true, if_false, if_pos hrest, Option.map_some]

theorem submit_of_free (hfinished : s.finished = false) (hrest : s.rest ≠ []) (hfree : s.fifo.holder = .free) :
    s.step .submit = some ({ s with fifo := { s.fifo with holder := .testLeft none s.msg } }, ()) := by
  simp only [step, submit, hfinished, Bool.false_eq_true, if_false, if_neg hrest, hfree, Submission.access,
    DataFifo.step, DataFifo.putting, List.append_nil, Option.map_some]

theorem submit_of_room (hfinished : s.finished = false) (hrest : s.rest ≠ []) {msg : FifoMessage}
    (hholder : s.fifo.holder = .testLeft none msg) (hleft : ¬kfifoLeft s.fifo.fifo < messageSize) :
    s.step .submit = some
      ({ s with
          fifo := { s.fifo with holder := .put none msg }
          fills := s.fills ++ [(kfifoLen s.fifo.fifo).toNat / messageSize.toNat] }, ()) := by
  simp only [step, submit, hfinished, Bool.false_eq_true, if_false, if_neg hrest, hholder, Submission.access,
    DataFifo.step, if_neg hleft, DataFifo.putting, List.append_nil, Option.map_some, decide_eq_false hleft]

theorem submit_of_full (hfinished : s.finished = false) (hrest : s.rest ≠ []) {msg : FifoMessage}
    (hholder : s.fifo.holder = .testLeft none msg) (hleft : kfifoLeft s.fifo.fifo < messageSize) :
    s.step .submit = some
      ({ s with
          fifo := { s.fifo with holder := .free }
          finished := true
          fills := s.fills ++ [(kfifoLen s.fifo.fifo).toNat / messageSize.toNat] }, ()) := by
  simp only [step, submit, hfinished, Bool.false_eq_true, if_false, if_neg hrest, hholder, Submission.access,
    DataFifo.step, if_pos hleft, DataFifo.putting, List.append_nil, Option.map_some, decide_eq_true hleft]

theorem submit_of_put (hfinished : s.finished = false) (hrest : s.rest ≠ []) {msg : FifoMessage}
    (hholder : s.fifo.holder = .put none msg) :
    ∃ fifo, s.fifo.step .resume = some fifo ∧ fifo.holder = .free ∧
      s.step .submit = some
        ({ s with
            fifo := fifo
            puts := s.puts ++ [(none, msg)]
            rest := s.rest.drop 256
            partIndex := s.partIndex + 1 }, ()) := by
  refine ⟨{ s.fifo with
    fifo := (kfifoPut s.fifo.fifo msg.bytes messageSize).1
    holder := .free
    accepted := s.fifo.accepted ++ [msg] }, by simp only [DataFifo.step, hholder], rfl, ?_⟩
  simp only [step, submit, hfinished, Bool.false_eq_true, if_false, if_neg hrest, hholder, Submission.access,
    DataFifo.step, DataFifo.putting, Option.map_some]

variable {ok : Submission ι → SubmitAction ι → Prop} {s₀ : Submission ι}

/-- With room the next part is put when no other thread takes the lock. -/
theorem Follows.putAlone (hok : ∀ s, ok s .submit) (hrun : Runs step ok s₀ s)
    (h : s.Follows accepted dataType frameId frame) (hfinished : s.finished = false) (hrest : s.rest ≠ [])
    (hfree : s.fifo.holder = .free) {pending : List FifoMessage} (hqueue : s.fifo.Queue pending)
    (hroom : pending.length < fifoMessages) :
    ∃ s', Runs step ok s₀ s' ∧ s'.Follows accepted dataType frameId frame ∧ s'.finished = false ∧
      s'.fifo.holder = .free ∧ s'.partIndex = s.partIndex + 1 ∧ s'.put = s.put ++ [s.msg] ∧
      s'.fifo.Queue (pending ++ [s.msg]) := by
  have hleft : ¬kfifoLeft s.fifo.fifo < messageSize := by
    rw [hqueue.left_lt_iff]
    omega
  have hlock := hrun.step (hok s) (submit_of_free hfinished hrest hfree)
  have h₁ := h.access (.lock hfinished hrest hfree)
  have hfound := submit_of_room (s := { s with fifo := { s.fifo with holder := .testLeft none s.msg } }) hfinished hrest
    rfl hleft
  have h₂ := h₁.access (.room hfinished hrest rfl hleft)
  have hqueue₂ : ({ s.fifo with holder := .put none s.msg } : DataFifo (Option ι)).Queue pending :=
    hqueue.hold (fun _ _ _ => UInt32.not_lt.mp hleft) (by simp)
  obtain ⟨fifo, hs, hfree', hput⟩ := submit_of_put (s := { s with
    fifo := { s.fifo with holder := .put none s.msg }
    fills := s.fills ++ [(kfifoLen s.fifo.fifo).toNat / messageSize.toNat] }) hfinished hrest rfl
  exact ⟨_, (hlock.step (hok _) hfound).step (hok _) hput, h₂.access (.put hfinished hrest rfl hs hfree'), hfinished,
    hfree', rfl, @put_append _ s _ [(none, s.msg)] rfl, hqueue₂.put rfl hs⟩

/-- A call that no other thread interrupts puts as many parts as there is room for. -/
theorem Follows.alone (hok : ∀ s, ok s .submit) (hrun : Runs step ok s₀ s)
    (h : s.Follows accepted dataType frameId frame) (hfinished : s.finished = false)
    (hfree : s.fifo.holder = .free) {pending : List FifoMessage} (hqueue : s.fifo.Queue pending) :
    ∃ s' new, Runs step ok s₀ s' ∧ s'.finished = true ∧ s'.Follows accepted dataType frameId frame ∧
      s'.partIndex = min ((frame.length + 255) / 256) (s.partIndex + (fifoMessages - pending.length)) ∧
      s'.put = s.put ++ new ∧ s'.fifo.Queue (pending ++ new) := by
  -- By induction on the parts left.
  obtain ⟨n, hn⟩ : ∃ n, (frame.length + 255) / 256 - s.partIndex = n := ⟨_, rfl⟩
  have hle := h.le
  induction n generalizing s pending with
  | zero =>
    have hrest : s.rest = [] := h.rest_eq_nil_iff.mpr (by omega)
    have hleave := Access.leave hfinished hrest
    refine ⟨_, [], hrun.step (hok s) (submit_of_rest_eq_nil hfinished hrest), rfl, h.access hleave, ?_,
      (List.append_nil _).symm, ?_⟩
    · show s.partIndex = _
      omega
    · rw [List.append_nil]
      exact hqueue
  | succ n ih =>
    have hrest : s.rest ≠ [] := by
      rw [Ne, h.rest_eq_nil_iff]
      omega
    by_cases hroom : pending.length < fifoMessages
    · obtain ⟨s₁, hrun₁, h₁, hfinished₁, hfree₁, hindex₁, hput₁, hqueue₁⟩ :=
        h.putAlone hok hrun hfinished hrest hfree hqueue hroom
      have hlength : (pending ++ [s.msg]).length = pending.length + 1 := List.length_append
      obtain ⟨s', new, hrun', hfinished', h', hindex', hput', hqueue'⟩ :=
        ih hrun₁ h₁ hfinished₁ hfree₁ hqueue₁ (by omega) h₁.le
      refine ⟨s', s.msg :: new, hrun', hfinished', h', ?_, ?_, ?_⟩
      · rw [hindex', hindex₁, hlength]
        omega
      · rw [hput', hput₁, List.append_assoc, List.singleton_append]
      · rw [List.append_assoc, List.singleton_append] at hqueue'
        exact hqueue'
    · have hleft := hqueue.left_lt_iff.mpr (Nat.le_of_not_lt hroom)
      have hlock := hrun.step (hok s) (submit_of_free hfinished hrest hfree)
      have hfull := submit_of_full (s := { s with fifo := { s.fifo with holder := .testLeft none s.msg } }) hfinished
        hrest rfl hleft
      refine ⟨_, [], hlock.step (hok _) hfull, rfl,
        (h.access (.lock hfinished hrest hfree)).access (.full hfinished hrest rfl hleft), ?_,
        (List.append_nil _).symm, ?_⟩
      · show s.partIndex = _
        omega
      · rw [List.append_nil]
        exact hqueue.hold (by simp) (by simp)

end Submission

/-! ## The parts put -/

/-- A frame with a byte that is not zero is submitted. -/
theorem not_isGarbageData {frame : List UInt8} (hbyte : ∃ b ∈ frame, b ≠ 0) :
    frame ≠ [] ∧ ¬isGarbageData frame = true := by
  have hne : frame ≠ [] := by
    rintro rfl
    obtain ⟨_, hmem, -⟩ := hbyte
    cases hmem
  refine ⟨hne, ?_⟩
  rw [isGarbageData_iff hne]
  simpa using hbyte

section

variable {fifoBuffer : Vector UInt8 fifoSize} {actions : List (FifoAction (Option ι))} {d : DataFifo (Option ι)}
  {gLogFrameId dataType : UInt32} {frame : List UInt8} {s : Submission ι}

theorem submission_follows (hd : (DataFifo.init (Option ι) fifoBuffer).run actions = some d)
    (hlock : d.holder.submits = false) (hbyte : ∃ b ∈ frame, b ≠ 0)
    (hrun : Runs Submission.step (fun _ _ => True) (.start d dataType gLogFrameId frame) s) :
    s.Follows d.accepted dataType (logNextFrameId gLogFrameId).1 frame := by
  obtain ⟨hne, hgarbage⟩ := not_isGarbageData hbyte
  obtain ⟨_, hqueue⟩ := (DataFifo.queue_init (Option ι) fifoBuffer).run hd
  exact (Submission.follows_start hqueue hlock dataType gLogFrameId hne hgarbage).run hrun

/-- The parts put are those of the frame before `part_index`. -/
theorem submission_put_eq_take (hd : (DataFifo.init (Option ι) fifoBuffer).run actions = some d)
    (hlock : d.holder.submits = false) (hbyte : ∃ b ∈ frame, b ≠ 0)
    (hrun : Runs Submission.step (fun _ _ => True) (.start d dataType gLogFrameId frame) s) :
    s.put = (submitFrame dataType frame ⟨gLogFrameId, fun _ => true⟩).take s.partIndex := by
  obtain ⟨hne, hgarbage⟩ := not_isGarbageData hbyte
  have h := submission_follows hd hlock hbyte hrun
  rw [h.put, submitFrame_eq dataType hne hgarbage fun _ => rfl, ← List.map_take, List.take_range,
    Nat.min_eq_left h.le]

/-- Among other threads `submit_frame` puts what it puts when it finds the room that its
tests have found. -/
theorem submission_submitFrame (hd : (DataFifo.init (Option ι) fifoBuffer).run actions = some d)
    (hlock : d.holder.submits = false) (hbyte : ∃ b ∈ frame, b ≠ 0)
    (hrun : Runs Submission.step (fun _ _ => True) (.start d dataType gLogFrameId frame) s)
    (hfinished : s.finished = true) :
    s.put = submitFrame dataType frame
      ⟨gLogFrameId, fun i => decide (s.fills.getD i fifoMessages < fifoMessages)⟩ := by
  obtain ⟨hne, hgarbage⟩ := not_isGarbageData hbyte
  obtain ⟨hroom, hstop⟩ := (submission_follows hd hlock hbyte hrun).phase.getD_fills hfinished
  rw [submission_put_eq_take hd hlock hbyte hrun, submitFrame, submitFrame, if_neg hne, if_neg hne, if_neg hgarbage,
    if_neg hgarbage]
  refine (submitParts_take _ _ _ _ _ _ (fun j hj => ?_) ?_).symm
  · rw [Nat.zero_add]
    exact decide_eq_true (hroom j hj)
  · rw [Nat.zero_add]
    exact decide_eq_false (Nat.not_lt.mpr hstop)

end

/-- `submit_frame` among the threads of the FIFO: what it has put when it returns are the
parts before the first at which it has found the FIFO full, in order; they are the whole
frame if it has not, and none if it was the first. -/
theorem submission_put (fifoBuffer : Vector UInt8 fifoSize) (actions : List (FifoAction (Option ι)))
    {d : DataFifo (Option ι)} (hd : (DataFifo.init (Option ι) fifoBuffer).run actions = some d)
    (hlock : d.holder.submits = false) (dataType gLogFrameId : UInt32) {frame : List UInt8}
    (hlen : frame.length ≤ 1024) (hbyte : ∃ b ∈ frame, b ≠ 0) {s : Submission ι}
    (hrun : Runs Submission.step (fun _ _ => True) (.start d dataType gLogFrameId frame) s)
    (hfinished : s.finished = true) :
    let parts := submitFrame dataType frame ⟨gLogFrameId, fun _ => true⟩
    (∃ frameId ≠ 0, IsParts dataType frameId frame parts) ∧
    (∃ pending, s.fifo.obtained ++ pending = d.accepted ++ s.puts.map Prod.snd ∧
      s.fifo.fifo.queued = pending.flatMap FifoMessage.bytes) ∧
    s.put = parts.take (s.fills.takeWhile (· < fifoMessages)).length ∧
    (s.put = parts ↔ ∀ n ∈ s.fills, n < fifoMessages) ∧
    (s.put = [] ↔ ∃ n ∈ s.fills.head?, fifoMessages ≤ n) := by
  intro parts
  obtain ⟨hne, hgarbage⟩ := not_isGarbageData hbyte
  have h := submission_follows hd hlock hbyte hrun
  have hput : s.put = parts.take s.partIndex := submission_put_eq_take hd hlock hbyte hrun
  have hcount : parts.length = (frame.length + 255) / 256 := by
    show (submitFrame dataType frame ⟨gLogFrameId, fun _ => true⟩).length = _
    rw [submitFrame_eq dataType hne hgarbage fun _ => rfl, List.length_map, List.length_range]
  have hlength : s.put.length = s.partIndex := by rw [h.put, List.length_map, List.length_range]
  obtain ⟨pending, hpending⟩ := h.queue
  refine ⟨?_, ⟨pending, hpending.accepted.symm.trans h.accepted, hpending.queued⟩, ?_, ?_, ?_⟩
  · exact (submitFrame_parts dataType hne (by omega) fun _ => rfl).2 hbyte
  · rw [h.phase.length_takeWhile hfinished]
    exact hput
  · rw [← h.complete_iff hfinished, ← hcount]
    constructor
    · intro heq
      rw [← hlength, heq]
    · intro heq
      rw [hput, heq, List.take_length]
  · rw [← h.none_iff hne hfinished, ← hlength, List.length_eq_zero_iff]

theorem submission_put_interleaved : ∃ s : Submission Unit,
    Runs Submission.step (fun _ _ => True) (.start (.init (Option Unit) (Vector.replicate fifoSize 0)) 0 1 [7, 0]) s ∧
    s.finished = true ∧ s.puts = [(some (), message 5 [2] 0 0 0), (none, message 0 [7, 0] 2 0 1)] ∧
    (s.put = submitFrame 0 [7, 0] ⟨1, fun _ => true⟩ ↔ ∀ n ∈ s.fills, n < fifoMessages) := by
  have hrun : ∃ s : Submission Unit,
      runList Submission.step (fun _ _ => true) (.start (.init (Option Unit) (Vector.replicate fifoSize 0)) 0 1 [7, 0])
        [.other (.lockPut () (message 5 [2] 0 0 0)), .other .resume, .other .resume, .submit, .submit, .submit,
          .submit] = some s ∧ s.finished = true ∧
      s.puts = [(some (), message 5 [2] 0 0 0), (none, message 0 [7, 0] 2 0 1)] := ⟨_, rfl, rfl, rfl⟩
  obtain ⟨s, hlist, hfinished, hputs⟩ := hrun
  have hrun := Runs.start.of_runList (fun _ _ _ => trivial) hlist
  obtain ⟨-, -, -, hall, -⟩ := submission_put (Vector.replicate fifoSize 0) [] rfl rfl 0 1 (by decide) (by decide) hrun
    hfinished
  exact ⟨s, hrun, hfinished, hputs, hall⟩

/-- Alone, a call for a long frame finds room for its first part in a FIFO that 59 messages are
queued in, and none for the second. -/
theorem submission_torn : ∃ (d : DataFifo (Option Unit)) (s : Submission Unit) (pending : List FifoMessage),
    (DataFifo.init (Option Unit) (Vector.replicate fifoSize 0)).run
      (List.replicate 59 [.lockPut (some ()) (message 0 [1] 1 0 1), .resume, .resume]).flatten = some d ∧
    Runs Submission.step (fun _ _ => True) (.start d 0 1 (List.replicate 257 1)) s ∧ s.finished = true ∧
    s.put = (submitFrame 0 (List.replicate 257 1) ⟨1, fun _ => true⟩).take 1 ∧
    s.fifo.fifo.queued = (pending ++ s.put).flatMap FifoMessage.bytes ∧
    (∀ msg ∈ pending, msg = message 0 [1] 1 0 1) ∧
    (submitFrame 0 (List.replicate 257 1) ⟨1, fun _ => true⟩).length = 2 := by
  obtain ⟨frame, hframe⟩ : ∃ frame, frame = List.replicate 257 (1 : UInt8) := ⟨_, rfl⟩
  rw [← hframe]
  have hlen : frame.length = 257 := by rw [hframe, List.length_replicate]
  have hbyte : ∃ b ∈ frame, b ≠ 0 := ⟨1, by rw [hframe, List.mem_replicate]; decide, by decide⟩
  obtain ⟨hne, hgarbage⟩ := not_isGarbageData hbyte
  obtain ⟨d, hd, hfree, hqueue⟩ := (DataFifo.queue_init (Option Unit) (Vector.replicate fifoSize 0)).fill rfl (some ())
    (message 0 [1] 1 0 1) (show ([] : List FifoMessage).length + 59 ≤ fifoMessages by decide)
  have hparts := submitFrame_eq 0 hne hgarbage (q := ⟨1, fun _ => true⟩) fun _ => rfl
  rw [hlen] at hparts
  have hstart := Submission.follows_start hqueue (by rw [hfree]; rfl) 0 1 hne hgarbage
  have hworks : (Submission.start d 0 1 frame).finished = false := by
    rw [Submission.start, decide_eq_false hne, Bool.false_or]
    exact Bool.not_eq_true _ ▸ hgarbage
  have hbegin : Runs Submission.step (fun _ _ => True) (.start d 0 1 frame) (.start d 0 1 frame) := .start
  obtain ⟨s, new, hrun, hfinished, h, hindex, hput, hqueued⟩ :=
    hstart.alone (fun _ => trivial) hbegin hworks hfree hqueue
  rw [hlen] at hindex
  have hone : s.partIndex = 1 := hindex
  refine ⟨d, s, List.replicate 59 (message 0 [1] 1 0 1), hd, hrun, hfinished, ?_, ?_, ?_, ?_⟩
  · rw [h.put, hone, hparts]
    rfl
  · rw [hput]
    exact hqueued.queued
  · exact fun _ => List.eq_of_mem_replicate
  · rw [hparts]
    rfl

end Dtu
