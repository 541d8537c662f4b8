import Dtu.Proof.BdPacing

/-!
# The reports that are taken for acknowledgements

The reports of the BeiDou module do not say which packet they are about:
`main_send_thread` takes the first after `bd_get_tcq_seq` for one on its segment. It is
right in every run where no positive report on another packet arrives until
`bd_wait_tcq_success` has ended (`bdCommit_reported`), and not if one does
(`bdCommit_unreported`).
-/

namespace Dtu

variable {s s' : BdLink}

/-! ## Reports on packets -/

/-- A line without a report leaves those before it as they are. -/
theorem parseLine_of_none {line : List Char} (h : tcqReport line = none) (now : Nat) (st : BdStatus) :
    (bdStatusParseLine now st line).gBdTcqSeq = st.gBdTcqSeq ∧
      (bdStatusParseLine now st line).gBdTcqResult = st.gBdTcqResult := by
  unfold tcqReport at h
  unfold bdStatusParseLine
  split
  · exact ⟨rfl, rfl⟩
  rename_i hready
  rw [if_neg hready] at h
  split
  · repeat' split
    all_goals exact ⟨rfl, rfl⟩
  rename_i hpwi
  rw [if_neg hpwi] at h
  split
  · rename_i hfki
    rw [if_pos hfki] at h
    rcases hscan : scanFki line with _ | ⟨cmd, yn, code⟩
    · exact ⟨rfl, rfl⟩
    · simp only [hscan, ite_eq_right_iff, reduceCtorEq, imp_false] at h
      simp only [if_neg h]
      trivial
  · exact ⟨rfl, rfl⟩

theorem parseLine_of_some {line : List Char} {positive : Bool} (h : tcqReport line = some positive) (now : Nat)
    (st : BdStatus) : (bdStatusParseLine now st line).gBdTcqResult = if positive then 1 else -1 := by
  unfold tcqReport at h
  unfold bdStatusParseLine
  split at h
  · cases h
  rename_i hready
  split at h
  · cases h
  rename_i hpwi
  split at h
  · rename_i hfki
    rw [if_neg hready, if_neg hpwi, if_pos hfki]
    rcases hscan : scanFki line with _ | ⟨cmd, yn, code⟩
    · simp only [hscan, reduceCtorEq] at h
    · simp only [hscan] at h
      split at h
      · rename_i hcmd
        cases h
        simp only [if_pos hcmd, decide_eq_true_eq]
      · cases h
  · cases h

/-! ## Acknowledgements -/

/-- The sequence number that `main_send_thread` has sampled, and the segment it takes the
next report for one on. -/
def BdLink.awaited (s : BdLink) : Option (UInt32 × BdSegment) :=
  match s.pc with
  | .tryBd _ r (.send q) => some (q, s.segment r)
  | .tryBd _ r (.wait q _) => some (q, s.segment r)
  | _ => none

/-- Between `bd_get_tcq_seq` and the end of `bd_wait_tcq_success` no positive report on a
packet without the segment arrives. -/
def BdLink.Answered (s : BdLink) (a : BdAction) : Prop :=
  match a with
  | .reply i line => tcqReport line = some true → ∀ w ∈ s.awaited, ∀ p ∈ s.sent[i]?, p.segment = some w.2
  | _ => True

instance (s : BdLink) (a : BdAction) : Decidable (s.Answered a) := by
  unfold BdLink.Answered
  split <;> infer_instance

/-- The module has reported success for a packet with the segment. -/
def Reported (sent : List Packet) (replies : List (Nat × Bool)) (segment : BdSegment) : Prop :=
  ∃ i p, sent[i]? = some p ∧ p.segment = some segment ∧ p.data = segment.data ∧ (i, true) ∈ replies

theorem Reported.mono {sent sent' : List Packet} {replies : List (Nat × Bool)} {segment : BdSegment}
    (h : Reported sent replies segment) (hsent : sent <+: sent') : Reported sent' replies segment := by
  obtain ⟨i, p, hp, hsegment, hdata, hi⟩ := h
  obtain ⟨rest, rfl⟩ := hsent
  refine ⟨i, p, ?_, hsegment, hdata, hi⟩
  rw [List.getElem?_append_left (List.getElem?_eq_some_iff.mp hp).1, hp]

/-- Packets carry the data of their segments. -/
def Carried (sent : List Packet) : Prop :=
  ∀ p ∈ sent, ∀ segment ∈ p.segment, p.data = segment.data

theorem Carried.transmit (h : Carried s.sent) (data : List UInt8) (segment : Option BdSegment)
    (hdata : ∀ w ∈ segment, data = w.data) : Carried (s.transmit data segment).sent := by
  rw [BdLink.sent_transmit]
  split
  · intro p hp
    rcases List.mem_append.mp hp with hp | hp
    · exact h p hp
    · rw [List.mem_singleton.mp hp]
      exact hdata
  · exact h

/-- What `main_send_thread` would take for an acknowledgement is one. -/
structure BdLink.Acked (s : BdLink) : Prop where
  due : s.Due
  carried : Carried s.sent
  report : ∀ w ∈ s.awaited, s.status.gBdTcqSeq ≠ w.1 → s.status.gBdTcqResult = 1 → Reported s.sent s.replies w.2

namespace BdLink.Acked

theorem boot (disk : Disk) (clock wall : Nat) : (BdLink.boot disk clock wall).Acked where
  due := .boot disk clock wall
  carried := fun _ hp => nomatch hp
  report := fun _ hw => nomatch hw

theorem step (h : s.Acked) {a : BdAction} {c : Option Commit} (hanswered : s.Answered a)
    (hs : s.step a = some (s', c)) : s'.Acked := by
  have hdue' := h.due.step hs
  rcases BdLink.stepped h.due hs
  case append hpc =>
    refine ⟨hdue', h.carried, fun w hw => ?_⟩
    rw [BdLink.awaited, hpc] at hw
    cases hw
  case turned | due | ensured | ready | failed | acknowledged =>
    exact ⟨hdue', h.carried, fun _ hw => (nomatch hw)⟩
  case sampled =>
    refine ⟨hdue', h.carried, fun w hw hseq => ?_⟩
    cases hw
    exact absurd rfl hseq
  case sentBd t r _ q hpc hsent =>
    refine ⟨hdue', h.carried.transmit _ _ fun w hw => ?_, fun w hw hseq hresult => ?_⟩
    · cases hw
      rfl
    · cases hw
      have hawaited : (q, s.segment r) ∈ s.awaited := by
        rw [BdLink.awaited, hpc]
        rfl
      exact (h.report _ hawaited hseq hresult).mono (s.sent_prefix _ _)
  case notSent =>
    refine ⟨hdue', h.carried.transmit _ _ fun w hw => ?_, fun _ hw => (nomatch hw)⟩
    cases hw
    rfl
  case btSend data _ =>
    refine ⟨hdue', h.carried.transmit data none fun _ hw => (nomatch hw), fun w hw hseq hresult => ?_⟩
    exact (h.report w hw hseq hresult).mono (s.sent_prefix data none)
  case reply i line positive hi hpositive =>
    refine ⟨hdue', h.carried, fun w hw _ hresult => ?_⟩
    have hresult : (bdStatusParseLine s.clock s.status line).gBdTcqResult = 1 := hresult
    rw [parseLine_of_some hpositive] at hresult
    rcases positive with _ | _
    · cases hresult
    have hp := List.getElem?_eq_getElem hi
    have hsegment := hanswered hpositive w hw _ hp
    exact ⟨i, _, hp, hsegment, h.carried _ (List.getElem_mem hi) _ hsegment, List.mem_cons_self⟩
  case line line hline =>
    obtain ⟨hseq, hresult⟩ := parseLine_of_none hline s.clock s.status
    refine ⟨hdue', h.carried, fun w hw => ?_⟩
    show (bdStatusParseLine s.clock s.status line).gBdTcqSeq ≠ _ →
      (bdStatusParseLine s.clock s.status line).gBdTcqResult = 1 → _
    rw [hseq, hresult]
    exact h.report w hw
  all_goals exact ⟨hdue', h.carried, h.report⟩

/-- A commit of `MAIN_ST_TRY_BD` is one of the segment that `main_send_thread` awaits a
report on, after a positive report. -/
theorem commits (h : s.Acked) {a : BdAction} {c : Commit} (hst : s.main.state = .tryBd)
    (hs : s.step a = some (s', some c)) :
    ∃ q, (q, ⟨s.epoch, c.offsets, c.pendingOffsets, c.payload⟩) ∈ s.awaited ∧
      s.status.gBdTcqSeq ≠ q ∧ s.status.gBdTcqResult = 1 := by
  rcases BdLink.stepped h.due hs
  case turned hdue hturn => cases (MainSend.turn_of_not_bdDue hdue hturn).2 hst
  case acknowledged q _ _ _ hpc hseq hresult _ _ hsegment =>
    refine ⟨q, ?_, hseq, hresult⟩
    rw [BdLink.awaited, hpc, ← hsegment]
    rfl

end BdLink.Acked

/-- In every run in which no positive report on another packet arrives between
`bd_get_tcq_seq` and the end of `bd_wait_tcq_success`, each commit of `MAIN_ST_TRY_BD`
comes after a report of success for a packet with the segment that is committed. -/
theorem bdCommit_reported {disk : Disk} {clock wall : Nat} {a : BdAction} {c : Commit}
    (hrun : Runs BdLink.step BdLink.Answered (.boot disk clock wall) s) (hst : s.main.state = .tryBd)
    (hs : s.step a = some (s', some c)) :
    Reported s.sent s.replies ⟨s.epoch, c.offsets, c.pendingOffsets, c.payload⟩ := by
  have h : s.Acked := hrun.invariant (.boot disk clock wall) fun _ _ _ _ h hanswered hs => h.step hanswered hs
  obtain ⟨q, hawaited, hseq, hresult⟩ := h.commits hst hs
  exact h.report _ hawaited hseq hresult

/-- A segment is sent, with a packet of the Bluetooth thread reported before. -/
def reportedRun : List BdAction :=
  ([.btLine "00".toList, .btFlush, .btSend, .reply 0 "$BDFKI,060000,TCQ,Y,0".toList] : List BdAction) ++ dueRun ++
    ([.main true, .reply 1 "$BDFKI,060005,TCQ,Y,0".toList] : List BdAction)

theorem bdCommit_reported_one :
    ∃ (s : BdLink) (c : Commit), c.payload = [0, 0] ∧
      Reported s.sent s.replies ⟨s.epoch, c.offsets, c.pendingOffsets, c.payload⟩ := by
  have h : (runList BdLink.step (fun s a => decide (s.Answered a)) (.boot Disk.blank 0 0) reportedRun).map
      (fun s => (s.main.state, (s.step (.main true)).map fun r => r.2.map Commit.payload)) =
        some (.tryBd, some (some [0, 0])) := by
    decide +kernel
  obtain ⟨s, hs, heq⟩ := Option.map_eq_some_iff.mp h
  obtain ⟨hst, hstep⟩ := Prod.mk.inj heq
  obtain ⟨⟨s', c⟩, hstep, hcommit⟩ := Option.map_eq_some_iff.mp hstep
  obtain ⟨c, rfl, hpayload⟩ := Option.map_eq_some_iff.mp hcommit
  exact ⟨s, c, hpayload, bdCommit_reported (.of_runList (fun _ _ h => of_decide_eq_true h) .start hs) hst hstep⟩

/-- The report on the packet of the Bluetooth thread arrives after `bd_get_tcq_seq`. -/
def unreportedRun : List BdAction :=
  ([.btLine "00".toList, .btFlush, .btSend] : List BdAction) ++ dueRun ++
    ([.main true, .reply 0 "$BDFKI,060000,TCQ,Y,0".toList] : List BdAction)

theorem bdCommit_unreported :
    ¬∀ disk clock wall s s' a c, Runs BdLink.step (fun _ _ => True) (.boot disk clock wall) s →
      s.main.state = .tryBd → s.step a = some (s', some c) →
      Reported s.sent s.replies ⟨s.epoch, c.offsets, c.pendingOffsets, c.payload⟩ := by
  intro hreported
  have h : (runList BdLink.step (fun _ _ => true) (.boot Disk.blank 0 0) unreportedRun).map (fun s =>
      (s.main.state, s.sent.map fun p => decide (p.segment = none), s.replies,
        (s.step (.main true)).map fun r => r.2.isSome)) =
        some (.tryBd, [true, false], [(0, true)], some true) := by
    decide +kernel
  obtain ⟨s, hs, heq⟩ := Option.map_eq_some_iff.mp h
  simp only [Prod.mk.injEq] at heq
  obtain ⟨hst, hsent, hreplies, hstep⟩ := heq
  obtain ⟨⟨s', c⟩, hstep, hcommit⟩ := Option.map_eq_some_iff.mp hstep
  obtain ⟨c, rfl⟩ := Option.isSome_iff_exists.mp hcommit
  obtain ⟨i, p, hp, hsegment, -, hi⟩ :=
    hreported _ _ _ s s' _ c (.of_runList (fun _ _ _ => trivial) .start hs) hst hstep
  rw [hreplies, List.mem_singleton] at hi
  cases hi
  have hnone : (s.sent.map fun p => decide (p.segment = none))[0]? = some true := by rw [hsent]; rfl
  rw [List.getElem?_map, hp, Option.map_some, Option.some.injEq, hsegment] at hnone
  exact absurd hnone (by simp)

end Dtu
