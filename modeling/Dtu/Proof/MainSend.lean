import Dtu.Framework.Runs
import Dtu.Impl.MainSend
import Dtu.Proof.Limits

/-!
# The iterations of `main_send_thread`

`MainSend.Turned` says what one iteration can do to the offsets, the BeiDou
window and the files, and with what commit (`MainSend.turned`). From it: what
`main_send_thread` commits is what the packer finds between its offsets and
`pending_offsets`, as long as no iteration as a node comes between packing and
sending (`mainSend_commits`).
-/

namespace Dtu

open Stdio

/-! ## What an iteration can do -/

/-- The offsets and the BeiDou window are as before. -/
structure MainSend.Kept (s s' : MainSend) : Prop where
  offsets : s'.offsets = s.offsets
  endOffsets : s'.bdBatchEndOffsets = s.bdBatchEndOffsets
  active : s'.bdBatchActive = s.bdBatchActive

/-- `MAIN_ST_TRY_4G` gets to send, and the payload is acknowledged. -/
def MainSend.Sends4g (s : MainSend) (t : Turn) : Prop :=
  s.sendPath ≠ .onlyBd ∧ s.next4gTryTime ≤ t.now ∧ t.egReady = true ∧ t.egSent = true

/-- `MAIN_ST_TRY_4G` tries to send, fails and opens the window: not with `SEND_PATH_4G_ONLY`, and
not with the tenth failure of `main_ensure_eg_ready` in a row. -/
def MainSend.Opens (s : MainSend) (t : Turn) : Prop :=
  s.bdBatchActive = false ∧ s.sendPath ≠ .onlyBd ∧ s.sendPath ≠ .only4g ∧ s.next4gTryTime ≤ t.now ∧
    (t.egReady = false ∧ s.egReadyFailCount + 1 < 10 ∨ t.egReady = true ∧ t.egSent = false)

/-- What an iteration can do. -/
inductive MainSend.Turned (s : MainSend) (t : Turn) : MainSend → Option Commit → Prop where
  /-- It skips to the end of the logs. -/
  | node (hmesh : t.meshNode = true) : Turned s t s.nodeTurn none
  /-- `MAIN_ST_IDLE` packs. -/
  | packed {s' : MainSend} {r : PackResult mainPathCount} (hmesh : t.meshNode = false) (hst : s.state = .idle)
      (hr : mainPackPending s.disk.logs s.offsets egMaxHexLen (egMaxHexLen / 2 + 1) = some r)
      (hkept : s.Kept s') (hdisk : s'.disk = s.disk) (hpending : s'.pendingOffsets = r.pendingOffsets)
      (hraw : s'.rawData = r.rawBuf)
      (hready : s'.state = .try4g ∨ s'.state = .tryBd → r.ret = 0 ∧ 0 < r.entryCount) : Turned s t s' none
  /-- It does nothing to the offsets and the window. -/
  | waited {s' : MainSend} (appended : Fin mainPathCount → List Record) (hmesh : t.meshNode = false)
      (hkept : s.Kept s') (hdisk : s'.disk = s.disk.append appended) (hst' : s'.state ≠ .try4g) : Turned s t s' none
  /-- `MAIN_ST_TRY_4G` fails and opens the window. -/
  | opened {s' : MainSend} (hmesh : t.meshNode = false) (hst : s.state = .try4g) (hidle : s.bdBatchActive = false)
      (hoffsets : s'.offsets = s.offsets) (hdisk : s'.disk = s.disk)
      (hend : s'.bdBatchEndOffsets = s.pendingOffsets) (hactive : s'.bdBatchActive = true)
      (hst' : s'.state = .tryBd) (hopens : s.Opens t) : Turned s t s' none
  /-- `MAIN_ST_TRY_4G` commits. -/
  | sent4g {s' : MainSend} (hmesh : t.meshNode = false) (hst : s.state = .try4g)
      (hoffsets : s'.offsets = compactOffsets s.disk.logs s.pendingOffsets t.compact)
      (hdisk : s'.disk = s.disk.applyAll (s.commit4g t).ops) (hend : s'.bdBatchEndOffsets = s.bdBatchEndOffsets)
      (hactive : s'.bdBatchActive = s.bdBatchActive) (hst' : s'.state = .idle) (hsends : s.Sends4g t) :
      Turned s t s' (some (s.commit4g t))
  /-- `MAIN_ST_TRY_BD` commits a segment. -/
  | sentBd {s' : MainSend} {r : PackResult mainPathCount} (hmesh : t.meshNode = false) (hst : s.state = .tryBd)
      (hr : mainPackPendingUntil s.disk.logs s.offsets s.bdBatchEndOffsets bdMaxHexLen bdMaxRawLen = some r)
      (hret : r.ret = 0) (hcount : 0 < r.entryCount) (hdone : s.batchDone r.pendingOffsets = false)
      (hoffsets : s'.offsets = r.pendingOffsets)
      (hdisk : s'.disk = (s.disk.append t.appended).applyAll (s.commitBd t r.rawBuf r.pendingOffsets).ops)
      (hend : s'.bdBatchEndOffsets = s.bdBatchEndOffsets) (hactive : s'.bdBatchActive = s.bdBatchActive)
      (hst' : s'.state = .bdWait) : Turned s t s' (some (s.commitBd t r.rawBuf r.pendingOffsets))
  /-- `MAIN_ST_TRY_BD` commits the last segment and closes the window. -/
  | doneBd {s' : MainSend} {r : PackResult mainPathCount} (hmesh : t.meshNode = false) (hst : s.state = .tryBd)
      (hr : mainPackPendingUntil s.disk.logs s.offsets s.bdBatchEndOffsets bdMaxHexLen bdMaxRawLen = some r)
      (hret : r.ret = 0) (hcount : 0 < r.entryCount) (hdone : s.batchDone r.pendingOffsets = true)
      (hoffsets : s'.offsets = compactOffsets (s.disk.append t.appended).logs r.pendingOffsets t.compact)
      (hdisk : s'.disk = (s.disk.append t.appended).applyAll (s.commitBd t r.rawBuf r.pendingOffsets).ops)
      (hactive : s'.bdBatchActive = false) (hst' : s'.state = .idle) :
      Turned s t s' (some (s.commitBd t r.rawBuf r.pendingOffsets))

theorem Disk.append_nil (disk : Disk) : disk.append (fun _ => []) = disk := by
  simp [Disk.append]

/-- An iteration that changes no file, and neither the offsets nor the window. -/
theorem MainSend.turned_kept {s s' : MainSend} {t : Turn} (hmesh : t.meshNode = false) (hkept : s.Kept s')
    (hdisk : s'.disk = s.disk) (hst' : s'.state ≠ .try4g) : s.Turned t s' none :=
  .waited (fun _ => []) hmesh hkept (by rw [hdisk, Disk.append_nil]) hst'

theorem MainSend.turned_idle {s s' : MainSend} {t : Turn} (hmesh : t.meshNode = false) (hst : s.state = .idle)
    (h : s.idle t = some s') : s.Turned t s' none := by
  simp only [MainSend.idle, Option.map_eq_some_iff] at h
  obtain ⟨r, hr, rfl⟩ := h
  by_cases hret : r.ret = 0
  · by_cases hcount : r.entryCount = 0
    · simp only [hret, hcount, ne_eq, not_true, if_false, if_true]
      exact .packed hmesh hst hr ⟨rfl, rfl, rfl⟩ rfl rfl rfl (by simp)
    · simp only [hret, ne_eq, not_true, if_false, if_neg hcount]
      split <;> exact .packed hmesh hst hr ⟨rfl, rfl, rfl⟩ rfl rfl rfl fun _ => ⟨hret, Nat.pos_of_ne_zero hcount⟩
  · rw [if_pos hret]
    exact .packed hmesh hst hr ⟨rfl, rfl, rfl⟩ rfl rfl rfl (by simp [hst])

theorem MainSend.turned_fail4g {s s₁ : MainSend} {t : Turn} (hmesh : t.meshNode = false) (hst : s.state = .try4g)
    (hkept : s.Kept s₁) (hpending : s₁.pendingOffsets = s.pendingOffsets) (hdisk : s₁.disk = s.disk)
    (hopens : s.bdBatchActive = false → s₁.sendPath ≠ .only4g → s.Opens t) : s.Turned t s₁.fail4g none := by
  obtain ⟨hoffsets, hend, hactive⟩ := hkept
  unfold MainSend.fail4g
  by_cases hopen : s₁.sendPath ≠ .only4g ∧ s₁.bdBatchActive = false
  · simp only [if_pos hopen, if_neg hopen.1]
    have hclosed : s.bdBatchActive = false := hactive ▸ hopen.2
    exact .opened hmesh hst hclosed hoffsets hdisk hpending rfl rfl (hopens hclosed hopen.1)
  · simp only [if_neg hopen]
    refine turned_kept hmesh ⟨hoffsets, hend, hactive⟩ hdisk ?_
    show (if s₁.sendPath = .only4g then MainSt.idle else .tryBd) ≠ .try4g
    split <;> decide

theorem MainSend.turned_try4g {s s' : MainSend} {t : Turn} {c : Option Commit} (hmesh : t.meshNode = false)
    (hst : s.state = .try4g) (h : s.try4g t = (s', c)) : s.Turned t s' c := by
  unfold MainSend.try4g at h
  split at h
  · cases h
    exact turned_kept hmesh ⟨rfl, rfl, rfl⟩ rfl (by simp)
  rename_i hpath
  split at h
  · cases h
    refine turned_kept hmesh ⟨rfl, rfl, rfl⟩ rfl ?_
    show (if s.sendPath = .only4g then MainSt.idle else .tryBd) ≠ .try4g
    split <;> decide
  rename_i htime
  split at h
  · rename_i hready
    simp only at h
    split at h
    · cases h
      exact turned_kept hmesh ⟨rfl, rfl, rfl⟩ rfl (by simp)
    · rename_i hcount
      cases h
      exact turned_fail4g hmesh hst ⟨rfl, rfl, rfl⟩ rfl rfl fun hclosed hboth =>
        ⟨hclosed, hpath, hboth, Nat.le_of_not_lt htime, .inl ⟨hready, Nat.lt_of_not_le hcount⟩⟩
  · rename_i hready
    simp only at h
    split at h
    · rename_i hsent
      cases h
      exact .sent4g hmesh hst rfl rfl rfl rfl rfl
        ⟨hpath, Nat.le_of_not_lt htime, (Bool.not_eq_false _).mp hready, hsent⟩
    · rename_i hsent
      cases h
      exact turned_fail4g hmesh hst ⟨rfl, rfl, rfl⟩ rfl rfl fun hclosed hboth =>
        ⟨hclosed, hpath, hboth, Nat.le_of_not_lt htime, .inr ⟨(Bool.not_eq_false _).mp hready, Bool.eq_false_iff.mpr hsent⟩⟩

/-- Where a failure of `MAIN_ST_TRY_BD` goes. -/
theorem MainSend.failBd_state (s : MainSend) : s.failBd.state = .powerDown ∨ s.failBd.state = .bdWait := by
  simp only [MainSend.failBd]
  split
  · exact .inl rfl
  · exact .inr rfl

theorem MainSend.turned_tryBd {s s' : MainSend} {t : Turn} {c : Option Commit} (hmesh : t.meshNode = false)
    (hst : s.state = .tryBd) (h : s.tryBd t = some (s', c)) : s.Turned t s' c := by
  simp only [MainSend.tryBd, Option.map_eq_some_iff] at h
  obtain ⟨r, hr, h⟩ := h
  have hfail : ∀ s₁ : MainSend, s.Kept s₁ → s₁.disk = s.disk.append t.appended → s.Turned t s₁.failBd none :=
    fun s₁ hkept hdisk => by
      refine .waited t.appended hmesh ⟨hkept.offsets, hkept.endOffsets, hkept.active⟩ hdisk ?_
      rcases s₁.failBd_state with hst | hst <;> simp [hst]
  by_cases hret : r.ret = 0
  · by_cases hcount : r.entryCount = 0
    · simp only [hret, hcount, ne_eq, not_true, if_false, if_true] at h
      cases h
      exact turned_kept hmesh ⟨rfl, rfl, rfl⟩ rfl (by simp)
    · simp only [hret, ne_eq, not_true, if_false, if_neg hcount] at h
      split at h
      · cases h
        exact turned_kept hmesh ⟨rfl, rfl, rfl⟩ rfl (by simp)
      split at h
      · cases h
        exact hfail _ ⟨rfl, rfl, rfl⟩ rfl
      split at h
      · cases h
        exact hfail _ ⟨rfl, rfl, rfl⟩ rfl
      split at h
      · cases h
        exact hfail _ ⟨rfl, rfl, rfl⟩ rfl
      have hpos := Nat.pos_of_ne_zero hcount
      split at h
      · rename_i hdone
        cases h
        exact .doneBd hmesh hst hr hret hpos hdone rfl rfl rfl rfl
      · rename_i hdone
        cases h
        exact .sentBd hmesh hst hr hret hpos ((Bool.not_eq_true _).mp hdone) rfl rfl rfl rfl rfl
  · rw [if_pos hret] at h
    cases h
    exact turned_kept hmesh ⟨rfl, rfl, rfl⟩ rfl (by simp)

theorem MainSend.turned_bdWait {s : MainSend} {t : Turn} (hmesh : t.meshNode = false) :
    s.Turned t (s.bdWait t) none := by
  unfold MainSend.bdWait
  split
  · exact turned_kept hmesh ⟨rfl, rfl, rfl⟩ rfl (by simp)
  · exact turned_kept hmesh ⟨rfl, rfl, rfl⟩ rfl (by simp)

theorem MainSend.turned_powerDown {s : MainSend} {t : Turn} (hmesh : t.meshNode = false) :
    s.Turned t (s.powerDown t) none := by
  unfold MainSend.powerDown
  split
  · exact turned_kept hmesh ⟨rfl, rfl, rfl⟩ rfl (by simp)
  · exact turned_kept hmesh ⟨rfl, rfl, rfl⟩ rfl (by simp)

/-- What an iteration does is one of `MainSend.Turned`. -/
theorem MainSend.turned {s s' : MainSend} {t : Turn} {c : Option Commit} (h : s.turn t = some (s', c)) :
    s.Turned t s' c := by
  unfold MainSend.turn at h
  cases hmesh : t.meshNode with
  | true =>
    rw [hmesh, if_pos rfl] at h
    cases h
    exact .node hmesh
  | false =>
    rw [hmesh, if_neg (by decide)] at h
    split at h
    · rename_i hst
      obtain ⟨s₁, hidle, heq⟩ := Option.map_eq_some_iff.mp h
      cases heq
      exact turned_idle hmesh hst hidle
    · rename_i hst
      exact turned_try4g hmesh hst (Option.some.inj h)
    · rename_i hst
      exact turned_tryBd hmesh hst h
    · cases h
      exact turned_bdWait hmesh
    · cases h
      exact turned_powerDown hmesh

/-! ## Windows and appended lines -/

/-- What is appended to a log follows what is in it. -/
theorem Disk.getD_append (disk : Disk) (appended : Fin mainPathCount → List Record) (i : Fin mainPathCount) :
    ((disk.append appended).logs i).getD [] = (disk.logs i).getD [] ++ logText (appended i) := by
  unfold Disk.append
  by_cases h : appended i = []
  · simp [h, logText]
  · simp [h]

/-- What lies between two offsets does not change when the file grows. -/
theorem slice_append {content : List Char} {start stop : Nat} (h : stop ≤ max start content.length) (t : List Char) :
    slice (content ++ t) start stop = slice content start stop := by
  by_cases hle : stop ≤ content.length
  · rw [slice, List.take_append_of_le_length hle, slice]
  · rw [slice_of_le _ (by omega), slice_of_le _ (by omega)]

theorem windowEntries_append (size : Nat) (disk : Disk) (appended : Fin mainPathCount → List Record)
    {start stop : Offsets} (hstop : ∀ i, stop i ≤ max (start i) ((disk.logs i).getD []).length) :
    windowEntries size (disk.append appended).logs start stop = windowEntries size disk.logs start stop :=
  List.flatMap_congr fun i _ => by
    rw [entriesBetween, entriesBetween, disk.getD_append, slice_append (hstop i)]

/-! ## What is committed -/

/-- The payload of a commit is what the packer finds from the offsets on up to
`pending_offsets`, and these are not behind the offsets. -/
structure Commit.Exact (c : Commit) : Prop where
  payload : c.payload = joinRaw (windowEntries c.lineSize c.disk.logs c.offsets c.pendingOffsets)
  forward (i : Fin mainPathCount) : c.offsets i ≤ c.pendingOffsets i

/-- A commit leaves the offset of a log at `pending_offsets`, or `compact_log_file` has renamed
the log and set it behind what it retains of what is before `pending_offsets`. -/
def Commit.Sets (c : Commit) (i : Fin mainPathCount) (offset : Nat) : Prop :=
  offset = c.pendingOffsets i ∨
    ∃ log, c.disk.logs i = some log ∧ .rename i (compactText log (c.pendingOffsets i) 10) ∈ c.ops ∧
      offset = (retained log (c.pendingOffsets i) 10).length

/-- `raw_data` is what `main_pack_pending` finds up to `pending_offsets`, which it
does find something of. -/
structure MainSend.Packed (s : MainSend) : Prop where
  rawData : s.rawData = joinRaw (windowEntries packLineSize s.disk.logs s.offsets s.pendingOffsets)
  forward (i : Fin mainPathCount) : s.offsets i ≤ s.pendingOffsets i
  end_le (i : Fin mainPathCount) : s.pendingOffsets i ≤ max (s.offsets i) ((s.disk.logs i).getD []).length
  moves : ∃ i, s.offsets i < s.pendingOffsets i
  lastEntry (i : Fin mainPathCount) : s.offsets i < s.pendingOffsets i →
    LastEntry packLineSize ((s.disk.logs i).getD []) (s.offsets i) (s.pendingOffsets i)

/-- No iteration as a node comes between packing and sending, and none is behind
the end of a log that has shrunk. -/
def MainSend.NodeInTurn (s : MainSend) : Action → Prop
  | .append _ => True
  | .turn t => t.meshNode = true →
      s.state ≠ .try4g ∧ ∀ i content, s.disk.logs i = some content → s.offsets i ≤ content.length

theorem MainSend.Packed.append {s : MainSend} (h : s.Packed) (appended : Fin mainPathCount → List Record) :
    ({ s with disk := s.disk.append appended } : MainSend).Packed where
  rawData := h.rawData.trans (congrArg joinRaw (windowEntries_append packLineSize s.disk appended h.end_le).symm)
  forward := h.forward
  end_le i := by
    have := h.end_le i
    show s.pendingOffsets i ≤ max (s.offsets i) (((s.disk.append appended).logs i).getD []).length
    rw [s.disk.getD_append, List.length_append]
    omega
  moves := h.moves
  lastEntry i hlt := by
    show LastEntry packLineSize (((s.disk.append appended).logs i).getD []) _ _
    rw [LastEntry, s.disk.getD_append, slice_append (h.end_le i)]
    exact h.lastEntry i hlt

/-- What an iteration that goes on to `MAIN_ST_TRY_4G` has packed. -/
theorem MainSend.Turned.packed_of_try4g {s s' : MainSend} {t : Turn} {c : Option Commit} (h : s.Turned t s' c)
    (hnode : t.meshNode = true → s.state ≠ .try4g) (hst' : s'.state = .try4g) : s'.Packed := by
  cases h with
  | node hmesh => exact absurd hst' (hnode hmesh)
  | packed hmesh hst hr hkept hdisk hpending hraw hready =>
    have hwindow := mainPackPending_window (by decide) hr
    obtain ⟨hret, hcount⟩ := hready (.inl hst')
    refine ⟨?_, fun i => ?_, fun i => ?_, ?_, ?_⟩
    · rw [hraw, hdisk, hkept.offsets, hpending, hwindow.raw hret]
    · rw [hkept.offsets, hpending]
      exact hwindow.le i
    · rw [hkept.offsets, hpending, hdisk]
      exact hwindow.end_le i
    · rw [hkept.offsets, hpending]
      exact exists_lt_of_windowEntries (List.length_pos_iff.mp (hwindow.count ▸ hcount))
    · rw [hkept.offsets, hpending, hdisk]
      exact mainPackPending_lastEntry hr
  | waited appended hmesh hkept hdisk hne => exact absurd hst' hne
  | opened hmesh hst hidle hoffsets hdisk hend hactive hst'' => rw [hst''] at hst'; cases hst'
  | sent4g hmesh hst hoffsets hdisk hend hactive hst'' => rw [hst''] at hst'; cases hst'
  | sentBd hmesh hst hr hret hcount hdone hoffsets hdisk hend hactive hst'' => rw [hst''] at hst'; cases hst'
  | doneBd hmesh hst hr hret hcount hdone hoffsets hdisk hactive hst'' => rw [hst''] at hst'; cases hst'

/-- If no iteration as a node comes between packing and sending, `raw_data` is
what has been packed in every state before sending over 4G. -/
theorem mainSend_packed {ok : MainSend → Action → Prop}
    (hnode : ∀ s t, ok s (.turn t) → t.meshNode = true → s.state ≠ .try4g) {disk : Disk} {s : MainSend}
    (hrun : Runs MainSend.step ok (MainSend.boot disk) s) : s.state = .try4g → s.Packed := by
  refine hrun.invariant (I := fun s => s.state = .try4g → s.Packed) (fun h => by cases h) ?_
  intro s a s' c ih hok hstep hst'
  rcases a with appended | t
  · cases hstep
    exact (ih hst').append appended
  · exact (MainSend.turned hstep).packed_of_try4g (hnode s t hok) hst'

/-- A log is renumbered, or its offset is as it was. -/
theorem compactOffsets_cases (logs : Logs) (offsets : Offsets) (io : Fin mainPathCount → CompactIo)
    (i : Fin mainPathCount) :
    compactOffsets logs offsets io i = offsets i ∨
      ∃ log, logs i = some log ∧ .rename i (compactText log (offsets i) 10) ∈ compactOps logs offsets io ∧
        compactOffsets logs offsets io i = (retained log (offsets i) 10).length := by
  unfold compactOffsets
  cases h : (compactLogFile (logs i) (offsets i) 10 (io i)).1 with
  | none => exact .inl rfl
  | some r =>
    refine .inr ?_
    have hr := h
    simp only [compactLogFile] at hr
    repeat' split at hr
    all_goals try cases hr
    refine ⟨_, ‹_›, List.mem_filterMap.mpr ⟨i, List.mem_finRange i, ?_⟩, rfl⟩
    rw [h]
    rfl

theorem MainSend.commitBd_exact {s : MainSend} {t : Turn} {r : PackResult mainPathCount}
    (hr : mainPackPendingUntil s.disk.logs s.offsets s.bdBatchEndOffsets bdMaxHexLen bdMaxRawLen = some r)
    (hret : r.ret = 0) : (s.commitBd t r.rawBuf r.pendingOffsets).Exact := by
  have hwindow := (mainPackPendingUntil_window (by decide) hr).1
  refine ⟨?_, hwindow.le⟩
  show r.rawBuf = joinRaw (windowEntries untilLineSize (s.disk.append t.appended).logs s.offsets r.pendingOffsets)
  rw [windowEntries_append _ _ _ hwindow.end_le, hwindow.raw hret]

/-- An iteration as a node moves no offset back that is not behind its log. -/
theorem MainSend.le_nodeTurn {s : MainSend} (h : ∀ i content, s.disk.logs i = some content → s.offsets i ≤ content.length)
    (i : Fin mainPathCount) : s.offsets i ≤ s.nodeTurn.offsets i := by
  simp only [MainSend.nodeTurn]
  split
  · exact Nat.le_refl _
  · rename_i content hlog
    exact h i content hlog

/-- An offset that a commit sets is not before the old one, or its log has been renamed. -/
theorem Commit.Exact.sets {c : Commit} (h : c.Exact) {offsets offsets' : Offsets} (hoffsets : c.offsets = offsets)
    (hsets : ∀ i, c.Sets i (offsets' i)) :
    (∀ c' ∈ some c, c'.Exact ∧ c'.offsets = offsets ∧ ∀ i, c'.Sets i (offsets' i)) ∧
      ∀ i, offsets i ≤ offsets' i ∨ ∃ c' ∈ some c, ∃ content, DiskOp.rename i content ∈ c'.ops := by
  refine ⟨fun c' hc => ?_, fun i => ?_⟩
  · rw [← Option.mem_some_iff.mp hc]
    exact ⟨h, hoffsets, hsets⟩
  · rcases hsets i with hset | ⟨log, -, hrename, -⟩
    · rw [hset, ← hoffsets]
      exact .inl (h.forward i)
    · exact .inr ⟨c, rfl, _, hrename⟩

/-- In every run in which no iteration as a node comes between packing and
sending, what is acknowledged when offsets are committed is what the packer finds
between the old offsets and the new, up to which they are then committed, and an offset
moves back only where `compact_log_file` renumbers its log. -/
theorem mainSend_commits {disk : Disk} {s s' : MainSend} {a : Action} {c : Option Commit}
    (hrun : Runs MainSend.step MainSend.NodeInTurn (MainSend.boot disk) s) (hok : s.NodeInTurn a)
    (hstep : s.step a = some (s', c)) :
    (∀ c' ∈ c, c'.Exact ∧ c'.offsets = s.offsets ∧ ∀ i, c'.Sets i (s'.offsets i)) ∧
    ∀ i, s.offsets i ≤ s'.offsets i ∨ ∃ c' ∈ c, ∃ content, DiskOp.rename i content ∈ c'.ops := by
  have hpacked := mainSend_packed (fun _ _ hok hmesh => (hok hmesh).1) hrun
  rcases a with appended | t
  · cases hstep
    exact ⟨by simp, fun i => .inl (Nat.le_refl _)⟩
  cases MainSend.turned hstep with
  | node hmesh =>
    exact ⟨by simp, fun i => .inl (MainSend.le_nodeTurn (hok hmesh).2 i)⟩
  | packed hmesh hst hr hkept => exact ⟨by simp, fun i => .inl (Nat.le_of_eq (congrFun hkept.offsets i).symm)⟩
  | waited appended hmesh hkept => exact ⟨by simp, fun i => .inl (Nat.le_of_eq (congrFun hkept.offsets i).symm)⟩
  | opened hmesh hst hidle hoffsets => exact ⟨by simp, fun i => .inl (Nat.le_of_eq (congrFun hoffsets i).symm)⟩
  | sent4g hmesh hst hoffsets =>
    obtain ⟨hraw, hforward, -⟩ := hpacked hst
    refine Commit.Exact.sets ⟨hraw, hforward⟩ rfl fun i => ?_
    rw [hoffsets]
    rcases compactOffsets_cases s.disk.logs s.pendingOffsets t.compact i with h | ⟨log, hlog, hrename, hoffset⟩
    · exact .inl h
    · exact .inr ⟨log, hlog, List.mem_append_left _ hrename, hoffset⟩
  | sentBd hmesh hst hr hret hcount hdone hoffsets =>
    exact (MainSend.commitBd_exact hr hret).sets rfl fun i => .inl (congrFun hoffsets i)
  | @doneBd _ r hmesh hst hr hret hcount hdone hoffsets =>
    refine (MainSend.commitBd_exact hr hret).sets rfl fun i => ?_
    rw [hoffsets]
    rcases compactOffsets_cases (s.disk.append t.appended).logs r.pendingOffsets t.compact i with
      h | ⟨log, hlog, hrename, hoffset⟩
    · exact .inl h
    · refine .inr ⟨log, hlog, ?_, hoffset⟩
      simp only [MainSend.commitBd, hdone, if_true]
      exact List.mem_append_right _ (List.mem_append_left _ hrename)

/-- An iteration as a gateway, with every call successful. -/
def Turn.gateway : Turn where
  meshNode := false
  sendPath := .auto
  now := 0
  nowFailed := 0
  monotonic := 0
  monotonicSent := 0
  monotonicHold := 0
  egReady := true
  egSent := true
  bdReady := true
  bdSent := true
  tcqSuccess := true
  compact := fun _ => ⟨true, true⟩
  appended := fun _ => []

/-- The device with no files. -/
def Disk.blank : Disk := ⟨fun _ => none, none⟩

/-- One message is packed, another one logged, and an iteration as a node comes
before the first is sent. -/
def staleRun : List Action :=
  [.append (firstLog [short 0]), .turn Turn.gateway,
    .append (firstLog [short 1]), .turn { Turn.gateway with meshNode := true }]

/-- The state after some actions from a blank device, and its next step, where
that commits. -/
def commitAfter (check : MainSend → Action → Bool) (actions : List Action) (t : Turn) :
    Option (MainSend × MainSend × Commit) :=
  (runList MainSend.step check (MainSend.boot Disk.blank) actions).bind fun s =>
    (s.turn t).bind fun (s', c) => c.map fun c => (s, s', c)

theorem commitAfter_eq_some {check : MainSend → Action → Bool} {actions : List Action} {t : Turn} {s s' : MainSend}
    {c : Commit} (h : commitAfter check actions t = some (s, s', c)) {ok : MainSend → Action → Prop}
    (hok : ∀ s a, check s a = true → ok s a) :
    Runs MainSend.step ok (MainSend.boot Disk.blank) s ∧ s.step (.turn t) = some (s', some c) := by
  simp only [commitAfter, Option.bind_eq_some_iff, Option.map_eq_some_iff, Prod.exists, Prod.mk.injEq] at h
  obtain ⟨s₁, hrun, s₂, c₂, hturn, c₃, rfl, rfl, rfl, rfl⟩ := h
  exact ⟨.of_runList hok .start hrun, hturn⟩

/-- The actions of a gateway. -/
def Action.gateway : Action → Bool
  | .append _ => true
  | .turn t => !t.meshNode

/-- The payload then acknowledged is not what the packer finds, and the offsets
move back. -/
theorem mainSend_commits_stale :
    ∃ s s' c, Runs MainSend.step (fun _ _ => True) (MainSend.boot Disk.blank) s ∧
      s.step (.turn Turn.gateway) = some (s', some c) ∧
      c.payload ≠ joinRaw (windowEntries c.lineSize c.disk.logs c.offsets c.pendingOffsets) ∧
      c.pendingOffsets 0 < c.offsets 0 := by
  have h : (commitAfter (fun _ _ => true) staleRun Turn.gateway).map (fun (_, _, c) => (c.offsets 0, c.pendingOffsets 0, c.payload,
      joinRaw (windowEntries c.lineSize c.disk.logs c.offsets c.pendingOffsets))) = some (78, 39, [0, 0], []) := by
    decide +kernel
  obtain ⟨⟨s, s', c⟩, hc, heq⟩ := Option.map_eq_some_iff.mp h
  simp only [Prod.mk.injEq] at heq
  obtain ⟨hoffset, hpending, hpayload, hwindow⟩ := heq
  obtain ⟨hrun, hstep⟩ := commitAfter_eq_some hc fun _ _ _ => trivial
  exact ⟨s, s', c, hrun, hstep, by rw [hpayload, hwindow]; decide, by omega⟩

theorem mainSend_commits_two :
    ∃ (s s' : MainSend) (c : Commit), s.step (.turn Turn.gateway) = some (s', some c) ∧ c.payload = [0, 0] ∧ c.Exact ∧
      ∀ i, c.Sets i (s'.offsets i) := by
  have h : (commitAfter (fun _ => Action.gateway) (staleRun.take 2) Turn.gateway).map (fun (_, _, c) => c.payload) =
      some [0, 0] := by
    decide +kernel
  obtain ⟨⟨s, s', c⟩, hc, hpayload⟩ := Option.map_eq_some_iff.mp h
  have hgateway : ∀ (s : MainSend) a, a.gateway = true → s.NodeInTurn a := by
    intro s a ha
    rcases a with appended | t
    · exact trivial
    · exact fun hmesh => by simp [Action.gateway, hmesh] at ha
  obtain ⟨hrun, hstep⟩ := commitAfter_eq_some hc hgateway
  have hok : s.NodeInTurn (.turn Turn.gateway) := hgateway s _ rfl
  obtain ⟨hexact, -, hsets⟩ := (mainSend_commits hrun hok hstep).1 c rfl
  exact ⟨s, s', c, hstep, hpayload, hexact, hsets⟩

end Dtu
