import Dtu.Framework.Crash
import Dtu.Proof.Compact
import Dtu.Proof.MainSend

/-!
# Losing power during a commit

`main_send_thread` renames the compacted logs before it saves the offsets in
their new coordinates. At every point of a commit at which the device can lose
power, each log still has what has not been acknowledged behind the offset that
will be loaded, just when the offset saved before is not behind what compaction
retains (`commit_survives_iff`).
-/

namespace Dtu

open Stdio

/-! ## What is found again -/

/-- Where the text behind an offset is found again. -/
theorem suffix_drop_iff (content : List Char) (sent loaded : Nat) :
    content.drop sent <:+ content.drop loaded ↔ content.drop sent = [] ∨ loaded ≤ sent := by
  constructor
  · intro h
    have hlen := h.length_le
    simp only [List.length_drop] at hlen
    by_cases hle : loaded ≤ sent
    · exact .inr hle
    · exact .inl (List.drop_of_length_le (by omega))
  · intro h
    rcases h with h | h
    · rw [h]
      exact List.nil_suffix
    · rw [← Nat.add_sub_cancel' h, ← List.drop_drop]
      exact List.drop_suffix _ _

/-- Where the text behind an offset is found again once its log is compacted. -/
theorem suffix_compactText_iff (content : List Char) (sent loaded : Nat) :
    content.drop sent <:+ (compactText content sent 10).drop loaded ↔
      content.drop sent = [] ∨ '\x00' ∉ content.drop sent ∧ loaded ≤ (retained content sent 10).length := by
  by_cases hnul : '\x00' ∈ content.drop sent
  · have hne : content.drop sent ≠ [] := List.ne_nil_of_mem hnul
    constructor
    · intro h
      exact absurd (List.mem_of_mem_drop (h.mem hnul)) (nul_not_mem_compactText content sent 10)
    · intro h
      rcases h with h | h
      · exact absurd h hne
      · exact absurd hnul h.1
  · have h := suffix_drop_iff (retained content sent 10 ++ content.drop sent) (retained content sent 10).length loaded
    rw [List.drop_left] at h
    rw [compactText_eq hnul, h]
    simp only [hnul, not_false_eq_true, true_and]

/-! ## Steps on the files -/

/-- What holds of each log and of the offset that will be loaded for it. -/
def Disk.Each (Q : Fin mainPathCount → List Char → Nat → Prop) (disk : Disk) : Prop :=
  ∀ i, Q i ((disk.logs i).getD []) (loadOffsets disk.offsetFile i)

theorem loadOffsets_ofFn (offsets : Offsets) : loadOffsets (some (List.ofFn offsets)) = offsets := by
  funext i
  have hlen : ¬(List.ofFn offsets).length < mainPathCount := by rw [List.length_ofFn]; omega
  have hi : (i : Nat) < (List.ofFn offsets).length := by rw [List.length_ofFn]; exact i.isLt
  simp only [loadOffsets, if_neg hlen]
  rw [List.getD_eq_getElem?_getD, List.getElem?_eq_getElem hi, List.getElem_ofFn]
  rfl

/-- What is saved is loaded. -/
theorem loadOffsets_saveOffsets (disk : Disk) (ops : List DiskOp) (offsets : Offsets) :
    loadOffsets (disk.applyAll (ops ++ saveOffsets offsets)).offsetFile = offsets := by
  rw [Disk.applyAll, List.foldl_append]
  exact loadOffsets_ofFn offsets

variable {Q : Fin mainPathCount → List Char → Nat → Prop}

theorem along_saveOffsets (disk : Disk) (offsets : Offsets) :
    Along Disk.apply (Disk.Each Q) disk (saveOffsets offsets) ↔
      disk.Each Q ∧ (∀ i, Q i ((disk.logs i).getD []) 0) ∧ ∀ i, Q i ((disk.logs i).getD []) (offsets i) := by
  rw [saveOffsets, along_cons, along_cons, along_nil]
  simp only [Disk.Each, Disk.apply, loadOffsets_ofFn]
  rfl

/-- The renames of compacted logs, one after the other. -/
theorem along_renames (disk : Disk) (f : Fin mainPathCount → Option (List Char × Nat)) (is : List (Fin mainPathCount)) :
    Along Disk.apply (Disk.Each Q) disk (is.filterMap fun i => (f i).map fun (content, _) => .rename i content) ↔
      disk.Each Q ∧ ∀ i ∈ is, ∀ r, f i = some r → Q i r.1 (loadOffsets disk.offsetFile i) := by
  induction is generalizing disk with
  | nil => simp [along_nil]
  | cons i is ih =>
    cases hf : f i with
    | none => simp [hf, ih]
    | some r =>
      have hfirst : disk.Each Q →
          ((disk.apply (.rename i r.1)).Each Q ↔ Q i r.1 (loadOffsets disk.offsetFile i)) := fun hdisk => by
        constructor
        · intro h
          simpa [Disk.apply] using h i
        · intro h j
          by_cases hj : j = i
          · subst hj
            simpa [Disk.apply] using h
          · simpa [Disk.apply, hj] using hdisk j
      rw [List.filterMap_cons_some (by rw [hf]; rfl), along_cons, ih, List.forall_mem_cons]
      constructor
      · intro hsteps
        obtain ⟨hdisk, hthen, hrest⟩ := hsteps
        refine ⟨hdisk, fun r' hr' => ?_, hrest⟩
        rw [hf] at hr'
        cases hr'
        exact (hfirst hdisk).mp hthen
      · intro hsteps
        obtain ⟨hdisk, hthen, hrest⟩ := hsteps
        exact ⟨hdisk, (hfirst hdisk).mpr (hthen r hf), hrest⟩

/-- The files after the renames. -/
theorem renames_foldl (disk : Disk) (f : Fin mainPathCount → Option (List Char × Nat)) (is : List (Fin mainPathCount)) :
    (is.filterMap fun i => (f i).map fun (content, _) => DiskOp.rename i content).foldl Disk.apply disk =
      { disk with logs := fun i => if i ∈ is then ((f i).map (·.1)).or (disk.logs i) else disk.logs i } := by
  induction is generalizing disk with
  | nil => simp
  | cons i is ih =>
    cases hf : f i with
    | none =>
      rw [List.filterMap_cons_none (by rw [hf]; rfl), ih]
      refine congrArg (fun logs => { disk with logs := logs }) (funext fun j => ?_)
      by_cases hj : j = i
      · subst hj
        simp [hf]
      · simp [hj]
    | some r =>
      rw [List.filterMap_cons_some (by rw [hf]; rfl), List.foldl_cons, ih]
      refine congrArg (fun logs => { disk with logs := logs }) (funext fun j => ?_)
      by_cases hj : j = i
      · subst hj
        simp [hf, Disk.apply]
      · simp [hj, Disk.apply]

/-! ## A commit -/

/-- What of a log is not acknowledged with a commit. -/
def Commit.unsent (c : Commit) (i : Fin mainPathCount) : List Char :=
  ((c.disk.logs i).getD []).drop (c.pendingOffsets i)

/-- At every point of a commit, what is not acknowledged is behind the offset that
will be loaded. -/
def Commit.Survives (c : Commit) : Prop :=
  Along Disk.apply (Disk.Each fun i log loaded => c.unsent i <:+ log.drop loaded) c.disk c.ops

/-- A commit compacts a log. -/
def MainSend.Compacts (s : MainSend) (t : Turn) (c : Commit) (i : Fin mainPathCount) : Prop :=
  (s.state = .try4g ∨ s.batchDone c.pendingOffsets = true) ∧ c.disk.logs i ≠ none ∧
    c.pendingOffsets i ≠ 0 ∧ (t.compact i).tmpOpens = true ∧ (t.compact i).renames = true

/-- The offsets that are in the offset file while a commit compacts. -/
def MainSend.savedOffsets (s : MainSend) (c : Commit) : Offsets :=
  if s.state = .try4g then s.offsets else c.pendingOffsets

/-- What compacting and saving the new offsets keeps at every point. -/
theorem along_compact (disk : Disk) (pending : Offsets) (io : Fin mainPathCount → CompactIo) :
    Along Disk.apply (Disk.Each fun i log loaded => ((disk.logs i).getD []).drop (pending i) <:+ log.drop loaded) disk
        (compactOps disk.logs pending io ++ saveOffsets (compactOffsets disk.logs pending io)) ↔
      ∀ i, ((disk.logs i).getD []).drop (pending i) = [] ∨
        loadOffsets disk.offsetFile i ≤ pending i ∧
          (disk.logs i ≠ none ∧ pending i ≠ 0 ∧ (io i).tmpOpens = true ∧ (io i).renames = true →
            '\x00' ∉ ((disk.logs i).getD []).drop (pending i) ∧
              loadOffsets disk.offsetFile i ≤ (retained ((disk.logs i).getD []) (pending i) 10).length) := by
  rw [along_append, compactOps, along_renames, renames_foldl, along_saveOffsets]
  simp only [Disk.Each, List.mem_finRange, true_implies, if_true, suffix_drop_iff]
  constructor
  · rintro ⟨⟨hfirst, hrenamed⟩, -⟩ i
    by_cases hnil : ((disk.logs i).getD []).drop (pending i) = []
    · exact .inl hnil
    · refine .inr ⟨(hfirst i).resolve_left hnil, fun h => ?_⟩
      exact ((suffix_compactText_iff _ _ _).mp (hrenamed i _ (compactLogFile_eq_some.mpr ⟨h, rfl⟩))).resolve_left hnil
  · intro h
    have hrenamed : ∀ i r, (compactLogFile (disk.logs i) (pending i) 10 (io i)).1 = some r →
        ((disk.logs i).getD []).drop (pending i) <:+ r.1.drop (loadOffsets disk.offsetFile i) ∧
          ((disk.logs i).getD []).drop (pending i) <:+ r.1.drop r.2 := fun i r hr => by
      obtain ⟨hcan, rfl⟩ := compactLogFile_eq_some.mp hr
      refine ⟨(suffix_compactText_iff _ _ _).mpr ?_, (suffix_compactText_iff _ _ _).mpr ?_⟩
      · exact (h i).imp_right fun h => h.2 hcan
      · exact (h i).imp_right fun h => ⟨(h.2 hcan).1, Nat.le_refl _⟩
    -- A log is compacted, or is as it was with its offset.
    have hafter : ∀ i, ((disk.logs i).getD []).drop (pending i) <:+
          ((((compactLogFile (disk.logs i) (pending i) 10 (io i)).1.map (·.1)).or (disk.logs i)).getD []).drop
            (loadOffsets disk.offsetFile i) ∧
        ((disk.logs i).getD []).drop (pending i) <:+
          ((((compactLogFile (disk.logs i) (pending i) 10 (io i)).1.map (·.1)).or (disk.logs i)).getD []).drop
            (compactOffsets disk.logs pending io i) := fun i => by
      rw [compactOffsets]
      cases hr : (compactLogFile (disk.logs i) (pending i) 10 (io i)).1 with
      | none => exact ⟨(suffix_drop_iff _ _ _).mpr ((h i).imp_right And.left), List.suffix_refl _⟩
      | some r => exact hrenamed i r hr
    refine ⟨⟨fun i => (h i).imp_right And.left, fun i r hr => (hrenamed i r hr).1⟩, fun i => (hafter i).1, fun i => ?_,
      fun i => (hafter i).2⟩
    exact (hafter i).1.trans (List.drop_suffix _ _)

/-- An iteration saves the offsets it changes. -/
theorem MainSend.Turned.saved {s s' : MainSend} {t : Turn} {c : Option Commit} (h : s.Turned t s' c)
    (hsaved : loadOffsets s.disk.offsetFile = s.offsets) : loadOffsets s'.disk.offsetFile = s'.offsets := by
  cases h with
  | node => exact loadOffsets_saveOffsets _ [] _
  | packed hmesh hst hr hkept hdisk => rw [hdisk, hkept.offsets, hsaved]
  | waited appended hmesh hkept hdisk =>
    rw [hdisk, hkept.offsets]
    exact hsaved
  | opened hmesh hst hidle hoffsets hdisk => rw [hdisk, hoffsets, hsaved]
  | sent4g hmesh hst hoffsets hdisk =>
    rw [hdisk, hoffsets]
    exact loadOffsets_saveOffsets _ _ _
  | sentBd hmesh hst hr hret hcount hdone hoffsets hdisk =>
    rw [hdisk, hoffsets]
    simp only [MainSend.commitBd, hdone, Bool.false_eq_true, if_false, List.append_nil]
    exact loadOffsets_saveOffsets _ [] _
  | doneBd hmesh hst hr hret hcount hdone hoffsets hdisk =>
    rw [hdisk, hoffsets]
    simp only [MainSend.commitBd, hdone, if_true]
    rw [← List.append_assoc]
    exact loadOffsets_saveOffsets _ _ _

/-- The offset file has the offsets of the thread. -/
theorem mainSend_saved {disk : Disk} {s : MainSend}
    (hrun : Runs MainSend.step (fun _ _ => True) (MainSend.boot disk) s) :
    loadOffsets s.disk.offsetFile = s.offsets := by
  refine hrun.invariant (I := fun s => loadOffsets s.disk.offsetFile = s.offsets) rfl ?_
  rintro s (appended | t) s' c ih - hstep
  · cases hstep
    exact ih
  · exact (MainSend.turned hstep).saved ih

/-- A commit over BeiDou saves its offsets before it compacts. -/
theorem commitBd_survives_iff {s : MainSend} (t : Turn) (payload : List UInt8) (pending : Offsets)
    (hsaved : loadOffsets s.disk.offsetFile = s.offsets) :
    (s.commitBd t payload pending).Survives ↔
      ∀ i, (s.commitBd t payload pending).unsent i = [] ∨ s.offsets i ≤ pending i ∧
        (s.batchDone pending = true ∧ (s.disk.append t.appended).logs i ≠ none ∧ pending i ≠ 0 ∧
            (t.compact i).tmpOpens = true ∧ (t.compact i).renames = true →
          '\x00' ∉ (s.commitBd t payload pending).unsent i ∧
            pending i ≤ (retained (((s.disk.append t.appended).logs i).getD []) (pending i) 10).length) := by
  have hload : ∀ i, loadOffsets (s.disk.append t.appended).offsetFile i = s.offsets i := fun i => congrFun hsaved i
  have hsave : Along Disk.apply
      (Disk.Each fun i log loaded => (s.commitBd t payload pending).unsent i <:+ log.drop loaded)
      (s.disk.append t.appended) (saveOffsets pending) ↔
      ∀ i, (s.commitBd t payload pending).unsent i = [] ∨ s.offsets i ≤ pending i := by
    simp only [along_saveOffsets, Disk.Each, Commit.unsent, MainSend.commitBd, suffix_drop_iff, hload]
    simp
  have hthen := along_compact ((s.disk.append t.appended).applyAll (saveOffsets pending)) pending t.compact
  have hpending : loadOffsets ((s.disk.append t.appended).applyAll (saveOffsets pending)).offsetFile = pending :=
    loadOffsets_saveOffsets _ [] pending
  simp only [hpending, Nat.le_refl, true_and] at hthen
  have hsplit : (s.commitBd t payload pending).Survives ↔
      (∀ i, (s.commitBd t payload pending).unsent i = [] ∨ s.offsets i ≤ pending i) ∧
        (s.batchDone pending = true → ∀ i, (s.commitBd t payload pending).unsent i = [] ∨
          ((s.disk.append t.appended).logs i ≠ none ∧ pending i ≠ 0 ∧
              (t.compact i).tmpOpens = true ∧ (t.compact i).renames = true →
            '\x00' ∉ (s.commitBd t payload pending).unsent i ∧
              pending i ≤ (retained (((s.disk.append t.appended).logs i).getD []) (pending i) 10).length)) := by
    rw [← hsave]
    cases hdone : s.batchDone pending with
    | false => simp [Commit.Survives, MainSend.commitBd, hdone]
    | true =>
      simp only [Commit.Survives, MainSend.commitBd, hdone, if_true, along_append, true_implies]
      exact and_congr Iff.rfl ((along_append ..).symm.trans hthen)
  rw [hsplit, forall_comm, ← forall_and]
  refine forall_congr' fun i => ?_
  by_cases hnil : (s.commitBd t payload pending).unsent i = []
  · simp only [hnil, true_or, implies_true, and_self]
  · simp only [hnil, false_or, and_imp]

/-- At every point of a commit at which power can be lost, what has not been
acknowledged with it is behind the offset that will be loaded for its log, just
when for each log with such text the offsets do not move back, and, if the log
is compacted, the offset saved at that time is not behind what is retained.
Nothing is appended to a log between the steps of a commit. -/
theorem commit_survives_iff {disk : Disk} {s s' : MainSend} {t : Turn} {c : Commit}
    (hrun : Runs MainSend.step (fun _ _ => True) (MainSend.boot disk) s) (hstep : s.step (.turn t) = some (s', some c)) :
    c.Survives ↔ ∀ i, c.unsent i = [] ∨ s.offsets i ≤ c.pendingOffsets i ∧
      (s.Compacts t c i → '\x00' ∉ c.unsent i ∧
        s.savedOffsets c i ≤ (retained ((c.disk.logs i).getD []) (c.pendingOffsets i) 10).length) := by
  have hsaved := mainSend_saved hrun
  cases MainSend.turned hstep with
  | sent4g hmesh hst =>
    refine (along_compact s.disk s.pendingOffsets t.compact).trans ?_
    simp only [MainSend.Compacts, MainSend.savedOffsets, hst, true_or, true_and, if_true, hsaved]
    rfl
  | @sentBd _ r hmesh hst =>
    rw [commitBd_survives_iff t r.rawBuf r.pendingOffsets hsaved]
    simp only [MainSend.Compacts, MainSend.savedOffsets, hst, reduceCtorEq, false_or, if_false]
    rfl
  | @doneBd _ r hmesh hst =>
    rw [commitBd_survives_iff t r.rawBuf r.pendingOffsets hsaved]
    simp only [MainSend.Compacts, MainSend.savedOffsets, hst, reduceCtorEq, false_or, if_false]
    rfl

/-- A long message is sent; then ten short ones are packed and another one logged. -/
def shrunkRun : List Action :=
  [.append (firstLog [long]), .turn Turn.gateway, .turn Turn.gateway,
    .append (firstLog ([1, 2, 3, 4, 5, 6, 7, 8, 9, 10].map short)), .turn Turn.gateway, .append (firstLog [short 11])]

/-- When the ten are sent, the log gets shorter than the offset saved before: if
power is lost then, the message logged last is skipped. -/
theorem commit_survives_shrunk :
    ∃ s s' c, Runs MainSend.step (fun _ _ => True) (MainSend.boot Disk.blank) s ∧
      s.step (.turn Turn.gateway) = some (s', some c) ∧ ¬c.Survives ∧
      c.unsent 0 = (short 11).line ∧
      (((c.disk.applyAll (c.ops.take 1)).logs 0).getD []).drop
        (loadOffsets (c.disk.applyAll (c.ops.take 1)).offsetFile 0) = [] := by
  have h : (commitAfter (fun _ _ => true) shrunkRun Turn.gateway).map (fun (_, _, c) =>
      (c.unsent 0, (((c.disk.applyAll (c.ops.take 1)).logs 0).getD []).drop
        (loadOffsets (c.disk.applyAll (c.ops.take 1)).offsetFile 0))) =
      some ((short 11).line, []) := by
    decide +kernel
  obtain ⟨⟨s, s', c⟩, hc, heq⟩ := Option.map_eq_some_iff.mp h
  obtain ⟨hunsent, hrest⟩ := Prod.mk.inj heq
  obtain ⟨hrun, hstep⟩ := commitAfter_eq_some hc fun _ _ _ => trivial
  refine ⟨s, s', c, hrun, hstep, fun hsurvives => ?_, hunsent, hrest⟩
  have hsuffix : c.unsent 0 <:+ _ := hsurvives 1 0
  exact Record.line_ne_nil _ (hunsent ▸ List.suffix_nil.mp (hrest ▸ hsuffix))

/-- The first commit of a log does, as nothing is behind its saved offset. -/
theorem commit_survives_two :
    ∃ (s s' : MainSend) (c : Commit), s.step (.turn Turn.gateway) = some (s', some c) ∧
      c.unsent 0 = (short 1).line ∧ c.Survives := by
  have h : (commitAfter (fun _ _ => true) (staleRun.take 3) Turn.gateway).map (fun (s, _, c) =>
      (c.unsent 0, s.state, decide (∀ i, s.offsets i = 0 ∧ '\x00' ∉ c.unsent i))) =
      some ((short 1).line, .try4g, true) := by
    decide +kernel
  obtain ⟨⟨s, s', c⟩, hc, heq⟩ := Option.map_eq_some_iff.mp h
  simp only [Prod.mk.injEq, decide_eq_true_eq] at heq
  obtain ⟨hunsent, hst, hzero⟩ := heq
  obtain ⟨hrun, hstep⟩ : Runs MainSend.step (fun _ _ => True) _ s ∧ _ := commitAfter_eq_some hc fun _ _ _ => trivial
  refine ⟨s, s', c, hstep, hunsent, (commit_survives_iff hrun hstep).mpr fun i => .inr ⟨?_, fun _ => ⟨(hzero i).2, ?_⟩⟩⟩
  · rw [(hzero i).1]
    exact Nat.zero_le _
  · rw [MainSend.savedOffsets, if_pos hst, (hzero i).1]
    exact Nat.zero_le _

end Dtu
