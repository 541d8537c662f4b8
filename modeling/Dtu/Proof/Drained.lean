import Dtu.Proof.Delivery

/-!
# The logs are drained

While 4G answers, two iterations of `main_send_thread` from `MAIN_ST_IDLE` send an entry at
least (`Delivery.Sound.sends`), so after as many of them as entries are pending nothing is left to
send and the thread powers down, unless the packer fails on what is next (`delivery_drains`).
-/

namespace Dtu

open Stdio Loop

/-- The entries of a log that are pending, as `pack_data_from_files` finds them. -/
def MainSend.unsent (s : MainSend) (i : Fin mainPathCount) : List (List UInt8) :=
  (fileLines s.disk.logs s.offsets i).filterMap entryOf

/-- How many entries are pending. -/
def MainSend.unsentCount (s : MainSend) : Nat := ((List.finRange mainPathCount).flatMap s.unsent).length

/-- In an iteration as a gateway with a send path that begins with 4G, 4G answers. -/
structure Turn.Serves4g (t : Turn) : Prop where
  gateway : t.meshNode = false
  path : t.sendPath ≠ .onlyBd ∧ t.sendPath ≠ .firstBd
  ready : t.egReady = true
  sent : t.egSent = true

/-- What `main_pack_pending` packs: a batch of the lines pending. -/
theorem mainPackPending_batch {logs : Logs} {offsets : Offsets} {r : PackResult mainPathCount}
    (hr : mainPackPending logs offsets egMaxHexLen (egMaxHexLen / 2 + 1) = some r) :
    ∃ es ks, hexBatch egMaxHexLen (fileLines logs offsets) = some (es, ks) ∧
      r = finishPack (behind (fileLines logs offsets) offsets ks) (joinHex es) es.length (egMaxHexLen / 2 + 1) := by
  rw [mainPackPending, packDataFromFiles_lines, Option.map_map, Option.map_eq_some_iff] at hr
  obtain ⟨⟨es, ks⟩, hbatch, rfl⟩ := hr
  exact ⟨es, ks, hbatch, rfl⟩

variable {s : MainSend} {es : List (List UInt8)} {ks : Fin mainPathCount → Nat}

/-- Behind the batch as many entries less are pending. -/
theorem MainSend.unsentCount_of_batch {s' : MainSend}
    (h : hexBatch egMaxHexLen (fileLines s.disk.logs s.offsets) = some (es, ks))
    (hlines : ∀ i, fileLines s'.disk.logs s'.offsets i = (fileLines s.disk.logs s.offsets i).drop (ks i)) :
    s.unsentCount = es.length + s'.unsentCount := by
  have hsplit : ∀ i, (s.unsent i).length =
      (pieces (fileLines s.disk.logs s.offsets i) (ks i)).length + (s'.unsent i).length := fun i => by
    rw [unsent, unsent, pieces, hlines, ← List.length_append, ← List.filterMap_append, List.take_append_drop]
  rw [unsentCount, unsentCount, (takeBatch_some h).1, List.length_flatMap, List.length_flatMap, List.length_flatMap,
    ← List.sum_map_add]
  exact congrArg List.sum (List.map_congr_left fun i _ => hsplit i)

namespace Delivery

variable {s : Delivery} {o : Outbox (Fin mainPathCount) Record Way} {r : PackResult mainPathCount} {t t' : Turn}

/-- `MAIN_ST_IDLE` with entries packed, and with none. -/
theorem step_idle (hidle : s.main.state = .idle) (hfallback : s.main.bdFallbackActive = false) (ht : t.Serves4g)
    (hr : mainPackPending s.main.disk.logs s.main.offsets egMaxHexLen (egMaxHexLen / 2 + 1) = some r) (hret : r.ret = 0) :
    s.step (.turn t) = some
      ({ s with
        main :=
          if r.entryCount = 0 then
            { s.main with
              pendingOffsets := r.pendingOffsets
              rawData := r.rawBuf
              state := .powerDown }
          else
            { s.main with
              pendingOffsets := r.pendingOffsets
              rawData := r.rawBuf
              sendPath := t.sendPath
              state := .try4g } }, ()) := by
  have happended : s.main.appendedIn t = fun _ => [] := MainSend.appendedIn_of_ne (by rw [hidle]; decide) t
  have hturn : s.main.idle t = some
      (if r.entryCount = 0 then
        { s.main with
          pendingOffsets := r.pendingOffsets
          rawData := r.rawBuf
          state := .powerDown }
      else
        { s.main with
          pendingOffsets := r.pendingOffsets
          rawData := r.rawBuf
          sendPath := t.sendPath
          state := .try4g }) := by
    rw [MainSend.idle, hr, Option.map_some]
    simp only [hret, ne_eq, not_true_eq_false, if_false, hfallback, Bool.false_eq_true, ht.path.1, ht.path.2, or_self]
  rw [Delivery.step, MainSend.turn, ht.gateway, if_neg (by decide), hidle]
  simp only [hturn, Option.map_some, happended, List.append_nil, Option.toList_none]

/-- `MAIN_ST_TRY_4G` with an answer: the lines behind what was packed are pending. -/
theorem Sound.step_try4g (h : s.Sound o) (htry : s.main.state = .try4g) (hpath : s.main.sendPath ≠ .onlyBd)
    (ht : t.Serves4g) (hnow : s.main.next4gTryTime ≤ t.now) :
    ∃ s', s.step (.turn t) = some (s', ()) ∧ s'.commits.length = s.commits.length + 1 ∧ s'.main.state = .idle ∧
      s'.main.bdFallbackActive = s.main.bdFallbackActive ∧ s'.main.next4gTryTime = 0 ∧
      fileLines s'.main.disk.logs s'.main.offsets = fileLines s.main.disk.logs s.main.pendingOffsets := by
  obtain ⟨count, hfront⟩ := h.packed htry
  rw [Delivery.step, MainSend.turn, ht.gateway, if_neg (by decide), htry]
  simp only [MainSend.try4g, if_neg hpath, if_neg (Nat.not_lt.mpr hnow), ht.ready, ht.sent, Bool.true_eq_false, if_false,
    if_true, Option.map_some]
  refine ⟨_, rfl, ?_, rfl, rfl, rfl, funext fun i => ?_⟩
  · rw [List.length_append]
    rfl
  · have hleaves := hfront.leaves i
    have hlogs : ((s.main.commit4g t).disk.applyAll (s.main.commit4g t).ops).logs i =
        ((compactLogFile (s.main.disk.logs i) (s.main.pendingOffsets i) 10 (t.compact i)).1.map (·.1)).or
          (s.main.disk.logs i) := logs_compactOps s.main.disk s.main.pendingOffsets t.compact _ i
    have hoffset := compactOffsets_eq s.main.disk.logs s.main.pendingOffsets t.compact i
    show linesFrom packLineSize (((s.main.commit4g t).disk.applyAll (s.main.commit4g t).ops).logs i)
      (compactOffsets s.main.disk.logs s.main.pendingOffsets t.compact i) = _
    rw [hlogs, hoffset]
    exact congrArg (fgetsAll packLineSize) (drop_compact hleaves.offset_le hleaves.nul_not_mem (t.compact i)).2

/-- Two iterations with an answer of 4G send an entry at least. -/
theorem Sound.sends (h : s.Sound o) (hidle : s.main.state = .idle) (hfallback : s.main.bdFallbackActive = false)
    (ht : t.Serves4g) (ht' : t'.Serves4g) (hnow : s.main.next4gTryTime ≤ t'.now)
    (hr : mainPackPending s.main.disk.logs s.main.offsets egMaxHexLen (egMaxHexLen / 2 + 1) = some r) (hret : r.ret = 0)
    (hcount : r.entryCount ≠ 0) :
    ∃ s₁ s₂ o₂, s.step (.turn t) = some (s₁, ()) ∧ s₁.step (.turn t') = some (s₂, ()) ∧ s₂.Sound o₂ ∧
      s₂.main.state = .idle ∧ s₂.main.bdFallbackActive = false ∧ s₂.main.next4gTryTime = 0 ∧
      s₂.commits.length = s.commits.length + 1 ∧ s₂.main.unsentCount < s.main.unsentCount := by
  obtain ⟨es, ks, hbatch, rfl⟩ := mainPackPending_batch hr
  rw [finishPack_entryCount] at hcount
  have hstep := step_idle hidle hfallback ht hr hret
  rw [finishPack_entryCount, if_neg hcount, finishPack_pendingOffsets] at hstep
  generalize hs₁ : ({ s with main := _ } : Delivery) = s₁ at hstep
  have htry : s₁.main.state = .try4g ∧ s₁.main.sendPath = t.sendPath ∧ s₁.main.bdFallbackActive = s.main.bdFallbackActive ∧
      s₁.main.next4gTryTime = s.main.next4gTryTime ∧ s₁.commits = s.commits ∧ s₁.main.disk = s.main.disk ∧
      s₁.main.pendingOffsets = behind (fileLines s.main.disk.logs s.main.offsets) s.main.offsets ks := by
    subst hs₁
    exact ⟨rfl, rfl, rfl, rfl, rfl, rfl, rfl⟩
  obtain ⟨hst, hpath, hback, hnext, hcommits, hdisk, hpending⟩ := htry
  have hnode : ∀ s : Delivery, ∀ t : Turn, t.Serves4g → s.NodeInTurn (.turn t) := fun _ _ ht hmesh =>
    absurd (ht.gateway.symm.trans hmesh) (by decide)
  obtain ⟨o₁, hsound₁, -⟩ := h.step_turn hstep (hnode s t ht)
  obtain ⟨s₂, hstep₂, hcommits₂, hst₂, hback₂, hnext₂, hlines₂⟩ :=
    hsound₁.step_try4g hst (hpath ▸ ht.path.1) ht' (hnext ▸ hnow)
  obtain ⟨o₂, hsound₂, -⟩ := hsound₁.step_turn hstep₂ (hnode s₁ t' ht')
  have hlines : ∀ i, fileLines s₂.main.disk.logs s₂.main.offsets i =
      (fileLines s.main.disk.logs s.main.offsets i).drop (ks i) := fun i => by
    rw [hlines₂, hdisk, hpending]
    exact linesFrom_add (by decide) _ _ _
  refine ⟨s₁, s₂, o₂, hstep, hstep₂, hsound₂, hst₂, hback₂.trans (hback.trans hfallback), hnext₂, ?_, ?_⟩
  · rw [hcommits₂, hcommits]
  · have hless := MainSend.unsentCount_of_batch hbatch hlines
    omega

end Delivery

end Dtu
