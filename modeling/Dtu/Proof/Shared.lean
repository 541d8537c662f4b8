import Dtu.Framework.Runs
import Dtu.Impl.Shared
import Dtu.Proof.BdLink
import Dtu.Proof.LoraSend
import Dtu.Proof.Progress
import Dtu.Proof.Retain

/-!
# The offsets of one thread under the work of the other

`main_send_thread` rewrites a log when it compacts it, and moves only its own offset
with the text. So the offset of `lora_transform_thread` stays at the first line that it
has not packed only as long as no line before it is dropped (`SharedLogs.Spares`,
`shared_aligned`).
-/

namespace Dtu

open Stdio Loop

/-- An offset in a log is at the first line that has not been packed: the lines before
have been packed once, and the others not. -/
def AlignedLog (content : List Char) (offset : Nat) (lines : Option (List TrackedLine)) : Prop :=
  ∃ packed rest, lines = some (packed ++ rest) ∧ content = linesText (packed ++ rest) ∧
    offset = (linesText packed).length ∧ (∀ l ∈ packed, l.packed = 1) ∧ ∀ l ∈ rest, l.packed = 0

namespace SharedLogs

/-- The offset of `lora_transform_thread` in each log is at the first line that it has not
packed; a line that has been dropped was not appended in node mode, or has been packed
once. -/
structure Aligned (s : SharedLogs) : Prop where
  lines : ∀ i, AlignedLog ((s.main.disk.logs (serialLog i)).getD []) (s.loraOffsets i) (s.lines i)
  dropped : ∀ i, ∀ l ∈ s.dropped i, l.node = true → l.packed = 1

/-- The entries of the lines that a call of `pack_data_from_files` passes. -/
def passedEntries (s : SharedLogs) (pending : Fin 2 → Nat) : List (List UInt8) :=
  (List.finRange 2).flatMap fun i =>
    recordEntries ((passedLines (s.loraOffsets i) (pending i) ((s.lines i).getD [])).map TrackedLine.record)

/-- `main_send_thread` compacts from the start of a line, and drops no line that
`lora_transform_thread` has packed, or that was appended in node mode. That thread passes
over no line with fewer than two data bytes. -/
def Spares (s : SharedLogs) (a : SharedAction) : Prop :=
  (∀ t main c, a = .main t → s.main.turn t = some (main, some c) → ∀ i, (c.renamed (serialLog i)).isSome →
    ∃ ls k, s.appendLines (s.appendedIn t) i = some ls ∧ lineAt ls (c.pendingOffsets (serialLog i)) = some k ∧
      ∀ l ∈ (compactLines ls k).2, l.packed = 0 ∧ l.node = false) ∧
  (a = .lora → ∀ b pending, s.pack = some (b, pending) → ∀ i ls, s.lines i = some ls →
    ∀ l ∈ passedLines (s.loraOffsets i) (pending i) ls, 2 ≤ l.record.payload.length)

instance (s : SharedLogs) : (a : SharedAction) → Decidable (s.Spares a)
  | .main t => decidable_of_iff
      (∀ c ∈ (s.main.turn t).bind (·.2), ∀ i, (c.renamed (serialLog i)).isSome = true →
        ∃ ls ∈ s.appendLines (s.appendedIn t) i, ∃ k ∈ lineAt ls (c.pendingOffsets (serialLog i)),
          ∀ l ∈ (compactLines ls k).2, l.packed = 0 ∧ l.node = false) (by
        constructor
        · intro h
          refine ⟨fun t' main c ht hturn i hrenamed => ?_, fun ha => SharedAction.noConfusion ha⟩
          cases ht
          obtain ⟨ls, hls, k, hk, hdropped⟩ := h c (Option.mem_def.mpr (by rw [hturn]; rfl)) i hrenamed
          exact ⟨ls, k, hls, hk, hdropped⟩
        · rintro ⟨h, -⟩ c hc i hrenamed
          obtain ⟨⟨main, c'⟩, hturn, hc⟩ := Option.bind_eq_some_iff.mp hc
          cases hc
          obtain ⟨ls, k, hls, hk, hdropped⟩ := h t main c rfl hturn i hrenamed
          exact ⟨ls, hls, k, hk, hdropped⟩)
  | .lora => decidable_of_iff
      (∀ r ∈ s.pack, ∀ i, ∀ ls ∈ s.lines i, ∀ l ∈ passedLines (s.loraOffsets i) (r.2 i) ls,
        2 ≤ l.record.payload.length) (by
        constructor
        · intro h
          exact ⟨fun _ _ _ ha => SharedAction.noConfusion ha, fun _ b pending hpack i ls hls l hl =>
            h (b, pending) hpack i ls hls l hl⟩
        · rintro ⟨-, h⟩ ⟨b, pending⟩ hpack i ls hls l hl
          exact h rfl b pending hpack i ls hls l hl)
  | .mesh _ => isTrue ⟨fun _ _ _ ha => SharedAction.noConfusion ha, fun ha => SharedAction.noConfusion ha⟩
  | .append _ => isTrue ⟨fun _ _ _ ha => SharedAction.noConfusion ha, fun ha => SharedAction.noConfusion ha⟩

end SharedLogs

/-! ## Lines -/

theorem linesText_append (ls ms : List TrackedLine) : linesText (ls ++ ms) = linesText ls ++ linesText ms := by
  rw [linesText, List.map_append, logText_append]
  rfl

theorem linesText_cons (l : TrackedLine) (ls : List TrackedLine) : linesText (l :: ls) = l.record.line ++ linesText ls :=
  logText_cons _ _

theorem linesText_tracked (node : Bool) (rs : List Record) : linesText (tracked node rs) = logText rs := by
  rw [linesText, tracked, List.map_map]
  exact congrArg logText (List.map_id rs)

theorem length_linesText_take (ls : List TrackedLine) (k : Nat) :
    (linesText (ls.take k)).length = lineStart (ls.map TrackedLine.record) k := by
  rw [lineStart, linesText, List.map_take]

theorem cutLines_append (start stop pos : Nat) (ls ms : List TrackedLine) :
    cutLines start stop pos (ls ++ ms) =
      cutLines start stop pos ls ++ cutLines start stop (pos + (linesText ls).length) ms := by
  induction ls generalizing pos with
  | nil => rfl
  | cons l ls ih =>
    rw [List.cons_append, cutLines, cutLines, ih, linesText_cons, List.length_append, Nat.add_assoc]
    rfl

theorem cutLines_before {start : Nat} (stop : Nat) {pos : Nat} {ls : List TrackedLine}
    (h : pos + (linesText ls).length ≤ start) : cutLines start stop pos ls = ls.map (·, false) := by
  induction ls generalizing pos with
  | nil => rfl
  | cons l ls ih =>
    have hpos := List.length_pos_iff.mpr l.record.line_ne_nil
    rw [linesText_cons, List.length_append] at h
    rw [cutLines, ih (by omega), decide_eq_false (by omega)]
    rfl

theorem cutLines_between {start stop pos : Nat} {ls : List TrackedLine} (hstart : start ≤ pos)
    (hstop : pos + (linesText ls).length ≤ stop) : cutLines start stop pos ls = ls.map (·, true) := by
  induction ls generalizing pos with
  | nil => rfl
  | cons l ls ih =>
    rw [linesText_cons, List.length_append] at hstop
    rw [cutLines, ih (by omega) (by omega), decide_eq_true (by omega)]
    rfl

theorem cutLines_behind (start : Nat) {stop pos : Nat} {ls : List TrackedLine} (h : stop ≤ pos) :
    cutLines start stop pos ls = ls.map (·, false) := by
  induction ls generalizing pos with
  | nil => rfl
  | cons l ls ih =>
    have hpos := List.length_pos_iff.mpr l.record.line_ne_nil
    rw [cutLines, ih (by omega), decide_eq_false (by omega)]
    rfl

/-- Between the starts of two lines lie the lines between. -/
theorem cutLines_lines (ls ms ns : List TrackedLine) :
    cutLines (linesText ls).length (linesText (ls ++ ms)).length 0 (ls ++ ms ++ ns) =
      ls.map (·, false) ++ ms.map (·, true) ++ ns.map (·, false) := by
  have htext : (linesText (ls ++ ms)).length = (linesText ls).length + (linesText ms).length := by
    rw [linesText_append, List.length_append]
  rw [cutLines_append, cutLines_append, cutLines_before _ (by omega), cutLines_between (by omega) (by omega),
    cutLines_behind _ (by omega)]

theorem passedLines_lines (ls ms ns : List TrackedLine) :
    passedLines (linesText ls).length (linesText (ls ++ ms)).length (ls ++ ms ++ ns) = ms := by
  rw [passedLines, cutLines_lines]
  simp [List.filter_map, Function.comp_def]

theorem packLines_lines (ls ms ns : List TrackedLine) :
    packLines (linesText ls).length (linesText (ls ++ ms)).length (ls ++ ms ++ ns) =
      ls ++ ms.map TrackedLine.pack ++ ns := by
  rw [packLines, cutLines_lines]
  simp [Function.comp_def]

/-! ## Compaction -/

theorem linesText_eq (ls : List TrackedLine) : linesText ls = (ls.map fun l => l.record.line).flatten := by
  rw [linesText, logText, List.flatMap_def, List.map_map]
  rfl

theorem textLine_tracked (ls : List TrackedLine) : ∀ line ∈ ls.map fun l => l.record.line, TextLine line := by
  intro line hline
  obtain ⟨l, -, rfl⟩ := List.mem_map.mp hline
  exact textLine_line l.record

theorem drop_linesText (ls : List TrackedLine) (k : Nat) :
    (linesText ls).drop (linesText (ls.take k)).length = linesText (ls.drop k) := by
  conv_lhs => rw [← List.take_append_drop k ls, linesText_append]
  rw [List.take_append_drop, List.drop_left]

theorem retainedText_lines (kept : List (Option UInt32)) (ls : List TrackedLine) (legacyFrameId : UInt32) :
    retainedText kept (ls.map fun l => l.record.line) legacyFrameId =
      linesText (ls.filter fun l => frameIdIsKept kept l.record.msg.frameId) := by
  induction ls with
  | nil => rfl
  | cons l ls ih =>
    rw [List.map_cons, retainedText, lineFrameId_line, List.filter_cons]
    simp only [ih, (textLine_line l.record).cstr_eq]
    split
    · rw [linesText_cons]
    · rfl

/-- `compact_log_file` at the start of a line leaves lines. -/
theorem compactText_lines (ls : List TrackedLine) (k : Nat) :
    compactText (linesText ls) (linesText (ls.take k)).length 10 = linesText (compactLines ls k).1 := by
  have hlines := textLine_tracked ls
  have hsent : sentLines (linesText (ls.take k)).length 0 (ls.map fun l => l.record.line) =
      (ls.take k).map fun l => l.record.line := by
    have h := sentLines_take (fun line hline => (hlines line hline).ne_nil) k 0
    rwa [Nat.zero_add, ← List.map_take, ← linesText_eq] at h
  have hretained : retained (linesText ls) (linesText (ls.take k)).length 10 =
      linesText ((ls.take k).filter (keepsLine ls k)) := by
    have hread : fgetsAll logCompactMaxLine (linesText ls) = ls.map fun l => l.record.line := by
      rw [linesText_eq, fgetsAll_textLines hlines]
    simp only [retained, hread, hsent, retainedText_lines]
    rfl
  have hnul : '\x00' ∉ linesText (ls.drop k) := by
    rw [linesText_eq]
    exact nul_not_mem_flatten (textLine_tracked _)
  rw [compactText_eq (by rwa [drop_linesText]), hretained, drop_linesText, compactLines, linesText_append]

/-! ## The iterations of `main_send_thread` -/

/-- After steps on the files a log is as the last one that renames over it leaves it. -/
theorem logs_applyAll (disk : Disk) (ops : List DiskOp) (i : Fin mainPathCount) :
    (disk.applyAll ops).logs i =
      match (ops.filterMap (DiskOp.renamed i)).getLast? with
      | some content => some content
      | none => disk.logs i := by
  induction ops using List.reverseRecOn with
  | nil => rfl
  | append_singleton ops op ih =>
    rw [Disk.applyAll, List.foldl_append, ← Disk.applyAll, List.filterMap_append]
    cases op with
    | rename j content =>
      show (if i = j then some content else (disk.applyAll ops).logs i) = _
      by_cases hij : j = i
      · simp [DiskOp.renamed, hij]
      · rw [if_neg (Ne.symm hij), ih]
        simp [DiskOp.renamed, hij]
    | truncateOffsets =>
      show (disk.applyAll ops).logs i = _
      rw [ih]
      simp [DiskOp.renamed]
    | writeOffsets offsets =>
      show (disk.applyAll ops).logs i = _
      rw [ih]
      simp [DiskOp.renamed]

/-- What the four calls of `compact_log_file` rename over a log. -/
theorem renamed_compactOps (logs : Logs) (offsets : Offsets) (io : Fin mainPathCount → CompactIo)
    (i : Fin mainPathCount) :
    (compactOps logs offsets io).filterMap (DiskOp.renamed i) =
      ((compactLogFile (logs i) (offsets i) 10 (io i)).1.map (·.1)).toList := by
  have hpick : ∀ js : List (Fin mainPathCount), js.Nodup →
      (js.filterMap fun j => (compactLogFile (logs j) (offsets j) 10 (io j)).1.map fun renamed =>
        DiskOp.rename j renamed.1).filterMap (DiskOp.renamed i) =
      if i ∈ js then ((compactLogFile (logs i) (offsets i) 10 (io i)).1.map (·.1)).toList else [] := by
    intro js hjs
    induction js with
    | nil => rfl
    | cons j js ih =>
      obtain ⟨hj, hjs⟩ := List.nodup_cons.mp hjs
      specialize ih hjs
      by_cases hij : j = i
      · subst hij
        rw [if_neg hj] at ih
        rw [if_pos List.mem_cons_self]
        cases hrename : (compactLogFile (logs j) (offsets j) 10 (io j)).1 with
        | none => simp [hrename, ih]
        | some renamed => simp [hrename, ih, DiskOp.renamed]
      · have hmem : i ∈ j :: js ↔ i ∈ js := by simp [Ne.symm hij]
        cases hrename : (compactLogFile (logs j) (offsets j) 10 (io j)).1 with
        | none => simpa [hrename, hmem] using ih
        | some renamed => simpa [hrename, hmem, DiskOp.renamed, hij] using ih
  refine (hpick _ (List.nodup_finRange _)).trans ?_
  rw [if_pos (List.mem_finRange i)]

theorem renamed_saveOffsets (offsets : Offsets) (i : Fin mainPathCount) :
    (saveOffsets offsets).filterMap (DiskOp.renamed i) = [] := rfl

/-- The commits of `main_send_thread` rename over a log what `compact_log_file` makes of
it at `pending_offsets`. -/
structure Commit.Compacts (c : Commit) (t : Turn) : Prop where
  renamed : ∀ i content, c.renamed i = some content →
    ∃ newOffset, (compactLogFile (c.disk.logs i) (c.pendingOffsets i) 10 (t.compact i)).1 = some (content, newOffset)

theorem Commit.compacts_of_eq {c : Commit} {t : Turn} (front back : List DiskOp)
    (hops : c.ops = front ++ (compactOps c.disk.logs c.pendingOffsets t.compact ++ back))
    (hfront : ∀ i, front.filterMap (DiskOp.renamed i) = []) (hback : ∀ i, back.filterMap (DiskOp.renamed i) = []) :
    c.Compacts t := by
  refine ⟨fun i content h => ?_⟩
  rw [Commit.renamed, hops, List.filterMap_append, List.filterMap_append, hfront, hback, renamed_compactOps,
    List.nil_append, List.append_nil] at h
  cases hrename : (compactLogFile (c.disk.logs i) (c.pendingOffsets i) 10 (t.compact i)).1 with
  | none =>
    rw [hrename] at h
    cases h
  | some renamed =>
    rw [hrename] at h
    cases h
    exact ⟨renamed.2, rfl⟩

theorem MainSend.commit4g_compacts (m : MainSend) (t : Turn) : (m.commit4g t).Compacts t :=
  Commit.compacts_of_eq [] _ rfl (fun _ => rfl) (renamed_saveOffsets _)

theorem MainSend.commitBd_compacts (m : MainSend) (t : Turn) (payload : List UInt8) (pending : Offsets) :
    (m.commitBd t payload pending).Compacts t := by
  by_cases hdone : m.batchDone pending
  · exact Commit.compacts_of_eq (saveOffsets pending) _ (congrArg (saveOffsets pending ++ ·) (if_pos hdone))
      (renamed_saveOffsets pending) (renamed_saveOffsets _)
  · refine ⟨fun i content h => ?_⟩
    have hops : (m.commitBd t payload pending).ops = saveOffsets pending := by
      show saveOffsets pending ++ _ = _
      rw [if_neg hdone, List.append_nil]
    rw [Commit.renamed, hops, renamed_saveOffsets] at h
    cases h

theorem MainSend.disk_fail4g (m : MainSend) : m.fail4g.disk = m.disk := by
  unfold MainSend.fail4g
  simp only
  split <;> rfl

theorem MainSend.disk_idle {m m' : MainSend} {t : Turn} (h : m.idle t = some m') : m'.disk = m.disk := by
  obtain ⟨r, -, rfl⟩ := Option.map_eq_some_iff.mp h
  simp only
  repeat' split
  all_goals rfl

theorem MainSend.disk_try4g (m : MainSend) (t : Turn) :
    ((m.try4g t).2 = none ∧ (m.try4g t).1.disk = m.disk) ∨
      (m.try4g t).2 = some (m.commit4g t) ∧ (m.try4g t).1.disk = m.disk.applyAll (m.commit4g t).ops := by
  unfold MainSend.try4g
  simp only
  repeat' split
  all_goals first
    | exact .inl ⟨rfl, rfl⟩
    | exact .inr ⟨rfl, rfl⟩
    | exact .inl ⟨rfl, disk_fail4g _⟩

theorem MainSend.disk_tryBd_of_bdDue {m m' : MainSend} {t : Turn} {r : PackResult mainPathCount} {c : Option Commit}
    (hdue : m.bdDue t = some r) (h : m.tryBd t = some (m', c)) :
    (c = none ∧ m'.disk = m.disk.append t.appended) ∨
      c = some (m.commitBd t r.rawBuf r.pendingOffsets) ∧
        m'.disk = (m.disk.append t.appended).applyAll (m.commitBd t r.rawBuf r.pendingOffsets).ops := by
  obtain ⟨-, -, hr, hret, hcount, htime⟩ := bdDue_eq_some hdue
  simp only [MainSend.tryBd, hr, Option.map_some, hret, ne_eq, not_true, if_false, if_neg hcount, if_neg htime,
    Option.some.injEq] at h
  split at h
  · cases h
    exact .inl ⟨rfl, rfl⟩
  split at h
  · cases h
    exact .inl ⟨rfl, rfl⟩
  split at h
  · cases h
    exact .inl ⟨rfl, rfl⟩
  split at h
  · cases h
    exact .inr ⟨rfl, rfl⟩
  · cases h
    exact .inr ⟨rfl, rfl⟩

/-- What an iteration of `main_send_thread` does to the logs. -/
theorem MainSend.turn_disk {m m' : MainSend} {t : Turn} {c : Option Commit} (h : m.turn t = some (m', c)) :
    let disk := m.disk.append (if (m.bdDue t).isSome then t.appended else fun _ => [])
    (c = none ∧ m'.disk.logs = disk.logs) ∨
      ∃ commit, c = some commit ∧ commit.disk = disk ∧ commit.Compacts t ∧ m'.disk = disk.applyAll commit.ops := by
  intro disk
  have hquiet : m.bdDue t = none → disk = m.disk := fun hdue => by
    show m.disk.append _ = m.disk
    rw [hdue]
    exact Disk.append_nil m.disk
  have hother : m.state ≠ .tryBd → disk = m.disk := fun hst => hquiet (by rw [MainSend.bdDue, if_pos (.inr hst)])
  unfold MainSend.turn at h
  split at h
  · rename_i hmesh
    cases h
    refine .inl ⟨rfl, ?_⟩
    rw [hquiet (by rw [MainSend.bdDue, if_pos (.inl hmesh)])]
    rfl
  rename_i hmesh
  rcases hst : m.state <;> simp only [hst, Option.some.injEq, Prod.mk.injEq] at h
  · obtain ⟨m₁, hidle, heq⟩ := Option.map_eq_some_iff.mp h
    cases heq
    exact .inl ⟨rfl, by rw [MainSend.disk_idle hidle, hother (by simp [hst])]⟩
  · rw [hother (by simp [hst])]
    rcases m.disk_try4g t with ⟨hnone, hdisk⟩ | ⟨hcommit, hdisk⟩
    · rw [h] at hnone hdisk
      exact .inl ⟨hnone, congrArg Disk.logs hdisk⟩
    · rw [h] at hcommit hdisk
      exact .inr ⟨_, hcommit, rfl, m.commit4g_compacts t, hdisk⟩
  · cases hdue : m.bdDue t with
    | none =>
      obtain ⟨hnone, -, hdisk⟩ := MainSend.tryBd_of_not_bdDue (Bool.eq_false_iff.mpr hmesh) hst hdue h
      exact .inl ⟨hnone, by rw [hdisk, hquiet hdue]⟩
    | some r =>
      have happend : disk = m.disk.append t.appended := by
        show m.disk.append _ = _
        rw [hdue]
        rfl
      rw [happend]
      rcases MainSend.disk_tryBd_of_bdDue hdue h with ⟨hnone, hdisk⟩ | ⟨hcommit, hdisk⟩
      · exact .inl ⟨hnone, congrArg Disk.logs hdisk⟩
      · exact .inr ⟨_, hcommit, rfl, m.commitBd_compacts t _ _, hdisk⟩
  · refine .inl ⟨h.2.symm, ?_⟩
    rw [hother (by simp [hst]), ← h.1]
    unfold MainSend.bdWait
    split <;> rfl
  · refine .inl ⟨h.2.symm, ?_⟩
    rw [hother (by simp [hst]), ← h.1]
    unfold MainSend.powerDown
    split <;> rfl

/-! ## One log -/

theorem AlignedLog.append {content : List Char} {offset : Nat} {lines : Option (List TrackedLine)}
    (h : AlignedLog content offset lines) (node : Bool) (rs : List Record) :
    AlignedLog (content ++ logText rs) offset (lines.map (· ++ tracked node rs)) := by
  obtain ⟨packed, rest, rfl, rfl, hoffset, honce, hnot⟩ := h
  refine ⟨packed, rest ++ tracked node rs, ?_, ?_, hoffset, honce, fun l hl => ?_⟩
  · rw [Option.map_some, List.append_assoc]
  · rw [← List.append_assoc, linesText_append _ (tracked node rs), linesText_tracked]
  · rcases List.mem_append.mp hl with hl | hl
    · exact hnot l hl
    · obtain ⟨r, -, rfl⟩ := List.mem_map.mp hl
      rfl

/-- A compaction that drops no line that has been packed. -/
theorem AlignedLog.compact {content : List Char} {offset : Nat} {ls : List TrackedLine} {k : Nat}
    (h : AlignedLog content offset (some ls)) (hspared : ∀ l ∈ (compactLines ls k).2, l.packed = 0) :
    AlignedLog (linesText (compactLines ls k).1) offset (some (compactLines ls k).1) := by
  obtain ⟨packed, rest, hls, -, hoffset, honce, hnot⟩ := h
  cases hls
  have hkeep : (packed.take k).filter (keepsLine (packed ++ rest) k) = packed.take k := by
    refine List.filter_eq_self.mpr fun l hl => ?_
    refine Decidable.byContradiction fun hdrops => ?_
    have hdropped : l ∈ (compactLines (packed ++ rest) k).2 := by
      refine List.mem_filter.mpr ⟨?_, by simpa using hdrops⟩
      rw [List.take_append]
      exact List.mem_append_left _ hl
    have hone := honce l (List.mem_of_mem_take hl)
    rw [hspared l hdropped] at hone
    cases hone
  have hcompact : (compactLines (packed ++ rest) k).1 = packed ++
      ((rest.take (k - packed.length)).filter (keepsLine (packed ++ rest) k) ++ rest.drop (k - packed.length)) := by
    rw [compactLines, List.take_append, List.filter_append, hkeep, List.drop_append]
    by_cases hk : k ≤ packed.length
    · rw [Nat.sub_eq_zero_of_le hk, List.take_zero, List.filter_nil, List.append_nil, List.drop_zero,
        ← List.append_assoc, List.take_append_drop, List.nil_append]
    · rw [List.take_of_length_le (by omega), List.drop_of_length_le (by omega : packed.length ≤ k), List.nil_append,
        List.append_assoc]
  refine ⟨packed, _, congrArg some hcompact, congrArg linesText hcompact, hoffset, honce, fun l hl => hnot l ?_⟩
  rcases List.mem_append.mp hl with hl | hl
  · exact List.mem_of_mem_take (List.mem_filter.mp hl).1
  · exact List.mem_of_mem_drop hl

theorem linesText_map_pack (ls : List TrackedLine) : linesText (ls.map TrackedLine.pack) = linesText ls := by
  rw [linesText, List.map_map]
  refine congrArg logText (List.map_congr_left fun l _ => ?_)
  simp only [Function.comp_apply, TrackedLine.pack]
  split <;> rfl

/-- The lines that are passed, from the first that has not been packed to the start of
another. -/
theorem passedLines_rest (packed rest : List TrackedLine) (k : Nat) :
    passedLines (linesText packed).length (linesText (packed ++ rest.take k)).length (packed ++ rest) = rest.take k := by
  have h := passedLines_lines packed (rest.take k) (rest.drop k)
  rwa [List.append_assoc, List.take_append_drop] at h

/-- Lines with entries are packed. -/
theorem AlignedLog.pack {content : List Char} {offset stop : Nat} {packed rest : List TrackedLine} {k : Nat}
    (hcontent : content = linesText (packed ++ rest)) (hoffset : offset = (linesText packed).length)
    (honce : ∀ l ∈ packed, l.packed = 1) (hnot : ∀ l ∈ rest, l.packed = 0)
    (hstop : stop = (linesText (packed ++ rest.take k)).length)
    (hlong : ∀ l ∈ passedLines offset stop (packed ++ rest), 2 ≤ l.record.payload.length) :
    AlignedLog content stop (some (packLines offset stop (packed ++ rest))) := by
  subst hoffset hstop
  rw [passedLines_rest] at hlong
  have hpack : packLines (linesText packed).length (linesText (packed ++ rest.take k)).length (packed ++ rest) =
      (packed ++ (rest.take k).map TrackedLine.pack) ++ rest.drop k := by
    have h := packLines_lines packed (rest.take k) (rest.drop k)
    rwa [List.append_assoc packed (rest.take k), List.take_append_drop] at h
  refine ⟨packed ++ (rest.take k).map TrackedLine.pack, rest.drop k, congrArg some hpack, ?_, ?_, fun l hl => ?_,
    fun l hl => hnot l (List.mem_of_mem_drop hl)⟩
  · rw [hcontent, linesText_append, linesText_append, linesText_append, linesText_map_pack, List.append_assoc,
      ← linesText_append (rest.take k), List.take_append_drop]
  · rw [linesText_append, linesText_append, linesText_map_pack]
  · rcases List.mem_append.mp hl with hl | hl
    · exact honce l hl
    · obtain ⟨m, hm, rfl⟩ := List.mem_map.mp hl
      rw [TrackedLine.pack, if_pos (hlong m hm), hnot m (List.mem_of_mem_take hm)]

/-! ## The steps -/

namespace SharedLogs

variable {s s' : SharedLogs}

/-- A file that does not exist is read like an empty one. -/
theorem packDataFromFiles_congr {n : Nat} {files files' : Fin n → Option (List Char)}
    (h : ∀ i, (files i).getD [] = (files' i).getD []) (o : Fin n → Nat) (cap : Nat) :
    packDataFromFiles files o cap = packDataFromFiles files' o cap := by
  have hlines : (fun i => linesFrom packLineSize (files i) (o i)) = fun i => linesFrom packLineSize (files' i) (o i) := by
    funext i
    rw [linesFrom, h, linesFrom]
  rw [packDataFromFiles_lines, packDataFromFiles_lines, hlines]

/-- From the start of a line `pack_data_from_files` packs up to the start of a line. -/
theorem pack_lines {packed rest : Fin 2 → List TrackedLine}
    (hlog : ∀ i, (s.main.disk.logs (serialLog i)).getD [] = linesText (packed i ++ rest i))
    (hoffset : ∀ i, s.loraOffsets i = (linesText (packed i)).length) {b : HexBatch} {pending : Fin 2 → Nat}
    (h : s.pack = some (b, pending)) :
    ∃ ks : Fin 2 → Nat, (∀ i, pending i = (linesText (packed i ++ (rest i).take (ks i))).length) ∧
      b = batchOf ((List.finRange 2).flatMap fun i => recordEntries (((rest i).take (ks i)).map TrackedLine.record)) := by
  let reader : LoraSend := ⟨fun i => (packed i ++ rest i).map TrackedLine.record, s.loraOffsets, none, []⟩
  have hfiles : ∀ i, (some (logText (reader.records i))).getD [] = (s.main.disk.logs (serialLog i)).getD [] := fun i =>
    (hlog i).symm
  have hread : reader.pack = some (b, pending) := by
    rw [← h]
    exact packDataFromFiles_congr hfiles s.loraOffsets loraMaxHexLen
  have hstart : ∀ i k, (packed i ++ rest i).take ((packed i).length + k) = packed i ++ (rest i).take k := fun i k => by
    rw [List.take_append, List.take_of_length_le (Nat.le_add_right _ k), Nat.add_sub_cancel_left]
  have hpos : ∀ i, reader.offsets i = lineStart (reader.records i) (packed i).length := fun i => by
    show s.loraOffsets i = _
    rw [hoffset, ← length_linesText_take, List.take_left]
  obtain ⟨stop, hstop, hb⟩ := LoraSend.pack_records hpos hread
  have hle : ∀ i, stop i = (packed i).length + (stop i - (packed i).length) := fun i => by
    have := (hstop i).1
    omega
  refine ⟨fun i => stop i - (packed i).length, fun i => ?_, ?_⟩
  · rw [(hstop i).2.2, ← hstart, ← hle]
    exact (length_linesText_take _ _).symm
  · rw [hb]
    refine congrArg batchOf (List.flatMap_congr fun i _ => ?_)
    show recordEntries ((((packed i ++ rest i).map TrackedLine.record).take (stop i)).drop (packed i).length) = _
    rw [hle i, ← List.map_take, hstart, ← List.map_drop, List.drop_left]

/-- An aligned thread packs the entries of the lines that it passes, none of which it has
packed before. -/
theorem Aligned.packs (h : s.Aligned) {b : HexBatch} {pending : Fin 2 → Nat} (hpack : s.pack = some (b, pending)) :
    b = batchOf (s.passedEntries pending) := by
  choose packed rest hlines hlog hoffset honce hnot using h.lines
  obtain ⟨ks, hpending, hb⟩ := pack_lines hlog hoffset hpack
  rw [hb, passedEntries]
  refine congrArg batchOf (List.flatMap_congr fun i _ => ?_)
  rw [hlines, Option.getD_some, hoffset, hpending, passedLines_rest]

theorem Aligned.lora (h : s.Aligned) {b : HexBatch} {pending : Fin 2 → Nat} (hpack : s.pack = some (b, pending))
    (hspares : s.Spares .lora) :
    Aligned { s with
      loraOffsets := pending
      lines := fun i => (s.lines i).map (packLines (s.loraOffsets i) (pending i)) } := by
  choose packed rest hlines hlog hoffset honce hnot using h.lines
  obtain ⟨ks, hpending, -⟩ := pack_lines hlog hoffset hpack
  refine ⟨fun i => ?_, h.dropped⟩
  have hlong := hspares.2 rfl b pending hpack i _ (hlines i)
  show AlignedLog _ (pending i) ((s.lines i).map _)
  rw [hlines]
  exact AlignedLog.pack (hlog i) (hoffset i) (honce i) (hnot i) (hpending i) hlong

theorem Aligned.append (h : s.Aligned) (appended : Fin mainPathCount → List Record) (i : Fin 2) :
    AlignedLog (((s.main.disk.append appended).logs (serialLog i)).getD []) (s.loraOffsets i)
      (s.appendLines appended i) := by
  rw [Disk.getD_append]
  exact (h.lines i).append s.node (appended (serialLog i))

/-- What `compact_log_file` leaves of a log, if it renames. -/
theorem compactLogFile_content {file : Option (List Char)} {offset : Nat} {io : CompactIo} {content : List Char}
    {newOffset : Nat} (h : (compactLogFile file offset 10 io).1 = some (content, newOffset)) :
    content = compactText (file.getD []) offset 10 := by
  by_cases hgets : GetsToRename file offset 10 io
  · rw [compactLogFile_renames hgets] at h
    cases h
    rfl
  · rw [compactLogFile_keeps hgets] at h
    cases h

theorem length_of_lineAt {ls : List TrackedLine} {offset k : Nat} (h : lineAt ls offset = some k) :
    offset = (linesText (ls.take k)).length := by
  rw [lineAt] at h
  have hat := List.find?_some h
  exact (of_decide_eq_true hat).symm

theorem Aligned.main (h : s.Aligned) {t : Turn} {main : MainSend} {c : Option Commit}
    (hturn : s.main.turn t = some (main, c)) (hspares : s.Spares (.main t)) :
    Aligned { s with
      main := main
      lines := fun i => (s.turnLines t c i).1
      dropped := fun i => s.dropped i ++ (s.turnLines t c i).2 } := by
  have happended := h.append (s.appendedIn t)
  rcases MainSend.turn_disk hturn with ⟨rfl, hlogs⟩ | ⟨commit, rfl, hdisk, hcompacts, happly⟩
  · refine ⟨fun i => ?_, fun i l hl => ?_⟩
    · show AlignedLog ((main.disk.logs (serialLog i)).getD []) _ _
      rw [hlogs]
      exact happended i
    · exact h.dropped i l (by simpa [turnLines] using hl)
  replace happly : main.disk = (s.main.disk.append (s.appendedIn t)).applyAll commit.ops := happly
  -- For each log: it is compacted at the start of a line, or left as it is.
  have hlog : ∀ i,
      AlignedLog ((main.disk.logs (serialLog i)).getD []) (s.loraOffsets i) (s.turnLines t (some commit) i).1 ∧
        ∀ l ∈ (s.turnLines t (some commit) i).2, l.node = false := by
    intro i
    have hlogs := logs_applyAll (s.main.disk.append (s.appendedIn t)) commit.ops (serialLog i)
    cases hrenamed : commit.renamed (serialLog i) with
    | none =>
      have hsame : (commit.ops.filterMap (DiskOp.renamed (serialLog i))).getLast? = none := hrenamed
      rw [hsame] at hlogs
      refine ⟨?_, ?_⟩
      · rw [happly, hlogs]
        simpa [turnLines, hrenamed] using happended i
      · simp [turnLines, hrenamed]
    | some content =>
      have hlast : (commit.ops.filterMap (DiskOp.renamed (serialLog i))).getLast? = some content := hrenamed
      rw [hlast] at hlogs
      obtain ⟨ls, k, hls, hk, hdropped⟩ := hspares.1 t main commit rfl hturn i (by rw [hrenamed]; rfl)
      obtain ⟨newOffset, hcompact⟩ := hcompacts.renamed (serialLog i) content hrenamed
      have hbefore := happended i
      rw [hls] at hbefore
      have hturned : s.turnLines t (some commit) i = (some (compactLines ls k).1, (compactLines ls k).2) := by
        simp [turnLines, hrenamed, hls, hk]
      have hcontent : content = linesText (compactLines ls k).1 := by
        obtain ⟨packed, rest, heq, htext, -⟩ := hbefore
        rw [compactLogFile_content hcompact, hdisk, ← compactText_lines ls k, ← length_of_lineAt hk, Option.some.inj heq,
          ← htext]
        rfl
      rw [hturned]
      refine ⟨?_, fun l hl => (hdropped l hl).2⟩
      rw [happly, hlogs, Option.getD_some, hcontent]
      exact hbefore.compact fun l hl => (hdropped l hl).1
  refine ⟨fun i => (hlog i).1, fun i l hl hnode => ?_⟩
  rcases List.mem_append.mp hl with hl | hl
  · exact h.dropped i l hl hnode
  · rw [(hlog i).2 l hl] at hnode
    cases hnode

theorem aligned_boot (recs : Fin mainPathCount → List Record) (offsetFile : OffsetFile) (node : Bool) :
    (boot recs offsetFile node).Aligned := by
  refine ⟨fun i => ⟨[], tracked false (recs (serialLog i)), rfl, ?_, rfl, nofun, fun l hl => ?_⟩, fun i l hl => nomatch hl⟩
  · show (if recs (serialLog i) = [] then none else some (logText (recs (serialLog i)))).getD [] = _
    rw [List.nil_append, linesText_tracked]
    split
    · rename_i hnil
      rw [hnil]
      rfl
    · rfl
  · obtain ⟨r, -, rfl⟩ := List.mem_map.mp hl
    rfl

end SharedLogs

open SharedLogs in
/-- In every run in which each compaction spares the lines of `lora_transform_thread`,
which passes over no line with fewer than two data bytes, its offset is at the first
line that it has not packed; and what it packs next are the entries from there on. -/
theorem shared_aligned {recs : Fin mainPathCount → List Record} {offsetFile : OffsetFile} {node : Bool}
    {s : SharedLogs} (hrun : Runs SharedLogs.step Spares (boot recs offsetFile node) s) :
    s.Aligned ∧ ∀ b pending, s.pack = some (b, pending) → b = batchOf (s.passedEntries pending) := by
  have haligned : s.Aligned := by
    refine hrun.invariant (aligned_boot recs offsetFile node) fun s a s' e h hspares hstep => ?_
    cases a with
    | mesh node =>
      cases hstep
      exact ⟨h.lines, h.dropped⟩
    | append appended =>
      cases hstep
      exact ⟨h.append appended, h.dropped⟩
    | main t =>
      obtain ⟨⟨main, c⟩, hturn, heq⟩ := Option.map_eq_some_iff.mp hstep
      cases heq
      exact h.main hturn hspares
    | lora =>
      obtain ⟨⟨b, pending⟩, hpack, heq⟩ := Option.map_eq_some_iff.mp hstep
      cases heq
      exact h.lora hpack hspares
  exact ⟨haligned, fun b pending => haligned.packs⟩

/-- As a node: twelve messages are logged and packed, and `main_send_thread` skips them. As
a gateway: it sends one more, and keeps the lines of ten. As a node again: another is
logged. -/
def shiftedRun : List SharedAction :=
  [.append (firstLog ((List.range 12).map fun k => short (UInt8.ofNat k))), .lora,
    .main { Turn.gateway with meshNode := true }, .mesh false, .append (firstLog [short 12]), .main Turn.gateway,
    .main Turn.gateway, .mesh true, .append (firstLog [short 13]), .lora]

/-- The offset is then behind the end of the log. -/
theorem shared_shifted :
    ¬∀ s, Runs SharedLogs.step (fun _ _ => True) (SharedLogs.boot (fun _ => []) none true) s → s.Aligned := by
  intro haligned
  have h : (runList SharedLogs.step (fun _ _ => true) (SharedLogs.boot (fun _ => []) none true) shiftedRun).map (fun s =>
      (s.loraOffsets 0, ((s.main.disk.logs (serialLog 0)).getD []).length)) = some (471, 434) := by
    decide +kernel
  obtain ⟨s, hs, heq⟩ := Option.map_eq_some_iff.mp h
  obtain ⟨hoffset, hlength⟩ := Prod.mk.inj heq
  obtain ⟨packed, rest, -, hcontent, hpacked, -⟩ :=
    (haligned s (.of_runList (fun _ _ _ => trivial) .start hs)).lines 0
  rw [hcontent, linesText_append, List.length_append] at hlength
  omega

/-- As a gateway: twelve messages are logged and sent, and the lines of ten kept. As a node:
another is logged and packed. -/
def sparedRun : List SharedAction :=
  [.append (firstLog ((List.range 12).map fun k => short (UInt8.ofNat k))), .main Turn.gateway, .main Turn.gateway,
    .mesh true, .append (firstLog [short 12]), .lora]

theorem shared_aligned_twelve :
    ∃ s : SharedLogs, s.loraOffsets 0 = 433 ∧ (s.dropped 0).length = 2 ∧ s.Aligned := by
  have h : (runList SharedLogs.step (fun s a => decide (s.Spares a)) (SharedLogs.boot (fun _ => []) none false)
      sparedRun).map (fun s => (s.loraOffsets 0, (s.dropped 0).length)) = some (433, 2) := by
    decide +kernel
  obtain ⟨s, hs, heq⟩ := Option.map_eq_some_iff.mp h
  obtain ⟨hoffset, hdropped⟩ := Prod.mk.inj heq
  exact ⟨s, hoffset, hdropped, (shared_aligned (.of_runList (fun _ _ h => of_decide_eq_true h) .start hs)).1⟩

end Dtu
