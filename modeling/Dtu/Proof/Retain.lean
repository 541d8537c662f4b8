import Dtu.Proof.Compact
import Dtu.Proof.Limits
import Dtu.Spec.Retention

/-!
# What `compact_log_file` keeps

Of a log of whole lines it keeps those whose ids its register holds
(`compactLogFile_lines`). In a log of `write_file_thread` these are the lines of the
last frames just when no frame of the sent part has the id of one of them
(`compactLogFile_frames_iff`), and ids come again when the process starts again.
-/

namespace Dtu

open Stdio Recent

/-! ## The frame ids kept -/

/-- `kept`, when these ids have been admitted. -/
def register (k : Nat) (as : List UInt32) : List (Option UInt32) :=
  List.replicate (k - as.length) none ++ (as.rtake k).map some

theorem frameIdIsKept_register (k : Nat) (as : List UInt32) (frameId : UInt32) :
    frameIdIsKept (register k as) frameId = decide (frameId ∈ as.rtake k) := by
  rw [frameIdIsKept, register, List.contains_eq_mem, decide_eq_decide, List.mem_append, List.mem_map]
  constructor
  · rintro (h | ⟨x, hx, hsome⟩)
    · cases List.eq_of_mem_replicate h
    · cases hsome
      exact hx
  · exact fun h => .inr ⟨frameId, h, rfl⟩

theorem keepFrameId_register {k : Nat} (hk : 0 < k) (as : List UInt32) (frameId : UInt32) :
    keepFrameId (register k as) frameId = register k (push k as frameId) := by
  rw [keepFrameId, frameIdIsKept_register, push]
  by_cases h : frameId ∈ as.rtake k
  · rw [if_pos (decide_eq_true h), if_pos h]
  · rw [if_neg (by simpa using h), if_neg h, register, register]
    obtain ⟨k, rfl⟩ := Nat.exists_eq_succ_of_ne_zero (Nat.ne_of_gt hk)
    rw [List.rtake_concat_succ, List.map_append, List.map_singleton, List.length_append, List.length_singleton,
      ← List.append_assoc]
    refine congrArg (· ++ [some frameId]) ?_
    by_cases hfull : k + 1 ≤ as.length
    · have hrtake : (as.rtake (k + 1)).drop 1 = as.rtake k := by
        rw [List.rtake, List.rtake, List.drop_drop]
        congr 1
        omega
      rw [Nat.sub_eq_zero_of_le hfull, Nat.sub_eq_zero_of_le (Nat.le_succ_of_le hfull), List.replicate_zero,
        List.nil_append, List.nil_append, ← hrtake, List.map_drop]
    · have hle : as.length ≤ k := by omega
      rw [rtake_of_length_le hle, rtake_of_length_le (Nat.le_succ_of_le hle),
        show k + 1 - as.length = (k - as.length) + 1 by omega, List.replicate_succ, Nat.succ_sub_succ, List.cons_append,
        List.drop_one, List.tail_cons]

/-- The first loop keeps the last ids admitted. -/
theorem keptFrames_register {k : Nat} (hk : 0 < k) (lines : List (List Char)) (legacyFrameId : UInt32)
    (as : List UInt32) :
    keptFrames lines legacyFrameId (register k as) = register k ((frameIds legacyFrameId lines).foldl (push k) as) := by
  induction lines generalizing legacyFrameId as with
  | nil => rfl
  | cons line lines ih =>
    show keptFrames lines (lineFrameId line legacyFrameId).2
      (keepFrameId (register k as) (lineFrameId line legacyFrameId).1) = _
    rw [keepFrameId_register hk, ih]
    rfl

theorem keptFrames_eq {k : Nat} (hk : 0 < k) (lines : List (List Char)) :
    keptFrames lines 0 (List.replicate k none) = register k (admissions k (frameIds 0 lines)) := by
  have hempty : List.replicate k none = register k [] := by simp [register]
  rw [hempty, keptFrames_register hk]
  rfl

/-! ## The lines kept -/

theorem TextLine.ne_nil {line : List Char} (h : TextLine line) : line ≠ [] := by
  obtain ⟨body, rfl, -⟩ := h
  simp

theorem TextLine.cstr_eq {line : List Char} (h : TextLine line) : cstr line = line := by
  obtain ⟨body, rfl, -, hnul, -⟩ := h
  refine cstr_of_not_mem fun hmem => ?_
  rcases List.mem_append.mp hmem with h | h
  · exact hnul h
  · exact absurd h (by decide)

/-- Whole lines are read one by one. -/
theorem fgetsAll_textLines {lines : List (List Char)} (h : ∀ l ∈ lines, TextLine l) :
    fgetsAll logCompactMaxLine lines.flatten = lines := by
  refine fgetsAll_lines fun l hl => ?_
  obtain ⟨body, hline, hbody, -, hlen⟩ := h l hl
  exact ⟨body, hline, hbody, hlen⟩

/-- The lines before the start of line `k`. -/
theorem sentLines_take {lines : List (List Char)} (h : ∀ l ∈ lines, l ≠ []) (k pos : Nat) :
    sentLines (pos + (lines.take k).flatten.length) pos lines = lines.take k := by
  induction lines generalizing k pos with
  | nil => simp [sentLines]
  | cons line lines ih =>
    cases k with
    | zero => simp [sentLines]
    | succ k =>
      have hpos := List.length_pos_iff.mpr (h line List.mem_cons_self)
      rw [List.take_succ_cons, List.flatten_cons, List.length_append, sentLines, if_pos (by omega), ← Nat.add_assoc,
        ih fun l hl => h l (List.mem_cons_of_mem _ hl)]

theorem retainedText_eq {lines : List (List Char)} (h : ∀ l ∈ lines, TextLine l) (k : Nat) (as : List UInt32)
    (legacyFrameId : UInt32) :
    retainedText (register k as) lines legacyFrameId =
      (((lines.zip (frameIds legacyFrameId lines)).filter (·.2 ∈ as.rtake k)).map (·.1)).flatten := by
  induction lines generalizing legacyFrameId with
  | nil => rfl
  | cons line lines ih =>
    show (if frameIdIsKept (register k as) (lineFrameId line legacyFrameId).1 then cstr line else []) ++
      retainedText (register k as) lines (lineFrameId line legacyFrameId).2 = _
    rw [ih fun l hl => h l (List.mem_cons_of_mem _ hl), frameIdIsKept_register, (h line List.mem_cons_self).cstr_eq]
    simp only [frameIds, List.zip_cons_cons, List.filter_cons]
    split <;> simp

/-- What is retained before the start of line `k`. -/
theorem retained_textLines {lines : List (List Char)} (h : ∀ l ∈ lines, TextLine l) (k : Nat) {keepFrames : Nat}
    (hkeep : 0 < keepFrames) :
    retained lines.flatten (lines.take k).flatten.length keepFrames = (keptLines keepFrames (lines.take k)).flatten := by
  have hsent := sentLines_take (fun l hl => (h l hl).ne_nil) k 0
  rw [Nat.zero_add] at hsent
  simp only [retained, fgetsAll_textLines h, hsent, keptFrames_eq hkeep]
  exact retainedText_eq (fun l hl => h l (List.mem_of_mem_take hl)) _ _ _

theorem length_frameIds (legacyFrameId : UInt32) (lines : List (List Char)) :
    (frameIds legacyFrameId lines).length = lines.length := by
  induction lines generalizing legacyFrameId with
  | nil => rfl
  | cons line lines ih => exact congrArg (· + 1) (ih _)

theorem keptLines_sublist (keepFrames : Nat) (lines : List (List Char)) : (keptLines keepFrames lines).Sublist lines := by
  have hfilter : ((lines.zip (frameIds 0 lines)).filter (·.2 ∈ recent keepFrames (frameIds 0 lines))).Sublist
      (lines.zip (frameIds 0 lines)) := List.filter_sublist
  refine (hfilter.map Prod.fst).trans ?_
  rw [List.map_fst_zip (Nat.le_of_eq (length_frameIds 0 lines).symm)]

/-! ## `compact_log_file` -/

/-- What `compact_log_file` leaves of a log of whole lines and of the start of line `k`
in it. -/
structure Compacted (lines : List (List Char)) (k keepFrames : Nat) (content : List Char) (newOffset : Nat) : Prop where
  unsent : content.drop newOffset = lines.flatten.drop (lines.take k).flatten.length
  sent : content.take newOffset = (keptLines keepFrames (lines.take k)).flatten
  sublist : (keptLines keepFrames (lines.take k)).Sublist (lines.take k)
  offset_le : newOffset ≤ (lines.take k).flatten.length

theorem nul_not_mem_flatten {lines : List (List Char)} (h : ∀ l ∈ lines, TextLine l) : '\x00' ∉ lines.flatten := by
  intro hmem
  obtain ⟨line, hline, hnul⟩ := List.mem_flatten.mp hmem
  rw [← (h line hline).cstr_eq] at hnul
  exact nul_not_mem_cstr line hnul

/-- `compact_log_file` of a log of whole lines, at the start of one of them: it leaves the
log and the offset as they are, for one of the reasons it has for that, or it keeps what
is behind the offset, and of the lines before it those of the last frames. -/
theorem compactLogFile_lines {lines : List (List Char)} (hlines : ∀ l ∈ lines, TextLine l) (k : Nat)
    {file : Option (List Char)} (hfile : file = none ∨ file = some lines.flatten) (keepFrames : Int) (io : CompactIo) :
    let offset := (lines.take k).flatten.length
    let r := compactLogFile file offset keepFrames io
    (∃ content newOffset, r = (some (content, newOffset), 0) ∧
        afterCompact file offset r.1 = (some content, newOffset) ∧
        Compacted lines k (min keepFrames.toNat logCompactMaxKeepFrames) content newOffset) ∨
      afterCompact file offset r.1 = (file, offset) ∧
        (offset = 0 ∨ keepFrames ≤ 0 ∨ file = none ∨ io.tmpOpens = false ∨ io.renames = false) := by
  intro offset r
  by_cases hargs : offset = 0 ∨ keepFrames ≤ 0
  · have hr : r = (none, 0) := if_pos hargs
    rw [hr]
    exact .inr ⟨rfl, hargs.imp_right .inl⟩
  rcases hfile with rfl | rfl
  · have hr : r = (none, 0) := if_neg hargs
    rw [hr]
    exact .inr ⟨rfl, .inr (.inr (.inl rfl))⟩
  by_cases htmp : io.tmpOpens = true
  · by_cases hrenames : io.renames = true
    · have hkeep : 0 < min keepFrames.toNat logCompactMaxKeepFrames := by
        rw [not_or] at hargs
        simp only [logCompactMaxKeepFrames]
        omega
      have hr : r = (some (compactText lines.flatten offset (min keepFrames.toNat logCompactMaxKeepFrames),
          (retained lines.flatten offset (min keepFrames.toNat logCompactMaxKeepFrames)).length), 0) := by
        simp [r, compactLogFile, hargs, htmp, hrenames]
      have hretained := retained_textLines hlines k hkeep
      have hnul : '\x00' ∉ lines.flatten.drop offset := fun h => nul_not_mem_flatten hlines (List.mem_of_mem_drop h)
      rw [compactText_eq hnul] at hr
      refine .inl ⟨_, _, hr, by rw [hr]; rfl, ?_⟩
      have hsublist := keptLines_sublist (min keepFrames.toNat logCompactMaxKeepFrames) (lines.take k)
      exact {
        unsent := List.drop_left
        sent := by rw [List.take_left, hretained]
        sublist := hsublist
        offset_le := by rw [hretained]; exact hsublist.flatten.length_le }
    · have hr : r = (none, -1) := by simp [r, compactLogFile, hargs, htmp, hrenames]
      rw [hr]
      exact .inr ⟨rfl, .inr (.inr (.inr (.inr (Bool.eq_false_of_not_eq_true hrenames))))⟩
  · have hr : r = (none, -1) := by simp [r, compactLogFile, hargs, htmp]
    rw [hr]
    exact .inr ⟨rfl, .inr (.inr (.inr (.inl (Bool.eq_false_of_not_eq_true htmp))))⟩

/-- A log of two frames, the second with two lines, and what is behind the offset. -/
def frameLines : List (List Char) := ["[a] F=7 \n".toList, "[b] F=8 \n".toList, "[c] F=8 \n".toList, "d\n".toList]

theorem textLine_frameLines : ∀ l ∈ frameLines, TextLine l := by
  intro l hl
  simp only [frameLines, List.mem_cons, List.not_mem_nil, or_false] at hl
  rcases hl with rfl | rfl | rfl | rfl
  · exact ⟨"[a] F=7 ".toList, by decide⟩
  · exact ⟨"[b] F=8 ".toList, by decide⟩
  · exact ⟨"[c] F=8 ".toList, by decide⟩
  · exact ⟨['d'], by decide⟩

/-- With one frame kept the first line goes. -/
theorem compactLogFile_lines_dropped :
    Compacted frameLines 3 1 "[b] F=8 \n[c] F=8 \nd\n".toList 18 := by
  have h := compactLogFile_lines textLine_frameLines 3 (.inr rfl) 1 ⟨true, true⟩
  have hrun : compactLogFile (some frameLines.flatten) (frameLines.take 3).flatten.length 1 ⟨true, true⟩ =
      (some ("[b] F=8 \n[c] F=8 \nd\n".toList, 18), 0) := by
    decide +kernel
  rcases h with ⟨content, newOffset, hr, -, hcompacted⟩ | ⟨-, hnot⟩
  · cases hrun.symm.trans hr
    exact hcompacted
  · exact absurd hnot (by decide +kernel)

/-! ## The frames kept -/

theorem textLine_line (r : Record) : TextLine r.line :=
  ⟨logHeader r.tm r.msg ++ hexText r.payload, r.line_eq, newline_not_mem_lineBody r.tm r.msg, fun h => by
    refine r.nul_not_mem ?_
    rw [r.line_eq]
    exact List.mem_append_left _ h, Nat.lt_of_le_of_lt r.length_line_le (by decide)⟩

theorem lineFrameId_line (r : Record) (legacyFrameId : UInt32) :
    lineFrameId r.line legacyFrameId = (r.msg.frameId, legacyFrameId) := by
  rw [lineFrameId, (textLine_line r).cstr_eq, Record.line, parseLogFrameId_logLine r.tm r.msg r.len_le]

theorem frameIds_lines (legacyFrameId : UInt32) (rs : List Record) :
    frameIds legacyFrameId (rs.map Record.line) = rs.map (·.msg.frameId) := by
  induction rs with
  | nil => rfl
  | cons r rs ih =>
    rw [List.map_cons, frameIds, lineFrameId_line]
    exact congrArg (r.msg.frameId :: ·) ih

theorem linesWith_lines (frames : List UInt32) (rs : List Record) :
    linesWith frames (rs.map Record.line) = (rs.filter (·.msg.frameId ∈ frames)).map Record.line := by
  rw [linesWith, frameIds_lines]
  induction rs with
  | nil => rfl
  | cons r rs ih =>
    simp only [List.map_cons, List.zip_cons_cons, List.filter_cons]
    split
    · rw [List.map_cons, List.map_cons, ih]
    · exact ih

theorem flatten_lines_inj {rs ss : List Record} (h : logText rs = logText ss) :
    rs.map Record.line = ss.map Record.line := by
  have hread : ∀ ts : List Record, fgetsAll logCompactMaxLine (logText ts) = ts.map Record.line := fun ts => by
    rw [logText, List.flatMap_def]
    refine fgetsAll_textLines fun l hl => ?_
    obtain ⟨r, -, rfl⟩ := List.mem_map.mp hl
    exact textLine_line r
  rw [← hread, h, hread]

/-- The records of frames with these ids. -/
theorem filter_frames (ids : List UInt32) (frames : List LoggedFrame) :
    (frames.flatMap LoggedFrame.records).filter (·.msg.frameId ∈ ids) =
      (frames.filter (·.id ∈ ids)).flatMap LoggedFrame.records := by
  induction frames with
  | nil => rfl
  | cons f frames ih =>
    rw [List.flatMap_cons, List.filter_append, ih, List.filter_cons]
    split
    · rename_i hmem
      rw [List.flatMap_cons, List.filter_eq_self.mpr]
      intro r hr
      rw [f.frameId_eq r hr]
      exact hmem
    · rename_i hmem
      rw [List.filter_eq_nil_iff.mpr, List.nil_append]
      intro r hr
      rw [f.frameId_eq r hr]
      exact hmem

/-- The lines kept of the records of frames. -/
theorem keptLines_frames {k : Nat} (hk : 0 < k) (frames : List LoggedFrame) :
    keptLines k ((frames.flatMap LoggedFrame.records).map Record.line) =
      ((frames.filter (·.id ∈ recent k (frames.map LoggedFrame.id))).flatMap LoggedFrame.records).map Record.line := by
  have hne : ∀ f : LoggedFrame, f.records.map (·.msg.frameId) ≠ [] := fun f h => f.records_ne (List.map_eq_nil_iff.mp h)
  have heq : ∀ f : LoggedFrame, ∀ id ∈ f.records.map (·.msg.frameId), id = f.id := by
    intro f id hid
    obtain ⟨r, hr, rfl⟩ := List.mem_map.mp hid
    exact f.frameId_eq r hr
  have hids : recent k ((frames.flatMap LoggedFrame.records).map (·.msg.frameId)) =
      recent k (frames.map LoggedFrame.id) := by
    rw [recent, List.map_flatMap, admissions_flatMap hk hne heq]
    rfl
  rw [keptLines, frameIds_lines, linesWith_lines, hids, filter_frames]

@[simp] theorem framesText_append (fs gs : List LoggedFrame) : framesText (fs ++ gs) = framesText fs ++ framesText gs := by
  rw [framesText, List.flatMap_append, logText_append]
  rfl

theorem framesText_eq_nil {frames : List LoggedFrame} (h : framesText frames = []) : frames = [] := by
  cases frames with
  | nil => rfl
  | cons f frames =>
    obtain ⟨r, rs, hr⟩ := List.exists_cons_of_ne_nil f.records_ne
    rw [framesText, List.flatMap_cons, hr, List.cons_append, logText_cons] at h
    exact absurd (List.append_eq_nil_iff.mp h).1 r.line_ne_nil

/-- What is retained of frames before the other records. -/
theorem retained_frames {k : Nat} (hk : 0 < k) (sent : List LoggedFrame) (rest : List Record) :
    retained (framesText sent ++ logText rest) (framesText sent).length k =
      framesText (sent.filter (·.id ∈ recent k (sent.map LoggedFrame.id))) := by
  let records := sent.flatMap LoggedFrame.records
  have hlines : ∀ l ∈ (records ++ rest).map Record.line, TextLine l := by
    intro l hl
    obtain ⟨r, -, rfl⟩ := List.mem_map.mp hl
    exact textLine_line r
  have hcontent : ((records ++ rest).map Record.line).flatten = framesText sent ++ logText rest := by
    rw [← List.flatMap_def]
    exact logText_append records rest
  have hsent : ((records ++ rest).map Record.line).take records.length = records.map Record.line := by
    rw [List.map_append, List.take_left' (List.length_map _)]
  have h := retained_textLines hlines records.length hk
  rw [hcontent, hsent, keptLines_frames hk, ← List.flatMap_def, ← List.flatMap_def] at h
  exact h

/-- The frames with these ids are the last ones just when no frame before them has one,
and each of them has. -/
theorem framesText_filter_iff (ids : List UInt32) (fs gs : List LoggedFrame) :
    framesText ((fs ++ gs).filter (·.id ∈ ids)) = framesText gs ↔
      (∀ id ∈ gs.map LoggedFrame.id, id ∈ ids) ∧ ∀ id ∈ fs.map LoggedFrame.id, id ∉ ids := by
  rw [List.forall_mem_map, List.forall_mem_map, List.filter_append, framesText_append]
  constructor
  · intro h
    have hgs : ∀ g ∈ gs, g.id ∈ ids := by
      intro g hg
      obtain ⟨r, rs, hr⟩ := List.exists_cons_of_ne_nil g.records_ne
      have hmem : r ∈ g.records := hr ▸ List.mem_cons_self
      -- A line shows its frame id.
      rw [← framesText_append, ← List.filter_append] at h
      have hline : r.line ∈ (gs.flatMap LoggedFrame.records).map Record.line :=
        List.mem_map_of_mem (List.mem_flatMap.mpr ⟨g, hg, hmem⟩)
      rw [← flatten_lines_inj h] at hline
      obtain ⟨r', hr', hsame⟩ := List.mem_map.mp hline
      obtain ⟨f, hf, hrf⟩ := List.mem_flatMap.mp hr'
      have hid := congrArg (fun line => (lineFrameId line 0).1) hsame
      simp only [lineFrameId_line] at hid
      rw [← g.frameId_eq r hmem, ← hid, f.frameId_eq r' hrf]
      exact of_decide_eq_true (List.mem_filter.mp hf).2
    refine ⟨hgs, fun f hf hid => ?_⟩
    have hall : gs.filter (·.id ∈ ids) = gs := List.filter_eq_self.mpr fun g hg => decide_eq_true (hgs g hg)
    rw [hall] at h
    have hnone := framesText_eq_nil (List.append_left_eq_self.mp h)
    exact List.filter_eq_nil_iff.mp hnone f hf (decide_eq_true hid)
  · rintro ⟨hgs, hfs⟩
    rw [List.filter_eq_nil_iff.mpr fun f hf => by simpa using hfs f hf,
      List.filter_eq_self.mpr fun g hg => decide_eq_true (hgs g hg)]
    rfl

/-- The sent part of a log whose lines of frames have been compacted. -/
theorem sentText_frames {sent : List LoggedFrame} {rest : List Record} {io : CompactIo} :
    let file := some (framesText sent ++ logText rest)
    let offset := (framesText sent).length
    let after := afterCompact file offset (compactLogFile file offset 10 io).1
    GetsToRename file offset 10 io →
      (after.1.getD []).take after.2 = framesText (sent.filter (·.id ∈ recent 10 (sent.map LoggedFrame.id))) := by
  intro file offset after hgets
  have hafter : after = (some (compactText (file.getD []) offset 10), (retained (file.getD []) offset 10).length) :=
    congrArg (fun r => afterCompact file offset r.1) (compactLogFile_renames hgets)
  rw [hafter, ← retained_frames (by decide) sent rest]
  exact List.take_left

/-- `compact_log_file(path, &off, 10)` of a log of frames and records leaves of the sent
part the lines of just the last ten frames, or of all if they are fewer: that is so when
there are at most ten, and else when the temporary file replaces the log, the last ten
have different ids, and no frame before them has one of these. -/
theorem compactLogFile_frames_iff (sent : List LoggedFrame) (rest : List Record) (io : CompactIo) :
    let file := some (framesText sent ++ logText rest)
    let offset := (framesText sent).length
    let after := afterCompact file offset (compactLogFile file offset 10 io).1
    (after.1.getD []).take after.2 = framesText (sent.rtake 10) ↔
      sent.length ≤ 10 ∨ io.tmpOpens = true ∧ io.renames = true ∧
        ((sent.rtake 10).map LoggedFrame.id).Nodup ∧
        ∀ id ∈ (sent.rtake 10).map LoggedFrame.id, id ∉ (sent.rdrop 10).map LoggedFrame.id := by
  intro file offset after
  have hsplit : sent.rdrop 10 ++ sent.rtake 10 = sent := List.take_append_drop _ _
  by_cases hgets : GetsToRename file offset 10 io
  · have hafter := sentText_frames hgets
    obtain ⟨-, -, -, htmp, hrenames⟩ := hgets
    rw [show (after.1.getD []).take after.2 = _ from hafter]
    by_cases hfew : sent.length ≤ 10
    · have hall : sent.filter (·.id ∈ recent 10 (sent.map LoggedFrame.id)) = sent :=
        List.filter_eq_self.mpr fun f hf => decide_eq_true
          ((mem_recent_of_length_le ((List.length_map _).trans_le hfew)).mpr (List.mem_map_of_mem hf))
      rw [hall, rtake_of_length_le hfew]
      exact iff_of_true rfl (.inl hfew)
    · have hlen : ((sent.rtake 10).map LoggedFrame.id).length = 10 := by
        rw [List.length_map, length_rtake]
        omega
      have hearlier : (sent.rdrop 10).map LoggedFrame.id ≠ [] := by
        intro h
        have hdrop := congrArg List.length h
        rw [List.length_map, List.rdrop, List.length_take, List.length_nil] at hdrop
        omega
      have h := framesText_filter_iff (recent 10 (sent.map LoggedFrame.id)) (sent.rdrop 10) (sent.rtake 10)
      rw [hsplit] at h
      have hrecent := recent_iff hlen hearlier
      rw [← List.map_append, hsplit] at hrecent
      rw [h, hrecent, htmp, hrenames]
      exact ⟨fun hids => .inr ⟨rfl, rfl, hids⟩, fun hids => (hids.resolve_left hfew).2.2⟩
  · -- The sent part stays as it is.
    have hafter : (after.1.getD []).take after.2 = framesText sent := by
      rw [show after = (file, offset) from congrArg (afterCompact file offset) (compactLogFile_keeps hgets)]
      exact List.take_left
    rw [hafter]
    constructor
    · intro h
      refine .inl (Nat.le_of_not_lt fun hmany => ?_)
      nth_rewrite 1 [← hsplit] at h
      rw [framesText_append] at h
      have hnone := congrArg List.length (framesText_eq_nil (List.append_left_eq_self.mp h))
      rw [List.rdrop, List.length_take, List.length_nil] at hnone
      omega
    · intro h
      have hfew : sent.length ≤ 10 := by
        rcases h with hfew | ⟨htmp, hrenames, -⟩
        · exact hfew
        · refine Nat.le_of_not_lt fun hmany => ?_
          have hoffset : offset ≠ 0 := fun h => by
            rw [framesText_eq_nil (List.length_eq_zero_iff.mp h)] at hmany
            exact absurd hmany (by decide)
          exact hgets ⟨Option.some_ne_none _, hoffset, by decide, htmp, hrenames⟩
      rw [rtake_of_length_le hfew]

/-- A frame of one record. -/
def LoggedFrame.single (r : Record) : LoggedFrame where
  id := r.msg.frameId
  records := [r]
  records_ne := List.cons_ne_nil _ _
  frameId_eq := fun s hs => by rw [List.mem_singleton.mp hs]

/-- Ten frames of one process, then one of the next: the first line stays. -/
theorem compactLogFile_frames_restart :
    let sent := [0, 1, 2, 3, 4, 5, 6, 7, 8, 9, 0].map fun k => LoggedFrame.single (short k)
    let file := some (framesText sent ++ logText [])
    let offset := (framesText sent).length
    let after := afterCompact file offset (compactLogFile file offset 10 ⟨true, true⟩).1
    sent.map LoggedFrame.id = frameIdsFrom 0 10 ++ frameIdsFrom 0 1 ∧
      (after.1.getD []).take after.2 = framesText sent ∧
      (after.1.getD []).take after.2 ≠ framesText (sent.rtake 10) := by
  intro sent file offset after
  have hids : sent.map LoggedFrame.id = frameIdsFrom 0 10 ++ frameIdsFrom 0 1 := by decide +kernel
  have hall : sent.filter (·.id ∈ recent 10 (sent.map LoggedFrame.id)) = sent := by
    rw [List.filter_eq_self]
    decide +kernel
  have hafter : (after.1.getD []).take after.2 = framesText sent := by
    have hoffset : offset ≠ 0 := fun h => absurd (framesText_eq_nil (List.length_eq_zero_iff.mp h)) (by decide)
    have hgets : GetsToRename file offset 10 ⟨true, true⟩ := ⟨Option.some_ne_none _, hoffset, by decide, rfl, rfl⟩
    have h := sentText_frames hgets
    rw [hall] at h
    exact h
  refine ⟨hids, hafter, ?_⟩
  rw [hafter, ← List.take_append_drop 1 sent, framesText_append]
  exact fun h => absurd (framesText_eq_nil (List.append_left_eq_self.mp h)) (by decide)

end Dtu
