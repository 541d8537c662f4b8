import Dtu.Impl.Delivery
import Dtu.Spec.Delivery
import Dtu.Proof.Crash
import Dtu.Proof.LogFile
import Dtu.Proof.Progress

/-!
# Each record is delivered once

The files and offsets of `main_send_thread` implement an outbox of the records
logged: packing finds the entries of the front of each queue (`mainPackPending_leaves`,
`mainPackPendingUntil_leaves`), compacting a log moves its offset with what it leaves
(`Leaves.compact`), and an iteration that commits ships just the front it has packed
(`Delivery.Sound.turn`). So over the whole life of the device, restarts included, each
record leaves its log once and in order (`delivery_once`).
-/

namespace Dtu

open Stdio Loop

/-! ## What an offset leaves -/

theorem LineRest.nil : LineRest [] := .inl rfl

/-- The end of a line is one line without data for both readers. -/
theorem LineRest.line {front : List Char} (h : LineRest front) :
    front = [] ∨ ∃ s, front = s ++ ['\n'] ∧ '\n' ∉ s ∧ s.length < packLineSize - 1 ∧ lineSize front = some 0 := by
  rcases h with rfl | ⟨r, hlong, rfl⟩
  · exact .inl rfl
  · have hlen := r.length_line_le
    have hbody := r.length_line_body
    refine .inr ⟨(logHeader r.tm r.msg ++ hexText r.payload).drop (packLineSize - 1), ?_, fun h => ?_, ?_,
      lineSize_secondPiece r⟩
    · rw [r.line_eq, List.drop_append_of_le_length (by omega)]
    · exact newline_not_mem_lineBody r.tm r.msg (List.mem_of_mem_drop h)
    · rw [List.length_drop]
      simp only [packLineSize] at *
      omega

theorem LineRest.nul_not_mem {front : List Char} (h : LineRest front) : '\x00' ∉ front := by
  rcases h with rfl | ⟨r, -, rfl⟩
  · exact List.not_mem_nil
  · exact fun h => r.nul_not_mem (List.mem_of_mem_drop h)

theorem entryOf_of_lineSize_zero {line : List Char} (h : lineSize line = some 0) : entryOf line = none := by
  by_contra hne
  obtain ⟨size, hle, hsize⟩ := entryOf_isSome.mp (Option.isSome_iff_ne_none.mpr hne)
  rw [h] at hsize
  cases hsize
  omega

theorem LineRest.fgetsAll_append {front : List Char} (h : LineRest front) {size : Nat} (hsize : packLineSize ≤ size)
    (s : List Char) :
    fgetsAll size (front ++ s) = (if front = [] then [] else [front]) ++ fgetsAll size s := by
  have hone : 1 < size := Nat.lt_of_lt_of_le (by decide) hsize
  rcases h.line with rfl | ⟨line, rfl, hmem, hlen, -⟩
  · rfl
  · rw [Stdio.fgetsAll_append hone (.inr List.getLast?_concat), fgetsAll_singleton hmem (by omega), if_neg (by simp)]

theorem Leaves.nul_not_mem {file : Option (List Char)} {offset : Nat} {rest : List Record}
    (h : Leaves file offset rest) : '\x00' ∉ (file.getD []).drop offset := by
  obtain ⟨front, hfront, htext⟩ := h.text
  rw [htext, List.mem_append, not_or]
  exact ⟨hfront.nul_not_mem, nul_not_mem_logText rest⟩

/-- What is appended is left, too. -/
theorem Leaves.append {disk : Disk} {i : Fin mainPathCount} {offset : Nat} {rest : List Record}
    (h : Leaves (disk.logs i) offset rest) (appended : Fin mainPathCount → List Record) :
    Leaves ((disk.append appended).logs i) offset (rest ++ appended i) := by
  obtain ⟨hle, front, hfront, htext⟩ := h
  refine ⟨?_, front, hfront, ?_⟩
  · rw [disk.getD_append, List.length_append]
    omega
  · rw [disk.getD_append, List.drop_append_of_le_length hle, htext, logText_append, List.append_assoc]

/-- Behind its offset a log is the same after `compact_log_file`. -/
theorem drop_compact {file : Option (List Char)} {offset : Nat} (hle : offset ≤ (file.getD []).length)
    (hnul : '\x00' ∉ (file.getD []).drop offset) (io : CompactIo) :
    let file' := ((compactLogFile file offset 10 io).1.map (·.1)).or file
    let offset' := ((compactLogFile file offset 10 io).1.map (·.2)).getD offset
    offset' ≤ (file'.getD []).length ∧ (file'.getD []).drop offset' = (file.getD []).drop offset := by
  cases hr : (compactLogFile file offset 10 io).1 with
  | none => exact ⟨hle, rfl⟩
  | some r =>
    obtain ⟨-, rfl⟩ := compactLogFile_eq_some.mp hr
    have htext := compactText_eq hnul 10
    refine ⟨?_, ?_⟩
    · show (retained (file.getD []) offset 10).length ≤ (compactText (file.getD []) offset 10).length
      rw [htext, List.length_append]
      omega
    · show (compactText (file.getD []) offset 10).drop (retained (file.getD []) offset 10).length = _
      rw [htext, List.drop_left]

/-- A log and its offset after `compact_log_file` leave what they left. -/
theorem Leaves.compact {file : Option (List Char)} {offset : Nat} {rest : List Record} (h : Leaves file offset rest)
    (io : CompactIo) :
    Leaves (((compactLogFile file offset 10 io).1.map (·.1)).or file)
      (((compactLogFile file offset 10 io).1.map (·.2)).getD offset) rest := by
  obtain ⟨hle, htext⟩ := drop_compact h.offset_le h.nul_not_mem io
  exact ⟨hle, htext ▸ h.text⟩

/-- The end of a log leaves nothing. -/
theorem leaves_end (content : List Char) : Leaves (some content) content.length [] where
  offset_le := Nat.le_refl _
  text := ⟨[], .nil, by rw [Option.getD_some, List.drop_length]; rfl⟩

/-- Nothing is left of a log that does not exist. -/
theorem Leaves.of_none {offset : Nat} {rest : List Record} (h : Leaves none offset rest) : rest = [] := by
  obtain ⟨front, -, htext⟩ := h.text
  rw [Option.getD_none, List.drop_nil] at htext
  cases rest with
  | nil => rfl
  | cons r rest =>
    have hnil := (List.append_eq_nil_iff.mp htext.symm).2
    rw [logText_cons] at hnil
    exact absurd (List.append_eq_nil_iff.mp hnil).1 r.line_ne_nil

/-! ## What the packers find of it -/

theorem entryOf_secondPiece (r : Record) : entryOf (r.line.drop (packLineSize - 1)) = none :=
  entryOf_of_lineSize_zero (lineSize_secondPiece r)

theorem entryOf_firstPiece {r : Record} (h : lineSize (r.line.take (packLineSize - 1)) ≠ none) :
    entryOf (r.line.take (packLineSize - 1)) = if 2 ≤ (shown r).length then some (shown r) else none := by
  have hparse := parseLogLine_firstPiece r
  rw [lineSize_firstPiece, shownSize] at h
  rw [if_neg fun hcut => h (if_pos hcut)] at hparse
  rw [entryOf_eq hparse]
  by_cases hlen : 2 ≤ (shown r).length
  · rw [if_pos hlen, if_neg (Nat.not_lt.mpr hlen)]
  · rw [if_neg hlen, if_pos (Nat.lt_of_not_le hlen)]

theorem pieces_cons (line : List Char) (ls : List (List Char)) (k : Nat) :
    pieces (line :: ls) (k + 1) = (entryOf line).toList ++ pieces ls k := by
  rw [pieces, pieces, List.take_succ_cons, List.filterMap_cons]
  cases entryOf line <;> rfl

/-- The first pieces of the lines of records, and what is left behind them, by induction
on the records: a line is one piece, or two of which the second is no entry. -/
theorem take_linePieces (rs : List Record) (k : Nat)
    (hread : ∀ line ∈ (rs.flatMap linePieces).take k, lineSize line ≠ none) :
    ∃ count ≤ rs.length, pieces (rs.flatMap linePieces) k = shownEntries (rs.take count) ∧
      ∃ front, LineRest front ∧ ((rs.flatMap linePieces).drop k).flatten = front ++ logText (rs.drop count) := by
  induction rs generalizing k with
  | nil => exact ⟨0, Nat.le_refl _, by simp [pieces, shownEntries], [], .nil, by simp⟩
  | cons r rs ih =>
    have hflat : ∀ ss : List Record, (ss.flatMap linePieces).flatten = logText ss := fun ss => by
      rw [← fgetsAll_logText, fgetsAll_flatten (by decide)]
    cases k with
    | zero => exact ⟨0, Nat.zero_le _, rfl, [], .nil, hflat (r :: rs)⟩
    | succ k =>
      have hfirst := entryOf_firstPiece (hread (r.line.take (packLineSize - 1)) (by
        rw [List.flatMap_cons, linePieces]
        exact List.mem_cons_self))
      have hentries : ∀ count, shownEntries ((r :: rs).take (count + 1)) =
          (entryOf (r.line.take (packLineSize - 1))).toList ++ shownEntries (rs.take count) := fun count => by
        rw [List.take_succ_cons, shownEntries_cons, hfirst]
        split <;> rfl
      rw [List.flatMap_cons, linePieces] at hread ⊢
      by_cases hshort : r.line.length ≤ packLineSize - 1
      · rw [if_pos hshort, List.cons_append, List.nil_append] at hread ⊢
        rw [List.take_succ_cons] at hread
        obtain ⟨count, hcount, hpieces, hrest⟩ := ih k fun line hline => hread line (List.mem_cons_of_mem _ hline)
        exact ⟨count + 1, Nat.succ_le_succ hcount, by rw [pieces_cons, hpieces, hentries], hrest⟩
      · rw [if_neg hshort, List.cons_append, List.cons_append, List.nil_append] at hread ⊢
        cases k with
        | zero =>
          refine ⟨1, Nat.succ_le_succ (Nat.zero_le _), ?_, _, .inr ⟨r, Nat.lt_of_not_le hshort, rfl⟩, ?_⟩
          · rw [pieces_cons, hentries 0]
            rfl
          · show (r.line.drop (packLineSize - 1) :: rs.flatMap linePieces).flatten = _
            rw [List.flatten_cons, hflat]
            rfl
        | succ k =>
          rw [List.take_succ_cons, List.take_succ_cons] at hread
          obtain ⟨count, hcount, hpieces, hrest⟩ := ih k fun line hline =>
            hread line (List.mem_cons_of_mem _ (List.mem_cons_of_mem _ hline))
          refine ⟨count + 1, Nat.succ_le_succ hcount, ?_, hrest⟩
          rw [pieces_cons, pieces_cons, entryOf_secondPiece, hpieces, hentries]
          rfl

/-- The first lines of records for the reader of `main_pack_pending_until`. -/
theorem take_lines (rs : List Record) (k : Nat) :
    ∃ count ≤ rs.length, pieces (rs.map Record.line) k = recordEntries (rs.take count) ∧
      ((rs.map Record.line).drop k).flatten = logText (rs.drop count) := by
  refine ⟨min k rs.length, Nat.min_le_right _ _, ?_, ?_⟩
  · rw [← List.take_eq_take_min, pieces, ← List.map_take]
    induction rs.take k with
    | nil => rfl
    | cons r rs ih =>
      have hentry := entryOf_eq (parseLogLine_record r)
      rw [List.map_cons, List.filterMap_cons, recordEntries_cons, hentry, ih]
      by_cases hlen : 2 ≤ r.payload.length
      · rw [if_pos hlen, if_neg (Nat.not_lt.mpr hlen)]
      · rw [if_neg hlen, if_pos (Nat.lt_of_not_le hlen)]
  · rw [← List.drop_eq_drop_min, ← List.map_drop]
    rfl

section Reader

variable {file : Option (List Char)} {offset : Nat} {rest : List Record}

/-- What is behind the first lines from an offset on. -/
theorem drop_linesFrom {size : Nat} (hsize : 1 < size) (file : Option (List Char)) (offset k : Nat) :
    (file.getD []).drop (offset + ((linesFrom size file offset).take k).flatten.length) =
      ((linesFrom size file offset).drop k).flatten := by
  rw [← linesFrom_add hsize]
  exact (fgetsAll_flatten hsize _).symm

theorem add_linesFrom_le {size : Nat} (hsize : 1 < size) (h : offset ≤ (file.getD []).length) (k : Nat) :
    offset + ((linesFrom size file offset).take k).flatten.length ≤ (file.getD []).length := by
  have hle : ((linesFrom size file offset).take k).flatten.length ≤ ((file.getD []).drop offset).length := by
    rw [← fgetsAll_flatten hsize ((file.getD []).drop offset)]
    exact ((List.take_sublist k _).flatten).length_le
  rw [List.length_drop] at hle
  omega

/-- What a reader finds behind the end of a line, it finds of the records behind that. -/
theorem Leaves.take {size : Nat} (hsize : packLineSize ≤ size) (h : Leaves file offset rest) {k : Nat}
    {P : List Char → Prop} (hread : ∀ line ∈ (linesFrom size file offset).take k, P line)
    {entries : List Record → List (List UInt8)} (hnil : entries [] = [])
    (hrecords : ∀ k, (∀ line ∈ (fgetsAll size (logText rest)).take k, P line) →
      ∃ count ≤ rest.length, pieces (fgetsAll size (logText rest)) k = entries (rest.take count) ∧
        ∃ front, LineRest front ∧
          ((fgetsAll size (logText rest)).drop k).flatten = front ++ logText (rest.drop count)) :
    ∃ count ≤ rest.length, pieces (linesFrom size file offset) k = entries (rest.take count) ∧
      Leaves file (offset + ((linesFrom size file offset).take k).flatten.length) (rest.drop count) := by
  have hone : 1 < size := Nat.lt_of_lt_of_le (by decide) hsize
  have hle := add_linesFrom_le hone h.offset_le k
  obtain ⟨front, hfront, htext⟩ := h.text
  have hlines : linesFrom size file offset = (if front = [] then [] else [front]) ++ fgetsAll size (logText rest) := by
    rw [linesFrom, htext, hfront.fgetsAll_append hsize]
  suffices hsuff : ∃ count ≤ rest.length, pieces (linesFrom size file offset) k = entries (rest.take count) ∧
      ∃ front, LineRest front ∧ ((linesFrom size file offset).drop k).flatten = front ++ logText (rest.drop count) by
    obtain ⟨count, hcount, hpieces, hrest⟩ := hsuff
    exact ⟨count, hcount, hpieces, hle, by rw [drop_linesFrom hone]; exact hrest⟩
  rw [hlines] at hread ⊢
  by_cases hempty : front = []
  · rw [if_pos hempty, List.nil_append] at hread ⊢
    exact hrecords k hread
  · rw [if_neg hempty, List.singleton_append] at hread ⊢
    cases k with
    | zero =>
      refine ⟨0, Nat.zero_le _, hnil.symm, front, hfront, ?_⟩
      rw [List.drop_zero, List.flatten_cons, fgetsAll_flatten hone, List.drop_zero]
    | succ k =>
      obtain ⟨-, -, -, -, hzero⟩ := hfront.line.resolve_left hempty
      obtain ⟨count, hcount, hpieces, hrest⟩ := hrecords k fun line hline =>
        hread line (by
          rw [List.take_succ_cons]
          exact List.mem_cons_of_mem _ hline)
      refine ⟨count, hcount, ?_, hrest⟩
      rw [pieces_cons, entryOf_of_lineSize_zero hzero, ← hpieces]
      rfl

/-- The first lines that `main_pack_pending` reads, if it can read them. -/
theorem Leaves.take_pack (h : Leaves file offset rest) {k : Nat}
    (hread : ∀ line ∈ (linesFrom packLineSize file offset).take k, lineSize line ≠ none) :
    ∃ count ≤ rest.length, pieces (linesFrom packLineSize file offset) k = shownEntries (rest.take count) ∧
      Leaves file (offset + ((linesFrom packLineSize file offset).take k).flatten.length) (rest.drop count) := by
  refine h.take (Nat.le_refl _) hread rfl fun k hread => ?_
  rw [fgetsAll_logText] at hread ⊢
  exact take_linePieces rest k hread

/-- The first lines that `main_pack_pending_until` reads of a window. -/
theorem Leaves.take_until (h : Leaves file offset rest) (stop k : Nat) :
    ∃ count ≤ rest.length,
      pieces (linesWithin stop offset (linesFrom untilLineSize file offset)) k = recordEntries (rest.take count) ∧
      Leaves file (offset + ((linesWithin stop offset (linesFrom untilLineSize file offset)).take k).flatten.length)
        (rest.drop count) := by
  have htake : (linesWithin stop offset (linesFrom untilLineSize file offset)).take k =
      (linesFrom untilLineSize file offset).take
        ((linesWithin stop offset (linesFrom untilLineSize file offset)).take k).length :=
    List.prefix_iff_eq_take.mp ((List.take_prefix k _).trans (isPrefix_linesWithin stop offset _))
  rw [pieces, htake]
  refine h.take (P := fun _ => True) (by decide) (fun _ _ => trivial) rfl fun k _ => ?_
  rw [fgetsAll_logText_until]
  obtain ⟨count, hcount, hpieces, hrest⟩ := take_lines rest k
  exact ⟨count, hcount, hpieces, [], .nil, hrest⟩

end Reader

/-- Records taken of the front of what the offsets leave, with the entries sent of them. -/
structure PackedFront (way : Way) (logs : Logs) (rest : Fin mainPathCount → List Record) (pendingOffsets : Offsets)
    (rawData : List UInt8) (count : Fin mainPathCount → Nat) : Prop where
  count_le (i : Fin mainPathCount) : count i ≤ (rest i).length
  leaves (i : Fin mainPathCount) : Leaves (logs i) (pendingOffsets i) ((rest i).drop (count i))
  rawData : rawData = joinRaw ((List.finRange mainPathCount).flatMap fun i => way.entries ((rest i).take (count i)))

theorem finishPack_raw {n : Nat} {pendingOffsets : Fin n → Nat} {es : List (List UInt8)} (hes : ∀ e ∈ es, e ≠ [])
    {rawBufSize : Nat} (hm : 0 < rawBufSize)
    (hret : (finishPack pendingOffsets (joinHex es) es.length rawBufSize).ret = 0) :
    (finishPack pendingOffsets (joinHex es) es.length rawBufSize).rawBuf = joinRaw es := by
  rw [finishPack_eq pendingOffsets hes hm] at hret ⊢
  split at hret
  · rename_i hfit
    rw [if_pos hfit]
  · cases hret

section Packers

variable {logs : Logs} {offsets : Offsets} {rest : Fin mainPathCount → List Record} {r : PackResult mainPathCount}

/-- What a packer takes of the lines it finds, when each line is an entry of the records or none. -/
theorem packedFront_of_batch {way : Way} {acc : List (List UInt8) → List (Option Nat) → Option Nat}
    {lines : Fin mainPathCount → List (List Char)} {es : List (List UInt8)} {ks count : Fin mainPathCount → Nat}
    (hbatch : takeBatch acc lines = some (es, ks))
    (hcount : ∀ i, count i ≤ (rest i).length ∧ pieces (lines i) (ks i) = way.entries ((rest i).take (count i)) ∧
      Leaves (logs i) (behind lines offsets ks i) ((rest i).drop (count i)))
    {rawBufSize : Nat} (hm : 0 < rawBufSize)
    (hret : (finishPack (behind lines offsets ks) (joinHex es) es.length rawBufSize).ret = 0) :
    PackedFront way logs rest (finishPack (behind lines offsets ks) (joinHex es) es.length rawBufSize).pendingOffsets
      (finishPack (behind lines offsets ks) (joinHex es) es.length rawBufSize).rawBuf count where
  count_le i := (hcount i).1
  leaves i := by
    rw [finishPack_pendingOffsets]
    exact (hcount i).2.2
  rawData := by
    rw [finishPack_raw (ne_nil_of_mem_batch hbatch) hm hret, (takeBatch_some hbatch).1]
    exact congrArg joinRaw (List.flatMap_congr fun i _ => (hcount i).2.1)

/-- What `main_pack_pending` packs. -/
theorem mainPackPending_leaves (h : ∀ i, Leaves (logs i) (offsets i) (rest i))
    (hr : mainPackPending logs offsets egMaxHexLen (egMaxHexLen / 2 + 1) = some r) (hret : r.ret = 0) :
    ∃ count, PackedFront .over4g logs rest r.pendingOffsets r.rawBuf count := by
  rw [mainPackPending, packDataFromFiles_lines, Option.map_map, Option.map_eq_some_iff] at hr
  obtain ⟨⟨es, ks⟩, hbatch, rfl⟩ := hr
  have hacc : Acceptor (fun es => accept egMaxHexLen (hexCost es)) (egMaxHexLen / 2) := acceptor_hex (by decide) rfl
  have hread : ∀ i, ∀ line ∈ (linesFrom packLineSize (logs i) (offsets i)).take (ks i), lineSize line ≠ none :=
    fun i line hline => by
      obtain ⟨size, -, hsize⟩ := not_exceeds.mp (hacc.not_exceeds_of_taken hbatch i line hline)
      rw [hsize]
      exact Option.some_ne_none size
  choose count hcount using fun i => (h i).take_pack (hread i)
  exact ⟨count, packedFront_of_batch hbatch hcount (by decide) hret⟩

/-- What `main_pack_pending_until` packs of a window. -/
theorem mainPackPendingUntil_leaves (h : ∀ i, Leaves (logs i) (offsets i) (rest i)) {endOffsets : Offsets}
    (hr : mainPackPendingUntil logs offsets endOffsets bdMaxHexLen bdMaxRawLen = some r) (hret : r.ret = 0) :
    ∃ count, PackedFront .overBd logs rest r.pendingOffsets r.rawBuf count := by
  rw [mainPackPendingUntil_lines, Option.map_eq_some_iff] at hr
  obtain ⟨⟨es, ks⟩, hbatch, rfl⟩ := hr
  choose count hcount using fun i => (h i).take_until (endOffsets i) (ks i)
  exact ⟨count, packedFront_of_batch hbatch hcount (by decide) hret⟩

end Packers

/-! ## What an iteration does -/

theorem MainSend.appendedIn_of_ne {s : MainSend} (h : s.state ≠ .tryBd) (t : Turn) : s.appendedIn t = fun _ => [] := by
  rw [MainSend.appendedIn, if_neg fun hst => h hst.2]

theorem MainSend.fail4g_disk (s : MainSend) : s.fail4g.disk = s.disk := by
  unfold MainSend.fail4g
  split <;> rfl

theorem MainSend.try4g_disk {s s' : MainSend} {t : Turn} {c : Option Commit} (h : s.try4g t = (s', c)) :
    (c.elim s'.disk Commit.disk) = s.disk := by
  unfold MainSend.try4g at h
  split at h
  · cases h
    rfl
  split at h
  · cases h
    rfl
  split at h
  · simp only at h
    split at h
    · cases h
      rfl
    · cases h
      exact MainSend.fail4g_disk _
  · simp only at h
    split at h
    · cases h
      rfl
    · cases h
      exact MainSend.fail4g_disk _

/-- The disk on which an iteration commits, or that it leaves, has the records appended in it. -/
theorem MainSend.turn_appended {s s' : MainSend} {t : Turn} {c : Option Commit} (h : s.turn t = some (s', c))
    (hmesh : t.meshNode = false) : (c.elim s'.disk Commit.disk) = s.disk.append (s.appendedIn t) := by
  unfold MainSend.turn at h
  rw [hmesh, if_neg (by decide)] at h
  by_cases hst : s.state = .tryBd
  · rw [hst] at h
    simp only [MainSend.tryBd, Option.map_eq_some_iff] at h
    obtain ⟨r, hr, h⟩ := h
    rw [MainSend.appendedIn, if_pos ⟨hmesh, hst⟩, hr]
    simp only
    split at h
    · rename_i hret
      cases h
      rw [if_pos hret, Disk.append_nil]
      rfl
    rename_i hret
    rw [if_neg hret]
    split at h
    · rename_i hcount
      cases h
      rw [if_pos hcount, Disk.append_nil]
      rfl
    rename_i hcount
    rw [if_neg hcount]
    split at h
    · rename_i htime
      cases h
      rw [if_pos htime, Disk.append_nil]
      rfl
    rename_i htime
    rw [if_neg htime]
    repeat' split at h
    all_goals
      cases h
      rfl
  · rw [MainSend.appendedIn_of_ne hst, Disk.append_nil]
    split at h
    · obtain ⟨s₁, hidle, heq⟩ := Option.map_eq_some_iff.mp h
      cases heq
      simp only [MainSend.idle, Option.map_eq_some_iff] at hidle
      obtain ⟨r, -, rfl⟩ := hidle
      simp only [Option.elim_none]
      split
      · rfl
      split
      · rfl
      split <;> rfl
    · exact MainSend.try4g_disk (Option.some.inj h)
    · rename_i htry
      exact absurd htry hst
    · cases h
      unfold MainSend.bdWait
      split <;> rfl
    · cases h
      unfold MainSend.powerDown
      split <;> rfl

theorem PackedFront.append {way : Way} {disk : Disk} {rest : Fin mainPathCount → List Record} {pendingOffsets : Offsets}
    {rawData : List UInt8} {count : Fin mainPathCount → Nat}
    (h : PackedFront way disk.logs rest pendingOffsets rawData count) (appended : Fin mainPathCount → List Record) :
    PackedFront way (disk.append appended).logs (fun i => rest i ++ appended i) pendingOffsets rawData count where
  count_le i := by
    have := h.count_le i
    rw [List.length_append]
    omega
  leaves i := by
    rw [List.drop_append_of_le_length (h.count_le i)]
    exact (h.leaves i).append appended
  rawData := by
    rw [h.rawData]
    refine congrArg joinRaw (List.flatMap_congr fun i _ => ?_)
    rw [List.take_append_of_le_length (h.count_le i)]

/-- Saving offsets does not change the logs. -/
theorem logs_saveOffsets (disk : Disk) (ops : List DiskOp) (offsets : Offsets) :
    (disk.applyAll (ops ++ saveOffsets offsets)).logs = (disk.applyAll ops).logs := by
  rw [Disk.applyAll, List.foldl_append]
  rfl

/-- The log and the offset after the calls of `compact_log_file`. -/
theorem logs_compactOps (disk : Disk) (offsets : Offsets) (io : Fin mainPathCount → CompactIo) (saved : Offsets)
    (i : Fin mainPathCount) :
    (disk.applyAll (compactOps disk.logs offsets io ++ saveOffsets saved)).logs i =
      ((compactLogFile (disk.logs i) (offsets i) 10 (io i)).1.map (·.1)).or (disk.logs i) := by
  rw [logs_saveOffsets, Disk.applyAll, Dtu.compactOps, renames_foldl]
  exact if_pos (List.mem_finRange i)

theorem compactOffsets_eq (logs : Logs) (offsets : Offsets) (io : Fin mainPathCount → CompactIo) (i : Fin mainPathCount) :
    compactOffsets logs offsets io i =
      ((compactLogFile (logs i) (offsets i) 10 (io i)).1.map (·.2)).getD (offsets i) := by
  rw [compactOffsets]
  cases (compactLogFile (logs i) (offsets i) 10 (io i)).1 <;> rfl

/-- A compacted log and its new offset leave what they left. -/
theorem Leaves.compactOps {disk : Disk} {offsets : Offsets} {i : Fin mainPathCount} {rest : List Record}
    (h : Leaves (disk.logs i) (offsets i) rest) (io : Fin mainPathCount → CompactIo) (saved : Offsets) :
    Leaves ((disk.applyAll (compactOps disk.logs offsets io ++ saveOffsets saved)).logs i)
      (compactOffsets disk.logs offsets io i) rest := by
  rw [logs_compactOps, compactOffsets_eq]
  exact h.compact (io i)

/-! ## The invariant -/

/-- The files and offsets hold the outbox: its items are those logged, its payloads those
acknowledged, each log and its offset leave what is pending, and what is packed for
4G is the front of it. -/
structure Delivery.Sound (s : Delivery) (o : Outbox (Fin mainPathCount) Record Way) : Prop where
  items (i : Fin mainPathCount) : o.items i = s.logged i
  payloads : o.shipments.filterMap shipmentPayload = s.commits.map (·.payload)
  leaves (i : Fin mainPathCount) : Leaves (s.main.disk.logs i) (s.main.offsets i) (o.pending i)
  saved : loadOffsets s.main.disk.offsetFile = s.main.offsets
  packed : s.main.state = .try4g →
    ∃ count, PackedFront .over4g s.main.disk.logs o.pending s.main.pendingOffsets s.main.rawData count

theorem Delivery.sound_blank : Delivery.blank.Sound .empty where
  items _ := rfl
  payloads := rfl
  leaves _ := ⟨Nat.le_refl _, [], .nil, rfl⟩
  saved := rfl
  packed h := by cases h

variable {s : Delivery} {o : Outbox (Fin mainPathCount) Record Way}

theorem Delivery.Sound.append (h : s.Sound o) {appended : Fin mainPathCount → List Record} {main : MainSend}
    (hdisk : main.disk = s.main.disk.append appended) (hoffsets : main.offsets = s.main.offsets)
    (hpacked : main.state = .try4g → s.main.state = .try4g ∧ main.pendingOffsets = s.main.pendingOffsets ∧
      main.rawData = s.main.rawData) :
    ({ s with main, logged := fun i => s.logged i ++ appended i } : Delivery).Sound (o.put appended) where
  items i := by rw [Outbox.items_put, h.items]
  payloads := h.payloads
  leaves i := by
    rw [Outbox.pending_put]
    show Leaves (main.disk.logs i) (main.offsets i) _
    rw [hdisk, hoffsets]
    exact (h.leaves i).append appended
  saved := by
    show loadOffsets main.disk.offsetFile = main.offsets
    rw [hdisk, hoffsets]
    exact h.saved
  packed hst := by
    obtain ⟨hst, hpending, hraw⟩ := hpacked hst
    obtain ⟨count, hcount⟩ := h.packed hst
    refine ⟨count, ?_⟩
    show PackedFront .over4g main.disk.logs _ main.pendingOffsets main.rawData count
    rw [hdisk, hpending, hraw]
    exact hcount.append appended

/-- The front of each queue leaves in a shipment. -/
theorem Delivery.Sound.ship (h : s.Sound o) {way : Way} {count : Fin mainPathCount → Nat}
    {appended : Fin mainPathCount → List Record} {commits : List Commit} {main : MainSend}
    (hpayload : (shipmentPayload ⟨way, o.front count⟩).toList = commits.map (·.payload))
    (hleaves : ∀ i, Leaves (main.disk.logs i) (main.offsets i) ((o.pending i).drop (count i) ++ appended i))
    (hsaved : loadOffsets main.disk.offsetFile = main.offsets) (hst : main.state ≠ .try4g) :
    (⟨main, fun i => s.logged i ++ appended i, s.commits ++ commits⟩ : Delivery).Sound
      ((o.ship way count).put appended) where
  items i := by rw [Outbox.items_put, Outbox.items_ship, h.items]
  payloads := by
    rw [Outbox.shipments_put, Outbox.shipments_ship, List.filterMap_append, h.payloads, List.map_append, ← hpayload]
    refine congrArg _ ?_
    rw [List.filterMap_cons]
    cases shipmentPayload ⟨way, o.front count⟩ <;> rfl
  leaves := hleaves
  saved := hsaved
  packed h := absurd h hst

theorem shipmentPayload_front {way : Way} {logs : Logs} {pendingOffsets : Offsets} {rawData : List UInt8}
    {count : Fin mainPathCount → Nat} (hway : way ≠ .skipped)
    (h : PackedFront way logs o.pending pendingOffsets rawData count) :
    shipmentPayload ⟨way, o.front count⟩ = some rawData := by
  rw [shipmentPayload, if_neg hway, h.rawData]
  rfl

/-- An iteration as a node skips all that is pending. -/
theorem Delivery.Sound.node (h : s.Sound o) {t : Turn} (hmesh : t.meshNode = true) (hst : s.main.state ≠ .try4g)
    (hsaved : loadOffsets s.main.nodeTurn.disk.offsetFile = s.main.nodeTurn.offsets) :
    ∃ o', (⟨s.main.nodeTurn, fun i => s.logged i ++ s.main.appendedIn t i, s.commits ++ []⟩ : Delivery).Sound o' := by
  refine ⟨(o.ship .skipped fun i => (o.pending i).length).put (s.main.appendedIn t),
    h.ship rfl (fun i => ?_) hsaved hst⟩
  have hnil : s.main.appendedIn t i = [] := by
    rw [MainSend.appendedIn, if_neg fun hnode => by simp [hmesh] at hnode]
  have hleaves := h.leaves i
  rw [hnil, List.append_nil, List.drop_length]
  show Leaves (s.main.disk.logs i) (s.main.nodeTurn.offsets i) []
  simp only [MainSend.nodeTurn]
  cases hlog : s.main.disk.logs i with
  | none =>
    rw [hlog] at hleaves
    exact hleaves.of_none ▸ hleaves
  | some content => exact leaves_end content

/-- A commit ships what has been packed; what is appended to the logs meanwhile is behind it. -/
theorem Delivery.Sound.commit (h : s.Sound o) {way : Way} (hway : way ≠ .skipped) {pendingOffsets : Offsets}
    {c : Commit} {count : Fin mainPathCount → Nat} {appended : Fin mainPathCount → List Record} {main : MainSend}
    (hfront : PackedFront way s.main.disk.logs o.pending pendingOffsets c.payload count)
    (hleaves : ∀ i, Leaves (main.disk.logs i) (main.offsets i) ((o.pending i).drop (count i) ++ appended i))
    (hsaved : loadOffsets main.disk.offsetFile = main.offsets) (hst : main.state ≠ .try4g) :
    ∃ o', (⟨main, fun i => s.logged i ++ appended i, s.commits ++ [c]⟩ : Delivery).Sound o' := by
  refine ⟨(o.ship way count).put appended, h.ship ?_ hleaves hsaved hst⟩
  rw [shipmentPayload_front hway hfront]
  rfl

/-- An iteration skips, packs, waits or commits what it has packed. -/
theorem Delivery.Sound.turn (h : s.Sound o) {t : Turn} {main : MainSend} {c : Option Commit}
    (hturn : s.main.turn t = some (main, c)) (hok : t.meshNode = true → s.main.state ≠ .try4g) :
    ∃ o', (⟨main, fun i => s.logged i ++ s.main.appendedIn t i, s.commits ++ c.toList⟩ : Delivery).Sound o' := by
  have hturned := MainSend.turned hturn
  have hsaved := hturned.saved h.saved
  have happended := MainSend.turn_appended hturn
  cases hturned with
  | node hmesh => exact h.node hmesh (hok hmesh) hsaved
  | packed hmesh hst hr hkept hdisk hpending hraw hready =>
    have hnil := MainSend.appendedIn_of_ne (s := s.main) (by rw [hst]; decide) t
    have hput : (⟨{ main with state := .idle }, fun i => s.logged i ++ s.main.appendedIn t i, s.commits⟩ :
        Delivery).Sound (o.put (s.main.appendedIn t)) :=
      h.append (by rw [hnil, Disk.append_nil]; exact hdisk) hkept.offsets fun hst => by cases hst
    refine ⟨_, ?_, ?_, hput.leaves, hput.saved, fun hst' => ?_⟩
    · exact hput.items
    · show _ = List.map Commit.payload (s.commits ++ [])
      rw [List.append_nil]
      exact hput.payloads
    · obtain ⟨count, hcount⟩ := mainPackPending_leaves h.leaves hr (hready (.inl hst')).1
      refine ⟨count, ?_⟩
      show PackedFront .over4g main.disk.logs _ main.pendingOffsets main.rawData count
      rw [hdisk, hpending, hraw]
      have happend := hcount.append (s.main.appendedIn t)
      rw [hnil, Disk.append_nil] at happend
      rw [hnil]
      exact happend
  | waited appended hmesh hkept hdisk hst' =>
    refine ⟨o.put (s.main.appendedIn t), ?_⟩
    rw [Option.toList_none, List.append_nil]
    exact h.append (happended hmesh) hkept.offsets fun hst => absurd hst hst'
  | opened hmesh hst hidle hoffsets hdisk hend hactive hst' =>
    refine ⟨o.put (s.main.appendedIn t), ?_⟩
    rw [Option.toList_none, List.append_nil]
    refine h.append (happended hmesh) hoffsets fun hst => ?_
    rw [hst'] at hst
    cases hst
  | sent4g hmesh hst hoffsets hdisk hend hactive hst' =>
    obtain ⟨count, hcount⟩ := h.packed hst
    have hnil := MainSend.appendedIn_of_ne (s := s.main) (by rw [hst]; decide) t
    refine h.commit (by decide) hcount (fun i => ?_) hsaved (by rw [hst']; decide)
    rw [hdisk, hoffsets, hnil, List.append_nil]
    exact (hcount.leaves i).compactOps t.compact _
  | @sentBd _ r hmesh hst hr hret hcount hdone hoffsets hdisk hend hactive hst' =>
    obtain ⟨count, hcount⟩ := mainPackPendingUntil_leaves h.leaves hr hret
    refine h.commit (by decide) hcount (fun i => ?_) hsaved (by rw [hst']; decide)
    have hdisk' : (s.main.disk.append t.appended).applyAll (saveOffsets r.pendingOffsets) =
        (s.main.disk.append (s.main.appendedIn t)).applyAll (saveOffsets r.pendingOffsets) :=
      congrArg (Disk.applyAll · _) (happended hmesh)
    rw [hdisk, hoffsets]
    simp only [MainSend.commitBd, hdone, Bool.false_eq_true, if_false, List.append_nil]
    rw [hdisk']
    exact (hcount.leaves i).append (s.main.appendedIn t)
  | @doneBd _ r hmesh hst hr hret hcount hdone hoffsets hdisk hactive hst' =>
    obtain ⟨count, hcount⟩ := mainPackPendingUntil_leaves h.leaves hr hret
    refine h.commit (by decide) hcount (fun i => ?_) hsaved (by rw [hst']; decide)
    have hdisk' : s.main.disk.append t.appended = s.main.disk.append (s.main.appendedIn t) := happended hmesh
    rw [hdisk, hoffsets]
    simp only [MainSend.commitBd, hdone, if_true]
    rw [hdisk', Disk.applyAll, List.foldl_append]
    have hleaves : Leaves (((s.main.disk.append (s.main.appendedIn t)).applyAll (saveOffsets r.pendingOffsets)).logs i)
        (r.pendingOffsets i) _ := (hcount.leaves i).append (s.main.appendedIn t)
    exact hleaves.compactOps t.compact _

/-- After a restart the offsets are those in the offset file. -/
theorem Delivery.Sound.restart (h : s.Sound o) : ({ s with main := .boot s.main.disk } : Delivery).Sound o where
  items := h.items
  payloads := h.payloads
  leaves i := by
    show Leaves (s.main.disk.logs i) (loadOffsets s.main.disk.offsetFile i) _
    rw [h.saved]
    exact h.leaves i
  saved := rfl
  packed h := by cases h

theorem Delivery.Sound.step_append {s' : Delivery} (h : s.Sound o) {appended : Fin mainPathCount → List Record}
    {e : Unit} (hs : s.step (.append appended) = some (s', e)) :
    ∃ o', s'.Sound o' ∧ ∀ i, s'.logged i = s.logged i ++ appended i := by
  cases hs
  exact ⟨_, h.append rfl rfl fun hst => ⟨hst, rfl, rfl⟩, fun _ => rfl⟩

theorem Delivery.Sound.step_turn {s' : Delivery} (h : s.Sound o) {t : Turn} {e : Unit}
    (hs : s.step (.turn t) = some (s', e)) (hok : s.NodeInTurn (.turn t)) :
    ∃ o', s'.Sound o' ∧ ∀ i, s'.logged i = s.logged i ++ s.main.appendedIn t i := by
  obtain ⟨⟨main, c⟩, hturn, heq⟩ := Option.map_eq_some_iff.mp hs
  cases heq
  obtain ⟨o', h'⟩ := h.turn hturn hok
  exact ⟨o', h', fun _ => rfl⟩

theorem Delivery.sound_of_runs {s : Delivery} (hrun : Runs Delivery.step Delivery.NodeInTurn Delivery.blank s) :
    ∃ o, s.Sound o := by
  refine hrun.invariant (I := fun s => ∃ o, s.Sound o) ⟨_, Delivery.sound_blank⟩ ?_
  rintro s (appended | t | _) s' e ⟨o, h⟩ hok hstep
  · obtain ⟨o', h', -⟩ := h.step_append hstep
    exact ⟨o', h'⟩
  · obtain ⟨o', h', -⟩ := h.step_turn hstep hok
    exact ⟨o', h'⟩
  · cases hstep
    exact ⟨_, h.restart⟩

end Dtu
