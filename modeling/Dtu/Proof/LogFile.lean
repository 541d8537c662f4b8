import Dtu.Framework.Runs
import Dtu.Impl.LogFile
import Dtu.Proof.Compact
import Dtu.Proof.Limits

/-!
# A log compacted while it is written

The steps of `compact_log_file` among those of `write_file_thread` come to what
`compactLogFile` does to the log before any line is appended, followed by the
lines flushed (`compact_interleaved`): as long as no line is flushed to a file
that `rename` has replaced, or between the end of the copy and the `rename`.
-/

namespace Dtu

open Stdio

/-! ## Reading a log that grows -/

/-- Text of whole lines. -/
def WholeLines (text : List Char) : Prop := text = [] ∨ text.getLast? = some '\n'

theorem WholeLines.drop {text : List Char} (h : WholeLines text) (pos : Nat) : WholeLines (text.drop pos) := by
  by_cases hpos : text.length ≤ pos
  · exact .inl (List.drop_of_length_le hpos)
  · refine .inr ?_
    rw [List.getLast?_drop, if_neg hpos]
    refine h.resolve_left ?_
    rintro rfl
    exact hpos (Nat.zero_le _)

theorem wholeLines_logText (rs : List Record) : WholeLines (logText rs) := by
  induction rs with
  | nil => exact .inl rfl
  | cons r rs ih =>
    refine .inr ?_
    rw [logText_cons, List.getLast?_append, r.getLast?_line]
    rcases ih with h | h
    · rw [h]
      rfl
    · rw [h]
      rfl

theorem WholeLines.append {text : List Char} (h : WholeLines text) (rs : List Record) :
    WholeLines (text ++ logText rs) := by
  rcases wholeLines_logText rs with hrs | hrs
  · rwa [hrs, List.append_nil]
  · refine .inr ?_
    rw [List.getLast?_append, hrs]
    rfl

/-- A line is read before the end of a log as without what has been appended. -/
theorem WholeLines.fgets_append {text : List Char} (h : WholeLines text) {pos : Nat} (hpos : pos < text.length)
    (t : List Char) :
    fgets logCompactMaxLine ((text ++ t).drop pos) = fgets logCompactMaxLine (text.drop pos) := by
  have hne : text.drop pos ≠ [] := by simpa using hpos
  rw [List.drop_append_of_le_length (Nat.le_of_lt hpos)]
  exact readLine_append (.inl (List.mem_of_getLast? ((h.drop pos).resolve_left hne))) t

theorem fgets_eq_nil {s : List Char} : fgets logCompactMaxLine s = [] ↔ s = [] := by
  constructor
  · intro h
    refine Classical.byContradiction fun hne => ?_
    exact readLine_ne_nil (by decide) hne h
  · rintro rfl
    rfl

/-- What the third loop copies of a log from a position on. -/
def copyText (pos : Nat) (text : List Char) : List Char := (fgetsAll logCompactMaxLine (text.drop pos)).flatMap cstr

theorem nul_not_mem_logText (rs : List Record) : '\x00' ∉ logText rs := by
  simp only [logText, List.mem_flatMap, not_exists, not_and]
  exact fun r _ => r.nul_not_mem

theorem WholeLines.copyText_append {text : List Char} (h : WholeLines text) {pos : Nat} (hpos : pos ≤ text.length)
    (rs : List Record) : copyText pos (text ++ logText rs) = copyText pos text ++ logText rs := by
  rw [copyText, List.drop_append_of_le_length hpos, fgetsAll_append (by decide) (h.drop pos), List.flatMap_append,
    flatMap_cstr_fgetsAll (nul_not_mem_logText rs), copyText]

theorem copyText_line {text : List Char} {pos : Nat} (hne : text.drop pos ≠ []) :
    copyText pos text = cstr (fgets logCompactMaxLine (text.drop pos)) ++
      copyText (pos + (fgets logCompactMaxLine (text.drop pos)).length) text := by
  rw [copyText, fgetsAll_eq (by decide) hne, List.flatMap_cons, copyText, List.drop_drop]

theorem sentLines_line {content : List Char} {offset pos : Nat} (hpos : pos < offset) (hoffset : offset ≤ content.length) :
    sentLines offset pos (fgetsAll logCompactMaxLine (content.drop pos)) =
      fgets logCompactMaxLine (content.drop pos) ::
        sentLines offset (pos + (fgets logCompactMaxLine (content.drop pos)).length)
          (fgetsAll logCompactMaxLine (content.drop (pos + (fgets logCompactMaxLine (content.drop pos)).length))) := by
  have hne : content.drop pos ≠ [] := by
    simp only [ne_eq, List.drop_eq_nil_iff]
    omega
  rw [fgetsAll_eq (by decide) hne, sentLines, if_pos hpos, List.drop_drop]

theorem sentLines_stop {offset pos : Nat} (hpos : offset ≤ pos) (lines : List (List Char)) :
    sentLines offset pos lines = [] := by
  cases lines with
  | nil => rfl
  | cons line lines => rw [sentLines, if_neg (by omega)]

/-! ## The steps of `compact_log_file` -/

/-- The frames that `compact_log_file` keeps. -/
def keptBefore (content : List Char) (offset : Nat) : List (Option UInt32) :=
  keptFrames (sentLines offset 0 (fgetsAll logCompactMaxLine content)) 0 (List.replicate 10 none)

/-- What each place of `compact_log_file` has done of a log that had `content` at
first: its first two loops end with what they end with on that, its third with
the copy of the log as it is at the end. -/
def Compactor.At (content : List Char) (offset path : Nat) (text : List Char) (flushed : List Record) : Compactor → Prop
  | .called => True
  | .scan fd pos legacyFrameId kept =>
    (offset ≠ 0 ∧ fd = path) ∧
      keptFrames (sentLines offset pos (fgetsAll logCompactMaxLine (content.drop pos))) legacyFrameId kept =
        keptBefore content offset
  | .retain fd pos legacyFrameId kept out newOffset =>
    (offset ≠ 0 ∧ fd = path) ∧ newOffset = out.length ∧ kept = keptBefore content offset ∧
      out ++ retainedText kept (sentLines offset pos (fgetsAll logCompactMaxLine (content.drop pos))) legacyFrameId =
        retained content offset 10
  | .copy fd pos out newOffset =>
    (offset ≠ 0 ∧ fd = path) ∧ newOffset = (retained content offset 10).length ∧ pos ≤ text.length ∧
      out ++ copyText pos text = compactText content offset 10 ++ logText flushed
  | .copied fd pos out newOffset =>
    (offset ≠ 0 ∧ fd = path) ∧ newOffset = (retained content offset 10).length ∧ pos ≤ text.length ∧
      (text.length = pos → out = compactText content offset 10 ++ logText flushed)
  | .returned _ => False

/-- `compact_log_file` has not returned, and what has been flushed is in the log. -/
structure LogFile.Working (content : List Char) (offset : Nat) (s : LogFile) : Prop where
  text_eq : s.text = content ++ logText s.flushed
  offset_eq : s.offset = offset
  place : s.compactor.At content offset s.path s.text s.flushed

/-- `compact_log_file` has returned, as if it had run before any line was flushed;
`none` stands for a log that it could not open. -/
def LogFile.AsIf (content : List Char) (offset : Nat) (s : LogFile) (ret : Int) : Prop :=
  ∃ file io, (file = none ∨ file = some content) ∧ ret = (compactLogFile file offset 10 io).2 ∧
    s.text = ((compactLogFile file offset 10 io).1.map (·.1)).getD content ++ logText s.flushed ∧
    s.offset = ((compactLogFile file offset 10 io).1.map (·.2)).getD offset

/-- No line is flushed to a file that is not under the path any more, and a file
that has grown behind the end of the copy is not replaced. -/
def LogFile.inTime (s : LogFile) : FileAction → Bool
  | .fflush =>
    match s.writer with
    | .opened fd _ => fd = s.path
    | _ => true
  | .compact _ io =>
    match s.compactor with
    | .copied fd pos _ _ => !io.renames || (s.files fd).length = pos
    | _ => true
  | _ => true

variable {content : List Char} {offset : Nat}

theorem compactLogFile_kept {file : Option (List Char)} {io : CompactIo} {ret : Int}
    (h : compactLogFile file offset 10 io = (none, ret)) (hfile : file = none ∨ file = some content) {s : LogFile}
    (hwork : s.text = content ++ logText s.flushed) (hoffset : s.offset = offset) : s.AsIf content offset ret :=
  ⟨file, io, hfile, by rw [h], by rw [h]; exact hwork, by rw [h]; exact hoffset⟩

/-- A line that `compact_log_file` reads before `sent_end`. -/
theorem LogFile.Working.sentLine {s : LogFile} (h : s.Working content offset) (hcontent : WholeLines content)
    (hoffset : offset ≤ content.length) (pos : Nat) :
    s.sentLine s.path pos = if pos < offset then fgets logCompactMaxLine (content.drop pos) else [] := by
  have htext : s.files s.path = content ++ logText s.flushed := h.text_eq
  rw [LogFile.sentLine, h.offset_eq, htext]
  split
  · exact hcontent.fgets_append (by omega) _
  · rfl

theorem LogFile.Working.sentLine_eq_nil {s : LogFile} (h : s.Working content offset) (hcontent : WholeLines content)
    (hoffset : offset ≤ content.length) (pos : Nat) : s.sentLine s.path pos = [] ↔ offset ≤ pos := by
  rw [h.sentLine hcontent hoffset]
  split
  · rw [fgets_eq_nil, List.drop_eq_nil_iff]
    omega
  · simp only [true_iff]
    omega

/-- The state between two steps of `compact_log_file`. -/
def LogFile.Sound (content : List Char) (offset : Nat) (s : LogFile) : Prop :=
  s.Working content offset ∨ ∃ ret, s.compactor = .returned ret ∧ s.AsIf content offset ret

/-- A step that changes no file and returns nothing. -/
theorem LogFile.Working.move {s : LogFile} (h : s.Working content offset) {c : Compactor}
    (hc : c.At content offset s.path s.text s.flushed) : ({ s with compactor := c } : LogFile).Sound content offset :=
  .inl ⟨h.text_eq, h.offset_eq, hc⟩

theorem LogFile.Working.scan {s s' : LogFile} {opens : Bool} {io : CompactIo} (h : s.Working content offset)
    (hcontent : WholeLines content) (hoffset : offset ≤ content.length) {fd pos : Nat} {legacyFrameId : UInt32}
    {kept : List (Option UInt32)} (hc : s.compactor = .scan fd pos legacyFrameId kept)
    (hstep : s.compact opens io = some s') : s'.Sound content offset := by
  have hplace := h.place
  rw [hc] at hplace
  obtain ⟨⟨hne, rfl⟩, hkept⟩ := hplace
  have hnil := h.sentLine_eq_nil hcontent hoffset pos
  simp only [LogFile.compact, hc, hnil] at hstep
  by_cases hend : offset ≤ pos
  · rw [if_pos hend] at hstep
    cases hstep
    rw [sentLines_stop hend, keptFrames] at hkept
    by_cases htmp : io.tmpOpens = true
    · rw [if_pos htmp]
      exact h.move ⟨⟨hne, rfl⟩, rfl, hkept, by rw [hkept]; rfl⟩
    · rw [if_neg htmp]
      have hcall : compactLogFile (some content) offset 10 io = (none, -1) := by simp [compactLogFile, hne, htmp]
      exact .inr ⟨-1, rfl, compactLogFile_kept hcall (.inr rfl) h.text_eq h.offset_eq⟩
  · rw [if_neg hend, h.sentLine hcontent hoffset, if_pos (Nat.lt_of_not_le hend)] at hstep
    cases hstep
    rw [sentLines_line (Nat.lt_of_not_le hend) hoffset] at hkept
    exact h.move ⟨⟨hne, rfl⟩, hkept⟩

theorem LogFile.Working.retain {s s' : LogFile} {opens : Bool} {io : CompactIo} (h : s.Working content offset)
    (hcontent : WholeLines content) (hoffset : offset ≤ content.length) {fd pos : Nat} {legacyFrameId : UInt32}
    {kept : List (Option UInt32)} {out : List Char} {newOffset : Nat}
    (hc : s.compactor = .retain fd pos legacyFrameId kept out newOffset) (hstep : s.compact opens io = some s') :
    s'.Sound content offset := by
  have hplace := h.place
  rw [hc] at hplace
  obtain ⟨⟨hne, rfl⟩, rfl, hkept, hout⟩ := hplace
  have hnil := h.sentLine_eq_nil hcontent hoffset pos
  simp only [LogFile.compact, hc, hnil] at hstep
  by_cases hend : offset ≤ pos
  · rw [if_pos hend] at hstep
    cases hstep
    rw [sentLines_stop hend, retainedText, List.append_nil] at hout
    have hle : offset ≤ s.text.length := by
      rw [h.text_eq, List.length_append]
      omega
    refine h.move ?_
    rw [h.offset_eq]
    refine ⟨⟨hne, rfl⟩, congrArg List.length hout, hle, ?_⟩
    rw [h.text_eq, hcontent.copyText_append hoffset, hout, ← List.append_assoc]
    rfl
  · rw [if_neg hend, h.sentLine hcontent hoffset, if_pos (Nat.lt_of_not_le hend)] at hstep
    rw [sentLines_line (Nat.lt_of_not_le hend) hoffset, retainedText] at hout
    by_cases hid : frameIdIsKept kept (lineFrameId (fgets logCompactMaxLine (content.drop pos)) legacyFrameId).1 = true
    · simp only [if_pos hid] at hstep hout
      cases hstep
      refine h.move ?_
      exact ⟨⟨hne, rfl⟩, by rw [List.length_append], hkept, by rw [List.append_assoc, hout]⟩
    · simp only [if_neg hid, List.nil_append] at hstep hout
      cases hstep
      exact h.move ⟨⟨hne, rfl⟩, rfl, hkept, hout⟩

theorem LogFile.Working.copy {s s' : LogFile} {opens : Bool} {io : CompactIo} (h : s.Working content offset)
    {fd pos : Nat} {out : List Char} {newOffset : Nat} (hc : s.compactor = .copy fd pos out newOffset)
    (hstep : s.compact opens io = some s') : s'.Sound content offset := by
  have hplace := h.place
  rw [hc] at hplace
  obtain ⟨⟨hne, rfl⟩, hnew, hpos, hout⟩ := hplace
  simp only [LogFile.compact, hc, fgets_eq_nil] at hstep
  change (if s.text.drop pos = [] then _ else _) = _ at hstep
  by_cases hend : s.text.drop pos = []
  · rw [if_pos hend] at hstep
    cases hstep
    rw [copyText, hend, fgetsAll_nil, List.flatMap_nil, List.append_nil] at hout
    exact h.move ⟨⟨hne, rfl⟩, hnew, hpos, fun _ => hout⟩
  · rw [if_neg hend] at hstep
    cases hstep
    rw [copyText_line hend, ← List.append_assoc] at hout
    refine h.move ⟨⟨hne, rfl⟩, hnew, ?_, hout⟩
    have hsplit : fgets logCompactMaxLine (s.text.drop pos) ++ _ = s.text.drop pos := readLine_append_drop _ _
    have hlen := congrArg List.length hsplit
    simp only [List.length_append, List.length_drop] at hlen
    show pos + (fgets logCompactMaxLine (s.text.drop pos)).length ≤ s.text.length
    omega

theorem LogFile.Working.copied {s s' : LogFile} {opens : Bool} {io : CompactIo} (h : s.Working content offset)
    {fd pos : Nat} {out : List Char} {newOffset : Nat} (hc : s.compactor = .copied fd pos out newOffset)
    (htime : s.inTime (.compact opens io) = true) (hstep : s.compact opens io = some s') : s'.Sound content offset := by
  have hplace := h.place
  rw [hc] at hplace
  obtain ⟨⟨hne, rfl⟩, rfl, hpos, hout⟩ := hplace
  simp only [LogFile.inTime, hc, Bool.or_eq_true, Bool.not_eq_true', decide_eq_true_eq] at htime
  simp only [LogFile.compact, hc] at hstep
  by_cases hren : io.renames = true
  · rw [if_pos hren] at hstep
    cases hstep
    have hlen : s.text.length = pos := htime.resolve_left (by rw [hren]; decide)
    refine .inr ⟨0, rfl, some content, ⟨true, true⟩, .inr rfl, ?_, ?_, ?_⟩
    · simp [compactLogFile, hne]
    · simp [compactLogFile, hne, logCompactMaxKeepFrames, LogFile.text, hout hlen]
    · simp [compactLogFile, hne, logCompactMaxKeepFrames]
  · rw [if_neg hren] at hstep
    cases hstep
    have hcall : compactLogFile (some content) offset 10 ⟨true, false⟩ = (none, -1) := by simp [compactLogFile, hne]
    exact .inr ⟨-1, rfl, compactLogFile_kept hcall (.inr rfl) h.text_eq h.offset_eq⟩

theorem LogFile.Working.compact {s s' : LogFile} {opens : Bool} {io : CompactIo} (h : s.Working content offset)
    (hcontent : WholeLines content) (hoffset : offset ≤ content.length)
    (htime : s.inTime (.compact opens io) = true) (hstep : s.compact opens io = some s') : s'.Sound content offset := by
  cases hc : s.compactor with
  | called =>
    simp only [LogFile.compact, hc] at hstep
    have hmissing : compactLogFile none offset 10 io = (none, 0) := by
      unfold compactLogFile
      split <;> rfl
    have hnone : s.AsIf content offset 0 := compactLogFile_kept hmissing (.inl rfl) h.text_eq h.offset_eq
    split at hstep
    · cases hstep
      exact .inr ⟨0, rfl, hnone⟩
    rename_i hne
    split at hstep
    · cases hstep
      exact .inr ⟨0, rfl, hnone⟩
    · cases hstep
      refine h.move ?_
      exact ⟨⟨h.offset_eq ▸ hne, rfl⟩, rfl⟩
  | scan fd pos legacyFrameId kept => exact h.scan hcontent hoffset hc hstep
  | retain fd pos legacyFrameId kept out newOffset => exact h.retain hcontent hoffset hc hstep
  | copy fd pos out newOffset => exact h.copy hc hstep
  | copied fd pos out newOffset => exact h.copied hc htime hstep
  | returned ret =>
    have hplace := h.place
    rw [hc] at hplace
    cases hplace

/-! ## The steps of `write_file_thread` -/

/-- A line is flushed to the log. -/
theorem LogFile.Working.flush {s : LogFile} (h : s.Working content offset) (hcontent : WholeLines content) (r : Record)
    {files : Nat → List Char} (hfiles : files s.path = s.text ++ r.line) (writer : Writer) :
    ({ s with files, writer, flushed := s.flushed ++ [r] } : LogFile).Working content offset := by
  have hone : logText [r] = r.line := List.append_nil r.line
  have hline := List.length_pos_iff.mpr r.line_ne_nil
  have hwhole : WholeLines s.text := h.text_eq ▸ hcontent.append s.flushed
  refine ⟨?_, h.offset_eq, ?_⟩
  · show files s.path = _
    rw [hfiles, h.text_eq, logText_append, List.append_assoc, hone]
  · have hplace := h.place
    show s.compactor.At content offset s.path (files s.path) (s.flushed ++ [r])
    rw [hfiles]
    cases hc : s.compactor with
    | called => trivial
    | scan => rwa [hc] at hplace
    | retain => rwa [hc] at hplace
    | copy fd pos out newOffset =>
      rw [hc] at hplace
      obtain ⟨hfd, hnew, hpos, hout⟩ := hplace
      refine ⟨hfd, hnew, by rw [List.length_append]; omega, ?_⟩
      rw [← hone, hwhole.copyText_append hpos, ← List.append_assoc, hout, logText_append, List.append_assoc]
    | copied fd pos out newOffset =>
      rw [hc] at hplace
      obtain ⟨hfd, hnew, hpos, -⟩ := hplace
      exact ⟨hfd, hnew, by rw [List.length_append]; omega, fun hlen => by rw [List.length_append] at hlen; omega⟩
    | returned ret => rwa [hc] at hplace

theorem LogFile.AsIf.flush {s : LogFile} {ret : Int} (h : s.AsIf content offset ret) (r : Record)
    {files : Nat → List Char} (hfiles : files s.path = s.text ++ r.line) (writer : Writer) :
    ({ s with files, writer, flushed := s.flushed ++ [r] } : LogFile).AsIf content offset ret := by
  obtain ⟨file, io, hfile, hret, htext, hoff⟩ := h
  refine ⟨file, io, hfile, hret, ?_, hoff⟩
  show files s.path = _
  rw [hfiles, htext, logText_append, List.append_assoc, show logText [r] = r.line from List.append_nil r.line]

/-- A step moves `write_file_thread` only, flushes a line, or is one of
`compact_log_file`. -/
theorem LogFile.step_cases {s s' : LogFile} {a : FileAction} {e : Unit} (h : s.step a = some (s', e)) :
    (∃ writer, s' = { s with writer }) ∨
      (∃ fd r, a = .fflush ∧ s.writer = .opened fd r ∧
        s' = { s with
          files := fun i => if i = fd then s.files fd ++ r.line else s.files i
          writer := .flushed
          flushed := s.flushed ++ [r] }) ∨
      ∃ opens io, a = .compact opens io ∧ s.compact opens io = some s' := by
  cases a with
  | fopen _ | fputsFails | fclose =>
    simp only [LogFile.step] at h
    split at h
    · cases h
      exact .inl ⟨_, rfl⟩
    · cases h
  | fflush =>
    simp only [LogFile.step] at h
    split at h
    · rename_i fd r hw
      cases h
      exact .inr (.inl ⟨fd, r, rfl, hw, rfl⟩)
    · cases h
  | compact opens io =>
    obtain ⟨s₁, hcompact, heq⟩ := Option.map_eq_some_iff.mp h
    cases heq
    exact .inr (.inr ⟨opens, io, rfl, hcompact⟩)

/-- A step of either thread. -/
theorem LogFile.Sound.step {s s' : LogFile} {a : FileAction} {e : Unit} (h : s.Sound content offset)
    (hcontent : WholeLines content) (hoffset : offset ≤ content.length) (htime : s.inTime a = true)
    (hstep : s.step a = some (s', e)) : s'.Sound content offset := by
  rcases LogFile.step_cases hstep with ⟨writer, rfl⟩ | ⟨fd, r, rfl, hw, rfl⟩ | ⟨opens, io, rfl, hcompact⟩
  · exact h.imp (fun h => ⟨h.text_eq, h.offset_eq, h.place⟩) id
  · simp only [LogFile.inTime, hw, decide_eq_true_eq] at htime
    have hfiles : (fun i => if i = fd then s.files fd ++ r.line else s.files i) s.path = s.text ++ r.line := by
      subst htime
      exact if_pos rfl
    rcases h with h | ⟨ret, hret, h⟩
    · exact .inl (h.flush hcontent r hfiles _)
    · exact .inr ⟨ret, hret, h.flush r hfiles _⟩
  · rcases h with h | ⟨ret, hret, -⟩
    · exact h.compact hcontent hoffset htime hcompact
    · rw [LogFile.compact, hret] at hcompact
      cases hcompact

/-- However the steps of the threads follow each other: when `compact_log_file` has
returned, the log is what `compact_log_file` makes of it before any line is
flushed, followed by all the lines flushed, in their order and each once; if none
is flushed to a file that has been replaced, and no file is replaced that has
grown behind the end of the copy. -/
theorem compact_interleaved (hcontent : WholeLines content) (hoffset : offset ≤ content.length) {s : LogFile}
    (hrun : Runs LogFile.step (fun s a => s.inTime a = true) (LogFile.start content offset) s) {ret : Int}
    (hret : s.compactor = .returned ret) :
    ∃ file io, (file = none ∨ file = some content) ∧ ret = (compactLogFile file offset 10 io).2 ∧
      s.text = ((compactLogFile file offset 10 io).1.map (·.1)).getD content ++ logText s.flushed ∧
      s.offset = ((compactLogFile file offset 10 io).1.map (·.2)).getD offset := by
  have hsound : s.Sound content offset := by
    refine hrun.invariant (I := LogFile.Sound content offset) (.inl ⟨?_, rfl, ?_⟩) ?_
    · exact (List.append_nil content).symm
    · exact trivial
    · exact fun s a s' e h htime hstep => h.step hcontent hoffset htime hstep
  rcases hsound with h | ⟨ret', hret', h⟩
  · have hplace := h.place
    rw [hret] at hplace
    cases hplace
  · rw [hret] at hret'
    cases hret'
    exact h

/-- What `compact_log_file` has returned. -/
def Compactor.ret? : Compactor → Option Int
  | .returned ret => some ret
  | _ => none

theorem Compactor.ret?_eq_some {c : Compactor} {ret : Int} : c.ret? = some ret ↔ c = .returned ret := by
  cases c <;> simp [Compactor.ret?]

/-- The next step of `compact_log_file`, when every call succeeds. -/
def FileAction.compacts : FileAction := .compact true ⟨true, true⟩

/-- A log with one line, which has been sent, is compacted; another line is appended
when the copy has come to the end of the file. -/
def lateRun : List FileAction :=
  List.replicate 6 .compacts ++
    [.fopen (short 1), .fflush, .fclose, .compacts]

/-- That line is not in the log after the `rename`. -/
theorem compact_interleaved_late :
    ∃ s, Runs LogFile.step (fun _ _ => True) (LogFile.start (short 0).line 39) s ∧
      s.compactor = .returned 0 ∧ logText s.flushed = (short 1).line ∧
      ¬(short 1).line <:+: s.text := by
  have h : (runList LogFile.step (fun _ _ => true) (LogFile.start (short 0).line 39)
      lateRun).map (fun s => (s.compactor.ret?, logText s.flushed, s.text)) =
      some (some 0, (short 1).line, (short 0).line) := by
    decide +kernel
  obtain ⟨s, hs, heq⟩ := Option.map_eq_some_iff.mp h
  simp only [Prod.mk.injEq] at heq
  obtain ⟨hret, hflushed, htext⟩ := heq
  have hreturned := Compactor.ret?_eq_some.mp hret
  refine ⟨s, .of_runList (fun _ _ _ => trivial) .start hs, hreturned, hflushed, fun hinfix => ?_⟩
  have heq := hinfix.eq_of_length (by rw [htext, length_line_short (by decide), length_line_short (by decide)])
  rw [htext] at heq
  exact absurd heq (by decide +kernel)

/-- A line appended before the copy has come to the end is. -/
theorem compact_interleaved_two :
    ∃ s : LogFile, s.compactor = .returned 0 ∧ logText s.flushed = (short 1).line ∧
      (short 1).line <:+ s.text := by
  have h : (runList LogFile.step LogFile.inTime (LogFile.start (short 0).line 39)
      ([.compacts, .fopen (short 1), .fflush, .fclose] ++ List.replicate 7 .compacts)).map
      (fun s => (s.compactor.ret?, logText s.flushed)) =
      some (some 0, (short 1).line) := by
    decide +kernel
  obtain ⟨s, hs, heq⟩ := Option.map_eq_some_iff.mp h
  obtain ⟨hret, hflushed⟩ := Prod.mk.inj heq
  have hreturned := Compactor.ret?_eq_some.mp hret
  have hlen : (short 0).line.length = 39 := length_line_short (by decide)
  have hcontent : WholeLines (short 0).line := .inr (Record.getLast?_line _)
  have hrun : Runs LogFile.step (fun s a => s.inTime a = true)
      (LogFile.start (short 0).line 39) s := .of_runList (fun _ _ h => h) .start hs
  obtain ⟨file, io, -, -, htext, -⟩ := compact_interleaved hcontent (Nat.le_of_eq hlen.symm) hrun hreturned
  refine ⟨s, hreturned, hflushed, ?_⟩
  rw [htext, hflushed]
  exact List.suffix_append _ _

end Dtu
