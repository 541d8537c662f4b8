import Dtu.Impl.Compact

/-!
# What compaction writes

Text is copied but for what is behind a NUL in a line (`compactText_eq`), and
`compact_log_file` gets to rename it when `compactLogFile_eq_some` says.
-/

namespace Dtu

open Stdio

/-- Text without NUL is copied. -/
theorem flatMap_cstr_fgetsAll {s : List Char} (h : '\x00' ∉ s) : (fgetsAll logCompactMaxLine s).flatMap cstr = s := by
  have hflat : (fgetsAll logCompactMaxLine s).flatten = s := fgetsAll_flatten (by decide) s
  have hcstr : ∀ line ∈ fgetsAll logCompactMaxLine s, cstr line = line := fun line hline =>
    cstr_of_not_mem fun hmem => h (hflat ▸ List.mem_flatten.mpr ⟨line, hline, hmem⟩)
  rw [List.flatMap_def, List.map_congr_left hcstr, List.map_id', hflat]

theorem nul_not_mem_cstr (s : List Char) : '\x00' ∉ cstr s := fun h => by
  have := List.mem_takeWhile_imp h
  simp at this

theorem nul_not_mem_retainedText (kept : List (Option UInt32)) (lines : List (List Char)) (legacyFrameId : UInt32) :
    '\x00' ∉ retainedText kept lines legacyFrameId := by
  induction lines generalizing legacyFrameId with
  | nil => simp [retainedText]
  | cons line lines ih =>
    simp only [retainedText, List.mem_append, not_or]
    refine ⟨?_, ih _⟩
    split
    · exact nul_not_mem_cstr line
    · simp

theorem nul_not_mem_compactText (content : List Char) (sentEnd keepFrames : Nat) :
    '\x00' ∉ compactText content sentEnd keepFrames := by
  simp only [compactText, List.mem_append, List.mem_flatMap, not_or, not_exists, not_and]
  exact ⟨nul_not_mem_retainedText _ _ _, fun line _ => nul_not_mem_cstr line⟩

theorem compactText_eq {content : List Char} {sentEnd : Nat} (h : '\x00' ∉ content.drop sentEnd) (keepFrames : Nat) :
    compactText content sentEnd keepFrames = retained content sentEnd keepFrames ++ content.drop sentEnd := by
  rw [compactText, flatMap_cstr_fgetsAll h]

/-- `compact_log_file` gets to rename what it writes over a log. -/
def GetsToRename (file : Option (List Char)) (offset : Nat) (keepFrames : Int) (io : CompactIo) : Prop :=
  file ≠ none ∧ offset ≠ 0 ∧ 0 < keepFrames ∧ io.tmpOpens = true ∧ io.renames = true

theorem compactLogFile_renames {file : Option (List Char)} {offset : Nat} {keepFrames : Int} {io : CompactIo}
    (h : GetsToRename file offset keepFrames io) :
    let keep := min keepFrames.toNat logCompactMaxKeepFrames
    compactLogFile file offset keepFrames io =
      (some (compactText (file.getD []) offset keep, (retained (file.getD []) offset keep).length), 0) := by
  obtain ⟨hfile, hoffset, hkeep, htmp, hrenames⟩ := h
  obtain ⟨content, rfl⟩ := Option.ne_none_iff_exists'.mp hfile
  have hargs : ¬(offset = 0 ∨ keepFrames ≤ 0) := fun h => h.elim hoffset (Int.not_le.mpr hkeep)
  simp [compactLogFile, hargs, htmp, hrenames]

theorem compactLogFile_keeps {file : Option (List Char)} {offset : Nat} {keepFrames : Int} {io : CompactIo}
    (h : ¬GetsToRename file offset keepFrames io) : (compactLogFile file offset keepFrames io).1 = none := by
  unfold compactLogFile
  by_cases hargs : offset = 0 ∨ keepFrames ≤ 0
  · rw [if_pos hargs]
  rw [if_neg hargs]
  rw [not_or, Int.not_le] at hargs
  cases file with
  | none => rfl
  | some content =>
    by_cases htmp : io.tmpOpens = true
    · by_cases hrenames : io.renames = true
      · exact absurd ⟨Option.some_ne_none content, hargs.1, hargs.2, htmp, hrenames⟩ h
      · simp [htmp, hrenames]
    · simp [htmp]

/-- When `compact_log_file` gets to rename what it writes over a log, what that is
and the offset it leaves. -/
theorem compactLogFile_eq_some {file : Option (List Char)} {offset : Nat} {io : CompactIo} {r : List Char × Nat} :
    (compactLogFile file offset 10 io).1 = some r ↔
      (file ≠ none ∧ offset ≠ 0 ∧ io.tmpOpens = true ∧ io.renames = true) ∧
        r = (compactText (file.getD []) offset 10, (retained (file.getD []) offset 10).length) := by
  by_cases h : GetsToRename file offset 10 io
  · rw [compactLogFile_renames h]
    obtain ⟨hfile, hoffset, -, htmp, hrenames⟩ := h
    rw [Option.some.injEq, eq_comm]
    exact ⟨fun hr => ⟨⟨hfile, hoffset, htmp, hrenames⟩, hr⟩, fun hr => hr.2⟩
  · rw [compactLogFile_keeps h]
    refine ⟨nofun, fun hr => ?_⟩
    obtain ⟨⟨hfile, hoffset, htmp, hrenames⟩, -⟩ := hr
    exact absurd ⟨hfile, hoffset, by decide, htmp, hrenames⟩ h

/-! ## Writes that fail -/

theorem storedText_sublist (stored : Nat → Bool) (k : Nat) (text : List Char) :
    (storedText stored k text).Sublist text := by
  induction text generalizing k with
  | nil => exact .slnil
  | cons c text ih =>
    rw [storedText]
    split
    · exact (ih (k + 1)).cons_cons c
    · exact (ih (k + 1)).cons c

/-- Text is whole just when each of its characters is stored. -/
theorem storedText_eq_iff {stored : Nat → Bool} {k : Nat} {text : List Char} :
    storedText stored k text = text ↔ ∀ i < text.length, stored (k + i) = true := by
  induction text generalizing k with
  | nil => simp [storedText]
  | cons c text ih =>
    have hnot : storedText stored (k + 1) text ≠ c :: text := fun h => by
      have hlen := (storedText_sublist stored (k + 1) text).length_le
      rw [h, List.length_cons] at hlen
      omega
    rw [storedText]
    constructor
    · intro h i hi
      by_cases hc : stored k = true
      · rw [if_pos hc, List.cons.injEq] at h
        cases i with
        | zero => exact hc
        | succ i =>
          rw [show k + (i + 1) = k + 1 + i by omega]
          exact ih.mp h.2 i (by simpa using hi)
      · rw [if_neg hc] at h
        exact absurd h hnot
    · intro h
      have hc : stored k = true := h 0 (Nat.zero_lt_succ _)
      rw [if_pos hc, ih.mpr]
      intro i hi
      rw [show k + 1 + i = k + (i + 1) by omega]
      exact h (i + 1) (Nat.succ_lt_succ hi)

theorem length_cstr_le (line : List Char) : (cstr line).length ≤ line.length := (List.takeWhile_sublist _).length_le

theorem length_retainedText_le (kept : List (Option UInt32)) (lines : List (List Char)) (legacyFrameId : UInt32) :
    (retainedText kept lines legacyFrameId).length ≤ lines.flatten.length := by
  induction lines generalizing legacyFrameId with
  | nil => exact Nat.le_refl _
  | cons line lines ih =>
    rw [retainedText, List.length_append, List.flatten_cons, List.length_append]
    refine Nat.add_le_add ?_ (ih _)
    split
    · exact length_cstr_le line
    · exact Nat.zero_le _

theorem sentLines_front (sentEnd pos : Nat) (lines : List (List Char)) : sentLines sentEnd pos lines <+: lines := by
  induction lines generalizing pos with
  | nil => exact List.prefix_rfl
  | cons line lines ih =>
    rw [sentLines]
    split
    · exact List.cons_prefix_cons.mpr ⟨rfl, ih _⟩
    · exact List.nil_prefix

theorem length_retained_le (content : List Char) (sentEnd keepFrames : Nat) :
    (retained content sentEnd keepFrames).length ≤ content.length := by
  have hflat : (fgetsAll logCompactMaxLine content).flatten = content := fgetsAll_flatten (by decide) content
  refine Nat.le_trans (length_retainedText_le _ _ _) ?_
  nth_rewrite 2 [← hflat]
  exact (sentLines_front _ _ _).sublist.flatten.length_le

theorem length_compactText_le (content : List Char) (sentEnd keepFrames : Nat) :
    (compactText content sentEnd keepFrames).length ≤
      (retained content sentEnd keepFrames).length + (content.drop sentEnd).length := by
  have hflat : (fgetsAll logCompactMaxLine (content.drop sentEnd)).flatten = content.drop sentEnd :=
    fgetsAll_flatten (by decide) _
  have hcopy : ∀ lines : List (List Char), (lines.flatMap cstr).length ≤ lines.flatten.length := fun lines => by
    induction lines with
    | nil => exact Nat.le_refl _
    | cons line lines ih =>
      rw [List.flatMap_cons, List.length_append, List.flatten_cons, List.length_append]
      exact Nat.add_le_add (length_cstr_le line) ih
  rw [compactText, List.length_append]
  refine Nat.add_le_add_left ?_ _
  nth_rewrite 2 [← hflat]
  exact hcopy _

/-- After a call the log and the offset are as they were, or the log holds all that is
retained and all that has not been sent, with the offset between them. -/
def CompactAtomic (file : Option (List Char)) (offset : Nat) (keepFrames : Int) (io : CompactIo)
    (stored : Nat → Bool) : Prop :=
  let keep := min keepFrames.toNat logCompactMaxKeepFrames
  let content := file.getD []
  let after := afterCompact file offset (compactLogFileStored file offset keepFrames io stored).1
  after = (file, offset) ∨
    after = (some (retained content offset keep ++ content.drop offset), (retained content offset keep).length)

/-- A call is atomic just when it does not get to rename the temporary file, or each
character of that is stored; but for text with NUL, which it does not copy. -/
theorem compactLogFileStored_atomic_iff (file : Option (List Char)) (offset : Nat) (keepFrames : Int) (io : CompactIo)
    (stored : Nat → Bool) :
    CompactAtomic file offset keepFrames io stored ↔
      ¬GetsToRename file offset keepFrames io ∨ '\x00' ∉ (file.getD []).drop offset ∧
        ∀ k < (compactText (file.getD []) offset (min keepFrames.toNat logCompactMaxKeepFrames)).length,
          stored k = true := by
  by_cases h : GetsToRename file offset keepFrames io
  · have hcall := compactLogFile_renames h
    obtain ⟨content, rfl⟩ := Option.ne_none_iff_exists'.mp h.1
    generalize hkeep : min keepFrames.toNat logCompactMaxKeepFrames = keep at hcall
    have hwhole := @storedText_eq_iff stored 0 (compactText content offset keep)
    simp only [Nat.zero_add] at hwhole
    simp only [CompactAtomic, compactLogFileStored, hcall, hkeep, afterCompact, Option.map_some, Option.getD_some,
      Prod.mk.injEq, Option.some.injEq, h, not_true_eq_false, false_or, ← hwhole]
    have hsub := storedText_sublist stored 0 (compactText content offset keep)
    have hnul : '\x00' ∉ storedText stored 0 (compactText content offset keep) := fun hmem =>
      nul_not_mem_compactText content offset keep (hsub.subset hmem)
    constructor
    · rintro (⟨htext, hlen⟩ | ⟨htext, -⟩)
      · -- A log that is as before with its offset is as long as what is written.
        rw [htext] at hnul
        refine ⟨fun hmem => hnul (List.mem_of_mem_drop hmem), hsub.eq_of_length_le ?_⟩
        have hle := length_compactText_le content offset keep
        have hretained := length_retained_le content offset keep
        rw [List.length_drop] at hle
        rw [htext]
        omega
      · rw [htext] at hnul
        have htail : '\x00' ∉ content.drop offset := fun hmem => hnul (List.mem_append_right _ hmem)
        exact ⟨htail, htext.trans (compactText_eq htail keep).symm⟩
    · rintro ⟨htail, hstored⟩
      exact .inr ⟨hstored.trans (compactText_eq htail keep), trivial⟩
  · have hcall := compactLogFile_keeps h
    simp [CompactAtomic, compactLogFileStored, hcall, afterCompact, h]

/-- A full disk: nothing that is written is stored, and the log is empty. -/
theorem compactLogFileStored_full :
    ¬∀ file offset keepFrames io stored, CompactAtomic file offset keepFrames io stored := by
  intro h
  have hfull := (compactLogFileStored_atomic_iff _ _ _ _ _).mp
    (h (some ['a', '\n', 'b', '\n']) 2 10 ⟨true, true⟩ fun _ => false)
  rcases hfull with hnot | ⟨-, hstored⟩
  · exact hnot ⟨Option.some_ne_none _, by decide, by decide, rfl, rfl⟩
  · exact absurd (hstored 0 (by decide +kernel)) Bool.false_ne_true

end Dtu
