import Dtu.Framework.Runs
import Dtu.Impl.TrimLog
import Dtu.Proof.Compact
import Dtu.Proof.Limits
import Dtu.Proof.LogLine

/-!
# The log of BeiDou data

The log is the end of all that was written to it, at least the last mebibyte, and stays bounded by
`LOG_MAX_SIZE` and the lines between two calls of `trim_log_file_by_size` that succeed
(`bd_log_bounded`): a restart puts the next call off.
-/

namespace Dtu

/-- The loop copies all that is left. -/
theorem trimCopy_eq (rest : List Char) : trimCopy rest = rest := by
  induction rest using trimCopy.induct with
  | case1 rest n hlt =>
    rw [trimCopy, if_pos hlt]
    exact List.take_of_length_le (by omega)
  | case2 rest n hlt ih =>
    rw [trimCopy, if_neg hlt, ih]
    exact List.take_append_drop _ _

/-- What `trim_log_file_by_size` leaves of a log. -/
theorem trimLogFileBySize_eq (content : List Char) {io : TrimIo} (hstored : ∀ k, io.stored k = true) :
    trimLogFileBySize (some content) io = some
      (if io.succeeds = true ∧ logMaxSize ≤ content.length then content.drop (content.length - logKeepTailSize)
        else content) := by
  have hcopy : storedText io.stored 0 (trimCopy (content.drop (content.length - logKeepTailSize))) =
      content.drop (content.length - logKeepTailSize) := by
    rw [trimCopy_eq]
    exact storedText_eq_iff.mpr fun i _ => hstored (0 + i)
  by_cases hlt : content.length < logMaxSize
  · rw [if_neg fun h => Nat.not_lt.mpr (And.right h) hlt]
    simp only [trimLogFileBySize, if_pos hlt, ite_self]
  · obtain ⟨opens, seeks, tmpOpens, renames, stored⟩ := io
    cases opens <;> cases seeks <;> cases tmpOpens <;> cases renames <;>
      simp [trimLogFileBySize, TrimIo.succeeds, hlt, hcopy, Nat.le_of_not_lt hlt]

namespace BdLog

/-- All that was in the log at first or was written to it. -/
def total (initial : Option (List Char)) (s : BdLog) : List Char := initial.getD [] ++ logText s.written

/-- What holds in every state. -/
structure Bounded (initial : Option (List Char)) (s : BdLog) : Prop where
  suffix : s.file.getD [] <:+ total initial s
  keep : min (total initial s).length logKeepTailSize ≤ (s.file.getD []).length
  count : s.bdLogTrimCount < 100
  length_lt : (s.file.getD []).length < logMaxSize + 824 * (s.bdLogTrimCount + 99 * s.restarts + 100 * s.failures)

variable {initial : Option (List Char)} {s s' : BdLog}

theorem total_append (initial : Option (List Char)) (s : BdLog) (r : Record) :
    initial.getD [] ++ logText (s.written ++ [r]) = total initial s ++ r.line := by
  rw [total, logText, logText, List.flatMap_append, List.flatMap_singleton, List.append_assoc]

/-- A line is written. -/
theorem Bounded.append (h : s.Bounded initial) (r : Record) {file : List Char} (hfile : file = s.file.getD [] ++ r.line) :
    file <:+ total initial s ++ r.line ∧ min (total initial s ++ r.line).length logKeepTailSize ≤ file.length ∧
      file.length < logMaxSize + 824 * (s.bdLogTrimCount + 1 + 99 * s.restarts + 100 * s.failures) := by
  have hline : r.line.length ≤ 824 := length_logLine_le r.tm r.msg r.len_le
  have hkeep := h.keep
  have hlength := h.length_lt
  subst hfile
  refine ⟨?_, ?_, ?_⟩
  · obtain ⟨pre, hpre⟩ := h.suffix
    exact ⟨pre, by rw [← hpre, List.append_assoc]⟩
  · rw [List.length_append, List.length_append]
    omega
  · rw [List.length_append]
    omega

theorem Bounded.step (h : s.Bounded initial) {a : BdLogAction} {e : Unit} (hs : s.step a = some (s', e))
    (hok : s.Stored a) : s'.Bounded initial := by
  have hcount := h.count
  have hmax : logMaxSize = 5242880 ∧ logKeepTailSize = 1048576 := ⟨rfl, rfl⟩
  cases a with
  | restart =>
    cases hs
    refine ⟨h.suffix, h.keep, Nat.zero_lt_succ _, Nat.lt_of_lt_of_le h.length_lt ?_⟩
    show _ ≤ logMaxSize + 824 * (0 + 99 * (s.restarts + 1) + 100 * s.failures)
    omega
  | write r io =>
    obtain ⟨hsuffix, hkeep, hlength⟩ := h.append r rfl
    rw [BdLog.step] at hs
    simp only [trimLogFileBySize_eq _ hok] at hs
    split at hs
    · rename_i hhundred
      cases hs
      refine ⟨?_, ?_, Nat.zero_lt_succ _, ?_⟩
      · rw [total, total_append, Option.getD_some]
        split
        · exact (List.drop_suffix _ _).trans hsuffix
        · exact hsuffix
      · rw [total, total_append, Option.getD_some]
        split
        · rw [List.length_drop]
          omega
        · exact hkeep
      · show List.length (Option.getD (some _) []) < logMaxSize + 824 *
          (0 + 99 * s.restarts + 100 * if io.succeeds = true then s.failures else s.failures + 1)
        rw [Option.getD_some]
        by_cases hsucceeds : io.succeeds = true
        · rw [if_pos hsucceeds]
          split
          · rw [List.length_drop]
            omega
          · rename_i hshort
            have hlt := Nat.lt_of_not_le fun hle => hshort ⟨hsucceeds, hle⟩
            omega
        · rw [if_neg hsucceeds, if_neg fun hboth => hsucceeds hboth.1]
          omega
    · rename_i hhundred
      cases hs
      refine ⟨?_, ?_, Nat.lt_of_not_le hhundred, hlength⟩
      · rw [total, total_append]
        exact hsuffix
      · rw [total, total_append]
        exact hkeep

end BdLog

end Dtu
