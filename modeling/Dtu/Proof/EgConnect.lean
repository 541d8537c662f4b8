import Dtu.Impl.Eg800k

/-!
# The answer to a connection

`eg_connect` cuts each read at the ends of lines by itself, so it goes by the first part of
a line in a read that reports on the connection (`egConnect_eq`). This is the first such line
of the stream if that line is all in one read, and no part of a line before it looks like
a report (`CutsSpare`); then `eg_connect` goes by what the line says, if it has an error
code (`egConnect_iff`). It may be a part of it otherwise, without the code or with a part of it.
-/

namespace Dtu

open Stdio Lines

/-- A line that decides: the module reports an error, or on the connection. -/
def Decides (line : List Char) : Prop := line = "ERROR".toList ∨ "+QIOPEN:".toList <+: line

instance (line : List Char) : Decidable (Decides line) := inferInstanceAs (Decidable (_ ∨ _))

/-- The complete lines of a stream. -/
def egLines (stream : List Char) : List (List Char) := (linesOf isEol stream).1.filter fun line => line ≠ []

/-- The first complete line that decides has the error code 0. -/
def Opens (stream : List Char) : Prop :=
  ∃ line ∈ (egLines stream).find? fun line => Decides line, "+QIOPEN:".toList <+: line ∧ scanQiopen line = some 0

instance (stream : List Char) : Decidable (Opens stream) := by
  unfold Opens
  infer_instance

/-- The first line that decides is all in one read, and no part of a line before it
decides; without such a line no part of what is behind the last line does. -/
def CutsSpare (rest : List (List Char)) : List (List (List Char)) → Prop
  | [] => ∀ part ∈ rest, ¬Decides part
  | line :: lines =>
    if Decides line.flatten then line.length = 1 else (∀ part ∈ line, ¬Decides part) ∧ CutsSpare rest lines

/-- So it is for these reads. -/
def ReadsSpare (reads : List (List Char)) : Prop :=
  CutsSpare (linesOfParts isEol reads).2 (linesOfParts isEol reads).1

instance decidableCutsSpare (rest : List (List Char)) (lines : List (List (List Char))) :
    Decidable (CutsSpare rest lines) := by
  induction lines with
  | nil => exact inferInstanceAs (Decidable (∀ part ∈ rest, ¬Decides part))
  | cons line lines ih =>
    unfold CutsSpare
    split <;> infer_instance

instance (reads : List (List Char)) : Decidable (ReadsSpare reads) := decidableCutsSpare _ _

/-- The first line that decides is `ERROR` or has an error code. -/
def Coded (stream : List Char) : Prop :=
  ∀ line ∈ (egLines stream).find? fun line => Decides line, "+QIOPEN:".toList <+: line → scanQiopen line ≠ none

/-- What `eg_connect` reads. -/
def egReads (polls : List (Option (List Char))) : List (List Char) := (polls.take 60).reduceOption

/-! ## Pieces -/

theorem egConnectLine_eq_none_iff {stale : Int32} {line : List Char} :
    egConnectLine stale line = none ↔ ¬Decides line := by
  rw [egConnectLine, Decides, ← List.isPrefixOf_iff_prefix]
  by_cases hopen : "+QIOPEN:".toList.isPrefixOf line = true
  · rw [if_pos hopen]
    refine iff_of_false ?_ (not_not_intro (Or.inr hopen))
    dsimp only
    split
    · exact Option.some_ne_none _
    · exact Option.some_ne_none _
  · rw [if_neg hopen]
    by_cases herror : line = "ERROR".toList
    · rw [if_pos herror]
      exact iff_of_false (Option.some_ne_none _) (not_not_intro (Or.inl herror))
    · rw [if_neg herror]
      exact iff_of_true rfl (not_or.mpr ⟨herror, hopen⟩)

theorem egConnectLine_eq_zero_iff {stale : Int32} {line : List Char} :
    egConnectLine stale line = some 0 ↔ "+QIOPEN:".toList <+: line ∧ (scanQiopen line).getD stale = 0 := by
  have hfailed : ¬some (-1 : Int) = some 0 := by decide
  rw [egConnectLine, ← List.isPrefixOf_iff_prefix]
  by_cases hopen : "+QIOPEN:".toList.isPrefixOf line = true
  · rw [if_pos hopen]
    by_cases herr : (scanQiopen line).getD stale = 0
    · exact iff_of_true (if_pos herr) ⟨hopen, herr⟩
    · refine iff_of_false ?_ fun h => herr h.2
      rw [if_neg herr]
      exact hfailed
  · rw [if_neg hopen]
    refine iff_of_false ?_ fun h => hopen h.1
    split
    · exact hfailed
    · exact (Option.some_ne_none 0).symm

theorem findSome_egConnectLine (stale : Int32) (pieces : List (List Char)) :
    pieces.findSome? (egConnectLine stale) = (pieces.find? fun piece => Decides piece).bind (egConnectLine stale) := by
  induction pieces with
  | nil => rfl
  | cons piece pieces ih =>
    rw [List.findSome?_cons, List.find?_cons]
    by_cases hdecides : Decides piece
    · rw [decide_eq_true hdecides]
      have hsome : egConnectLine stale piece ≠ none := fun hnone => egConnectLine_eq_none_iff.mp hnone hdecides
      obtain ⟨ret, hret⟩ := Option.ne_none_iff_exists'.mp hsome
      rw [hret]
      exact hret.symm
    · rw [decide_eq_false hdecides, egConnectLine_eq_none_iff.mpr hdecides]
      exact ih

/-- The loop takes the pieces of all reads one after another. -/
theorem egConnectPolls_eq (stale : Int32) (polls : List (Option (List Char))) :
    egConnectPolls stale polls = ((polls.reduceOption.flatMap strtokEol).findSome? (egConnectLine stale)).getD (-1) := by
  induction polls with
  | nil => rfl
  | cons poll polls ih =>
    cases poll with
    | none => exact ih
    | some buf =>
      rw [egConnectPolls, List.reduceOption_cons_of_some, List.flatMap_cons, List.findSome?_append]
      cases (strtokEol buf).findSome? (egConnectLine stale) with
      | none => exact ih
      | some ret => rfl

theorem egConnect_eq (stale : Int32) (polls : List (Option (List Char))) :
    egConnect stale polls =
      ((((egReads polls).flatMap strtokEol).find? fun part => Decides part).bind (egConnectLine stale)).getD (-1) := by
  rw [egConnect, egConnectPolls_eq, findSome_egConnectLine, egReads]

/-! ## Lines and parts -/

theorem not_decides_nil : ¬Decides [] := by decide

theorem filter_ne_nil (ls : List (List Char)) : (ls.filter fun line => line ≠ []) = ls.flatMap part := by
  induction ls with
  | nil => rfl
  | cons line ls ih =>
    cases line with
    | nil => exact ih
    | cons c line => exact congrArg _ ih

/-- The parts of all lines are what the loop takes. -/
theorem flatMap_strtokEol {reads : List (List Char)} (hnul : ∀ read ∈ reads, '\x00' ∉ read) :
    reads.flatMap strtokEol = (linesOfParts isEol reads).1.flatten ++ (linesOfParts isEol reads).2 := by
  rw [flatMap_linesOfParts]
  refine List.flatMap_congr fun read hread => ?_
  rw [strtokEol, cstr_of_not_mem (hnul read hread)]
  exact filter_ne_nil _

theorem find_egLines (reads : List (List Char)) :
    (egLines reads.flatten).find? (fun line => Decides line) =
      ((linesOfParts isEol reads).1.map List.flatten).find? fun line => Decides line := by
  rw [egLines, ← flatten_linesOfParts, List.find?_filter]
  congr 1
  funext line
  by_cases hline : line = []
  · rw [hline]
    decide
  · simp [hline]

/-- The first part that decides is the first line. -/
theorem find_flatten {rest : List (List Char)} {lines : List (List (List Char))} (h : CutsSpare rest lines) :
    (lines.flatten ++ rest).find? (fun part => Decides part) =
      (lines.map List.flatten).find? fun line => Decides line := by
  induction lines with
  | nil => exact List.find?_eq_none.mpr fun part hpart => by simpa using h part hpart
  | cons line lines ih =>
    rw [CutsSpare] at h
    rw [List.flatten_cons, List.map_cons, List.find?_cons, List.append_assoc, List.find?_append]
    by_cases hline : Decides line.flatten
    · rw [if_pos hline] at h
      obtain ⟨text, rfl⟩ := List.length_eq_one_iff.mp h
      rw [List.flatten_singleton] at hline ⊢
      rw [List.find?_cons, decide_eq_true hline]
      rfl
    · rw [if_neg hline] at h
      have hnone : line.find? (fun part => Decides part) = none :=
        List.find?_eq_none.mpr fun part hpart => by simpa using h.1 part hpart
      rw [hnone, decide_eq_false hline, Option.none_or]
      exact ih h.2

/-- Lines in one part each. -/
theorem CutsSpare.append_parts {rest : List (List Char)} {lines : List (List (List Char))} (h : CutsSpare rest lines)
    (ls : List (List Char)) : CutsSpare rest (ls.map part ++ lines) := by
  induction ls with
  | nil => exact h
  | cons line ls ih =>
    rw [List.map_cons, List.cons_append, CutsSpare, flatten_part]
    cases line with
    | nil => exact (if_neg not_decides_nil).mpr ⟨fun _ hpart => (nomatch hpart), ih⟩
    | cons c line =>
      by_cases hline : Decides (c :: line)
      · rw [if_pos hline]
        rfl
      · rw [if_neg hline]
        exact ⟨fun p hp => List.mem_singleton.mp hp ▸ hline, ih⟩

/-- Reads of whole lines. -/
theorem readsSpare_of_whole {reads : List (List Char)} (h : ∀ read ∈ reads, (linesOf isEol read).2 = []) :
    ReadsSpare reads := by
  have hrest : (linesOfParts isEol reads).2 = [] ∧ ReadsSpare reads := by
    induction reads with
    | nil => exact ⟨rfl, fun _ hpart => nomatch hpart⟩
    | cons read reads ih =>
      obtain ⟨hnil, hspare⟩ := ih fun r hr => h r (List.mem_cons_of_mem read hr)
      rw [ReadsSpare, hnil] at hspare
      rw [ReadsSpare, linesOfParts, h read List.mem_cons_self]
      refine ⟨hnil, ?_⟩
      show CutsSpare (linesOfParts isEol reads).2 _
      rw [hnil]
      exact hspare.append_parts _
  exact hrest.2

/-- An error code that is not read is the one before. -/
theorem code_iff (isOpen : Prop) (stale : Int32) (code : Option Int32) :
    (isOpen ∧ code.getD stale = 0 ↔ isOpen ∧ code = some 0) ↔ (stale = 0 → isOpen → code ≠ none) := by
  by_cases hopen : isOpen
  · cases code with
    | none => simp [hopen]
    | some err => simp
  · simp [hopen]

/-- Where the cuts spare what decides `eg_connect` returns 0 as the first line of the stream
that decides says, if and only if that line has an error code or what `err` holds before is
not 0. -/
theorem egConnect_iff (stale : Int32) {polls : List (Option (List Char))}
    (hnul : ∀ read ∈ egReads polls, '\x00' ∉ read) (hspare : ReadsSpare (egReads polls)) :
    (egConnect stale polls = 0 ↔ Opens (egReads polls).flatten) ↔ (stale = 0 → Coded (egReads polls).flatten) := by
  rw [egConnect_eq, flatMap_strtokEol hnul, find_flatten hspare, ← find_egLines, Opens, Coded]
  cases hfind : (egLines (egReads polls).flatten).find? fun line => Decides line with
  | none => simp
  | some line =>
    have hdecides : Decides line := by simpa using List.find?_some hfind
    have hsome : egConnectLine stale line ≠ none := fun hnone => egConnectLine_eq_none_iff.mp hnone hdecides
    obtain ⟨ret, hret⟩ := Option.ne_none_iff_exists'.mp hsome
    have hzero : ret = 0 ↔ "+QIOPEN:".toList <+: line ∧ (scanQiopen line).getD stale = 0 := by
      rw [← egConnectLine_eq_zero_iff, hret, Option.some_inj]
    simp only [Option.bind_some, hret, Option.getD_some, Option.mem_some_iff, exists_eq_left', forall_eq', hzero]
    exact code_iff _ stale (scanQiopen line)

/-- `OK` comes in two reads, and the line that opens the connection in one, without its end. -/
def cutOk : List (Option (List Char)) :=
  [some "\r\nO".toList, none, some "K\r\n\r\n+QIOPEN: 0,0".toList, some "\r\n".toList]

theorem egConnect_iff_ok : egConnect 0 cutOk = 0 ↔ Opens (egReads cutOk).flatten :=
  (egConnect_iff 0 (by decide +kernel) (by decide +kernel)).mpr fun _ => by
    unfold Coded
    decide +kernel

/-- The module opens the connection, in two reads. -/
def cutOpen : List (Option (List Char)) := [some "\r\nOK\r\n\r\n+QIO".toList, none, some "PEN: 0,0\r\n".toList]

/-- It is not seen. And an error code that comes in the next read is taken for the 0 that
is in `err`. -/
theorem egConnect_cut :
    ¬(egConnect 1 cutOpen = 0 ↔ Opens (egReads cutOpen).flatten) ∧
      ¬(egConnect 0 [some "+QIOPEN: 0,".toList, some "566\r\n".toList] = 0 ↔ Opens "+QIOPEN: 0,566\r\n".toList) := by
  decide +kernel

end Dtu
