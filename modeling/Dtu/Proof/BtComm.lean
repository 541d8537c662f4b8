import Dtu.Framework.Lines
import Dtu.Impl.BtComm

/-!
# The lines of the Bluetooth line

The loop of `bt_comm_thread` handles the lines that end in `recv_buf` (`btCommLines_eq`).
It empties `recv_buf` when more than 200 characters are left, and handles the rest of their
line as one of its own: the lines that it handles are those of the stream just when no line
ends behind such a read (`btComm_lines_iff`).
-/

namespace Dtu

open Stdio Lines

/-- The lines of a text that end in CR LF, and what is behind the last. -/
abbrev crlfLines : List Char → List (List Char) × List Char := linesOfPair '\r' '\n'

/-! ## The loop -/

/-- `strstr` finds the end of the first line. -/
theorem crlfLines_of_strstr {s : List Char} :
    match strstr ['\r', '\n'] s with
    | none => (crlfLines s).1 = []
    | some atEnd => ∃ l t, s = l ++ '\r' :: '\n' :: t ∧ atEnd = '\r' :: '\n' :: t ∧
        crlfLines s = (l :: (crlfLines t).1, (crlfLines t).2) := by
  induction s with
  | nil => rfl
  | cons c s ih =>
    rw [strstr]
    obtain ⟨t, rfl, rfl⟩ | hcons := pair_or_not '\r' '\n' c s
    · rw [if_pos (by simp)]
      exact ⟨[], t, rfl, rfl, linesOfPair_pair t⟩
    · have hpat : ¬['\r', '\n'].isPrefixOf (c :: s) = true := by
        rw [List.isPrefixOf_iff_prefix]
        rintro ⟨t, ht⟩
        obtain ⟨rfl, rfl⟩ := List.cons.inj ht
        exact hcons ⟨rfl, rfl⟩
      rw [if_neg hpat, crlfLines, linesOfPair_cons hcons]
      revert ih
      cases strstr ['\r', '\n'] s with
      | none => exact fun ih => fst_consLine_eq_nil.mpr ih
      | some atEnd =>
        rintro ⟨l, t, rfl, rfl, hlines⟩
        exact ⟨c :: l, t, rfl, rfl, congrArg (consLine c) hlines⟩

theorem btCommLines_eq {fuel : Nat} {recvBuf : List Char} (hfuel : recvBuf.length ≤ fuel) (hnul : '\x00' ∉ recvBuf) :
    btCommLines fuel recvBuf = crlfLines recvBuf := by
  induction fuel generalizing recvBuf with
  | zero =>
    rw [List.length_eq_zero_iff.mp (Nat.le_zero.mp hfuel)]
    rfl
  | succ fuel ih =>
    have hfind := @crlfLines_of_strstr recvBuf
    rw [btCommLines, cstr_of_not_mem hnul]
    revert hfind
    cases strstr ['\r', '\n'] recvBuf with
    | none => exact fun hnone => (linesOfPair_of_fst_eq_nil hnone).symm
    | some atEnd =>
      rintro ⟨l, t, rfl, rfl, hlines⟩
      have hlen : (l ++ '\r' :: '\n' :: t).length - ('\r' :: '\n' :: t).length = l.length := by
        rw [List.length_append]
        omega
      have hdrop : (l ++ '\r' :: '\n' :: t).drop (l.length + 2) = t := by
        rw [List.drop_append, List.drop_of_length_le (by omega)]
        simp
      simp only [List.length_append, List.length_cons] at hfuel
      simp only [List.mem_append, List.mem_cons, not_or] at hnul
      simp only [hlen, hdrop, List.take_left, ih (show t.length ≤ fuel by omega) hnul.2.2.2, hlines]

/-! ## Reads -/

/-- `recv_buf` between two reads: the part of a line. -/
structure Pending (recvBuf : List Char) : Prop where
  noLine : (crlfLines recvBuf).1 = []
  noNul : '\x00' ∉ recvBuf
  length_le : recvBuf.length ≤ 200

/-- A read. -/
theorem btCommRead_eq {recvBuf chunk : List Char} (h : Pending recvBuf) (hnul : '\x00' ∉ chunk)
    {next : List (List Char) × List Char} (hread : btCommRead recvBuf chunk = some next) :
    next = ((crlfLines (recvBuf ++ chunk)).1,
      if 200 < (crlfLines (recvBuf ++ chunk)).2.length then [] else (crlfLines (recvBuf ++ chunk)).2) := by
  unfold btCommRead at hread
  split at hread
  · simp only [btCommLines_eq (Nat.le_refl _) (List.not_mem_append h.noNul hnul)] at hread
    exact (Option.some.inj hread).symm
  · cases hread

theorem Pending.read {recvBuf chunk : List Char} (h : Pending recvBuf) (hnul : '\x00' ∉ chunk)
    {next : List (List Char) × List Char} (hread : btCommRead recvBuf chunk = some next) : Pending next.2 := by
  rw [btCommRead_eq h hnul hread]
  simp only
  split
  · exact ⟨rfl, List.not_mem_nil, Nat.zero_le _⟩
  · rename_i hshort
    have hsuffix := @linesOfPair_rest_suffix _ _ '\r' '\n' (recvBuf ++ chunk)
    exact ⟨linesOfPair_rest _, fun hmem => List.not_mem_append h.noNul hnul (hsuffix.subset hmem), Nat.not_lt.mp hshort⟩

theorem btCommReads_cons {recvBuf chunk : List Char} {chunks : List (List Char)} {lines : List (List Char)}
    (h : btCommReads recvBuf (chunk :: chunks) = some lines) :
    ∃ next lines', btCommRead recvBuf chunk = some next ∧ btCommReads next.2 chunks = some lines' ∧
      lines = next.1 ++ lines' := by
  rw [btCommReads] at h
  obtain ⟨next, hread, h⟩ := Option.bind_eq_some_iff.mp h
  obtain ⟨lines', hreads, h⟩ := Option.bind_eq_some_iff.mp h
  exact ⟨next, lines', hread, hreads, (Option.some.inj h).symm⟩

/-- Not more is handled than the lines have. -/
theorem weight_btCommReads_le {recvBuf : List Char} (h : Pending recvBuf) {chunks : List (List Char)}
    (hnul : ∀ chunk ∈ chunks, '\x00' ∉ chunk) {lines : List (List Char)}
    (hreads : btCommReads recvBuf chunks = some lines) :
    weight lines ≤ weight (crlfLines (recvBuf ++ chunks.flatten)).1 := by
  induction chunks generalizing recvBuf lines with
  | nil =>
    cases hreads
    exact Nat.zero_le _
  | cons chunk chunks ih =>
    obtain ⟨next, lines', hread, hreads', rfl⟩ := btCommReads_cons hreads
    have hchunk := hnul chunk List.mem_cons_self
    have hle := ih (h.read hchunk hread) (fun c hc => hnul c (List.mem_cons_of_mem chunk hc)) hreads'
    rw [btCommRead_eq h hchunk hread] at hle ⊢
    rw [List.flatten_cons, ← List.append_assoc, crlfLines, linesOfPair_append (recvBuf ++ chunk), weight_append,
      weight_append]
    refine Nat.add_le_add_left (hle.trans ?_) _
    simp only
    split
    · exact weight_le_append (by decide) (linesOfPair_rest _) _
    · exact Nat.le_refl _

/-- At the end of each read there are at most 200 characters behind the last line, or none
ends any more. -/
def NoLineDropped (recvBuf : List Char) (chunks : List (List Char)) : Prop :=
  ∀ pre post, chunks = pre ++ post →
    (crlfLines (recvBuf ++ pre.flatten)).2.length ≤ 200 ∨
      (crlfLines (recvBuf ++ chunks.flatten)).1 = (crlfLines (recvBuf ++ pre.flatten)).1

/-- After a read. -/
theorem noLineDropped_cons {recvBuf : List Char} (h : Pending recvBuf) (chunk : List Char) (chunks : List (List Char)) :
    NoLineDropped recvBuf (chunk :: chunks) ↔ NoLineDropped (crlfLines (recvBuf ++ chunk)).2 chunks := by
  have hsplit : ∀ t, crlfLines (recvBuf ++ (chunk ++ t)) =
      ((crlfLines (recvBuf ++ chunk)).1 ++ (crlfLines ((crlfLines (recvBuf ++ chunk)).2 ++ t)).1,
        (crlfLines ((crlfLines (recvBuf ++ chunk)).2 ++ t)).2) := fun t => by
    rw [← List.append_assoc, crlfLines, linesOfPair_append (recvBuf ++ chunk)]
  constructor
  · intro hall pre post hpre
    have hpre' := hall (chunk :: pre) post (congrArg (chunk :: ·) hpre)
    rw [List.flatten_cons, List.flatten_cons, hsplit, hsplit, List.append_cancel_left_eq] at hpre'
    exact hpre'
  · intro hall pre post hpre
    cases pre with
    | nil =>
      refine Or.inl ?_
      rw [List.flatten_nil, List.append_nil, crlfLines, linesOfPair_of_fst_eq_nil h.noLine]
      exact h.length_le
    | cons c pre =>
      rw [List.cons_append, List.cons.injEq] at hpre
      obtain ⟨rfl, hpre⟩ := hpre
      have hpre' := hall pre post hpre
      rw [List.flatten_cons, List.flatten_cons, hsplit, hsplit, List.append_cancel_left_eq]
      exact hpre'

theorem btCommReads_eq_iff {recvBuf : List Char} (h : Pending recvBuf) {chunks : List (List Char)}
    (hnul : ∀ chunk ∈ chunks, '\x00' ∉ chunk) {lines : List (List Char)}
    (hreads : btCommReads recvBuf chunks = some lines) :
    lines = (crlfLines (recvBuf ++ chunks.flatten)).1 ↔ NoLineDropped recvBuf chunks := by
  induction chunks generalizing recvBuf lines with
  | nil =>
    cases hreads
    rw [List.flatten_nil, List.append_nil, h.noLine]
    refine iff_of_true rfl fun pre post hpre => Or.inr ?_
    rw [(List.nil_eq_append_iff.mp hpre).1]
  | cons chunk chunks ih =>
    obtain ⟨next, lines', hread, hreads', rfl⟩ := btCommReads_cons hreads
    have hchunk := hnul chunk List.mem_cons_self
    have hchunks := fun c hc => hnul c (List.mem_cons_of_mem chunk hc)
    have hpending := h.read hchunk hread
    rw [noLineDropped_cons h, List.flatten_cons, ← List.append_assoc, crlfLines, linesOfPair_append (recvBuf ++ chunk)]
    rw [btCommRead_eq h hchunk hread] at hreads' hpending ⊢
    rw [List.append_cancel_left_eq]
    have hnoLine := @linesOfPair_rest _ _ '\r' '\n' (recvBuf ++ chunk)
    generalize (linesOfPair '\r' '\n' (recvBuf ++ chunk)).2 = left at *
    by_cases hlong : 200 < left.length
    · -- The buffer is emptied.
      rw [if_pos hlong] at hreads' hpending
      have hweight : weight lines' ≤ weight (linesOfPair '\r' '\n' chunks.flatten).1 :=
        weight_btCommReads_le hpending hchunks hreads'
      constructor
      · intro hlines pre post hpre
        have hnil : (linesOfPair '\r' '\n' (left ++ chunks.flatten)).1 = [] := by
          by_contra hne
          have hle := weight_add_le (by decide) hnoLine hne
          rw [← hlines] at hle
          omega
        have happend := @linesOfPair_append _ _ '\r' '\n' (left ++ pre.flatten) post.flatten
        rw [List.append_assoc, ← List.flatten_append, ← hpre] at happend
        rw [happend, List.append_eq_nil_iff] at hnil
        refine Or.inr ?_
        rw [crlfLines, happend, hnil.1, hnil.2]
        rfl
      · intro hcond
        have hnil : (linesOfPair '\r' '\n' (left ++ chunks.flatten)).1 = [] := by
          rcases hcond [] chunks rfl with hle | heq
          · rw [List.flatten_nil, List.append_nil, crlfLines, linesOfPair_of_fst_eq_nil hnoLine] at hle
            exact absurd hle (Nat.not_le.mpr hlong)
          · rw [List.flatten_nil, List.append_nil] at heq
            exact heq.trans hnoLine
        have hflat : (linesOfPair '\r' '\n' chunks.flatten).1 = [] := by
          by_contra hne
          exact fst_append_ne_nil hne left hnil
        rw [hflat] at hweight
        rw [hnil, eq_nil_of_weight hweight]
    · rw [if_neg hlong] at hreads' hpending
      exact ih hpending hchunks hreads'

/-- However the stream is cut into reads, the lines that `bt_comm_thread` handles are
those of the stream just when at the end of each read there are at most 200 characters
behind the last line, or no line ends any more. -/
theorem btComm_lines_iff {chunks : List (List Char)} (hnul : ∀ chunk ∈ chunks, '\x00' ∉ chunk)
    {lines : List (List Char)} (hreads : btCommReads [] chunks = some lines) :
    lines = (crlfLines chunks.flatten).1 ↔
      ∀ pre post, chunks = pre ++ post →
        (crlfLines pre.flatten).2.length ≤ 200 ∨ (crlfLines chunks.flatten).1 = (crlfLines pre.flatten).1 :=
  btCommReads_eq_iff ⟨rfl, List.not_mem_nil, Nat.zero_le _⟩ hnul hreads

/-- A command behind 200 blanks, in two reads. -/
def cutCommand : List (List Char) := [List.replicate 201 ' ', "BL_0x00\r\n".toList]

theorem btComm_lines_iff_two :
    ["BL_0x00".toList] = (crlfLines cutCommand.flatten).1 ↔
      ∀ pre post, cutCommand = pre ++ post →
        (crlfLines pre.flatten).2.length ≤ 200 ∨ (crlfLines cutCommand.flatten).1 = (crlfLines pre.flatten).1 :=
  btComm_lines_iff (by decide +kernel) (by decide +kernel)

/-- The line has 208 characters; what is handled is its end. In one read it is handled. -/
theorem btComm_lines_cut :
    (∀ line ∈ (crlfLines cutCommand.flatten).1, line.length ≤ 253) ∧
      btCommReads [] cutCommand = some ["BL_0x00".toList] ∧
        ["BL_0x00".toList] ≠ (crlfLines cutCommand.flatten).1 ∧
          btCommReads [] [cutCommand.flatten] = some (crlfLines cutCommand.flatten).1 := by decide +kernel

end Dtu
