import Dtu.Framework.Lines
import Dtu.Impl.Bd3

/-!
# The lines of the BeiDou module

`bd_status_feed` calls `bd_status_parse_line` with what is in `line` at the end of each
line (`bdStatusFeed_eq`). The character for which `line` has no room empties it, and what
follows goes to its start: of a line there remain the characters behind the last 256 of
them (`bdFeedAll_eq`), and a line that is too long is discarded only if nothing remains
(`bdStatusFeed_calls_iff`).
-/

namespace Dtu

open Lines

/-! ## Calls -/

theorem bdStatusParseLine_line (now : Nat) (st : BdStatus) (kept line : List Char) :
    bdStatusParseLine now { st with line := kept } line = { bdStatusParseLine now st line with line := kept } := by
  unfold bdStatusParseLine
  split
  · rfl
  split
  · split
    · split
      · rfl
      · rfl
    · rfl
  split
  · split
    · split
      · rfl
      · rfl
    · rfl
  · rfl

theorem bdStatusFeedByte_eq (now : Nat) (st : BdStatus) (ch : UInt8) :
    bdStatusFeedByte now st ch =
      { (bdFeedLine st.line ch).2.elim st (bdStatusParseLine now st) with line := (bdFeedLine st.line ch).1 } := by
  unfold bdStatusFeedByte bdFeedLine
  split
  · rfl
  split
  · split
    · rfl
    · rfl
  split
  · rfl
  split
  · rfl
  · rfl

/-- What `bd_status_feed` keeps of its bytes is what its calls of `bd_status_parse_line`
keep. -/
theorem bdStatusFeed_eq (now : Nat) (st : BdStatus) (data : List UInt8) :
    bdStatusFeed now st data =
      { (bdFeedLines st.line data).2.foldl (bdStatusParseLine now) st with line := (bdFeedLines st.line data).1 } := by
  induction data generalizing st with
  | nil => rfl
  | cons ch data ih =>
    have hfold : ∀ (calls : List (List Char)) (st : BdStatus) (kept : List Char),
        calls.foldl (bdStatusParseLine now) { st with line := kept } =
          { calls.foldl (bdStatusParseLine now) st with line := kept } := by
      intro calls
      induction calls with
      | nil => exact fun _ _ => rfl
      | cons call calls ih =>
        intro st kept
        rw [List.foldl_cons, bdStatusParseLine_line, ih]
        rfl
    rw [bdStatusFeed, List.foldl_cons, ← bdStatusFeed, ih, bdStatusFeedByte_eq, hfold, bdFeedLines]
    simp only [List.foldl_append]
    cases (bdFeedLine st.line ch).2 with
    | none => rfl
    | some call => rfl

theorem bdFeedLines_append (line : List Char) (data data' : List UInt8) :
    bdFeedLines line (data ++ data') =
      ((bdFeedLines (bdFeedLines line data).1 data').1,
        (bdFeedLines line data).2 ++ (bdFeedLines (bdFeedLines line data).1 data').2) := by
  induction data generalizing line with
  | nil => rfl
  | cons ch data ih =>
    rw [List.cons_append, bdFeedLines, bdFeedLines]
    simp only [ih, List.append_assoc]

/-- It does not matter how the bytes are cut. -/
theorem bdFeedAll_eq_flatten (line : List Char) (datas : List (List UInt8)) :
    bdFeedAll line datas = bdFeedLines line datas.flatten := by
  induction datas generalizing line with
  | nil => rfl
  | cons data datas ih =>
    rw [List.flatten_cons, bdFeedLines_append, bdFeedAll]
    simp only [ih]

/-! ## Lines -/

/-- The end of a line. -/
def isNewline (ch : UInt8) : Bool := ch = 0x0A

/-- The printable characters of a line. -/
def statusText (data : List UInt8) : List Char :=
  (data.filter fun ch => decide (0x20 ≤ ch ∧ ch ≤ 0x7E)).map fun ch => Char.ofNat ch.toNat

/-- The lines that end in what the module has sent. -/
def statusLines (data : List UInt8) : List (List Char) := (linesOf isNewline data).1.map statusText

/-- What `line` holds of the characters that have come since the end of a line. -/
def lineKept (text : List Char) : List Char := text.drop (256 * (text.length / 256))

theorem length_lineKept (text : List Char) : (lineKept text).length = text.length % 256 := by
  rw [lineKept, List.length_drop]
  omega

/-- One character more. -/
theorem lineKept_concat (text : List Char) (c : Char) :
    lineKept (text ++ [c]) = if (lineKept text).length < 256 - 1 then lineKept text ++ [c] else [] := by
  rw [length_lineKept, lineKept, lineKept, List.length_append, List.length_singleton]
  split
  · rename_i hroom
    rw [show (text.length + 1) / 256 = text.length / 256 by omega, List.drop_append_of_le_length (by omega)]
  · rename_i hroom
    rw [List.drop_eq_nil_of_le]
    rw [List.length_append, List.length_singleton]
    omega

theorem bdFeedLine_text {ch : UInt8} (h : isNewline ch = false) (data : List UInt8) :
    bdFeedLine (lineKept (statusText data)) ch = (lineKept (statusText (data ++ [ch])), none) := by
  have hnl : ch ≠ 0x0A := of_decide_eq_false h
  unfold bdFeedLine
  by_cases hcr : ch = 0x0D
  · rw [if_pos hcr, hcr]
    simp [statusText]
  rw [if_neg hcr, if_neg hnl]
  by_cases hprint : ch < 0x20 ∨ 0x7E < ch
  · have hfilter : ¬(0x20 ≤ ch ∧ ch ≤ 0x7E) := by
      rintro ⟨hlow, hhigh⟩
      exact hprint.elim (UInt8.not_lt.mpr hlow) (UInt8.not_lt.mpr hhigh)
    rw [if_pos hprint]
    simp [statusText, List.filter_append, hfilter]
  · have hfilter : 0x20 ≤ ch ∧ ch ≤ 0x7E := by
      rw [not_or] at hprint
      exact ⟨UInt8.not_lt.mp hprint.1, UInt8.not_lt.mp hprint.2⟩
    have htext : statusText (data ++ [ch]) = statusText data ++ [Char.ofNat ch.toNat] := by
      simp [statusText, List.filter_append, hfilter]
    rw [if_neg hprint, htext, lineKept_concat]
    split
    · rfl
    · rfl

/-- What is left of a line, if anything. -/
def lineCall (text : List Char) : Option (List Char) :=
  if 0 < (lineKept text).length then some (lineKept text) else none

/-- The calls of `bd_status_parse_line`. -/
theorem bdFeedLines_eq {line : List UInt8} (hline : ∀ ch ∈ line, isNewline ch = false) (data : List UInt8) :
    (bdFeedLines (lineKept (statusText line)) data).2 =
      ((linesOf isNewline (line ++ data)).1.map statusText).filterMap lineCall := by
  induction data generalizing line with
  | nil =>
    rw [List.append_nil, linesOf_of_forall hline]
    rfl
  | cons ch data ih =>
    rw [bdFeedLines]
    cases hch : isNewline ch with
    | true =>
      obtain rfl : ch = 0x0A := of_decide_eq_true hch
      have hend : bdFeedLine (lineKept (statusText line)) 0x0A = ([], lineCall (statusText line)) := rfl
      have hnil := @ih [] (List.forall_mem_nil _)
      rw [hend, linesOf_line hline hch]
      simp only [List.map_cons, List.filterMap_cons]
      rw [show bdFeedLines [] data = bdFeedLines (lineKept (statusText [])) data from rfl, hnil, List.nil_append]
      cases lineCall (statusText line) with
      | none => rfl
      | some call => rfl
    | false =>
      have hnext : ∀ x ∈ line ++ [ch], isNewline x = false := by
        intro x hx
        rcases List.mem_append.mp hx with hx | hx
        · exact hline x hx
        · rw [List.mem_singleton.mp hx, hch]
      rw [bdFeedLine_text hch]
      simp only [Option.toList_none, List.nil_append]
      rw [ih hnext, List.append_assoc, List.singleton_append]

/-- Of each line `bd_status_parse_line` gets what is left of it. -/
theorem bdFeedAll_eq (datas : List (List UInt8)) :
    (bdFeedAll [] datas).2 = (statusLines datas.flatten).filterMap lineCall := by
  rw [bdFeedAll_eq_flatten]
  exact bdFeedLines_eq (List.forall_mem_nil _) datas.flatten

/-! ## Lines that are too long -/

/-- The lines that `line` has room for. -/
def FitsLine (text : List Char) : Prop := 1 ≤ text.length ∧ text.length ≤ 255

instance (text : List Char) : Decidable (FitsLine text) := inferInstanceAs (Decidable (_ ∧ _))

theorem lineCall_of_fits {text : List Char} (h : FitsLine text) : lineCall text = some text := by
  obtain ⟨hpos, hle⟩ := h
  have hkept : lineKept text = text := by
    rw [lineKept, show text.length / 256 = 0 by omega]
    rfl
  rw [lineCall, hkept, if_pos (by omega)]

/-- Nothing is left. -/
theorem lineCall_eq_none_iff {text : List Char} : lineCall text = none ↔ text.length % 256 = 0 := by
  rw [lineCall, length_lineKept]
  by_cases h : 0 < text.length % 256
  · rw [if_pos h]
    simp only [reduceCtorEq, false_iff]
    omega
  · rw [if_neg h]
    simp only [true_iff]
    omega

theorem length_filter_fits_le (texts : List (List Char)) :
    (texts.filter fun text => FitsLine text).length ≤ (texts.filterMap lineCall).length := by
  induction texts with
  | nil => exact Nat.le_refl 0
  | cons text texts ih =>
    by_cases hfits : FitsLine text
    · rw [List.filter_cons_of_pos (by exact decide_eq_true hfits), List.filterMap_cons_some (lineCall_of_fits hfits)]
      exact Nat.succ_le_succ ih
    · rw [List.filter_cons_of_neg (by simpa using hfits)]
      refine ih.trans ?_
      rw [List.filterMap_cons]
      split
      · exact Nat.le_refl _
      · exact Nat.le_succ _

/-- `bd_status_feed` gets just the lines that fit to `bd_status_parse_line` when nothing is
left of the others. -/
theorem filterMap_lineCall_eq_iff (texts : List (List Char)) :
    (texts.filterMap lineCall = texts.filter fun text => FitsLine text) ↔
      ∀ text ∈ texts, text.length ≤ 255 ∨ text.length % 256 = 0 := by
  induction texts with
  | nil => simp
  | cons text texts ih =>
    rw [List.forall_mem_cons]
    by_cases hfits : FitsLine text
    · rw [List.filter_cons_of_pos (by exact decide_eq_true hfits), List.filterMap_cons_some (lineCall_of_fits hfits),
        List.cons.injEq, ih]
      exact ⟨fun h => ⟨Or.inl hfits.2, h.2⟩, fun h => ⟨rfl, h.2⟩⟩
    rw [List.filter_cons_of_neg (by simpa using hfits)]
    cases hcall : lineCall text with
    | none =>
      rw [List.filterMap_cons_none hcall, ih]
      exact ⟨fun h => ⟨Or.inr (lineCall_eq_none_iff.mp hcall), h⟩, fun h => h.2⟩
    | some call =>
      -- There is one call more than there are lines that fit.
      rw [List.filterMap_cons_some hcall]
      constructor
      · intro h
        have hle := length_filter_fits_le texts
        rw [← h, List.length_cons] at hle
        omega
      · rintro ⟨hlong | hzero, -⟩
        · have hne : text.length % 256 ≠ 0 := by
            rw [ne_eq, ← lineCall_eq_none_iff, hcall]
            exact Option.some_ne_none call
          exact absurd ⟨by omega, hlong⟩ hfits
        · rw [lineCall_eq_none_iff.mpr hzero] at hcall
          cases hcall

/-- Whatever is fed to `bd_status_feed`, in whatever pieces, its calls of
`bd_status_parse_line` are the lines of 1 to 255 characters just when no other line leaves
something behind its last 256 characters. -/
theorem bdStatusFeed_calls_iff (datas : List (List UInt8)) :
    (bdFeedAll [] datas).2 = ((statusLines datas.flatten).filter fun text => FitsLine text) ↔
      ∀ text ∈ statusLines datas.flatten, text.length ≤ 255 ∨ text.length % 256 = 0 := by
  rw [bdFeedAll_eq]
  exact filterMap_lineCall_eq_iff _

/-- A line of 278 characters, the last 22 of which say that the module is ready. -/
theorem bdStatusFeed_calls_suffix :
    let data := List.replicate 256 0x2E ++ "READY FOR TRANSMISSION\n".toList.map fun c => UInt8.ofNat c.toNat
    (bdFeedAll [] [data]).2 ≠ ((statusLines [data].flatten).filter fun text => FitsLine text) ∧
      statusLines data = [List.replicate 256 '.' ++ "READY FOR TRANSMISSION".toList] ∧
        (bdFeedAll [] [data]).2 = ["READY FOR TRANSMISSION".toList] ∧
          (bdStatusFeed 0 .init data).gBdReadySeen = true := by decide +kernel

end Dtu
