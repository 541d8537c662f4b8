import Dtu.Framework.Stdio

/-!
# What `sscanf` takes for a number

`%u` and `%x` pass over blanks, take a sign, `%x` a `0x`, and then digits up to the first
other character: whatever follows is left, and whatever the digits stand for is cut to 32
bits. `NumConv` is what the two differ in, `NumConv.Reads` says which texts they
read a number from, and `scan_eq_some_iff` that they do.
-/

namespace Dtu.Stdio

/-- A conversion of `sscanf` for a number without a sign: its digits, what they stand for,
and what may stand before them. -/
structure NumConv where
  digit : Char → Bool
  value : List Char → Nat
  marks : List (List Char)
  digit_char : ∀ c, digit c = true → isspace c = false ∧ c ≠ '+' ∧ c ≠ '-'
  mark_chars : ∀ mark ∈ marks, ∃ c d, mark = [c, d] ∧ digit c = true ∧ digit d = false

namespace NumConv

variable (k : NumConv) {s text : List Char} {neg : Bool} {v : UInt32}

/-- What is read behind a sign. -/
def number (neg : Bool) (s : List Char) : Option UInt32 :=
  let s := if k.marks.any (·.isPrefixOf s) then s.drop 2 else s
  match s.takeWhile k.digit with
  | [] => none
  | ds => some (strtoul neg (k.value ds))

/-- The conversion succeeds, and its value. -/
def scan (s : List Char) : Option UInt32 :=
  match s.dropWhile isspace with
  | [] => none
  | c :: rest =>
    if c = '+' then k.number false rest
    else if c = '-' then k.number true rest
    else k.number false (c :: rest)

/-- Behind a mark, if there is one, the text has the digits `ds`, and no more. -/
def Digits (s ds : List Char) : Prop :=
  ∃ mark tail, s = mark ++ (ds ++ tail) ∧ (mark ∈ k.marks ∨ mark = [] ∧ ∀ m ∈ k.marks, ¬m <+: ds ++ tail) ∧
    ds ≠ [] ∧ (∀ c ∈ ds, k.digit c = true) ∧ ∀ c ∈ tail.head?, k.digit c = false

/-- The text is blanks, a sign or none, and then the digits `ds`, with anything behind
them. -/
def Reads (text : List Char) (neg : Bool) (ds : List Char) : Prop :=
  ∃ blanks sign s, text = blanks ++ (sign ++ s) ∧ (∀ c ∈ blanks, isspace c = true) ∧
    (sign, neg) ∈ [([], false), (['+'], false), (['-'], true)] ∧ k.Digits s ds

variable {k}

/-- The digits of a text are those up to the first other character. -/
theorem takeWhile_digits {ds tail : List Char} (hds : ∀ c ∈ ds, k.digit c = true)
    (htail : ∀ c ∈ tail.head?, k.digit c = false) : (ds ++ tail).takeWhile k.digit = ds := by
  rw [List.takeWhile_append_of_pos hds]
  cases tail with
  | nil => rw [List.takeWhile_nil, List.append_nil]
  | cons c tail => rw [List.takeWhile_cons, htail c rfl, if_neg Bool.false_ne_true, List.append_nil]

theorem number_of_takeWhile {ds : List Char} (hne : ds ≠ [])
    (h : (if k.marks.any (·.isPrefixOf s) then s.drop 2 else s).takeWhile k.digit = ds) :
    k.number neg s = some (strtoul neg (k.value ds)) := by
  obtain ⟨d, ds, rfl⟩ := List.exists_cons_of_ne_nil hne
  rw [number]
  simp only [h]

theorem number_eq_some_iff :
    k.number neg s = some v ↔ ∃ ds, k.Digits s ds ∧ strtoul neg (k.value ds) = v := by
  constructor
  · intro h
    set s' := if k.marks.any (·.isPrefixOf s) then s.drop 2 else s with hs'
    have hne : s'.takeWhile k.digit ≠ [] := by
      intro hnil
      rw [number] at h
      simp only [← hs', hnil] at h
      cases h
    rw [number_of_takeWhile hne rfl] at h
    refine ⟨s'.takeWhile k.digit, ?_, Option.some.inj h⟩
    have hboundary : ∀ c ∈ (s'.dropWhile k.digit).head?, k.digit c = false := fun c hc => by
      have := List.head?_dropWhile_not k.digit s'
      rw [Option.mem_def.mp hc] at this
      simpa using this
    have hparts : s'.takeWhile k.digit ++ s'.dropWhile k.digit = s' := List.takeWhile_append_dropWhile
    by_cases hmark : k.marks.any (·.isPrefixOf s) = true
    · rw [if_pos hmark] at hs'
      obtain ⟨mark, hmem, hpre⟩ := List.any_eq_true.mp hmark
      obtain ⟨rest, rfl⟩ := List.isPrefixOf_iff_prefix.mp hpre
      obtain ⟨c, d, rfl, _⟩ := k.mark_chars mark hmem
      refine ⟨[c, d], s'.dropWhile k.digit, ?_, .inl hmem, hne, fun c hc => List.mem_takeWhile_imp hc, hboundary⟩
      rw [hparts, hs']
      rfl
    · rw [if_neg hmark] at hs'
      refine ⟨[], s'.dropWhile k.digit, ?_, .inr ⟨rfl, ?_⟩, hne, fun c hc => List.mem_takeWhile_imp hc, hboundary⟩
      · rw [hparts, hs', List.nil_append]
      · intro mark hmem hpre
        rw [hparts, hs'] at hpre
        exact hmark (List.any_eq_true.mpr ⟨mark, hmem, List.isPrefixOf_iff_prefix.mpr hpre⟩)
  · rintro ⟨ds, ⟨mark, tail, rfl, hmark, hne, hds, htail⟩, rfl⟩
    refine number_of_takeWhile hne ?_
    rcases hmark with hmem | ⟨rfl, hnone⟩
    · obtain ⟨c, d, rfl, _⟩ := k.mark_chars mark hmem
      have hany : k.marks.any (·.isPrefixOf ([c, d] ++ (ds ++ tail))) = true :=
        List.any_eq_true.mpr ⟨[c, d], hmem, List.isPrefixOf_iff_prefix.mpr (List.prefix_append _ _)⟩
      rw [if_pos hany]
      exact takeWhile_digits hds htail
    · have hany : ¬k.marks.any (·.isPrefixOf ([] ++ (ds ++ tail))) = true := fun h => by
        obtain ⟨mark, hmem, hpre⟩ := List.any_eq_true.mp h
        exact hnone mark hmem (List.isPrefixOf_iff_prefix.mp hpre)
      rw [if_neg hany]
      exact takeWhile_digits hds htail

/-- What is read behind a sign starts with a digit. -/
theorem Digits.head {ds : List Char} (h : k.Digits s ds) : ∃ c rest, s = c :: rest ∧ k.digit c = true := by
  obtain ⟨mark, tail, rfl, hmark, hne, hds, -⟩ := h
  rcases hmark with hmem | ⟨rfl, -⟩
  · obtain ⟨c, d, rfl, hc, -⟩ := k.mark_chars mark hmem
    exact ⟨c, _, rfl, hc⟩
  · obtain ⟨c, ds, rfl⟩ := List.exists_cons_of_ne_nil hne
    exact ⟨c, _, rfl, hds c List.mem_cons_self⟩

theorem scan_of_blanks {blanks rest : List Char} {c : Char} (hblanks : ∀ b ∈ blanks, isspace b = true)
    (hc : isspace c = false) : k.scan (blanks ++ c :: rest) =
      if c = '+' then k.number false rest
      else if c = '-' then k.number true rest
      else k.number false (c :: rest) := by
  rw [scan, List.dropWhile_append_of_pos hblanks, List.dropWhile_cons, hc, if_neg Bool.false_ne_true]

/-- The conversion succeeds on the texts that it reads a number from. -/
theorem scan_eq_some_iff :
    k.scan text = some v ↔ ∃ neg ds, k.Reads text neg ds ∧ strtoul neg (k.value ds) = v := by
  constructor
  · intro h
    have hblanks : ∀ c ∈ text.takeWhile isspace, isspace c = true := fun c hc => List.mem_takeWhile_imp hc
    have hparts : text.takeWhile isspace ++ text.dropWhile isspace = text := List.takeWhile_append_dropWhile
    cases hrest : text.dropWhile isspace with
    | nil =>
      rw [scan] at h
      simp only [hrest] at h
      cases h
    | cons c rest =>
    have hc : isspace c = false := by
      have := List.head?_dropWhile_not isspace text
      rw [hrest] at this
      simpa using this
    rw [hrest] at hparts
    rw [← hparts, scan_of_blanks hblanks hc] at h
    by_cases hplus : c = '+'
    · rw [if_pos hplus] at h
      obtain ⟨ds, hds, hv⟩ := number_eq_some_iff.mp h
      rw [hplus] at hparts
      exact ⟨false, ds, ⟨_, ['+'], rest, hparts.symm, hblanks, by decide, hds⟩, hv⟩
    rw [if_neg hplus] at h
    by_cases hminus : c = '-'
    · rw [if_pos hminus] at h
      obtain ⟨ds, hds, hv⟩ := number_eq_some_iff.mp h
      rw [hminus] at hparts
      exact ⟨true, ds, ⟨_, ['-'], rest, hparts.symm, hblanks, by decide, hds⟩, hv⟩
    · rw [if_neg hminus] at h
      obtain ⟨ds, hds, hv⟩ := number_eq_some_iff.mp h
      exact ⟨false, ds, ⟨_, [], c :: rest, hparts.symm, hblanks, by decide, hds⟩, hv⟩
  · rintro ⟨neg, ds, ⟨blanks, sign, s, rfl, hblanks, hsign, hds⟩, hv⟩
    have hnumber : k.number neg s = some v := number_eq_some_iff.mpr ⟨ds, hds, hv⟩
    simp only [List.mem_cons, Prod.mk.injEq, List.not_mem_nil, or_false] at hsign
    rcases hsign with ⟨rfl, rfl⟩ | ⟨rfl, rfl⟩ | ⟨rfl, rfl⟩
    · obtain ⟨c, rest, rfl, hc⟩ := hds.head
      obtain ⟨hspace, hplus, hminus⟩ := k.digit_char c hc
      rw [List.nil_append, scan_of_blanks hblanks hspace, if_neg hplus, if_neg hminus, hnumber]
    · exact (scan_of_blanks hblanks rfl).trans hnumber
    · exact (scan_of_blanks hblanks rfl).trans hnumber

/-- Digits alone are read whole. -/
theorem reads_digits {ds : List Char} (hne : ds ≠ []) (hds : ∀ c ∈ ds, k.digit c = true) :
    k.Reads ds false ds := by
  refine ⟨[], [], ds, rfl, nofun, by decide, [], [], (List.append_nil ds).symm, .inr ⟨rfl, ?_⟩, hne, hds, nofun⟩
  intro mark hmem hpre
  obtain ⟨c, d, rfl, -, hd⟩ := k.mark_chars mark hmem
  rw [List.append_nil] at hpre
  have := hds d (hpre.subset (List.mem_cons_of_mem c List.mem_cons_self))
  rw [hd] at this
  cases this

end NumConv

theorem hexVal_isSome_char {c : Char} (h : (hexVal c).isSome = true) : isspace c = false ∧ c ≠ '+' ∧ c ≠ '-' := by
  have hne : ∀ d, hexVal d = none → c ≠ d := fun d hd hcd => by
    rw [hcd, hd] at h
    cases h
  refine ⟨?_, hne '+' (by decide), hne '-' (by decide)⟩
  simp only [isspace, Bool.or_eq_false_iff, decide_eq_false_iff_not]
  exact ⟨⟨⟨⟨⟨hne ' ' (by decide), hne '\t' (by decide)⟩, hne '\n' (by decide)⟩, hne '\x0b' (by decide)⟩,
    hne '\x0c' (by decide)⟩, hne '\r' (by decide)⟩

/-- `%x`. -/
def convX : NumConv where
  digit c := (hexVal c).isSome
  value ds := ds.foldl (fun n c => 16 * n + (hexVal c).getD 0) 0
  marks := [['0', 'x'], ['0', 'X']]
  digit_char _ h := hexVal_isSome_char h
  mark_chars mark h := by
    rcases List.mem_pair.mp h with rfl | rfl
    · exact ⟨'0', 'x', rfl, rfl, rfl⟩
    · exact ⟨'0', 'X', rfl, rfl, rfl⟩

theorem hexVal_of_isDigit {c : Char} (h : c.isDigit = true) : (hexVal c).isSome = true := by
  have hc : '0' ≤ c ∧ c ≤ '9' := by
    rw [Char.isDigit, Bool.and_eq_true, decide_eq_true_eq, decide_eq_true_eq] at h
    exact h
  rw [hexVal, if_pos hc]
  rfl

/-- `%u`. -/
def convU : NumConv where
  digit := Char.isDigit
  value ds := Nat.ofDigitChars 10 ds 0
  marks := []
  digit_char _ h := hexVal_isSome_char (hexVal_of_isDigit h)
  mark_chars := nofun

theorem scanX_eq_scan (s : List Char) : scanX s = convX.scan s := by
  have hnumber : ∀ neg s, scanHexDigits neg s = convX.number neg s := fun neg s => by
    have hmark : convX.marks.any (·.isPrefixOf s) = (['0', 'x'].isPrefixOf s || ['0', 'X'].isPrefixOf s) := by
      show (_ || (_ || false)) = _
      rw [Bool.or_false]
    rw [NumConv.number, hmark]
    rfl
  simp only [scanX, hnumber]
  rfl

example : scanX " -0x1Fg".toList = some 0xFFFFFFE1 := by decide

theorem scanU_eq_scan (s : List Char) : scanU s = convU.scan s := rfl

end Dtu.Stdio
