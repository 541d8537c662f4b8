import Mathlib

/-!
# Text functions of the C library

Text is a list of characters; a C string is one without NUL (`cstr` cuts a
buffer at its first NUL). Conversions of `printf` (`fmtU`, `fmt0`, `fmtX2`),
of `sscanf` (`scanX2`, `scanU`, `scanD`, `scanNot`, `scanC`), searches (`strchr`, `strstr`) and line input
(`fgets`, and `fgetsAll`, its successive results up to the end of the file).

What each conversion reads back of what the other wrote: `scanU_fmtU`,
`scanX2_fmtX2`. What `fgets` reads of a prefix (`readLine_take`) and of text
after a line (`readLine_append`) gives the pieces of a file cut at a piece
(`fgetsAll_take`, `fgetsAll_drop`) and of two files joined at a line end
(`fgetsAll_append`).
-/

namespace Dtu.Stdio

/-- The characters of a buffer before its terminating NUL. -/
def cstr (buf : List Char) : List Char := buf.takeWhile (· ≠ '\x00')

theorem cstr_of_not_mem {s : List Char} (h : '\x00' ∉ s) : cstr s = s := by
  rw [cstr, List.takeWhile_eq_self_iff]
  intro c hc
  simpa using fun e : c = '\x00' => h (e ▸ hc)

/-- `isspace` in the C locale. -/
def isspace (c : Char) : Bool :=
  c = ' ' || c = '\t' || c = '\n' || c = '\x0b' || c = '\x0c' || c = '\r'

/-! ## Numbers -/

/-- `%u`. -/
def fmtU (n : Nat) : List Char := Nat.toDigits 10 n

/-- `%0wd` of a number that is not negative. -/
def fmt0 (w n : Nat) : List Char := List.replicate (w - (fmtU n).length) '0' ++ fmtU n

/-- An upper-case hexadecimal digit. -/
def hexDigit (n : Nat) : Char := if n < 10 then Char.ofNat (48 + n) else Char.ofNat (55 + n)

/-- `%02X` of a byte. -/
def fmtX2 (b : UInt8) : List Char := [hexDigit (b.toNat / 16), hexDigit (b.toNat % 16)]

/-- The value of a hexadecimal digit of either case. -/
def hexVal (c : Char) : Option Nat :=
  if '0' ≤ c ∧ c ≤ '9' then some (c.toNat - 48)
  else if 'A' ≤ c ∧ c ≤ 'F' then some (c.toNat - 65 + 10)
  else if 'a' ≤ c ∧ c ≤ 'f' then some (c.toNat - 97 + 10)
  else none

/-- The byte of two hexadecimal digits. -/
def hexByte (hi lo : Nat) : UInt8 := UInt8.ofNat (hi <<< 4 ||| lo)

/-- `sscanf(s, "%2x", &v) == 1`, with the value of `v`: blanks are skipped,
then at most two characters are read, a sign and a `0x` prefix among them. A `0x` without
a digit behind it is no number, as in ISO C; older C libraries take it for 0. -/
def scanX2 (s : List Char) : Option Nat :=
  match s.dropWhile isspace with
  | [] => none
  | c :: rest =>
    match hexVal c, rest with
    | some hi, [] => some hi
    | some hi, d :: _ =>
      match hexVal d with
      | some lo => some (hi <<< 4 ||| lo)
      | none => if c = '0' ∧ (d = 'x' ∨ d = 'X') then none else some hi
    | none, [] => none
    | none, d :: _ =>
      if c = '+' then hexVal d
      else if c = '-' then (hexVal d).map fun v => (2 ^ 32 - v) % 2 ^ 32
      else none

/-- What `strtoul` makes of a number behind a sign, cut to 32 bits: it saturates. -/
def strtoul (neg : Bool) (n : Nat) : UInt32 :=
  UInt32.ofNat (if 2 ^ 64 ≤ n then 2 ^ 64 - 1 else if neg then 2 ^ 64 - n else n)

/-- The digits `%u` reads behind a sign. -/
def scanDigits (neg : Bool) (s : List Char) : Option UInt32 :=
  match s.takeWhile Char.isDigit with
  | [] => none
  | ds => some (strtoul neg (Nat.ofDigitChars 10 ds 0))

/-- `sscanf(s, "%u", &v) == 1`, with the value of `v`. -/
def scanU (s : List Char) : Option UInt32 :=
  match s.dropWhile isspace with
  | [] => none
  | c :: rest =>
    if c = '+' then scanDigits false rest
    else if c = '-' then scanDigits true rest
    else scanDigits false (c :: rest)

/-- The digits `%d` reads behind a sign, their value, and what follows them: `strtol`
saturates, and the result is cut to 32 bits. -/
def scanInt (neg : Bool) (s : List Char) : Option (Int32 × List Char) :=
  match s.takeWhile Char.isDigit with
  | [] => none
  | ds =>
    let n := Nat.ofDigitChars 10 ds 0
    some (Int32.ofInt (if neg then -(min n (2 ^ 63) : Nat) else (min n (2 ^ 63 - 1) : Nat)), s.drop ds.length)

/-- `%d`: the value, and what follows it. -/
def scanD (s : List Char) : Option (Int32 × List Char) :=
  match s.dropWhile isspace with
  | [] => none
  | c :: rest =>
    if c = '-' then scanInt true rest
    else if c = '+' then scanInt false rest
    else scanInt false (c :: rest)

/-- `%w[^c]`: the characters before `c`, at least one and at most `w`, and what
follows them. -/
def scanNot (c : Char) (w : Nat) (s : List Char) : Option (List Char × List Char) :=
  match (s.takeWhile (· ≠ c)).take w with
  | [] => none
  | ds => some (ds, s.drop ds.length)

/-- `%c`, and what follows it. -/
def scanC : List Char → Option (Char × List Char)
  | [] => none
  | c :: s => some (c, s)

/-- A character of the format that stands for itself: what follows it. -/
def scanLit (c : Char) : List Char → Option (List Char)
  | [] => none
  | d :: s => if d = c then some s else none

/-- Characters of the format that stand for themselves, no blanks among them: what
follows them. -/
def scanText : List Char → List Char → Option (List Char)
  | [], s => some s
  | c :: text, s => (scanLit c s).bind (scanText text)

/-- The hexadecimal digits `%x` reads behind a sign, with a `0x` before them or not. -/
def scanHexDigits (neg : Bool) (s : List Char) : Option UInt32 :=
  let s := if ['0', 'x'].isPrefixOf s || ['0', 'X'].isPrefixOf s then s.drop 2 else s
  match s.takeWhile fun c => (hexVal c).isSome with
  | [] => none
  | ds => some (strtoul neg (ds.foldl (fun n c => 16 * n + (hexVal c).getD 0) 0))

/-- `sscanf(s, "%x", &v) == 1`, with the value of `v`. A `0x` without a digit behind it is no
number, as in ISO C; older C libraries take it for 0. -/
def scanX (s : List Char) : Option UInt32 :=
  match s.dropWhile isspace with
  | [] => none
  | c :: rest =>
    if c = '+' then scanHexDigits false rest
    else if c = '-' then scanHexDigits true rest
    else scanHexDigits false (c :: rest)

theorem toNat_strtoul {n : Nat} (h : n < 2 ^ 32) : (strtoul false n).toNat = n := by
  have hsmall : ¬2 ^ 64 ≤ n := by omega
  rw [strtoul, if_neg hsmall, if_neg Bool.false_ne_true]
  exact UInt32.toNat_ofNat_of_lt' h

theorem scanText_eq_some_iff {text s rest : List Char} : scanText text s = some rest ↔ s = text ++ rest := by
  induction text generalizing s with
  | nil => simp [scanText]
  | cons c text ih =>
    cases s with
    | nil => simp [scanText, scanLit]
    | cons d s =>
      by_cases hd : d = c
      · simp [scanText, scanLit, hd, ih]
      · simp [scanText, scanLit, hd]

theorem isDigit_fmtU {n : Nat} {c : Char} (h : c ∈ fmtU n) : c.isDigit = true :=
  Nat.isDigit_of_mem_toDigits (by decide) (by decide) h

theorem fmtU_ne_nil (n : Nat) : fmtU n ≠ [] := Nat.toDigits_ne_nil

theorem length_fmtU_le {n k : Nat} (hk : 0 < k) (h : n < 10 ^ k) : (fmtU n).length ≤ k :=
  (Nat.length_toDigits_le_iff (by decide) hk).mpr h

theorem isDigit_fmt0 {w n : Nat} {c : Char} (h : c ∈ fmt0 w n) : c.isDigit = true := by
  rcases List.mem_append.mp h with h | h
  · rw [List.eq_of_mem_replicate h]; decide
  · exact isDigit_fmtU h

theorem length_fmt0 (w n : Nat) : (fmt0 w n).length = max w (fmtU n).length := by
  simp only [fmt0, List.length_append, List.length_replicate]
  omega

theorem hexVal_hexDigit : ∀ n < 16, hexVal (hexDigit n) = some n := by decide

theorem hexByte_halves (b : UInt8) : hexByte (b.toNat / 16) (b.toNat % 16) = b := by
  have hb : b.toNat % 16 < 2 ^ 4 := Nat.mod_lt _ (by decide)
  rw [hexByte, ← Nat.shiftLeft_add_eq_or_of_lt hb, Nat.shiftLeft_eq, Nat.div_add_mod']
  exact UInt8.ofNat_toNat

theorem halves_lt (b : UInt8) : b.toNat / 16 < 16 ∧ b.toNat % 16 < 16 := by
  have := b.toNat_lt
  omega

/-- What a hexadecimal digit is not: any character with no value. -/
theorem hexDigit_ne {n : Nat} (hn : n < 16) {c : Char} (hc : hexVal c = none) : hexDigit n ≠ c :=
  fun e => by rw [← e, hexVal_hexDigit n hn] at hc; cases hc

theorem isspace_hexDigit : ∀ n < 16, isspace (hexDigit n) = false := by decide

/-- The two digits of a byte scan back as the byte, whatever follows. -/
theorem scanX2_fmtX2 (b : UInt8) (s : List Char) : (scanX2 (fmtX2 b ++ s)).map UInt8.ofNat = some b := by
  obtain ⟨h, l⟩ := halves_lt b
  simp only [fmtX2, List.cons_append, List.nil_append, scanX2, List.dropWhile_cons,
    isspace_hexDigit _ h, hexVal_hexDigit _ h, hexVal_hexDigit _ l, Bool.false_eq_true, if_false,
    Option.map_some, Option.some.injEq]
  exact hexByte_halves b

/-- So they do without a width, if no digit follows. -/
theorem scanX_fmtX2 (b : UInt8) {c : Char} (hc : hexVal c = none) (s : List Char) :
    scanX (fmtX2 b ++ c :: s) = some b.toUInt32 := by
  obtain ⟨h, l⟩ := halves_lt b
  have hbase : ∀ x, hexVal x = none →
      ['0', x].isPrefixOf (hexDigit (b.toNat / 16) :: hexDigit (b.toNat % 16) :: c :: s) = false := fun x hx => by
    simp [List.isPrefixOf, (hexDigit_ne l hx).symm]
  have hvalue : 16 * (b.toNat / 16) + b.toNat % 16 = b.toNat := Nat.div_add_mod _ _
  have hsmall : ¬2 ^ 64 ≤ b.toNat := by
    have := b.toNat_lt
    omega
  simp only [scanX, fmtX2, List.cons_append, List.nil_append, List.dropWhile_cons, isspace_hexDigit _ h,
    Bool.false_eq_true, if_false, if_neg (hexDigit_ne h (c := '+') (by decide)),
    if_neg (hexDigit_ne h (c := '-') (by decide)), scanHexDigits, hbase 'x' (by decide), hbase 'X' (by decide),
    Bool.or_self, List.takeWhile_cons, hexVal_hexDigit _ h, hexVal_hexDigit _ l, hc, Option.isSome_some,
    Option.isSome_none, if_true, List.foldl_cons, List.foldl_nil, Option.getD_some, Nat.mul_zero, Nat.zero_add, hvalue,
    strtoul, if_neg hsmall]
  exact congrArg some (UInt32.toNat_inj.mp (by
    rw [UInt8.toNat_toUInt32, UInt32.toNat_ofNat_of_lt' (Nat.lt_trans b.toNat_lt (by decide))]))

theorem takeWhile_isDigit_fmtU (n : Nat) {s : List Char} (hs : s.takeWhile Char.isDigit = []) :
    (fmtU n ++ s).takeWhile Char.isDigit = fmtU n := by
  rw [List.takeWhile_append_of_pos fun c hc => isDigit_fmtU hc, hs, List.append_nil]

/-- A `%u` number scans back, if no digit follows it. -/
theorem scanU_fmtU (n : UInt32) {s : List Char} (hs : s.takeWhile Char.isDigit = []) :
    scanU (fmtU n.toNat ++ s) = some n := by
  have hd := takeWhile_isDigit_fmtU n.toNat hs
  have hv : Nat.ofDigitChars 10 (fmtU n.toNat) 0 = n.toNat := Nat.ofDigitChars_ten_toDigits
  obtain ⟨c, cs, hc⟩ := List.exists_cons_of_ne_nil (fmtU_ne_nil n.toNat)
  have hdig : c.isDigit = true := isDigit_fmtU (n := n.toNat) (by rw [hc]; exact List.mem_cons_self)
  have hsp : isspace c = false ∧ c ≠ '+' ∧ c ≠ '-' := by
    refine ⟨?_, ?_, ?_⟩
    · simp only [isspace, Bool.or_eq_false_iff, decide_eq_false_iff_not]
      refine ⟨⟨⟨⟨⟨?_, ?_⟩, ?_⟩, ?_⟩, ?_⟩, ?_⟩ <;> rintro rfl <;> exact absurd hdig (by decide)
    all_goals rintro rfl; exact absurd hdig (by decide)
  have hsmall : ¬2 ^ 64 ≤ n.toNat := by
    have := n.toNat_lt
    omega
  rw [hc, List.cons_append] at hd ⊢
  simp only [scanU, List.dropWhile_cons, hsp.1, Bool.false_eq_true, if_false, if_neg hsp.2.1,
    if_neg hsp.2.2, scanDigits, hd]
  rw [hc] at hv
  rw [hv, strtoul, if_neg hsmall, if_neg Bool.false_ne_true, UInt32.ofNat_toNat]

/-! ## Searching -/

/-- `strchr(s, c)`: the text from the first `c` on. -/
def strchr (c : Char) : List Char → Option (List Char)
  | [] => none
  | d :: s => if d = c then some (d :: s) else strchr c s

/-- `strstr(s, pat)`: the text from the first occurrence of `pat` on. -/
def strstr (pat : List Char) : List Char → Option (List Char)
  | [] => if pat = [] then some [] else none
  | c :: s => if pat.isPrefixOf (c :: s) then some (c :: s) else strstr pat s

theorem strchr_append {c : Char} {a : List Char} (h : c ∉ a) (s : List Char) :
    strchr c (a ++ c :: s) = some (c :: s) := by
  induction a with
  | nil => simp [strchr]
  | cons d a ih =>
    simp only [List.mem_cons, not_or] at h
    simp only [List.cons_append, strchr, if_neg (Ne.symm h.1), ih h.2]

theorem strchr_eq_none {c : Char} {s : List Char} (h : c ∉ s) : strchr c s = none := by
  induction s with
  | nil => rfl
  | cons d s ih =>
    simp only [List.mem_cons, not_or] at h
    simp only [strchr, if_neg (Ne.symm h.1), ih h.2]

/-- A pattern is first found behind text without its first character. -/
theorem strstr_append {c : Char} {pat a : List Char} (h : c ∉ a) (s : List Char) :
    strstr (c :: pat) (a ++ c :: (pat ++ s)) = some (c :: (pat ++ s)) := by
  induction a with
  | nil => simp [strstr]
  | cons d a ih =>
    simp only [List.mem_cons, not_or] at h
    have hp : (c :: pat).isPrefixOf (d :: (a ++ c :: (pat ++ s))) = false := by
      simp [List.isPrefixOf, h.1]
    simp only [List.cons_append, strstr, hp, Bool.false_eq_true, if_false, ih h.2]

/-- What `strstr` finds is an infix. -/
theorem strstr_isSome_iff {pat s : List Char} : (strstr pat s).isSome = true ↔ pat <:+: s := by
  induction s with
  | nil =>
    rw [strstr, List.infix_nil]
    split
    · rename_i hpat
      simp [hpat]
    · rename_i hpat
      simp [hpat]
  | cons c s ih =>
    rw [strstr, List.infix_cons_iff, ← ih, ← List.isPrefixOf_iff_prefix]
    split
    · rename_i hpat
      simp [hpat]
    · rename_i hpat
      simp [hpat]

/-! ## Reading lines -/

/-- At most `m` characters, up to the first newline and with it. -/
def readLine : Nat → List Char → List Char
  | 0, _ => []
  | _ + 1, [] => []
  | m + 1, c :: s => if c = '\n' then [c] else c :: readLine m s

/-- `fgets(line, size, fp)` where the rest of the file is `s`; no characters
stand for the NULL of the end of the file. -/
def fgets (size : Nat) (s : List Char) : List Char := readLine (size - 1) s

/-- The results of `fgets`, one after the other, up to the end of the file;
each takes at least one character, so `fuel` calls read as many. -/
def fgetsUpTo (size : Nat) : Nat → List Char → List (List Char)
  | 0, _ => []
  | _ + 1, [] => []
  | fuel + 1, c :: s =>
    let line := fgets size (c :: s)
    line :: fgetsUpTo size fuel ((c :: s).drop line.length)

/-- The results of `fgets` up to the end of the file. -/
def fgetsAll (size : Nat) (s : List Char) : List (List Char) := fgetsUpTo size s.length s

@[simp] theorem readLine_nil (m : Nat) : readLine m [] = [] := by cases m <;> rfl

theorem readLine_ne_nil {m : Nat} (hm : 0 < m) {s : List Char} (hs : s ≠ []) : readLine m s ≠ [] := by
  obtain ⟨m, rfl⟩ := Nat.exists_eq_succ_of_ne_zero (Nat.ne_of_gt hm)
  obtain ⟨c, s, rfl⟩ := List.exists_cons_of_ne_nil hs
  by_cases hc : c = '\n' <;> simp [readLine, hc]

/-- A line read is a prefix of what there is to read. -/
theorem readLine_append_drop (m : Nat) (s : List Char) :
    readLine m s ++ s.drop (readLine m s).length = s := by
  induction m generalizing s with
  | zero => simp [readLine]
  | succ m ih =>
    cases s with
    | nil => simp [readLine]
    | cons c s => by_cases hc : c = '\n' <;> simp [readLine, hc, ih]

/-- The line read of a prefix is the prefix of the line read. -/
theorem readLine_take (m k : Nat) (s : List Char) : readLine m (s.take k) = (readLine m s).take k := by
  induction m generalizing s k with
  | zero => simp [readLine]
  | succ m ih =>
    cases s with
    | nil => simp [readLine]
    | cons c s =>
      cases k with
      | zero => simp [readLine]
      | succ k => by_cases hc : c = '\n' <;> simp [readLine, hc, ih]

/-- What follows the newline, or the first `m` characters, is not read. -/
theorem readLine_append {m : Nat} {s : List Char} (h : '\n' ∈ s ∨ m ≤ s.length) (t : List Char) :
    readLine m (s ++ t) = readLine m s := by
  induction m generalizing s with
  | zero => simp [readLine]
  | succ m ih =>
    cases s with
    | nil => simp at h
    | cons c s =>
      by_cases hc : c = '\n'
      · simp [readLine, hc]
      · have h' : '\n' ∈ s ∨ m ≤ s.length := by
          rcases h with h | h
          · exact .inl ((List.mem_cons.mp h).resolve_left (Ne.symm hc))
          · exact .inr (by simpa using h)
        simp [readLine, hc, ih h']

/-- Text without a newline is read up to `m` characters. -/
theorem readLine_of_not_mem {m : Nat} {s : List Char} (h : '\n' ∉ s) : readLine m s = s.take m := by
  induction m generalizing s with
  | zero => simp [readLine]
  | succ m ih =>
    cases s with
    | nil => simp [readLine]
    | cons c s =>
      simp only [List.mem_cons, not_or] at h
      simp [readLine, Ne.symm h.1, ih h.2]

/-- A line that fits is read whole. -/
theorem readLine_line {m : Nat} {s : List Char} (h : '\n' ∉ s) (hm : s.length < m) :
    readLine m (s ++ ['\n']) = s ++ ['\n'] := by
  induction m generalizing s with
  | zero => omega
  | succ m ih =>
    cases s with
    | nil => simp [readLine]
    | cons c s =>
      simp only [List.mem_cons, not_or] at h
      simp only [List.length_cons] at hm
      simp [readLine, Ne.symm h.1, ih h.2 (by omega)]

theorem fgetsUpTo_eq_fgetsAll {size : Nat} (hsize : 1 < size) {fuel : Nat} {s : List Char}
    (h : s.length ≤ fuel) : fgetsUpTo size fuel s = fgetsAll size s := by
  have main : ∀ f g (t : List Char), t.length ≤ f → t.length ≤ g →
      fgetsUpTo size f t = fgetsUpTo size g t := by
    intro f
    induction f with
    | zero =>
      intro g t hf _
      rw [List.length_eq_zero_iff.mp (Nat.le_zero.mp hf)]
      cases g <;> rfl
    | succ f ih =>
      intro g t hf hg
      cases t with
      | nil => cases g <;> rfl
      | cons c t =>
        cases g with
        | zero => simp at hg
        | succ g =>
          have hne : fgets size (c :: t) ≠ [] := readLine_ne_nil (by omega) (List.cons_ne_nil c t)
          have hpos := List.length_pos_iff.mpr hne
          simp only [List.length_cons] at hf hg
          simp only [fgetsUpTo]
          rw [ih g _ (by simp only [List.length_drop, List.length_cons]; omega)
            (by simp only [List.length_drop, List.length_cons]; omega)]
  exact main fuel s.length s h (Nat.le_refl _)

@[simp] theorem fgetsAll_nil (size : Nat) : fgetsAll size [] = [] := rfl

/-- One call and the rest. -/
theorem fgetsAll_eq {size : Nat} (hsize : 1 < size) {s : List Char} (hs : s ≠ []) :
    fgetsAll size s = fgets size s :: fgetsAll size (s.drop (fgets size s).length) := by
  obtain ⟨c, s, rfl⟩ := List.exists_cons_of_ne_nil hs
  have hpos := List.length_pos_iff.mpr (readLine_ne_nil (m := size - 1) (by omega) (List.cons_ne_nil c s))
  have h : (s.drop ((fgets size (c :: s)).length - 1)).length ≤ s.length := by simp
  show fgetsUpTo size (s.length + 1) (c :: s) = _
  simp only [fgetsUpTo]
  rw [fgetsUpTo_eq_fgetsAll hsize]
  simp only [fgets, List.length_drop, List.length_cons] at hpos ⊢
  omega

/-- The pieces make up the file. -/
theorem fgetsAll_flatten {size : Nat} (hsize : 1 < size) (s : List Char) : (fgetsAll size s).flatten = s := by
  induction hn : s.length using Nat.strongRecOn generalizing s with
  | _ n ih =>
    by_cases hs : s = []
    · simp [hs]
    · have hpos := List.length_pos_iff.mpr (readLine_ne_nil (m := size - 1) (by omega) hs)
      have hlen := List.length_pos_iff.mpr hs
      rw [fgetsAll_eq hsize hs, List.flatten_cons, ih _ _ _ rfl, fgets, readLine_append_drop]
      simp only [fgets, List.length_drop]
      omega

theorem ne_nil_of_mem_fgetsAll {size : Nat} (hsize : 1 < size) {s line : List Char}
    (h : line ∈ fgetsAll size s) : line ≠ [] := by
  induction hn : s.length using Nat.strongRecOn generalizing s with
  | _ n ih =>
    by_cases hs : s = []
    · simp [hs] at h
    · have hpos := List.length_pos_iff.mpr (readLine_ne_nil (m := size - 1) (by omega) hs)
      have hlen := List.length_pos_iff.mpr hs
      rw [fgetsAll_eq hsize hs, List.mem_cons] at h
      rcases h with rfl | h
      · exact readLine_ne_nil (by omega) hs
      · exact ih _ (by simp only [fgets, List.length_drop]; omega) h rfl

/-- A file cut behind one of its pieces has the pieces up to there. -/
theorem fgetsAll_take {size : Nat} (hsize : 1 < size) {s : List Char} {cs ds : List (List Char)}
    (h : fgetsAll size s = cs ++ ds) : fgetsAll size (s.take cs.flatten.length) = cs := by
  induction cs generalizing s with
  | nil => simp
  | cons c cs ih =>
    have hs : s ≠ [] := by rintro rfl; simp at h
    rw [fgetsAll_eq hsize hs, List.cons_append, List.cons.injEq] at h
    obtain ⟨hc, hrest⟩ := h
    have hne : c ≠ [] := hc ▸ readLine_ne_nil (by omega) hs
    have hlen : (c :: cs).flatten.length = c.length + cs.flatten.length := by simp
    have hread : fgets size (s.take (c.length + cs.flatten.length)) = c := by
      rw [fgets, readLine_take]
      rw [fgets] at hc
      rw [hc, List.take_of_length_le (by omega)]
    have htake : s.take (c.length + cs.flatten.length) ≠ [] := by
      intro e
      rw [e] at hread
      exact hne (by rw [← hread, fgets, readLine_nil])
    rw [hlen, fgetsAll_eq hsize htake, hread, List.drop_take]
    rw [hc] at hrest
    rw [show c.length + cs.flatten.length - c.length = cs.flatten.length by omega, ih hrest]

/-- What follows one of its pieces has the pieces that follow it. -/
theorem fgetsAll_drop {size : Nat} (hsize : 1 < size) {s : List Char} {cs ds : List (List Char)}
    (h : fgetsAll size s = cs ++ ds) : fgetsAll size (s.drop cs.flatten.length) = ds := by
  induction cs generalizing s with
  | nil => simpa using h
  | cons c cs ih =>
    have hs : s ≠ [] := by rintro rfl; simp at h
    rw [fgetsAll_eq hsize hs, List.cons_append, List.cons.injEq] at h
    obtain ⟨hc, hrest⟩ := h
    rw [hc] at hrest
    rw [List.flatten_cons, List.length_append, ← List.drop_drop]
    exact ih hrest

/-- A line that fits is one piece. -/
theorem fgetsAll_singleton {size : Nat} {s : List Char} (h : '\n' ∉ s) (hfit : s.length < size - 1) :
    fgetsAll size (s ++ ['\n']) = [s ++ ['\n']] := by
  have hread : fgets size (s ++ ['\n']) = s ++ ['\n'] := readLine_line h hfit
  rw [fgetsAll_eq (by omega) (by simp), hread, List.drop_length, fgetsAll_nil]

/-- Two files joined behind a newline have the pieces of both. -/
theorem fgetsAll_append {size : Nat} (hsize : 1 < size) {s : List Char} (h : s = [] ∨ s.getLast? = some '\n')
    (t : List Char) : fgetsAll size (s ++ t) = fgetsAll size s ++ fgetsAll size t := by
  induction hn : s.length using Nat.strongRecOn generalizing s with
  | _ n ih =>
    by_cases hs : s = []
    · simp [hs]
    · have hl := h.resolve_left hs
      have hmem : '\n' ∈ s := List.mem_of_getLast? hl
      have hread : fgets size (s ++ t) = fgets size s := readLine_append (.inl hmem) t
      have hsplit := readLine_append_drop (size - 1) s
      have hle : (fgets size s).length ≤ s.length := by
        have := congrArg List.length hsplit
        simp only [List.length_append, List.length_drop] at this
        simp only [fgets]; omega
      have hpos := List.length_pos_iff.mpr (readLine_ne_nil (m := size - 1) (by omega) hs)
      have hlen := List.length_pos_iff.mpr hs
      rw [fgetsAll_eq hsize (by simp [hs]), fgetsAll_eq hsize hs, hread, List.drop_append_of_le_length hle,
        List.cons_append]
      congr 1
      refine ih (s.drop (fgets size s).length).length ?_ ?_ rfl
      · simp only [fgets, List.length_drop]; omega
      · by_cases hd : s.drop (fgets size s).length = []
        · exact .inl hd
        · refine .inr ?_
          rw [List.getLast?_drop, if_neg (by simpa using hd), hl]

/-- Lines that fit are read one by one. -/
theorem fgetsAll_lines {size : Nat} {lines : List (List Char)}
    (h : ∀ l ∈ lines, ∃ body, l = body ++ ['\n'] ∧ '\n' ∉ body ∧ l.length < size) :
    fgetsAll size lines.flatten = lines := by
  induction lines with
  | nil => rfl
  | cons line lines ih =>
    have hrest := ih fun l hl => h l (List.mem_cons_of_mem _ hl)
    obtain ⟨body, rfl, hbody, hlen⟩ := h line List.mem_cons_self
    rw [List.length_append, List.length_singleton] at hlen
    rw [List.flatten_cons, fgetsAll_append (by omega) (.inr List.getLast?_concat), hrest,
      fgetsAll_singleton hbody (by omega), List.singleton_append]

end Dtu.Stdio
