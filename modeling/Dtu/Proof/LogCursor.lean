import Dtu.Framework.Numbers
import Dtu.Impl.LogCursor
import Dtu.Proof.Progress

/-!
# Where the cursors of `parse_log_line` go

A cursor in the line sees what is left of it (`At`); the loops of `parse_log_line` come
to an end and keep their cursors there, so that it is `parseLogLine`
(`parseLogLineAt_eq`). The one step that can leave the line is `p += 2` behind a single
digit at its end. `LastDigit` says of a text that the loop over the bytes comes to such a
digit, `BehindTokens` what the loops before it skip.
-/

namespace Dtu

open Stdio

variable {line s : List Char} {p : Nat} {c : Char}

theorem dropWhile_ne_nul {t : Char} (hnul : '\x00' ∉ s) :
    s.dropWhile (fun c => c ≠ '\x00' ∧ c ≠ t) = s.dropWhile (· ≠ t) := by
  induction s with
  | nil => rfl
  | cons c s ih =>
    rw [List.mem_cons, not_or] at hnul
    rw [List.dropWhile_cons, List.dropWhile_cons, ih hnul.2]
    simp only [ne_eq, Ne.symm hnul.1, not_false_eq_true, true_and]

/-- The two cases of a search for a character. -/
theorem strchr_cases (c : Char) (s : List Char) :
    c ∉ s ∧ strchr c s = none ∧ s.dropWhile (· ≠ c) = [] ∨
      ∃ front rest, c ∉ front ∧ s = front ++ c :: rest ∧ strchr c s = some (c :: rest) ∧
        s.dropWhile (· ≠ c) = c :: rest := by
  by_cases hc : c ∈ s
  · obtain ⟨front, rest, rfl, hfront⟩ := List.eq_append_cons_of_mem hc
    refine .inr ⟨front, rest, hfront, rfl, strchr_append hfront rest, ?_⟩
    rw [List.dropWhile_append_of_pos (by simpa using fun d hd => ne_of_mem_of_not_mem hd hfront)]
    simp
  · refine .inl ⟨hc, strchr_eq_none hc, ?_⟩
    rw [List.dropWhile_eq_nil_iff]
    simpa using fun d hd => ne_of_mem_of_not_mem hd hc

/-! ## The loops -/

/-- The cursor `p` is in the line or at its end, with `s` left. -/
structure At (line : List Char) (p : Nat) (s : List Char) : Prop where
  le : p ≤ line.length
  drop_eq : line.drop p = s

namespace At

theorem start (line : List Char) : At line 0 line := ⟨Nat.zero_le _, rfl⟩

theorem length (h : At line p s) : p + s.length = line.length := by
  rw [← h.drop_eq, List.length_drop]
  have := h.le
  omega

theorem next (h : At line p (c :: s)) : At line (p + 1) s := by
  have hlength := h.length
  rw [List.length_cons] at hlength
  exact ⟨by omega, by rw [← List.drop_drop, h.drop_eq, List.drop_one, List.tail_cons]⟩

/-- At the end of the line is the NUL. -/
theorem charAt_eq (h : At line p s) : charAt line p = some (s.headD '\x00') := by
  have hlength := h.length
  have hdrop := h.drop_eq
  rw [charAt]
  cases s with
  | nil =>
    rw [List.length_nil] at hlength
    obtain rfl : p = line.length := by omega
    rw [List.getElem?_append_right (Nat.le_refl _), Nat.sub_self]
    rfl
  | cons c s =>
    rw [List.length_cons] at hlength
    rw [List.getElem?_append_left (by omega), ← List.head?_drop, hdrop]
    rfl

theorem ne_nul (hnul : '\x00' ∉ line) (h : At line p (c :: s)) : c ≠ '\x00' := by
  rintro rfl
  exact hnul (List.mem_of_mem_drop (h.drop_eq ▸ List.mem_cons_self))

/-- A loop that stops at the NUL. -/
theorem advanceWhile {f : Char → Bool} (hf : f '\x00' = false) {fuel : Nat} (h : At line p s)
    (hfuel : s.length < fuel) : ∃ q, advanceWhile f line fuel p = some q ∧ At line q (s.dropWhile f) := by
  induction fuel generalizing p s with
  | zero => omega
  | succ fuel ih =>
    rw [Dtu.advanceWhile, h.charAt_eq, Option.bind_eq_bind, Option.bind_some]
    cases s with
    | nil =>
      rw [List.headD_nil, hf]
      exact ⟨p, rfl, h⟩
    | cons c s =>
      rw [List.headD_cons, List.dropWhile_cons]
      split
      · exact ih h.next (Nat.lt_of_succ_lt_succ hfuel)
      · exact ⟨p, rfl, h⟩

theorem skipBlanksAt {fuel : Nat} (h : At line p s) (hfuel : s.length < fuel) :
    ∃ q, skipBlanksAt line fuel p = some q ∧ At line q (s.dropWhile (· = ' ')) :=
  h.advanceWhile (by decide) hfuel

theorem strncmpAt {pat : List Char} (hpat : '\x00' ∉ pat) (h : At line p s) :
    strncmpAt line pat p = some (pat.isPrefixOf s) := by
  induction pat generalizing p s with
  | nil => rfl
  | cons d pat ih =>
    rw [List.mem_cons, not_or] at hpat
    rw [Dtu.strncmpAt, h.charAt_eq, Option.bind_eq_bind, Option.bind_some]
    cases s with
    | nil => exact if_neg hpat.1
    | cons c s =>
      rw [List.headD_cons, ih hpat.2 h.next, List.isPrefixOf]
      by_cases hcd : c = d
      · rw [if_pos hcd, hcd, beq_self_eq_true, Bool.true_and]
      · rw [if_neg hcd, beq_eq_false_iff_ne.mpr (Ne.symm hcd), Bool.false_and]

theorem nul_not_mem (hnul : '\x00' ∉ line) (h : At line p s) : '\x00' ∉ s :=
  fun hs => hnul (List.mem_of_mem_drop (h.drop_eq ▸ hs))

/-- A token is at least a character. -/
theorem length_skipToken_lt (h : ['F', '='].isPrefixOf s ∨ ['P', '='].isPrefixOf s) :
    ((s.dropWhile (· ≠ ' ')).dropWhile (· = ' ')).length < s.length := by
  obtain ⟨c, s, rfl, hc⟩ : ∃ c t, s = c :: t ∧ c ≠ ' ' := by
    rcases h with h | h <;> obtain ⟨t, rfl⟩ := List.isPrefixOf_iff_prefix.mp h
    · exact ⟨'F', '=' :: t, rfl, by decide⟩
    · exact ⟨'P', '=' :: t, rfl, by decide⟩
  rw [List.dropWhile_cons_of_pos (by simpa using hc), List.length_cons]
  exact Nat.lt_succ_of_le ((List.length_dropWhile_le _ _).trans (List.length_dropWhile_le _ _))

theorem isTokenAt (h : At line p s) :
    isTokenAt line p = some (decide (['F', '='].isPrefixOf s ∨ ['P', '='].isPrefixOf s)) := by
  rw [Dtu.isTokenAt, h.strncmpAt (by decide), h.strncmpAt (by decide), Option.bind_eq_bind, Option.bind_some]
  cases ['F', '='].isPrefixOf s
  · cases ['P', '='].isPrefixOf s
    · rfl
    · rfl
  · rfl

theorem skipTokensAt {fuel n : Nat} (hnul : '\x00' ∉ line) (h : At line p s) (hfuel : s.length < fuel)
    (hn : s.length ≤ n) : ∃ q, skipTokensAt line fuel p = some q ∧ At line q (skipTokens n s) := by
  induction fuel generalizing p s n with
  | zero => omega
  | succ fuel ih =>
    rw [Dtu.skipTokensAt, h.isTokenAt, Option.bind_eq_bind, Option.bind_some]
    cases n with
    | zero =>
      obtain rfl : s = [] := List.eq_nil_of_length_eq_zero (Nat.le_zero.mp hn)
      exact ⟨p, rfl, h⟩
    | succ n =>
      rw [skipTokens]
      by_cases hword : ['F', '='].isPrefixOf s ∨ ['P', '='].isPrefixOf s
      · have hlt := length_skipToken_lt hword
        obtain ⟨q, hq, hrest⟩ := h.advanceWhile (f := fun c => c ≠ '\x00' ∧ c ≠ ' ') (by decide) hfuel
        rw [dropWhile_ne_nul (h.nul_not_mem hnul)] at hrest
        obtain ⟨r, hr, hblank⟩ := hrest.skipBlanksAt (Nat.lt_of_le_of_lt (List.length_dropWhile_le _ _) hfuel)
        simp only [if_pos hword, if_pos (decide_eq_true hword), hq, hr, Option.bind_eq_bind, Option.bind_some]
        exact ih hblank (by omega) (by omega)
      · rw [if_neg hword, if_neg (mt of_decide_eq_true hword)]
        exact ⟨p, rfl, h⟩

/-- Behind the NUL there is nothing to read. -/
theorem parseBytesAt_out {fuel room : Nat} (hout : line.length < p) : Dtu.parseBytesAt line fuel room p = none := by
  have hread : charAt line p = none := by
    rw [charAt, List.getElem?_eq_none]
    rw [List.length_append, List.length_singleton]
    omega
  cases room with
  | zero =>
    rw [Dtu.parseBytesAt, hread]
    rfl
  | succ room =>
    rw [Dtu.parseBytesAt, hread]
    rfl

/-- The loop over the bytes is `parseBytes`, also where its cursor leaves the line. -/
theorem parseBytesAt {fuel : Nat} (hnul : '\x00' ∉ line) (hfuel : line.length < fuel) (room : Nat) (h : At line p s) :
    parseBytesAt line fuel room p = parseBytes room s := by
  induction room generalizing p s with
  | zero =>
    rw [Dtu.parseBytesAt, h.charAt_eq]
    rfl
  | succ room ih =>
    have hlength := h.length
    rw [Dtu.parseBytesAt, h.charAt_eq, Option.bind_eq_bind, Option.bind_some]
    cases s with
    | nil => exact (parseBytes_nil _).symm
    | cons c s =>
      obtain ⟨q, hq, hblank⟩ := h.skipBlanksAt (show _ < fuel by omega)
      rw [List.headD_cons, if_neg (h.ne_nul hnul), hq, Option.bind_eq_bind, Option.bind_some, hblank.charAt_eq,
        Option.bind_some, hblank.drop_eq, parseBytes]
      generalize (c :: s).dropWhile (· = ' ') = t at hblank
      cases t with
      | nil => rfl
      | cons d t =>
        rw [List.headD_cons, if_neg (hblank.ne_nul hnul)]
        cases t with
        | nil =>
          have hout := hblank.length
          rw [List.length_singleton] at hout
          rw [parseBytesAt_out (by omega)]
          dsimp only
          cases scanX2 [d] with
          | none => rfl
          | some byte => rfl
        | cons e t =>
          have hnext : Dtu.parseBytesAt line fuel room (q + 2) = parseBytes room t := ih hblank.next.next
          dsimp only
          cases scanX2 (d :: e :: t) with
          | none => rfl
          | some byte => exact congrArg (Option.map _) hnext

end At

/-- `parse_log_line` of a C string: it has a result just where the loops stay in the line. -/
theorem parseLogLineAt_eq {fuel : Nat} (hnul : '\x00' ∉ line) (hfuel : line.length < fuel) (maxLen : Nat) :
    parseLogLineAt fuel line maxLen = parseLogLine line maxLen := by
  obtain ⟨p, hp, hfound⟩ := (At.start line).advanceWhile (f := fun c => c ≠ '\x00' ∧ c ≠ ']') (by decide) hfuel
  rw [dropWhile_ne_nul hnul] at hfound
  rw [parseLogLineAt, parseLogLine, hp, Option.bind_eq_bind, Option.bind_some, hfound.charAt_eq, Option.bind_eq_bind,
    Option.bind_some]
  rcases strchr_cases ']' line with ⟨-, hsearch, hdrop⟩ | ⟨front, rest, -, -, hsearch, hdrop⟩
  · rw [hsearch, hdrop]
    rfl
  · rw [hdrop] at hfound ⊢
    have hlength := hfound.next.length
    obtain ⟨q, hq, hblank⟩ := hfound.next.skipBlanksAt (show _ < fuel by omega)
    have hle := hblank.length
    obtain ⟨r, hr, htokens⟩ := hblank.skipTokensAt hnul (show _ < fuel by omega) (Nat.le_refl _)
    rw [List.headD_cons, if_neg (by decide), hq, Option.bind_some, hr, Option.bind_some,
      htokens.parseBytesAt hnul hfuel, hsearch]
    rfl

/-! ## The digit at the end -/

/-- In a text read two characters at a time, blanks before each two, less than `room`
times, a single digit is left at the end. -/
inductive LastDigit : Nat → List Char → Prop where
  | blank {room : Nat} {s : List Char} : LastDigit room s → LastDigit room (' ' :: s)
  | digit {room : Nat} {c : Char} : (hexVal c).isSome → LastDigit (room + 1) [c]
  | byte {room : Nat} {c d : Char} {s : List Char} : c ≠ ' ' → (scanX2 (c :: d :: s)).isSome → LastDigit room s →
    LastDigit (room + 1) (c :: d :: s)

/-- The text `t` is behind the blanks and the words `F=…` and `P=…` at the beginning of `s`. -/
inductive BehindTokens : List Char → List Char → Prop where
  | here {s : List Char} : s.head? ≠ some ' ' → ¬['F', '='] <+: s → ¬['P', '='] <+: s → BehindTokens s s
  | blank {s t : List Char} : BehindTokens s t → BehindTokens (' ' :: s) t
  | token {word s t : List Char} : ['F', '='] <+: word ∨ ['P', '='] <+: word → ' ' ∉ word →
    (s = [] ∨ s.head? = some ' ') → BehindTokens s t → BehindTokens (word ++ s) t

/-- Behind the first `]` of a line and its tokens, less than `max_len` bytes lead to a
single digit at the end of the line. -/
def EndsInDigit (line : List Char) (maxLen : Nat) : Prop :=
  ∃ front rest t, line = front ++ ']' :: rest ∧ ']' ∉ front ∧ BehindTokens rest t ∧ LastDigit maxLen t

/-- `%2x` takes a single character if it is a digit. -/
theorem isSome_scanX2_singleton (c : Char) : (scanX2 [c]).isSome = (hexVal c).isSome := by
  by_cases hspace : isspace c = true
  · rw [scanX2, List.dropWhile_cons_of_pos hspace]
    cases hc : hexVal c with
    | none => rfl
    | some hi =>
      rw [(hexVal_isSome_char (hc ▸ rfl)).1] at hspace
      cases hspace
  · rw [scanX2, List.dropWhile_cons_of_neg hspace]
    dsimp only
    cases hexVal c with
    | none => rfl
    | some hi => rfl

theorem not_lastDigit_zero : ¬LastDigit 0 s := by
  intro h
  generalize hroom : 0 = room at h
  induction h with
  | blank _ ih => exact ih hroom
  | digit | byte => cases hroom

theorem lastDigit_dropWhile {room : Nat} : LastDigit room (s.dropWhile (· = ' ')) ↔ LastDigit room s := by
  induction s with
  | nil => rfl
  | cons c s ih =>
    by_cases hc : c = ' '
    · rw [hc, List.dropWhile_cons_of_pos (by simp), ih]
      constructor
      · exact .blank
      · intro h
        cases h with
        | blank h => exact h
        | digit hdigit => cases hdigit
        | byte hne => exact absurd rfl hne
    · rw [List.dropWhile_cons_of_neg (by simpa using hc)]

/-- The loop over the bytes leaves the line just for a digit at its end. -/
theorem parseBytes_eq_none_iff {room : Nat} : parseBytes room s = none ↔ LastDigit room s := by
  induction room generalizing s with
  | zero => exact iff_of_false (Option.some_ne_none _) not_lastDigit_zero
  | succ room ih =>
    rw [← lastDigit_dropWhile, parseBytes]
    have hhead : ∀ c ∈ (s.dropWhile (· = ' ')).head?, c ≠ ' ' := fun c hc => by
      have hnot := List.head?_dropWhile_not (· = ' ') s
      rw [Option.mem_def.mp hc] at hnot
      simpa using hnot
    generalize s.dropWhile (· = ' ') = t at hhead
    cases t with
    | nil =>
      refine iff_of_false (Option.some_ne_none _) fun h => ?_
      cases h
    | cons c t =>
      have hne := hhead c rfl
      cases t with
      | nil =>
        have hscan := isSome_scanX2_singleton c
        dsimp only
        split
        · rename_i hnone
          rw [hnone] at hscan
          refine iff_of_false (Option.some_ne_none _) fun h => ?_
          cases h with
          | blank => exact hne rfl
          | digit hdigit =>
            rw [← hscan] at hdigit
            cases hdigit
        · rename_i hsome
          rw [hsome] at hscan
          exact iff_of_true rfl (.digit hscan.symm)
      | cons d t =>
        dsimp only
        split
        · rename_i hnone
          refine iff_of_false (Option.some_ne_none _) fun h => ?_
          cases h with
          | blank => exact hne rfl
          | byte _ hscan =>
            rw [hnone] at hscan
            cases hscan
        · rename_i byte hsome
          rw [Option.map_eq_none_iff, ih]
          constructor
          · exact .byte hne (hsome ▸ rfl)
          · intro h
            cases h with
            | blank => exact absurd rfl hne
            | byte _ _ h => exact h

/-- The loop over the tokens goes where `BehindTokens` says. -/
theorem BehindTokens.skipTokens_eq {t : List Char} (h : BehindTokens s t) {n : Nat}
    (hn : (s.dropWhile (· = ' ')).length ≤ n) : skipTokens n (s.dropWhile (· = ' ')) = t := by
  induction h generalizing n with
  | @here s hblank hframe hpart =>
    have hstay : s.dropWhile (· = ' ') = s := by
      cases s with
      | nil => rfl
      | cons c s => exact List.dropWhile_cons_of_neg (by simpa using hblank)
    rw [hstay]
    cases n with
    | zero => rfl
    | succ n => rw [skipTokens, if_neg (by simpa using ⟨hframe, hpart⟩)]
  | blank _ ih =>
    rw [List.dropWhile_cons_of_pos (by simp)] at hn ⊢
    exact ih hn
  | @token word s t hword hfree hend _ ih =>
    have htoken : ['F', '='].isPrefixOf (word ++ s) ∨ ['P', '='].isPrefixOf (word ++ s) := by
      simp only [List.isPrefixOf_iff_prefix]
      exact hword.imp (·.trans (List.prefix_append word s)) (·.trans (List.prefix_append word s))
    have hstay : (word ++ s).dropWhile (· = ' ') = word ++ s := by
      cases word with
      | nil => rcases hword with ⟨_, hword⟩ | ⟨_, hword⟩ <;> cases hword
      | cons c word =>
        refine List.dropWhile_cons_of_neg ?_
        simpa using fun hc : c = ' ' => hfree (hc ▸ List.mem_cons_self)
    have hskip : (word ++ s).dropWhile (· ≠ ' ') = s := by
      rw [List.dropWhile_append_of_pos (by simpa using fun c hc => ne_of_mem_of_not_mem hc hfree)]
      cases s with
      | nil => rfl
      | cons c s => exact List.dropWhile_cons_of_neg (by simpa using hend)
    have hlt := At.length_skipToken_lt htoken
    rw [hskip] at hlt
    rw [hstay] at hn ⊢
    obtain ⟨n, rfl⟩ : ∃ m, n = m + 1 := ⟨n - 1, by omega⟩
    rw [skipTokens, if_pos htoken, hskip]
    exact ih (by omega)

theorem exists_behindTokens (s : List Char) : ∃ t, BehindTokens s t := by
  induction hn : s.length using Nat.strong_induction_on generalizing s with
  | _ n ih =>
    by_cases hblank : s.head? = some ' '
    · obtain ⟨s, rfl⟩ : ∃ r, s = ' ' :: r := List.head?_eq_some_iff.mp hblank
      obtain ⟨t, ht⟩ := ih s.length (by rw [← hn, List.length_cons]; omega) s rfl
      exact ⟨t, .blank ht⟩
    by_cases htoken : ['F', '='] <+: s ∨ ['P', '='] <+: s
    · obtain ⟨c, r, rfl, hc⟩ : ∃ c r, s = c :: '=' :: r ∧ (c = 'F' ∨ c = 'P') := by
        rcases htoken with ⟨r, rfl⟩ | ⟨r, rfl⟩
        · exact ⟨'F', r, rfl, .inl rfl⟩
        · exact ⟨'P', r, rfl, .inr rfl⟩
      have hword : ∀ w, ['F', '='] <+: c :: '=' :: w ∨ ['P', '='] <+: c :: '=' :: w := fun w =>
        hc.imp (fun h => ⟨w, by rw [h]; rfl⟩) fun h => ⟨w, by rw [h]; rfl⟩
      have hfree : ∀ w, ' ' ∉ w → ' ' ∉ c :: '=' :: w := fun w hw => by
        rcases hc with rfl | rfl
        · simpa using hw
        · simpa using hw
      rcases strchr_cases ' ' r with ⟨hr, -⟩ | ⟨w, rest, hw, rfl, -⟩
      · refine ⟨[], ?_⟩
        rw [← List.append_nil (c :: '=' :: r)]
        exact .token (hword r) (hfree r hr) (.inl rfl) (.here (by simp) (by simp) (by simp))
      · obtain ⟨t, ht⟩ := ih (' ' :: rest).length (by simp [← hn]; omega) (' ' :: rest) rfl
        exact ⟨t, .token (hword w) (hfree w hw) (.inr rfl) ht⟩
    · exact ⟨s, .here hblank (fun h => htoken (.inl h)) (fun h => htoken (.inr h))⟩

theorem parseLogLine_eq_none_iff {maxLen : Nat} : parseLogLine line maxLen = none ↔ EndsInDigit line maxLen := by
  rw [parseLogLine]
  rcases strchr_cases ']' line with ⟨hmem, hsearch, -⟩ | ⟨front, rest, hfront, hline, hsearch, -⟩
  · rw [hsearch]
    refine iff_of_false (Option.some_ne_none _) ?_
    rintro ⟨front, rest, t, rfl, -⟩
    exact hmem (List.mem_append_right _ List.mem_cons_self)
  · rw [hsearch]
    dsimp only
    rw [List.tail_cons, parseBytes_eq_none_iff]
    constructor
    · intro h
      obtain ⟨t, ht⟩ := exists_behindTokens rest
      rw [ht.skipTokens_eq (Nat.le_refl _)] at h
      exact ⟨front, rest, t, hline, hfront, ht, h⟩
    · rintro ⟨front', rest', t, hline', hfront', ht, h⟩
      rw [hline', strchr_append hfront', Option.some.injEq, List.cons.injEq] at hsearch
      rw [← hsearch.2, ht.skipTokens_eq (Nat.le_refl _)]
      exact h

/-! ## What is decoded -/

/-- A byte that `parse_log_line` decodes from characters of the line. -/
def DecodedFrom (line : List Char) (b : UInt8) : Prop :=
  ∃ p < line.length, ∃ v, scanX2 (line.drop p) = some v ∧ b = UInt8.ofNat v

theorem decodedFrom_of_parseBytes {room : Nat} {data : List UInt8} (hsuffix : s <:+ line)
    (h : parseBytes room s = some data) : ∀ b ∈ data, DecodedFrom line b := by
  induction room generalizing s data with
  | zero =>
    cases h
    intro b hb
    cases hb
  | succ room ih =>
    have hsuffix := (List.dropWhile_suffix (· = ' ')).trans hsuffix
    rw [parseBytes] at h
    generalize s.dropWhile (· = ' ') = t at h hsuffix
    cases t with
    | nil =>
      cases h
      intro b hb
      cases hb
    | cons c t =>
      dsimp only at h
      split at h
      · cases h
        intro b hb
        cases hb
      rename_i v hscan
      cases t with
      | nil => cases h
      | cons d rest =>
        obtain ⟨data, hdata, rfl⟩ := Option.map_eq_some_iff.mp h
        intro b hb
        rcases List.mem_cons.mp hb with rfl | hb
        · obtain ⟨front, rfl⟩ := hsuffix
          exact ⟨front.length, by simp, v, (congrArg scanX2 List.drop_left).trans hscan, rfl⟩
        · exact ih (((List.suffix_cons d rest).trans (List.suffix_cons c _)).trans hsuffix) hdata b hb

theorem skipTokens_suffix (n : Nat) (s : List Char) : skipTokens n s <:+ s := by
  induction n generalizing s with
  | zero => exact List.suffix_refl s
  | succ n ih =>
    rw [skipTokens]
    split
    · exact ((ih _).trans (List.dropWhile_suffix _)).trans (List.dropWhile_suffix _)
    · exact List.suffix_refl s

theorem decodedFrom_of_parseLogLine {maxLen : Nat} {data : List UInt8} (h : parseLogLine line maxLen = some data) :
    data.length ≤ maxLen ∧ ∀ b ∈ data, DecodedFrom line b := by
  rw [parseLogLine] at h
  rcases strchr_cases ']' line with ⟨-, hsearch, -⟩ | ⟨front, rest, -, hline, hsearch, -⟩
  · rw [hsearch] at h
    cases h
    refine ⟨Nat.zero_le _, fun b hb => ?_⟩
    cases hb
  · rw [hsearch] at h
    have hrest : rest <:+ line := hline ▸ (List.suffix_cons _ rest).trans (List.suffix_append front _)
    exact ⟨length_parseBytes_le h,
      decodedFrom_of_parseBytes (((skipTokens_suffix _ _).trans (List.dropWhile_suffix _)).trans hrest) h⟩

/-- For any line, read in whole or cut by `fgets`, and any size of the buffer. -/
theorem parseLogLineAt_iff {fuel : Nat} (hnul : '\x00' ∉ line) (hfuel : line.length < fuel) (maxLen : Nat) :
    (∃ data, parseLogLineAt fuel line maxLen = some data ∧ data.length ≤ maxLen ∧ ∀ b ∈ data, DecodedFrom line b) ↔
      ¬EndsInDigit line maxLen := by
  rw [parseLogLineAt_eq hnul hfuel, ← parseLogLine_eq_none_iff]
  constructor
  · rintro ⟨data, hdata, -⟩
    rw [hdata]
    exact Option.some_ne_none data
  · intro h
    obtain ⟨data, hdata⟩ := Option.ne_none_iff_exists'.mp h
    exact ⟨data, hdata, decodedFrom_of_parseLogLine hdata⟩

theorem parseLogLineAt_iff_two :
    ∃ data, parseLogLineAt 32 ("[] F=1 P=0/1 0A 0B\n".toList) 256 = some data ∧ data.length ≤ 256 ∧
      ∀ b ∈ data, DecodedFrom ("[] F=1 P=0/1 0A 0B\n".toList) b := by
  refine (parseLogLineAt_iff (by decide) (by decide) 256).mpr ?_
  rw [← parseLogLine_eq_none_iff]
  decide

/-! ## Lines cut by `fgets` -/

theorem fgets_line (r : Record) : fgets packLineSize r.line = r.line.take (packLineSize - 1) := by
  have hpieces := fgetsAll_line r
  rw [fgetsAll_eq (by decide) r.line_ne_nil, linePieces] at hpieces
  exact (List.cons.inj hpieces).1

theorem nul_not_mem_fgets_line (r : Record) : '\x00' ∉ fgets packLineSize r.line :=
  fun h => r.nul_not_mem (List.mem_of_mem_take (fgets_line r ▸ h))

/-- Of the lines that `write_file_thread` makes, `pack_data_from_files` reads those that
way which it cuts in the middle of a byte. -/
theorem endsInDigit_fgets_line (r : Record) : EndsInDigit (fgets packLineSize r.line) 256 ↔ CutInByte r := by
  have hparse := parseLogLine_firstPiece r
  rw [← fgets_line, cstr_of_not_mem (nul_not_mem_fgets_line r)] at hparse
  rw [← parseLogLine_eq_none_iff, hparse]
  split
  · exact iff_of_true rfl ‹_›
  · exact iff_of_false (Option.some_ne_none _) ‹_›

/-- A message of 255 bytes with a frame id of two digits. -/
theorem parseLogLineAt_torn : '\x00' ∉ fgets packLineSize torn.line ∧
    ¬∃ data, parseLogLineAt packLineSize (fgets packLineSize torn.line) 256 = some data ∧ data.length ≤ 256 ∧
      ∀ b ∈ data, DecodedFrom (fgets packLineSize torn.line) b := by
  have hnul := nul_not_mem_fgets_line torn
  have hlen : (fgets packLineSize torn.line).length < packLineSize := by
    rw [fgets_line, List.length_take]
    simp only [packLineSize]
    omega
  have hcut : CutInByte torn := by
    by_contra hwhole
    have hsize := shownSize_torn
    rw [shownSize, if_neg hwhole] at hsize
    cases hsize
  refine ⟨hnul, ?_⟩
  rintro ⟨data, hdata, -⟩
  rw [parseLogLineAt_eq hnul hlen, parseLogLine_eq_none_iff.mpr ((endsInDigit_fgets_line torn).mpr hcut)] at hdata
  cases hdata

end Dtu
