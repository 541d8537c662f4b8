import Mathlib

/-!
# Lines

The complete lines of a text and what is behind the last of them, where a line ends at an
item (`linesOf`) or at a pair of them (`linesOfPair`), such as a carriage return and a
newline. A text can be read in pieces, with what is behind the last line of one in front of
the next (`linesOf_append`, `linesOfPair_append`). Without it the lines that follow are
shorter, if there are any (`weight_add_le`). A line may have parts in several pieces
(`linesOfParts`).
-/

namespace Dtu.Lines

variable {α : Type}

/-- An item comes in front of the first line. -/
def consLine (x : α) : List (List α) × List α → List (List α) × List α
  | ([], rest) => ([], x :: rest)
  | (l :: ls, rest) => ((x :: l) :: ls, rest)

theorem fst_consLine_eq_nil {x : α} {r : List (List α) × List α} : (consLine x r).1 = [] ↔ r.1 = [] := by
  obtain ⟨_ | ⟨l, ls⟩, rest⟩ := r
  · exact Iff.rfl
  · exact iff_of_false (List.cons_ne_nil _ _) (List.cons_ne_nil _ _)

theorem snd_consLine {x : α} {r : List (List α) × List α} (h : r.1 ≠ []) : (consLine x r).2 = r.2 := by
  obtain ⟨_ | ⟨l, ls⟩, rest⟩ := r
  · exact absurd rfl h
  · rfl

theorem consLine_append {x : α} {r : List (List α) × List α} (h : r.1 ≠ []) (ls : List (List α)) (rest : List α) :
    consLine x (r.1 ++ ls, rest) = ((consLine x r).1 ++ ls, rest) := by
  obtain ⟨_ | ⟨l, ls⟩, rest⟩ := r
  · exact absurd rfl h
  · rfl

section One

variable (isEnd : α → Bool)

/-- The lines without what ends them, and the rest. -/
def linesOf : List α → List (List α) × List α
  | [] => ([], [])
  | x :: s => if isEnd x then ([] :: (linesOf s).1, (linesOf s).2) else consLine x (linesOf s)

variable {isEnd}

theorem linesOf_end {x : α} (h : isEnd x = true) (s : List α) :
    linesOf isEnd (x :: s) = ([] :: (linesOf isEnd s).1, (linesOf isEnd s).2) := by rw [linesOf, if_pos h]

theorem linesOf_cons {x : α} (h : isEnd x = false) (s : List α) :
    linesOf isEnd (x :: s) = consLine x (linesOf isEnd s) := by
  rw [linesOf, if_neg (by rw [h]; exact Bool.false_ne_true)]

/-- A text without an end has no line. -/
theorem linesOf_of_forall {l : List α} (h : ∀ x ∈ l, isEnd x = false) : linesOf isEnd l = ([], l) := by
  induction l with
  | nil => rfl
  | cons x l ih =>
    rw [linesOf_cons (h x List.mem_cons_self), ih fun y hy => h y (List.mem_cons_of_mem x hy)]
    rfl

/-- A line. -/
theorem linesOf_line {l : List α} (h : ∀ x ∈ l, isEnd x = false) {e : α} (he : isEnd e = true) (s : List α) :
    linesOf isEnd (l ++ e :: s) = (l :: (linesOf isEnd s).1, (linesOf isEnd s).2) := by
  induction l with
  | nil => exact linesOf_end he s
  | cons x l ih =>
    rw [List.cons_append, linesOf_cons (h x List.mem_cons_self), ih fun y hy => h y (List.mem_cons_of_mem x hy)]
    rfl

theorem linesOf_of_fst_eq_nil {s : List α} (h : (linesOf isEnd s).1 = []) : linesOf isEnd s = ([], s) := by
  induction s with
  | nil => rfl
  | cons x s ih =>
    cases hx : isEnd x with
    | true =>
      rw [linesOf_end hx] at h
      cases h
    | false =>
      rw [linesOf_cons hx] at h ⊢
      rw [ih (fst_consLine_eq_nil.mp h)]
      rfl

/-- A text in two pieces. -/
theorem linesOf_append (s t : List α) :
    linesOf isEnd (s ++ t) =
      ((linesOf isEnd s).1 ++ (linesOf isEnd ((linesOf isEnd s).2 ++ t)).1,
        (linesOf isEnd ((linesOf isEnd s).2 ++ t)).2) := by
  induction s with
  | nil => rfl
  | cons x s ih =>
    rw [List.cons_append]
    cases hx : isEnd x with
    | true =>
      rw [linesOf_end hx, linesOf_end hx, ih]
      rfl
    | false =>
      by_cases hlines : (linesOf isEnd s).1 = []
      · have hnil : (linesOf isEnd (x :: s)).1 = [] := by
          rw [linesOf_cons hx]
          exact fst_consLine_eq_nil.mpr hlines
        rw [linesOf_of_fst_eq_nil hnil]
        rfl
      · rw [linesOf_cons hx, linesOf_cons hx, ih, consLine_append hlines, snd_consLine hlines]

theorem linesOf_rest_append (s t : List α) :
    linesOf isEnd ((linesOf isEnd s).2 ++ t) = (linesOf isEnd s).2.foldr consLine (linesOf isEnd t) := by
  induction s with
  | nil => rfl
  | cons x s ih =>
    cases hx : isEnd x with
    | true => rw [linesOf_end hx, ih]
    | false =>
      by_cases hlines : (linesOf isEnd s).1 = []
      · rw [linesOf_of_fst_eq_nil hlines] at ih
        rw [linesOf_cons hx, linesOf_of_fst_eq_nil hlines, consLine, List.cons_append, linesOf_cons hx, ih,
          List.foldr_cons]
      · rw [linesOf_cons hx, snd_consLine hlines, ih]

/-! ## Texts in pieces -/

/-- A part of a line, if it is not empty. -/
def part : List α → List (List α)
  | [] => []
  | x :: s => [x :: s]

/-- A part comes in front of the first line. -/
def consPart : List α → List (List (List α)) × List (List α) → List (List (List α)) × List (List α)
  | [], r => r
  | x :: s, r => consLine (x :: s) r

variable (isEnd) in
/-- The lines of a text that comes in pieces, each as the parts that the pieces have of it,
and the parts of the rest. -/
def linesOfParts : List (List α) → List (List (List α)) × List (List α)
  | [] => ([], [])
  | s :: ss =>
    let r := consPart (linesOf isEnd s).2 (linesOfParts ss)
    ((linesOf isEnd s).1.map part ++ r.1, r.2)

theorem flatten_part (s : List α) : (part s).flatten = s := by
  cases s with
  | nil => rfl
  | cons x s => exact List.append_nil _

/-- Items come in front of the first line. -/
theorem foldr_consLine (s : List α) (r : List (List α) × List α) :
    s.foldr consLine r = match r with
      | ([], rest) => ([], s ++ rest)
      | (l :: ls, rest) => ((s ++ l) :: ls, rest) := by
  induction s with
  | nil => obtain ⟨_ | ⟨l, ls⟩, rest⟩ := r <;> rfl
  | cons x s ih =>
    rw [List.foldr_cons, ih]
    obtain ⟨_ | ⟨l, ls⟩, rest⟩ := r <;> rfl

theorem flatten_consPart (s : List α) (r : List (List (List α)) × List (List α)) :
    ((consPart s r).1.map List.flatten, (consPart s r).2.flatten) =
      s.foldr consLine (r.1.map List.flatten, r.2.flatten) := by
  rw [foldr_consLine]
  cases s with
  | nil => obtain ⟨_ | ⟨l, ls⟩, rest⟩ := r <;> rfl
  | cons x s => obtain ⟨_ | ⟨l, ls⟩, rest⟩ := r <;> rfl

/-- The parts of a line are the line. -/
theorem flatten_linesOfParts (ss : List (List α)) :
    ((linesOfParts isEnd ss).1.map List.flatten, (linesOfParts isEnd ss).2.flatten) = linesOf isEnd ss.flatten := by
  induction ss with
  | nil => rfl
  | cons s ss ih =>
    have hlines : ((linesOf isEnd s).1.map part).map List.flatten = (linesOf isEnd s).1 := by
      rw [List.map_map]
      exact (List.map_congr_left fun l _ => flatten_part l).trans (List.map_id _)
    have hrest := flatten_consPart (linesOf isEnd s).2 (linesOfParts isEnd ss)
    rw [ih, ← linesOf_rest_append] at hrest
    rw [List.flatten_cons, linesOf_append, ← hrest, linesOfParts, List.map_append, hlines]

theorem append_consPart (s : List α) (r : List (List (List α)) × List (List α)) :
    (consPart s r).1.flatten ++ (consPart s r).2 = part s ++ (r.1.flatten ++ r.2) := by
  cases s with
  | nil => rfl
  | cons x s => obtain ⟨_ | ⟨l, ls⟩, rest⟩ := r <;> rfl

/-- The parts, one after another, are those of the pieces. -/
theorem flatMap_linesOfParts (ss : List (List α)) :
    (linesOfParts isEnd ss).1.flatten ++ (linesOfParts isEnd ss).2 =
      ss.flatMap fun s => ((linesOf isEnd s).1 ++ [(linesOf isEnd s).2]).flatMap part := by
  induction ss with
  | nil => rfl
  | cons s ss ih =>
    rw [List.flatMap_cons, ← ih, linesOfParts, List.flatten_append, List.append_assoc, append_consPart,
      List.flatMap_append, List.flatMap_singleton, List.append_assoc]
    rfl

end One

/-- What the lines of pairs take of a text. -/
def weight (ls : List (List α)) : Nat := (ls.map fun l => l.length + 2).sum

theorem weight_cons (l : List α) (ls : List (List α)) : weight (l :: ls) = l.length + 2 + weight ls := by
  rw [weight, List.map_cons, List.sum_cons]
  rfl

theorem eq_nil_of_weight {ls : List (List α)} (h : weight ls ≤ 0) : ls = [] := by
  cases ls with
  | nil => rfl
  | cons l ls =>
    rw [weight_cons] at h
    omega

theorem weight_append (ls ms : List (List α)) : weight (ls ++ ms) = weight ls + weight ms := by
  rw [weight, List.map_append, List.sum_append]
  rfl

theorem weight_consLine (x : α) (r : List (List α) × List α) :
    weight (consLine x r).1 + (consLine x r).2.length = weight r.1 + r.2.length + 1 := by
  obtain ⟨_ | ⟨l, ls⟩, rest⟩ := r
  · rfl
  · simp only [consLine, weight_cons, List.length_cons]
    omega

/-! ## Lines that end in a pair -/

variable [DecidableEq α] (a b : α)

/-- The lines without the pairs that end them, and the rest. -/
def linesOfPair : List α → List (List α) × List α
  | [] => ([], [])
  | [x] => ([], [x])
  | x :: y :: s =>
    if x = a ∧ y = b then ([] :: (linesOfPair s).1, (linesOfPair s).2) else consLine x (linesOfPair (y :: s))

variable {a b}

theorem linesOfPair_pair (s : List α) :
    linesOfPair a b (a :: b :: s) = ([] :: (linesOfPair a b s).1, (linesOfPair a b s).2) := by
  rw [linesOfPair, if_pos ⟨rfl, rfl⟩]

theorem linesOfPair_cons {x : α} {s : List α} (h : ¬(x = a ∧ s.head? = some b)) :
    linesOfPair a b (x :: s) = consLine x (linesOfPair a b s) := by
  cases s with
  | nil => rfl
  | cons y s => rw [linesOfPair, if_neg (by simpa using h)]

/-- A text begins with a pair or not. -/
theorem pair_or_not (a b x : α) (s : List α) : (∃ t, x = a ∧ s = b :: t) ∨ ¬(x = a ∧ s.head? = some b) := by
  by_cases h : x = a ∧ s.head? = some b
  · obtain ⟨hx, hs⟩ := h
    obtain ⟨t, rfl⟩ := List.head?_eq_some_iff.mp hs
    exact Or.inl ⟨t, hx, rfl⟩
  · exact Or.inr h

theorem linesOfPair_of_fst_eq_nil {s : List α} (h : (linesOfPair a b s).1 = []) : linesOfPair a b s = ([], s) := by
  induction s with
  | nil => rfl
  | cons x s ih =>
    obtain ⟨t, rfl, rfl⟩ | hcons := pair_or_not a b x s
    · rw [linesOfPair_pair] at h
      cases h
    · rw [linesOfPair_cons hcons] at h ⊢
      rw [ih (fst_consLine_eq_nil.mp h)]
      rfl

/-- A text in two pieces. -/
theorem linesOfPair_append (s t : List α) :
    linesOfPair a b (s ++ t) =
      ((linesOfPair a b s).1 ++ (linesOfPair a b ((linesOfPair a b s).2 ++ t)).1,
        (linesOfPair a b ((linesOfPair a b s).2 ++ t)).2) := by
  induction hn : s.length using Nat.strongRecOn generalizing s with
  | _ n ih =>
    subst hn
    cases hfst : (linesOfPair a b s).1 with
    | nil => rw [linesOfPair_of_fst_eq_nil hfst, List.nil_append]
    | cons l ls =>
      cases s with
      | nil => cases hfst
      | cons x s =>
        obtain ⟨u, rfl, rfl⟩ | hcons := pair_or_not a b x s
        · rw [linesOfPair_pair] at hfst ⊢
          rw [List.cons_append, List.cons_append, linesOfPair_pair,
            ih u.length (by rw [List.length_cons, List.length_cons]; omega) u rfl, ← hfst]
          rfl
        · rw [linesOfPair_cons hcons] at hfst ⊢
          have hcons' : ¬(x = a ∧ (s ++ t).head? = some b) := by
            rintro ⟨rfl, hhead⟩
            cases s with
            | nil => cases hfst
            | cons y s => exact hcons ⟨rfl, hhead⟩
          have hlines : (linesOfPair a b s).1 ≠ [] := by
            rw [ne_eq, ← fst_consLine_eq_nil, hfst]
            exact List.cons_ne_nil l ls
          rw [List.cons_append, linesOfPair_cons hcons', ih s.length (Nat.lt_succ_self _) s rfl, consLine_append hlines,
            hfst, snd_consLine hlines]

/-- Behind the last pair there is none. -/
theorem linesOfPair_rest (s : List α) : (linesOfPair a b (linesOfPair a b s).2).1 = [] := by
  have h := congrArg Prod.fst (@linesOfPair_append _ _ a b s [])
  rw [List.append_nil, List.append_nil] at h
  exact List.self_eq_append_right.mp h

theorem linesOfPair_rest_suffix (s : List α) : (linesOfPair a b s).2 <:+ s := by
  induction hn : s.length using Nat.strongRecOn generalizing s with
  | _ n ih =>
    subst hn
    cases s with
    | nil => exact List.suffix_rfl
    | cons x s =>
      obtain ⟨t, rfl, rfl⟩ | hcons := pair_or_not a b x s
      · rw [linesOfPair_pair]
        have ht := ih t.length (by rw [List.length_cons, List.length_cons]; omega) t rfl
        exact (ht.trans (List.suffix_cons _ _)).trans (List.suffix_cons _ _)
      · by_cases hlines : (linesOfPair a b s).1 = []
        · rw [linesOfPair_cons hcons, linesOfPair_of_fst_eq_nil hlines]
          exact List.suffix_rfl
        · rw [linesOfPair_cons hcons, snd_consLine hlines]
          exact (ih s.length (Nat.lt_succ_self _) s rfl).trans (List.suffix_cons _ _)

/-- What a text has beside its lines. -/
theorem weight_add_length (s : List α) :
    weight (linesOfPair a b s).1 + (linesOfPair a b s).2.length = s.length := by
  induction hn : s.length using Nat.strongRecOn generalizing s with
  | _ n ih =>
    subst hn
    cases s with
    | nil => rfl
    | cons x s =>
      obtain ⟨t, rfl, rfl⟩ | hcons := pair_or_not a b x s
      · have h := ih t.length (by rw [List.length_cons, List.length_cons]; omega) t rfl
        rw [linesOfPair_pair]
        simp only [weight_cons, List.length_cons, List.length_nil]
        omega
      · rw [linesOfPair_cons hcons, weight_consLine, ih s.length (Nat.lt_succ_self _) s rfl]
        rfl

/-- A line is one of any text that it ends. -/
theorem fst_append_ne_nil {t : List α} (h : (linesOfPair a b t).1 ≠ []) (s : List α) :
    (linesOfPair a b (s ++ t)).1 ≠ [] := by
  induction s with
  | nil => exact h
  | cons x s ih =>
    rw [List.cons_append]
    obtain ⟨u, rfl, hu⟩ | hcons := pair_or_not a b x (s ++ t)
    · rw [hu, linesOfPair_pair]
      exact List.cons_ne_nil _ _
    · rw [linesOfPair_cons hcons, ne_eq, fst_consLine_eq_nil]
      exact ih

/-- A text without a line in front of another: what is behind the last pair is behind the
last pair of the other, if there is one. -/
theorem length_rest_append_le (hab : a ≠ b) {s t : List α} (hs : (linesOfPair a b s).1 = [])
    (hst : (linesOfPair a b (s ++ t)).1 ≠ []) :
    (linesOfPair a b (s ++ t)).2.length ≤ (linesOfPair a b t).2.length := by
  induction s with
  | nil => exact Nat.le_refl _
  | cons x s ih =>
    rw [List.cons_append] at hst ⊢
    obtain ⟨u, rfl, hu⟩ | hcons := pair_or_not a b x (s ++ t)
    · cases s with
      | nil =>
        -- One item of the pair is in each.
        obtain rfl : t = b :: u := hu
        have hu : ¬(b = x ∧ u.head? = some b) := fun h => hab h.1.symm
        rw [List.nil_append, linesOfPair_pair, linesOfPair_cons hu]
        by_cases hlines : (linesOfPair x b u).1 = []
        · rw [linesOfPair_of_fst_eq_nil hlines]
          exact Nat.le_succ _
        · rw [snd_consLine hlines]
      | cons y s =>
        rw [List.cons_append, List.cons.injEq] at hu
        obtain ⟨rfl, -⟩ := hu
        rw [linesOfPair_pair] at hs
        cases hs
    · have hs' : ¬(x = a ∧ s.head? = some b) := by
        rintro ⟨rfl, hhead⟩
        obtain ⟨u, rfl⟩ := List.head?_eq_some_iff.mp hhead
        exact hcons ⟨rfl, rfl⟩
      rw [linesOfPair_cons hs', fst_consLine_eq_nil] at hs
      rw [linesOfPair_cons hcons, ne_eq, fst_consLine_eq_nil] at hst
      rw [linesOfPair_cons hcons, snd_consLine hst]
      exact ih hs hst

/-- So there is less in the lines without it. -/
theorem weight_add_le (hab : a ≠ b) {s t : List α} (hs : (linesOfPair a b s).1 = [])
    (hst : (linesOfPair a b (s ++ t)).1 ≠ []) :
    weight (linesOfPair a b t).1 + s.length ≤ weight (linesOfPair a b (s ++ t)).1 := by
  have hle := length_rest_append_le hab hs hst
  have ht := @weight_add_length _ _ a b t
  have hsum := @weight_add_length _ _ a b (s ++ t)
  rw [List.length_append] at hsum
  omega

theorem weight_le_append (hab : a ≠ b) {s : List α} (hs : (linesOfPair a b s).1 = []) (t : List α) :
    weight (linesOfPair a b t).1 ≤ weight (linesOfPair a b (s ++ t)).1 := by
  by_cases hst : (linesOfPair a b (s ++ t)).1 = []
  · rw [not_not.mp (mt (fun h => fst_append_ne_nil h s) (not_not_intro hst))]
    exact Nat.zero_le _
  · exact Nat.le_trans (Nat.le_add_right _ _) (weight_add_le hab hs hst)

end Dtu.Lines
