import Mathlib.Algebra.BigOperators.Group.Finset.Defs
import Mathlib.Algebra.Order.BigOperators.Group.Finset
import Mathlib.Computability.StateTransition

/-!
# Queues drained by calls

A call takes from the front of each of several queues and moves the state on. It is
never blocked from `s` on (`Served`) when every call with work left gets some done,
and after finitely many calls no work is left. Where the items that a call can never
take are known (`Drain`), that is exactly the case when none of them waits, and every
call on the way has room for what it takes (`Drain.served_iff`).
-/

namespace Dtu

open StateTransition

variable {σ ι α : Type} {f : σ → Option σ}

/-- A call that leaves the state as it is blocks all that follow. -/
theorem eq_of_reaches {s s' : σ} (hstay : ∀ t, f s = some t → t = s) (h : Reaches f s s') : s' = s := by
  induction h with
  | refl => rfl
  | tail _ hstep ih => exact hstay _ (ih ▸ hstep)

/-- From `s` on, every call gets on while work is left, and in the end none is left. -/
structure Served (f : σ → Option σ) (busy gets : σ → Prop) (s : σ) : Prop where
  gets : ∀ s', Reaches f s s' → busy s' → gets s'
  passed : ∃ s', Reaches f s s' ∧ ¬busy s'

/-- What waits holds work. -/
def Busy (rest : σ → ι → List α) (work : α → Prop) (s : σ) : Prop := ∃ i, ∃ a ∈ rest s i, work a

/-- Calls take items from the front of the queues `rest s`, but never a `bad` one.
Without a bad one and with room (`fits`) a call shortens some queue while there is
work; without room, or without work, it leaves the state as it is. -/
structure Drain (f : σ → Option σ) (rest : σ → ι → List α) (work bad : α → Prop) (fits : σ → Prop) : Prop where
  work_of_bad : ∀ a, bad a → work a
  taken : ∀ {s s'}, f s = some s' → ∀ i, ∃ k, rest s' i = (rest s i).drop k ∧ ∀ a ∈ (rest s i).take k, ¬bad a
  advance : ∀ {s}, (∀ i, ∀ a ∈ rest s i, ¬bad a) → fits s → Busy rest work s →
    ∃ s', f s = some s' ∧ ∃ i, (rest s' i).length < (rest s i).length
  idle : ∀ {s s'}, ¬Busy rest work s → f s = some s' → s' = s
  stall : ∀ {s}, ¬fits s → Busy rest work s ∧ ∀ s', f s = some s' → s' = s

namespace Drain

variable {rest : σ → ι → List α} {work bad : α → Prop} {fits : σ → Prop}

/-- A bad item stays. -/
theorem mem_of_reaches (h : Drain f rest work bad fits) {s s' : σ} (hs : Reaches f s s') {i : ι} {a : α}
    (ha : a ∈ rest s i) (hbad : bad a) : a ∈ rest s' i := by
  induction hs with
  | refl => exact ha
  | @tail t t' _ hstep ih =>
    obtain ⟨k, hrest, htaken⟩ := h.taken hstep i
    rw [← List.take_append_drop k (rest t i)] at ih
    rw [hrest]
    exact (List.mem_append.mp ih).resolve_left fun hmem => htaken a hmem hbad

/-- Without bad items, none appears. -/
theorem not_bad_of_reaches (h : Drain f rest work bad fits) {s s' : σ} (hs : Reaches f s s')
    (hgood : ∀ i, ∀ a ∈ rest s i, ¬bad a) : ∀ i, ∀ a ∈ rest s' i, ¬bad a := by
  induction hs with
  | refl => exact hgood
  | tail _ hstep ih =>
    intro i a ha
    obtain ⟨k, hrest, -⟩ := h.taken hstep i
    rw [hrest] at ha
    exact ih i a (List.mem_of_mem_drop ha)

/-- As each call shortens a queue, the calls come to an end of the work. -/
theorem passed [Fintype ι] (h : Drain f rest work bad fits) {s : σ} (hgood : ∀ i, ∀ a ∈ rest s i, ¬bad a)
    (hfits : ∀ s', Reaches f s s' → fits s') : ∃ s', Reaches f s s' ∧ ¬Busy rest work s' := by
  induction hn : ∑ i, (rest s i).length using Nat.strong_induction_on generalizing s with
  | _ n ih =>
    by_cases hbusy : Busy rest work s
    · obtain ⟨s₁, hstep, i, hlt⟩ := h.advance hgood (hfits s .refl) hbusy
      have hreach : Reaches f s s₁ := .single hstep
      have hsum : ∑ i, (rest s₁ i).length < ∑ i, (rest s i).length := by
        refine Finset.sum_lt_sum (fun j _ => ?_) ⟨i, Finset.mem_univ i, hlt⟩
        obtain ⟨k, hrest, -⟩ := h.taken hstep j
        rw [hrest, List.length_drop]
        exact Nat.sub_le _ _
      obtain ⟨s', hs', hidle⟩ := ih _ (hn ▸ hsum) (h.not_bad_of_reaches hreach hgood)
        (fun s' hs' => hfits s' (hreach.trans hs')) rfl
      exact ⟨s', hreach.trans hs', hidle⟩
    · exact ⟨s, .refl, hbusy⟩

/-- The calls get all the work done just when no bad item waits and every call on the
way has room. -/
theorem served_iff [Fintype ι] (h : Drain f rest work bad fits) {gets : σ → Prop}
    (hgets : ∀ s s', Busy rest work s → f s = some s' → s' ≠ s → gets s) (s : σ) :
    Served f (Busy rest work) gets s ↔
      (∀ i, ∀ a ∈ rest s i, ¬bad a) ∧ ∀ s', Reaches f s s' → fits s' := by
  constructor
  · rintro ⟨-, s₁, hs₁, hidle⟩
    refine ⟨fun i a ha hbad => hidle ⟨i, a, h.mem_of_reaches hs₁ ha hbad, h.work_of_bad a hbad⟩, fun s' hs' => ?_⟩
    -- A call without room would be the last that does anything, or come behind it.
    refine Classical.byContradiction fun hno => ?_
    obtain ⟨hbusy, hstay⟩ := h.stall hno
    rcases reaches_total hs' hs₁ with hlate | hearly
    · exact hidle (eq_of_reaches hstay hlate ▸ hbusy)
    · exact hidle (eq_of_reaches (fun t => h.idle hidle) hearly ▸ hbusy)
  · rintro ⟨hgood, hfits⟩
    refine ⟨fun s' hs' hbusy => ?_, h.passed hgood hfits⟩
    obtain ⟨t, hstep, i, hlt⟩ := h.advance (h.not_bad_of_reaches hs' hgood) (hfits s' hs') hbusy
    refine hgets s' t hbusy hstep fun heq => ?_
    rw [heq] at hlt
    exact Nat.lt_irrefl _ hlt

end Drain

end Dtu
