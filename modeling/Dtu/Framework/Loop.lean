import Mathlib.Data.Fin.Tuple.Basic
import Mathlib.Data.List.OfFn
import Mathlib.Data.List.FinRange

/-!
# Loops over the elements of an array

`threadFin f s` is the loop `for (i = 0; i < n; i++)` whose body `f i` reads and
writes a state `s` and one result for `i`; `none` ends it. What one turn does
of a state that represents a list, the loop does (`threadFin_collect`,
`threadFin_exists`); two loops whose turns agree on represented states agree
(`threadFin_map`); and a loop keeps what each turn keeps (`threadFin_invariant`).
-/

namespace Dtu.Loop

variable {σ τ β γ : Type}

/-- The loop over `0, …, n - 1` with a state and one result for each turn. -/
def threadFin : {n : Nat} → (Fin n → σ → Option (σ × β)) → σ → Option (σ × (Fin n → β))
  | 0, _, s => some (s, Fin.elim0)
  | _ + 1, f, s =>
    (f 0 s).bind fun (s₁, b) =>
      (threadFin (fun i => f i.succ) s₁).map fun (s₂, bs) => (s₂, Fin.cons b bs)

/-- A loop with one turn more, taken apart. -/
theorem threadFin_succ {n : Nat} {f : Fin (n + 1) → σ → Option (σ × β)} {s s' : σ} {bs : Fin (n + 1) → β}
    (h : threadFin f s = some (s', bs)) :
    ∃ s₁, f 0 s = some (s₁, bs 0) ∧ threadFin (fun i => f i.succ) s₁ = some (s', fun i => bs i.succ) := by
  simp only [threadFin, Option.bind_eq_some_iff, Option.map_eq_some_iff, Prod.exists, Prod.mk.injEq] at h
  obtain ⟨s₁, b, h0, s₂, bs', h1, rfl, rfl⟩ := h
  exact ⟨s₁, h0, h1⟩

/-- If each turn, from the state of a list `e`, leads to that of `e ++ w i b` with
a result `b` satisfying `Q i e`, the loop collects all the `w i b`, and each turn
starts from a part of what is collected. -/
theorem threadFin_collect_from {n : Nat} {f : Fin n → σ → Option (σ × β)} (φ : List γ → σ) (w : Fin n → β → List γ)
    (Q : Fin n → List γ → β → Prop) (hf : ∀ i e s' b, f i (φ e) = some (s', b) → s' = φ (e ++ w i b) ∧ Q i e b)
    {e : List γ} {s' : σ} {bs : Fin n → β} (h : threadFin f (φ e) = some (s', bs)) :
    s' = φ (e ++ (List.finRange n).flatMap fun i => w i (bs i)) ∧
      ∀ i, ∃ e', e' <+: e ++ ((List.finRange n).flatMap fun i => w i (bs i)) ∧ Q i e' (bs i) := by
  induction n generalizing e s' with
  | zero =>
    simp only [threadFin, Option.some.injEq, Prod.mk.injEq] at h
    exact ⟨by simp [← h.1], fun i => i.elim0⟩
  | succ n ih =>
    obtain ⟨s₁, h0, h1⟩ := threadFin_succ h
    obtain ⟨rfl, hQ⟩ := hf 0 e _ _ h0
    obtain ⟨rfl, hQs⟩ := ih (fun i => w i.succ) (fun i => Q i.succ) (fun i => hf i.succ) h1
    rw [List.finRange_succ, List.flatMap_cons, List.flatMap_map, ← List.append_assoc]
    refine ⟨rfl, Fin.cases ⟨e, ?_, hQ⟩ hQs⟩
    rw [List.append_assoc]
    exact List.prefix_append _ _

theorem threadFin_collect {n : Nat} {f : Fin n → σ → Option (σ × β)} (φ : List γ → σ) (w : Fin n → β → List γ)
    (Q : Fin n → β → Prop) (hf : ∀ i e s' b, f i (φ e) = some (s', b) → s' = φ (e ++ w i b) ∧ Q i b)
    {e : List γ} {s' : σ} {bs : Fin n → β} (h : threadFin f (φ e) = some (s', bs)) :
    s' = φ (e ++ (List.finRange n).flatMap fun i => w i (bs i)) ∧ ∀ i, Q i (bs i) := by
  obtain ⟨hs, hQ⟩ := threadFin_collect_from φ w (fun i _ => Q i) hf h
  exact ⟨hs, fun i => (hQ i).elim fun _ h => h.2⟩

/-- If each turn, from the state of a list `e` with `I e`, does lead to that of
`e ++ w i c`, and `I` holds of it, so does the loop. -/
theorem threadFin_exists {n : Nat} {f : Fin n → σ → Option (σ × β)} {δ : Type} (φ : List γ → σ) (ψ : Fin n → δ → β)
    (w : Fin n → δ → List γ) (Q : Fin n → δ → Prop) (I : List γ → Prop)
    (hf : ∀ i e, I e → ∃ c, f i (φ e) = some (φ (e ++ w i c), ψ i c) ∧ Q i c ∧ I (e ++ w i c)) {e : List γ}
    (he : I e) :
    ∃ cs : Fin n → δ, threadFin f (φ e) =
        some (φ (e ++ (List.finRange n).flatMap fun i => w i (cs i)), fun i => ψ i (cs i)) ∧
      (∀ i, Q i (cs i)) ∧ I (e ++ (List.finRange n).flatMap fun i => w i (cs i)) := by
  induction n generalizing e with
  | zero =>
    refine ⟨Fin.elim0, ?_, fun i => i.elim0, ?_⟩
    · simp only [threadFin, List.finRange_zero, List.flatMap_nil, List.append_nil, Option.some.injEq, Prod.mk.injEq,
        true_and]
      exact funext fun i => i.elim0
    · simpa using he
  | succ n ih =>
    obtain ⟨c, h0, hc, hI⟩ := hf 0 e he
    obtain ⟨cs, h1, hcs, hIs⟩ := ih (fun i => ψ i.succ) (fun i => w i.succ) (fun i => Q i.succ) (fun i => hf i.succ) hI
    refine ⟨Fin.cons c cs, ?_, Fin.cases hc hcs, ?_⟩
    · simp only [threadFin, h0, Option.bind_some, h1, Option.map_some, List.finRange_succ, List.flatMap_cons,
        List.flatMap_map, Fin.cons_zero, Fin.cons_succ, List.append_assoc, Option.some.injEq, Prod.mk.injEq, true_and]
      exact funext fun i => by cases i using Fin.cases <;> rfl
    · simpa only [List.finRange_succ, List.flatMap_cons, List.flatMap_map, Fin.cons_zero, Fin.cons_succ,
        List.append_assoc] using hIs

/-- Loops whose turns agree, up to how the state is represented, agree. -/
theorem threadFin_map {n : Nat} {f : Fin n → σ → Option (σ × β)} {g : Fin n → τ → Option (τ × γ)} (φ : τ → σ)
    (ψ : Fin n → γ → β) (hf : ∀ i t, f i (φ t) = (g i t).map fun (t', c) => (φ t', ψ i c)) (t : τ) :
    threadFin f (φ t) = (threadFin g t).map fun (t', cs) => (φ t', fun i => ψ i (cs i)) := by
  induction n generalizing t with
  | zero =>
    simp only [threadFin, Option.map_some, Option.some.injEq, Prod.mk.injEq, true_and]
    exact funext fun i => i.elim0
  | succ n ih =>
    simp only [threadFin, hf 0 t]
    cases g 0 t with
    | none => rfl
    | some r =>
      simp only [Option.map_some, Option.bind_some]
      rw [ih (fun i => ψ i.succ) (fun i t => hf i.succ t) r.1, Option.map_map, Option.map_map]
      refine congrArg (Option.map · _) (funext fun x => ?_)
      simp only [Function.comp_apply, Prod.mk.injEq, true_and]
      exact funext fun i => by cases i using Fin.cases <;> rfl

/-- What each turn keeps, the loop keeps. -/
theorem threadFin_invariant {n : Nat} {f : Fin n → σ → Option (σ × β)} (P : σ → Prop)
    (hf : ∀ i s s' b, P s → f i s = some (s', b) → P s') {s s' : σ} {bs : Fin n → β} (hs : P s)
    (h : threadFin f s = some (s', bs)) : P s' := by
  induction n generalizing s with
  | zero =>
    simp only [threadFin, Option.some.injEq, Prod.mk.injEq] at h
    exact h.1 ▸ hs
  | succ n ih =>
    obtain ⟨s₁, h0, h1⟩ := threadFin_succ h
    exact ih (fun i => hf i.succ) (hf 0 s s₁ _ hs h0) h1

/-- Turns that leave the state as it is. -/
theorem threadFin_const {n : Nat} {f : Fin n → σ → Option (σ × β)} {s : σ} {b : β} (hf : ∀ i, f i s = some (s, b)) :
    threadFin f s = some (s, fun _ => b) := by
  induction n with
  | zero => exact congrArg (fun bs => some (s, bs)) (funext fun i => i.elim0)
  | succ n ih =>
    simp only [threadFin, hf 0, Option.bind_some, ih fun i => hf i.succ, Option.map_some, Option.some.injEq,
      Prod.mk.injEq, true_and]
    exact funext fun i => by cases i using Fin.cases <;> rfl

end Dtu.Loop
