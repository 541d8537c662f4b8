import Mathlib.Data.List.TakeWhile

/-!
# Runs of a machine

A machine is a function `step` of a state and an action; `none` is an action
that the state does not allow, or without a defined result. `Runs step ok s₀ s`:
actions that satisfy `ok` where they are taken lead from `s₀` to `s`. What holds
at the start and is kept by each step holds in every state (`Runs.invariant`),
and a list of actions that can be computed is a run (`Runs.of_runList`). Where the state
keeps a history of events, `Since` and `Before` say what has happened in it since the
last event of another kind, and before it.
-/

namespace Dtu

variable {σ α ε : Type}

/-- The states that a machine can reach by actions allowed by `ok`. -/
inductive Runs (step : σ → α → Option (σ × ε)) (ok : σ → α → Prop) (s₀ : σ) : σ → Prop where
  | start : Runs step ok s₀ s₀
  | step {s s' : σ} {a : α} {e : ε} : Runs step ok s₀ s → ok s a → step s a = some (s', e) → Runs step ok s₀ s'

variable {step : σ → α → Option (σ × ε)} {ok : σ → α → Prop} {s₀ s : σ}

/-- An invariant holds in every state. -/
theorem Runs.invariant {I : σ → Prop} (h₀ : I s₀)
    (hstep : ∀ s a s' e, I s → ok s a → step s a = some (s', e) → I s') (h : Runs step ok s₀ s) : I s := by
  induction h with
  | start => exact h₀
  | step _ hok hs ih => exact hstep _ _ _ _ ih hok hs

/-- The state after a list of actions that pass a check where they are taken. -/
def runList (step : σ → α → Option (σ × ε)) (check : σ → α → Bool) (s : σ) : List α → Option σ
  | [] => some s
  | a :: as => if check s a then (step s a).bind fun (s', _) => runList step check s' as else none

theorem Runs.of_runList {check : σ → α → Bool} (hok : ∀ s a, check s a = true → ok s a) {as : List α} {s' : σ}
    (h : Runs step ok s₀ s) (hrun : runList step check s as = some s') : Runs step ok s₀ s' := by
  induction as generalizing s with
  | nil =>
    cases hrun
    exact h
  | cons a as ih =>
    rw [runList] at hrun
    split at hrun
    · rename_i hcheck
      obtain ⟨⟨s₁, e⟩, hs, hrest⟩ := Option.bind_eq_some_iff.mp hrun
      exact ih (.step h (hok s a hcheck) hs) hrest
    · cases hrun

/-! ## Histories -/

section Since

variable [DecidableEq α] {e e₀ x : α} {history : List α}

/-- In a history, the last event first: `e` has happened since the last `e₀`. -/
def Since (e e₀ : α) (history : List α) : Prop := e ∈ history.takeWhile (· ≠ e₀)

instance : Decidable (Since e e₀ history) := inferInstanceAs (Decidable (_ ∈ _))

theorem Since.here (he : e ≠ e₀) : Since e e₀ (e :: history) := by
  rw [Since, List.takeWhile_cons, if_pos (decide_eq_true he)]
  exact List.mem_cons_self

theorem Since.cons (hx : x ≠ e₀) (h : Since e e₀ history) : Since e e₀ (x :: history) := by
  rw [Since, List.takeWhile_cons, if_pos (decide_eq_true hx)]
  exact List.mem_cons_of_mem _ h

theorem Since.tail (h : Since e e₀ (x :: history)) (hx : x ≠ e) : Since e e₀ history := by
  rw [Since, List.takeWhile_cons] at h
  split at h
  · exact (List.mem_cons.mp h).resolve_left hx.symm
  · cases h

/-- In a history, the last event first: `e` has happened before the last `e₀`. -/
def Before (e e₀ : α) (history : List α) : Prop := e ∈ history.dropWhile (· ≠ e₀)

instance : Decidable (Before e e₀ history) := inferInstanceAs (Decidable (_ ∈ _))

/-- Without an `e₁` since the last `e₀`, what was before the last `e₁` was before the last
`e₀`. -/
theorem Before.of_not_since {e₁ : α} (hnot : ¬Since e₁ e₀ history) (h : Before e e₁ history) : Before e e₀ history := by
  induction history with
  | nil => exact h
  | cons y history ih =>
    rw [Before, List.dropWhile_cons] at h ⊢
    by_cases h₀ : y = e₀
    · rw [if_neg (by simpa using h₀)]
      split at h
      · exact List.mem_cons_of_mem _ ((List.dropWhile_sublist _).subset h)
      · exact h
    · have h₁ : y ≠ e₁ := by
        rintro rfl
        exact hnot (Since.here h₀)
      rw [if_pos (by simpa using h₁)] at h
      rw [if_pos (by simpa using h₀)]
      exact ih (fun hsince => hnot (hsince.cons h₀)) h

end Since

end Dtu
