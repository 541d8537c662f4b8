import Mathlib.Data.List.TakeWhile

/-!
# Interrupted sequences of steps

A sequence of steps on a state that can be interrupted between any two of them
leaves the state after a prefix of it. `Along apply P s ops`: each of these states
satisfies `P`. It is taken apart by `along_cons` and `along_append`.
-/

namespace Dtu

variable {σ ο : Type} (apply : σ → ο → σ)

/-- Every state that interrupting the steps can leave satisfies `P`. -/
def Along (P : σ → Prop) (s : σ) (ops : List ο) : Prop := ∀ k, P ((ops.take k).foldl apply s)

variable {apply} {P : σ → Prop}

theorem along_nil (s : σ) : Along apply P s [] ↔ P s :=
  ⟨fun h => h 0, fun h k => by rwa [List.take_nil]⟩

theorem along_cons (s : σ) (op : ο) (ops : List ο) :
    Along apply P s (op :: ops) ↔ P s ∧ Along apply P (apply s op) ops := by
  constructor
  · exact fun h => ⟨h 0, fun k => h (k + 1)⟩
  · rintro ⟨h₀, h⟩ (_ | k)
    · exact h₀
    · exact h k

theorem Along.start {s : σ} {ops : List ο} (h : Along apply P s ops) : P s := h 0

theorem along_append (s : σ) (ops ops' : List ο) :
    Along apply P s (ops ++ ops') ↔ Along apply P s ops ∧ Along apply P (ops.foldl apply s) ops' := by
  induction ops generalizing s with
  | nil =>
    rw [List.nil_append, along_nil]
    exact ⟨fun h => ⟨h.start, h⟩, fun h => h.2⟩
  | cons op ops ih => rw [List.cons_append, along_cons, ih, along_cons, and_assoc]; rfl

end Dtu
