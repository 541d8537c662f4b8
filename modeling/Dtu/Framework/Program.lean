import Mathlib.Logic.Relation

/-!
# Programs that call operations

A program ends with a result, or calls an operation of its environment and goes on
with the answer (`Program`, a monad). `effect o s a` is the state after operation `o`
in the state `s` with the answer `a`; `none` is an answer that the operation cannot
give there. A program runs step by step (`Step`), so it can be cut off between any two operations.

`Ran event p es a`: a run of `p` to its end gives `a`, where the operations and their
answers are the events `es`. Its rules follow the program: `ran_pure`, `ran_op_bind`,
`ran_bind`.

`Wp effect C p Q s`: in each state that the run of `p` from `s` comes to, `C` holds,
and `Q` of the result and the state where it ends (`Wp.step`, `Wp.ends`). Its rules follow the
program: `wp_ret`, `wp_op`, `wp_bind`.
-/

namespace Dtu

/-- A program with the operations `ο`, which answer with values of `Ans`. -/
inductive Program (ο : Type) (Ans : ο → Type) (α : Type) where
  | ret (a : α)
  | call (o : ο) (next : Ans o → Program ο Ans α)

namespace Program

variable {ο σ α β : Type} {Ans : ο → Type}

def bind : Program ο Ans α → (α → Program ο Ans β) → Program ο Ans β
  | ret a, f => f a
  | call o next, f => call o fun a => (next a).bind f

instance : Monad (Program ο Ans) where
  pure := ret
  bind := bind

/-- One operation. -/
def op (o : ο) : Program ο Ans (Ans o) := call o ret

/-! ## Runs -/

variable (effect : (o : ο) → σ → Ans o → Option σ)

/-- A program and the state of its environment. -/
abbrev Config (ο : Type) (Ans : ο → Type) (α σ : Type) : Type := Program ο Ans α × σ

/-- One operation of a program. -/
inductive Step : Config ο Ans α σ → Config ο Ans α σ → Prop where
  | call {o : ο} {next : Ans o → Program ο Ans α} {s s' : σ} (a : Ans o) (h : effect o s a = some s') :
    Step (.call o next, s) (next a, s')

/-! ## Runs to the end -/

section Ran

variable {ε : Type} (event : (o : ο) → Ans o → ε)

/-- A run to the end, with what `event` makes of each operation and its answer. -/
inductive Ran : Program ο Ans α → List ε → α → Prop where
  | ret (a : α) : Ran (.ret a) [] a
  | call {o : ο} {next : Ans o → Program ο Ans α} {es : List ε} {b : α} (a : Ans o) (h : Ran (next a) es b) :
    Ran (.call o next) (event o a :: es) b

/-- The run where each operation always gives the same answer. -/
def runWith (answer : (o : ο) → Ans o) : Program ο Ans α → List ε × α
  | ret a => ([], a)
  | call o next =>
    let rest := runWith answer (next (answer o))
    (event o (answer o) :: rest.1, rest.2)

variable {event} {es : List ε}

theorem ran_pure {a b : α} : Ran event (pure a : Program ο Ans α) es b ↔ es = [] ∧ b = a := by
  constructor
  · intro h
    cases h
    exact ⟨rfl, rfl⟩
  · rintro ⟨rfl, rfl⟩
    exact .ret b

theorem ran_op_bind {o : ο} {f : Ans o → Program ο Ans β} {b : β} :
    Ran event (op o >>= f) es b ↔ ∃ a es', es = event o a :: es' ∧ Ran event (f a) es' b := by
  constructor
  · intro h
    cases h with
    | call a h => exact ⟨a, _, rfl, h⟩
  · rintro ⟨a, es', rfl, h⟩
    exact .call a h

theorem ran_bind {p : Program ο Ans α} {f : α → Program ο Ans β} {b : β} :
    Ran event (p >>= f) es b ↔ ∃ es₁ es₂ a, es = es₁ ++ es₂ ∧ Ran event p es₁ a ∧ Ran event (f a) es₂ b := by
  induction p generalizing es with
  | ret a =>
    constructor
    · exact fun h => ⟨[], es, a, rfl, .ret a, h⟩
    · rintro ⟨es₁, es₂, a', rfl, h₁, h₂⟩
      cases h₁
      exact h₂
  | call o next ih =>
    constructor
    · intro h
      cases h with
      | call a h =>
        obtain ⟨es₁, es₂, b, rfl, h₁, h₂⟩ := (ih a).mp h
        exact ⟨event o a :: es₁, es₂, b, rfl, .call a h₁, h₂⟩
    · rintro ⟨es₁, es₂, b, rfl, h₁, h₂⟩
      cases h₁ with
      | call a h₁ => exact .call a ((ih a).mpr ⟨_, es₂, b, rfl, h₁, h₂⟩)

theorem ran_runWith (answer : (o : ο) → Ans o) (p : Program ο Ans α) :
    Ran event p (runWith event answer p).1 (runWith event answer p).2 := by
  induction p with
  | ret a => exact .ret a
  | call o next ih => exact .call (answer o) (ih (answer o))

end Ran

/-! ## Weakest preconditions -/

/-- `C` holds all along, and `Q` at the end. -/
def Wp (C : σ → Prop) : Program ο Ans α → (α → σ → Prop) → σ → Prop
  | ret a, Q, s => C s ∧ Q a s
  | call o next, Q, s => C s ∧ ∀ a s', effect o s a = some s' → Wp C (next a) Q s'

variable {effect} {C : σ → Prop} {p p' : Program ο Ans α} {Q R : α → σ → Prop} {s s' : σ}

theorem wp_ret {a : α} : Wp effect C (pure a : Program ο Ans α) Q s ↔ C s ∧ Q a s := Iff.rfl

theorem wp_op {o : ο} {Q : Ans o → σ → Prop} :
    Wp effect C (op o) Q s ↔ C s ∧ ∀ a s', effect o s a = some s' → C s' ∧ Q a s' := Iff.rfl

theorem Wp.holds (h : Wp effect C p Q s) : C s := by
  cases p with
  | ret a => exact h.1
  | call o next => exact h.1

theorem Wp.mono (h : Wp effect C p Q s) (hQ : ∀ a s', C s' → Q a s' → R a s') : Wp effect C p R s := by
  induction p generalizing s with
  | ret a => exact ⟨h.1, hQ a s h.1 h.2⟩
  | call o next ih => exact ⟨h.1, fun a s' hs => ih a (h.2 a s' hs)⟩

theorem wp_bind {f : α → Program ο Ans β} {Q : β → σ → Prop} :
    Wp effect C (p >>= f) Q s ↔ Wp effect C p (fun a s' => Wp effect C (f a) Q s') s := by
  induction p generalizing s with
  | ret a => exact ⟨fun h => ⟨h.holds, h⟩, fun h => h.2⟩
  | call o next ih =>
    refine and_congr_right fun _ => forall_congr' fun a => forall_congr' fun s' => imp_congr_right fun _ => ?_
    exact ih a

/-- An operation, and what follows it. -/
theorem wp_op_bind {o : ο} {f : Ans o → Program ο Ans β} {Q : β → σ → Prop} :
    Wp effect C (op o >>= f) Q s ↔ C s ∧ ∀ a s', effect o s a = some s' → Wp effect C (f a) Q s' := Iff.rfl

theorem wp_ite {c : Prop} [Decidable c] (hp : c → Wp effect C p Q s) (hp' : ¬c → Wp effect C p' Q s) :
    Wp effect C (if c then p else p') Q s := by
  split
  · exact hp ‹_›
  · exact hp' ‹_›

/-- What is left of a program after an operation. -/
theorem Wp.step (h : Wp effect C p Q s) (hstep : Step effect (p, s) (p', s')) : Wp effect C p' Q s' := by
  cases hstep with
  | call a heffect => exact h.2 a s' heffect

/-- What holds where a run ends. -/
theorem Wp.ends {a : α} (h : Wp effect C p Q s)
    (hrun : Relation.ReflTransGen (Step effect) (p, s) (pure a, s')) : Q a s' := by
  have hwp : ∀ c, Relation.ReflTransGen (Step effect) (p, s) c → Wp effect C c.1 Q c.2 := fun c hc => by
    induction hc with
    | refl => exact h
    | tail _ hstep ih => exact ih.step hstep
  exact (wp_ret.mp (hwp _ hrun)).2

end Program

end Dtu
