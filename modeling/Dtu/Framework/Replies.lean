import Dtu.Framework.Program

/-!
# What the runs of a program put out

Some of the operations of a program put something out. `Puts out p T`: in each run of `p`
to its end, what they put out, in order, is `T`; `Returns p R`: what it returns is `R`. Their rules
follow the program: `puts_pure`, `puts_op_bind`, `puts_bind`, `puts_ite`.

`Program.embed f back p` is a program that runs in an environment with more operations;
its runs are those of `p` (`ran_embed`).
-/

namespace Dtu

namespace Program

variable {ο ο' α β τ : Type} {Ans : ο → Type} {Ans' : ο' → Type}

/-- A run, as the operations that it calls. -/
abbrev Calls (p : Program ο Ans α) (os : List ο) (a : α) : Prop := Ran (fun o _ => o) p os a

/-! ## What is put out -/

/-- What the operations of each run put out is `T`. -/
def Puts (out : ο → Option τ) (p : Program ο Ans α) (T : List τ → Prop) : Prop :=
  ∀ os a, Calls p os a → T (os.filterMap out)

variable {out : ο → Option τ} {p q : Program ο Ans α} {T U : List τ → Prop}

theorem puts_pure {a : α} (h : T []) : Puts out (pure a : Program ο Ans α) T := by
  intro os b hran
  rw [(ran_pure.mp hran).1]
  exact h

theorem puts_op_bind {o : ο} {f : Ans o → Program ο Ans β} (h : ∀ a, Puts out (f a) fun ts => T ((out o).toList ++ ts)) :
    Puts out (op o >>= f) T := by
  intro os b hran
  obtain ⟨a, os', rfl, hran'⟩ := ran_op_bind.mp hran
  have hT := h a os' b hran'
  rw [List.filterMap_cons]
  revert hT
  cases out o with
  | none => exact id
  | some t => exact id

theorem puts_op {o : ο} (h : T (out o).toList) : Puts out (op o : Program ο Ans (Ans o)) T :=
  puts_op_bind (f := pure) fun _ => puts_pure (by rwa [List.append_nil])

/-- An operation that puts nothing out. -/
theorem puts_silent_bind {o : ο} {f : Ans o → Program ο Ans β} (ho : out o = none) (h : ∀ a, Puts out (f a) T) :
    Puts out (op o >>= f) T :=
  puts_op_bind fun a => by
    rw [ho]
    exact h a

/-- A program that puts nothing out, and what follows it. -/
theorem puts_bind {f : α → Program ο Ans β} (hp : Puts out p (· = [])) (hf : ∀ a, Puts out (f a) T) :
    Puts out (p >>= f) T := by
  intro os b hran
  obtain ⟨os₁, os₂, a, rfl, h₁, h₂⟩ := ran_bind.mp hran
  rw [List.filterMap_append, hp os₁ a h₁]
  exact hf a os₂ b h₂

theorem puts_ite {c : Prop} [Decidable c] (hp : c → Puts out p T) (hq : ¬c → Puts out q T) :
    Puts out (if c then p else q) T := by
  split
  · exact hp ‹_›
  · exact hq ‹_›

/-! ## What is returned -/

/-- What each run returns is `R`. -/
def Returns (p : Program ο Ans α) (R : α → Prop) : Prop := ∀ os a, Calls p os a → R a

theorem returns_pure {a : α} {R : α → Prop} (h : R a) : Returns (pure a : Program ο Ans α) R := by
  intro os b hran
  rw [(ran_pure.mp hran).2]
  exact h

theorem returns_bind {f : α → Program ο Ans β} {R : β → Prop} (h : ∀ a, Returns (f a) R) : Returns (p >>= f) R := by
  intro os b hran
  obtain ⟨os₁, os₂, a, rfl, -, h₂⟩ := ran_bind.mp hran
  exact h a os₂ b h₂

/-! ## More operations -/

section Map

variable (f : ο → ο') (back : (o : ο) → Ans' (f o) → Ans o)

/-- A program, with the operations `f o` for `o`. -/
def embed : Program ο Ans α → Program ο' Ans' α
  | .ret a => .ret a
  | .call o next => .call (f o) fun a => embed (next (back o a))

variable {f back}

theorem ran_embed {os : List ο'} {a : α} (h : Calls (embed f back p) os a) : ∃ os', os = os'.map f ∧ Calls p os' a := by
  induction p generalizing os with
  | ret b =>
    cases h
    exact ⟨[], rfl, .ret a⟩
  | call o next ih =>
    cases h with
    | call b h =>
      obtain ⟨os', rfl, h'⟩ := ih (back o b) h
      exact ⟨o :: os', rfl, .call (back o b) h'⟩

/-- What it puts out. -/
theorem puts_embed {out' : ο' → Option τ} (h : Puts (fun o => out' (f o)) p T) : Puts out' (embed f back p) T := by
  intro os a hran
  obtain ⟨os', rfl, hran'⟩ := ran_embed hran
  rw [List.filterMap_map]
  exact h os' a hran'

end Map

end Program

end Dtu
