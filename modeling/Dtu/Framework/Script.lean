import Dtu.Framework.Program

/-!
# Scripts

A script calls the operations of its stages one after the other, whatever the answers are, but stops at a stage
that is required if the answer is not the one that the stage waits for (`script`). `Followed` is what a run has called
and been answered: all stages with their required answers where the script gets to its end, and otherwise those
up to the first one without (`ran_script`).
-/

namespace Dtu

/-- An operation of a script, and the answers it waits for. -/
structure Stage (ο : Type) (Ans : ο → Type) where
  op : ο
  required : Bool
  ok : Ans op → Bool

namespace Program

variable {ο : Type} {Ans : ο → Type}

/-- The stages in their order, up to the first failure. -/
def script : List (Stage ο Ans) → Program ο Ans Bool
  | [] => return true
  | stage :: stages => do
    let a ← op stage.op
    if stage.required && !stage.ok a then return false
    script stages

/-- What a script has called, with the answers, and whether it has got to its end. -/
inductive Followed : List (Stage ο Ans) → List (Σ o, Ans o) → Bool → Prop where
  | done : Followed [] [] true
  | failed {stage : Stage ο Ans} {stages : List (Stage ο Ans)} {a : Ans stage.op} (hrequired : stage.required = true)
      (hnot : stage.ok a = false) : Followed (stage :: stages) [⟨stage.op, a⟩] false
  | next {stage : Stage ο Ans} {stages : List (Stage ο Ans)} {a : Ans stage.op} {es : List (Σ o, Ans o)} {b : Bool}
      (hok : stage.required = true → stage.ok a = true) (h : Followed stages es b) :
      Followed (stage :: stages) (⟨stage.op, a⟩ :: es) b

variable {stages : List (Stage ο Ans)} {es : List (Σ o, Ans o)} {b : Bool}

theorem ran_script : Ran Sigma.mk (script stages) es b ↔ Followed stages es b := by
  induction stages generalizing es b with
  | nil =>
    rw [script, ran_pure]
    constructor
    · rintro ⟨rfl, rfl⟩
      exact .done
    · intro h
      cases h
      exact ⟨rfl, rfl⟩
  | cons stage stages ih =>
    rw [script, ran_op_bind]
    constructor
    · rintro ⟨a, es', rfl, h⟩
      split at h
      · rename_i hfailed
        obtain ⟨rfl, rfl⟩ := ran_pure.mp h
        rw [Bool.and_eq_true, Bool.not_eq_true'] at hfailed
        exact .failed hfailed.1 hfailed.2
      · rename_i hok
        exact .next (by simpa using hok) (ih.mp h)
    · intro h
      cases h with
      | failed hrequired hnot => exact ⟨_, [], rfl, by rw [hrequired, hnot]; exact ran_pure.mpr ⟨rfl, rfl⟩⟩
      | next hok h =>
        refine ⟨_, _, rfl, ?_⟩
        rw [if_neg (by simpa using hok)]
        exact ih.mpr h

/-- A script calls its operations in their order. -/
theorem Followed.calls (h : Followed stages es b) : es.map Sigma.fst <+: stages.map (·.op) := by
  induction h with
  | done => exact List.prefix_refl _
  | failed => exact ⟨_, rfl⟩
  | next _ _ ih => exact (List.prefix_cons_inj _).mpr ih

/-- Where no operation is called twice, the script gets to its end just when each required stage has
been called with an answer that it waits for. -/
theorem Followed.eq_true_iff (h : Followed stages es b) (hnodup : (stages.map (·.op)).Nodup) :
    b = true ↔ ∀ stage ∈ stages, stage.required = true → ∃ a, ⟨stage.op, a⟩ ∈ es ∧ stage.ok a = true := by
  induction h with
  | done => exact iff_of_true rfl fun stage hstage => by cases hstage
  | @failed stage stages a hrequired hnot =>
    refine iff_of_false Bool.false_ne_true fun hall => ?_
    obtain ⟨a', hmem, hok⟩ := hall stage List.mem_cons_self hrequired
    cases List.mem_singleton.mp hmem
    exact absurd (hnot.symm.trans hok) Bool.false_ne_true
  | @next stage stages a es b hok h ih =>
    obtain ⟨hnew, hnodup⟩ := List.nodup_cons.mp hnodup
    rw [ih hnodup, List.forall_mem_cons]
    constructor
    · refine fun hall => ⟨fun hrequired => ⟨a, List.mem_cons_self, hok hrequired⟩, fun stage' hstage' hrequired => ?_⟩
      obtain ⟨a', hmem, hok'⟩ := hall stage' hstage' hrequired
      exact ⟨a', List.mem_cons_of_mem _ hmem, hok'⟩
    · rintro ⟨-, hall⟩ stage' hstage' hrequired
      obtain ⟨a', hmem, hok'⟩ := hall stage' hstage' hrequired
      rcases List.mem_cons.mp hmem with heq | hmem
      · have hop : stage'.op = stage.op := congrArg Sigma.fst heq
        exact absurd (List.mem_map.mpr ⟨stage', hstage', hop⟩) hnew
      · exact ⟨a', hmem, hok'⟩

end Program

end Dtu
