import Mathlib.Algebra.GroupWithZero.Nat
import Mathlib.Data.List.Induction

/-!
# Lists joined by a separator

`[sep].intercalate xs` joins the lists `xs`; `List.splitOn sep` takes the result apart
at every separator, those within the lists too (`splitOn_intercalate_eq`). So a join
tells lists apart up to where they are cut (`intercalate_eq_iff`), and gives back just
lists without a separator in them (`splitOn_intercalate_iff`).
-/

namespace Dtu

variable {α : Type}

/-- One list more, behind a separator unless it is the first. -/
theorem intercalate_concat (sep : α) (xs : List (List α)) (x : List α) :
    [sep].intercalate (xs ++ [x]) = (if xs = [] then [] else [sep].intercalate xs ++ [sep]) ++ x := by
  induction xs with
  | nil => simp
  | cons y ys ih =>
    cases ys with
    | nil => simp
    | cons z zs =>
      rw [if_neg (List.cons_ne_nil z zs)] at ih
      rw [if_neg (List.cons_ne_nil y _), List.cons_append, List.cons_append,
        List.intercalate_cons_cons, ← List.cons_append, ih, List.intercalate_cons_cons]
      simp only [List.append_assoc]

/-- Each list counts with its separator, but for the last. -/
theorem length_intercalate (sep : α) (xs : List (List α)) :
    ([sep].intercalate xs).length = (xs.map fun x => x.length + 1).sum - 1 := by
  induction xs using List.reverseRecOn with
  | nil => rfl
  | append_singleton xs x ih =>
    rw [intercalate_concat, List.length_append, List.map_append, List.sum_append]
    by_cases hx : xs = []
    · simp [hx]
    · obtain ⟨y, ys, rfl⟩ := List.exists_cons_of_ne_nil hx
      rw [if_neg hx, List.length_append, ih]
      simp only [List.map_cons, List.sum_cons, List.length_cons, List.length_nil, List.map_nil, List.sum_nil]
      omega

/-! ## Taken apart again -/

variable [BEq α] [LawfulBEq α]

theorem not_mem_of_mem_splitOn {sep : α} {xs x : List α} (h : x ∈ xs.splitOn sep) : sep ∉ x := by
  induction hn : xs.length using Nat.strongRecOn generalizing xs with
  | _ n ih =>
    by_cases hsep : sep ∈ xs
    · obtain ⟨front, rest, rfl, hfront⟩ := List.eq_append_cons_of_mem hsep
      rw [List.splitOn_append_cons_self, List.splitOn_eq_singleton hfront] at h
      rcases List.mem_append.mp h with h | h
      · rw [List.mem_singleton.mp h]
        exact hfront
      · refine ih rest.length ?_ h rfl
        rw [← hn, List.length_append, List.length_cons]
        omega
    · rw [List.splitOn_eq_singleton hsep] at h
      rw [List.mem_singleton.mp h]
      exact hsep

/-- The pieces of a join are those of the lists. -/
theorem splitOn_intercalate_eq (sep : α) {xs : List (List α)} (hne : xs ≠ []) :
    ([sep].intercalate xs).splitOn sep = xs.flatMap (List.splitOn sep) := by
  induction xs with
  | nil => exact absurd rfl hne
  | cons x xs ih =>
    cases xs with
    | nil => simp
    | cons y ys =>
      rw [List.intercalate_cons_cons, List.append_assoc, List.singleton_append, List.splitOn_append_cons_self,
        ih (List.cons_ne_nil y ys)]
      rfl

/-- A join that is not empty depends on the pieces only. -/
theorem intercalate_eq_iff {sep : α} {xs ys : List (List α)} (hxs : xs ≠ []) (hys : ys ≠ []) :
    [sep].intercalate xs = [sep].intercalate ys ↔ xs.flatMap (List.splitOn sep) = ys.flatMap (List.splitOn sep) := by
  rw [← splitOn_intercalate_eq sep hxs, ← splitOn_intercalate_eq sep hys]
  constructor
  · exact congrArg _
  · intro h
    calc [sep].intercalate xs
        = [sep].intercalate (([sep].intercalate xs).splitOn sep) := (List.intercalate_splitOn sep).symm
      _ = [sep].intercalate (([sep].intercalate ys).splitOn sep) := by rw [h]
      _ = [sep].intercalate ys := List.intercalate_splitOn sep

/-- Lists without a separator come back, and no others. -/
theorem splitOn_intercalate_iff {sep : α} {xs : List (List α)} (hne : xs ≠ []) :
    ([sep].intercalate xs).splitOn sep = xs ↔ ∀ x ∈ xs, sep ∉ x := by
  constructor
  · intro h x hx
    exact not_mem_of_mem_splitOn (h.symm ▸ hx)
  · intro h
    exact List.splitOn_intercalate sep h hne

end Dtu
