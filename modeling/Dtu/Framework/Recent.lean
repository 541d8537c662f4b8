import Mathlib.Data.List.DropRight
import Mathlib.Data.List.Nodup
import Mathlib.Data.List.Perm.Subperm

/-!
# A register of recent items

A register of size `k` holds the last `k` items admitted to it; an item that it
holds is not admitted again (`push`). `recent k xs` is what it holds after the
items `xs`: distinct ones (`nodup_recent`), all of them while they are few
(`mem_recent_of_length_le`), and just the last `k` when these are distinct and have
not occurred before (`recent_iff`).
-/

namespace Dtu.Recent

/-! ## The end of a list -/

theorem length_rtake {β : Type} (as : List β) (k : Nat) : (as.rtake k).length = min k as.length := by
  rw [List.rtake, List.length_drop]
  omega

theorem rtake_suffix {β : Type} (as : List β) (k : Nat) : as.rtake k <:+ as := List.drop_suffix _ _

theorem rtake_of_length_le {β : Type} {as : List β} {k : Nat} (h : as.length ≤ k) : as.rtake k = as := by
  rw [List.rtake, Nat.sub_eq_zero_of_le h, List.drop_zero]

/-- The last items with one more: the first of them goes when they are `k + 1`. -/
theorem rtake_succ_concat {β : Type} (as : List β) (a : β) (k : Nat) :
    (if k + 1 ≤ (as.rtake (k + 1)).length then (as.rtake (k + 1)).tail else as.rtake (k + 1)) ++ [a] =
      (as ++ [a]).rtake (k + 1) := by
  rw [List.rtake_concat_succ, length_rtake, List.append_cancel_right_eq]
  split
  · rw [List.rtake, List.rtake, List.tail_drop]
    congr 1
    omega
  · rw [rtake_of_length_le (by omega), rtake_of_length_le (by omega)]

/-! ## The register -/

variable {α : Type} [DecidableEq α]

/-- An item comes after the items `as` have been admitted. -/
def push (k : Nat) (as : List α) (x : α) : List α := if x ∈ as.rtake k then as else as ++ [x]

/-- The items admitted of `xs`, in their order. -/
def admissions (k : Nat) (xs : List α) : List α := xs.foldl (push k) []

/-- What the register holds after `xs`. -/
def recent (k : Nat) (xs : List α) : List α := (admissions k xs).rtake k

variable {k : Nat} {xs es ls : List α} {x : α}

@[simp] theorem admissions_concat (xs : List α) (x : α) :
    admissions k (xs ++ [x]) = push k (admissions k xs) x := by
  rw [admissions, List.foldl_concat]
  rfl

/-! ## What is admitted -/

/-- Copies of one item are admitted as one. -/
theorem foldl_push_eq (hk : 0 < k) {ys : List α} (hne : ys ≠ []) (heq : ∀ y ∈ ys, y = x) (as : List α) :
    ys.foldl (push k) as = push k as x := by
  have hheld : x ∈ (push k as x).rtake k := by
    rw [push]
    split
    · assumption
    · obtain ⟨k, rfl⟩ := Nat.exists_eq_succ_of_ne_zero (Nat.ne_of_gt hk)
      rw [List.rtake_concat_succ]
      exact List.mem_append_right _ (List.mem_singleton_self x)
  have hrest : ∀ zs : List α, (∀ z ∈ zs, z = x) → zs.foldl (push k) (push k as x) = push k as x := by
    intro zs hzs
    induction zs with
    | nil => rfl
    | cons z zs ih =>
      rw [List.foldl_cons, hzs z List.mem_cons_self, push, if_pos hheld]
      exact ih fun z hz => hzs z (List.mem_cons_of_mem _ hz)
  obtain ⟨y, ys, rfl⟩ := List.exists_cons_of_ne_nil hne
  rw [List.foldl_cons, heq y List.mem_cons_self]
  exact hrest ys fun z hz => heq z (List.mem_cons_of_mem _ hz)

/-- Groups of copies are admitted as one item each. -/
theorem admissions_flatMap {β : Type} (hk : 0 < k) {copies : β → List α} {item : β → α}
    (hne : ∀ g, copies g ≠ []) (heq : ∀ g, ∀ y ∈ copies g, y = item g) (groups : List β) :
    admissions k (groups.flatMap copies) = admissions k (groups.map item) := by
  induction groups using List.reverseRecOn with
  | nil => rfl
  | append_singleton groups g ih =>
    rw [List.flatMap_append, List.flatMap_singleton, admissions, List.foldl_append, foldl_push_eq hk (hne g) (heq g),
      List.map_append, List.map_singleton, admissions_concat, ← ih]
    rfl

theorem length_admissions_le (k : Nat) (xs : List α) : (admissions k xs).length ≤ xs.length := by
  induction xs using List.reverseRecOn with
  | nil => exact Nat.le_refl _
  | append_singleton xs x ih =>
    rw [admissions_concat, List.length_append, List.length_singleton, push]
    split
    · exact Nat.le_succ_of_le ih
    · rw [List.length_append]
      exact Nat.succ_le_succ ih

theorem mem_admissions : x ∈ admissions k xs ↔ x ∈ xs := by
  induction xs using List.reverseRecOn with
  | nil => rfl
  | append_singleton xs y ih =>
    rw [admissions_concat, push, List.mem_append, List.mem_singleton]
    split
    · rename_i hheld
      refine ⟨fun h => .inl (ih.mp h), fun h => ?_⟩
      rcases h with h | rfl
      · exact ih.mpr h
      · exact (rtake_suffix _ k).subset hheld
    · rw [List.mem_append, List.mem_singleton, ih]

theorem recent_subset (k : Nat) (xs : List α) : recent k xs ⊆ xs :=
  fun _ h => mem_admissions.mp ((rtake_suffix _ k).subset h)

theorem nodup_recent (k : Nat) (xs : List α) : (recent k xs).Nodup := by
  induction xs using List.reverseRecOn with
  | nil => simp [recent, admissions]
  | append_singleton xs x ih =>
    rw [recent, admissions_concat, push]
    split
    · exact ih
    · rename_i hnew
      cases k with
      | zero => simp
      | succ k =>
        rw [List.rtake_concat_succ]
        have hsub : (admissions (k + 1) xs).rtake k <:+ (admissions (k + 1) xs).rtake (k + 1) := by
          refine List.suffix_of_suffix_length_le (rtake_suffix _ _) (rtake_suffix _ _) ?_
          rw [length_rtake, length_rtake]
          omega
        have hx : x ∉ (admissions (k + 1) xs).rtake k := fun h => hnew (hsub.subset h)
        exact (hsub.sublist.nodup ih).append (List.nodup_singleton x) (List.disjoint_singleton.mpr hx)

/-- Few items are all held. -/
theorem mem_recent_of_length_le (h : xs.length ≤ k) : x ∈ recent k xs ↔ x ∈ xs := by
  rw [recent, rtake_of_length_le (Nat.le_trans (length_admissions_le k xs) h), mem_admissions]

/-! ## The last items -/

/-- Items that are new are all admitted. -/
theorem admissions_append (hnodup : ls.Nodup) (hnew : ∀ x ∈ ls, x ∉ es) :
    admissions k (es ++ ls) = admissions k es ++ ls := by
  induction ls using List.reverseRecOn with
  | nil => rw [List.append_nil, List.append_nil]
  | append_singleton ls x ih =>
    have hdisjoint := List.nodup_append.mp hnodup
    have hls : ∀ y ∈ ls, y ∉ es := fun y hy => hnew y (List.mem_append_left _ hy)
    rw [← List.append_assoc, admissions_concat, ih hdisjoint.1 hls, push, if_neg, List.append_assoc]
    intro hheld
    rcases List.mem_append.mp ((rtake_suffix _ k).subset hheld) with h | h
    · exact hnew x (List.mem_append_right _ (List.mem_singleton_self x)) (mem_admissions.mp h)
    · exact hdisjoint.2.2 x h x (List.mem_singleton_self x) rfl

/-- The register separates the last `k` items from those before just when the last are
distinct and have not occurred before. -/
theorem recent_iff (hlen : ls.length = k) (hes : es ≠ []) :
    ((∀ x ∈ ls, x ∈ recent k (es ++ ls)) ∧ ∀ x ∈ es, x ∉ recent k (es ++ ls)) ↔ ls.Nodup ∧ ∀ x ∈ ls, x ∉ es := by
  constructor
  · rintro ⟨hlast, hbefore⟩
    refine ⟨?_, fun x hx he => hbefore x he (hlast x hx)⟩
    have hsub : recent k (es ++ ls) ⊆ ls := fun x hx =>
      (List.mem_append.mp (recent_subset _ _ hx)).resolve_left fun he => hbefore x he hx
    -- A register that is not full would hold the first item.
    have hfull : k ≤ (admissions k (es ++ ls)).length := by
      refine Nat.le_of_not_lt fun hlt => ?_
      obtain ⟨e, es, rfl⟩ := List.exists_cons_of_ne_nil hes
      refine hbefore e List.mem_cons_self ?_
      rw [recent, rtake_of_length_le (Nat.le_of_lt hlt), mem_admissions]
      exact List.mem_cons_self
    have hperm : (recent k (es ++ ls)).Perm ls := by
      refine (List.subperm_of_subset (nodup_recent k (es ++ ls)) hsub).perm_of_length_le ?_
      rw [recent, length_rtake]
      omega
    exact hperm.nodup (nodup_recent k (es ++ ls))
  · rintro ⟨hnodup, hnew⟩
    have hrecent : recent k (es ++ ls) = ls := by
      rw [recent, admissions_append hnodup hnew, List.rtake, List.length_append, hlen, Nat.add_sub_cancel, List.drop_left]
    rw [hrecent]
    exact ⟨fun x hx => hx, fun x he hx => hnew x hx he⟩

end Dtu.Recent
