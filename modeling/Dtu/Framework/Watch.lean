import Mathlib.Data.List.Infix

/-!
# Watching what comes in

Reads are pushed into a state, and the state is looked at behind each of them: the first one behind which
`found` holds, or else `failed`, decides (`watch`). Where `found` stays true once it is, it is found
just when it holds in the end and holds behind each read behind which `failed` does (`watch_eq_true_iff`).
So what comes in may be cut into reads in any way just when there is no place where it has failed and has not been
found, unless it is never found (`watch_cut_iff`).
-/

namespace Dtu.Watch

variable {β ρ α : Type} (push : β → ρ → β) (found failed : β → Bool)

def watch : β → List ρ → Option Bool
  | _, [] => none
  | b, r :: rs =>
    let b := push b r
    if found b then some true
    else if failed b then some false
    else watch b rs

variable {push found failed} {b : β}

theorem found_foldl (hgrows : ∀ b r, found b = true → found (push b r) = true) (rs : List ρ) (h : found b = true) :
    found (rs.foldl push b) = true := by
  induction rs generalizing b with
  | nil => exact h
  | cons r rs ih => exact ih (hgrows b r h)

theorem watch_eq_true_iff (hgrows : ∀ b r, found b = true → found (push b r) = true) (hfound : found b = false)
    (hfailed : failed b = false) (rs : List ρ) :
    watch push found failed b rs = some true ↔ found (rs.foldl push b) = true ∧
      ∀ k, failed ((rs.take k).foldl push b) = true → found ((rs.take k).foldl push b) = true := by
  induction rs generalizing b with
  | nil => simp [watch, hfound]
  | cons r rs ih =>
    -- What holds behind the first reads is what holds at the start, or behind one read and the others.
    have hfirst : (∀ k, failed (((r :: rs).take k).foldl push b) = true → found (((r :: rs).take k).foldl push b) = true) ↔
        ∀ k, failed ((rs.take k).foldl push (push b r)) = true → found ((rs.take k).foldl push (push b r)) = true := by
      constructor
      · exact fun h k => h (k + 1)
      · intro h k
        cases k with
        | zero => exact fun hfails => absurd (hfailed.symm.trans hfails) Bool.false_ne_true
        | succ k => exact h k
    rw [watch, hfirst, List.foldl_cons]
    cases hnow : found (push b r) with
    | true => exact iff_of_true rfl ⟨found_foldl hgrows rs hnow, fun k _ => found_foldl hgrows (rs.take k) hnow⟩
    | false =>
      cases hfails : failed (push b r) with
      | true => exact iff_of_false (by simp) fun h => absurd (h.2 0 hfails) (hnow ▸ Bool.false_ne_true)
      | false => exact ih hnow hfails

/-! ## Cutting a stream into reads -/

variable {push : β → List α → β} {load : List α → β}

/-- The state behind the reads depends on the stream only, which is `load` of it: all cuts of the stream are
the same. -/
theorem watch_cut_iff (hgrows : ∀ b r, found b = true → found (push b r) = true) (hfound : found b = false)
    (hfailed : failed b = false) (hload : ∀ rs : List (List α), rs.foldl push b = load rs.flatten) (stream : List α) :
    (∀ rs rs', rs.flatten = stream → rs'.flatten = stream →
      (watch push found failed b rs = some true ↔ watch push found failed b rs' = some true)) ↔
      (found (load stream) = true →
        ∀ front, front <+: stream → failed (load front) = true → found (load front) = true) := by
  simp only [watch_eq_true_iff hgrows hfound hfailed, hload]
  constructor
  · intro hsame hfinal front hfront hfails
    obtain ⟨rest, rfl⟩ := hfront
    have hone : ∀ k, failed (load (([front ++ rest].take k).flatten)) = true →
        found (load (([front ++ rest].take k).flatten)) = true := by
      intro k hk
      cases k with
      | zero => exact absurd (hfailed.symm.trans ((congrArg failed (hload [])).trans hk)) Bool.false_ne_true
      | succ k => simpa using hfinal
    have htwo := ((hsame [front ++ rest] [front, rest] (by simp) (by simp)).mp ⟨by simpa using hfinal, hone⟩).2 1
    simp only [List.take_succ_cons, List.take_zero, List.flatten_cons, List.flatten_nil, List.append_nil] at htwo
    exact htwo hfails
  · intro hany rs rs' hrs hrs'
    have hall : ∀ rs : List (List α), rs.flatten = stream → found (load stream) = true →
        ∀ k, failed (load (rs.take k).flatten) = true → found (load (rs.take k).flatten) = true := by
      rintro rs rfl hfinal k
      refine hany hfinal _ ?_
      conv_rhs => rw [← List.take_append_drop k rs, List.flatten_append]
      exact List.prefix_append _ _
    rw [hrs, hrs']
    exact and_congr_right fun hfinal => iff_of_true (hall rs hrs hfinal) (hall rs' hrs' hfinal)

end Dtu.Watch
