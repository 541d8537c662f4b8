import Mathlib.Data.List.Pairwise

/-!
# Pacing by the time of the last event

What is paced keeps the time at which its last event ended, 0 before the first, and lets
the next one begin only `gap` later. On a clock that is positive and does not go back,
the events, with their beginnings and ends, are then `gap` apart (`Paced`).
-/

namespace Dtu

/-- Events `gap` apart, the last one last, of which `last` remembers the end. -/
structure Paced (gap : Int) (events : List (Int × Int)) (last now : Int) : Prop where
  now_pos : 0 < now
  last_ge : ∀ p ∈ events, 0 < last ∧ last ≤ now ∧ p.2 ≤ last
  apart : events.Pairwise fun p q => p.2 + gap ≤ q.1

namespace Paced

variable {gap last now now' : Int} {events : List (Int × Int)}

theorem start (hnow : 0 < now) : Paced gap [] last now := ⟨hnow, fun _ hp => (nomatch hp), .nil⟩

/-- Time passes. -/
theorem tick (h : Paced gap events last now) (hle : now ≤ now') : Paced gap events last now' := by
  have hpos := h.now_pos
  refine ⟨by omega, fun p hp => ?_, h.apart⟩
  obtain ⟨hset, hread, hend⟩ := h.last_ge p hp
  exact ⟨hset, by omega, hend⟩

/-- An event that the pacing lets through. -/
theorem concat (h : Paced gap events last now) {first end' : Int} (hnow : now ≤ first) (hend : first ≤ end')
    (hlate : 0 < last → last ≤ first → last + gap ≤ first) : Paced gap (events ++ [(first, end')]) end' end' := by
  have hpos := h.now_pos
  refine ⟨by omega, fun p hp => ⟨by omega, Int.le_refl _, ?_⟩, ?_⟩
  · rcases List.mem_append.mp hp with hp | hp
    · obtain ⟨-, hread, hle⟩ := h.last_ge p hp
      omega
    · cases List.mem_singleton.mp hp
      exact Int.le_refl _
  · refine List.pairwise_append.mpr ⟨h.apart, List.pairwise_singleton _ _, fun p hp q hq => ?_⟩
    rw [List.mem_singleton.mp hq]
    obtain ⟨hset, hread, hle⟩ := h.last_ge p hp
    have := hlate hset (by omega)
    omega

end Paced

end Dtu
