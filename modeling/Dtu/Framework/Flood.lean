import Mathlib.Data.Fintype.Card
import Mathlib.Data.Fintype.Option
import Mathlib.Data.List.Nodup

/-!
# Flooding a network

A message is sent by a device, and each device on the way of a relation `edge` passes on
every copy of it that comes in: `edge i j` says that `j` gets what `i` sends, and
passes it on. A copy is known by the devices it has come through, the last one first;
these are the walks from the first device (`Walk`). `Flooded edge src sent`: the copies
`sent` can have been sent, in any order of passing on.

Each device passes the message on at most once, in every order, just when each is reached
by one walk only (`flood_once_iff`).
-/

namespace Dtu.Flood

variable {ι : Type} {edge : ι → ι → Prop} {src i : ι} {w w' : List ι} {sent : List (List ι)}

inductive Walk (edge : ι → ι → Prop) (src : ι) : List ι → Prop where
  | start : Walk edge src [src]
  | next {i j : ι} {w : List ι} : Walk edge src (i :: w) → edge i j → Walk edge src (j :: i :: w)

inductive Flooded (edge : ι → ι → Prop) (src : ι) : List (List ι) → Prop where
  | start : Flooded edge src [[src]]
  | pass {sent : List (List ι)} {i j : ι} {w : List ι} : Flooded edge src sent → i :: w ∈ sent → edge i j →
      j :: i :: w ∉ sent → Flooded edge src ((j :: i :: w) :: sent)

/-- The device that has passed a copy on; the first one is not passed on. -/
def passer : List ι → Option ι
  | j :: _ :: _ => some j
  | _ => none

/-- A device is reached by one walk only. -/
def OneWay (edge : ι → ι → Prop) (src : ι) : Prop :=
  ∀ w w', Walk edge src w → Walk edge src w' → passer w = passer w' → w = w'

/-! ## The copies -/

theorem Flooded.walk (h : Flooded edge src sent) : ∀ w ∈ sent, Walk edge src w := by
  induction h with
  | start => exact fun w hw => List.mem_singleton.mp hw ▸ .start
  | pass _ hmem hedge _ ih =>
    intro w hw
    rcases List.mem_cons.mp hw with rfl | hw
    · exact (ih _ hmem).next hedge
    · exact ih w hw

theorem Flooded.nodup (h : Flooded edge src sent) : sent.Nodup := by
  induction h with
  | start => exact List.nodup_singleton _
  | pass _ _ _ hnew ih => exact List.nodup_cons.mpr ⟨hnew, ih⟩

theorem Flooded.start_mem (h : Flooded edge src sent) : [src] ∈ sent := by
  induction h with
  | start => exact List.mem_singleton_self _
  | pass _ _ _ _ ih => exact List.mem_cons_of_mem _ ih

/-- Any walk can be gone next. -/
theorem Flooded.extend (h : Flooded edge src sent) (hw : Walk edge src w) :
    ∃ sent', Flooded edge src sent' ∧ sent ⊆ sent' ∧ w ∈ sent' := by
  induction hw with
  | start => exact ⟨sent, h, fun _ => id, h.start_mem⟩
  | next _ hedge ih =>
    rename_i i j w _
    obtain ⟨sent', h', hsub, hmem⟩ := ih
    by_cases hsent : j :: i :: w ∈ sent'
    · exact ⟨sent', h', hsub, hsent⟩
    · exact ⟨_, h'.pass hmem hedge hsent, fun t ht => List.mem_cons_of_mem _ (hsub ht), List.mem_cons_self⟩

/-! ## How often a device passes the message on -/

variable [DecidableEq ι]

/-- How often a device has passed the message on. -/
def passes (i : ι) (sent : List (List ι)) : Nat := (sent.map passer).count (some i)

theorem Flooded.count_none (h : Flooded edge src sent) : (sent.map passer).count none = 1 := by
  induction h with
  | start => rfl
  | pass _ _ _ _ ih => rw [List.map_cons, passer, List.count_cons_of_ne (Option.some_ne_none _), ih]

/-- Each device has passed the message on at most once just when the copies differ in
who has. -/
theorem Flooded.nodup_passer_iff (h : Flooded edge src sent) :
    (sent.map passer).Nodup ↔ ∀ i, passes i sent ≤ 1 := by
  rw [List.nodup_iff_count_le_one]
  refine ⟨fun hcount i => hcount (some i), fun hpasses o => ?_⟩
  cases o with
  | none => exact Nat.le_of_eq h.count_none
  | some i => exact hpasses i

theorem flood_once_iff : (∀ sent, Flooded edge src sent → ∀ i, passes i sent ≤ 1) ↔ OneWay edge src := by
  constructor
  · intro honce w w' hw hw' heq
    obtain ⟨sent, h, -, hmem⟩ := Flooded.start.extend hw
    obtain ⟨sent', h', hsub, hmem'⟩ := h.extend hw'
    have hnodup := h'.nodup_passer_iff.mpr (honce sent' h')
    exact List.inj_on_of_nodup_map hnodup (hsub hmem) hmem' heq
  · intro hone sent h
    refine h.nodup_passer_iff.mp (List.Nodup.map_on ?_ h.nodup)
    exact fun w hw w' hw' heq => hone w w' (h.walk w hw) (h.walk w' hw') heq

/-- Then there are no more copies than devices, and the first. -/
theorem Flooded.length_le [Fintype ι] (h : Flooded edge src sent) (honce : ∀ i, passes i sent ≤ 1) :
    sent.length ≤ Fintype.card ι + 1 := by
  have hlen := (h.nodup_passer_iff.mpr honce).length_le_card
  rw [List.length_map, Fintype.card_option] at hlen
  exact hlen

end Dtu.Flood
