import Dtu.Framework.Drain
import Dtu.Impl.Lora
import Dtu.Spec.Pending
import Dtu.Proof.Segments
import Dtu.Proof.SendPath

/-!
# Progress of the packers

Each packer is a drain of the lines pending in its logs: a call takes the batch that
its budgets accept (`packDataFromFiles_lines`, `mainPackPendingUntil_lines`) and
never a line that exceeds them alone (`Acceptor`, `drain_of_batch`). So repeated calls
pass every line exactly when no pending line does, and what `main_pack_pending` packs
fits its raw buffer each time (`packers_served_iff`).
-/

namespace Dtu

open Stdio Loop StateTransition

/-! ## Lines -/

theorem linesFrom_none (size offset : Nat) : linesFrom size none offset = [] := by
  rw [linesFrom, Option.getD_none, List.drop_nil, fgetsAll_nil]

theorem ne_nil_of_mem_linesFrom {size : Nat} (hsize : 1 < size) {file : Option (List Char)} {offset : Nat}
    {line : List Char} (h : line ∈ linesFrom size file offset) : line ≠ [] :=
  ne_nil_of_mem_fgetsAll hsize h

/-- Behind the first `k` lines are the others. -/
theorem linesFrom_add {size : Nat} (hsize : 1 < size) (file : Option (List Char)) (offset k : Nat) :
    linesFrom size file (offset + ((linesFrom size file offset).take k).flatten.length) =
      (linesFrom size file offset).drop k := by
  rw [linesFrom, ← List.drop_drop]
  exact fgetsAll_drop hsize (List.take_append_drop k _).symm

theorem linesWithin_add (stop : Nat) (ls : List (List Char)) (pos k : Nat) :
    linesWithin stop (pos + ((linesWithin stop pos ls).take k).flatten.length)
        (ls.drop ((linesWithin stop pos ls).take k).length) = (linesWithin stop pos ls).drop k := by
  induction ls generalizing pos k with
  | nil => simp [linesWithin]
  | cons line rest ih =>
    by_cases hstop : stop < pos + line.length
    · simp [linesWithin, hstop]
    · cases k with
      | zero => simp
      | succ k =>
        have h := ih (pos + line.length) k
        rw [Nat.add_assoc] at h
        simpa [linesWithin, hstop] using h

/-- A window's lines are the first of those from its start on. -/
theorem isPrefix_linesWithin (stop pos : Nat) (ls : List (List Char)) :
    linesWithin stop pos ls <+: ls := by
  induction ls generalizing pos with
  | nil => exact List.nil_prefix
  | cons line rest ih =>
    rw [linesWithin]
    split
    · exact List.nil_prefix
    · exact List.cons_prefix_cons.mpr ⟨rfl, ih _⟩

theorem window_add {size : Nat} (hsize : 1 < size) (file : Option (List Char)) (stop offset k : Nat) :
    linesWithin stop (offset + ((linesWithin stop offset (linesFrom size file offset)).take k).flatten.length)
        (linesFrom size file (offset + ((linesWithin stop offset (linesFrom size file offset)).take k).flatten.length)) =
      (linesWithin stop offset (linesFrom size file offset)).drop k := by
  have htake : (linesWithin stop offset (linesFrom size file offset)).take k =
      (linesFrom size file offset).take ((linesWithin stop offset (linesFrom size file offset)).take k).length :=
    List.prefix_iff_eq_take.mp ((List.take_prefix k _).trans (isPrefix_linesWithin stop offset _))
  have hfrom := linesFrom_add hsize file offset ((linesWithin stop offset (linesFrom size file offset)).take k).length
  rw [← htake] at hfrom
  rw [hfrom]
  exact linesWithin_add stop _ offset k

/-! ## Batches of lines -/

/-- What decides how many lines a packer takes passes over the short ones, takes no
line of more than `limit` bytes or without a data length, and for an empty batch does not
stop before a line of at most `limit` bytes. -/
structure Acceptor (acc : List (List UInt8) → List (Option Nat) → Option Nat) (limit : Nat) : Prop where
  isSome : ∀ es items, (∀ item ∈ items, item ≠ none) → (acc es items).isSome
  taken : ∀ {es items k}, acc es items = some k → ∀ item ∈ items.take k, ∃ size ≤ limit, item = some size
  first : ∀ {items k}, acc [] items = some k → (∀ item ∈ items, ∃ size ≤ limit, item = some size) →
    ∀ item ∈ items, (∃ size, 2 ≤ size ∧ item = some size) → ∃ size, 2 ≤ size ∧ some size ∈ items.take k

/-- A count of items that takes one after another while they fit, an item of `size` bytes for
`width * size` out of `width * limit`. A short one costs nothing, and `trail` decides whether it
counts if nothing behind it is taken. -/
structure Greedy (count : Nat → List (Option Nat) → Option Nat) (trail : Nat → Nat) (width limit : Nat) : Prop where
  nil : ∀ used, count used [] = some 0
  unread : ∀ used items, count used (none :: items) = none
  short : ∀ used items {size}, size < 2 → count used (some size :: items) = (count used items).map trail
  full : ∀ used items {size}, 2 ≤ size → width * limit < used + width * size → count used (some size :: items) = some 0
  next : ∀ used items {size}, 2 ≤ size → used + width * size ≤ width * limit →
    count used (some size :: items) = (count (used + (width * size + 1)) items).map (· + 1)
  trail_pos : ∀ k, 0 < k → trail k = k + 1
  trail_zero : trail 0 ≤ 1

namespace Greedy

variable {count : Nat → List (Option Nat) → Option Nat} {trail : Nat → Nat} {width limit : Nat}

theorem isSome (hcount : Greedy count trail width limit) (items : List (Option Nat)) (used : Nat)
    (h : ∀ item ∈ items, item ≠ none) : (count used items).isSome := by
  induction items generalizing used with
  | nil => rw [hcount.nil]; rfl
  | cons item items ih =>
    obtain ⟨hitem, hitems⟩ := List.forall_mem_cons.mp h
    obtain ⟨size, rfl⟩ := Option.ne_none_iff_exists'.mp hitem
    by_cases hshort : size < 2
    · rw [hcount.short used items hshort, Option.isSome_map]
      exact ih _ hitems
    · have hsize : 2 ≤ size := Nat.le_of_not_lt hshort
      by_cases hfits : used + width * size ≤ width * limit
      · rw [hcount.next used items hsize hfits, Option.isSome_map]
        exact ih _ hitems
      · rw [hcount.full used items hsize (Nat.lt_of_not_le hfits)]
        rfl

/-- What holds of a short item and of all that is taken behind it holds of all that is taken. -/
theorem take_trail (hcount : Greedy count trail width limit) {item : Option Nat} {items : List (Option Nat)} {k : Nat}
    {p : Option Nat → Prop} (hitem : p item) (hitems : ∀ item' ∈ items.take k, p item') :
    ∀ item' ∈ (item :: items).take (trail k), p item' := by
  have hcons : ∀ item' ∈ (item :: items).take (k + 1), p item' := by
    rw [List.take_succ_cons]
    exact List.forall_mem_cons.mpr ⟨hitem, hitems⟩
  have hle : trail k ≤ k + 1 := by
    cases k with
    | zero => exact hcount.trail_zero
    | succ k => exact Nat.le_of_eq (hcount.trail_pos (k + 1) k.succ_pos)
  exact fun item' h => hcons item' (List.take_subset_take_left _ hle h)

theorem taken (hcount : Greedy count trail width limit) (hwidth : 0 < width) (hlimit : 1 ≤ limit)
    {items : List (Option Nat)} {used k : Nat} (h : count used items = some k) :
    ∀ item ∈ items.take k, ∃ size ≤ limit, item = some size := by
  induction items generalizing used k with
  | nil => simp
  | cons item items ih =>
    cases item with
    | none =>
      rw [hcount.unread] at h
      cases h
    | some size =>
      by_cases hshort : size < 2
      · rw [hcount.short used items hshort] at h
        obtain ⟨j, hj, rfl⟩ := Option.map_eq_some_iff.mp h
        exact hcount.take_trail ⟨size, by omega, rfl⟩ (ih hj)
      · have hsize : 2 ≤ size := Nat.le_of_not_lt hshort
        by_cases hfits : used + width * size ≤ width * limit
        · rw [hcount.next used items hsize hfits] at h
          obtain ⟨j, hj, rfl⟩ := Option.map_eq_some_iff.mp h
          have hle : size ≤ limit := Nat.le_of_mul_le_mul_left (by omega) hwidth
          rw [List.take_succ_cons]
          exact List.forall_mem_cons.mpr ⟨⟨size, hle, rfl⟩, ih hj⟩
        · rw [hcount.full used items hsize (Nat.lt_of_not_le hfits)] at h
          cases h
          simp

/-- With nothing used, an item that is not short is taken if there is one. -/
theorem first (hcount : Greedy count trail width limit) {items : List (Option Nat)} {k : Nat}
    (h : count 0 items = some k) (hgood : ∀ item ∈ items, ∃ size ≤ limit, item = some size) :
    ∀ item ∈ items, (∃ size, 2 ≤ size ∧ item = some size) → ∃ size, 2 ≤ size ∧ some size ∈ items.take k := by
  induction items generalizing k with
  | nil => simp
  | cons item items ih =>
    obtain ⟨⟨size, hsize, rfl⟩, hitems⟩ := List.forall_mem_cons.mp hgood
    by_cases hshort : size < 2
    · rw [hcount.short 0 items hshort] at h
      obtain ⟨j, hj, rfl⟩ := Option.map_eq_some_iff.mp h
      rintro item hmem ⟨s, hs, rfl⟩
      have hrest : some s ∈ items := (List.mem_cons.mp hmem).resolve_left fun h => by
        cases h
        omega
      obtain ⟨t, ht, htaken⟩ := ih hj hitems _ hrest ⟨s, hs, rfl⟩
      have hpos : 0 < j := by
        refine Nat.pos_of_ne_zero ?_
        rintro rfl
        cases htaken
      rw [hcount.trail_pos j hpos, List.take_succ_cons]
      exact ⟨t, ht, List.mem_cons_of_mem _ htaken⟩
    · have hfits : 0 + width * size ≤ width * limit := by
        rw [Nat.zero_add]
        exact Nat.mul_le_mul_left width hsize
      rw [hcount.next 0 items (Nat.le_of_not_lt hshort) hfits] at h
      obtain ⟨j, -, rfl⟩ := Option.map_eq_some_iff.mp h
      intro _ _ _
      rw [List.take_succ_cons]
      exact ⟨size, Nat.le_of_not_lt hshort, List.mem_cons_self⟩

theorem acceptor (hcount : Greedy count trail width limit) (hwidth : 0 < width) (hlimit : 1 ≤ limit)
    (cost : List (List UInt8) → Nat) (hcost : cost [] = 0) : Acceptor (fun es => count (cost es)) limit where
  isSome es items := hcount.isSome items (cost es)
  taken := hcount.taken hwidth hlimit
  first h := hcount.first (hcost ▸ h)

end Greedy

theorem greedy_accept (limit : Nat) : Greedy (accept (2 * limit)) (fun k => if k = 0 then 0 else k + 1) 2 limit where
  nil _ := rfl
  unread _ _ := rfl
  short used items size hshort := by rw [accept, if_pos hshort]
  full used items size hsize hfull := by rw [accept, if_neg (Nat.not_lt.mpr hsize), if_pos hfull]
  next used items size hsize hfits := by
    rw [accept, if_neg (Nat.not_lt.mpr hsize), if_neg (Nat.not_lt.mpr hfits)]
  trail_pos k hk := if_neg (Nat.ne_of_gt hk)
  trail_zero := by decide

theorem greedy_acceptRaw (limit : Nat) : Greedy (acceptRaw limit) (· + 1) 1 limit where
  nil _ := rfl
  unread _ _ := rfl
  short used items size hshort := by rw [acceptRaw, if_pos hshort]
  full used items size hsize hfull := by
    rw [acceptRaw, if_neg (Nat.not_lt.mpr hsize), if_pos (by omega)]
  next used items size hsize hfits := by
    rw [acceptRaw, if_neg (Nat.not_lt.mpr hsize), if_neg (by omega), Nat.one_mul]
  trail_pos _ _ := rfl
  trail_zero := Nat.le_refl 1

/-- `pack_data_from_files` with a budget of `2 * limit` characters. -/
theorem acceptor_hex {cap limit : Nat} (hlimit : 1 ≤ limit) (hcap : cap = 2 * limit) :
    Acceptor (fun es => accept cap (hexCost es)) limit := by
  subst hcap
  exact (greedy_accept limit).acceptor (by decide) hlimit hexCost rfl

/-- `main_pack_pending_until` with a raw buffer of `limit` bytes. -/
theorem acceptor_raw {limit : Nat} (hlimit : 1 ≤ limit) : Acceptor (fun es => acceptRaw limit (rawCost es)) limit :=
  (greedy_acceptRaw limit).acceptor (by decide) hlimit rawCost rfl

theorem not_exceeds {limit : Nat} {line : List Char} :
    ¬Exceeds limit line ↔ ∃ size ≤ limit, lineSize line = some size := by
  constructor
  · intro h
    obtain ⟨size, hsize⟩ := not_forall.mp h
    obtain ⟨hline, hle⟩ := Classical.not_imp.mp hsize
    exact ⟨size, Nat.le_of_not_lt hle, hline⟩
  · rintro ⟨size, hle, hline⟩ h
    exact Nat.not_lt.mpr hle (h size hline)

theorem entryOf_isSome {line : List Char} : (entryOf line).isSome ↔ ∃ size, 2 ≤ size ∧ lineSize line = some size := by
  cases hp : parseLogLine (cstr line) 256 with
  | none => simp [entryOf, lineSize, hp]
  | some raw =>
    rw [entryOf_eq hp, lineSize, hp]
    by_cases hshort : raw.length < 2
    · simp [hshort]
    · simp [hshort, Nat.le_of_not_lt hshort]

theorem pieces_ne_nil {ls : List (List Char)} {k : Nat} :
    pieces ls k ≠ [] ↔ ∃ size, 2 ≤ size ∧ some size ∈ (ls.map lineSize).take k := by
  rw [pieces, ne_eq, List.filterMap_eq_nil_iff, ← List.map_take]
  constructor
  · intro h
    obtain ⟨line, hline⟩ := not_forall.mp h
    obtain ⟨hmem, hentry⟩ := Classical.not_imp.mp hline
    obtain ⟨size, hsize, heq⟩ := entryOf_isSome.mp (Option.isSome_iff_ne_none.mpr hentry)
    exact ⟨size, hsize, heq ▸ List.mem_map_of_mem hmem⟩
  · rintro ⟨size, hsize, hmem⟩ h
    obtain ⟨line, hline, heq⟩ := List.mem_map.mp hmem
    exact absurd (h line hline) (Option.isSome_iff_ne_none.mp (entryOf_isSome.mpr ⟨size, hsize, heq⟩))

section Batch

variable {acc : List (List UInt8) → List (Option Nat) → Option Nat} {limit n : Nat}
variable {pending : Fin n → List (List Char)} {es : List (List UInt8)} {ks : Fin n → Nat}

/-- What a batch is made of; what is taken of each log is decided behind a part of it. -/
theorem takeBatch_some (h : takeBatch acc pending = some (es, ks)) :
    es = ((List.finRange n).flatMap fun i => pieces (pending i) (ks i)) ∧
      ∀ i, ∃ front, front <+: es ∧ acc front ((pending i).map lineSize) = some (ks i) := by
  have hturns := threadFin_collect_from id (fun i k => pieces (pending i) k)
    (fun i front k => acc front ((pending i).map lineSize) = some k) (fun i front s' k hi => ?_) (e := []) h
  · rw [List.nil_append] at hturns
    obtain ⟨hes, hfronts⟩ := hturns
    exact ⟨hes, fun i => hes ▸ hfronts i⟩
  · obtain ⟨k', hk, heq⟩ := Option.map_eq_some_iff.mp hi
    cases heq
    exact ⟨rfl, hk⟩

theorem Acceptor.takeBatch_exists (hacc : Acceptor acc limit) (h : ∀ i, ∀ line ∈ pending i, lineSize line ≠ none) :
    ∃ es ks, takeBatch acc pending = some (es, ks) := by
  have hturn : ∀ (i : Fin n) (es : List (List UInt8)), True → ∃ k : Nat,
      ((acc es ((pending i).map lineSize)).map fun k => (es ++ pieces (pending i) k, k)) =
        some (id (es ++ pieces (pending i) k), k) ∧ True ∧ True := by
    intro i es _
    have hsome : (acc es ((pending i).map lineSize)).isSome := by
      refine hacc.isSome es _ fun item hitem => ?_
      obtain ⟨line, hline, rfl⟩ := List.mem_map.mp hitem
      exact h i line hline
    obtain ⟨k, hk⟩ := Option.isSome_iff_exists.mp hsome
    exact ⟨k, by rw [hk]; rfl, trivial, trivial⟩
  obtain ⟨ks, heq, -, -⟩ := threadFin_exists (f := fun i es => (acc es ((pending i).map lineSize)).map fun k =>
    (es ++ pieces (pending i) k, k)) id (fun _ k => k) (fun i k => pieces (pending i) k) (fun _ _ => True)
    (fun _ => True) hturn (e := []) trivial
  exact ⟨_, ks, heq⟩

/-- No line that is taken exceeds the limit. -/
theorem Acceptor.not_exceeds_of_taken (hacc : Acceptor acc limit) (h : takeBatch acc pending = some (es, ks)) (i : Fin n) :
    ∀ line ∈ (pending i).take (ks i), ¬Exceeds limit line := by
  intro line hline
  obtain ⟨front, -, hfront⟩ := (takeBatch_some h).2 i
  refine not_exceeds.mpr (hacc.taken hfront (lineSize line) ?_)
  rw [← List.map_take]
  exact List.mem_map_of_mem hline

/-- A batch is not empty if there is work and no line exceeds the limit. -/
theorem Acceptor.ne_nil_of_busy (hacc : Acceptor acc limit) (h : takeBatch acc pending = some (es, ks))
    (hgood : ∀ i, ∀ line ∈ pending i, ¬Exceeds limit line) {i : Fin n} {line : List Char} (hline : line ∈ pending i)
    (hwork : Exceeds 1 line) : es ≠ [] := by
  rintro rfl
  obtain ⟨hes, hfronts⟩ := takeBatch_some h
  obtain ⟨front, hfront, hk⟩ := hfronts i
  rw [List.prefix_nil.mp hfront] at hk
  obtain ⟨size, -, hsize⟩ := not_exceeds.mp (hgood i line hline)
  have htaken := hacc.first hk (fun item hitem => ?_) (lineSize line) (List.mem_map_of_mem hline)
    ⟨size, hwork size hsize, hsize⟩
  · exact pieces_ne_nil.mpr htaken (List.flatMap_eq_nil_iff.mp hes.symm i (List.mem_finRange i))
  · obtain ⟨line', hline', rfl⟩ := List.mem_map.mp hitem
    exact not_exceeds.mp (hgood i line' hline')

/-- A batch that is not empty has taken lines with work. -/
theorem exists_of_batch_ne_nil (h : takeBatch acc pending = some (es, ks)) (hne : es ≠ []) :
    ∃ i, ∃ line ∈ (pending i).take (ks i), Exceeds 1 line := by
  obtain ⟨hes, -⟩ := takeBatch_some h
  rw [hes, ne_eq, List.flatMap_eq_nil_iff] at hne
  obtain ⟨i, hi⟩ := not_forall.mp hne
  obtain ⟨-, hpieces⟩ := Classical.not_imp.mp hi
  obtain ⟨size, hsize, hmem⟩ := pieces_ne_nil.mp hpieces
  rw [← List.map_take] at hmem
  obtain ⟨line, hline, heq⟩ := List.mem_map.mp hmem
  refine ⟨i, line, hline, fun size' h' => ?_⟩
  rw [heq] at h'
  cases h'
  exact hsize

/-- A packer whose caller goes on behind the lines of a batch, if it is not empty and has
room, drains the lines. -/
theorem Acceptor.drain (hacc : Acceptor acc limit) (hlimit : 1 ≤ limit) (rest : (Fin n → Nat) → Fin n → List (List Char))
    (next : (Fin n → Nat) → (Fin n → Nat) → Fin n → Nat) (room : List (List UInt8) → Prop) [DecidablePred room]
    {send : (Fin n → Nat) → Option (Fin n → Nat)} (hroom : room [])
    (hrest : ∀ o ks i, rest (next o ks) i = (rest o i).drop (ks i))
    (hsend : ∀ o, send o = (takeBatch acc (rest o)).map fun (es, ks) => if es ≠ [] ∧ room es then next o ks else o) :
    Drain send rest (Exceeds 1) (Exceeds limit) fun o => ∀ es ks, takeBatch acc (rest o) = some (es, ks) → room es where
  work_of_bad line h size hsize := Nat.lt_of_le_of_lt hlimit (h size hsize)
  taken := by
    intro o o' h i
    rw [hsend, Option.map_eq_some_iff] at h
    obtain ⟨⟨es, ks⟩, hbatch, rfl⟩ := h
    by_cases hgo : es ≠ [] ∧ room es
    · exact ⟨ks i, by simp only [if_pos hgo, hrest], hacc.not_exceeds_of_taken hbatch i⟩
    · exact ⟨0, by simp only [if_neg hgo, List.drop_zero], by simp⟩
  advance := by
    rintro o hgood hfits ⟨i, line, hline, hwork⟩
    obtain ⟨es, ks, hbatch⟩ := hacc.takeBatch_exists fun j line' hline' hnone => by
      obtain ⟨size, -, hsize⟩ := not_exceeds.mp (hgood j line' hline')
      rw [hnone] at hsize
      cases hsize
    have hne := hacc.ne_nil_of_busy hbatch hgood hline hwork
    obtain ⟨j, line', hline', -⟩ := exists_of_batch_ne_nil hbatch hne
    refine ⟨next o ks, ?_, j, ?_⟩
    · rw [hsend, hbatch, Option.map_some]
      exact congrArg some (if_pos ⟨hne, hfits es ks hbatch⟩)
    · have hpos := List.length_pos_of_mem hline'
      rw [List.length_take] at hpos
      rw [hrest, List.length_drop]
      omega
  idle := by
    intro o o' hidle h
    rw [hsend, Option.map_eq_some_iff] at h
    obtain ⟨⟨es, ks⟩, hbatch, rfl⟩ := h
    refine if_neg fun hgo => hidle ?_
    obtain ⟨i, line, hline, hwork⟩ := exists_of_batch_ne_nil hbatch hgo.1
    exact ⟨i, line, List.mem_of_mem_take hline, hwork⟩
  stall := by
    intro o hno
    obtain ⟨es, hes⟩ := not_forall.mp hno
    obtain ⟨ks, hks⟩ := not_forall.mp hes
    obtain ⟨hbatch, hfull⟩ := Classical.not_imp.mp hks
    have hne : es ≠ [] := fun hnil => hfull (hnil ▸ hroom)
    obtain ⟨i, line, hline, hwork⟩ := exists_of_batch_ne_nil hbatch hne
    refine ⟨⟨i, line, List.mem_of_mem_take hline, hwork⟩, fun o' ho' => ?_⟩
    rw [hsend, hbatch, Option.map_some] at ho'
    exact (Option.some.inj ho').symm.trans (if_neg fun hgo => hfull hgo.2)

end Batch

/-! ## The packers -/

/-- Behind the lines that a call has taken. -/
def behind {n : Nat} (lines : Fin n → List (List Char)) (o ks : Fin n → Nat) : Fin n → Nat := fun i =>
  o i + ((lines i).take (ks i)).flatten.length

/-- The turn of `pack_data_from_files` for one file. -/
theorem packFile_lines (cap : Nat) (file : Option (List Char)) (o : Nat) (es : List (List UInt8)) :
    (match file with
      | none => some (batchOf es, o)
      | some content => packFile cap (fgetsAll packLineSize (content.drop o)) o o (batchOf es)) =
      (accept cap (hexCost es) ((linesFrom packLineSize file o).map lineSize)).map fun k =>
        (batchOf (es ++ pieces (linesFrom packLineSize file o) k),
          o + ((linesFrom packLineSize file o).take k).flatten.length) := by
  cases file with
  | none => simp [linesFrom_none, accept, pieces]
  | some content =>
    show packFile cap (linesFrom packLineSize (some content) o) o o (batchOf es) = _
    rw [packFile_eq]
    refine congrArg (Option.map · _) (funext fun k => ?_)
    cases k <;> rfl

theorem packDataFromFiles_lines {n : Nat} (files : Fin n → Option (List Char)) (o : Fin n → Nat) (cap : Nat) :
    packDataFromFiles files o cap =
      (hexBatch cap fun i => linesFrom packLineSize (files i) (o i)).map fun (es, ks) =>
        (batchOf es, behind (fun i => linesFrom packLineSize (files i) (o i)) o ks) := by
  refine threadFin_map batchOf (fun i k => o i + ((linesFrom packLineSize (files i) (o i)).take k).flatten.length)
    (fun i es => ?_) []
  rw [Option.map_map]
  exact packFile_lines cap (files i) (o i) es

theorem hexCost_le (es : List (List UInt8)) : hexCost es ≤ 2 * rawCost es := by
  induction es with
  | nil => exact Nat.le_refl 0
  | cons e es ih =>
    rw [hexCost_cons, rawCost_cons]
    omega

/-- The loop of `main_pack_pending_until` over a file, in terms of what its raw buffer
accepts: the budget of characters is at least twice as large. -/
theorem packUntil_lines {cap limit : Nat} (hcap : 2 * limit ≤ cap) (stop : Nat) {ls : List (List Char)}
    (hne : ∀ line ∈ ls, line ≠ []) (pos : Nat) (es : List (List UInt8)) :
    packUntil cap limit stop ls pos pos (untilOf es) =
      (acceptRaw limit (rawCost es) ((linesWithin stop pos ls).map lineSize)).map fun k =>
        (untilOf (es ++ pieces (linesWithin stop pos ls) k),
          pos + ((linesWithin stop pos ls).take k).flatten.length) := by
  induction ls generalizing pos es with
  | nil => simp [packUntil, linesWithin, acceptRaw, pieces]
  | cons line ls ih =>
    obtain ⟨hline, hls⟩ := List.forall_mem_cons.mp hne
    have hpos := List.length_pos_iff.mpr hline
    by_cases hstop : stop < pos + line.length
    · have hout : packUntil cap limit stop (line :: ls) pos pos (untilOf es) = some (untilOf es, pos) := by
        rw [packUntil, if_pos hstop]
        split <;> rfl
      simp [hout, linesWithin, hstop, acceptRaw, pieces]
    · rw [packUntil, if_neg (by omega), if_neg hstop, linesWithin, if_neg hstop, List.map_cons]
      cases hp : parseLogLine (cstr line) 256 with
      | none => simp [lineSize, hp, acceptRaw]
      | some raw =>
        have hent := entryOf_eq hp
        have hused : (untilOf es).hexLen + (if 0 < (untilOf es).entryCount then 1 else 0) = hexCost es :=
          (hexCost_eq es).symm
        have husedRaw : (untilOf es).packedRawLen + (if 0 < (untilOf es).entryCount then 1 else 0) = rawCost es :=
          (rawCost_eq es).symm
        have hcost := hexCost_le es
        simp only [lineSize, hp, Option.map_some, acceptRaw, hused, husedRaw]
        by_cases hshort : raw.length < 2
        · rw [if_pos hshort] at hent
          rw [if_pos hshort, if_pos hshort, ih hls, Option.map_map]
          refine congrArg (Option.map · _) (funext fun k => ?_)
          simp [pieces, hent, Nat.add_assoc]
        · rw [if_neg hshort] at hent
          rw [if_neg hshort, if_neg hshort]
          by_cases hfull : limit < rawCost es + raw.length
          · rw [if_pos hfull, if_pos hfull, ite_self]
            simp [pieces]
          · have hfit : hexCost es + 2 * raw.length ≤ cap := by omega
            rw [if_neg (by omega), if_neg hfull, if_neg hfull, untilOf_add hfit, ih hls, rawCost_append,
              Option.map_map]
            refine congrArg₂ (fun f u => Option.map f (acceptRaw limit u _)) (funext fun k => ?_) (by simp)
            simp [pieces, hent, Nat.add_assoc]

theorem packUntilFile_lines {cap limit : Nat} (hcap : 2 * limit ≤ cap) (file : Option (List Char))
    (o stop : Nat) (es : List (List UInt8)) :
    packUntilFile file o stop cap limit (untilOf es) =
      (acceptRaw limit (rawCost es) ((linesWithin stop o (linesFrom untilLineSize file o)).map lineSize)).map fun k =>
        (untilOf (es ++ pieces (linesWithin stop o (linesFrom untilLineSize file o)) k),
          o + ((linesWithin stop o (linesFrom untilLineSize file o)).take k).flatten.length) := by
  cases file with
  | none => simp [packUntilFile, linesFrom_none, linesWithin, acceptRaw, pieces]
  | some content =>
    have hne : ∀ line ∈ linesFrom untilLineSize (some content) o, line ≠ [] := fun line =>
      ne_nil_of_mem_linesFrom (by decide)
    rw [packUntilFile, ← packUntil_lines hcap stop hne]
    by_cases hend : stop ≤ o
    · rw [if_pos hend]
      cases hls : linesFrom untilLineSize (some content) o with
      | nil => rfl
      | cons line ls => rw [packUntil, if_pos hend]
    · rw [if_neg hend]
      rfl

theorem mainPackPendingUntil_lines {n : Nat} (files : Fin n → Option (List Char)) (endOffsets o : Fin n → Nat) :
    mainPackPendingUntil files o endOffsets bdMaxHexLen bdMaxRawLen =
      (rawBatch bdMaxRawLen (windowLines files endOffsets o)).map fun (es, ks) =>
        finishPack (behind (windowLines files endOffsets o) o ks) (joinHex es) es.length bdMaxRawLen := by
  have hloop := threadFin_map (f := fun i => packUntilFile (files i) (o i) (endOffsets i) bdMaxHexLen bdMaxRawLen)
    (g := fun i es => (acceptRaw bdMaxRawLen (rawCost es) ((windowLines files endOffsets o i).map lineSize)).map fun k =>
      (es ++ pieces (windowLines files endOffsets o i) k, k)) untilOf
    (fun i k => o i + ((windowLines files endOffsets o i).take k).flatten.length) (fun i es => ?_) []
  · rw [mainPackPendingUntil, show (⟨[], 0, 0, 0⟩ : UntilBatch) = untilOf [] from rfl, hloop, Option.map_map]
    rfl
  · rw [packUntilFile_lines (Nat.le_of_eq (Nat.mul_comm _ _)), Option.map_map]
    rfl

theorem ne_nil_of_mem_batch {acc : List (List UInt8) → List (Option Nat) → Option Nat} {n : Nat}
    {pending : Fin n → List (List Char)} {es : List (List UInt8)} {ks : Fin n → Nat}
    (h : takeBatch acc pending = some (es, ks)) : ∀ e ∈ es, e ≠ [] := by
  rintro e he rfl
  rw [(takeBatch_some h).1, List.mem_flatMap] at he
  obtain ⟨i, -, hmem⟩ := he
  obtain ⟨line, -, hline⟩ := List.mem_filterMap.mp hmem
  exact absurd (two_le_of_entryOf hline) (by decide)

@[simp] theorem finishPack_entryCount {n : Nat} (pendingOffsets : Fin n → Nat) (hexBuf : List Char)
    (entryCount rawBufSize : Nat) : (finishPack pendingOffsets hexBuf entryCount rawBufSize).entryCount = entryCount := by
  unfold finishPack
  split
  · exact Eq.symm ‹_›
  · split <;> rfl

/-- The offsets behind a packer that has packed the batch `es`. -/
theorem sentOffsets_finishPack {n : Nat} (o pendingOffsets : Fin n → Nat) {es : List (List UInt8)}
    (hes : ∀ e ∈ es, e ≠ []) {rawBufSize : Nat} (hm : 0 < rawBufSize) :
    (finishPack pendingOffsets (joinHex es) es.length rawBufSize).sentOffsets o =
      if es ≠ [] ∧ rawCost es ≤ rawBufSize + 1 then pendingOffsets else o := by
  have hcost : (joinRaw es).length ≤ rawBufSize ↔ rawCost es ≤ rawBufSize + 1 := by
    rw [length_joinRaw]
    omega
  have hpos : 0 < es.length ↔ es ≠ [] := List.length_pos_iff
  rw [finishPack_eq pendingOffsets hes hm]
  by_cases hfit : (joinRaw es).length ≤ rawBufSize
  · simp [PackResult.sentOffsets, hpos, ← hcost, hfit]
  · simp [PackResult.sentOffsets, ← hcost, hfit]

theorem drain_send4g (files : Fin mainPathCount → Option (List Char)) :
    Drain (send4g files) (fileLines files) (Exceeds 1) (Exceeds (egMaxHexLen / 2)) fun o =>
      ∀ es ks, hexBatch egMaxHexLen (fileLines files o) = some (es, ks) → rawCost es ≤ egMaxHexLen / 2 + 2 := by
  refine (acceptor_hex (by decide) (by decide)).drain (by decide) (fileLines files)
    (fun o => behind (fileLines files o) o) (fun es => rawCost es ≤ egMaxHexLen / 2 + 2) (by decide)
    (fun o ks i => linesFrom_add (by decide) (files i) (o i) (ks i)) fun o => ?_
  show Option.map _ ((packDataFromFiles files o egMaxHexLen).map _) = _
  rw [packDataFromFiles_lines, Option.map_map, Option.map_map]
  refine Option.map_congr fun r hr => ?_
  exact sentOffsets_finishPack o _ (ne_nil_of_mem_batch hr) (by decide)

/-- An empty batch of `pack_data_from_files` takes no lines. -/
theorem hexBatch_nil {cap n : Nat} {pending : Fin n → List (List Char)} {ks : Fin n → Nat}
    (h : hexBatch cap pending = some ([], ks)) : ∀ i, ks i = 0 := by
  intro i
  obtain ⟨hes, hfronts⟩ := takeBatch_some h
  obtain ⟨front, -, hk⟩ := hfronts i
  cases hi : ks i with
  | zero => rfl
  | succ k =>
    rw [hi] at hk
    obtain ⟨size, hget, hsize⟩ := accept_succ hk
    have hmem : some size ∈ ((pending i).map lineSize).take (k + 1) := by
      rw [List.take_add_one, hget]
      exact List.mem_append_right _ (List.mem_singleton.mpr rfl)
    have hnil := List.flatMap_eq_nil_iff.mp hes.symm i (List.mem_finRange i)
    rw [hi] at hnil
    exact absurd hnil (pieces_ne_nil.mpr ⟨size, hsize, hmem⟩)

theorem drain_sendLora (files : Fin 2 → Option (List Char)) :
    Drain (sendLora files) (fileLines files) (Exceeds 1) (Exceeds (loraMaxHexLen / 2)) fun o =>
      ∀ es ks, hexBatch loraMaxHexLen (fileLines files o) = some (es, ks) → True := by
  refine (acceptor_hex (by decide) (by decide)).drain (by decide) (fileLines files)
    (fun o => behind (fileLines files o) o) (fun _ => True) trivial
    (fun o ks i => linesFrom_add (by decide) (files i) (o i) (ks i)) fun o => ?_
  rw [sendLora, packDataFromFiles_lines, Option.map_map]
  refine Option.map_congr fun r hr => ?_
  obtain ⟨es, ks⟩ := r
  show behind (fileLines files o) o ks = if es ≠ [] ∧ True then behind (fileLines files o) o ks else o
  by_cases hne : es = []
  · rw [if_neg fun h => h.1 hne]
    funext i
    simp [behind, hexBatch_nil (hne ▸ hr) i]
  · rw [if_pos ⟨hne, trivial⟩]

theorem drain_sendBd (files : Fin mainPathCount → Option (List Char)) (endOffsets : Fin mainPathCount → Nat) :
    Drain (sendBd files endOffsets) (windowLines files endOffsets) (Exceeds 1) (Exceeds bdMaxRawLen) fun o =>
      ∀ es ks, rawBatch bdMaxRawLen (windowLines files endOffsets o) = some (es, ks) → True := by
  refine (acceptor_raw (by decide)).drain (by decide) (windowLines files endOffsets)
    (fun o => behind (windowLines files endOffsets o) o) (fun _ => True) trivial
    (fun o ks i => window_add (by decide) (files i) (endOffsets i) (o i) (ks i)) fun o => ?_
  have hret : ∀ r, mainPackPendingUntil files o endOffsets bdMaxHexLen bdMaxRawLen = some r → r.ret = 0 := fun r =>
    mainPackPendingUntil_ret (by decide)
  rw [mainPackPendingUntil_lines] at hret
  rw [sendBd, mainPackPendingUntil_lines, Option.map_map]
  refine Option.map_congr fun r hr => ?_
  obtain ⟨es, ks⟩ := r
  have hzero := hret _ (Option.map_eq_some_iff.mpr ⟨_, hr, rfl⟩)
  show PackResult.sentOffsets o _ = if es ≠ [] ∧ True then behind (windowLines files endOffsets o) o ks else o
  rw [PackResult.sentOffsets, finishPack_entryCount, finishPack_pendingOffsets]
  simp only [hzero, true_and, and_true, List.length_pos_iff]

/-! ## No line blocks the others -/

theorem lineSize_le {line : List Char} {size : Nat} (h : lineSize line = some size) : size ≤ 256 := by
  obtain ⟨raw, hraw, rfl⟩ := Option.map_eq_some_iff.mp h
  rw [parseLogLine] at hraw
  split at hraw
  · cases hraw
    exact Nat.zero_le _
  · exact length_parseBytes_le hraw

/-- The budget of 4G is large enough for every line that can be read. -/
theorem not_exceeds_eg {line : List Char} : ¬Exceeds (egMaxHexLen / 2) line ↔ lineSize line ≠ none := by
  rw [not_exceeds]
  constructor
  · rintro ⟨size, -, hsize⟩
    rw [hsize]
    exact Option.some_ne_none size
  · intro h
    obtain ⟨size, hsize⟩ := Option.ne_none_iff_exists'.mp h
    exact ⟨size, Nat.le_trans (lineSize_le hsize) (by decide), hsize⟩

/-- A call that leads to other offsets gets on. -/
theorem GetsOn.of_ne {n : Nat} {entryCount : (Fin n → Nat) → Option Nat}
    {send : (Fin n → Nat) → Option (Fin n → Nat)} {o o' : Fin n → Nat} (h : send o = some o') (hne : o' ≠ o) :
    GetsOn entryCount send o := .inr ⟨o', h, hne⟩

/-- 4G passes all lines when none of them is left by `parse_log_line` and what is packed
fits the raw buffer each time. -/
theorem send4g_served_iff (files : Fin mainPathCount → Option (List Char)) (offsets : Fin mainPathCount → Nat) :
    Served (send4g files) (Busy (fileLines files) (Exceeds 1)) (GetsOn4g files) offsets ↔
      (∀ i, ∀ line ∈ fileLines files offsets i, lineSize line ≠ none) ∧
        ∀ o, Reaches (send4g files) offsets o → ∀ es ks, hexBatch egMaxHexLen (fileLines files o) = some (es, ks) →
          (es.map List.length).sum + es.length ≤ 1154 := by
  have hgets : ∀ o o', Busy (fileLines files) (Exceeds 1) o → send4g files o = some o' → o' ≠ o →
      GetsOn4g files o := fun _ _ _ => GetsOn.of_ne
  rw [(drain_send4g files).served_iff hgets]
  simp only [not_exceeds_eg, rawCost_eq_sum]
  exact Iff.rfl

/-- LoRa passes all lines when each has at most 128 bytes. -/
theorem sendLora_served_iff (files : Fin 2 → Option (List Char)) (offsets : Fin 2 → Nat) :
    Served (sendLora files) (Busy (fileLines files) (Exceeds 1)) (GetsOnLora files) offsets ↔
      ∀ i, ∀ line ∈ fileLines files offsets i, ∃ size ≤ 128, lineSize line = some size := by
  have hgets : ∀ o o', Busy (fileLines files) (Exceeds 1) o → sendLora files o = some o' → o' ≠ o →
      GetsOnLora files o := fun _ _ _ => GetsOn.of_ne
  rw [(drain_sendLora files).served_iff hgets]
  simp only [not_exceeds, implies_true, and_true]
  exact Iff.rfl

/-- BeiDou passes all lines of a window when each has at most 229 bytes. -/
theorem sendBd_served_iff (files : Fin mainPathCount → Option (List Char))
    (endOffsets offsets : Fin mainPathCount → Nat) :
    Served (sendBd files endOffsets) (Busy (windowLines files endOffsets) (Exceeds 1)) (GetsOnBd files endOffsets)
        offsets ↔
      ∀ i, ∀ line ∈ windowLines files endOffsets offsets i, ∃ size ≤ 229, lineSize line = some size := by
  have hgets : ∀ o o', Busy (windowLines files endOffsets) (Exceeds 1) o → sendBd files endOffsets o = some o' →
      o' ≠ o → GetsOnBd files endOffsets o := fun _ _ _ => GetsOn.of_ne
  rw [(drain_sendBd files endOffsets).served_iff hgets]
  simp only [not_exceeds, implies_true, and_true]

/-- When each call of a packer gets on as long as a line with two data bytes is pending,
so that repeated calls pass them all. -/
theorem packers_served_iff (files : Fin mainPathCount → Option (List Char))
    (offsets endOffsets : Fin mainPathCount → Nat) (loraFiles : Fin 2 → Option (List Char)) (loraOffsets : Fin 2 → Nat) :
    (Served (send4g files) (Busy (fileLines files) (Exceeds 1)) (GetsOn4g files) offsets ↔
      (∀ i, ∀ line ∈ fileLines files offsets i, lineSize line ≠ none) ∧
        ∀ o, Reaches (send4g files) offsets o → ∀ es ks, hexBatch egMaxHexLen (fileLines files o) = some (es, ks) →
          (es.map List.length).sum + es.length ≤ 1154) ∧
    (Served (sendLora loraFiles) (Busy (fileLines loraFiles) (Exceeds 1)) (GetsOnLora loraFiles) loraOffsets ↔
      ∀ i, ∀ line ∈ fileLines loraFiles loraOffsets i, ∃ size ≤ 128, lineSize line = some size) ∧
    (Served (sendBd files endOffsets) (Busy (windowLines files endOffsets) (Exceeds 1)) (GetsOnBd files endOffsets)
        offsets ↔
      ∀ i, ∀ line ∈ windowLines files endOffsets offsets i, ∃ size ≤ 229, lineSize line = some size) :=
  ⟨send4g_served_iff files offsets, sendLora_served_iff loraFiles loraOffsets, sendBd_served_iff files endOffsets offsets⟩

/-! ## Logs of records -/

theorem lineSize_firstPiece (r : Record) : lineSize (r.line.take (packLineSize - 1)) = shownSize r := by
  rw [lineSize, parseLogLine_firstPiece, shownSize]
  split <;> rfl

theorem lineSize_secondPiece (r : Record) : lineSize (r.line.drop (packLineSize - 1)) = some 0 := by
  rw [lineSize, parseLogLine_secondPiece]
  rfl

/-- The lines pending in a log of records, as `pack_data_from_files` reads them, are as
long as what it is shown of the records; the second pieces have no data. -/
theorem forall_linesFrom_records {P : Option Nat → Prop} (hzero : P (some 0)) (rs : List Record) (k : Nat) :
    (∀ line ∈ linesFrom packLineSize (some (logText rs)) (lineStart rs k), P (lineSize line)) ↔
      ∀ r ∈ rs.drop k, P (shownSize r) := by
  rw [linesFrom, Option.getD_some, drop_lineStart, fgetsAll_logText]
  simp only [List.mem_flatMap, linePieces, forall_exists_index, and_imp]
  constructor
  · intro h r hr
    rw [← lineSize_firstPiece]
    exact h _ r hr List.mem_cons_self
  · rintro h line r hr hline
    rcases List.mem_cons.mp hline with rfl | hsecond
    · rw [lineSize_firstPiece]
      exact h r hr
    · split at hsecond
      · cases hsecond
      · rw [List.mem_singleton.mp hsecond, lineSize_secondPiece]
        exact hzero

/-- Those in a window of records, as `main_pack_pending_until` reads them, are as long as
the messages. -/
theorem linesWithin_records (rs : List Record) (m pos : Nat) :
    linesWithin (pos + (logText (rs.take m)).length) pos (rs.map Record.line) = (rs.take m).map Record.line := by
  induction rs generalizing m pos with
  | nil => simp [linesWithin]
  | cons r rs ih =>
    have hpos := List.length_pos_iff.mpr r.line_ne_nil
    cases m with
    | zero => simp [linesWithin, hpos]
    | succ m =>
      have h := ih m (pos + r.line.length)
      rw [Nat.add_assoc] at h
      simp [linesWithin, logText_cons, h]

theorem forall_window_records {P : Option Nat → Prop} (rs : List Record) (k m : Nat) :
    (∀ line ∈ linesWithin (lineStart rs (k + m)) (lineStart rs k)
        (linesFrom untilLineSize (some (logText rs)) (lineStart rs k)), P (lineSize line)) ↔
      ∀ r ∈ (rs.drop k).take m, P (some r.payload.length) := by
  rw [linesFrom, Option.getD_some, drop_lineStart, fgetsAll_logText_until, lineStart_add, linesWithin_records]
  simp only [List.forall_mem_map, lineSize, parseLogLine_record, Option.map_some]

/-- The logs of records. -/
def logsOf {n : Nat} (recs : Fin n → List Record) : Fin n → Option (List Char) := fun i => some (logText (recs i))

/-- Messages pass over LoRa when at most 128 bytes are shown of each, and no line is cut
within a byte. -/
theorem sendLora_served_records (recs : Fin 2 → List Record) (start : Fin 2 → Nat) :
    Served (sendLora (logsOf recs)) (Busy (fileLines (logsOf recs)) (Exceeds 1)) (GetsOnLora (logsOf recs))
        (fun i => lineStart (recs i) (start i)) ↔
      ∀ i, ∀ r ∈ (recs i).drop (start i), ¬CutInByte r ∧ (shown r).length ≤ 128 := by
  have hshown : ∀ r, (∃ size ≤ 128, shownSize r = some size) ↔ ¬CutInByte r ∧ (shown r).length ≤ 128 := by
    intro r
    rw [shownSize]
    split <;> simp_all
  rw [sendLora_served_iff]
  simp only [fileLines, logsOf, forall_linesFrom_records (P := fun item => ∃ size ≤ 128, item = some size)
    ⟨0, by decide, rfl⟩, hshown]

/-- Messages pass over BeiDou when each has at most 229 bytes. -/
theorem sendBd_served_records (recs : Fin mainPathCount → List Record) (start count : Fin mainPathCount → Nat) :
    Served (sendBd (logsOf recs) fun i => lineStart (recs i) (start i + count i))
        (Busy (windowLines (logsOf recs) fun i => lineStart (recs i) (start i + count i)) (Exceeds 1))
        (GetsOnBd (logsOf recs) fun i => lineStart (recs i) (start i + count i))
        (fun i => lineStart (recs i) (start i)) ↔
      ∀ i, ∀ r ∈ ((recs i).drop (start i)).take (count i), r.payload.length ≤ 229 := by
  rw [sendBd_served_iff]
  simp only [windowLines, logsOf, forall_window_records (P := fun item => ∃ size ≤ 229, item = some size)]
  simp

/-! ## Lines that block -/

/-- The first log has one record, and the others none. -/
def oneRecord (r : Record) {n : Nat} : Fin (n + 1) → List Record := Fin.cons [r] fun _ => []

theorem fileLines_oneRecord (r : Record) {n : Nat} (i : Fin (n + 1)) :
    fileLines (logsOf (oneRecord r)) (fun _ => 0) i = if i = 0 then linePieces r else [] := by
  rw [fileLines, linesFrom, logsOf, Option.getD_some, List.drop_zero, fgetsAll_logText, oneRecord]
  cases i using Fin.cases <;> simp

/-- A batch of the lines of the first log, if the others have none. -/
theorem takeBatch_first {acc : List (List UInt8) → List (Option Nat) → Option Nat} (hnil : ∀ es, acc es [] = some 0)
    {n : Nat} {pending : Fin (n + 1) → List (List Char)} (hrest : ∀ i : Fin n, pending i.succ = []) :
    takeBatch acc pending = (acc [] ((pending 0).map lineSize)).map fun k =>
      (pieces (pending 0) k, Fin.cons k fun _ => 0) := by
  have hidle : ∀ es, threadFin (fun (i : Fin n) es => (acc es ((pending i.succ).map lineSize)).map fun k =>
      (es ++ pieces (pending i.succ) k, k)) es = some (es, fun _ => 0) := fun es =>
    threadFin_const fun i => by simp [hrest, hnil, pieces]
  rw [takeBatch, threadFin]
  cases acc [] ((pending 0).map lineSize) with
  | none => rfl
  | some k => simp only [Option.map_some, Option.bind_some, hidle, List.nil_append]

theorem lineSize_line (r : Record) : lineSize r.line = some r.payload.length := by
  rw [lineSize, parseLogLine_record]
  rfl

/-- A message of 255 bytes whose line is cut within a byte. -/
def torn : Record := zeros 255 10 (by decide) (by decide)

theorem shownSize_torn : shownSize torn = none := by
  have hhead : headerLength torn = 33 := by decide +kernel
  have hlen := torn.length_line
  rw [show torn.payload = List.replicate 255 0 from payload_zeros _ _ _ _, List.length_replicate, hhead] at hlen
  exact if_pos ⟨by rw [hlen]; decide, by rw [hhead]⟩

theorem shownSize_long : shownSize long = some 150 := by
  have hline : long.line.length = 483 := length_line_zeros _ _ _ _ (by decide)
  rw [shownSize_of_length_le (by rw [hline]; decide), show long.payload = List.replicate 150 0 from payload_zeros _ _ _ _,
    List.length_replicate]

theorem hexBatch_oneRecord (cap : Nat) (r : Record) {n : Nat} :
    hexBatch cap (fileLines (logsOf (oneRecord r (n := n))) fun _ => 0) =
      (accept cap 0 ((linePieces r).map lineSize)).map fun k => (pieces (linePieces r) k, Fin.cons k fun _ => 0) := by
  have hfirst : fileLines (logsOf (oneRecord r (n := n))) (fun _ => 0) 0 = linePieces r := by
    rw [fileLines_oneRecord, if_pos rfl]
  rw [hexBatch, takeBatch_first (fun _ => rfl) fun i => by
    rw [fileLines_oneRecord, if_neg (Fin.succ_ne_zero i)], hfirst]
  rfl

/-- The first log's line has at least two data bytes. -/
theorem busy_oneRecord {r : Record} {n : Nat} (h : ∀ size, shownSize r = some size → 1 < size) :
    Busy (fileLines (logsOf (oneRecord r (n := n)))) (Exceeds 1) fun _ => 0 := by
  refine ⟨0, r.line.take (packLineSize - 1), ?_, ?_⟩
  · rw [fileLines_oneRecord, if_pos rfl]
    exact List.mem_cons_self
  · rwa [Exceeds, lineSize_firstPiece]

/-- A call with an undefined result does not get on, nor one that packs nothing and leaves
the offsets as they are. -/
theorem not_getsOn {n : Nat} {entryCount : (Fin n → Nat) → Option Nat}
    {send : (Fin n → Nat) → Option (Fin n → Nat)} {o : Fin n → Nat} (hcount : ∀ k, entryCount o = some k → k = 0)
    (hsend : ∀ o', send o = some o' → o' = o) : ¬GetsOn entryCount send o := by
  rintro (⟨k, hk, hpos⟩ | ⟨o', ho', hne⟩)
  · exact Nat.lt_irrefl 0 (hcount k hk ▸ hpos)
  · exact hne (hsend o' ho')

theorem behind_zero {n : Nat} (lines : Fin (n + 1) → List (List Char)) (o : Fin (n + 1) → Nat) :
    behind lines o (Fin.cons 0 fun _ => 0) = o := by
  funext i
  cases i using Fin.cases <;> simp [behind]

/-- 4G is blocked by a line that is cut within a byte. -/
theorem send4g_blocked :
    ¬∀ (recs : Fin mainPathCount → List Record) (o : Fin mainPathCount → Nat),
      Busy (fileLines (logsOf recs)) (Exceeds 1) o → GetsOn4g (logsOf recs) o := by
  intro h
  have hnone : packDataFromFiles (logsOf (oneRecord torn (n := 3))) (fun _ => 0) egMaxHexLen = none := by
    rw [packDataFromFiles_lines, Option.map_eq_none_iff]
    show hexBatch egMaxHexLen (fileLines (logsOf (oneRecord torn)) fun _ => 0) = none
    rw [hexBatch_oneRecord, linePieces, List.map_cons, lineSize_firstPiece, shownSize_torn]
    rfl
  refine not_getsOn ?_ ?_ (h (oneRecord torn) (fun _ => 0) (busy_oneRecord fun size hsize => ?_))
  · simp [hnone]
  · simp [send4g, mainPackPending, hnone]
  · rw [shownSize_torn] at hsize
    cases hsize

/-- LoRa is blocked by a message of 150 bytes. -/
theorem sendLora_blocked :
    ¬∀ (recs : Fin 2 → List Record) (o : Fin 2 → Nat), Busy (fileLines (logsOf recs)) (Exceeds 1) o →
      GetsOnLora (logsOf recs) o := by
  intro h
  have hpieces : (linePieces long).map lineSize = [some 150] := by
    have hline : long.line.length = 483 := length_line_zeros _ _ _ _ (by decide)
    rw [linePieces, if_pos (by rw [hline]; decide), List.map_singleton, lineSize_firstPiece, shownSize_long]
  have hempty : packDataFromFiles (logsOf (oneRecord long (n := 1))) (fun _ => 0) loraMaxHexLen =
      some (batchOf [], fun _ => 0) := by
    rw [packDataFromFiles_lines]
    show (hexBatch loraMaxHexLen (fileLines (logsOf (oneRecord long)) fun _ => 0)).map _ = _
    rw [hexBatch_oneRecord, hpieces, show accept loraMaxHexLen 0 [some 150] = some 0 by decide]
    simp only [Option.map_some, behind_zero]
    rfl
  refine not_getsOn ?_ ?_ (h (oneRecord long) (fun _ => 0) (busy_oneRecord fun size hsize => ?_))
  · simp [hempty, batchOf]
  · simp [sendLora, hempty]
  · rw [shownSize_long] at hsize
    cases hsize
    decide

/-- The window that ends with the first log's line. -/
theorem windowLines_oneRecord (r : Record) {n : Nat} (i : Fin (n + 1)) :
    windowLines (logsOf (oneRecord r)) (fun _ => r.line.length) (fun _ => 0) i = if i = 0 then [r.line] else [] := by
  rw [windowLines, linesFrom, logsOf, Option.getD_some, List.drop_zero, fgetsAll_logText_until, oneRecord]
  cases i using Fin.cases <;> simp [linesWithin]

/-- BeiDou is blocked by a message of 256 bytes. -/
theorem sendBd_blocked :
    ¬∀ (recs : Fin mainPathCount → List Record) (endOffsets o : Fin mainPathCount → Nat),
      Busy (windowLines (logsOf recs) endOffsets) (Exceeds 1) o → GetsOnBd (logsOf recs) endOffsets o := by
  intro h
  have hsize : lineSize longest.line = some 256 := by
    rw [lineSize_line, show longest.payload = List.replicate 256 0 from payload_zeros _ _ _ _, List.length_replicate]
  have hfirst : windowLines (logsOf (oneRecord longest (n := 3))) (fun _ => longest.line.length) (fun _ => 0) 0 =
      [longest.line] := by
    rw [windowLines_oneRecord, if_pos rfl]
  have hempty : mainPackPendingUntil (logsOf (oneRecord longest (n := 3))) (fun _ => 0)
      (fun _ => longest.line.length) bdMaxHexLen bdMaxRawLen = some ⟨0, fun _ => 0, [], [], 0, 0⟩ := by
    rw [mainPackPendingUntil_lines, rawBatch, takeBatch_first (fun _ => rfl) fun i => by
      rw [windowLines_oneRecord, if_neg (Fin.succ_ne_zero i)], hfirst, List.map_singleton, hsize,
      show acceptRaw bdMaxRawLen (rawCost []) [some 256] = some 0 by decide]
    simp only [Option.map_some, behind_zero]
    rfl
  refine not_getsOn ?_ ?_ (h (oneRecord longest) (fun _ => longest.line.length) (fun _ => 0)
    ⟨0, longest.line, ?_, fun size heq => ?_⟩)
  · simp [hempty]
  · simp [sendBd, hempty, PackResult.sentOffsets]
  · rw [hfirst]
    exact List.mem_singleton.mpr rfl
  · rw [hsize] at heq
    cases heq
    decide

/-- Each of the packers can be blocked by a single line. -/
theorem packers_blocked :
    (¬∀ (recs : Fin mainPathCount → List Record) (o : Fin mainPathCount → Nat),
      Busy (fileLines (logsOf recs)) (Exceeds 1) o → GetsOn4g (logsOf recs) o) ∧
    (¬∀ (recs : Fin 2 → List Record) (o : Fin 2 → Nat),
      Busy (fileLines (logsOf recs)) (Exceeds 1) o → GetsOnLora (logsOf recs) o) ∧
    ¬∀ (recs : Fin mainPathCount → List Record) (endOffsets o : Fin mainPathCount → Nat),
      Busy (windowLines (logsOf recs) endOffsets) (Exceeds 1) o → GetsOnBd (logsOf recs) endOffsets o :=
  ⟨send4g_blocked, sendLora_blocked, sendBd_blocked⟩

end Dtu
