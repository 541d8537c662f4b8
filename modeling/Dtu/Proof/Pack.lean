import Dtu.Proof.Batch

/-!
# The packers and the windows they pack

What a packer packs of a file is what its reader finds between the offset it
starts at and the one it leaves (`packFile_eq` with `accept`, `packUntil_some`):
so both packers, when they return, have packed exactly the entries of the files
between `offsets` and `pending_offsets`, and moved no offset backwards
(`mainPackPending_window`, `mainPackPendingUntil_window`).
-/

namespace Dtu

open Stdio Loop

theorem entryOf_eq {line : List Char} {raw : List UInt8} (h : parseLogLine (cstr line) 256 = some raw) :
    entryOf line = if raw.length < 2 then none else some raw := by
  simp only [entryOf, h, Option.filter_some, decide_eq_true_eq]
  split <;> split <;> first | rfl | omega

theorem two_le_of_entryOf {line : List Char} {e : List UInt8} (h : entryOf line = some e) : 2 ≤ e.length := by
  simpa using (Option.filter_eq_some_iff.mp h).2

/-- The loop of `pack_data_from_files` over a file, in terms of what its
budget accepts. -/
theorem packFile_eq (cap : Nat) (cs : List (List Char)) (pos off : Nat) (es : List (List UInt8)) :
    packFile cap cs pos off (batchOf es) =
      (accept cap (hexCost es) (cs.map lineSize)).map fun k =>
        (batchOf (es ++ pieces cs k), if k = 0 then off else pos + (cs.take k).flatten.length) := by
  induction cs generalizing pos off es with
  | nil => simp [packFile, accept, pieces]
  | cons line cs ih =>
    cases hp : parseLogLine (cstr line) 256 with
    | none => simp [packFile, lineSize, hp, accept]
    | some raw =>
      have hent := entryOf_eq hp
      have hused : (batchOf es).hexLen + (if 0 < (batchOf es).entryCount then 1 else 0) = hexCost es :=
        (hexCost_eq es).symm
      simp only [packFile, hp, List.map_cons, lineSize, Option.map_some, accept, hused]
      by_cases hshort : raw.length < 2
      · rw [if_pos hshort, if_pos hshort, ih, Option.map_map]
        refine congrArg (Option.map · _) (funext fun k => ?_)
        rw [if_pos hshort] at hent
        cases k with
        | zero => simp [pieces]
        | succ k => simp [pieces, hent, Nat.add_assoc]
      · rw [if_neg hshort, if_neg hshort]
        rw [if_neg hshort] at hent
        by_cases hfit : cap < hexCost es + 2 * raw.length
        · simp [if_pos hfit, pieces]
        · rw [if_neg hfit, if_neg hfit, batchOf_add, ih, hexCost_append, Option.map_map]
          refine congrArg (Option.map · _) (funext fun k => ?_)
          cases k with
          | zero => simp [pieces, hent]
          | succ k => simp [pieces, hent, Nat.add_assoc]

theorem two_le_of_mem_entriesBetween {size : Nat} {file : Option (List Char)} {start stop : Nat} {e : List UInt8}
    (h : e ∈ entriesBetween size file start stop) : 2 ≤ e.length := by
  obtain ⟨_, -, h⟩ := List.mem_filterMap.mp h
  exact two_le_of_entryOf h

theorem two_le_of_mem_windowEntries {size n : Nat} {files : Fin n → Option (List Char)} {start stop : Fin n → Nat}
    {e : List UInt8} (h : e ∈ windowEntries size files start stop) : 2 ≤ e.length := by
  obtain ⟨_, -, h⟩ := List.mem_flatMap.mp h
  exact two_le_of_mem_entriesBetween h

/-- The pieces a reader has passed are those between where it started and where
it is. -/
theorem pieces_eq_entriesBetween {size : Nat} (hsize : 1 < size) (content : List Char) (start k : Nat) :
    pieces (fgetsAll size (content.drop start)) k =
      entriesBetween size (some content) start
        (start + ((fgetsAll size (content.drop start)).take k).flatten.length) := by
  rw [entriesBetween, slice, Option.getD_some, List.drop_take, Nat.add_sub_cancel_left,
    fgetsAll_take hsize (List.take_append_drop k _).symm, pieces]

/-- There is nothing between an offset and one that is not behind it. -/
theorem slice_of_le (content : List Char) {start stop : Nat} (h : stop ≤ start) : slice content start stop = [] := by
  rw [slice, List.drop_of_length_le]
  rw [List.length_take]
  omega

theorem entriesBetween_of_le (size : Nat) (file : Option (List Char)) {start stop : Nat} (h : stop ≤ start) :
    entriesBetween size file start stop = [] := by
  rw [entriesBetween, slice_of_le _ h]
  rfl

theorem exists_lt_of_windowEntries {size n : Nat} {files : Fin n → Option (List Char)} {start stop : Fin n → Nat}
    (h : windowEntries size files start stop ≠ []) : ∃ i, start i < stop i := by
  refine Classical.byContradiction fun hnone => h ?_
  rw [windowEntries, List.flatMap_eq_nil_iff]
  exact fun i _ => entriesBetween_of_le _ _ (Nat.le_of_not_lt fun hlt => hnone ⟨i, hlt⟩)

theorem entriesBetween_none (size start stop : Nat) : entriesBetween size none start stop = [] := by
  simp [entriesBetween, slice]

/-- A reader that has passed some pieces is not behind the end of its file, unless
it started there. -/
theorem pieces_end_le {size : Nat} (hsize : 1 < size) (content : List Char) (start k : Nat) :
    start + ((fgetsAll size (content.drop start)).take k).flatten.length ≤ max start content.length := by
  have hsplit : ((fgetsAll size (content.drop start)).take k).flatten.length +
      ((fgetsAll size (content.drop start)).drop k).flatten.length = (content.drop start).length := by
    rw [← List.length_append, ← List.flatten_append, List.take_append_drop, fgetsAll_flatten hsize]
  rw [List.length_drop] at hsplit
  omega

/-- The batch ends with an entry. -/
theorem accept_succ {cap used : Nat} {items : List (Option Nat)} {k : Nat} (h : accept cap used items = some (k + 1)) :
    ∃ size, items[k]? = some (some size) ∧ 2 ≤ size := by
  induction items generalizing used k with
  | nil => cases h
  | cons item items ih =>
    cases item with
    | none => cases h
    | some size =>
      simp only [accept] at h
      have hrest : ∀ {used j}, accept cap used items = some j → j + 1 = k + 1 → j ≠ 0 →
          ∃ size', (some size :: items)[k]? = some (some size') ∧ 2 ≤ size' := fun hj hk hne => by
        obtain ⟨j, rfl⟩ := Nat.exists_eq_succ_of_ne_zero hne
        rw [show k = j + 1 by omega, List.getElem?_cons_succ]
        exact ih hj
      split at h
      · obtain ⟨j, hj, heq⟩ := Option.map_eq_some_iff.mp h
        split at heq
        · cases heq
        · exact hrest hj heq ‹_›
      · split at h
        · cases h
        · obtain ⟨j, hj, heq⟩ := Option.map_eq_some_iff.mp h
          by_cases hzero : j = 0
          · exact ⟨size, by rw [show k = 0 by omega]; rfl, by omega⟩
          · exact hrest hj heq hzero

/-- A reader that has passed the entry at `k` has it for its last piece. -/
theorem lastEntry_of_lineSize {size : Nat} (hsize : 1 < size) {content : List Char} {start k : Nat} {len : Nat}
    (h : ((fgetsAll size (content.drop start)).map lineSize)[k]? = some (some len)) (hlen : 2 ≤ len) :
    LastEntry size content start
      (start + ((fgetsAll size (content.drop start)).take (k + 1)).flatten.length) := by
  rw [List.getElem?_map, Option.map_eq_some_iff] at h
  obtain ⟨line, hline, hp⟩ := h
  obtain ⟨raw, hraw, rfl⟩ := Option.map_eq_some_iff.mp hp
  refine ⟨(fgetsAll size (content.drop start)).take k, line, ?_, ?_⟩
  · rw [slice, List.drop_take, Nat.add_sub_cancel_left, fgetsAll_take hsize (List.take_append_drop _ _).symm,
      List.take_add_one, hline]
    rfl
  · rw [entryOf_eq hraw, if_neg (by omega)]
    exact Option.some_ne_none raw

/-- What `pack_data_from_files` packs are the entries between the offsets
before and after it, the last line of each log among them. -/
theorem packDataFromFiles_window {n : Nat} {files : Fin n → Option (List Char)} {offsets pending : Fin n → Nat}
    {cap : Nat} {b : HexBatch} (h : packDataFromFiles files offsets cap = some (b, pending)) :
    b = batchOf (windowEntries packLineSize files offsets pending) ∧
      ∀ i, (offsets i ≤ pending i ∧ pending i ≤ max (offsets i) ((files i).getD []).length) ∧
        (offsets i < pending i → LastEntry packLineSize ((files i).getD []) (offsets i) (pending i)) := by
  refine threadFin_collect batchOf (fun i stop => entriesBetween packLineSize (files i) (offsets i) stop)
    (fun i stop => (offsets i ≤ stop ∧ stop ≤ max (offsets i) ((files i).getD []).length) ∧
      (offsets i < stop → LastEntry packLineSize ((files i).getD []) (offsets i) stop))
    (fun i es b' stop hi => ?_) (e := []) h
  cases hfile : files i with
  | none =>
    simp only [hfile, Option.some.injEq, Prod.mk.injEq] at hi
    obtain ⟨rfl, rfl⟩ := hi
    simp [entriesBetween_none]
  | some content =>
    simp only [hfile, packFile_eq, Option.map_eq_some_iff, Prod.mk.injEq] at hi
    obtain ⟨k, hk, rfl, rfl⟩ := hi
    have hstop : (if k = 0 then offsets i else offsets i +
        ((fgetsAll packLineSize (content.drop (offsets i))).take k).flatten.length) =
        offsets i + ((fgetsAll packLineSize (content.drop (offsets i))).take k).flatten.length := by
      split
      · next hk => simp [hk]
      · rfl
    rw [hstop, pieces_eq_entriesBetween (by decide)]
    refine ⟨rfl, ⟨Nat.le_add_right _ _, pieces_end_le (by decide) content (offsets i) k⟩, fun hlt => ?_⟩
    cases k with
    | zero => exact absurd hlt (by simp)
    | succ k =>
      obtain ⟨size, hline, hsize⟩ := accept_succ hk
      exact lastEntry_of_lineSize (by decide) hline hsize

theorem packFile_fits {cap : Nat} {lines : List (List Char)} {pos off stop : Nat} {b b' : HexBatch} (hb : b.hexLen ≤ cap)
    (h : packFile cap lines pos off b = some (b', stop)) : b'.hexLen ≤ cap := by
  induction lines generalizing pos off b with
  | nil =>
    cases h
    exact hb
  | cons line lines ih =>
    rw [packFile] at h
    split at h
    · cases h
    rename_i raw hraw
    have hadd : (b.add raw).hexLen = b.hexLen + (if 0 < b.entryCount then 1 else 0) + 2 * raw.length := by
      simp only [HexBatch.add]
      split <;> rfl
    generalize (if 0 < b.entryCount then 1 else 0) = comma at h hadd
    split at h
    · exact ih hb h
    split at h
    · cases h
      exact hb
    · exact ih (by omega) h

/-- `out_hex_len` stays within the budget. -/
theorem packDataFromFiles_fits {n : Nat} {files : Fin n → Option (List Char)} {offsets pending : Fin n → Nat} {cap : Nat}
    {b : HexBatch} (h : packDataFromFiles files offsets cap = some (b, pending)) : b.hexLen ≤ cap := by
  refine threadFin_invariant (fun b : HexBatch => b.hexLen ≤ cap) (fun i b b' stop hb hi => ?_) (Nat.zero_le _) h
  split at hi
  · cases hi
    exact hb
  · exact packFile_fits hb hi

theorem ne_nil_of_mem_windowEntries {size n : Nat} {files : Fin n → Option (List Char)} {start stop : Fin n → Nat} :
    ∀ e ∈ windowEntries size files start stop, e ≠ [] := by
  rintro e he rfl
  exact absurd (two_le_of_mem_windowEntries he) (by simp)

/-- A packer that has returned 0 with a batch. -/
structure PackedWindow (size : Nat) {n : Nat} (files : Fin n → Option (List Char)) (offsets : Fin n → Nat)
    (r : PackResult n) : Prop where
  le (i : Fin n) : offsets i ≤ r.pendingOffsets i
  end_le (i : Fin n) : r.pendingOffsets i ≤ max (offsets i) ((files i).getD []).length
  count : r.entryCount = (windowEntries size files offsets r.pendingOffsets).length
  hex : r.hexBuf = joinHex (windowEntries size files offsets r.pendingOffsets)
  raw : r.ret = 0 → r.rawBuf = joinRaw (windowEntries size files offsets r.pendingOffsets)

@[simp] theorem finishPack_pendingOffsets {n : Nat} (pendingOffsets : Fin n → Nat) (hexBuf : List Char)
    (entryCount rawBufSize : Nat) :
    (finishPack pendingOffsets hexBuf entryCount rawBufSize).pendingOffsets = pendingOffsets := by
  unfold finishPack
  split
  · rfl
  · split <;> rfl

theorem finishPack_window {size n : Nat} {files : Fin n → Option (List Char)} {offsets pending : Fin n → Nat}
    (hle : ∀ i, offsets i ≤ pending i ∧ pending i ≤ max (offsets i) ((files i).getD []).length)
    {rawBufSize : Nat} (hm : 0 < rawBufSize) :
    PackedWindow size files offsets
      (finishPack pending (joinHex (windowEntries size files offsets pending))
        (windowEntries size files offsets pending).length rawBufSize) := by
  rw [finishPack_eq pending ne_nil_of_mem_windowEntries hm]
  split
  · exact ⟨fun i => (hle i).1, fun i => (hle i).2, rfl, rfl, fun _ => rfl⟩
  · exact ⟨fun i => (hle i).1, fun i => (hle i).2, rfl, rfl, fun h => absurd h (show (-1 : Int) ≠ 0 by decide)⟩

/-- `main_pack_pending` packs what lies between `offsets` and `pending_offsets`. -/
theorem mainPackPending_window {n : Nat} {files : Fin n → Option (List Char)} {offsets : Fin n → Nat}
    {cap rawBufSize : Nat} (hm : 0 < rawBufSize) {r : PackResult n}
    (h : mainPackPending files offsets cap rawBufSize = some r) : PackedWindow packLineSize files offsets r := by
  simp only [mainPackPending, Option.map_eq_some_iff, Prod.exists] at h
  obtain ⟨b, pending, hp, rfl⟩ := h
  obtain ⟨rfl, hle⟩ := packDataFromFiles_window hp
  exact finishPack_window (fun i => (hle i).1) hm

/-- The last line it takes of a log is an entry. -/
theorem mainPackPending_lastEntry {n : Nat} {files : Fin n → Option (List Char)} {offsets : Fin n → Nat}
    {cap rawBufSize : Nat} {r : PackResult n} (h : mainPackPending files offsets cap rawBufSize = some r) (i : Fin n)
    (hlt : offsets i < r.pendingOffsets i) :
    LastEntry packLineSize ((files i).getD []) (offsets i) (r.pendingOffsets i) := by
  simp only [mainPackPending, Option.map_eq_some_iff, Prod.exists] at h
  obtain ⟨b, pending, hp, rfl⟩ := h
  rw [finishPack_pendingOffsets] at hlt ⊢
  exact ((packDataFromFiles_window hp).2 i).2 hlt

/-! ## `main_pack_pending_until` -/

/-- The loop of `main_pack_pending_until` over a file that it has not passed:
it stops at a piece, within `endOffset`, and has packed the entries up to it. -/
theorem packUntil_some {cap rawBufSize endOffset : Nat} {cs : List (List Char)} {pos : Nat}
    {es : List (List UInt8)} {b : UntilBatch} {pending : Nat} (hpos : pos ≤ endOffset)
    (h : packUntil cap rawBufSize endOffset cs pos pos (untilOf es) = some (b, pending)) :
    ∃ k, b = untilOf (es ++ pieces cs k) ∧ pending = pos + (cs.take k).flatten.length ∧ pending ≤ endOffset := by
  induction cs generalizing pos es with
  | nil =>
    simp only [packUntil, Option.some.injEq, Prod.mk.injEq] at h
    exact ⟨0, by simp [pieces, h.1], by simp [h.2], h.2 ▸ hpos⟩
  | cons line cs ih =>
    have stop {b' : UntilBatch} {p : Nat} (h : some (untilOf es, pos) = some (b', p)) : ∃ k,
        b' = untilOf (es ++ pieces (line :: cs) k) ∧ p = pos + ((line :: cs).take k).flatten.length ∧
        p ≤ endOffset := by
      simp only [Option.some.injEq, Prod.mk.injEq] at h
      exact ⟨0, by simp [pieces, h.1], by simp [h.2], h.2 ▸ hpos⟩
    simp only [packUntil] at h
    by_cases hend : endOffset ≤ pos
    · exact stop (by simpa only [if_pos hend] using h)
    rw [if_neg hend] at h
    by_cases hline : endOffset < pos + line.length
    · exact stop (by simpa only [if_pos hline] using h)
    rw [if_neg hline] at h
    cases hp : parseLogLine (cstr line) 256 with
    | none => simp [hp] at h
    | some raw =>
      have hent := entryOf_eq hp
      simp only [hp] at h
      by_cases hshort : raw.length < 2
      · rw [if_pos hshort] at h hent
        obtain ⟨k, rfl, rfl, hle⟩ := ih (by omega) h
        exact ⟨k + 1, by simp [pieces, hent], by simp [Nat.add_assoc], by simpa using hle⟩
      · rw [if_neg hshort] at h hent
        by_cases hhex : cap < (untilOf es).hexLen + (if 0 < (untilOf es).entryCount then 1 else 0) + 2 * raw.length
        · exact stop (by simpa only [if_pos hhex] using h)
        rw [if_neg hhex] at h
        by_cases hraw : rawBufSize < (untilOf es).packedRawLen + (if 0 < (untilOf es).entryCount then 1 else 0) +
            raw.length
        · exact stop (by simpa only [if_pos hraw] using h)
        rw [if_neg hraw, untilOf_add (by rw [hexCost_eq]; exact Nat.le_of_not_lt hhex)] at h
        obtain ⟨k, rfl, rfl, hle⟩ := ih (by omega) h
        exact ⟨k + 1, by simp [pieces, hent], by simp [Nat.add_assoc], by simpa using hle⟩

/-- The turn of `main_pack_pending_until` for one file. -/
theorem packUntilFile_some {file : Option (List Char)} {offset endOffset cap rawBufSize : Nat} {es : List (List UInt8)}
    {b : UntilBatch} {stop : Nat} (h : packUntilFile file offset endOffset cap rawBufSize (untilOf es) = some (b, stop)) :
    b = untilOf (es ++ entriesBetween untilLineSize file offset stop) ∧ stop ≤ max offset endOffset ∧
      ∃ k, stop = offset + ((fgetsAll untilLineSize ((file.getD []).drop offset)).take k).flatten.length := by
  have hnone : ∀ es', some (untilOf es', offset) = some (b, stop) → b = untilOf es' ∧ stop = offset :=
    fun es' h => ⟨(Prod.mk.inj (Option.some.inj h)).1.symm, (Prod.mk.inj (Option.some.inj h)).2.symm⟩
  cases file with
  | none =>
    obtain ⟨rfl, rfl⟩ := hnone es h
    exact ⟨by rw [entriesBetween_none, List.append_nil], Nat.le_max_left _ _, 0, by simp⟩
  | some content =>
    simp only [packUntilFile] at h
    by_cases hend : endOffset ≤ offset
    · rw [if_pos hend] at h
      obtain ⟨rfl, rfl⟩ := hnone es h
      exact ⟨by rw [entriesBetween_of_le _ _ (Nat.le_refl _), List.append_nil], Nat.le_max_left _ _, 0, by simp⟩
    · rw [if_neg hend] at h
      obtain ⟨k, rfl, rfl, hle⟩ := packUntil_some (by omega) h
      rw [pieces_eq_entriesBetween (by decide)]
      exact ⟨rfl, Nat.le_trans hle (Nat.le_max_right _ _), k, rfl⟩

/-- `main_pack_pending_until` packs what lies between `offsets` and
`pending_offsets`, passes no end offset that it has not started behind, and
stops behind a line as it reads them. -/
theorem mainPackPendingUntil_window {n : Nat} {files : Fin n → Option (List Char)} {offsets endOffsets : Fin n → Nat}
    {cap rawBufSize : Nat} (hm : 0 < rawBufSize) {r : PackResult n}
    (h : mainPackPendingUntil files offsets endOffsets cap rawBufSize = some r) :
    PackedWindow untilLineSize files offsets r ∧ ∀ i, r.pendingOffsets i ≤ max (offsets i) (endOffsets i) ∧
      ∃ k, r.pendingOffsets i =
        offsets i + ((fgetsAll untilLineSize (((files i).getD []).drop (offsets i))).take k).flatten.length := by
  simp only [mainPackPendingUntil, Option.map_eq_some_iff, Prod.exists] at h
  obtain ⟨b, pending, hp, rfl⟩ := h
  obtain ⟨rfl, hle⟩ := threadFin_collect untilOf
    (fun i stop => entriesBetween untilLineSize (files i) (offsets i) stop)
    (fun i stop => stop ≤ max (offsets i) (endOffsets i) ∧ ∃ k, stop =
      offsets i + ((fgetsAll untilLineSize (((files i).getD []).drop (offsets i))).take k).flatten.length)
    (fun i es b' stop hi => packUntilFile_some hi) (e := []) hp
  refine ⟨finishPack_window (fun i => ?_) hm, fun i => ?_⟩
  · obtain ⟨-, k, hk⟩ := hle i
    rw [hk]
    exact ⟨Nat.le_add_right _ _, pieces_end_le (by decide) _ (offsets i) k⟩
  · rw [finishPack_pendingOffsets]
    exact hle i

end Dtu
