import Dtu.Framework.Pacing
import Dtu.Impl.DebugQueue
import Dtu.Proof.BdLink

/-!
# The queue of the Bluetooth thread is one

`DebugBtQueue.Holds` relates the eight items and their indices to the queue of payloads
that `DebugBt` is; `debug_bt_bd_enqueue` and `debug_bt_bd_flush_once` keep it, and do to
the queue what `debugBtBdEnqueue` and `debugBtBdFlushOnce` say. So the payloads come out
as they went in, and the time of the last one keeps them apart (`DebugRun.fifo`).
-/

namespace Dtu

/-! ## The ring and the queue -/

namespace DebugBtQueue

/-- The items between the indices. -/
def items (q : DebugBtQueue) : List DebugBtBdItem :=
  Ring.contents q.gDebugBtBdQueue q.gDebugBtBdHead q.gDebugBtBdCount.toNat

/-- The indices fit, and the items hold the payloads of the queue. -/
structure Holds (q : DebugBtQueue) (d : DebugBt) : Prop where
  size : q.gDebugBtBdQueue.length = debugBtBdQueueDepth
  buffers : ∀ item ∈ q.gDebugBtBdQueue, item.data.length = debugBtMaxRawLen
  head : q.gDebugBtBdHead < debugBtBdQueueDepth
  tail : (q.gDebugBtBdHead + q.gDebugBtBdCount.toNat) % debugBtBdQueueDepth = q.gDebugBtBdTail
  count : 0 ≤ q.gDebugBtBdCount ∧ q.gDebugBtBdCount ≤ debugBtBdQueueDepth
  stored : ∀ item ∈ q.items, 0 < item.len ∧ item.len * 2 ≤ bdMaxRawLen - 2
  queue : q.items.map (fun item => item.data.take item.len) = d.gDebugBtBdQueue
  last : q.gDebugBtLastBdSendTime = d.gDebugBtLastBdSendTime

variable {q q' : DebugBtQueue} {d : DebugBt}

theorem holds_init : DebugBtQueue.init.Holds ⟨[], 0⟩ where
  size := List.length_replicate
  buffers := fun item hitem => by
    rw [List.eq_of_mem_replicate hitem]
    exact List.length_replicate
  head := by decide
  tail := rfl
  count := by decide
  stored := fun _ hitem => nomatch hitem
  queue := rfl
  last := rfl

theorem Holds.length_queue (h : q.Holds d) : (d.gDebugBtBdQueue.length : Int) = q.gDebugBtBdCount := by
  have hcount := h.count
  rw [← h.queue, List.length_map, items, Ring.length_contents (by rw [h.size]; omega)]
  omega

/-- The payload in the buffer of an item. -/
theorem exists_modify_eq_write (h : q.Holds d) {data : List UInt8} (hfits : data.length ≤ debugBtMaxRawLen) :
    ∃ item : DebugBtBdItem, item.data.length = debugBtMaxRawLen ∧ item.len = data.length ∧
      item.data.take item.len = data ∧
      (q.gDebugBtBdQueue.modify q.gDebugBtBdTail fun item => ⟨Ring.memcpy item.data 0 data, data.length⟩) =
        Ring.write q.gDebugBtBdQueue q.gDebugBtBdTail [item] := by
  have htail : q.gDebugBtBdTail < q.gDebugBtBdQueue.length := by
    rw [h.size, ← h.tail]
    exact Nat.mod_lt _ (by decide)
  have hbuffer : (q.gDebugBtBdQueue[q.gDebugBtBdTail]).data.length = debugBtMaxRawLen :=
    h.buffers _ (List.getElem_mem htail)
  refine ⟨⟨Ring.memcpy (q.gDebugBtBdQueue[q.gDebugBtBdTail]).data 0 data, data.length⟩, ?_, rfl, ?_,
    Ring.modify_eq_write htail _⟩
  · exact (Ring.length_memcpy (by omega)).trans hbuffer
  · show (Ring.memcpy _ 0 data).take data.length = data
    rw [Ring.memcpy, List.take_zero, List.nil_append, List.take_left]

/-- An item is written behind the others. -/
theorem Holds.push (h : q.Holds d) (hroom : q.gDebugBtBdCount < debugBtBdQueueDepth) {data : List UInt8}
    (hpos : 0 < data.length) (hlen : data.length * 2 ≤ bdMaxRawLen - 2) :
    Holds { q with
      gDebugBtBdQueue := q.gDebugBtBdQueue.modify q.gDebugBtBdTail fun item =>
        ⟨Ring.memcpy item.data 0 data, data.length⟩
      gDebugBtBdTail := (q.gDebugBtBdTail + 1) % debugBtBdQueueDepth
      gDebugBtBdCount := q.gDebugBtBdCount + 1 } { d with gDebugBtBdQueue := d.gDebugBtBdQueue ++ [data] } := by
  have hsize := h.size
  obtain ⟨hzero, hdepth⟩ := h.count
  have hfits : data.length ≤ debugBtMaxRawLen := by
    simp only [bdMaxRawLen, debugBtMaxRawLen] at hlen ⊢
    omega
  obtain ⟨item, hbuffer, hitemLen, hpayload, hmodify⟩ := exists_modify_eq_write h hfits
  have hnext : (q.gDebugBtBdCount + 1).toNat = q.gDebugBtBdCount.toNat + 1 := by omega
  have htail : q.gDebugBtBdTail < q.gDebugBtBdQueue.length := by
    rw [hsize, ← h.tail]
    exact Nat.mod_lt _ (by decide)
  rw [hmodify]
  -- The slot behind `tail` is the end of the ring.
  have hitems : Ring.contents (Ring.write q.gDebugBtBdQueue q.gDebugBtBdTail [item]) q.gDebugBtBdHead
      (q.gDebugBtBdCount + 1).toNat = q.items ++ [item] := by
    rw [items, hnext, ← h.tail, ← hsize]
    exact Ring.contents_write (by omega) (by rw [List.length_singleton]; omega)
  refine ⟨?_, fun other hother => ?_, h.head, ?_, ⟨?_, ?_⟩, fun other hother => ?_, ?_, h.last⟩
  · exact (Ring.length_write (Nat.le_of_lt htail) (by rw [List.length_singleton]; omega)).trans hsize
  · have hother : other ∈ Ring.write q.gDebugBtBdQueue q.gDebugBtBdTail [item] := hother
    rw [Ring.write_singleton htail, List.mem_append, List.mem_cons] at hother
    rcases hother with hother | rfl | hother
    · exact h.buffers _ (List.mem_of_mem_take hother)
    · exact hbuffer
    · exact h.buffers _ (List.mem_of_mem_drop hother)
  · show (q.gDebugBtBdHead + (q.gDebugBtBdCount + 1).toNat) % _ = (q.gDebugBtBdTail + 1) % _
    rw [hnext, ← h.tail, Nat.mod_add_mod, Nat.add_assoc]
  · show 0 ≤ q.gDebugBtBdCount + 1
    omega
  · show q.gDebugBtBdCount + 1 ≤ _
    omega
  · have hother : other ∈ q.items ++ [item] := hitems ▸ hother
    rcases List.mem_append.mp hother with hother | hother
    · exact h.stored _ hother
    · rw [List.mem_singleton.mp hother, hitemLen]
      exact ⟨hpos, hlen⟩
  · rw [items, hitems, List.map_append, h.queue, List.map_singleton, hpayload]

/-- The first item is taken. -/
theorem Holds.pop (h : q.Holds d) (hsome : 0 < q.gDebugBtBdCount) (now : Nat) :
    ∃ item queue, q.gDebugBtBdQueue[q.gDebugBtBdHead]? = some item ∧ 0 < item.len ∧
      item.len * 2 ≤ bdMaxRawLen - 2 ∧ d.gDebugBtBdQueue = item.data.take item.len :: queue ∧
      Holds { q with
        gDebugBtBdHead := (q.gDebugBtBdHead + 1) % debugBtBdQueueDepth
        gDebugBtBdCount := q.gDebugBtBdCount - 1
        gDebugBtLastBdSendTime := now } ⟨queue, now⟩ := by
  have hsize := h.size
  obtain ⟨hzero, hdepth⟩ := h.count
  have hhead : q.gDebugBtBdHead < q.gDebugBtBdQueue.length := hsize ▸ h.head
  obtain ⟨n, hn⟩ : ∃ n, q.gDebugBtBdCount.toNat = n + 1 := ⟨q.gDebugBtBdCount.toNat - 1, by omega⟩
  have hleft : (q.gDebugBtBdCount - 1).toNat = n := by omega
  have hitems : q.items = q.gDebugBtBdQueue[q.gDebugBtBdHead] ::
      Ring.contents q.gDebugBtBdQueue ((q.gDebugBtBdHead + 1) % debugBtBdQueueDepth) n := by
    have hmod := @Ring.contents_congr _ q.gDebugBtBdQueue ((q.gDebugBtBdHead + 1) % debugBtBdQueueDepth)
      (q.gDebugBtBdHead + 1) (by rw [hsize, Nat.mod_mod]) n
    rw [items, hn, hmod]
    exact Ring.contents_succ hhead (by omega)
  have hfirst := h.stored _ (hitems ▸ List.mem_cons_self)
  have hqueue := h.queue
  rw [hitems, List.map_cons] at hqueue
  refine ⟨_, _, List.getElem?_eq_getElem hhead, hfirst.1, hfirst.2, hqueue.symm, hsize, h.buffers,
    Nat.mod_lt _ (by decide), ?_, ⟨?_, ?_⟩, fun other hother => ?_, ?_, rfl⟩
  · show ((q.gDebugBtBdHead + 1) % _ + (q.gDebugBtBdCount - 1).toNat) % _ = q.gDebugBtBdTail
    rw [← h.tail, hleft, hn, Nat.mod_add_mod, Nat.add_assoc, Nat.add_comm 1]
  · show 0 ≤ q.gDebugBtBdCount - 1
    omega
  · show q.gDebugBtBdCount - 1 ≤ _
    omega
  · refine h.stored other ?_
    rw [hitems]
    refine List.mem_cons_of_mem _ ?_
    rw [← hleft]
    exact hother
  · rw [items, hleft]

/-- `debug_bt_bd_enqueue` of `len` bytes at `data` is that of the payload. -/
theorem Holds.enqueue (h : q.Holds d) {data : List UInt8} {len ret : Int} (hlen : len ≤ data.length)
    (hq : q.enqueue (some data) len = some (q', ret)) :
    q'.Holds (debugBtBdEnqueue d (data.take len.toNat)).1 ∧ ret = (debugBtBdEnqueue d (data.take len.toNat)).2 := by
  have hqueue := h.length_queue
  have hpayload : (data.take len.toNat).length = len.toNat := by
    rw [List.length_take]
    omega
  unfold DebugBtQueue.enqueue at hq
  rw [debugBtBdEnqueue, hpayload]
  dsimp only at hq
  split at hq
  · cases hq
    rw [if_pos (by omega)]
    exact ⟨h, rfl⟩
  split at hq
  · cases hq
  rw [if_neg (by omega)]
  split at hq
  · cases hq
    rw [if_pos (by simp only [bdMaxRawLen] at *; omega)]
    exact ⟨h, rfl⟩
  rename_i hshort
  have hshort : len.toNat * 2 ≤ bdMaxRawLen - 2 := by
    simp only [bdMaxRawLen] at *
    omega
  rw [if_neg (Nat.not_lt.mpr hshort)]
  split at hq
  · cases hq
    rw [if_pos (by omega)]
    exact ⟨h, rfl⟩
  cases hq
  rw [if_neg (by omega)]
  have hroom : q.gDebugBtBdCount < debugBtBdQueueDepth := by omega
  have hpush := @Holds.push q d h hroom (data.take len.toNat) (by omega) (hpayload.symm ▸ hshort)
  rw [hpayload] at hpush
  exact ⟨hpush, rfl⟩

/-- `debug_bt_bd_flush_once` takes what the queue gives. -/
theorem Holds.take (h : q.Holds d) (now : Nat) :
    q.take now = none ∧ debugBtBdFlushOnce d now = none ∨
      ∃ item q' d', q.take now = some (item, q') ∧ debugBtBdFlushOnce d now = some (item.data, d') ∧ q'.Holds d' := by
  have hqueue := h.length_queue
  have hlast := h.last
  unfold DebugBtQueue.take debugBtBdFlushOnce
  split
  · refine .inl ⟨rfl, ?_⟩
    have hnil : d.gDebugBtBdQueue = [] := List.eq_nil_of_length_eq_zero (by omega)
    rw [hnil]
  rename_i hsome
  obtain ⟨item, queue, hitem, -, -, hcons, hpop⟩ := h.pop (by omega) now
  rw [hcons, hitem]
  dsimp only
  split
  · rename_i hearly
    refine .inl ⟨rfl, if_pos ?_⟩
    simp only [debugBtBdIntervalSec] at *
    omega
  · rename_i hlate
    refine .inr ⟨_, _, _, rfl, if_neg ?_, hpop⟩
    simp only [debugBtBdIntervalSec] at *
    omega

/-- A rejected payload. -/
theorem enqueue_rejected {data : Option (List UInt8)} {len ret : Int} (hq : q.enqueue data len = some (q', ret))
    (hret : ret ≠ 0) : q' = q ∧ (ret = -1 ∨ ret = -2 ∨ ret = -3) := by
  unfold DebugBtQueue.enqueue at hq
  repeat' split at hq
  all_goals cases hq
  all_goals first
    | exact absurd rfl hret
    | exact ⟨rfl, by decide⟩

end DebugBtQueue

/-! ## The calls -/

namespace DebugRun

/-- The queue is what has been accepted and not handed over, and its last time keeps
what has been handed over apart. -/
structure Kept (s : DebugRun) (d : DebugBt) : Prop where
  holds : s.queue.Holds d
  accepted : s.accepted = s.handed.map Prod.fst ++ d.gDebugBtBdQueue
  paced : Paced debugBtBdIntervalSec (s.handed.map fun p => (p.2, p.2)) d.gDebugBtLastBdSendTime s.clock

variable {s s' : DebugRun} {d : DebugBt}

theorem kept_start {clock : Int} (hclock : 0 < clock) : (start clock).Kept ⟨[], 0⟩ where
  holds := DebugBtQueue.holds_init
  accepted := rfl
  paced := .start hclock

theorem debugBtBdEnqueue_eq (d : DebugBt) (data : List UInt8) :
    (debugBtBdEnqueue d data).1 =
      { d with gDebugBtBdQueue := if (debugBtBdEnqueue d data).2 = 0 then d.gDebugBtBdQueue ++ [data]
        else d.gDebugBtBdQueue } := by
  unfold debugBtBdEnqueue
  repeat' split
  all_goals first
    | rfl
    | contradiction

theorem Kept.enqueue (h : s.Kept d) {data : Option (List UInt8)} {len ret : Int}
    (hs : s.step (.enqueue data len) = some (s', ret)) : ∃ d', s'.Kept d' := by
  rw [step] at hs
  split at hs
  · cases hs
  rename_i hbytes
  obtain ⟨⟨q, r⟩, hq, hs⟩ := Option.map_eq_some_iff.mp hs
  cases hs
  cases data with
  | none =>
    cases hq
    exact ⟨d, h.holds, h.accepted, h.paced⟩
  | some data =>
    obtain ⟨hholds, rfl⟩ := h.holds.enqueue (by simpa using hbytes) hq
    refine ⟨_, hholds, ?_, ?_⟩
    · rw [debugBtBdEnqueue_eq]
      dsimp only
      split
      · rw [h.accepted, List.append_assoc]
        rfl
      · exact h.accepted
    · rw [debugBtBdEnqueue_eq]
      exact h.paced

theorem Kept.flush (h : s.Kept d) {now ret : Int} {dataSend : List Char → Int}
    (hs : s.step (.flush now dataSend) = some (s', ret)) : ∃ d', s'.Kept d' := by
  rw [step] at hs
  split at hs
  · cases hs
  rename_i hnow
  cases hs
  have hpos := h.paced.now_pos
  obtain ⟨n, rfl⟩ : ∃ n : Nat, now = n := ⟨now.toNat, by omega⟩
  unfold DebugBtQueue.flushOnce
  rcases h.holds.take n with ⟨hnone, -⟩ | ⟨item, q, d', hsome, hflush, hholds⟩
  · rw [hnone]
    simp only [Option.toList_none, List.map_nil, List.append_nil]
    exact ⟨d, h.holds, h.accepted, h.paced.tick (Int.not_lt.mp hnow)⟩
  · obtain ⟨queue, hcons, rfl, hlate⟩ := debugBtBdFlushOnce_eq_some hflush
    rw [hsome]
    refine ⟨_, hholds, ?_, ?_⟩
    · show s.accepted = (s.handed ++ [(item.data, (n : Int))]).map Prod.fst ++ queue
      rw [h.accepted, hcons, List.map_append, List.append_assoc]
      rfl
    · show Paced _ ((s.handed ++ [(item.data, (n : Int))]).map fun p => (p.2, p.2)) n n
      rw [List.map_append, List.map_singleton]
      exact h.paced.concat (Int.not_lt.mp hnow) (Int.le_refl _) fun hset _ => by omega

/-- What holds behind any calls; `defined` says that only an `int` overflow leaves one
of `debug_bt_bd_enqueue` without a result. -/
structure Fifo (s : DebugRun) : Prop where
  count : 0 ≤ s.queue.gDebugBtBdCount ∧ s.queue.gDebugBtBdCount ≤ debugBtBdQueueDepth
  tail : (s.queue.gDebugBtBdHead + s.queue.gDebugBtBdCount) % debugBtBdQueueDepth = s.queue.gDebugBtBdTail
  handed : s.handed.map Prod.fst <+: s.accepted
  left : s.queue.gDebugBtBdCount + s.handed.length = s.accepted.length
  apart : s.handed.Pairwise fun (p q : List UInt8 × Int) => p.2 + debugBtBdIntervalSec ≤ q.2
  stored : ∀ item ∈ s.queue.items, item.data.length = debugBtMaxRawLen ∧ 0 < item.len ∧
    item.len ≤ debugBtMaxRawLen ∧ item.len ≤ bdMaxRawLen
  rejected : ∀ data len s' ret, s.step (.enqueue data len) = some (s', ret) → ret ≠ 0 →
    s' = s ∧ (ret = -1 ∨ ret = -2 ∨ ret = -3)
  defined : ∀ data (len : Int), len * 2 < 2 ^ 31 → (∀ bytes ∈ data, len ≤ (bytes : List UInt8).length) →
    (s.step (.enqueue data len)).isSome = true

theorem step_rejected {data : Option (List UInt8)} {len ret : Int} (hs : s.step (.enqueue data len) = some (s', ret))
    (hret : ret ≠ 0) : s' = s ∧ (ret = -1 ∨ ret = -2 ∨ ret = -3) := by
  rw [step] at hs
  split at hs
  · cases hs
  obtain ⟨⟨q, r⟩, hq, hs⟩ := Option.map_eq_some_iff.mp hs
  cases hs
  obtain ⟨rfl, hcode⟩ := DebugBtQueue.enqueue_rejected hq hret
  rw [if_neg hret]
  exact ⟨rfl, hcode⟩

theorem isSome_step_enqueue (s : DebugRun) {data : Option (List UInt8)} {len : Int} (hlen : len * 2 < 2 ^ 31)
    (hbytes : ∀ bytes ∈ data, len ≤ (bytes : List UInt8).length) : (s.step (.enqueue data len)).isSome = true := by
  rw [step]
  cases data with
  | none => rfl
  | some bytes =>
    have hle : ¬((bytes.length : Int) < len) := Int.not_lt.mpr (hbytes bytes rfl)
    rw [if_neg (by simpa using hle), Option.isSome_map]
    simp only [DebugBtQueue.enqueue, if_neg (Int.not_le.mpr hlen)]
    repeat' split
    all_goals rfl

theorem Kept.fifo (h : s.Kept d) : s.Fifo where
  count := h.holds.count
  tail := by
    obtain ⟨n, hn⟩ := Int.eq_ofNat_of_zero_le h.holds.count.1
    rw [← h.holds.tail, hn, Int.toNat_natCast]
    rfl
  handed := ⟨_, h.accepted.symm⟩
  left := by
    have hlength := h.holds.length_queue
    rw [h.accepted, List.length_append, List.length_map]
    omega
  apart := List.pairwise_map.mp h.paced.apart
  stored := fun item hitem => by
    have hbuffer := h.holds.buffers item (by
      rw [DebugBtQueue.items, Ring.contents] at hitem
      exact List.mem_rotate.mp (List.mem_of_mem_take hitem))
    obtain ⟨hpos, hlen⟩ := h.holds.stored item hitem
    simp only [bdMaxRawLen, debugBtMaxRawLen] at hlen hbuffer ⊢
    omega
  rejected := fun _ _ _ _ => step_rejected
  defined := fun _ _ => s.isSome_step_enqueue

end DebugRun

/-- From the initial queue, whatever the calls are. -/
theorem debugBtBd_fifo {clock : Int} (hclock : 0 < clock) {s : DebugRun}
    (h : Runs DebugRun.step (fun _ _ => True) (DebugRun.start clock) s) : s.Fifo := by
  obtain ⟨d, hkept⟩ : ∃ d, s.Kept d := by
    refine Runs.invariant (I := fun s => ∃ d, DebugRun.Kept s d) ⟨_, DebugRun.kept_start hclock⟩ ?_ h
    rintro s a s' ret ⟨d, hkept⟩ - hs
    cases a with
    | enqueue data len => exact hkept.enqueue hs
    | flush now dataSend => exact hkept.flush hs
  exact hkept.fifo

/-- A full queue behind one payload sent: the ninth goes in its place, the tenth is rejected,
and the next one comes out a minute later. -/
theorem debugBtBd_fifo_full : ∃ s, Runs DebugRun.step (fun _ _ => True) (DebugRun.start 1) s ∧
    s.accepted = [[0], [1], [2], [3], [4], [5], [6], [7], [8]] ∧ s.handed = [([0], 1), ([1], 61)] ∧ s.Fifo := by
  have hcalls : ((runList DebugRun.step (fun _ _ => true) (DebugRun.start 1)
      ([0, 1, 2, 3, 4, 5, 6, 7].map (fun b => .enqueue (some [b]) 1) ++
        [.flush 1 fun _ => 0, .enqueue (some [8]) 1, .enqueue (some [9]) 1, .flush 60 fun msg => msg.length,
          .flush 61 fun msg => msg.length])).map fun s => (s.accepted, s.handed)) =
      some ([[0], [1], [2], [3], [4], [5], [6], [7], [8]], [([0], 1), ([1], 61)]) := by
    decide +kernel
  obtain ⟨s, hrun, hs⟩ := Option.map_eq_some_iff.mp hcalls
  have hruns : Runs DebugRun.step (fun _ _ => True) (DebugRun.start 1) s :=
    Runs.start.of_runList (fun _ _ _ => trivial) hrun
  exact ⟨s, hruns, congrArg Prod.fst hs, congrArg Prod.snd hs, debugBtBd_fifo (by decide) hruns⟩

end Dtu
