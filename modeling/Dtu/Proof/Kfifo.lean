import Dtu.Impl.Kfifo
import Dtu.Proof.LogLine

/-!
# The FIFO is a queue

`kfifo_put` appends to the bytes queued in a FIFO and `kfifo_get` takes the first
of them (`kfifoPut_queued`, `kfifoGet_queued`), whatever its counters are:
they wrap at a multiple of its size. With the room checks of the producers a
FIFO of messages then is a queue of messages: what `write_file_thread` has got,
and what is queued, is what the producers have put (`dataFifo_run_queue`).
-/

namespace Dtu

open Bytes Dtu.Ring

/-! ## Bytes -/

/-- What holds of a FIFO: its size is a power of two, that of its buffer, and at
most that many bytes are queued. -/
structure Kfifo.Valid (fifo : Kfifo) : Prop where
  pow : ∃ k, fifo.size.toNat = 2 ^ k
  length : fifo.buffer.length = fifo.size.toNat
  le : (fifo.in_ - fifo.out).toNat ≤ fifo.size.toNat

/-- The bytes queued in a FIFO. -/
def Kfifo.queued (fifo : Kfifo) : List UInt8 := contents fifo.buffer fifo.out.toNat (fifo.in_ - fifo.out).toNat

theorem Kfifo.Valid.length_queued {fifo : Kfifo} (h : fifo.Valid) :
    fifo.queued.length = (fifo.in_ - fifo.out).toNat :=
  length_contents (h.length ▸ h.le)

theorem Kfifo.Valid.pos {fifo : Kfifo} (h : fifo.Valid) : 0 < fifo.size.toNat := by
  obtain ⟨k, hk⟩ := h.pow
  rw [hk]
  exact Nat.two_pow_pos k

/-- The mask takes a counter modulo the size. -/
theorem Kfifo.Valid.mask {fifo : Kfifo} (h : fifo.Valid) (x : UInt32) :
    (x &&& (fifo.size - 1)).toNat = x.toNat % fifo.size.toNat := by
  obtain ⟨k, hk⟩ := h.pow
  have hone : (1 : UInt32) ≤ fifo.size := UInt32.le_iff_toNat_le.mpr h.pos
  rw [UInt32.toNat_and, UInt32.toNat_sub_of_le _ _ hone, hk]
  exact Nat.and_two_pow_sub_one_eq_mod x.toNat k

/-- The counters wrap at a multiple of the size. -/
theorem Kfifo.Valid.dvd {fifo : Kfifo} (h : fifo.Valid) : fifo.size.toNat ∣ 2 ^ 32 := by
  obtain ⟨k, hk⟩ := h.pow
  have hlt : 2 ^ k < 2 ^ 32 := hk ▸ fifo.size.toNat_lt
  rw [hk]
  exact Nat.pow_dvd_pow 2 (Nat.le_of_lt ((Nat.pow_lt_pow_iff_right (by decide)).mp hlt))

theorem Kfifo.Valid.in_mod {fifo : Kfifo} (h : fifo.Valid) :
    fifo.in_.toNat % fifo.size.toNat = (fifo.out.toNat + (fifo.in_ - fifo.out).toNat) % fifo.size.toNat := by
  have hin := fifo.in_.toNat_lt
  have hout := fifo.out.toNat_lt
  have hwrap : fifo.in_.toNat = (fifo.out.toNat + (fifo.in_ - fifo.out).toNat) % 2 ^ 32 := by
    rw [UInt32.toNat_sub]
    omega
  rw [hwrap, Nat.mod_mod_of_dvd _ h.dvd]

theorem toNat_uintMin (a b : UInt32) : (uintMin a b).toNat = min a.toNat b.toNat := by
  unfold uintMin
  split <;> rename_i h <;> rw [UInt32.lt_iff_toNat_lt] at h <;> omega

theorem Kfifo.Valid.toNat_left {fifo : Kfifo} (h : fifo.Valid) :
    (kfifoLeft fifo).toNat = fifo.size.toNat - (fifo.in_ - fifo.out).toNat :=
  UInt32.toNat_sub_of_le _ _ (UInt32.le_iff_toNat_le.mpr h.le)

theorem toNat_room (fifo : Kfifo) : fifo.size - fifo.in_ + fifo.out = kfifoLeft fifo := by
  apply UInt32.toNat_inj.mp
  have hsize := fifo.size.toNat_lt
  have hin := fifo.in_.toNat_lt
  have hout := fifo.out.toNat_lt
  simp only [kfifoLeft, UInt32.toNat_add, UInt32.toNat_sub]
  omega

/-- The part of a transfer of `n` bytes that is before the end of the buffer. -/
theorem Kfifo.Valid.toNat_piece {fifo : Kfifo} (h : fifo.Valid) (x len : UInt32) :
    (uintMin len (fifo.size - (x &&& (fifo.size - 1)))).toNat =
      min len.toNat (fifo.buffer.length - x.toNat % fifo.buffer.length) := by
  have hlt : x.toNat % fifo.size.toNat < fifo.size.toNat := Nat.mod_lt _ h.pos
  rw [toNat_uintMin, UInt32.toNat_sub_of_le, h.mask, h.length]
  exact UInt32.le_iff_toNat_le.mpr (by rw [h.mask]; omega)

/-- `kfifo_put` writes to the ring as many bytes as it has room for. -/
theorem kfifoPut_eq {fifo : Kfifo} (h : fifo.Valid) {buffer : List UInt8} {len : UInt32}
    (hlen : len.toNat ≤ buffer.length) :
    kfifoPut fifo buffer len =
      ({ fifo with
          buffer := write fifo.buffer (fifo.in_.toNat % fifo.buffer.length)
            (buffer.take (uintMin len (kfifoLeft fifo)).toNat)
          in_ := fifo.in_ + uintMin len (kfifoLeft fifo) }, uintMin len (kfifoLeft fifo)) := by
  have hn : (uintMin len (kfifoLeft fifo)).toNat ≤ buffer.length := by rw [toNat_uintMin]; omega
  have htake : (buffer.take (uintMin len (kfifoLeft fifo)).toNat).length = (uintMin len (kfifoLeft fifo)).toNat := by
    rw [List.length_take, Nat.min_eq_left hn]
  have hpiece := h.toNat_piece fifo.in_ (uintMin len (kfifoLeft fifo))
  have hrest : (uintMin len (kfifoLeft fifo) - uintMin (uintMin len (kfifoLeft fifo))
      (fifo.size - (fifo.in_ &&& (fifo.size - 1)))).toNat = (uintMin len (kfifoLeft fifo)).toNat -
        min (uintMin len (kfifoLeft fifo)).toNat (fifo.buffer.length - fifo.in_.toNat % fifo.buffer.length) := by
    rw [UInt32.toNat_sub_of_le _ _ (UInt32.le_iff_toNat_le.mpr (by omega)), hpiece]
  simp only [kfifoPut, toNat_room]
  rw [write, htake, List.take_take, List.drop_take, Nat.min_eq_left (by omega : min _ _ ≤ _), hpiece, hrest, h.mask,
    h.length]

/-- What `kfifo_put` takes is appended to the queued bytes. -/
theorem kfifoPut_queued {fifo : Kfifo} (h : fifo.Valid) {buffer : List UInt8} {len : UInt32}
    (hlen : len.toNat ≤ buffer.length) (hroom : len ≤ kfifoLeft fifo) :
    (kfifoPut fifo buffer len).1.Valid ∧
    (kfifoPut fifo buffer len).1.queued = fifo.queued ++ buffer.take len.toNat ∧
    (kfifoPut fifo buffer len).1.size = fifo.size := by
  have hmin : uintMin len (kfifoLeft fifo) = len := by
    apply UInt32.toNat_inj.mp
    rw [toNat_uintMin, Nat.min_eq_left (UInt32.le_iff_toNat_le.mp hroom)]
  have hfit := UInt32.le_iff_toNat_le.mp hroom
  rw [h.toNat_left] at hfit
  have hle := h.le
  have hpos := h.pos
  have hcount : (fifo.in_ + len - fifo.out).toNat = (fifo.in_ - fifo.out).toNat + len.toNat := by
    have hsize := fifo.size.toNat_lt
    have hin := fifo.in_.toNat_lt
    have hout := fifo.out.toNat_lt
    simp only [UInt32.toNat_sub, UInt32.toNat_add] at hle hfit ⊢
    omega
  have htake : (buffer.take len.toNat).length = len.toNat := by rw [List.length_take, Nat.min_eq_left hlen]
  rw [kfifoPut_eq h hlen, hmin]
  refine ⟨⟨h.pow, ?_, ?_⟩, ?_, rfl⟩
  · rw [length_write (Nat.le_of_lt (Nat.mod_lt _ (h.length ▸ hpos))) (by rw [htake, h.length]; omega)]
    exact h.length
  · show (fifo.in_ + len - fifo.out).toNat ≤ fifo.size.toNat
    omega
  · show contents (write fifo.buffer (fifo.in_.toNat % fifo.buffer.length) (buffer.take len.toNat)) fifo.out.toNat
      (fifo.in_ + len - fifo.out).toNat = fifo.queued ++ buffer.take len.toNat
    have hw := contents_write (o := fifo.out.toNat) (h.length ▸ hpos)
      (show (fifo.in_ - fifo.out).toNat + (buffer.take len.toNat).length ≤ fifo.buffer.length by
        rw [htake, h.length]; omega)
    rw [htake, h.length, ← h.in_mod, ← h.length] at hw
    rw [hcount, hw]
    rfl

/-- `kfifo_get` takes the first of the queued bytes. -/
theorem kfifoGet_queued {fifo : Kfifo} (h : fifo.Valid) {len : UInt32} (havail : len ≤ kfifoLen fifo) :
    (kfifoGet fifo len).1.Valid ∧
    (kfifoGet fifo len).1.queued = fifo.queued.drop len.toNat ∧
    (kfifoGet fifo len).1.size = fifo.size ∧
    (kfifoGet fifo len).2 = (fifo.queued.take len.toNat, len) := by
  have hfit := UInt32.le_iff_toNat_le.mp havail
  simp only [kfifoLen] at hfit
  have hle := h.le
  have hmin : uintMin len (fifo.in_ - fifo.out) = len := by
    apply UInt32.toNat_inj.mp
    rw [toNat_uintMin, Nat.min_eq_left hfit]
  have hcount : (fifo.in_ - (fifo.out + len)).toNat = (fifo.in_ - fifo.out).toNat - len.toNat := by
    have hin := fifo.in_.toNat_lt
    have hout := fifo.out.toNat_lt
    simp only [UInt32.toNat_sub, UInt32.toNat_add] at hle hfit ⊢
    omega
  have hpiece := h.toNat_piece fifo.out len
  have hrest : (len - uintMin len (fifo.size - (fifo.out &&& (fifo.size - 1)))).toNat =
      len.toNat - min len.toNat (fifo.buffer.length - fifo.out.toNat % fifo.buffer.length) := by
    rw [UInt32.toNat_sub_of_le _ _ (UInt32.le_iff_toNat_le.mpr (by omega)), hpiece]
  simp only [kfifoGet, hmin]
  refine ⟨⟨h.pow, h.length, ?_⟩, ?_, trivial, ?_⟩
  · show (fifo.in_ - (fifo.out + len)).toNat ≤ fifo.size.toNat
    omega
  · show contents _ (fifo.out + len).toNat (fifo.in_ - (fifo.out + len)).toNat = _
    have hmod : (fifo.out + len).toNat % fifo.buffer.length =
        (fifo.out.toNat + len.toNat) % fifo.buffer.length := by
      rw [UInt32.toNat_add, h.length, Nat.mod_mod_of_dvd _ h.dvd]
    rw [hcount, contents_congr hmod, contents_drop hfit (by rw [h.length]; exact hle)]
    rfl
  · rw [hpiece, hrest, h.mask, ← h.length, Kfifo.queued, take_contents hfit, ← read_eq (by rw [h.length]; omega)]
    rfl

/-! ## Messages -/

theorem FifoMessage.length_bytes (msg : FifoMessage) : msg.bytes.length = messageSize.toNat := by
  simp only [FifoMessage.bytes, List.length_append, length_leBytes, Vector.length_toList]
  rfl

/-- A field of `k` bytes behind `pre`. -/
theorem leValue_field (k n : Nat) (hn : n < 256 ^ k) (pre post : List UInt8) {j : Nat} (hj : pre.length = j) :
    leValue (((pre ++ leBytes k n ++ post).drop j).take k) = n := by
  rw [List.append_assoc, List.drop_left' hj, List.take_left' (length_leBytes k n), leValue_leBytes,
    Nat.mod_eq_of_lt hn]

/-- The message of the bytes of a message is that message. -/
theorem FifoMessage.ofBytes_bytes (msg : FifoMessage) : FifoMessage.ofBytes msg.bytes = msg := by
  obtain ⟨type, len, data, frameId, partIndex, partCount⟩ := msg
  have hdata : data.toList.length = 256 := Vector.length_toList
  have htype := leValue_field 4 type.toNat type.toNat_lt [] (leBytes 4 len.toNat ++ data.toList ++
    leBytes 4 frameId.toNat ++ leBytes 2 partIndex.toNat ++ leBytes 2 partCount.toNat) (j := 0) rfl
  have hlen := leValue_field 4 len.toNat len.toNat_lt (leBytes 4 type.toNat) (data.toList ++
    leBytes 4 frameId.toNat ++ leBytes 2 partIndex.toNat ++ leBytes 2 partCount.toNat) (j := 4) (by simp)
  have hframe := leValue_field 4 frameId.toNat frameId.toNat_lt (leBytes 4 type.toNat ++ leBytes 4 len.toNat ++
    data.toList) (leBytes 2 partIndex.toNat ++ leBytes 2 partCount.toNat) (j := 264) (by simp)
  have hindex := leValue_field 2 partIndex.toNat partIndex.toNat_lt (leBytes 4 type.toNat ++ leBytes 4 len.toNat ++
    data.toList ++ leBytes 4 frameId.toNat) (leBytes 2 partCount.toNat) (j := 268) (by simp)
  have hcount := leValue_field 2 partCount.toNat partCount.toNat_lt (leBytes 4 type.toNat ++ leBytes 4 len.toNat ++
    data.toList ++ leBytes 4 frameId.toNat ++ leBytes 2 partIndex.toNat) [] (j := 270) (by simp)
  simp only [List.nil_append, List.append_nil, List.append_assoc, List.drop_zero] at htype hlen hframe hindex hcount
  have hbyte : ∀ i : Fin 256, (leBytes 4 type.toNat ++ (leBytes 4 len.toNat ++ (data.toList ++
      (leBytes 4 frameId.toNat ++ (leBytes 2 partIndex.toNat ++ leBytes 2 partCount.toNat))))).getD (8 + i) 0 =
      data[i] := fun i => by
    rw [List.getD_eq_getElem?_getD, List.getElem?_append_right (by simp; omega), length_leBytes,
      List.getElem?_append_right (by simp; omega), length_leBytes, List.getElem?_append_left (by omega)]
    simp [show 8 + i.val - 4 - 4 = i.val by omega]
  simp only [FifoMessage.ofBytes, FifoMessage.bytes, List.append_assoc, htype, hlen, hframe, hindex, hcount,
    UInt32.ofNat_toNat, UInt16.ofNat_toNat, FifoMessage.mk.injEq, true_and, and_true]
  apply Vector.ext
  intro i hi
  rw [Vector.getElem_ofFn]
  exact hbyte ⟨i, hi⟩

/-! ## One access -/

/-- What an access does: a thread takes the lock, tests the FIFO and finds what it needs or
lets go, puts or gets a message. -/
inductive DataFifo.Access {ι : Type} (s : DataFifo ι) : FifoAction ι → DataFifo ι → Prop
  | lockPut {producer : ι} {msg : FifoMessage} (hfree : s.holder = .free) :
      Access s (.lockPut producer msg) { s with holder := .testLeft producer msg }
  | lockGet (hfree : s.holder = .free) : Access s .lockGet { s with holder := .testLen }
  | stop (hholder : s.holder = .testLen) : Access s .stop { s with holder := .free }
  | full {producer : ι} {msg : FifoMessage} (hholder : s.holder = .testLeft producer msg)
      (hleft : kfifoLeft s.fifo < messageSize) : Access s .resume { s with holder := .free }
  | room {producer : ι} {msg : FifoMessage} (hholder : s.holder = .testLeft producer msg)
      (hleft : ¬kfifoLeft s.fifo < messageSize) : Access s .resume { s with holder := .put producer msg }
  | put {producer : ι} {msg : FifoMessage} (hholder : s.holder = .put producer msg) :
      Access s .resume { s with
        fifo := (kfifoPut s.fifo msg.bytes messageSize).1
        holder := .free
        accepted := s.accepted ++ [msg] }
  | empty (hholder : s.holder = .testLen) (hlen : kfifoLen s.fifo < messageSize) :
      Access s .resume { s with holder := .free }
  | found (hholder : s.holder = .testLen) (hlen : ¬kfifoLen s.fifo < messageSize) :
      Access s .resume { s with holder := .get }
  | get {fifo : Kfifo} {obtained : List FifoMessage} (hholder : s.holder = .get) :
      Access s .resume { s with fifo := fifo, holder := .free, obtained := obtained }

theorem DataFifo.access_of_step {ι : Type} {s s' : DataFifo ι} {action : FifoAction ι}
    (hs : s.step action = some s') : s.Access action s' := by
  cases action with
  | lockPut _ _ | lockGet | stop =>
    cases hholder : s.holder <;> simp only [DataFifo.step, hholder, reduceCtorEq, Option.some.injEq] at hs
    subst hs
    constructor
    exact hholder
  | resume =>
    cases hholder : s.holder with
    | free => simp only [DataFifo.step, hholder, reduceCtorEq] at hs
    | testLeft producer msg =>
      simp only [DataFifo.step, hholder] at hs
      split at hs
      · rename_i hleft
        cases hs
        exact .full hholder hleft
      · rename_i hleft
        cases hs
        exact .room hholder hleft
    | put producer msg =>
      simp only [DataFifo.step, hholder, Option.some.injEq] at hs
      subst hs
      exact .put hholder
    | testLen =>
      simp only [DataFifo.step, hholder] at hs
      split at hs
      · rename_i hlen
        cases hs
        exact .empty hholder hlen
      · rename_i hlen
        cases hs
        exact .found hholder hlen
    | get =>
      simp only [DataFifo.step, hholder, Option.some.injEq] at hs
      subst hs
      exact .get hholder

/-! ## The queue of messages -/

/-- `pending` are the messages queued, between those got and those put. -/
structure DataFifo.Queue {ι : Type} (s : DataFifo ι) (pending : List FifoMessage) : Prop where
  valid : s.fifo.Valid
  size : s.fifo.size = UInt32.ofNat fifoSize
  queued : s.fifo.queued = pending.flatMap FifoMessage.bytes
  accepted : s.accepted = s.obtained ++ pending
  /-- The room a producer has found is still there. -/
  room : ∀ producer msg, s.holder = .put producer msg → messageSize ≤ kfifoLeft s.fifo
  /-- The message that `write_file_thread` has found is still there. -/
  avail : s.holder = .get → messageSize ≤ kfifoLen s.fifo

theorem length_flatMap_bytes (pending : List FifoMessage) :
    (pending.flatMap FifoMessage.bytes).length = messageSize.toNat * pending.length :=
  length_flatMap_chunks (fun msg => msg.length_bytes) pending

/-- As many bytes are queued as the messages have. -/
theorem DataFifo.Queue.toNat_len {ι : Type} {s : DataFifo ι} {pending : List FifoMessage} (h : s.Queue pending) :
    (kfifoLen s.fifo).toNat = messageSize.toNat * pending.length := by
  rw [← length_flatMap_bytes, ← h.queued, h.valid.length_queued, kfifoLen]

theorem DataFifo.queue_init (ι : Type) (fifoBuffer : Vector UInt8 fifoSize) : (DataFifo.init ι fifoBuffer).Queue [] where
  valid := ⟨⟨14, rfl⟩, Vector.length_toList, by simp [DataFifo.init, kfifoInit]⟩
  size := rfl
  queued := by simp [DataFifo.init, kfifoInit, Kfifo.queued, contents]
  accepted := rfl
  room := by simp [DataFifo.init]
  avail := by simp [DataFifo.init]

/-- Taking or leaving the lock keeps the queue. -/
theorem DataFifo.Queue.hold {ι : Type} {s : DataFifo ι} {pending : List FifoMessage} (h : s.Queue pending)
    {holder : Holder ι} (hput : ∀ producer msg, holder = .put producer msg → messageSize ≤ kfifoLeft s.fifo)
    (hget : holder = .get → messageSize ≤ kfifoLen s.fifo) : { s with holder := holder }.Queue pending where
  valid := h.valid
  size := h.size
  queued := h.queued
  accepted := h.accepted
  room := hput
  avail := hget

/-- A put appends its message. -/
theorem DataFifo.Queue.put {ι : Type} {s s' : DataFifo ι} {pending : List FifoMessage} (h : s.Queue pending)
    {producer : ι} {msg : FifoMessage} (hholder : s.holder = .put producer msg) (hs : s.step .resume = some s') :
    s'.Queue (pending ++ [msg]) := by
  have hroom := h.room producer msg hholder
  obtain ⟨hvalid, hqueued, hsize⟩ := kfifoPut_queued h.valid (Nat.le_of_eq msg.length_bytes.symm) hroom
  rw [← msg.length_bytes, List.take_length] at hqueued
  simp only [DataFifo.step, hholder, Option.some.injEq] at hs
  subst hs
  exact
    { valid := hvalid
      size := hsize.trans h.size
      queued := by rw [hqueued, h.queued, List.flatMap_append, List.flatMap_singleton]
      accepted := by rw [h.accepted, List.append_assoc]
      room := by simp
      avail := by simp }

/-- A get takes the first message. -/
theorem DataFifo.Queue.get {ι : Type} {s s' : DataFifo ι} {pending : List FifoMessage} (h : s.Queue pending)
    (hholder : s.holder = .get) (hs : s.step .resume = some s') :
    ∃ msg rest, pending = msg :: rest ∧ s'.obtained = s.obtained ++ [msg] ∧ s'.holder = .free ∧
      s'.accepted = s.accepted ∧ s'.Queue rest := by
  have havail := h.avail hholder
  have hle := UInt32.le_iff_toNat_le.mp havail
  rw [h.toNat_len] at hle
  obtain ⟨msg, rest, rfl⟩ : ∃ msg rest, pending = msg :: rest := by
    refine List.exists_cons_of_ne_nil ?_
    rintro rfl
    exact absurd hle (by decide)
  obtain ⟨hvalid, hqueued, hsize, hget⟩ := kfifoGet_queued h.valid havail
  rw [h.queued, List.flatMap_cons, List.drop_left' msg.length_bytes] at hqueued
  rw [h.queued, List.flatMap_cons, List.take_left' msg.length_bytes] at hget
  simp only [DataFifo.step, hholder, hget, if_true, msg.ofBytes_bytes, Option.some.injEq] at hs
  subst hs
  refine ⟨msg, rest, rfl, rfl, rfl, rfl, ?_⟩
  exact
    { valid := hvalid
      size := hsize.trans h.size
      queued := hqueued
      accepted := by rw [h.accepted, List.append_assoc, List.singleton_append]
      room := by simp
      avail := by simp }

/-- One access keeps the queue. -/
theorem DataFifo.Queue.step {ι : Type} {s s' : DataFifo ι} {pending : List FifoMessage} (h : s.Queue pending)
    {action : FifoAction ι} (hs : s.step action = some s') : ∃ pending', s'.Queue pending' := by
  cases DataFifo.access_of_step hs with
  | lockPut _ | lockGet _ | stop _ | full _ _ | empty _ _ => exact ⟨pending, h.hold (by simp) (by simp)⟩
  | room _ hleft => exact ⟨pending, h.hold (fun _ _ _ => UInt32.not_lt.mp hleft) (by simp)⟩
  | found _ hlen => exact ⟨pending, h.hold (by simp) (fun _ => UInt32.not_lt.mp hlen)⟩
  | put hholder => exact ⟨_, h.put hholder hs⟩
  | get hholder =>
    obtain ⟨_, rest, -, -, -, -, hq⟩ := h.get hholder hs
    exact ⟨rest, hq⟩

theorem DataFifo.Queue.run {ι : Type} {actions : List (FifoAction ι)} {s s' : DataFifo ι} {pending : List FifoMessage}
    (h : s.Queue pending) (hrun : s.run actions = some s') : ∃ pending', s'.Queue pending' := by
  induction actions generalizing s pending with
  | nil =>
    cases hrun
    exact ⟨pending, h⟩
  | cons action actions ih =>
    simp only [DataFifo.run, List.foldlM_cons, Option.bind_eq_bind, Option.bind_eq_some_iff] at hrun
    obtain ⟨s₁, hs, hrest⟩ := hrun
    obtain ⟨pending₁, h₁⟩ := h.step hs
    exact ih h₁ hrest

/-- `write_file_thread` gets the messages queued, one after the other. -/
theorem DataFifo.Queue.drain {ι : Type} {s : DataFifo ι} {pending : List FifoMessage} (h : s.Queue pending)
    (hfree : s.holder = .free) :
    ∃ s', s.run (List.replicate pending.length [.lockGet, .resume, .resume]).flatten = some s' ∧
      s'.obtained = s.obtained ++ pending := by
  induction pending generalizing s with
  | nil => exact ⟨s, rfl, (List.append_nil _).symm⟩
  | cons msg pending ih =>
    have hlen := h.toNat_len
    have havail : ¬ kfifoLen s.fifo < messageSize := by
      rw [UInt32.lt_iff_toNat_lt, hlen, List.length_cons, Nat.mul_succ]
      omega
    have hlock : s.step .lockGet = some { s with holder := .testLen } := by
      simp only [DataFifo.step, hfree]
    have htest : ({ s with holder := .testLen } : DataFifo ι).step .resume = some { s with holder := .get } := by
      simp only [DataFifo.step, if_neg havail]
    have hq : ({ s with holder := .get } : DataFifo ι).Queue (msg :: pending) :=
      h.hold (by simp) fun _ => UInt32.not_lt.mp havail
    obtain ⟨s₁, hget⟩ : ∃ s₁, ({ s with holder := .get } : DataFifo ι).step .resume = some s₁ := ⟨_, rfl⟩
    obtain ⟨_, _, heq, hobtained, hfree₁, -, hq₁⟩ := hq.get rfl hget
    obtain ⟨rfl, rfl⟩ := List.cons.inj heq
    obtain ⟨s', hrun, hall⟩ := ih hq₁ hfree₁
    refine ⟨s', ?_, ?_⟩
    · rw [List.length_cons, List.replicate_succ, List.flatten_cons, DataFifo.run, List.foldlM_append]
      simp only [List.foldlM_cons, List.foldlM_nil, Option.bind_eq_bind, hlock, htest, hget, Option.bind_some]
      exact hrun
    · rw [hall, hobtained, List.append_assoc, List.singleton_append]

/-- However the threads take turns at `data_fifo`: the messages put are those
got, in order, and those still queued, which are got when nothing else happens;
the bytes queued are a multiple of a message, and no more than the size. -/
theorem dataFifo_run_queue {ι : Type} (fifoBuffer : Vector UInt8 fifoSize) (actions : List (FifoAction ι))
    {s : DataFifo ι} (hrun : (DataFifo.init ι fifoBuffer).run actions = some s) :
    ∃ pending, s.accepted = s.obtained ++ pending ∧
      (kfifoLen s.fifo).toNat = messageSize.toNat * pending.length ∧
      (kfifoLen s.fifo).toNat ≤ fifoSize ∧
      s.fifo.queued = pending.flatMap FifoMessage.bytes ∧
      (s.holder = .free → ∃ s',
        s.run (List.replicate pending.length [.lockGet, .resume, .resume]).flatten = some s' ∧
          s'.obtained = s.accepted) := by
  obtain ⟨pending, h⟩ := (DataFifo.queue_init ι fifoBuffer).run hrun
  refine ⟨pending, h.accepted, h.toNat_len, ?_, h.queued, fun hfree => ?_⟩
  · have := h.valid.le
    rw [h.size] at this
    exact this
  · obtain ⟨s', hs', hall⟩ := h.drain hfree
    exact ⟨s', hs', hall.trans h.accepted.symm⟩

theorem dataFifo_run_queue_two :
    ∃ s, (DataFifo.init Unit (Vector.replicate fifoSize 0)).run
        [.lockPut () (message 0 [1] 1 0 1), .resume, .resume, .lockPut () (message 5 [2] 0 0 0), .resume, .resume,
          .lockGet, .resume, .resume] = some s ∧
      ∃ pending, s.accepted = s.obtained ++ pending ∧ (kfifoLen s.fifo).toNat = messageSize.toNat * pending.length :=
  ⟨_, rfl, by
    obtain ⟨pending, haccepted, hlen, -⟩ := dataFifo_run_queue (Vector.replicate fifoSize 0)
      [.lockPut () (message 0 [1] 1 0 1), .resume, .resume, .lockPut () (message 5 [2] 0 0 0), .resume, .resume,
        .lockGet, .resume, .resume] rfl
    exact ⟨pending, haccepted, hlen⟩⟩

end Dtu
