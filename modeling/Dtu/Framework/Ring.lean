import Mathlib

/-!
# Rings of memory

`memcpy` into an array, and the two pieces in which a ring is written and read:
up to the end of the array, and the rest at its beginning. `contents buf o len`
is the queue that a ring with its first element at `o` holds; `write` at its end
appends to it (`contents_write`), `read` at its beginning takes from it
(`read_eq`, `contents_drop`). Positions are those of counters that run on and
are taken modulo the size of the array.
-/

namespace Dtu.Ring

variable {α : Type}

/-- `memcpy(dst + pos, src, …)` of all of `src`. -/
def memcpy (dst : List α) (pos : Nat) (src : List α) : List α :=
  dst.take pos ++ src ++ dst.drop (pos + src.length)

/-- `src` is written from position `pos` on, the rest at the beginning. -/
def write (buf : List α) (pos : Nat) (src : List α) : List α :=
  let l := min src.length (buf.length - pos)
  memcpy (memcpy buf pos (src.take l)) 0 (src.drop l)

/-- `len` elements are read from position `pos` on, the rest at the beginning. -/
def read (buf : List α) (pos len : Nat) : List α :=
  let l := min len (buf.length - pos)
  (buf.drop pos).take l ++ buf.take (len - l)

/-- The queue of `len` elements from the counter `o` on. -/
def contents (buf : List α) (o len : Nat) : List α := (buf.rotate o).take len

@[simp] theorem memcpy_nil (dst : List α) (pos : Nat) : memcpy dst pos [] = dst := by
  simp [memcpy]

theorem length_memcpy {dst src : List α} {pos : Nat} (h : pos + src.length ≤ dst.length) :
    (memcpy dst pos src).length = dst.length := by
  simp only [memcpy, List.length_append, List.length_take, List.length_drop]
  omega

theorem length_write {buf src : List α} {pos : Nat} (hpos : pos ≤ buf.length) (h : src.length ≤ buf.length) :
    (write buf pos src).length = buf.length := by
  have hfirst : (memcpy buf pos (src.take (min src.length (buf.length - pos)))).length = buf.length :=
    length_memcpy (by rw [List.length_take]; omega)
  rw [write, length_memcpy, hfirst]
  rw [hfirst, List.length_drop]
  omega

/-- The ring as it is read from where it was written. -/
theorem rotate_write {buf src : List α} {pos : Nat} (hpos : pos < buf.length) (h : src.length ≤ buf.length) :
    (write buf pos src).rotate pos = src ++ (buf.rotate pos).drop src.length := by
  have hlen : (buf.take pos).length = pos := by rw [List.length_take]; omega
  have hrot : buf.rotate pos = buf.drop pos ++ buf.take pos := List.rotate_eq_drop_append_take (by omega)
  have hout : pos ≤ (write buf pos src).length := by rw [length_write (by omega) h]; omega
  rw [List.rotate_eq_drop_append_take hout, hrot]
  by_cases hfit : src.length ≤ buf.length - pos
  · -- All of it fits before the end.
    have hw : write buf pos src = buf.take pos ++ (src ++ buf.drop (pos + src.length)) := by
      rw [write, Nat.min_eq_left hfit, List.take_length, List.drop_length, memcpy_nil, memcpy, List.append_assoc]
    rw [hw, List.drop_left' hlen, List.take_left' hlen, List.drop_append_of_le_length (by rw [List.length_drop]; omega),
      List.drop_drop, List.append_assoc]
  · obtain ⟨hl, hr⟩ : min src.length (buf.length - pos) = buf.length - pos ∧ buf.length - pos ≤ src.length := by omega
    have htake : (src.take (buf.length - pos)).length = buf.length - pos := by rw [List.length_take]; omega
    have hdrop : (src.drop (buf.length - pos)).length = src.length - (buf.length - pos) := List.length_drop
    have hfirst : memcpy buf pos (src.take (buf.length - pos)) = buf.take pos ++ src.take (buf.length - pos) := by
      rw [memcpy, htake, List.drop_of_length_le (by omega), List.append_nil]
    have hw : write buf pos src = (src.drop (buf.length - pos) ++
        (buf.take pos).drop (src.length - (buf.length - pos))) ++ src.take (buf.length - pos) := by
      rw [write, hl, hfirst, memcpy, List.take_zero, List.nil_append, Nat.zero_add, hdrop,
        List.drop_append_of_le_length (by rw [hlen]; omega), List.append_assoc]
    have hfront : (src.drop (buf.length - pos) ++ (buf.take pos).drop (src.length - (buf.length - pos))).length =
        pos := by
      rw [List.length_append, hdrop, List.length_drop, hlen]
      omega
    have hrest : (buf.drop pos ++ buf.take pos).drop src.length =
        (buf.take pos).drop (src.length - (buf.length - pos)) := by
      rw [List.drop_append, List.length_drop, List.drop_of_length_le (by rw [List.length_drop]; omega), List.nil_append]
    rw [hw, List.drop_left' hfront, List.take_left' hfront, ← List.append_assoc, List.take_append_drop, hrest]

theorem length_contents {buf : List α} {o len : Nat} (h : len ≤ buf.length) : (contents buf o len).length = len := by
  rw [contents, List.length_take, List.length_rotate, Nat.min_eq_left h]

/-- Counters that agree modulo the size of the array name the same element. -/
theorem contents_congr {buf : List α} {o o' : Nat} (h : o % buf.length = o' % buf.length) (len : Nat) :
    contents buf o len = contents buf o' len := by
  rw [contents, contents, ← List.rotate_mod buf o, ← List.rotate_mod buf o', h]

/-- What is written at the end of the queue is appended to it. -/
theorem contents_write {buf src : List α} {o len : Nat} (hpos : 0 < buf.length) (h : len + src.length ≤ buf.length) :
    contents (write buf ((o + len) % buf.length) src) o (len + src.length) = contents buf o len ++ src := by
  have hlt := Nat.mod_lt (o + len) hpos
  have hwlen : (write buf ((o + len) % buf.length) src).length = buf.length := length_write (by omega) (by omega)
  -- Seen from its end, the queue is the last part of the ring.
  have hturn : ∀ l : List α, l.length = buf.length →
      l.rotate o = (l.rotate ((o + len) % buf.length)).rotate (buf.length - len) := fun l hl => by
    rw [List.rotate_rotate, ← hl, ← List.rotate_mod l o, ← List.rotate_mod l ((o + len) % l.length + _),
      Nat.mod_add_mod, show o + len + (l.length - len) = o + l.length by omega, Nat.add_mod_right]
  have hback : (buf.rotate ((o + len) % buf.length)).drop (buf.length - len) = contents buf o len := by
    have hround : (buf.rotate ((o + len) % buf.length)).length = buf.length := List.length_rotate _ _
    rw [contents, hturn buf rfl]
    generalize buf.rotate ((o + len) % buf.length) = round at hround ⊢
    rw [List.rotate_eq_drop_append_take (by omega), List.take_append_of_le_length (by rw [List.length_drop]; omega),
      List.take_of_length_le (by rw [List.length_drop]; omega)]
  have hcut : (src ++ (buf.rotate ((o + len) % buf.length)).drop src.length).drop (buf.length - len) =
      contents buf o len := by
    rw [List.drop_append, List.drop_of_length_le (by omega), List.nil_append, List.drop_drop, ← hback]
    congr 1
    omega
  rw [contents, hturn _ hwlen, rotate_write hlt (by omega), List.rotate_eq_drop_append_take (by
    rw [List.length_append, List.length_drop, List.length_rotate]; omega), hcut, List.take_append,
    List.take_of_length_le (by rw [length_contents (by omega)]; omega), length_contents (by omega),
    Nat.add_sub_cancel_left, List.take_take, Nat.min_eq_left (by omega), List.take_left]

/-- What is read are the first elements of the queue. -/
theorem read_eq {buf : List α} {o len : Nat} (h : len ≤ buf.length) :
    read buf (o % buf.length) len = contents buf o len := by
  by_cases hpos : buf.length = 0
  · obtain rfl : len = 0 := by omega
    simp [read, contents]
  have hlt := Nat.mod_lt o (Nat.pos_of_ne_zero hpos)
  rw [contents, ← List.rotate_mod, List.rotate_eq_drop_append_take (by omega), List.take_append, read, List.length_drop]
  by_cases hfit : len ≤ buf.length - o % buf.length
  · rw [Nat.min_eq_left hfit, Nat.sub_self, Nat.sub_eq_zero_of_le hfit, List.take_zero, List.take_zero]
  · rw [Nat.min_eq_right (by omega), List.take_of_length_le (by rw [List.length_drop]),
      List.take_of_length_le (l := buf.drop _) (by rw [List.length_drop]; omega), List.take_take, Nat.min_eq_left (by omega)]

/-- What is left of the queue when its first elements are taken. -/
theorem contents_drop {buf : List α} {o len k : Nat} (hk : k ≤ len) (h : len ≤ buf.length) :
    contents buf (o + k) (len - k) = (contents buf o len).drop k := by
  rw [contents, contents, ← List.rotate_rotate, List.rotate_eq_drop_append_take (by rw [List.length_rotate]; omega),
    List.take_append_of_le_length (by rw [List.length_drop, List.length_rotate]; omega), List.drop_take]

theorem take_contents {buf : List α} {o len k : Nat} (hk : k ≤ len) :
    (contents buf o len).take k = contents buf o k := by
  rw [contents, contents, List.take_take, Nat.min_eq_left hk]

/-- One element is written in its place. -/
theorem write_singleton {buf : List α} {pos : Nat} (hpos : pos < buf.length) (a : α) :
    write buf pos [a] = buf.take pos ++ a :: buf.drop (pos + 1) := by
  have hl : min [a].length (buf.length - pos) = 1 := by
    rw [List.length_singleton]
    omega
  rw [write, hl, List.take_of_length_le (by rw [List.length_singleton]), List.drop_of_length_le (by
    rw [List.length_singleton]), memcpy_nil, memcpy, List.append_assoc, List.length_singleton, List.singleton_append]

theorem modify_eq_write {buf : List α} {pos : Nat} (hpos : pos < buf.length) (f : α → α) :
    buf.modify pos f = write buf pos [f buf[pos]] := by
  rw [write_singleton hpos, List.modify_eq_take_cons_drop hpos]

/-- The queue by its first element. -/
theorem contents_succ {buf : List α} {o len : Nat} (ho : o < buf.length) (h : len + 1 ≤ buf.length) :
    contents buf o (len + 1) = buf[o] :: contents buf (o + 1) len := by
  have hrest := @contents_drop α buf o (len + 1) 1 (by omega) h
  rw [Nat.add_sub_cancel] at hrest
  have hhead : (contents buf o (len + 1)).take 1 = [buf[o]] := by
    rw [take_contents (by omega), contents, List.rotate_eq_drop_append_take (by omega), List.drop_eq_getElem_cons ho]
    rfl
  rw [hrest, ← List.singleton_append, ← hhead, List.take_append_drop]

end Dtu.Ring
