import Mathlib

/-!
# Numbers in memory

The little-endian bytes of a number (`leBytes`), and the number that bytes hold
(`leValue`): `leValue_leBytes`. The bytes of an element of an array:
`take_drop_flatMap`. A 16-bit word from its two bytes: `or_halves`.
-/

namespace Dtu.Bytes

/-- The `k` lowest bytes of a number, the lowest first. -/
def leBytes : Nat → Nat → List UInt8
  | 0, _ => []
  | k + 1, n => UInt8.ofNat n :: leBytes k (n / 256)

/-- The number that bytes hold, the lowest first. -/
def leValue : List UInt8 → Nat
  | [] => 0
  | b :: bs => b.toNat + 256 * leValue bs

@[simp] theorem length_leBytes (k n : Nat) : (leBytes k n).length = k := by
  induction k generalizing n with
  | zero => rfl
  | succ k ih => rw [leBytes, List.length_cons, ih]

theorem leValue_leBytes (k n : Nat) : leValue (leBytes k n) = n % 256 ^ k := by
  induction k generalizing n with
  | zero => rw [leBytes, leValue, Nat.pow_zero, Nat.mod_one]
  | succ k ih =>
    have hbyte : (UInt8.ofNat n).toNat = n % 256 := UInt8.toNat_ofNat'
    rw [leBytes, leValue, ih, hbyte, Nat.pow_succ', Nat.mod_mul]

/-! ## Arrays of elements of one size -/

variable {α : Type} {f : α → List UInt8} {k : Nat}

theorem length_flatMap_chunks (h : ∀ a, (f a).length = k) (as : List α) : (as.flatMap f).length = k * as.length := by
  induction as with
  | nil => rfl
  | cons a as ih => rw [List.flatMap_cons, List.length_append, ih, h, List.length_cons, Nat.mul_succ, Nat.add_comm]

/-- The bytes of an element. -/
theorem take_drop_flatMap (h : ∀ a, (f a).length = k) {as : List α} {i : Nat} (hi : i < as.length) :
    ((as.flatMap f).drop (k * i)).take k = f as[i] := by
  induction as generalizing i with
  | nil => cases hi
  | cons a as ih =>
    rw [List.flatMap_cons]
    cases i with
    | zero => rw [Nat.mul_zero, List.drop_zero, List.take_left' (h a), List.getElem_cons_zero]
    | succ i =>
      rw [Nat.mul_succ, Nat.add_comm, ← List.drop_drop, List.drop_left' (h a), List.getElem_cons_succ]
      exact ih (Nat.lt_of_succ_lt_succ hi)

/-! ## Words -/

/-- A word is put together from its low and its high byte. -/
theorem or_halves (w : UInt16) : (w &&& 0xFF).toUInt8.toUInt16 ||| (((w >>> 8) &&& 0xFF).toUInt8.toUInt16 <<< 8) = w := by
  have hlow : (w &&& 0xFF).toUInt8.toUInt16.toNat = w.toNat % 2 ^ 8 := by
    rw [UInt8.toNat_toUInt16, UInt16.toNat_toUInt8, UInt16.toNat_and, show (0xFF : UInt16).toNat = 2 ^ 8 - 1 from rfl,
      Nat.and_two_pow_sub_one_eq_mod, Nat.mod_mod]
  have hhigh : ((w >>> 8) &&& 0xFF).toUInt8.toUInt16.toNat = w.toNat / 2 ^ 8 := by
    have hlt := w.toNat_lt
    rw [UInt8.toNat_toUInt16, UInt16.toNat_toUInt8, UInt16.toNat_and, show (0xFF : UInt16).toNat = 2 ^ 8 - 1 from rfl,
      Nat.and_two_pow_sub_one_eq_mod, Nat.mod_mod, UInt16.toNat_shiftRight, show (8 : UInt16).toNat % 16 = 8 from rfl,
      Nat.shiftRight_eq_div_pow]
    omega
  rw [← UInt16.toNat_inj, UInt16.toNat_or, UInt16.toNat_shiftLeft, hlow, hhigh, show (8 : UInt16).toNat % 16 = 8 from rfl,
    Nat.lor_comm, Nat.mod_eq_of_lt (by rw [Nat.shiftLeft_eq]; have := w.toNat_lt; omega),
    ← Nat.shiftLeft_add_eq_or_of_lt (Nat.mod_lt _ (by decide)), Nat.shiftLeft_eq]
  omega

end Dtu.Bytes
