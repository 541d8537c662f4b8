import Mathlib.Logic.Function.Iterate

/-!
# Cyclic redundancy checks

A reflected CRC of any width: a register that is shifted towards its low end, with
`poly` added where a bit is shifted out (`shift`), and takes up digits of `d` bits
(`feed`). Addition is exclusive or, and the shift is linear (`shift_xor`).

What such a check detects depends on two bits of `poly`:

* `shift_injective`: with its top bit set no two registers shift to the same one, so two
  texts that differ in two digits next to each other, no wider than the register, have
  different checks whatever follows (`feed_feed_injective`, `foldl_feed_injective`);
* `parity_feed`: with an odd number of bits set the parity of all that has been taken up
  is that of the register.

`feed_feed_eq_zero_iff`: the register is zero just when the last two digits are what was
in it before them.
-/

namespace Dtu.Crc

variable {w d : Nat} (poly : BitVec w)

/-- One bit is shifted out of the register. -/
def shift (c : BitVec w) : BitVec w := if c.getLsbD 0 then (c >>> 1) ^^^ poly else c >>> 1

/-- A digit is taken up. -/
def feed (c : BitVec w) (b : BitVec d) : BitVec w := (shift poly)^[d] (c ^^^ b.setWidth w)

/-! ## The shift -/

theorem shift_xor (a b : BitVec w) : shift poly (a ^^^ b) = shift poly a ^^^ shift poly b := by
  unfold shift
  rw [BitVec.getLsbD_xor, BitVec.ushiftRight_xor_distrib]
  cases a.getLsbD 0 <;> cases b.getLsbD 0 <;> simp only [Bool.xor_false, Bool.xor_true, Bool.not_false, Bool.not_true,
    Bool.false_eq_true, if_false, if_true]
  · rw [BitVec.xor_assoc]
  · ac_rfl
  · -- `poly` is added twice.
    rw [BitVec.xor_assoc, BitVec.xor_comm poly, BitVec.xor_assoc _ poly poly, BitVec.xor_self, BitVec.xor_zero]

theorem shifts_xor (n : Nat) (a b : BitVec w) :
    (shift poly)^[n] (a ^^^ b) = (shift poly)^[n] a ^^^ (shift poly)^[n] b := by
  induction n generalizing a b with
  | zero => rfl
  | succ n ih => rw [Function.iterate_succ_apply, Function.iterate_succ_apply, Function.iterate_succ_apply, shift_xor, ih]

variable {poly}

theorem shift_eq_zero (htop : poly.getLsbD (w - 1) = true) {c : BitVec w} (h : shift poly c = 0) : c = 0 := by
  unfold shift at h
  split at h
  · -- The top bit of `poly` is not cancelled.
    have hbit := congrArg (·.getLsbD (w - 1)) h
    simp only [BitVec.getLsbD_xor, BitVec.getLsbD_ushiftRight, htop] at hbit
    rw [BitVec.getLsbD_of_ge c (1 + (w - 1)) (by omega)] at hbit
    simp at hbit
  · rename_i hlow
    refine BitVec.eq_of_getLsbD_eq fun i hi => ?_
    cases i with
    | zero => simpa using hlow
    | succ i =>
      have hbit := congrArg (·.getLsbD i) h
      simp only [BitVec.getLsbD_ushiftRight, Nat.add_comm 1 i] at hbit
      simpa using hbit

theorem shift_injective (htop : poly.getLsbD (w - 1) = true) : Function.Injective (shift poly) := by
  intro a b h
  have hzero : shift poly (a ^^^ b) = 0 := by rw [shift_xor, h, BitVec.xor_self]; rfl
  have hxor : a ^^^ b = 0#w := shift_eq_zero htop hzero
  exact BitVec.xor_eq_zero_iff.mp hxor

theorem shifts_injective (htop : poly.getLsbD (w - 1) = true) (n : Nat) : Function.Injective ((shift poly)^[n]) :=
  (shift_injective htop).iterate n

/-- What is in the register above its `k` low bits, when these are zero, comes down. -/
theorem shifts_shiftLeft {k : Nat} {c : BitVec w} (hc : ∀ i, w ≤ i + k → c.getLsbD i = false) :
    (shift poly)^[k] (c <<< k) = c := by
  induction k generalizing c with
  | zero => simp
  | succ k ih =>
    have hlow : shift poly (c <<< (k + 1)) = c <<< k := by
      have hbit : (c <<< (k + 1)).getLsbD 0 = false := by simp
      rw [shift, hbit, if_neg Bool.false_ne_true]
      refine BitVec.eq_of_getLsbD_eq fun i hi => ?_
      simp only [BitVec.getLsbD_ushiftRight, BitVec.getLsbD_shiftLeft]
      by_cases htop : 1 + i < w
      · simp only [htop, hi, decide_true, Bool.true_and, show 1 + i - (k + 1) = i - k by omega]
        by_cases hk : i < k
        · simp [hk, show 1 + i < k + 1 by omega]
        · simp [hk, show ¬1 + i < k + 1 by omega]
      · by_cases hk : i < k
        · simp [htop, hk]
        · simp [htop, hc (i - k) (by omega)]
    rw [Function.iterate_succ_apply, hlow]
    exact ih fun i hi => hc i (by omega)

/-! ## Digits -/

theorem feed_left_injective (htop : poly.getLsbD (w - 1) = true) (b : BitVec d) :
    Function.Injective fun c => feed poly c b := by
  intro c c' h
  exact (BitVec.xor_left_inj _).mp (shifts_injective htop d h)

theorem foldl_feed_injective (htop : poly.getLsbD (w - 1) = true) (bs : List (BitVec d)) :
    Function.Injective fun c => bs.foldl (feed poly) c := by
  induction bs with
  | nil => exact fun _ _ h => h
  | cons b bs ih => exact ih.comp (feed_left_injective htop b)

/-- Two digits that fit the register are taken up as one. -/
theorem feed_feed (hd : d + d ≤ w) (c : BitVec w) (a b : BitVec d) :
    feed poly (feed poly c a) b = (shift poly)^[d + d] (c ^^^ (a.setWidth w ^^^ b.setWidth w <<< d)) := by
  have hb : (shift poly)^[d] (b.setWidth w <<< d) = b.setWidth w := by
    refine shifts_shiftLeft fun i hi => ?_
    rw [BitVec.getLsbD_setWidth, BitVec.getLsbD_of_ge b i (by omega), Bool.and_false]
  rw [feed, feed, Function.iterate_add_apply, ← BitVec.xor_assoc, shifts_xor poly d (c ^^^ a.setWidth w), hb]

/-- Two digits as one. -/
theorem setWidth_xor_injective (hd : d + d ≤ w) {a b a' b' : BitVec d}
    (h : a.setWidth w ^^^ b.setWidth w <<< d = a'.setWidth w ^^^ b'.setWidth w <<< d) : a = a' ∧ b = b' := by
  constructor
  · refine BitVec.eq_of_getLsbD_eq fun i hi => ?_
    have hbit := congrArg (·.getLsbD i) h
    simpa [hi, show i < w by omega] using hbit
  · refine BitVec.eq_of_getLsbD_eq fun i hi => ?_
    have hbit := congrArg (·.getLsbD (d + i)) h
    simpa [hi, show d + i < w by omega, Nat.not_lt.mpr (Nat.le_add_right d i)] using hbit

theorem feed_feed_injective (htop : poly.getLsbD (w - 1) = true) (hd : d + d ≤ w) {c : BitVec w} {a b a' b' : BitVec d}
    (h : feed poly (feed poly c a) b = feed poly (feed poly c a') b') : a = a' ∧ b = b' := by
  rw [feed_feed hd, feed_feed hd] at h
  exact setWidth_xor_injective hd ((BitVec.xor_right_inj _).mp (shifts_injective htop _ h))

theorem feed_feed_eq_zero_iff (htop : poly.getLsbD (w - 1) = true) (hd : d + d ≤ w) {c : BitVec w} {a b : BitVec d} :
    feed poly (feed poly c a) b = 0 ↔ c = a.setWidth w ^^^ b.setWidth w <<< d := by
  have hzero : (shift poly)^[d + d] 0#w = 0#w := by
    refine Function.iterate_fixed ?_ _
    simp [shift]
  rw [feed_feed hd]
  constructor
  · intro h
    exact BitVec.xor_eq_zero_iff.mp (shifts_injective htop _ (h.trans hzero.symm))
  · rintro rfl
    rw [BitVec.xor_self]
    exact hzero

/-! ## Parity -/

/-- The parity of the first `n` bits. -/
def parityUpTo (x : BitVec w) : Nat → Bool
  | 0 => false
  | n + 1 => parityUpTo x n ^^ x.getLsbD n

/-- The parity of all bits. -/
def parity (x : BitVec w) : Bool := parityUpTo x w

theorem parityUpTo_eq (x : BitVec w) (n : Nat) :
    parityUpTo x n = decide ((List.range n).countP x.getLsbD % 2 = 1) := by
  induction n with
  | zero => rfl
  | succ n ih =>
    rw [parityUpTo, ih, List.range_succ, List.countP_append, List.countP_singleton]
    cases x.getLsbD n with
    | false => simp
    | true =>
      simp only [Bool.xor_true, if_true]
      rw [← decide_not, decide_eq_decide]
      omega

theorem parity_xor (x y : BitVec w) : parity (x ^^^ y) = (parity x ^^ parity y) := by
  have h : ∀ n, parityUpTo (x ^^^ y) n = (parityUpTo x n ^^ parityUpTo y n) := by
    intro n
    induction n with
    | zero => rfl
    | succ n ih =>
      rw [parityUpTo, parityUpTo, parityUpTo, ih, BitVec.getLsbD_xor, Bool.xor_assoc, Bool.xor_assoc,
        Bool.xor_left_comm (parityUpTo y n)]
  exact h w

/-- The bits above are zero. -/
theorem parityUpTo_of_le (x : BitVec w) {n : Nat} (h : w ≤ n) : parityUpTo x n = parity x := by
  induction h with
  | refl => rfl
  | @step n h ih => rw [parityUpTo, ih, BitVec.getLsbD_of_ge x n h, Bool.xor_false]

theorem parity_ushiftRight (x : BitVec w) : parity (x >>> 1) = (parity x ^^ x.getLsbD 0) := by
  have h : ∀ n, parityUpTo (x >>> 1) n = (parityUpTo x (n + 1) ^^ x.getLsbD 0) := by
    intro n
    induction n with
    | zero => simp [parityUpTo]
    | succ n ih =>
      rw [parityUpTo, ih, BitVec.getLsbD_ushiftRight, Nat.add_comm 1 n, Bool.xor_assoc, Bool.xor_comm (x.getLsbD 0),
        ← Bool.xor_assoc]
      rfl
  rw [parity, h, parityUpTo_of_le x (Nat.le_succ w)]

theorem parity_setWidth (b : BitVec d) (hd : d ≤ w) : parity (b.setWidth w) = parity b := by
  have h : ∀ n ≤ w, parityUpTo (b.setWidth w) n = parityUpTo b n := by
    intro n hn
    induction n with
    | zero => rfl
    | succ n ih =>
      rw [parityUpTo, parityUpTo, ih (by omega), BitVec.getLsbD_setWidth, decide_eq_true (by omega), Bool.true_and]
  rw [parity, h w (Nat.le_refl w), parityUpTo_of_le b hd]

theorem parity_shift (hodd : parity poly = true) (c : BitVec w) : parity (shift poly c) = parity c := by
  unfold shift
  split
  · rename_i hlow
    rw [parity_xor, parity_ushiftRight, hodd, hlow, Bool.xor_true, Bool.xor_true, Bool.not_not]
  · rename_i hlow
    rw [parity_ushiftRight, Bool.eq_false_iff.mpr hlow, Bool.xor_false]

theorem parity_feed (hodd : parity poly = true) (hd : d ≤ w) (c : BitVec w) (b : BitVec d) :
    parity (feed poly c b) = (parity c ^^ parity b) := by
  have hshifts : ∀ n c, parity ((shift poly)^[n] c) = parity c := by
    intro n
    induction n with
    | zero => exact fun _ => rfl
    | succ n ih => exact fun c => by rw [Function.iterate_succ_apply, ih, parity_shift hodd]
  rw [feed, hshifts, parity_xor, parity_setWidth b hd]

end Dtu.Crc
