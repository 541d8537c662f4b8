import Dtu.Framework.Join
import Dtu.Spec.Batch
import Dtu.Proof.LogLine

/-!
# Batches as text and as bytes

The accumulators of the packers hold the text of a batch (`batchOf`, `untilOf`),
one entry more at each step (`batchOf_add`, `untilOf_add`), and
`data_separator` decodes that text to the batch as bytes, if they fit
(`dataSeparator_joinHex`), so that both packers end with the batch
(`finishPack_eq`).
-/

namespace Dtu

open Stdio Loop

theorem length_flatMap_fmtX2 (e : List UInt8) : (e.flatMap fmtX2).length = 2 * e.length := by
  induction e with
  | nil => rfl
  | cons b e ih => simp [fmtX2, ih]; omega

theorem length_joinHex (es : List (List UInt8)) : (joinHex es).length = hexCost es - 1 := by
  simp only [joinHex, length_intercalate, hexCost, List.map_map, Function.comp_def, length_flatMap_fmtX2]

theorem length_joinRaw (es : List (List UInt8)) : (joinRaw es).length = rawCost es - 1 := by
  simp only [joinRaw, length_intercalate, rawCost]

theorem hexCost_append (es fs : List (List UInt8)) : hexCost (es ++ fs) = hexCost es + hexCost fs := by
  simp [hexCost]

theorem rawCost_append (es fs : List (List UInt8)) : rawCost (es ++ fs) = rawCost es + rawCost fs := by
  simp [rawCost]

@[simp] theorem hexCost_nil : hexCost [] = 0 := rfl

@[simp] theorem rawCost_nil : rawCost [] = 0 := rfl

@[simp] theorem hexCost_cons (e : List UInt8) (es : List (List UInt8)) :
    hexCost (e :: es) = 2 * e.length + 1 + hexCost es := by simp [hexCost]

@[simp] theorem rawCost_cons (e : List UInt8) (es : List (List UInt8)) :
    rawCost (e :: es) = e.length + 1 + rawCost es := by simp [rawCost]

theorem rawCost_eq_sum (es : List (List UInt8)) : rawCost es = (es.map List.length).sum + es.length := by
  induction es with
  | nil => rfl
  | cons e es ih =>
    simp only [rawCost_cons, ih, List.map_cons, List.sum_cons, List.length_cons]
    omega

/-- A comma for the next entry is all a batch has not spent of its cost. -/
theorem hexCost_eq (es : List (List UInt8)) :
    hexCost es = (joinHex es).length + if 0 < es.length then 1 else 0 := by
  rw [length_joinHex]
  cases es with
  | nil => rfl
  | cons e es => simp only [hexCost_cons, List.length_cons, Nat.zero_lt_succ, if_true]; omega

theorem rawCost_eq (es : List (List UInt8)) :
    rawCost es = (joinRaw es).length + if 0 < es.length then 1 else 0 := by
  rw [length_joinRaw]
  cases es with
  | nil => rfl
  | cons e es => simp only [rawCost_cons, List.length_cons, Nat.zero_lt_succ, if_true]; omega

/-! ## The accumulators -/

/-- The outputs of `pack_data_from_files` for a batch. -/
def batchOf (es : List (List UInt8)) : HexBatch := ⟨joinHex es, (joinHex es).length, es.length⟩

theorem joinHex_concat (es : List (List UInt8)) (e : List UInt8) :
    joinHex (es ++ [e]) = (if 0 < es.length then joinHex es ++ [','] else joinHex es) ++ e.flatMap fmtX2 := by
  rw [joinHex, List.map_append, List.map_singleton, intercalate_concat]
  cases es <;> simp [joinHex]

theorem batchOf_add (es : List (List UInt8)) (e : List UInt8) : (batchOf es).add e = batchOf (es ++ [e]) := by
  simp only [HexBatch.add, batchOf, joinHex_concat]
  cases es with
  | nil => simp only [joinHex, List.map_nil, List.intercalate_nil, List.length_nil, Nat.lt_irrefl, if_false,
      List.nil_append, length_flatMap_fmtX2, Nat.zero_add, List.length_singleton]
  | cons x xs => simp only [List.length_cons, Nat.zero_lt_succ, if_true, List.length_append,
      length_flatMap_fmtX2, List.length_nil]

/-- The locals of `main_pack_pending_until` for a batch. -/
def untilOf (es : List (List UInt8)) : UntilBatch :=
  ⟨joinHex es, (joinHex es).length, (joinRaw es).length, es.length⟩

/-- The digits of an entry that fits are all written. -/
theorem putHex_eq {maxHexLen : Nat} {e : List UInt8} (hexBuf : List Char) {hexLen : Nat}
    (hl : hexBuf.length = hexLen) (hfit : hexLen + 2 * e.length ≤ maxHexLen) :
    putHex maxHexLen e hexBuf hexLen = (hexBuf ++ e.flatMap fmtX2, hexLen + 2 * e.length) := by
  induction e generalizing hexBuf hexLen with
  | nil => simp [putHex]
  | cons b e ih =>
    simp only [List.length_cons] at hfit
    have hput : snprintfAt (maxHexLen + 1) hexLen hexBuf (fmtX2 b) = hexBuf ++ fmtX2 b := by
      rw [snprintfAt, List.take_of_length_le (by omega), List.take_of_length_le]
      simp only [fmtX2, List.length_cons, List.length_nil]
      omega
    rw [putHex, hput, ih _ (by simp [fmtX2, hl]) (by omega), List.append_assoc]
    simp only [List.flatMap_cons, List.length_cons, Prod.mk.injEq, true_and]
    omega

theorem untilOf_add {maxHexLen : Nat} {es : List (List UInt8)} {e : List UInt8}
    (hfit : hexCost es + 2 * e.length ≤ maxHexLen) :
    (untilOf es).add maxHexLen e = untilOf (es ++ [e]) := by
  have hr : (joinRaw (es ++ [e])).length = (joinRaw es).length + ((if 0 < es.length then 1 else 0) + e.length) := by
    have h1 := rawCost_eq (es ++ [e])
    have h2 := rawCost_eq es
    simp only [rawCost_append, rawCost_cons, rawCost_nil, List.length_append, List.length_singleton,
      Nat.zero_lt_succ, if_true] at h1
    omega
  rw [hexCost_eq] at hfit
  cases es with
  | nil =>
    have hput := putHex_eq (e := e) (joinHex []) rfl (by simpa using hfit)
    have hj : joinHex [e] = joinHex [] ++ e.flatMap fmtX2 := by simp [joinHex]
    simp only [UntilBatch.add, untilOf, List.length_nil, Nat.lt_irrefl, if_false, hput, List.nil_append, hj,
      List.length_append, length_flatMap_fmtX2, List.length_singleton]
    simp [joinRaw]
  | cons x xs =>
    simp only [List.length_cons, Nat.zero_lt_succ, if_true] at hfit
    have hput := putHex_eq (e := e) (joinHex (x :: xs) ++ [',']) (by simp) hfit
    simp only [UntilBatch.add, untilOf, hr, joinHex_concat, List.length_cons, Nat.zero_lt_succ, if_true,
      List.take_length, hput, List.length_append, length_flatMap_fmtX2, List.length_nil]

/-! ## Decoding -/

/-- The digits of one entry are decoded, or do not fit. -/
theorem separateBytes_entry {maxLen : Nat} (e : List UInt8) {count : Nat} (hc : count ≤ maxLen) (s : List Char) :
    separateBytes maxLen count (e.flatMap fmtX2 ++ s) =
      if count + e.length ≤ maxLen then (separateBytes maxLen (count + e.length) s).map (e ++ ·) else none := by
  induction e generalizing count with
  | nil => simp [hc]
  | cons b e ih =>
    obtain ⟨h, l⟩ := halves_lt b
    have hne : hexDigit (b.toNat / 16) ≠ ',' := hexDigit_ne h (by decide)
    simp only [List.flatMap_cons, fmtX2, List.cons_append, List.nil_append, separateBytes, if_neg hne,
      hexVal_hexDigit _ h, hexVal_hexDigit _ l, hexByte_halves, List.length_cons]
    by_cases hm : maxLen ≤ count
    · rw [if_pos hm, if_neg (by omega)]
    · rw [if_neg hm, ih (by omega), show count + 1 + e.length = count + (e.length + 1) by omega]
      by_cases hf : count + (e.length + 1) ≤ maxLen
      · rw [if_pos hf, if_pos hf, Option.map_map]; rfl
      · rw [if_neg hf, if_neg hf, Option.map_none]

theorem separateBytes_comma (maxLen count : Nat) (s : List Char) :
    separateBytes maxLen count (',' :: s) =
      if maxLen ≤ count then none else (separateBytes maxLen (count + 1) s).map (0x2C :: ·) := by
  cases s <;> simp [separateBytes]

/-- The text of a batch decodes to its bytes, or does not fit. -/
theorem separateBytes_joinHex {maxLen : Nat} (es : List (List UInt8)) {count : Nat} (hc : count ≤ maxLen) :
    separateBytes maxLen count (joinHex es) =
      if count + (joinRaw es).length ≤ maxLen then some (joinRaw es) else none := by
  induction es generalizing count with
  | nil => simp [joinHex, joinRaw, separateBytes, hc]
  | cons e es ih =>
    cases es with
    | nil =>
      have := separateBytes_entry e hc []
      simp only [List.append_nil] at this
      simp only [joinHex, joinRaw, List.map_cons, List.map_nil, List.intercalate_singleton, this]
      split <;> simp [separateBytes]
    | cons f fs =>
      have hh : joinHex (e :: f :: fs) = e.flatMap fmtX2 ++ ',' :: joinHex (f :: fs) := by simp [joinHex]
      have hr : joinRaw (e :: f :: fs) = e ++ 0x2C :: joinRaw (f :: fs) := by simp [joinRaw]
      rw [hh, hr, separateBytes_entry e hc]
      simp only [List.length_append, List.length_cons, separateBytes_comma]
      by_cases he : count + e.length ≤ maxLen
      · rw [if_pos he]
        by_cases hm : maxLen ≤ count + e.length
        · rw [if_pos hm, if_neg (by omega), Option.map_none]
        · rw [if_neg hm, ih (by omega), show count + e.length + 1 + (joinRaw (f :: fs)).length =
            count + (e.length + ((joinRaw (f :: fs)).length + 1)) by omega]
          split <;> simp
      · rw [if_neg he, if_neg (by omega)]

theorem dataSeparator_joinHex {maxLen : Nat} (hm : 0 < maxLen) (es : List (List UInt8)) :
    dataSeparator (joinHex es) maxLen = if (joinRaw es).length ≤ maxLen then some (joinRaw es) else none := by
  rw [dataSeparator, if_neg (by omega), separateBytes_joinHex es (Nat.zero_le _), Nat.zero_add]

theorem joinRaw_ne_nil {es : List (List UInt8)} (hne : es ≠ []) (hes : ∀ e ∈ es, e ≠ []) : joinRaw es ≠ [] := by
  obtain ⟨e, es, rfl⟩ := List.exists_cons_of_ne_nil hne
  have hpos := List.length_pos_iff.mpr (hes e List.mem_cons_self)
  intro hnil
  have hlen := length_joinRaw (e :: es)
  rw [hnil, rawCost_cons, List.length_nil] at hlen
  omega

/-- How a packer ends on a batch of nonempty entries. -/
theorem finishPack_eq {n : Nat} (pendingOffsets : Fin n → Nat) {es : List (List UInt8)} (hes : ∀ e ∈ es, e ≠ [])
    {rawBufSize : Nat} (hm : 0 < rawBufSize) :
    finishPack pendingOffsets (joinHex es) es.length rawBufSize =
      if (joinRaw es).length ≤ rawBufSize then
        ⟨0, pendingOffsets, joinHex es, joinRaw es, (joinRaw es).length, es.length⟩
      else ⟨-1, pendingOffsets, joinHex es, [], -1, es.length⟩ := by
  cases es with
  | nil => rfl
  | cons e es =>
    have hpos := List.length_pos_iff.mpr (joinRaw_ne_nil (List.cons_ne_nil e es) hes)
    simp only [finishPack, List.length_cons, Nat.add_one_ne_zero, if_false, dataSeparator_joinHex hm]
    by_cases hfit : (joinRaw (e :: es)).length ≤ rawBufSize
    · simp only [if_pos hfit, if_pos hpos]
    · simp only [if_neg hfit]

end Dtu
