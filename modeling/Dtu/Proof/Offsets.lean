import Dtu.Impl.Lora
import Dtu.Impl.Offsets

/-!
# Saving offsets when that fails

What `save_offsets` stores, `load_offsets` reads back (`loadOffsetsFile_offsetBytes`).
It truncates the file before it writes, and `load_offsets` takes a file that is too
short for offsets 0: the offsets saved before are lost wherever the truncation is not
followed by the whole write (`saveOffsets_keeps_iff`).
-/

namespace Dtu

open Bytes

variable {n : Nat}

/-! ## Reading back -/

theorem length_offsetBytes (offsets : Fin n → Int64) : (offsetBytes offsets).length = offSize * n := by
  rw [offsetBytes, length_flatMap_chunks (fun o => length_leBytes offSize _), List.length_ofFn]

theorem offsetAt_offsetBytes (offsets : Fin n → Int64) (i : Fin n) : offsetAt (offsetBytes offsets) i = offsets i := by
  have hi : (i : Nat) < (List.ofFn offsets).length := by
    rw [List.length_ofFn]
    exact i.isLt
  have hlt : (offsets i).toUInt64.toNat < 256 ^ offSize := (offsets i).toUInt64.toNat_lt
  rw [offsetAt, offsetBytes, take_drop_flatMap (fun o => length_leBytes offSize _) hi, List.getElem_ofFn, leValue_leBytes,
    Nat.mod_eq_of_lt hlt, UInt64.ofNat_toNat]
  exact Int64.toInt64_toUInt64 _

/-- What is saved is loaded. -/
theorem loadOffsetsFile_offsetBytes (offsets : Fin n → Int64) :
    loadOffsetsFile n (some (offsetBytes offsets)) = offsets := by
  have hlen := length_offsetBytes offsets
  rw [loadOffsetsFile, if_neg (by omega)]
  exact funext fun i => offsetAt_offsetBytes offsets i

/-- A file that is too short is loaded as offsets 0. -/
theorem loadOffsetsFile_take {offsets : Fin n → Int64} {stored : Nat} (h : stored < offSize * n) :
    loadOffsetsFile n (some ((offsetBytes offsets).take stored)) = fun _ => 0 := by
  rw [loadOffsetsFile, if_pos]
  rw [List.length_take]
  omega

theorem take_offsetBytes {offsets : Fin n → Int64} {stored : Nat} (h : offSize * n ≤ stored) :
    (offsetBytes offsets).take stored = offsetBytes offsets :=
  List.take_of_length_le (by rw [length_offsetBytes]; exact h)

/-- The model of the file by its `off_t` values. -/
theorem loadOffsetsFile_words (words : List Nat) (h : ∀ w ∈ words, w < 2 ^ 63) (i : Fin n) :
    loadOffsetsFile n (some (words.flatMap (leBytes offSize))) i = Int64.ofNat (loadOffsetsOf n (some words) i) := by
  have hlen := length_flatMap_chunks (length_leBytes offSize) words
  rw [loadOffsetsFile, loadOffsetsOf, hlen]
  by_cases hshort : words.length < n
  · rw [if_pos (Nat.mul_lt_mul_of_pos_left hshort (by decide)), if_pos hshort]
    rfl
  · have hle : offSize * n ≤ offSize * words.length := Nat.mul_le_mul_left _ (Nat.le_of_not_lt hshort)
    have hi : (i : Nat) < words.length := Nat.lt_of_lt_of_le i.isLt (Nat.le_of_not_lt hshort)
    have hword : words[(i : Nat)] < 256 ^ offSize := Nat.lt_trans (h _ (List.getElem_mem hi)) (by decide)
    rw [if_neg (Nat.not_lt.mpr hle), if_neg hshort, offsetAt, take_drop_flatMap (length_leBytes offSize) hi,
      leValue_leBytes, Nat.mod_eq_of_lt hword, List.getD_eq_getElem?_getD, List.getElem?_eq_getElem hi]
    rfl

/-! ## Failing -/

/-- `save_offsets` does not truncate the file, or stores all of it. -/
def SaveEnd.Whole (n : Nat) : SaveEnd → Prop
  | .diesFirst => True
  | .openFails => True
  | .dies stored => offSize * n ≤ stored
  | .writes stored => offSize * n ≤ stored

/-- The process dies in `save_offsets`. -/
def SaveEnd.Dies : SaveEnd → Prop
  | .diesFirst => True
  | .openFails => False
  | .dies _ => True
  | .writes _ => False

/-- What is loaded later is the vector saved before or the new one, and it is the one
before if `save_offsets` has returned -1. -/
def SaveKeeps (old new : Fin n → Int64) (e : SaveEnd) : Prop :=
  let (file, ret) := saveOffsetsFile (some (offsetBytes old)) new e
  (loadOffsetsFile n file = old ∨ loadOffsetsFile n file = new) ∧ (ret = some (-1) → loadOffsetsFile n file = old)

/-- The offsets saved before are kept just when the file is not truncated or the write
is whole; but for offsets that are 0 anyway. -/
theorem saveOffsets_keeps_iff (old new : Fin n → Int64) (e : SaveEnd) :
    SaveKeeps old new e ↔ e.Whole n ∨ old = (fun _ => 0) ∨ e.Dies ∧ new = fun _ => 0 := by
  cases e with
  | diesFirst =>
    simp [SaveKeeps, saveOffsetsFile, SaveEnd.Whole, loadOffsetsFile_offsetBytes]
  | openFails =>
    simp [SaveKeeps, saveOffsetsFile, SaveEnd.Whole, loadOffsetsFile_offsetBytes]
  | dies stored =>
    by_cases hwhole : offSize * n ≤ stored
    · simp [SaveKeeps, saveOffsetsFile, SaveEnd.Whole, hwhole, take_offsetBytes, loadOffsetsFile_offsetBytes]
    · have hload : loadOffsetsFile n (some ((offsetBytes new).take stored)) = fun _ => 0 :=
        loadOffsetsFile_take (Nat.lt_of_not_le hwhole)
      simp only [SaveKeeps, saveOffsetsFile, SaveEnd.Whole, SaveEnd.Dies, hload, hwhole, reduceCtorEq, false_implies,
        and_true, true_and, false_or]
      exact or_congr eq_comm eq_comm
  | writes stored =>
    by_cases hwhole : offSize * n ≤ stored
    · simp [SaveKeeps, saveOffsetsFile, SaveEnd.Whole, hwhole, take_offsetBytes, loadOffsetsFile_offsetBytes,
        Nat.not_lt.mpr hwhole]
    · have hload : loadOffsetsFile n (some ((offsetBytes new).take stored)) = fun _ => 0 :=
        loadOffsetsFile_take (Nat.lt_of_not_le hwhole)
      simp only [SaveKeeps, saveOffsetsFile, SaveEnd.Whole, SaveEnd.Dies, hload, hwhole, if_pos (Nat.lt_of_not_le hwhole),
        true_implies, false_and, or_false, false_or]
      exact ⟨fun h => h.2.symm, fun h => ⟨.inl h.symm, h.symm⟩⟩

/-- The process dies between the truncation and the write: the offsets are back at 0. -/
theorem saveOffsets_truncated : ¬∀ (old new : Fin mainPathCount → Int64) (e : SaveEnd), SaveKeeps old new e := by
  intro h
  have hkeeps := (saveOffsets_keeps_iff _ _ _).mp (h (fun _ => 39) (fun _ => 78) (.dies 0))
  have hold : (fun _ : Fin mainPathCount => (39 : Int64)) ≠ fun _ => 0 := fun h => absurd (congrFun h 0) (by decide)
  have hnew : (fun _ : Fin mainPathCount => (78 : Int64)) ≠ fun _ => 0 := fun h => absurd (congrFun h 0) (by decide)
  rcases hkeeps with hwhole | hzero | ⟨-, hzero⟩
  · exact absurd hwhole (show ¬offSize * mainPathCount ≤ 0 by decide)
  · exact hold hzero
  · exact hnew hzero

end Dtu
