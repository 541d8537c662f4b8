import Dtu.Framework.Crc
import Dtu.Proof.LoraFrame

/-!
# The check of LoRa frames

`crc16` is the CRC of width 16 with the polynomial 0xA001 (`toBitVec_crc16`), whose top
bit is set and which has an odd number of bits. The test of `lora_unpack` is that the
check of the whole frame is zero (`crcTest_iff`), so it finds each change of two adjacent
bytes and each odd number of changed bits (`loraUnpack_corrupted`).
-/

namespace Dtu

open Crc

/-! ## `crc16` -/

/-- The polynomial of `crc16`. -/
abbrev crc16Poly : BitVec 16 := 0xA001#16

theorem and_one_ne_zero (c : UInt16) : c &&& 1 ≠ 0 ↔ c.toBitVec.getLsbD 0 = true := by
  have hbit : (c &&& 1).toBitVec = (BitVec.ofBool (c.toBitVec.getLsbD 0)).setWidth 16 := by
    rw [UInt16.toBitVec_and]
    exact BitVec.and_one_eq_setWidth_ofBool_getLsbD
  rw [ne_eq, ← UInt16.toBitVec_inj, hbit]
  cases c.toBitVec.getLsbD 0 <;> decide

theorem toBitVec_crc16Bit (c : UInt16) : (crc16Bit c).toBitVec = shift crc16Poly c.toBitVec := by
  rw [crc16Bit, shift]
  by_cases hbit : c.toBitVec.getLsbD 0 = true
  · rw [if_pos ((and_one_ne_zero c).mpr hbit), if_pos hbit]
    simp
  · rw [if_neg (mt (and_one_ne_zero c).mp hbit), if_neg hbit]
    simp

theorem toBitVec_crc16Bits (n : Nat) (c : UInt16) :
    (crc16Bit^[n] c).toBitVec = (shift crc16Poly)^[n] c.toBitVec := by
  induction n generalizing c with
  | zero => rfl
  | succ n ih => rw [Function.iterate_succ_apply, Function.iterate_succ_apply, ih, toBitVec_crc16Bit]

theorem toBitVec_crc16 (data : List UInt8) :
    (crc16 data).toBitVec = (data.map UInt8.toBitVec).foldl (feed crc16Poly) 0xFFFF#16 := by
  have h : ∀ c : UInt16, (data.foldl (fun crc b => crc16Bit^[8] (crc ^^^ b.toUInt16)) c).toBitVec =
      (data.map UInt8.toBitVec).foldl (feed crc16Poly) c.toBitVec := by
    induction data with
    | nil => exact fun _ => rfl
    | cons b data ih =>
      intro c
      rw [List.foldl_cons, List.map_cons, List.foldl_cons, ih, toBitVec_crc16Bits, feed]
      simp
  exact h 0xFFFF

theorem getLsbD_crc16Poly : crc16Poly.getLsbD (16 - 1) = true := rfl

theorem parity_crc16Poly : parity crc16Poly = true := rfl

/-! ## The test -/

/-- What `lora_unpack` takes of a frame for its check is the check of the rest. -/
def CrcTest (buf : List UInt8) : Prop :=
  (buf.getD (buf.length - 2) 0).toUInt16 ||| ((buf.getD (buf.length - 1) 0).toUInt16 <<< 8) =
    crc16 (buf.take (buf.length - 2))

instance (buf : List UInt8) : Decidable (CrcTest buf) := inferInstanceAs (Decidable (_ = _))

/-- A little-endian word. -/
theorem toBitVec_word (lo hi : UInt8) :
    (lo.toUInt16 ||| (hi.toUInt16 <<< 8)).toBitVec = lo.toBitVec.setWidth 16 ^^^ hi.toBitVec.setWidth 16 <<< 8 := by
  have hshift : (hi.toUInt16 <<< 8).toBitVec = hi.toBitVec.setWidth 16 <<< 8 := by simp
  rw [UInt16.toBitVec_or, hshift, UInt8.toBitVec_toUInt16]
  refine BitVec.eq_of_getLsbD_eq fun i hi => ?_
  by_cases hlow : i < 8
  · simp [hlow]
  · simp [hlow, BitVec.getLsbD_of_ge lo.toBitVec i (by omega)]

theorem crc16_eq_zero_iff (text : List UInt8) (lo hi : UInt8) :
    crc16 (text ++ [lo, hi]) = 0 ↔ lo.toUInt16 ||| (hi.toUInt16 <<< 8) = crc16 text := by
  rw [← UInt16.toBitVec_inj, ← UInt16.toBitVec_inj, toBitVec_word, toBitVec_crc16, toBitVec_crc16, List.map_append,
    List.foldl_append]
  exact (feed_feed_eq_zero_iff getLsbD_crc16Poly (by decide)).trans eq_comm

theorem exists_of_two_le_length {buf : List UInt8} (h : 2 ≤ buf.length) : ∃ text lo hi, buf = text ++ [lo, hi] := by
  obtain rfl | ⟨front, hi, rfl⟩ := List.eq_nil_or_concat buf
  · simp at h
  obtain rfl | ⟨text, lo, rfl⟩ := List.eq_nil_or_concat front
  · simp at h
  exact ⟨text, lo, hi, by simp⟩

theorem crcTest_iff {buf : List UInt8} (h : 2 ≤ buf.length) : CrcTest buf ↔ crc16 buf = 0 := by
  obtain ⟨text, lo, hi, rfl⟩ := exists_of_two_le_length h
  rw [crc16_eq_zero_iff, CrcTest]
  simp

theorem crcTest_loraPack (netid devid : UInt8) (payload : List UInt8) : CrcTest (loraPack netid devid payload) := by
  rw [crcTest_iff (by rw [length_loraPack]; omega), loraPack]
  exact (crc16_eq_zero_iff _ _ _).mpr (Bytes.or_halves _)

/-- `lora_unpack` rejects a frame whose test fails. -/
theorem loraUnpack_of_not_crcTest {buf : List UInt8} (hlen : 4 ≤ buf.length) (h : ¬CrcTest buf) (last : LastFrame)
    (netid devid : UInt8) : loraUnpack last buf netid devid = (.error (-2), last) := by
  rw [loraUnpack]
  simp only
  rw [if_neg (by omega)]
  exact if_pos h

/-! ## Changes of a frame -/

/-- The bits set in a byte. -/
def bitCount (b : UInt8) : Nat := (List.range 8).countP b.toBitVec.getLsbD

/-- The bits in which two frames of one length differ. -/
def flippedBits (frame frame' : List UInt8) : Nat := (List.zipWith (fun b b' => bitCount (b ^^^ b')) frame frame').sum

/-- A frame with one byte or two adjacent ones changed, or with an odd number of bits
flipped. -/
inductive Corrupted (frame : List UInt8) : List UInt8 → Prop where
  | bytes {pre post : List UInt8} {a b a' b' : UInt8} (hframe : frame = pre ++ a :: b :: post)
      (hne : a' ≠ a ∨ b' ≠ b) : Corrupted frame (pre ++ a' :: b' :: post)
  | bits {frame' : List UInt8} (hlen : frame'.length = frame.length) (hodd : flippedBits frame frame' % 2 = 1) :
      Corrupted frame frame'

theorem Corrupted.length {frame frame' : List UInt8} (h : Corrupted frame frame') : frame'.length = frame.length := by
  cases h with
  | bytes hframe hne =>
    rw [hframe, List.length_append, List.length_append]
    rfl
  | bits hlen hodd => exact hlen

/-- Two adjacent bytes. -/
theorem crc16_bytes {pre post : List UInt8} {a b a' b' : UInt8}
    (h : crc16 (pre ++ a' :: b' :: post) = crc16 (pre ++ a :: b :: post)) : a' = a ∧ b' = b := by
  rw [← UInt16.toBitVec_inj, toBitVec_crc16, toBitVec_crc16] at h
  simp only [List.map_append, List.map_cons, List.foldl_append, List.foldl_cons] at h
  have hfeed := foldl_feed_injective getLsbD_crc16Poly _ h
  obtain ⟨ha, hb⟩ := feed_feed_injective getLsbD_crc16Poly (by decide) hfeed
  exact ⟨UInt8.toBitVec_inj.mp ha, UInt8.toBitVec_inj.mp hb⟩

/-- The parities of two registers differ by the bits that have been flipped. -/
theorem parity_foldl_feed {frame frame' : List UInt8} (hlen : frame'.length = frame.length) (c c' : BitVec 16) :
    (parity ((frame.map UInt8.toBitVec).foldl (feed crc16Poly) c) ^^
        parity ((frame'.map UInt8.toBitVec).foldl (feed crc16Poly) c')) =
      (parity c ^^ parity c' ^^ decide (flippedBits frame frame' % 2 = 1)) := by
  induction frame generalizing frame' c c' with
  | nil =>
    rw [List.length_eq_zero_iff.mp hlen]
    simp [flippedBits]
  | cons b frame ih =>
    cases frame' with
    | nil => cases hlen
    | cons b' frame' =>
      have hcount : decide (flippedBits (b :: frame) (b' :: frame') % 2 = 1) =
          (parity b.toBitVec ^^ parity b'.toBitVec ^^ decide (flippedBits frame frame' % 2 = 1)) := by
        have hbits : (parity b.toBitVec ^^ parity b'.toBitVec) = decide (bitCount (b ^^^ b') % 2 = 1) := by
          rw [← parity_xor, parity, parityUpTo_eq]
          rfl
        rw [hbits, flippedBits, List.zipWith_cons_cons, List.sum_cons, ← flippedBits]
        rcases Nat.mod_two_eq_zero_or_one (bitCount (b ^^^ b')) with h | h <;>
          rcases Nat.mod_two_eq_zero_or_one (flippedBits frame frame') with h' | h' <;>
            simp [h, h', Nat.add_mod]
      rw [List.map_cons, List.foldl_cons, List.map_cons, List.foldl_cons, ih (by simpa using hlen),
        parity_feed parity_crc16Poly (by decide), parity_feed parity_crc16Poly (by decide), hcount]
      cases parity c <;> cases parity c' <;> cases parity b.toBitVec <;> cases parity b'.toBitVec <;> simp

/-- `crc16` of a frame of `lora_pack` is zero and its test passes; whichever byte or two
adjacent bytes are changed, or odd number of bits, `lora_unpack` rejects it. -/
theorem loraUnpack_corrupted (netid devid : UInt8) (payload : List UInt8) :
    crc16 (loraPack netid devid payload) = 0 ∧ CrcTest (loraPack netid devid payload) ∧
      ∀ frame', Corrupted (loraPack netid devid payload) frame' →
        ¬CrcTest frame' ∧ ∀ last expectNetid expectDevid,
          loraUnpack last frame' expectNetid expectDevid = (.error (-2), last) := by
  have htest := crcTest_loraPack netid devid payload
  have hlen := length_loraPack netid devid payload
  have hzero := (crcTest_iff (by omega)).mp htest
  refine ⟨hzero, htest, fun frame' hcorrupted => ?_⟩
  have hlen' := hcorrupted.length
  have hfails : ¬CrcTest frame' := by
    rw [crcTest_iff (by omega)]
    intro hzero'
    cases hcorrupted with
    | bytes hframe hne =>
      rw [hframe] at hzero
      obtain ⟨rfl, rfl⟩ := crc16_bytes (hzero'.trans hzero.symm)
      simp at hne
    | bits hlen' hodd =>
      have hparity := parity_foldl_feed hlen' 0xFFFF#16 0xFFFF#16
      rw [← toBitVec_crc16, ← toBitVec_crc16, hzero, hzero', hodd] at hparity
      simp at hparity
  exact ⟨hfails, fun last expectNetid expectDevid => loraUnpack_of_not_crcTest (by omega) hfails last _ _⟩

/-- The frame of one byte for device 1 of net 2, with both ids changed. -/
theorem loraUnpack_corrupted_two :
    ¬CrcTest (3 :: 4 :: (loraPack 2 1 [0x41]).drop 2) ∧ ∀ last expectNetid expectDevid,
      loraUnpack last (3 :: 4 :: (loraPack 2 1 [0x41]).drop 2) expectNetid expectDevid = (.error (-2), last) :=
  (loraUnpack_corrupted 2 1 [0x41]).2.2 _ (@Corrupted.bytes _ [] _ 2 1 3 4 rfl (by decide))

end Dtu
