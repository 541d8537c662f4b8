import Dtu.Proof.LoraFrame

/-!
# Hexadecimal text over Bluetooth

`debug_parse_plain_hex` accepts just the texts that are, but for blanks, the digits of
at least one byte and at most `out_max` (`debugParsePlainHex_eq_some_iff`). Its buffer
`clean[512]` holds an odd number of digits where it stops reading, so a longer text is
not cut but refused.
-/

namespace Dtu

open Stdio

/-- The characters that `debug_parse_plain_hex` passes over. -/
def isBlank (c : Char) : Bool := c = ' ' || c = '\t' || c = '\r' || c = '\n'

/-- The values of the two digits of each byte. -/
def nibbles (data : List UInt8) : List Nat := data.flatMap fun b => [b.toNat / 16, b.toNat % 16]

/-- But for blanks a text is the digits, of either case, of some bytes. -/
def IsHexOf (str : List Char) (data : List UInt8) : Prop :=
  (str.filter (!isBlank ·)).map hexVal = (nibbles data).map some

instance (str : List Char) (data : List UInt8) : Decidable (IsHexOf str data) := inferInstanceAs (Decidable (_ = _))

theorem nibbles_cons (b : UInt8) (data : List UInt8) :
    nibbles (b :: data) = b.toNat / 16 :: b.toNat % 16 :: nibbles data := rfl

theorem length_nibbles (data : List UInt8) : (nibbles data).length = 2 * data.length := by
  induction data with
  | nil => rfl
  | cons b data ih =>
    rw [nibbles_cons, List.length_cons, List.length_cons, ih, List.length_cons]
    omega

theorem hexVal_lt {c : Char} {v : Nat} (h : hexVal c = some v) : v < 16 := by
  have hle : ∀ a b : Char, a ≤ b → a.toNat ≤ b.toNat := fun _ _ h => h
  unfold hexVal at h
  split at h
  · rename_i hc
    have := hle _ _ hc.2
    have : '9'.toNat = 57 := rfl
    cases h
    omega
  split at h
  · rename_i hc
    have := hle _ _ hc.2
    have : 'F'.toNat = 70 := rfl
    cases h
    omega
  split at h
  · rename_i hc
    have := hle _ _ hc.2
    have : 'f'.toNat = 102 := rfl
    cases h
    omega
  · cases h

theorem toNat_hexByte {hi lo : Nat} (hhi : hi < 16) (hlo : lo < 16) : (hexByte hi lo).toNat = 16 * hi + lo := by
  have hlow : lo < 2 ^ 4 := hlo
  rw [hexByte, ← Nat.shiftLeft_add_eq_or_of_lt hlow, Nat.shiftLeft_eq, UInt8.toNat_ofNat']
  omega

/-- The loop over the text keeps the digits, as many as there is room for. -/
theorem cleanHex_eq (room : Nat) (str : List Char) :
    cleanHex room str =
      if ∀ c ∈ (str.filter (!isBlank ·)).take room, (hexVal c).isSome then
        some ((str.filter (!isBlank ·)).take room)
      else none := by
  induction str generalizing room with
  | nil => cases room <;> simp [cleanHex]
  | cons c str ih =>
    cases room with
    | zero => simp [cleanHex]
    | succ room =>
      rw [cleanHex]
      by_cases hblank : c = ' ' ∨ c = '\r' ∨ c = '\n' ∨ c = '\t'
      · have hskip : isBlank c = true := by
          rcases hblank with rfl | rfl | rfl | rfl <;> decide
        rw [if_pos hblank, ih, List.filter_cons_of_neg (by simp [hskip])]
      · have hkeep : isBlank c = false := by
          simp only [not_or] at hblank
          simp [isBlank, hblank]
        rw [if_neg hblank, List.filter_cons_of_pos (by simp [hkeep]), List.take_succ_cons]
        by_cases hhex : (hexVal c).isSome
        · rw [if_neg (by simp [Option.isSome_iff_ne_none.mp hhex]), ih]
          simp only [List.forall_mem_cons, hhex, true_and]
          split <;> simp
        · rw [if_pos (by simpa using hhex), if_neg]
          simp [hhex]

/-- The loop over the digits gives the bytes they are of. -/
theorem hexPairs_eq_some_iff {clean : List Char} (heven : clean.length % 2 = 0) {data : List UInt8} :
    hexPairs clean = some data ↔ clean.map hexVal = (nibbles data).map some := by
  fun_induction hexPairs clean generalizing data with
  | case1 c d clean high low hlow hhigh ih =>
    have heven' : clean.length % 2 = 0 := by
      simp only [List.length_cons] at heven
      omega
    have hlt := hexVal_lt hlow
    have hbyte := toNat_hexByte (hexVal_lt hhigh) hlt
    have hdiv : (16 * high + low) / 16 = high := by omega
    have hmod : (16 * high + low) % 16 = low := by omega
    rw [Option.map_eq_some_iff, List.map_cons, List.map_cons, hhigh, hlow]
    constructor
    · rintro ⟨rest, hrest, rfl⟩
      rw [(ih heven').mp hrest, nibbles_cons, hbyte, hdiv, hmod]
      rfl
    · intro h
      cases data with
      | nil => simp [nibbles] at h
      | cons b rest =>
        rw [nibbles_cons] at h
        simp only [List.map_cons, List.cons.injEq, Option.some.injEq] at h
        obtain ⟨rfl, rfl, hrest⟩ := h
        exact ⟨rest, (ih heven').mpr hrest, by rw [hexByte_halves]⟩
  | case2 c d clean hnone =>
    refine iff_of_false (fun hsome => by cases hsome) fun h => ?_
    cases data with
    | nil => simp [nibbles] at h
    | cons b rest =>
      rw [nibbles_cons] at h
      simp only [List.map_cons, List.cons.injEq] at h
      exact hnone _ _ h.1 h.2.1
  | case3 clean hshort =>
    rcases clean with _ | ⟨c, _ | ⟨d, clean⟩⟩
    · cases data with
      | nil => simp [nibbles]
      | cons b rest => simp [nibbles]
    · simp at heven
    · exact absurd rfl (hshort c d clean)

/-- `debug_parse_plain_hex` gives the bytes of just the texts that are their digits, if
there is at least one and there are not more than `out_max`. -/
theorem debugParsePlainHex_eq_some_iff {outMax : Nat} (hmax : outMax ≤ 255) (str : List Char) (data : List UInt8) :
    debugParsePlainHex str outMax = some data ↔ IsHexOf str data ∧ 1 ≤ data.length ∧ data.length ≤ outMax := by
  have hlength : IsHexOf str data → (str.filter (!isBlank ·)).length = 2 * data.length := fun h => by
    have := congrArg List.length h
    rwa [List.length_map, List.length_map, length_nibbles] at this
  rw [debugParsePlainHex, cleanHex_eq, IsHexOf]
  rw [IsHexOf] at hlength
  generalize str.filter (!isBlank ·) = digits at *
  by_cases hhex : ∀ c ∈ digits.take (512 - 1), (hexVal c).isSome
  · simp only [if_pos hhex, Option.ite_none_left_eq_some, List.length_take]
    by_cases hfits : digits.length < 512 - 1
    · -- The loop reads the whole text.
      rw [List.take_of_length_le (Nat.le_of_lt hfits), Nat.min_eq_right (Nat.le_of_lt hfits)]
      constructor
      · rintro ⟨-, hcount, hroom, hpairs⟩
        have htext := (hexPairs_eq_some_iff (by omega)).mp hpairs
        have hlen := hlength htext
        exact ⟨htext, by omega, by omega⟩
      · rintro ⟨htext, hpos, hroom⟩
        have hlen := hlength htext
        exact ⟨by omega, by omega, by omega, (hexPairs_eq_some_iff (by omega)).mpr htext⟩
    · -- It stops with 511 digits, an odd number.
      refine iff_of_false (fun h => ?_) fun h => ?_
      · have hcount := h.2.1
        omega
      · have hlen := hlength h.1
        omega
  · have hnot : digits.map hexVal ≠ (nibbles data).map some := by
      intro htext
      refine hhex fun c hc => ?_
      have hmem : hexVal c ∈ (nibbles data).map some := htext ▸ List.mem_map_of_mem (List.mem_of_mem_take hc)
      obtain ⟨v, -, hv⟩ := List.mem_map.mp hmem
      rw [← hv]
      rfl
    simp [if_neg hhex, hnot]

theorem debugParsePlainHex_eq_some_iff_two :
    debugParsePlainHex "0a\tfF \r\n".toList debugBtMaxRawLen = some [0x0A, 0xFF] ↔
      IsHexOf "0a\tfF \r\n".toList [0x0A, 0xFF] ∧ 1 ≤ [(0x0A : UInt8), 0xFF].length ∧
        [(0x0A : UInt8), 0xFF].length ≤ debugBtMaxRawLen :=
  debugParsePlainHex_eq_some_iff (by decide) _ _

example : debugParsePlainHex (List.replicate 512 '0') 255 = none := by decide +kernel

end Dtu
