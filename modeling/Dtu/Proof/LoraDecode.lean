import Dtu.Impl.Lora
import Dtu.Proof.Limits

/-!
# The two decoders of packed text

`lora_transform_thread` decodes the text of `pack_data_from_files` with a loop of its
own, two characters a turn and commas like any others, `data_separator` with the
commas as bytes. The loop reads the first entry (`loraDecode_entry`); the comma
behind it leaves it between the two digits of each byte of the second
(`loraDecode_comma`), and each second comma is swallowed (`length_loraDecode`). So
the two agree just on one entry, and on two by accident (`loraPayload_eq_iff`).
-/

namespace Dtu

open Stdio Loop

/-! ## The turns -/

variable (stale : Nat → UInt8)

/-- The loop takes a turn for each two characters. -/
theorem length_loraDecode {k : Nat} (hex : List Char) (h : k + (hex.length + 1) / 2 ≤ loraPayloadSize) :
    (loraDecode stale k hex).length = (hex.length + 1) / 2 := by
  fun_induction loraDecode stale k hex with
  | case1 => rfl
  | case2 => simp
  | case3 k c hk => exact absurd h (by simpa using hk)
  | case4 k c d hex hk ih =>
    simp only [List.length_cons] at h ⊢
    rw [ih (by omega)]
    omega
  | case5 k c d hex hk =>
    simp only [List.length_cons] at h
    omega

/-- From the first digit of an entry on, the loop reads its bytes. -/
theorem loraDecode_entry (e : List UInt8) {k : Nat} (h : k + e.length ≤ loraPayloadSize) (hex : List Char) :
    loraDecode stale k (e.flatMap fmtX2 ++ hex) = e ++ loraDecode stale (k + e.length) hex := by
  induction e generalizing k with
  | nil => rfl
  | cons b e ih =>
    simp only [List.length_cons] at h
    have hbyte := scanX2_fmtX2 b (e.flatMap fmtX2 ++ hex)
    simp only [fmtX2, List.cons_append, List.nil_append] at hbyte
    simp only [List.flatMap_cons, fmtX2, List.cons_append, List.nil_append, loraDecode, hbyte, Option.getD_some]
    rw [if_pos (by omega)]
    rw [ih (by omega), List.length_cons, show k + 1 + e.length = k + (e.length + 1) by omega]

/-- What the loop makes of an entry that it starts with the second digit. -/
def shifted : UInt8 → List UInt8 → List UInt8
  | b, [] => [UInt8.ofNat (b.toNat % 16)]
  | b, c :: e => hexByte (b.toNat % 16) (c.toNat / 16) :: shifted c e

theorem scanX2_digits {hi lo : Nat} (hhi : hi < 16) (hlo : lo < 16) (s : List Char) :
    (scanX2 (hexDigit hi :: hexDigit lo :: s)).map UInt8.ofNat = some (hexByte hi lo) := by
  simp only [scanX2, List.dropWhile_cons, isspace_hexDigit _ hhi, hexVal_hexDigit _ hhi, hexVal_hexDigit _ hlo,
    Bool.false_eq_true, if_false, Option.map_some, hexByte]

/-- A digit at the end of the text, or before a comma, is read alone. -/
theorem scanX2_digit {n : Nat} (hn : n < 16) {s : List Char} (hs : s = [] ∨ s.head? = some ',') :
    scanX2 (hexDigit n :: s) = some n := by
  rcases hs with rfl | hs
  · simp only [scanX2, List.dropWhile_cons, isspace_hexDigit _ hn, hexVal_hexDigit _ hn, Bool.false_eq_true, if_false]
  · obtain ⟨s, rfl⟩ : ∃ s', s = ',' :: s' := by
      cases s with
      | nil => cases hs
      | cons c s => exact ⟨s, by rw [Option.some.inj hs]⟩
    have hcomma : hexVal ',' = none := by decide
    simp only [scanX2, List.dropWhile_cons, isspace_hexDigit _ hn, hexVal_hexDigit _ hn, hcomma, Bool.false_eq_true,
      if_false, show ¬(hexDigit n = '0' ∧ (',' = 'x' ∨ ',' = 'X')) by decide +revert]

theorem loraDecode_shifted (b : UInt8) (e : List UInt8) {k : Nat} (h : k + (e.length + 1) ≤ loraPayloadSize) :
    loraDecode stale k (hexDigit (b.toNat % 16) :: e.flatMap fmtX2) = shifted b e := by
  induction e generalizing b k with
  | nil =>
    rw [List.flatMap_nil, loraDecode, scanX2_digit (halves_lt b).2 (.inl rfl), if_pos (by simpa using h)]
    rfl
  | cons c e ih =>
    simp only [List.length_cons] at h
    obtain ⟨hlo, hhi⟩ := And.intro (halves_lt b).2 (halves_lt c).1
    simp only [List.flatMap_cons, fmtX2, List.cons_append, List.nil_append, loraDecode]
    rw [if_pos (by omega), scanX2_digits hlo hhi, ih c (by omega)]
    rfl

/-- The comma behind the first entry, and what the loop makes of the second. -/
theorem loraDecode_comma (b : UInt8) (e : List UInt8) {k : Nat} (h : k + (e.length + 2) ≤ loraPayloadSize) :
    loraDecode stale k (',' :: (b :: e).flatMap fmtX2) = stale k :: shifted b e := by
  simp only [List.flatMap_cons, fmtX2, List.cons_append, List.nil_append, loraDecode]
  have hcomma : hexVal ',' = none := by decide
  have hspace : isspace ',' = false := by decide
  rw [if_pos (by omega), loraDecode_shifted stale b e (by omega)]
  simp only [scanX2, List.dropWhile_cons, hspace, hcomma, Bool.false_eq_true, if_false,
    show ¬(',' : Char) = '+' by decide, show ¬(',' : Char) = '-' by decide, Option.map_none, Option.getD_none]

/-- Reading a byte from its second digit on gives the byte only if the digits are
the same. -/
theorem hexByte_low (b : UInt8) : hexByte (b.toNat % 16) 0 = b ↔ b = 0 := by
  have h : ∀ n < 256, hexByte (n % 16) 0 = UInt8.ofNat n ↔ n = 0 := by decide +kernel
  have hb := h b.toNat b.toNat_lt
  rw [UInt8.ofNat_toNat] at hb
  rw [hb, ← UInt8.toNat_inj]
  rfl

theorem ofNat_low (b : UInt8) : UInt8.ofNat (b.toNat % 16) = b ↔ b < 16 := by
  have hlt := b.toNat_lt
  rw [← UInt8.toNat_inj, UInt8.toNat_ofNat', UInt8.lt_iff_toNat_lt, show (16 : UInt8).toNat = 16 from rfl]
  omega

/-- An entry is read right from its second digit on just when it is zero up to its
last digit. -/
theorem shifted_eq_iff (b : UInt8) (e : List UInt8) :
    shifted b e = b :: e ↔ ∃ n x, b :: e = List.replicate n 0 ++ [x] ∧ x < 16 := by
  induction e generalizing b with
  | nil =>
    rw [shifted, List.cons.injEq, ofNat_low]
    constructor
    · intro h
      exact ⟨0, b, rfl, h.1⟩
    · intro h
      obtain ⟨n, x, heq, hx⟩ := h
      have hlen := congrArg List.length heq
      simp only [List.length_append, List.length_replicate, List.length_singleton] at hlen
      obtain rfl : n = 0 := by omega
      rw [show b = x by simpa using heq]
      exact ⟨hx, rfl⟩
  | cons c e ih =>
    have hhigh : ∀ n x, c :: e = List.replicate n 0 ++ [x] → x < 16 → c.toNat / 16 = 0 := by
      intro n x heq hx
      cases n with
      | zero =>
        rw [show c = x by simpa using congrArg List.head? heq]
        exact Nat.div_eq_of_lt hx
      | succ n =>
        rw [show c = 0 by simpa [List.replicate_succ] using congrArg List.head? heq]
        rfl
    rw [shifted, List.cons.injEq, ih]
    constructor
    · intro h
      obtain ⟨hbyte, n, x, heq, hx⟩ := h
      rw [hhigh n x heq hx, hexByte_low] at hbyte
      exact ⟨n + 1, x, by rw [hbyte, heq, List.replicate_succ, List.cons_append], hx⟩
    · intro h
      obtain ⟨n, x, heq, hx⟩ := h
      cases n with
      | zero => simp at heq
      | succ n =>
        rw [List.replicate_succ, List.cons_append, List.cons.injEq] at heq
        obtain ⟨hb, heq⟩ := heq
        refine ⟨?_, n, x, heq, hx⟩
        rw [hhigh n x heq hx, hexByte_low]
        exact hb

/-! ## All entries -/

/-- The batches on which the two decoders agree. -/
def Agrees (stale : Nat → UInt8) (es : List (List UInt8)) : Prop :=
  es.length = 1 ∨ ∃ e n x, es = [e, List.replicate n 0 ++ [x]] ∧ x < 16 ∧ stale e.length = 0x2C

theorem loraDecode_singleton {e : List UInt8} (h : e.length ≤ loraPayloadSize) :
    loraDecode stale 0 (joinHex [e]) = e := by
  have hjoin : joinHex [e] = e.flatMap fmtX2 ++ [] := by simp [joinHex]
  rw [hjoin, loraDecode_entry stale e (by omega), loraDecode, List.append_nil]

theorem hexCost_add_length (es : List (List UInt8)) : hexCost es + es.length = 2 * rawCost es := by
  induction es with
  | nil => rfl
  | cons e es ih =>
    simp only [hexCost_cons, rawCost_cons, List.length_cons]
    omega

theorem loraDecode_joinHex_iff {es : List (List UInt8)} (hes : ∀ e ∈ es, e ≠ []) (hne : es ≠ [])
    (hcap : (joinHex es).length ≤ loraMaxHexLen) :
    loraDecode stale 0 (joinHex es) = joinRaw es ↔ Agrees stale es := by
  simp only [loraMaxHexLen] at hcap
  match es, hes, hne with
  | [e], _, _ =>
    have hsize : e.length ≤ loraPayloadSize := by
      rw [length_joinHex, hexCost_cons, hexCost_nil] at hcap
      simp only [loraPayloadSize]
      omega
    rw [loraDecode_singleton stale hsize]
    simp [joinRaw, Agrees]
  | [e, f], hes, _ =>
    obtain ⟨b, f, rfl⟩ := List.exists_cons_of_ne_nil (hes f (by simp))
    have hjoin : joinHex [e, b :: f] = e.flatMap fmtX2 ++ ',' :: (b :: f).flatMap fmtX2 := by
      simp [joinHex, List.intercalate]
    have hraw : joinRaw [e, b :: f] = e ++ 0x2C :: b :: f := by simp [joinRaw, List.intercalate]
    have hsize : e.length + (f.length + 2) ≤ loraPayloadSize := by
      rw [hjoin, List.length_append, List.length_cons, length_flatMap_fmtX2, length_flatMap_fmtX2,
        List.length_cons] at hcap
      simp only [loraPayloadSize]
      omega
    rw [hjoin, loraDecode_entry stale e (by omega), Nat.zero_add, loraDecode_comma stale b f hsize, hraw,
      List.append_cancel_left_eq, List.cons.injEq, shifted_eq_iff]
    constructor
    · intro h
      obtain ⟨hstale, n, x, heq, hx⟩ := h
      exact .inr ⟨e, n, x, by rw [heq], hx, hstale⟩
    · intro h
      rcases h with h | ⟨e', n, x, heq, hx, hstale⟩
      · simp at h
      · simp only [List.cons.injEq, and_true] at heq
        obtain ⟨rfl, heq⟩ := heq
        exact ⟨hstale, n, x, heq, hx⟩
  | e :: f :: g :: es, _, _ =>
    have hlen := length_loraDecode stale (k := 0) (joinHex (e :: f :: g :: es)) (by
      simp only [loraPayloadSize]
      omega)
    have hcost := hexCost_add_length (e :: f :: g :: es)
    rw [length_joinHex] at hlen
    constructor
    · intro h
      rw [h, length_joinRaw] at hlen
      simp only [List.length_cons] at hcost
      omega
    · intro h
      rcases h with h | ⟨_, _, _, h, -⟩ <;> simp at h

/-- The payload that `lora_transform_thread` makes of a batch is what `data_separator`
makes of its text just when the batch has one entry, or two of which the second is
zero up to its last digit and the uninitialised variable happens to hold a comma
where the text has one. -/
theorem loraPayload_eq_iff {files : Fin 2 → Option (List Char)} {offsets pending : Fin 2 → Nat} {b : HexBatch}
    (h : packDataFromFiles files offsets loraMaxHexLen = some (b, pending)) (hcount : 0 < b.entryCount) :
    some (loraPayload stale b) = dataSeparator b.hexBuf loraPayloadSize ↔
      Agrees stale (windowEntries packLineSize files offsets pending) := by
  have hfits := packDataFromFiles_fits h
  obtain ⟨rfl, -⟩ := packDataFromFiles_window h
  have hes := @ne_nil_of_mem_windowEntries packLineSize 2 files offsets pending
  generalize windowEntries packLineSize files offsets pending = es at *
  have hcap : (joinHex es).length ≤ loraMaxHexLen := hfits
  have hraw : (joinRaw es).length ≤ loraPayloadSize := by
    have hcost := hexCost_add_length es
    have hsum := rawCost_eq_sum es
    rw [length_joinHex] at hcap
    rw [length_joinRaw]
    simp only [loraMaxHexLen, loraPayloadSize] at *
    omega
  have hpayload : loraPayload stale (batchOf es) = loraDecode stale 0 (joinHex es) :=
    congrArg (loraDecode stale 0) (List.take_length)
  rw [hpayload, ← loraDecode_joinHex_iff stale hes (List.length_pos_iff.mp hcount) hcap]
  show some _ = dataSeparator (joinHex es) loraPayloadSize ↔ _
  rw [dataSeparator_joinHex (by decide), if_pos hraw, Option.some.injEq]

/-- The RS485 log with these records, and no RS232 log. -/
def rs485Log (rs : List Record) : Fin 2 → Option (List Char) := fun i => if i.val = 0 then some (logText rs) else none

/-- Three messages of two bytes. -/
theorem loraPayload_three :
    ∃ b pending, packDataFromFiles (rs485Log [short 0, short 1, short 2]) (fun _ => 0) loraMaxHexLen = some (b, pending) ∧
      b.entryCount = 3 ∧ ∀ stale, some (loraPayload stale b) ≠ dataSeparator b.hexBuf loraPayloadSize := by
  have h : (packDataFromFiles (rs485Log [short 0, short 1, short 2]) (fun _ => 0) loraMaxHexLen).map
      (fun r => (r.1.entryCount, (r.1.hexBuf.take r.1.hexLen).length, (dataSeparator r.1.hexBuf loraPayloadSize).map
        List.length)) = some (3, 14, some 8) := by
    decide +kernel
  obtain ⟨⟨b, pending⟩, hpack, heq⟩ := Option.map_eq_some_iff.mp h
  simp only [Prod.mk.injEq] at heq
  obtain ⟨hcount, hhex, hraw⟩ := heq
  refine ⟨b, pending, hpack, hcount, fun stale hsame => ?_⟩
  have hlen := length_loraDecode stale (k := 0) (b.hexBuf.take b.hexLen) (by rw [hhex]; decide)
  rw [← hsame, Option.map_some, Option.some.injEq, loraPayload, hlen, hhex] at hraw
  exact absurd hraw (by decide)

/-- Two messages, where the variable does not hold a comma. -/
theorem loraPayload_eq_iff_two :
    ∃ b pending, b.entryCount = 2 ∧
      (some (loraPayload (fun _ => 0) b) = dataSeparator b.hexBuf loraPayloadSize ↔
        Agrees (fun _ => 0) (windowEntries packLineSize (rs485Log [short 0, short 1]) (fun _ => 0) pending)) := by
  have h : (packDataFromFiles (rs485Log [short 0, short 1]) (fun _ => 0) loraMaxHexLen).map (fun r => r.1.entryCount) =
      some 2 := by
    decide +kernel
  obtain ⟨⟨b, pending⟩, hpack, hcount⟩ := Option.map_eq_some_iff.mp h
  have hcount : b.entryCount = 2 := hcount
  exact ⟨b, pending, hcount, loraPayload_eq_iff (fun _ => 0) hpack (by omega)⟩

end Dtu
