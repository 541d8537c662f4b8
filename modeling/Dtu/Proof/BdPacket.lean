import Dtu.Impl.Bd3
import Dtu.Proof.Batch
import Dtu.Proof.LoraCfg

/-!
# Packets to the BeiDou module

The buffers of `bd_send_packet` hold its message for every payload up to
`BD_MAX_RAW_LEN`, so that it hands over what `bdSendPacket` gives
(`bdSendPacketRun_eq`): one sentence between `$` and `*`, whose checksum is the exclusive
or of what stands between (`bdSendPacket_message`).
-/

namespace Dtu

open Stdio

/-! ## Checksums -/

/-- The exclusive or of all characters. -/
def xorOf (s : List Char) : UInt8 := s.foldl (fun x c => x ^^^ UInt8.ofNat c.toNat) 0

theorem foldl_xor (s : List Char) (x : UInt8) :
    s.foldl (fun x c => x ^^^ UInt8.ofNat c.toNat) x = x ^^^ xorOf s := by
  induction s generalizing x with
  | nil => simp [xorOf]
  | cons c s ih =>
    rw [xorOf, List.foldl_cons, List.foldl_cons, ih, ih, UInt8.xor_assoc, UInt8.zero_xor]

theorem xorOf_append (s t : List Char) : xorOf (s ++ t) = xorOf s ^^^ xorOf t := by
  rw [xorOf, List.foldl_append, foldl_xor]
  rfl

theorem xorOf_cons (c : Char) (s : List Char) : xorOf (c :: s) = UInt8.ofNat c.toNat ^^^ xorOf s := by
  rw [xorOf, List.foldl_cons, foldl_xor, UInt8.zero_xor]

/-- `calc_checksum` of a sentence. -/
theorem calcChecksum_sentence {body : List Char} (h : '*' ∉ body) (s : List Char) :
    calcChecksum ('$' :: body ++ '*' :: s) = xorOf body := by
  have htake : (body ++ '*' :: s).takeWhile (· ≠ '*') = body := by
    rw [List.takeWhile_append_of_pos fun c hc => decide_eq_true (ne_of_mem_of_not_mem hc h)]
    simp
  rw [calcChecksum, List.cons_append, strchr, if_pos rfl]
  simp only [List.tail_cons, htake]
  rfl

/-- Of two texts with one character changed. -/
theorem xorOf_ne_of_ne {pre post : List Char} {c c' : Char} (hc : c.toNat < 256) (hc' : c'.toNat < 256) (h : c' ≠ c) :
    xorOf (pre ++ c' :: post) ≠ xorOf (pre ++ c :: post) := by
  rw [xorOf_append, xorOf_append, xorOf_cons, xorOf_cons, ne_eq, UInt8.xor_right_inj, UInt8.xor_left_inj]
  intro heq
  have hnat := congrArg UInt8.toNat heq
  rw [UInt8.toNat_ofNat', UInt8.toNat_ofNat', Nat.mod_eq_of_lt hc, Nat.mod_eq_of_lt hc'] at hnat
  exact h (Char.toNat_inj.mp hnat)

/-! ## The message -/

theorem hexPairs_flatMap_fmtX2 (data : List UInt8) : hexPairs (data.flatMap fmtX2) = some data := by
  induction data with
  | nil => rfl
  | cons b data ih =>
    obtain ⟨h, l⟩ := halves_lt b
    simp [fmtX2, hexPairs, hexVal_hexDigit _ h, hexVal_hexDigit _ l, ih, hexByte_halves]

/-- What stands between `$` and `*`. -/
def bdBody (data : List UInt8) : List Char := "CCTCQ,4314513,2,1,2,".toList ++ data.flatMap fmtX2 ++ ",0".toList

/-- The message of `bd_send_packet`. -/
def bdMessage (data : List UInt8) : List Char :=
  '$' :: bdBody data ++ '*' :: (fmtX2 (xorOf (bdBody data)) ++ ['\r', '\n'])

theorem not_mem_bdBody {c : Char} (hc : hexVal c = none) (hfront : c ∉ "CCTCQ,4314513,2,1,2,".toList)
    (hback : c ∉ ",0".toList) (data : List UInt8) : c ∉ bdBody data := by
  have hhex : c ∉ data.flatMap fmtX2 := by
    intro h
    obtain ⟨b, -, h⟩ := List.mem_flatMap.mp h
    exact fmtX2_not_mem hc b h
  exact List.not_mem_append (List.not_mem_append hfront hhex) hback

theorem bdMessage_inj {data data' : List UInt8} (h : bdMessage data = bdMessage data') : data = data' := by
  have hbody : bdBody data = bdBody data' := by
    have htake : ∀ data, (bdMessage data).tail.takeWhile (· ≠ '*') = bdBody data := fun data => by
      rw [bdMessage, List.cons_append, List.tail_cons, List.takeWhile_append_of_pos fun c hc =>
        decide_eq_true (ne_of_mem_of_not_mem hc (not_mem_bdBody (by decide) (by decide) (by decide) data))]
      simp
    rw [← htake, ← htake, h]
  have hhex : data.flatMap fmtX2 = data'.flatMap fmtX2 :=
    List.append_cancel_left (List.append_cancel_right hbody)
  have hpairs := hexPairs_flatMap_fmtX2 data
  rw [hhex, hexPairs_flatMap_fmtX2] at hpairs
  exact (Option.some.inj hpairs).symm

/-! ## `bd_send_packet` -/

theorem sentence_eq {front body hex back tail : List Char} (hfront : front = '$' :: body) (hback : back = tail ++ ['*']) :
    front ++ hex ++ back = '$' :: (body ++ hex ++ tail) ++ ['*'] := by
  subst hfront hback
  simp

/-- The message before its checksum. -/
theorem bdText_eq (data : List UInt8) :
    "$CCTCQ,".toList ++ "4314513".toList ++ ",2,1,2,".toList ++ data.flatMap fmtX2 ++ ",0*".toList =
      '$' :: bdBody data ++ ['*'] := sentence_eq (by decide) (by decide)

theorem length_bdBody (data : List UInt8) : (bdBody data).length = 2 * data.length + 22 := by
  have hglue : ∀ {front hex back : List Char}, front.length = 20 → back.length = 2 →
      (front ++ hex ++ back).length = hex.length + 22 := by
    intro front hex back hfront hback
    rw [List.length_append, List.length_append, hfront, hback]
    omega
  rw [← length_flatMap_fmtX2]
  exact hglue (by decide) (by decide)

theorem snprintfAt_eq_append {size : Nat} {buf text : List Char} (h : buf.length + text.length < size) :
    snprintfAt size buf.length buf text = buf ++ text := by
  rw [snprintfAt, List.take_length, List.take_of_length_le (by omega)]

/-- Nothing is cut off. -/
theorem bdSendPacketRun_eq {data : List UInt8} (hpos : 0 < data.length) (hle : data.length ≤ bdMaxRawLen)
    (dataSend : List Char → Int) :
    bdSendPacketRun dataSend (some data) data.length =
      (if dataSend (bdMessage data) = (bdMessage data).length then 0 else -1, [bdMessage data]) := by
  have hbody := length_bdBody data
  simp only [bdMaxRawLen] at hle
  have hstar := @not_mem_bdBody '*' (by decide) (by decide) (by decide) data
  have htext : snprintfAt bdMsgSize 0 [] ('$' :: bdBody data ++ ['*']) = '$' :: bdBody data ++ ['*'] := by
    refine @snprintfAt_eq_append bdMsgSize [] _ ?_
    simp only [List.length_nil, List.length_append, List.length_cons, hbody, bdMsgSize]
    omega
  have hsum := calcChecksum_sentence hstar []
  have hmsg : snprintfAt bdMsgSize ('$' :: bdBody data ++ ['*']).length ('$' :: bdBody data ++ ['*'])
      (fmtX2 (xorOf (bdBody data)) ++ ['\r', '\n']) = bdMessage data := by
    rw [snprintfAt_eq_append, bdMessage, List.append_assoc]
    · rfl
    · simp only [List.length_append, List.length_cons, List.length_nil, hbody, fmtX2, bdMsgSize]
      omega
  rw [bdSendPacketRun]
  simp only [if_neg (show ¬(data.length : Int) ≤ 0 by omega), bdMaxRawLen,
    if_neg (show ¬((229 : Nat) : Int) < (data.length : Int) by omega), Int.toNat_natCast, List.take_length,
    bdText_eq, htext, hsum, hmsg]
  split
  · rfl
  · rfl

/-- Of a length that it does not take, `bd_send_packet` sends nothing. -/
theorem bdSendPacketRun_of_bad {len : Int} (h : len ≤ 0 ∨ (bdMaxRawLen : Int) < len) (dataSend : List Char → Int)
    (data : Option (List UInt8)) : bdSendPacketRun dataSend data len = (-1, []) := by
  cases data with
  | none => rfl
  | some data =>
    rw [bdSendPacketRun]
    by_cases hzero : len ≤ 0
    · exact if_pos hzero
    · rw [if_neg hzero]
      exact if_pos (h.resolve_left hzero)

/-- `bdSendPacket` is what is handed over. -/
theorem bdSendPacketRun_eq_bdSendPacket (dataSend : List Char → Int) (data : List UInt8) :
    bdSendPacketRun dataSend (some data) data.length =
      (bdSendPacket data).elim (-1, []) fun msg => (if dataSend msg = msg.length then 0 else -1, [msg]) := by
  by_cases hzero : data.length = 0
  · rw [bdSendPacketRun_of_bad (Or.inl (by omega)), bdSendPacket, if_pos hzero]
    rfl
  by_cases hlong : bdMaxRawLen < data.length
  · rw [bdSendPacketRun_of_bad (Or.inr (by omega)), bdSendPacket, if_neg hzero, if_pos hlong]
    rfl
  have hmsg : bdSendPacket data = some (bdMessage data) := by
    have htext : "$CCTCQ,4314513,2,1,2,".toList ++ data.flatMap fmtX2 ++ ",0*".toList = '$' :: bdBody data ++ ['*'] :=
      sentence_eq (by decide) (by decide)
    have hsum := calcChecksum_sentence (@not_mem_bdBody '*' (by decide) (by decide) (by decide) data) []
    rw [bdSendPacket, if_neg hzero, if_neg hlong]
    simp only [htext, hsum]
    simp [bdMessage]
  rw [hmsg, bdSendPacketRun_eq (by omega) (by omega)]
  rfl

theorem toNat_lt_of_mem_bdBody {data : List UInt8} {c : Char} (h : c ∈ bdBody data) : c.toNat < 256 := by
  have hdigit : ∀ n < 16, (hexDigit n).toNat < 256 := by decide
  have hglue : ∀ {front hex back : List Char}, (∀ c ∈ front, c.toNat < 256) → (∀ c ∈ hex, c.toNat < 256) →
      (∀ c ∈ back, c.toNat < 256) → ∀ c ∈ front ++ hex ++ back, c.toNat < 256 := by
    intro front hex back hfront hhex hback c hc
    rw [List.mem_append, List.mem_append] at hc
    exact hc.elim (fun hc => hc.elim (hfront c) (hhex c)) (hback c)
  refine hglue (by simp) (fun c hc => ?_) (by simp) c h
  obtain ⟨b, -, hc⟩ := List.mem_flatMap.mp hc
  obtain ⟨h, l⟩ := halves_lt b
  rw [fmtX2, List.mem_pair] at hc
  rcases hc with rfl | rfl
  · exact hdigit _ h
  · exact hdigit _ l

theorem count_bdMessage {c : Char} (hc : hexVal c = none) (hbody : ∀ data, c ∉ bdBody data) (hend : c ∉ ['\r', '\n'])
    (data : List UInt8) : (bdMessage data).count c = ['$', '*'].count c := by
  rw [bdMessage, List.count_append, List.count_cons, List.count_cons, List.count_append,
    List.count_eq_zero.mpr (hbody data), List.count_eq_zero.mpr (fmtX2_not_mem hc _), List.count_eq_zero.mpr hend]
  simp only [List.count_cons, List.count_nil]
  omega

/-- For every payload up to `BD_MAX_RAW_LEN`, `bd_send_packet` hands over one message, and
returns 0 just when all of it is taken: the receiver and the payload's digits between `$`
and `*`, with their checksum, which every change of one character between them makes
wrong. Of other lengths it hands over nothing. -/
theorem bdSendPacket_message (dataSend : List Char → Int) :
    (∀ data : List UInt8, 1 ≤ data.length → data.length ≤ bdMaxRawLen → ∃ hex body,
      let msg := '$' :: body ++ '*' :: (fmtX2 (xorOf body) ++ ['\r', '\n'])
      bdSendPacketRun dataSend (some data) data.length = (if dataSend msg = msg.length then 0 else -1, [msg]) ∧
        body = "CCTCQ,4314513,2,1,2,".toList ++ hex ++ ",0".toList ∧
        hexPairs hex = some data ∧ hex.length ≤ bdMaxHexLen ∧
        msg.count '$' = 1 ∧ msg.count '*' = 1 ∧ calcChecksum msg = xorOf body ∧
        (∀ data' : List UInt8, 1 ≤ data'.length → data'.length ≤ bdMaxRawLen →
          (bdSendPacketRun dataSend (some data') data'.length).2 = [msg] → data' = data) ∧
        ∀ pre c post c', body = pre ++ c :: post → c' ≠ c → c' ≠ '*' → c'.toNat < 256 →
          xorOf (pre ++ c' :: post) ≠ xorOf body ∧
            calcChecksum ('$' :: (pre ++ c' :: post) ++ '*' :: (fmtX2 (xorOf body) ++ ['\r', '\n'])) ≠ xorOf body) ∧
      ∀ (data : Option (List UInt8)) (len : Int), len ≤ 0 ∨ (bdMaxRawLen : Int) < len →
        bdSendPacketRun dataSend data len = (-1, []) := by
  have hstar : ∀ data, '*' ∉ bdBody data := not_mem_bdBody (by decide) (by decide) (by decide)
  have hdollar : ∀ data, '$' ∉ bdBody data := not_mem_bdBody (by decide) (by decide) (by decide)
  refine ⟨fun data hpos hle => ⟨data.flatMap fmtX2, bdBody data, bdSendPacketRun_eq hpos hle dataSend, rfl,
    hexPairs_flatMap_fmtX2 data, ?_, ?_, ?_, calcChecksum_sentence (hstar data) _, ?_, ?_⟩, fun data len h =>
    bdSendPacketRun_of_bad h dataSend data⟩
  · rw [length_flatMap_fmtX2, bdMaxHexLen]
    omega
  · exact count_bdMessage (by decide) hdollar (by decide) data
  · exact count_bdMessage (by decide) hstar (by decide) data
  · intro data' hpos' hle' hmsg
    rw [bdSendPacketRun_eq hpos' hle'] at hmsg
    exact bdMessage_inj (List.head_eq_of_cons_eq hmsg)
  · intro pre c post c' hbody hne hne' hlt
    have hc : c.toNat < 256 := @toNat_lt_of_mem_bdBody data c (by rw [hbody]; simp)
    have hxor : xorOf (pre ++ c' :: post) ≠ xorOf (bdBody data) := by
      rw [hbody]
      exact xorOf_ne_of_ne hc hlt hne
    refine ⟨hxor, ?_⟩
    have hstar' : '*' ∉ pre ++ c' :: post := by
      have hold := hstar data
      rw [hbody] at hold
      simp only [List.mem_append, List.mem_cons, not_or] at hold ⊢
      exact ⟨hold.1, hne'.symm, hold.2.2⟩
    rw [calcChecksum_sentence hstar']
    exact hxor

/-- A UART that takes all of a message of three bytes. -/
theorem bdSendPacket_message_three :
    ∃ hex msg, hexPairs hex = some [0x00, 0x2a, 0xff] ∧ msg.count '$' = 1 ∧ msg.count '*' = 1 ∧
      bdSendPacketRun (fun msg => msg.length) (some [0x00, 0x2a, 0xff]) 3 = (0, [msg]) := by
  obtain ⟨hex, body, hrun, -, hhex, -, hdollar, hstar, -⟩ :=
    (bdSendPacket_message fun msg => msg.length).1 [0x00, 0x2a, 0xff] (by decide) (by decide)
  exact ⟨hex, _, hhex, hdollar, hstar, hrun.trans (by rw [if_pos rfl])⟩

end Dtu
