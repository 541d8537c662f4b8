import Dtu.Impl.LogLine

/-!
# Log lines read back

The line of a message is its header, its data as hexadecimal text and a
newline, never cut by the 1024-byte buffer (`logLine_eq`, `length_logLine_le`).
`parse_log_line` skips the header of a line, whatever of the line follows
(`parseLogLine_header`), and reads the data from whole bytes of text
(`parseBytes_hexText`); `parse_log_frame_id` finds the id
(`parseLogFrameId_logLine`).
-/

namespace Dtu

open Stdio

/-- Bytes as a line shows them: two digits and a blank each. -/
def hexText (bs : List UInt8) : List Char := bs.flatMap fun b => fmtX2 b ++ [' ']

@[simp] theorem hexText_nil : hexText [] = [] := rfl

theorem hexText_cons (b : UInt8) (bs : List UInt8) :
    hexText (b :: bs) = hexDigit (b.toNat / 16) :: hexDigit (b.toNat % 16) :: ' ' :: hexText bs := by
  simp [hexText, fmtX2]

theorem hexText_append (as bs : List UInt8) : hexText (as ++ bs) = hexText as ++ hexText bs := by
  simp [hexText]

theorem length_hexText (bs : List UInt8) : (hexText bs).length = 3 * bs.length := by
  induction bs with
  | nil => rfl
  | cons b bs ih => rw [hexText_cons, List.length_cons, List.length_cons, List.length_cons, ih,
      List.length_cons]; omega

/-- Hexadecimal text has no character but its digits and blanks. -/
theorem not_mem_hexText {c : Char} (hc : hexVal c = none) (hs : c ≠ ' ') (bs : List UInt8) :
    c ∉ hexText bs := by
  induction bs with
  | nil => simp
  | cons b bs ih =>
    obtain ⟨h, l⟩ := halves_lt b
    simp only [hexText_cons, List.mem_cons, not_or]
    exact ⟨(hexDigit_ne h hc).symm, (hexDigit_ne l hc).symm, hs, ih⟩

/-! ## The header -/

/-- The header up to the second of the time. -/
def logFront (tm : Tm) : List Char :=
  '[' :: (fmt0 4 (tm.tmYear + 1900) ++ '-' :: (fmt0 2 (tm.tmMon + 1) ++ '-' :: (fmt0 2 tm.tmMday ++
    ' ' :: (fmt0 2 tm.tmHour ++ ':' :: (fmt0 2 tm.tmMin ++ ':' :: fmt0 2 tm.tmSec)))))

/-- The value of the `F=` token and what follows it in the header. -/
def logTokens (msg : FifoMessage) : List Char :=
  fmtU msg.frameId.toNat ++ ' ' :: 'P' :: '=' :: (fmtU msg.partIndex.toNat ++
    '/' :: (fmtU msg.partCount.toNat ++ [' ']))

theorem logHeader_eq (tm : Tm) (msg : FifoMessage) :
    logHeader tm msg = logFront tm ++ ']' :: ' ' :: 'F' :: '=' :: logTokens msg := by
  simp [logHeader, logFront, logTokens]

/-- A character that is no digit and none of the header's own is not in it. -/
theorem not_mem_logFront {c : Char} (hd : c.isDigit = false) (hc : c ∉ ['[', '-', ' ', ':']) (tm : Tm) :
    c ∉ logFront tm := by
  have h0 : ∀ w n, c ∉ fmt0 w n := fun w n h => by simp [isDigit_fmt0 h] at hd
  simp only [List.mem_cons, List.not_mem_nil, or_false, not_or] at hc
  simp only [logFront, List.mem_cons, List.mem_append, not_or]
  exact ⟨hc.1, h0 _ _, hc.2.1, h0 _ _, hc.2.1, h0 _ _, hc.2.2.1, h0 _ _, hc.2.2.2, h0 _ _, hc.2.2.2, h0 _ _⟩

theorem not_mem_logTokens {c : Char} (hd : c.isDigit = false) (hc : c ∉ [' ', 'P', '=', '/'])
    (msg : FifoMessage) : c ∉ logTokens msg := by
  have hu : ∀ n, c ∉ fmtU n := fun n h => by simp [isDigit_fmtU h] at hd
  simp only [List.mem_cons, List.not_mem_nil, or_false, not_or] at hc
  simp only [logTokens, List.mem_cons, List.mem_append, List.not_mem_nil, or_false, not_or]
  exact ⟨hu _, hc.1, hc.2.1, hc.2.2.1, hu _, hc.2.2.2, hu _, hc.1⟩

theorem not_mem_logHeader {c : Char} (hd : c.isDigit = false)
    (hc : c ∉ ['[', '-', ' ', ':', ']', 'F', '=', 'P', '/']) (tm : Tm) (msg : FifoMessage) :
    c ∉ logHeader tm msg := by
  simp only [List.mem_cons, List.not_mem_nil, or_false, not_or] at hc
  rw [logHeader_eq]
  simp only [List.mem_append, List.mem_cons, not_or]
  obtain ⟨hl, hm, hs, hcol, hr, hF, he, hP, hsl⟩ := hc
  exact ⟨not_mem_logFront hd (by simp [hl, hm, hs, hcol]) tm, hr, hs, hF, he,
    not_mem_logTokens hd (by simp [hs, hP, he, hsl]) msg⟩

/-- The longest header: a ten-digit year and frame id and two five-digit
part numbers. -/
theorem length_logHeader_le (tm : Tm) (msg : FifoMessage) : (logHeader tm msg).length ≤ 55 := by
  have hy := length_fmtU_le (k := 10) (by decide) (show tm.tmYear + 1900 < 10 ^ 10 by have := tm.year_lt; omega)
  have hmo := length_fmtU_le (k := 2) (by decide) (show tm.tmMon + 1 < 10 ^ 2 by have := tm.mon_lt; omega)
  have hd := length_fmtU_le (k := 2) (by decide) (show tm.tmMday < 10 ^ 2 by have := tm.mday_le; omega)
  have hh := length_fmtU_le (k := 2) (by decide) (show tm.tmHour < 10 ^ 2 by have := tm.hour_lt; omega)
  have hmi := length_fmtU_le (k := 2) (by decide) (show tm.tmMin < 10 ^ 2 by have := tm.min_lt; omega)
  have hs := length_fmtU_le (k := 2) (by decide) (show tm.tmSec < 10 ^ 2 by have := tm.sec_le; omega)
  have hf := length_fmtU_le (k := 10) (by decide) (show msg.frameId.toNat < 10 ^ 10 by
    have := msg.frameId.toNat_lt; omega)
  have hi := length_fmtU_le (k := 5) (by decide) (show msg.partIndex.toNat < 10 ^ 5 by
    have := msg.partIndex.toNat_lt; omega)
  have hp := length_fmtU_le (k := 5) (by decide) (show msg.partCount.toNat < 10 ^ 5 by
    have := msg.partCount.toNat_lt; omega)
  simp only [logHeader_eq, logFront, logTokens, List.length_append, List.length_cons, List.length_nil,
    length_fmt0]
  omega

/-! ## The line -/

/-- The data loop never meets the end of the buffer. -/
theorem logData_eq {bs : List UInt8} {line : List Char} {pos : Nat} (hl : line.length = pos)
    (hp : pos + 3 * bs.length ≤ 1021) :
    logData bs line pos = (line ++ hexText bs, pos + 3 * bs.length) := by
  induction bs generalizing line pos with
  | nil => simp [logData]
  | cons b bs ih =>
    simp only [List.length_cons] at hp
    have hput : snprintfAt logLineSize pos line (fmtX2 b ++ [' ']) = line ++ (fmtX2 b ++ [' ']) := by
      rw [snprintfAt, List.take_of_length_le (by omega), List.take_of_length_le]
      simp only [fmtX2, List.length_append, List.length_cons, List.length_nil, logLineSize]
      omega
    rw [logData, if_pos (by simp only [logLineSize]; omega), hput, ih (by simp [fmtX2, hl]) (by omega), List.append_assoc]
    simp only [hexText, List.flatMap_cons, List.length_cons, Prod.mk.injEq, true_and]
    omega

theorem length_payload (msg : FifoMessage) (h : msg.len.toNat ≤ 256) : msg.payload.length = msg.len.toNat := by
  simp [FifoMessage.payload, h]

/-- A producer's message carries the data it is made of. -/
theorem payload_message (type : UInt32) {data : List UInt8} (h : data.length ≤ 256) (frameId : UInt32)
    (partIndex partCount : UInt16) : (message type data frameId partIndex partCount).payload = data := by
  have hl : (UInt32.ofNat data.length).toNat = data.length := UInt32.toNat_ofNat_of_lt' (by
    show data.length < 2 ^ 32
    omega)
  refine List.ext_getElem ?_ fun i h₁ h₂ => ?_
  · simp [FifoMessage.payload, message, hl, h]
  · simp [FifoMessage.payload, message, List.getD_eq_getElem?_getD, h₂]

theorem logLine_eq (tm : Tm) (msg : FifoMessage) (h : msg.len.toNat ≤ 256) :
    logLine tm msg = logHeader tm msg ++ hexText msg.payload ++ ['\n'] := by
  have hh := length_logHeader_le tm msg
  have hp := length_payload msg h
  have hput : snprintfAt logLineSize 0 [] (logHeader tm msg) = logHeader tm msg := by
    rw [snprintfAt, List.take_nil, List.nil_append, List.take_of_length_le (by simp only [logLineSize]; omega)]
  rw [logLine, hput, logData_eq rfl (by omega)]
  simp only
  rw [List.take_of_length_le (by simp only [List.length_append, length_hexText]; omega)]

theorem length_logLine (tm : Tm) (msg : FifoMessage) (h : msg.len.toNat ≤ 256) :
    (logLine tm msg).length = (logHeader tm msg).length + 3 * msg.len.toNat + 1 := by
  simp only [logLine_eq tm msg h, List.length_append, length_hexText, length_payload msg h,
    List.length_cons, List.length_nil]

/-- A line with its NUL fits the buffers of 1024 bytes. -/
theorem length_logLine_le (tm : Tm) (msg : FifoMessage) (h : msg.len.toNat ≤ 256) :
    (logLine tm msg).length ≤ 824 := by
  have := length_logLine tm msg h
  have := length_logHeader_le tm msg
  omega

/-- No newline in a line but its last character, and no NUL. -/
theorem not_mem_lineBody {c : Char} (hd : c.isDigit = false) (hx : hexVal c = none)
    (hc : c ∉ ['[', '-', ' ', ':', ']', 'F', '=', 'P', '/']) (tm : Tm) (msg : FifoMessage) :
    c ∉ logHeader tm msg ++ hexText msg.payload := by
  rw [List.mem_append, not_or]
  simp only [List.mem_cons, not_or] at hc
  exact ⟨not_mem_logHeader hd (by simpa using hc) tm msg, not_mem_hexText hx hc.2.2.1 _⟩

theorem newline_not_mem_lineBody (tm : Tm) (msg : FifoMessage) :
    '\n' ∉ logHeader tm msg ++ hexText msg.payload :=
  not_mem_lineBody (by decide) (by decide) (by decide) tm msg

theorem nul_not_mem_logLine (tm : Tm) (msg : FifoMessage) (h : msg.len.toNat ≤ 256) :
    '\x00' ∉ logLine tm msg := by
  rw [logLine_eq tm msg h, List.mem_append, not_or]
  exact ⟨not_mem_lineBody (by decide) (by decide) (by decide) tm msg, by decide⟩

/-! ## Reading the data -/

theorem parseBytes_blank (room : Nat) (p : List Char) : parseBytes room (' ' :: p) = parseBytes room p := by
  cases room <;> simp [parseBytes]

/-- Two digits are a byte, and the cursor steps behind them. -/
theorem parseBytes_byte (room : Nat) (b : UInt8) (s : List Char) :
    parseBytes (room + 1) (fmtX2 b ++ s) = (parseBytes room s).map (b :: ·) := by
  obtain ⟨v, hv, hb⟩ := Option.map_eq_some_iff.mp (scanX2_fmtX2 b s)
  have hne : hexDigit (b.toNat / 16) ≠ ' ' := hexDigit_ne (halves_lt b).1 (by decide)
  simp only [fmtX2, List.cons_append, List.nil_append] at hv ⊢
  simp only [parseBytes, List.dropWhile_cons, hne, decide_false, Bool.false_eq_true, if_false, hv, hb]

/-- Whole bytes of text are read one by one. -/
theorem parseBytes_hexText (d : List UInt8) (room : Nat) (s : List Char) :
    parseBytes (d.length + room) (hexText d ++ s) = (parseBytes room s).map (d ++ ·) := by
  induction d with
  | nil => simp
  | cons b d ih =>
    have e : hexText (b :: d) ++ s = fmtX2 b ++ ' ' :: (hexText d ++ s) := by simp [hexText]
    rw [e, List.length_cons, Nat.add_right_comm, parseBytes_byte, parseBytes_blank, ih, Option.map_map]
    rfl

/-- The newline ends the data. -/
theorem parseBytes_newline (room : Nat) : parseBytes room ['\n'] = some [] := by
  cases room
  · rfl
  · rfl

theorem parseBytes_nil (room : Nat) : parseBytes room [] = some [] := by
  cases room
  · rfl
  · rfl

/-- A byte with one digit before the end of the string: the cursor steps over
the terminating NUL. -/
theorem parseBytes_digit (room n : Nat) (hn : n < 16) : parseBytes (room + 1) [hexDigit n] = none := by
  have hne : hexDigit n ≠ ' ' := hexDigit_ne hn (by decide)
  simp only [parseBytes, List.dropWhile_cons, hne, decide_false, Bool.false_eq_true, if_false, scanX2,
    isspace_hexDigit n hn, hexVal_hexDigit n hn]

theorem length_parseBytes_le {room : Nat} {s : List Char} {bytes : List UInt8} (h : parseBytes room s = some bytes) :
    bytes.length ≤ room := by
  induction room generalizing s bytes with
  | zero =>
    cases h
    exact Nat.le_refl 0
  | succ room ih =>
    rw [parseBytes] at h
    split at h
    · cases h
      exact Nat.zero_le _
    split at h
    · cases h
      exact Nat.zero_le _
    split at h
    · cases h
    obtain ⟨rest, hrest, rfl⟩ := Option.map_eq_some_iff.mp h
    exact Nat.succ_le_succ (ih hrest)

/-! ## Skipping the header -/

/-- A token and the blank behind it are skipped. -/
theorem skipTokens_token {t : Char} (ht : t = 'F' ∨ t = 'P') {w s : List Char} (hw : ' ' ∉ w)
    (hs : s.head? ≠ some ' ') (fuel : Nat) :
    skipTokens (fuel + 1) (t :: '=' :: (w ++ ' ' :: s)) = skipTokens fuel s := by
  have hword : (t :: '=' :: (w ++ ' ' :: s)).dropWhile (· ≠ ' ') = ' ' :: s := by
    have e : t :: '=' :: (w ++ ' ' :: s) = (t :: '=' :: w) ++ ' ' :: s := rfl
    rw [e, List.dropWhile_append_of_pos]
    · simp
    · intro c hc
      rcases ht with rfl | rfl <;> simp only [List.mem_cons] at hc <;> rcases hc with rfl | rfl | hc <;>
      first
        | decide
        | simpa using fun e : c = ' ' => hw (e ▸ hc)
  have hblank : (' ' :: s).dropWhile (· = ' ') = s := by
    cases s with
    | nil => rfl
    | cons c s => simpa using hs
  rw [skipTokens, if_pos (by rcases ht with rfl | rfl <;> simp), hword, hblank]

/-- Text whose second character is no `=` has no token. -/
theorem skipTokens_data {s : List Char} (h : s.tail.head? ≠ some '=') (fuel : Nat) : skipTokens fuel s = s := by
  cases fuel with
  | zero => rfl
  | succ fuel =>
    have hp : ∀ t, [t, '='].isPrefixOf s = false := fun t => by
      match s, h with
      | [], _ => rfl
      | [c], _ => simp [List.isPrefixOf]
      | c :: d :: s, h =>
        have hd : d ≠ '=' := by simpa using h
        simp [List.isPrefixOf, hd.symm]
    rw [skipTokens, if_neg (by simp [hp])]

/-- `parse_log_line` skips a header; what follows it may be any piece of the
data. -/
theorem parseLogLine_header (tm : Tm) (msg : FifoMessage) {s : List Char} (hb : s.head? ≠ some ' ')
    (he : s.tail.head? ≠ some '=') (maxLen : Nat) :
    parseLogLine (logHeader tm msg ++ s) maxLen = parseBytes maxLen s := by
  have hu : ∀ n, ' ' ∉ fmtU n := fun n h => by have := isDigit_fmtU h; revert this; decide
  have hfront : ']' ∉ logFront tm := not_mem_logFront (by decide) (by decide) tm
  have hsplit : logHeader tm msg ++ s = logFront tm ++ ']' :: (' ' :: 'F' :: '=' :: (fmtU msg.frameId.toNat ++
      ' ' :: ('P' :: '=' :: ((fmtU msg.partIndex.toNat ++ '/' :: fmtU msg.partCount.toNat) ++ ' ' :: s)))) := by
    simp [logHeader_eq, logTokens]
  have hw : ' ' ∉ fmtU msg.partIndex.toNat ++ '/' :: fmtU msg.partCount.toNat := by
    simp only [List.mem_append, List.mem_cons, not_or]
    exact ⟨hu _, by decide, hu _⟩
  rw [parseLogLine, hsplit, strchr_append hfront]
  simp only [List.tail_cons, List.dropWhile_cons, decide_true, if_true, show decide ('F' = ' ') = false from rfl,
    Bool.false_eq_true, if_false]
  -- The text has the characters of the two tokens at least, so the fuel covers both.
  generalize hn : List.length ('F' :: '=' :: _) = n
  obtain ⟨fuel, rfl⟩ : ∃ fuel, n = fuel + 1 + 1 := ⟨n - 2, by simp only [List.length_cons] at hn; omega⟩
  rw [skipTokens_token (.inl rfl) (hu _) (by simp), skipTokens_token (.inr rfl) hw hb, skipTokens_data he]

/-- Data text begins with no blank and has no `=`. -/
theorem hexText_start (d : List UInt8) {s : List Char} (hb : s.head? ≠ some ' ') (he : s.tail.head? ≠ some '=') :
    (hexText d ++ s).head? ≠ some ' ' ∧ (hexText d ++ s).tail.head? ≠ some '=' := by
  cases d with
  | nil => exact ⟨hb, he⟩
  | cons b d =>
    obtain ⟨h, l⟩ := halves_lt b
    simp only [hexText_cons, List.cons_append, List.head?_cons, List.tail_cons, ne_eq, Option.some.injEq]
    exact ⟨hexDigit_ne h (by decide), hexDigit_ne l (by decide)⟩

/-- A line without a `]` has no data. -/
theorem parseLogLine_of_not_mem {line : List Char} (h : ']' ∉ line) (maxLen : Nat) :
    parseLogLine line maxLen = some [] := by
  rw [parseLogLine, strchr_eq_none h]

/-- `parse_log_line` reads back the data of a message. -/
theorem parseLogLine_logLine (tm : Tm) (msg : FifoMessage) (h : msg.len.toNat ≤ 256) :
    parseLogLine (logLine tm msg) 256 = some msg.payload := by
  obtain ⟨hb, he⟩ := hexText_start msg.payload (s := ['\n']) (by decide) (by decide)
  have hp := length_payload msg h
  rw [logLine_eq tm msg h, List.append_assoc, parseLogLine_header tm msg hb he,
    show 256 = msg.payload.length + (256 - msg.payload.length) by omega, parseBytes_hexText,
    parseBytes_newline, Option.map_some, List.append_nil]

/-- `parse_log_frame_id` reads back the frame id of a message, whatever of
the line follows its header. -/
theorem parseLogFrameId_header (tm : Tm) (msg : FifoMessage) (s : List Char) :
    parseLogFrameId (logHeader tm msg ++ s) = some msg.frameId := by
  have hfront : ']' ∉ logFront tm := not_mem_logFront (by decide) (by decide) tm
  have hsplit : logHeader tm msg ++ s = logFront tm ++ ']' :: ([' ', 'F', '='] ++ (logTokens msg ++ s)) := by
    simp [logHeader_eq]
  rw [parseLogFrameId, hsplit, strstr_append hfront]
  simp only [List.cons_append, List.nil_append, List.drop_succ_cons, List.drop_zero, logTokens, List.append_assoc]
  exact scanU_fmtU msg.frameId rfl

theorem parseLogFrameId_logLine (tm : Tm) (msg : FifoMessage) (h : msg.len.toNat ≤ 256) :
    parseLogFrameId (logLine tm msg) = some msg.frameId := by
  rw [logLine_eq tm msg h, List.append_assoc, parseLogFrameId_header]

/-- What the line of a message must be: whole, with one newline, at its end,
and read back as the message. -/
structure ReadsBack (tm : Tm) (msg : FifoMessage) (line : List Char) : Prop where
  whole : line = logHeader tm msg ++ hexText msg.payload ++ ['\n'] ∧ line.length < logLineSize
  newline : ∃ body, line = body ++ ['\n'] ∧ '\n' ∉ body
  data : parseLogLine line 256 = some msg.payload
  length : msg.payload.length = msg.len.toNat
  frameId : parseLogFrameId line = some msg.frameId

theorem readsBack_logLine (tm : Tm) (msg : FifoMessage) (h : msg.len.toNat ≤ 256) :
    ReadsBack tm msg (logLine tm msg) where
  whole := ⟨logLine_eq tm msg h, by have := length_logLine_le tm msg h; simp only [logLineSize]; omega⟩
  newline := ⟨_, logLine_eq tm msg h, newline_not_mem_lineBody tm msg⟩
  data := parseLogLine_logLine tm msg h
  length := length_payload msg h
  frameId := parseLogFrameId_logLine tm msg h

/-- Every line `write_file_thread` builds reads back as its message: the line
of a message with any frame id, and that of a message from the FIFO, which
keeps its frame id unless that is zero and its data in any case. -/
theorem writeFile_line_readsBack (g : UInt32) (tm : Tm) (msg : FifoMessage) (h : msg.len.toNat ≤ 256) :
    ReadsBack tm msg (logLine tm msg) ∧
    ReadsBack tm (record g tm msg h).msg (record g tm msg h).line ∧
    (record g tm msg h).payload = msg.payload ∧
    (msg.frameId ≠ 0 → (record g tm msg h).msg = msg) := by
  refine ⟨readsBack_logLine tm msg h, readsBack_logLine tm _ (record g tm msg h).len_le, ?_, ?_⟩
  · simp only [Record.payload, record, assignFrameId]
    split <;> rfl
  · intro hne
    simp only [record, assignFrameId, if_neg hne]

theorem writeFile_line_readsBack_two :
    ReadsBack Tm.setTime (message 0 [0xFA, 0x0D] 7 0 1) (logLine Tm.setTime (message 0 [0xFA, 0x0D] 7 0 1)) :=
  (writeFile_line_readsBack 0 Tm.setTime (message 0 [0xFA, 0x0D] 7 0 1) (by decide)).1

end Dtu
