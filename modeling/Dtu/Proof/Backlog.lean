import Dtu.Proof.Pack

/-!
# Packing the records of a log

`pack_data_from_files` on files that hold the lines of records: its reader of
512 bytes cuts a longer line in two, shows of the first piece the data bytes
whose digits are whole (`parseLogLine_firstPiece`) and passes over the second.
So it packs the batch its budget accepts of the records' `shown` data
(`packDataFromFiles_records`, `mainPackPending_records`).
-/

namespace Dtu

open Stdio Loop

/-! ## The pieces of a line -/

theorem Record.line_eq (r : Record) :
    r.line = logHeader r.tm r.msg ++ hexText r.payload ++ ['\n'] := logLine_eq r.tm r.msg r.len_le

theorem Record.length_line_body (r : Record) :
    r.line.length = (logHeader r.tm r.msg ++ hexText r.payload).length + 1 := by
  rw [r.line_eq, List.length_append, List.length_singleton]

theorem Record.length_payload_le (r : Record) : r.payload.length ≤ 256 := by
  rw [Record.payload, length_payload _ r.len_le]; exact r.len_le

theorem Record.length_line (r : Record) : r.line.length = headerLength r + 3 * r.payload.length + 1 := by
  rw [Record.payload, length_payload _ r.len_le]; exact length_logLine r.tm r.msg r.len_le

theorem headerLength_le (r : Record) : headerLength r ≤ 55 := length_logHeader_le r.tm r.msg

theorem Record.length_line_le (r : Record) : r.line.length ≤ 824 := length_logLine_le r.tm r.msg r.len_le

theorem Record.line_ne_nil (r : Record) : r.line ≠ [] := by rw [r.line_eq]; simp

theorem Record.getLast?_line (r : Record) : r.line.getLast? = some '\n' := by rw [r.line_eq]; simp

theorem Record.nul_not_mem (r : Record) : '\x00' ∉ r.line := nul_not_mem_logLine r.tm r.msg r.len_le

/-- The pieces of a line under the 512-byte reader. -/
def linePieces (r : Record) : List (List Char) :=
  r.line.take (packLineSize - 1) ::
    if r.line.length ≤ packLineSize - 1 then [] else [r.line.drop (packLineSize - 1)]

theorem fgetsAll_line (r : Record) : fgetsAll packLineSize r.line = linePieces r := by
  have hbody : '\n' ∉ logHeader r.tm r.msg ++ hexText r.payload := newline_not_mem_lineBody r.tm r.msg
  have hle := r.length_line_le
  have hlen := r.length_line_body
  rw [fgetsAll_eq (by decide) r.line_ne_nil, linePieces]
  by_cases hfit : r.line.length ≤ packLineSize - 1
  · have hread : fgets packLineSize r.line = r.line := by
      rw [fgets, r.line_eq]
      refine readLine_line hbody ?_
      simp only [packLineSize] at hfit ⊢
      omega
    rw [if_pos hfit, hread, List.drop_length, fgetsAll_nil, List.take_of_length_le hfit]
  · have hb : packLineSize - 1 ≤ (logHeader r.tm r.msg ++ hexText r.payload).length := by
      simp only [packLineSize] at hfit ⊢
      omega
    have hcut : fgets packLineSize r.line = r.line.take (packLineSize - 1) := by
      rw [fgets, r.line_eq, readLine_append (.inr hb), readLine_of_not_mem hbody,
        List.take_append_of_le_length hb]
    have hrest : r.line.drop (packLineSize - 1) ≠ [] := by simpa using hfit
    have hread : fgets packLineSize (r.line.drop (packLineSize - 1)) = r.line.drop (packLineSize - 1) := by
      have hsplit : r.line.drop (packLineSize - 1) =
          (logHeader r.tm r.msg ++ hexText r.payload).drop (packLineSize - 1) ++ ['\n'] := by
        rw [r.line_eq, List.drop_append_of_le_length hb]
      have hlen := congrArg List.length hsplit
      simp only [List.length_append, List.length_drop, List.length_singleton, packLineSize] at hlen
      rw [fgets, hsplit]
      refine readLine_line (fun h => hbody (List.mem_of_mem_drop h)) ?_
      simp only [List.length_drop, List.length_append, packLineSize]
      simp only [packLineSize] at hfit
      omega
    have htake : (r.line.take (packLineSize - 1)).length = packLineSize - 1 := by
      rw [List.length_take]
      omega
    rw [if_neg hfit, hcut, htake, fgetsAll_eq (by decide) hrest, hread, List.drop_length, fgetsAll_nil]

theorem logText_cons (r : Record) (rs : List Record) : logText (r :: rs) = r.line ++ logText rs := by
  simp [logText]

theorem logText_append (rs ss : List Record) : logText (rs ++ ss) = logText rs ++ logText ss := by
  simp [logText]

@[simp] theorem logText_nil : logText [] = [] := rfl

theorem fgetsAll_logText (rs : List Record) : fgetsAll packLineSize (logText rs) = rs.flatMap linePieces := by
  induction rs with
  | nil => rfl
  | cons r rs ih =>
    rw [logText_cons, fgetsAll_append (by decide) (.inr r.getLast?_line), fgetsAll_line, ih, List.flatMap_cons]

/-- The text of the records from `k` on is what follows their offset. -/
theorem drop_lineStart (rs : List Record) (k : Nat) : (logText rs).drop (lineStart rs k) = logText (rs.drop k) := by
  conv_lhs => rw [← List.take_append_drop k rs, logText_append]
  rw [lineStart, List.take_append_drop, List.drop_left]

@[simp] theorem lineStart_zero (rs : List Record) : lineStart rs 0 = 0 := rfl

/-! ## The data of the pieces -/

/-- The data text of a line, cut after `n` characters. -/
theorem parseBytes_take {d : List UInt8} (hd : d.length ≤ 256) {n : Nat} :
    parseBytes 256 ((hexText d ++ ['\n']).take n) =
      if n ≤ 3 * d.length ∧ n % 3 = 1 then none else some (d.take ((n + 1) / 3)) := by
  by_cases hn : n ≤ 3 * d.length
  · obtain ⟨q, r, hr, rfl⟩ : ∃ q r, r < 3 ∧ n = 3 * q + r := ⟨n / 3, n % 3, Nat.mod_lt _ (by decide), by omega⟩
    have hq : (d.take q).length = q := by rw [List.length_take]; omega
    have htake : (hexText d ++ ['\n']).take (3 * q + r) = hexText (d.take q) ++ (hexText (d.drop q)).take r := by
      have e : hexText d = hexText (d.take q) ++ hexText (d.drop q) := by
        rw [← hexText_append, List.take_append_drop]
      rw [List.take_append_of_le_length (by rw [length_hexText]; omega), e, List.take_append,
        List.take_of_length_le (by rw [length_hexText, hq]; omega), length_hexText, hq, Nat.add_sub_cancel_left]
    rw [htake, show 256 = (d.take q).length + (256 - q) by omega, parseBytes_hexText]
    -- The cut is between two bytes, within a byte, or behind its digits.
    match r, hr with
    | 0, _ =>
      rw [List.take_zero, parseBytes_nil, if_neg (by omega), show (3 * q + 0 + 1) / 3 = q by omega]
      simp
    | 1, _ =>
      obtain ⟨b, rest, hb⟩ := List.exists_cons_of_ne_nil (l := d.drop q) (by simp; omega)
      have hpos : 256 - q = (255 - q) + 1 := by omega
      rw [hb, hexText_cons, if_pos (by omega), hpos]
      simp only [List.take_succ_cons, List.take_zero, parseBytes_digit _ _ (halves_lt b).1, Option.map_none]
    | 2, _ =>
      obtain ⟨b, rest, hb⟩ := List.exists_cons_of_ne_nil (l := d.drop q) (by simp; omega)
      have hpos : 256 - q = (255 - q) + 1 := by omega
      have hbyte := parseBytes_byte (255 - q) b []
      have hsucc : d.take (q + 1) = d.take q ++ [b] := by
        have hlt : q < d.length := by omega
        have hb' : d[q] = b := by
          have := congrArg List.head? hb
          simpa [List.head?_drop, List.getElem?_eq_getElem hlt] using this
        rw [← hb', List.take_append_getElem hlt]
      rw [hb, hexText_cons, if_neg (by omega), hpos, show (3 * q + 2 + 1) / 3 = q + 1 by omega, hsucc]
      simp only [fmtX2, List.append_nil, parseBytes_nil, Option.map_some] at hbyte
      simp only [List.take_succ_cons, List.take_zero, hbyte, Option.map_some]
  · rw [if_neg (by omega), List.take_of_length_le (by
        simp only [List.length_append, length_hexText, List.length_singleton]; omega),
      List.take_of_length_le (by omega), show 256 = d.length + (256 - d.length) by omega, parseBytes_hexText,
      parseBytes_newline, Option.map_some, List.append_nil]

/-- What the first piece of a line shows of its data. -/
theorem parseLogLine_firstPiece (r : Record) :
    parseLogLine (cstr (r.line.take (packLineSize - 1))) 256 = if CutInByte r then none else some (shown r) := by
  have hh := headerLength_le r
  have hlen := r.length_line
  have htake : r.line.take (packLineSize - 1) =
      logHeader r.tm r.msg ++ (hexText r.payload ++ ['\n']).take (511 - headerLength r) := by
    rw [r.line_eq, List.append_assoc, List.take_append, List.take_of_length_le (by
      simp only [packLineSize]; exact Nat.le_trans hh (by decide))]
    rfl
  obtain ⟨hb, he⟩ := hexText_start r.payload (s := ['\n']) (by decide) (by decide)
  rw [cstr_of_not_mem fun h => r.nul_not_mem (List.mem_of_mem_take h), htake]
  obtain ⟨n, hn⟩ : ∃ n, 511 - headerLength r = n + 2 := ⟨509 - headerLength r, by omega⟩
  have hstart : ∀ s : List Char, s.head? ≠ some ' ' → s.tail.head? ≠ some '=' →
      (s.take (n + 2)).head? ≠ some ' ' ∧ (s.take (n + 2)).tail.head? ≠ some '=' := fun s h₁ h₂ => by
    match s with
    | [] => exact ⟨h₁, h₂⟩
    | [c] => exact ⟨h₁, h₂⟩
    | c :: d :: s => exact ⟨h₁, h₂⟩
  obtain ⟨hb', he'⟩ := hstart _ hb he
  rw [hn, parseLogLine_header _ _ hb' he', ← hn, parseBytes_take r.length_payload_le]
  have hcut : (511 - headerLength r ≤ 3 * r.payload.length ∧ (511 - headerLength r) % 3 = 1) ↔ CutInByte r := by
    simp only [CutInByte, packLineSize, hlen]
    omega
  rw [shown, show 511 - headerLength r + 1 = packLineSize - headerLength r by simp only [packLineSize]; omega]
  by_cases hc : CutInByte r
  · rw [if_pos hc, if_pos (hcut.mpr hc)]
  · rw [if_neg hc, if_neg (fun h => hc (hcut.mp h))]

/-- The second piece of a line has no data. -/
theorem parseLogLine_secondPiece (r : Record) :
    parseLogLine (cstr (r.line.drop (packLineSize - 1))) 256 = some [] := by
  have hh := headerLength_le r
  have hdrop : r.line.drop (packLineSize - 1) =
      (hexText r.payload ++ ['\n']).drop (packLineSize - 1 - headerLength r) := by
    rw [r.line_eq, List.append_assoc, List.drop_append, List.drop_of_length_le (by
      simp only [packLineSize]; exact Nat.le_trans hh (by decide)), List.nil_append]
    rfl
  refine parseLogLine_of_not_mem (fun h => ?_) 256
  have hmem := (List.takeWhile_subset _ h : ']' ∈ r.line.drop (packLineSize - 1))
  rw [hdrop] at hmem
  rcases List.mem_append.mp (List.mem_of_mem_drop hmem) with h | h
  · exact not_mem_hexText (by decide) (by decide) _ h
  · exact absurd h (by decide)

/-! ## The batch of the records -/

/-- How far behind its start a reader leaves the offset of a log when it has
packed the records up to number `k`, the last of them by its first piece. -/
def stopOffset (rs : List Record) : Nat → Nat
  | 0 => 0
  | k + 1 => (logText (rs.take k)).length + min ((rs[k]?.map (·.line.length)).getD 0) (packLineSize - 1)

theorem stopOffset_cons (r : Record) (rs : List Record) (k : Nat) :
    stopOffset (r :: rs) (k + 1) =
      if k = 0 then min r.line.length (packLineSize - 1) else r.line.length + stopOffset rs k := by
  cases k with
  | zero => simp [stopOffset]
  | succ k => simp [stopOffset, logText_cons, Nat.add_assoc]

theorem length_shown (r : Record) :
    (shown r).length = min ((packLineSize - headerLength r) / 3) r.payload.length := by
  rw [shown, List.length_take]

/-- The entries of a log's first line and of the others. -/
theorem shownEntries_cons (r : Record) (rs : List Record) :
    shownEntries (r :: rs) = if 2 ≤ (shown r).length then shown r :: shownEntries rs else shownEntries rs := by
  simp [shownEntries, List.filter_cons]

/-- The loop of `pack_data_from_files` over a log of records. -/
theorem packFile_records (cap : Nat) (rs : List Record) (pos off : Nat) (es : List (List UInt8)) :
    packFile cap (rs.flatMap linePieces) pos off (batchOf es) =
      (accept cap (hexCost es) (rs.map shownSize)).map fun k =>
        (batchOf (es ++ shownEntries (rs.take k)), if k = 0 then off else pos + stopOffset rs k) := by
  induction rs generalizing pos off es with
  | nil => simp [packFile, accept, shownEntries]
  | cons r rs ih =>
    have hused : (batchOf es).hexLen + (if 0 < (batchOf es).entryCount then 1 else 0) = hexCost es :=
      (hexCost_eq es).symm
    -- The second piece of a line, if it has one, is passed over.
    have hsecond : ∀ p o es', packFile cap ((if r.line.length ≤ packLineSize - 1 then []
        else [r.line.drop (packLineSize - 1)]) ++ rs.flatMap linePieces) p o (batchOf es') =
        packFile cap (rs.flatMap linePieces) (p + (r.line.length - (packLineSize - 1))) o (batchOf es') := by
      intro p o es'
      by_cases hfit : r.line.length ≤ packLineSize - 1
      · rw [if_pos hfit, List.nil_append, Nat.sub_eq_zero_of_le hfit, Nat.add_zero]
      · rw [if_neg hfit, List.singleton_append, packFile, parseLogLine_secondPiece]
        simp
    have hpos : ∀ p, p + (r.line.take (packLineSize - 1)).length + (r.line.length - (packLineSize - 1)) =
        p + r.line.length := fun p => by rw [List.length_take]; omega
    rw [List.flatMap_cons, linePieces, List.cons_append, packFile, parseLogLine_firstPiece, List.map_cons, shownSize]
    by_cases hcut : CutInByte r
    · simp [if_pos hcut, accept]
    rw [if_neg hcut, if_neg hcut]
    simp only [accept, hused]
    by_cases hshort : (shown r).length < 2
    · rw [if_pos hshort, if_pos hshort, hsecond, hpos, ih, Option.map_map]
      refine congrArg (Option.map · _) (funext fun k => ?_)
      cases k with
      | zero => simp [shownEntries]
      | succ k =>
        simp [shownEntries_cons, stopOffset_cons, Nat.add_assoc, Nat.not_le.mpr hshort]
    · rw [if_neg hshort, if_neg hshort]
      by_cases hfull : cap < hexCost es + 2 * (shown r).length
      · simp [if_pos hfull, shownEntries]
      · rw [if_neg hfull, if_neg hfull, batchOf_add, hsecond, hpos, ih, hexCost_append, Option.map_map]
        refine congrArg₂ (fun f o => Option.map f o) (funext fun k => ?_) (by simp)
        cases k with
        | zero => simp [shownEntries, stopOffset, Nat.le_of_not_lt hshort, Nat.min_comm]
        | succ k =>
          simp [shownEntries_cons, stopOffset_cons, Nat.add_assoc, Nat.le_of_not_lt hshort]

/-- `pack_data_from_files` on files of records. -/
theorem packDataFromFiles_records {n : Nat} {files : Fin n → Option (List Char)} {recs : Fin n → List Record}
    (hfiles : ∀ i, Holds (files i) (recs i)) (start : Fin n → Nat) (cap : Nat) :
    packDataFromFiles files (fun i => lineStart (recs i) (start i)) cap =
      (batch cap fun i => (recs i).drop (start i)).map fun (es, ks) =>
        (batchOf es, fun i => lineStart (recs i) (start i) + stopOffset ((recs i).drop (start i)) (ks i)) := by
  refine threadFin_map batchOf
    (fun i k => lineStart (recs i) (start i) + stopOffset ((recs i).drop (start i)) k) (fun i es => ?_) []
  rcases hfiles i with hf | ⟨hf, hr⟩
  · simp only [hf, drop_lineStart, fgetsAll_logText, packFile_records, Option.map_map]
    refine congrArg (Option.map · _) (funext fun k => ?_)
    cases k <;> simp [stopOffset]
  · simp [hf, hr, accept, shownEntries, lineStart, stopOffset]

/-- What a batch is made of, log by log. -/
theorem batch_eq {cap n : Nat} {pending : Fin n → List Record} {es : List (List UInt8)} {ks : Fin n → Nat}
    (h : batch cap pending = some (es, ks)) :
    es = shownEntries ((List.finRange n).flatMap fun i => (pending i).take (ks i)) := by
  have hc := threadFin_collect id (fun i k => shownEntries ((pending i).take k)) (fun _ _ => True)
    (fun i e s' k hi => ?_) (e := []) h
  · rw [hc.1, id_eq, List.nil_append, shownEntries, List.map_flatMap, List.filter_flatMap]
    rfl
  · simp only [Option.map_eq_some_iff, Prod.mk.injEq] at hi
    obtain ⟨_, -, rfl, rfl⟩ := hi
    exact ⟨rfl, trivial⟩

theorem ne_nil_of_mem_shownEntries {rs : List Record} : ∀ e ∈ shownEntries rs, e ≠ [] := by
  rintro e he rfl
  simp [shownEntries] at he

/-- A line is shown whole just when it is at most two characters longer than
the first piece: those are the last blank and the newline. -/
theorem shown_eq_payload_iff (r : Record) : shown r = r.payload ↔ r.line.length ≤ packLineSize + 1 := by
  have hlen := r.length_line
  have hh := headerLength_le r
  have hshown := length_shown r
  simp only [packLineSize] at hshown ⊢
  constructor
  · intro h
    rw [h] at hshown
    omega
  · intro h
    rw [shown, List.take_of_length_le]
    simp only [packLineSize]
    omega

theorem shownSize_of_length_le {r : Record} (h : r.line.length ≤ packLineSize - 1) :
    shownSize r = some r.payload.length := by
  rw [shownSize, if_neg (fun hc => absurd hc.1 (Nat.not_lt.mpr h)), (shown_eq_payload_iff r).mpr (by omega)]

theorem shownEntries_of_length_le {rs : List Record} (h : ∀ r ∈ rs, r.line.length ≤ packLineSize - 1) :
    shownEntries rs = recordEntries rs := by
  rw [shownEntries, recordEntries,
    List.map_congr_left fun r hr => (shown_eq_payload_iff r).mpr (Nat.le_trans (h r hr) (by decide))]

/-- `main_pack_pending`, called as `main_send_thread` calls it, on files of
records. -/
theorem mainPackPending_records {files : Fin mainPathCount → Option (List Char)}
    {recs : Fin mainPathCount → List Record} (hfiles : ∀ i, Holds (files i) (recs i))
    (start : Fin mainPathCount → Nat) :
    mainPackPending files (fun i => lineStart (recs i) (start i)) egMaxHexLen (egMaxHexLen / 2 + 1) =
      (batch egMaxHexLen fun i => (recs i).drop (start i)).map fun (es, ks) =>
        if rawCost es ≤ egMaxHexLen / 2 + 2 then
          ⟨0, fun i => lineStart (recs i) (start i) + stopOffset ((recs i).drop (start i)) (ks i),
            joinHex es, joinRaw es, (joinRaw es).length, es.length⟩
        else
          ⟨-1, fun i => lineStart (recs i) (start i) + stopOffset ((recs i).drop (start i)) (ks i),
            joinHex es, [], -1, es.length⟩ := by
  rw [mainPackPending, packDataFromFiles_records hfiles, Option.map_map]
  cases hb : batch egMaxHexLen fun i => (recs i).drop (start i) with
  | none => rfl
  | some r =>
    obtain ⟨es, ks⟩ := r
    have hne : ∀ e ∈ es, e ≠ [] := batch_eq hb ▸ ne_nil_of_mem_shownEntries
    have hcost : (joinRaw es).length ≤ egMaxHexLen / 2 + 1 ↔ rawCost es ≤ egMaxHexLen / 2 + 2 := by
      rw [length_joinRaw]
      omega
    simp only [Option.map_some, Function.comp_apply, batchOf, finishPack_eq _ hne (show 0 < egMaxHexLen / 2 + 1 by decide)]
    by_cases hfit : rawCost es ≤ egMaxHexLen / 2 + 2
    · rw [if_pos hfit, if_pos (hcost.mpr hfit)]
    · rw [if_neg hfit, if_neg (fun h => hfit (hcost.mp h))]

end Dtu
