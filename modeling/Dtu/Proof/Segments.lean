import Dtu.Impl.Bd3
import Dtu.Proof.Limits
import Dtu.Proof.Window

/-!
# The segments of a window

`main_pack_pending_until` on logs of records: its reader of 1024 bytes finds each
line whole (`fgetsAll_logText_until`), so a call goes from a line to a line and
packs the entries of the records between (`packUntilFile_records`), and what is
appended behind the window is not looked at (`packUntilFile_grown`). Called again
and again, each time from where the last call has stopped, it takes the entries
of each log in their order, each once (`mainPackPendingUntil_segments`).
-/

namespace Dtu

open Stdio Loop

/-- The entries of the records `start`, …, `stop - 1` of a log. -/
def lineEntries (rs : List Record) (start stop : Nat) : List (List UInt8) := recordEntries ((rs.take stop).drop start)

/-- A log that has held records, and anything appended since. -/
def Grown (rs : List Record) (file : Option (List Char)) : Prop := ∃ appended, file.getD [] = logText rs ++ appended

/-- The results of `main_pack_pending_until`, called by `main_send_thread` one time
after the other: each call finds the logs as they are then, and starts from the
`pending_offsets` of the one before. -/
def segments {n : Nat} (files : Nat → Fin n → Option (List Char)) (offsets endOffsets : Fin n → Nat) :
    Nat → Option (PackResult n)
  | 0 => mainPackPendingUntil (files 0) offsets endOffsets bdMaxHexLen bdMaxRawLen
  | k + 1 => (segments files offsets endOffsets k).bind fun r =>
      mainPackPendingUntil (files (k + 1)) r.pendingOffsets endOffsets bdMaxHexLen bdMaxRawLen

/-- A call that has packed the entries of the records `start i`, …, `stop i - 1` of
each log, within the limits of a BeiDou packet. -/
structure Segment {n : Nat} (recs : Fin n → List Record) (start stop : Fin n → Nat) (r : PackResult n) : Prop where
  ret : r.ret = 0
  pending : r.pendingOffsets = fun i => lineStart (recs i) (stop i)
  count : r.entryCount = ((List.finRange n).flatMap fun i => lineEntries (recs i) (start i) (stop i)).length
  hexBuf : r.hexBuf.length ≤ bdMaxHexLen
  rawBuf : r.rawBuf = joinRaw ((List.finRange n).flatMap fun i => lineEntries (recs i) (start i) (stop i))
  rawLen : r.rawLen = r.rawBuf.length ∧ r.rawBuf.length ≤ bdMaxRawLen
  accepted : r.entryCount ≠ 0 → (bdSendPacket r.rawBuf).isSome

/-! ## One log -/

theorem fgetsAll_logText_until (rs : List Record) : fgetsAll untilLineSize (logText rs) = rs.map Record.line := by
  induction rs with
  | nil => rfl
  | cons r rs ih =>
    have hbody : '\n' ∉ logHeader r.tm r.msg ++ hexText r.payload := newline_not_mem_lineBody r.tm r.msg
    have hle := r.length_line_le
    have hlen := r.length_line_body
    have hline : fgetsAll untilLineSize r.line = [r.line] := by
      rw [r.line_eq]
      refine fgetsAll_singleton hbody ?_
      simp only [untilLineSize]
      omega
    rw [logText_cons, fgetsAll_append (by decide) (.inr r.getLast?_line), hline, ih]
    rfl

theorem parseLogLine_record (r : Record) : parseLogLine (cstr r.line) 256 = some r.payload := by
  rw [cstr_of_not_mem r.nul_not_mem]
  exact parseLogLine_logLine r.tm r.msg r.len_le

theorem recordEntries_cons (r : Record) (rs : List Record) :
    recordEntries (r :: rs) = if 2 ≤ r.payload.length then r.payload :: recordEntries rs else recordEntries rs := by
  simp [recordEntries, List.filter_cons]

theorem recordEntries_append (rs ss : List Record) :
    recordEntries (rs ++ ss) = recordEntries rs ++ recordEntries ss := by
  simp [recordEntries]

/-- What lies behind the end of the window is not read. -/
theorem packUntil_append {cap rawBufSize endOffset : Nat} {ws : List (List Char)} {pos : Nat} (pending : Nat)
    (b : UntilBatch) (hend : endOffset ≤ pos + ws.flatten.length) (rest : List (List Char)) :
    packUntil cap rawBufSize endOffset (ws ++ rest) pos pending b =
      packUntil cap rawBufSize endOffset ws pos pending b := by
  induction ws generalizing pos pending b with
  | nil =>
    have hpos : endOffset ≤ pos := by simpa using hend
    cases rest with
    | nil => rfl
    | cons line rest => simp only [List.nil_append, packUntil, if_pos hpos]
  | cons line ws ih =>
    rw [List.flatten_cons, List.length_append, ← Nat.add_assoc] at hend
    simp only [List.cons_append, packUntil, ih _ _ hend]

/-- The batch is within the limits. -/
def Fits (cap rawBufSize : Nat) (es : List (List UInt8)) : Prop :=
  (joinHex es).length ≤ cap ∧ (joinRaw es).length ≤ rawBufSize

/-- The loop of `main_pack_pending_until` over a log of records, from the start of
a line up to the start of a line. -/
theorem packUntil_records {cap rawBufSize : Nat} (rs : List Record) (m pos : Nat) {es : List (List UInt8)}
    (hes : Fits cap rawBufSize es) :
    ∃ k ≤ m, packUntil cap rawBufSize (pos + (logText (rs.take m)).length) (rs.map Record.line) pos pos (untilOf es) =
        some (untilOf (es ++ recordEntries (rs.take k)), pos + (logText (rs.take k)).length) ∧
      Fits cap rawBufSize (es ++ recordEntries (rs.take k)) := by
  have stop : Fits cap rawBufSize (es ++ recordEntries (rs.take 0)) := by simpa [recordEntries] using hes
  induction rs generalizing m pos es with
  | nil => exact ⟨0, Nat.zero_le m, by simp [packUntil, recordEntries], stop⟩
  | cons r rs ih =>
    cases m with
    | zero => exact ⟨0, Nat.le_refl 0, by simp [packUntil, recordEntries], stop⟩
    | succ m =>
      have hpos := List.length_pos_iff.mpr r.line_ne_nil
      have hlen : ∀ k, pos + (logText ((r :: rs).take (k + 1))).length =
          pos + r.line.length + (logText (rs.take k)).length := fun k => by
        rw [List.take_succ_cons, logText_cons, List.length_append, Nat.add_assoc]
      -- The line lies in the window and is not packed.
      have stays : ∀ o, o = some (untilOf es, pos) → ∃ k ≤ m + 1,
          o = some (untilOf (es ++ recordEntries ((r :: rs).take k)), pos + (logText ((r :: rs).take k)).length) ∧
          Fits cap rawBufSize (es ++ recordEntries ((r :: rs).take k)) := by
        intro o ho
        exact ⟨0, Nat.zero_le _, by simp [ho, recordEntries], stop⟩
      rw [hlen, List.map_cons, packUntil, if_neg (by omega), if_neg (by omega), parseLogLine_record]
      by_cases hshort : r.payload.length < 2
      · obtain ⟨k, hk, heq, hfits⟩ := ih m (pos + r.line.length) hes (by simpa [recordEntries] using hes)
        have hent : recordEntries ((r :: rs).take (k + 1)) = recordEntries (rs.take k) := by
          rw [List.take_succ_cons, recordEntries_cons, if_neg (by omega)]
        refine ⟨k + 1, by omega, ?_, hent ▸ hfits⟩
        rw [hlen, hent, ← heq]
        simp only [if_pos hshort]
      · simp only [if_neg hshort]
        by_cases hhex : cap < (untilOf es).hexLen + (if 0 < (untilOf es).entryCount then 1 else 0) + 2 * r.payload.length
        · exact stays _ (if_pos hhex)
        by_cases hraw : rawBufSize < (untilOf es).packedRawLen + (if 0 < (untilOf es).entryCount then 1 else 0) +
            r.payload.length
        · rw [if_neg hhex]
          exact stays _ (if_pos hraw)
        have hcost : hexCost es + 2 * r.payload.length ≤ cap := by
          rw [hexCost_eq]
          exact Nat.le_of_not_lt hhex
        have hcostRaw : rawCost es + r.payload.length ≤ rawBufSize := by
          rw [rawCost_eq]
          exact Nat.le_of_not_lt hraw
        have hadd : Fits cap rawBufSize (es ++ [r.payload]) := by
          rw [Fits, length_joinHex, length_joinRaw, hexCost_append, rawCost_append]
          simp only [hexCost_cons, hexCost_nil, rawCost_cons, rawCost_nil]
          omega
        obtain ⟨k, hk, heq, hfits⟩ := ih m (pos + r.line.length) hadd (by simpa [recordEntries] using hadd)
        have hent : es ++ recordEntries ((r :: rs).take (k + 1)) = es ++ [r.payload] ++ recordEntries (rs.take k) := by
          rw [List.take_succ_cons, recordEntries_cons, if_pos (by omega), List.append_assoc, List.singleton_append]
        refine ⟨k + 1, by omega, ?_, hent ▸ hfits⟩
        rw [if_neg hhex, if_neg hraw, untilOf_add hcost, heq, hlen, hent]

/-- The turn for a log of records goes from the start of a line to the start of a
line, and packs the entries between. -/
theorem packUntilFile_records {cap rawBufSize : Nat} (rs : List Record) (start stop : Nat) {es : List (List UInt8)}
    (hes : Fits cap rawBufSize es) :
    ∃ next, packUntilFile (some (logText rs)) (lineStart rs start) (lineStart rs stop) cap rawBufSize (untilOf es) =
        some (untilOf (es ++ lineEntries rs start next), lineStart rs next) ∧
      (start ≤ next ∧ next ≤ max start stop) ∧ Fits cap rawBufSize (es ++ lineEntries rs start next) := by
  have hnone : lineEntries rs start start = [] := by
    rw [lineEntries, List.drop_of_length_le (by rw [List.length_take]; omega)]
    rfl
  rw [packUntilFile]
  by_cases hend : lineStart rs stop ≤ lineStart rs start
  · refine ⟨start, ?_, ⟨Nat.le_refl _, Nat.le_max_left _ _⟩, ?_⟩
    · rw [if_pos hend, hnone, List.append_nil]
    · rwa [hnone, List.append_nil]
  · have hle : start ≤ stop := Nat.le_of_not_le fun hge => hend (length_logText_take_le rs hge)
    have hstop : lineStart rs stop = lineStart rs start + (logText ((rs.drop start).take (stop - start))).length := by
      rw [← lineStart_add, Nat.add_sub_cancel' hle]
    obtain ⟨k, hk, heq, hfits⟩ := packUntil_records (rs.drop start) (stop - start) (lineStart rs start) hes
    refine ⟨start + k, ?_, ⟨Nat.le_add_right _ _, by omega⟩, ?_⟩
    · rw [if_neg hend, drop_lineStart, fgetsAll_logText_until, hstop, heq, lineEntries, take_drop_eq, lineStart_add]
    · rwa [lineEntries, take_drop_eq]

/-- What has been appended to a log makes no difference to the turn for it. -/
theorem packUntilFile_grown {rs : List Record} {file : Option (List Char)} (h : Grown rs file) (start stop : Nat)
    (cap rawBufSize : Nat) (b : UntilBatch) :
    packUntilFile file (lineStart rs start) (lineStart rs stop) cap rawBufSize b =
      packUntilFile (some (logText rs)) (lineStart rs start) (lineStart rs stop) cap rawBufSize b := by
  obtain ⟨appended, happended⟩ := h
  have hle : ∀ k, lineStart rs k ≤ (logText rs).length := fun k => by
    rw [lineStart]
    conv_rhs => rw [← List.take_append_drop k rs, logText_append, List.length_append]
    exact Nat.le_add_right _ _
  by_cases hend : lineStart rs stop ≤ lineStart rs start
  · cases file with
    | none => simp only [packUntilFile, if_pos hend]
    | some content => simp only [packUntilFile, if_pos hend]
  · cases file with
    | none =>
      obtain ⟨hnil, -⟩ := List.append_eq_nil_iff.mp happended.symm
      have := hle stop
      rw [hnil, List.length_nil] at this
      omega
    | some content =>
      rw [Option.getD_some] at happended
      have hline : logText (rs.drop start) = [] ∨ (logText (rs.drop start)).getLast? = some '\n' := by
        rcases List.eq_nil_or_concat (rs.drop start) with hnil | ⟨front, r, hconcat⟩
        · exact .inl (by rw [hnil]; rfl)
        · rw [hconcat, List.concat_eq_append, logText_append, logText_cons, logText_nil, List.append_nil,
            List.getLast?_append, r.getLast?_line]
          exact .inr rfl
      have hdrop : content.drop (lineStart rs start) = logText (rs.drop start) ++ appended := by
        rw [happended, List.drop_append_of_le_length (hle start), drop_lineStart]
      simp only [packUntilFile, if_neg hend, hdrop, drop_lineStart]
      rw [fgetsAll_append (by decide) hline, packUntil_append]
      rw [fgetsAll_flatten (by decide), ← drop_lineStart, List.length_drop]
      have := hle start
      have := hle stop
      omega

/-! ## All logs -/

/-- One call, on the logs as they were when the window was opened. -/
theorem mainPackPendingUntil_records (recs : Fin mainPathCount → List Record) (stop start : Fin mainPathCount → Nat) :
    ∃ next : Fin mainPathCount → Nat, (∀ i, start i ≤ next i ∧ next i ≤ max (start i) (stop i)) ∧
      ∃ r, mainPackPendingUntil (fun i => some (logText (recs i))) (fun i => lineStart (recs i) (start i))
          (fun i => lineStart (recs i) (stop i)) bdMaxHexLen bdMaxRawLen = some r ∧ Segment recs start next r := by
  obtain ⟨next, hloop, hnext, hfits⟩ := threadFin_exists untilOf (fun i k => lineStart (recs i) k)
    (fun i k => lineEntries (recs i) (start i) k) (fun i k => start i ≤ k ∧ k ≤ max (start i) (stop i))
    (Fits bdMaxHexLen bdMaxRawLen)
    (fun i es hes => packUntilFile_records (recs i) (start i) (stop i) hes) (e := []) ⟨Nat.zero_le _, Nat.zero_le _⟩
  rw [List.nil_append] at hloop hfits
  have hne : ∀ e ∈ (List.finRange mainPathCount).flatMap fun i => lineEntries (recs i) (start i) (next i), e ≠ [] := by
    intro e he hnil
    obtain ⟨i, -, hi⟩ := List.mem_flatMap.mp he
    simp [lineEntries, recordEntries, hnil] at hi
  have hfinish := finishPack_eq (fun i => lineStart (recs i) (next i)) hne (show 0 < bdMaxRawLen by decide)
  rw [if_pos hfits.2] at hfinish
  refine ⟨next, hnext, _, congrArg (Option.map _) hloop, ?_⟩
  show Segment recs start next (finishPack _ (joinHex _) (List.length _) bdMaxRawLen)
  rw [hfinish]
  refine ⟨rfl, rfl, rfl, hfits.1, rfl, ⟨rfl, hfits.2⟩, fun hcount => ?_⟩
  have hraw := joinRaw_ne_nil (fun hnil => hcount (congrArg List.length hnil)) hne
  have hle := hfits.2
  rw [bdSendPacket, if_neg (fun hzero => hraw (List.eq_nil_of_length_eq_zero hzero)), if_neg (Nat.not_lt.mpr hle)]
  rfl

theorem mainPackPendingUntil_grown {recs : Fin mainPathCount → List Record} {files : Logs}
    (h : ∀ i, Grown (recs i) (files i)) (start stop : Fin mainPathCount → Nat) (cap rawBufSize : Nat) :
    mainPackPendingUntil files (fun i => lineStart (recs i) (start i)) (fun i => lineStart (recs i) (stop i)) cap
        rawBufSize =
      mainPackPendingUntil (fun i => some (logText (recs i))) (fun i => lineStart (recs i) (start i))
        (fun i => lineStart (recs i) (stop i)) cap rawBufSize := by
  rw [mainPackPendingUntil, mainPackPendingUntil]
  refine congrArg (fun f => Option.map _ (threadFin f _)) (funext fun i => funext fun b => ?_)
  exact packUntilFile_grown (h i) _ _ _ _ b

theorem lineEntries_append (rs : List Record) {start mid stop : Nat} (h : start ≤ mid) (h' : mid ≤ stop) :
    lineEntries rs start mid ++ lineEntries rs mid stop = lineEntries rs start stop := by
  rw [lineEntries, lineEntries, lineEntries, ← recordEntries_append]
  refine congrArg recordEntries ?_
  obtain ⟨k, rfl⟩ := Nat.exists_eq_add_of_le h
  obtain ⟨m, rfl⟩ := Nat.exists_eq_add_of_le h'
  rw [Nat.add_assoc, take_drop_eq, take_drop_eq, ← Nat.add_assoc, take_drop_eq, ← List.drop_drop, List.take_add]

/-- The entries of successive calls are those between the first and the last. -/
theorem flatMap_lineEntries (rs : List Record) {pos : Nat → Nat} (h : ∀ k, pos k ≤ pos (k + 1)) (k : Nat) :
    (List.range k).flatMap (fun j => lineEntries rs (pos j) (pos (j + 1))) = lineEntries rs (pos 0) (pos k) ∧
      pos 0 ≤ pos k := by
  induction k with
  | zero =>
    refine ⟨?_, Nat.le_refl _⟩
    rw [lineEntries, List.drop_of_length_le (by rw [List.length_take]; omega)]
    rfl
  | succ k ih =>
    obtain ⟨heq, hle⟩ := ih
    refine ⟨?_, Nat.le_trans hle (h k)⟩
    rw [List.range_succ, List.flatMap_append, heq, List.flatMap_singleton, lineEntries_append rs hle (h k)]

/-- `main_pack_pending_until`, called again and again on logs of records that are
appended to: no call fails, each packs a payload that fits a BeiDou packet, and
from each log the calls take the entries from the first offset up to where they
are, in order and each once. A log whose offset is behind the end of its window
stays where it is; the others stay within the window. Where the calls stop does
not depend on what is appended. -/
theorem mainPackPendingUntil_segments (recs : Fin mainPathCount → List Record) (start stop : Fin mainPathCount → Nat) :
    ∃ pos : Nat → Fin mainPathCount → Nat, pos 0 = start ∧
      ∀ files : Nat → Logs, (∀ k i, Grown (recs i) (files k i)) → ∀ k,
        (∃ r, segments files (fun i => lineStart (recs i) (start i)) (fun i => lineStart (recs i) (stop i)) k = some r ∧
          Segment recs (pos k) (pos (k + 1)) r) ∧
        ∀ i, pos k i ≤ pos (k + 1) i ∧
          (start i ≤ stop i → pos (k + 1) i ≤ stop i) ∧
          (stop i ≤ start i → pos (k + 1) i = start i) ∧
          (List.range (k + 1)).flatMap (fun j => lineEntries (recs i) (pos j i) (pos (j + 1) i)) =
            lineEntries (recs i) (start i) (pos (k + 1) i) := by
  choose next hnext hcall using mainPackPendingUntil_records recs stop
  obtain ⟨pos, hzero, hpos⟩ : ∃ pos : Nat → Fin mainPathCount → Nat, pos 0 = start ∧ ∀ k, pos (k + 1) = next (pos k) :=
    ⟨fun k => next^[k] start, rfl, fun k => Function.iterate_succ_apply' next k start⟩
  refine ⟨pos, hzero, fun files hfiles k => ⟨?_, fun i => ?_⟩⟩
  · induction k with
    | zero =>
      obtain ⟨r, hr, hsegment⟩ := hcall start
      refine ⟨r, (mainPackPendingUntil_grown (hfiles 0) start stop _ _).trans hr, ?_⟩
      rwa [hpos, hzero]
    | succ k ih =>
      obtain ⟨r, hr, hsegment⟩ := ih
      obtain ⟨r', hr', hsegment'⟩ := hcall (pos (k + 1))
      refine ⟨r', ?_, by rwa [hpos (k + 1)]⟩
      rw [segments, hr, Option.bind_some, hsegment.pending, mainPackPendingUntil_grown (hfiles (k + 1)), hr']
  · have hstep : ∀ k, pos k i ≤ pos (k + 1) i := fun k => by
      rw [hpos]
      exact (hnext _ i).1
    have hmax : ∀ k, pos k i ≤ max (start i) (stop i) := fun k => by
      induction k with
      | zero =>
        rw [hzero]
        exact Nat.le_max_left _ _
      | succ k ih =>
        have := (hnext (pos k) i).2
        rw [hpos]
        omega
    have hwithin := hmax (k + 1)
    obtain ⟨hentries, hle⟩ := flatMap_lineEntries (recs i) hstep (k + 1)
    rw [hzero] at hentries hle
    exact ⟨hstep k, fun h => by omega, fun h => by omega, hentries⟩

/-- A log whose offset is behind the end of its window. -/
theorem mainPackPendingUntil_segments_behind :
    ∃ r, segments (fun _ i => some (logText (firstLog [short 0] i))) (fun i => lineStart (firstLog [short 0] i) 1)
        (fun i => lineStart (firstLog [short 0] i) 0) 0 = some r ∧
      ¬r.pendingOffsets 0 ≤ lineStart (firstLog [short 0] 0) 0 := by
  have h : (segments (fun _ i => some (logText (firstLog [short 0] i))) (fun i => lineStart (firstLog [short 0] i) 1)
      (fun i => lineStart (firstLog [short 0] i) 0) 0).map
      (fun r => decide (r.pendingOffsets 0 ≤ lineStart (firstLog [short 0] 0) 0)) = some false := by
    decide +kernel
  obtain ⟨r, hr, hbehind⟩ := Option.map_eq_some_iff.mp h
  exact ⟨r, hr, of_decide_eq_false hbehind⟩

theorem mainPackPendingUntil_segments_two :
    ∃ r, segments (fun _ i => some (logText (firstLog [short 0, short 1] i)))
        (fun i => lineStart (firstLog [short 0, short 1] i) 0) (fun i => lineStart (firstLog [short 0, short 1] i) 2) 1 =
          some r ∧
      r.ret = 0 ∧ r.rawLen = r.rawBuf.length ∧ r.rawBuf.length ≤ bdMaxRawLen := by
  obtain ⟨pos, -, h⟩ := mainPackPendingUntil_segments (firstLog [short 0, short 1]) (fun _ => 0) (fun _ => 2)
  obtain ⟨⟨r, hr, hsegment⟩, -⟩ := h (fun _ i => some (logText (firstLog [short 0, short 1] i)))
    (fun _ i => ⟨[], by rw [Option.getD_some, List.append_nil]⟩) 1
  exact ⟨r, hr, hsegment.ret, hsegment.rawLen⟩

end Dtu
