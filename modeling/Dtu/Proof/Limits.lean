import Dtu.Proof.Backlog

/-!
# The limits of the packers

When `main_pack_pending` returns 0 (`mainPackPending_ok_iff`: the raw buffer is
smaller than the budget of hexadecimal characters allows), and when the entries
of `pack_data_from_files` are whole messages (`packDataFromFiles_whole_iff`: its
line buffer is smaller than that of `write_file_thread`).
-/

namespace Dtu

open Stdio Loop

/-! ## Logs of zero bytes -/

/-- A record of `size` zero bytes. -/
def zeros (size : Nat) (id : UInt32) (hsize : size ≤ 256) (hid : id ≠ 0) : Record where
  tm := Tm.setTime
  msg := message 0 (List.replicate size 0) id 0 1
  len_le := by
    rw [message, List.length_replicate, UInt32.toNat_ofNat']
    exact Nat.le_trans (Nat.mod_le _ _) hsize
  frameId_ne := hid

theorem payload_zeros (size : Nat) (id : UInt32) (hsize : size ≤ 256) (hid : id ≠ 0) :
    (zeros size id hsize hid).payload = List.replicate size 0 :=
  payload_message 0 (by rw [List.length_replicate]; exact hsize) id 0 1

theorem length_line_zeros (size : Nat) (id : UInt32) (hsize : size ≤ 256) (hid : id ≠ 0) (hd : id.toNat < 10) :
    (zeros size id hsize hid).line.length = 33 + 3 * size := by
  have hhead : ∀ k < 10, (logHeader Tm.setTime (message 0 [] (UInt32.ofNat k) 0 1)).length = 32 := by decide
  have h := hhead id.toNat hd
  rw [UInt32.ofNat_toNat] at h
  rw [Record.length_line, payload_zeros, List.length_replicate,
    show headerLength (zeros size id hsize hid) = 32 from h]
  omega

theorem succ_ne_zero (k : UInt8) : k.toUInt32 + 1 ≠ 0 := by
  intro h
  have hlt := k.toNat_lt
  have h := congrArg UInt32.toNat h
  rw [UInt32.toNat_add, UInt8.toNat_toUInt32] at h
  change (k.toNat + 1) % 2 ^ 32 = 0 at h
  omega

/-- A record of two zero bytes, with frame id `k + 1`. -/
def short (k : UInt8) : Record := zeros 2 (k.toUInt32 + 1) (by decide) (succ_ne_zero k)

/-- A record of 150 zero bytes. -/
def long : Record := zeros 150 1 (by decide) (by decide)

/-- The first nine of them have the shortest lines. -/
theorem length_line_short {k : UInt8} (hk : (k.toUInt32 + 1).toNat < 10) : (short k).line.length = 39 :=
  length_line_zeros 2 _ _ _ hk

/-- The records of one log, the first of the four. -/
def firstLog (rs : List Record) : Fin mainPathCount → List Record := fun i => if i = 0 then rs else []

theorem batch_firstLog (cap : Nat) (rs : List Record) :
    batch cap (firstLog rs) =
      (accept cap 0 (rs.map shownSize)).map fun k => (shownEntries (rs.take k), fun i => if i = 0 then k else 0) := by
  cases h : accept cap 0 (rs.map shownSize) with
  | none => simp [batch, threadFin, firstLog, h]
  | some k =>
    simp only [batch, threadFin, firstLog, hexCost_nil, if_true, h, if_neg (Fin.succ_ne_zero _), List.map_nil, accept,
      List.take_nil, Option.map_some, Option.bind_some, List.nil_append, shownEntries, List.filter_nil, List.append_nil,
      Option.some.injEq, Prod.mk.injEq, true_and]
    funext i
    fin_cases i <;> rfl

/-! ## The size of the raw buffer -/

/-- `main_pack_pending` returns 0 with the packed entries joined by commas just
when no line it reaches is cut inside a byte and the batch that the budget of
hexadecimal characters accepts has no more bytes and entries together than the
raw buffer has bytes, plus one. -/
theorem mainPackPending_ok_iff {files : Fin mainPathCount → Option (List Char)}
    {recs : Fin mainPathCount → List Record} (hfiles : ∀ i, Holds (files i) (recs i))
    (start : Fin mainPathCount → Nat) :
    (∃ r, mainPackPending files (fun i => lineStart (recs i) (start i)) egMaxHexLen (egMaxHexLen / 2 + 1) = some r ∧
      r.ret = 0 ∧ ∃ es, r.entryCount = es.length ∧ r.hexBuf = joinHex es ∧
        (0 < r.entryCount → r.rawBuf = joinRaw es)) ↔
    ∃ es ks, (batch egMaxHexLen fun i => (recs i).drop (start i)) = some (es, ks) ∧
      (es.map List.length).sum + es.length ≤ 1154 := by
  rw [mainPackPending_records hfiles]
  constructor
  · intro hpacked
    obtain ⟨r, hr, hret, -⟩ := hpacked
    obtain ⟨⟨es, ks⟩, hb, rfl⟩ := Option.map_eq_some_iff.mp hr
    refine ⟨es, ks, hb, ?_⟩
    by_cases hfit : rawCost es ≤ egMaxHexLen / 2 + 2
    · rw [← rawCost_eq_sum]; exact hfit
    · simp only [if_neg hfit] at hret
      exact absurd hret (by decide)
  · intro haccepted
    obtain ⟨es, ks, hb, hfit⟩ := haccepted
    rw [← rawCost_eq_sum] at hfit
    rw [hb, Option.map_some]
    refine ⟨_, rfl, ?_⟩
    simp only [if_pos (show rawCost es ≤ egMaxHexLen / 2 + 2 from hfit)]
    exact ⟨trivial, es, rfl, rfl, fun _ => rfl⟩

/-- Seven messages of 143 bytes and one of 147: 2303 characters of hexadecimal
text, 1155 bytes. -/
def crowd : List Record :=
  [zeros 143 1 (by decide) (by decide), zeros 143 2 (by decide) (by decide), zeros 143 3 (by decide) (by decide),
    zeros 143 4 (by decide) (by decide), zeros 143 5 (by decide) (by decide), zeros 143 6 (by decide) (by decide),
    zeros 143 7 (by decide) (by decide), zeros 147 8 (by decide) (by decide)]

theorem length_line_crowd : ∀ r ∈ crowd, r.line.length ≤ packLineSize - 1 := by
  intro r hr
  simp only [crowd, List.mem_cons, List.not_mem_nil, or_false] at hr
  rcases hr with rfl | rfl | rfl | rfl | rfl | rfl | rfl | rfl <;>
    (rw [length_line_zeros _ _ _ _ (by decide)]; decide)

theorem rawCost_crowd : rawCost (recordEntries crowd) = 1156 := by
  simp [crowd, recordEntries, payload_zeros]

theorem accept_crowd : accept egMaxHexLen 0 (crowd.map shownSize) = some 8 := by
  have hsizes : crowd.map shownSize = List.replicate 7 (some 143) ++ [some 147] := by
    rw [List.map_congr_left fun r hr => shownSize_of_length_le (length_line_crowd r hr)]
    simp [crowd, payload_zeros]
  rw [hsizes]
  decide

theorem mainPackPending_crowd :
    (mainPackPending (fun i => some (logText (firstLog crowd i))) (fun _ => 0) egMaxHexLen (egMaxHexLen / 2 + 1)).map
      (·.ret) = some (-1) := by
  have hfiles : ∀ i, Holds (some (logText (firstLog crowd i))) (firstLog crowd i) := fun _ => .inl rfl
  have h := mainPackPending_records hfiles fun _ => 0
  have hb : batch egMaxHexLen (firstLog crowd) = some (recordEntries crowd, fun i => if i = 0 then 8 else 0) := by
    rw [batch_firstLog, accept_crowd, Option.map_some, show crowd.take 8 = crowd from rfl,
      shownEntries_of_length_le length_line_crowd]
  simp only [lineStart_zero, List.drop_zero, hb, Option.map_some, rawCost_crowd] at h
  rw [h, Option.map_some, if_neg (by decide)]

/-- Three messages, of which the first has been packed before. -/
def threeLog : Fin mainPathCount → List Record := firstLog [short 0, short 1, short 2]

theorem batch_threeLog :
    (batch egMaxHexLen fun i => (threeLog i).drop 1) = some ([[0, 0], [0, 0]], fun i => if i = 0 then 2 else 0) := by
  decide +kernel

theorem mainPackPending_ok_iff_two :
    ∃ r, mainPackPending (fun i => some (logText (threeLog i))) (fun i => lineStart (threeLog i) 1) egMaxHexLen
        (egMaxHexLen / 2 + 1) = some r ∧
      r.ret = 0 ∧ ∃ es, r.entryCount = es.length ∧ r.hexBuf = joinHex es ∧
        (0 < r.entryCount → r.rawBuf = joinRaw es) := by
  refine (mainPackPending_ok_iff (fun _ => .inl rfl) fun _ => 1).mpr ?_
  exact ⟨_, _, batch_threeLog, by decide⟩

/-! ## The size of the line buffer -/

theorem logText_take_eq (rs : List Record) {k m : Nat} (h : k ≤ m) :
    logText (rs.take m) = logText (rs.take k) ++ logText ((rs.take m).drop k) := by
  rw [← logText_append]
  conv_lhs => rw [← List.take_append_drop k (rs.take m), List.take_take, Nat.min_eq_left h]

theorem length_logText_take_le (rs : List Record) {k m : Nat} (h : k ≤ m) :
    (logText (rs.take k)).length ≤ (logText (rs.take m)).length := by
  rw [logText_take_eq rs h, List.length_append]
  exact Nat.le_add_right _ _

/-- A line is not empty, so the text of a log tells its records apart. -/
theorem take_eq_take_of_length {rs : List Record} {k m : Nat} (h : k ≤ m)
    (hlen : (logText (rs.take k)).length = (logText (rs.take m)).length) : rs.take k = rs.take m := by
  rw [logText_take_eq rs h, List.length_append] at hlen
  have hnil : (rs.take m).drop k = [] := by
    match hd : (rs.take m).drop k with
    | [] => rfl
    | r :: ds =>
      have := List.length_pos_iff.mpr r.line_ne_nil
      rw [hd, logText_cons, List.length_append] at hlen
      omega
  conv_rhs => rw [← List.take_append_drop k (rs.take m), hnil, List.append_nil, List.take_take, Nat.min_eq_left h]

/-- A reader stops at the start of a line just when the last line it has packed
fits its buffer. -/
theorem stopOffset_eq_iff {rs : List Record} {k m : Nat} (hk : k ≤ rs.length) :
    stopOffset rs k = (logText (rs.take m)).length ↔
      rs.take k = rs.take m ∧ ∀ r ∈ (rs.take k).getLast?, r.line.length ≤ packLineSize - 1 := by
  cases k with
  | zero =>
    simp only [stopOffset, List.take_zero, List.getLast?_nil, Option.mem_def, reduceCtorEq, false_implies, implies_true,
      and_true]
    exact ⟨fun h => take_eq_take_of_length (Nat.zero_le m) h, fun h => by rw [← h]; rfl⟩
  | succ k =>
    have hlt : k < rs.length := hk
    have htake : rs.take (k + 1) = rs.take k ++ [rs[k]] := (List.take_append_getElem hlt).symm
    have hlen : (logText (rs.take (k + 1))).length = (logText (rs.take k)).length + rs[k].line.length := by
      rw [htake, logText_append, List.length_append, logText_cons, logText_nil, List.append_nil]
    have hpos := List.length_pos_iff.mpr rs[k].line_ne_nil
    have hlast : (rs.take (k + 1)).getLast? = some rs[k] := by rw [htake, List.getLast?_concat]
    rw [hlast, stopOffset, List.getElem?_eq_getElem hlt, Option.map_some, Option.getD_some]
    simp only [Option.mem_def, Option.some.injEq, forall_eq', packLineSize]
    constructor
    · intro h
      have hm : k + 1 ≤ m := by
        refine Nat.lt_of_not_le fun hm => ?_
        have := length_logText_take_le rs hm
        omega
      have := length_logText_take_le rs hm
      exact ⟨take_eq_take_of_length hm (by omega), by omega⟩
    · intro hsame
      obtain ⟨h, hfit⟩ := hsame
      rw [← h, hlen, Nat.min_eq_left hfit]

theorem accept_le_length {cap used : Nat} {items : List (Option Nat)} {k : Nat} (h : accept cap used items = some k) :
    k ≤ items.length := by
  induction items generalizing used k with
  | nil => cases h; exact Nat.le_refl _
  | cons item items ih =>
    cases item with
    | none => cases h
    | some size =>
      simp only [accept] at h
      split at h
      · obtain ⟨j, hj, rfl⟩ := Option.map_eq_some_iff.mp h
        have := ih hj
        simp only [List.length_cons]
        split <;> omega
      · split at h
        · cases h; exact Nat.zero_le _
        · obtain ⟨j, hj, rfl⟩ := Option.map_eq_some_iff.mp h
          exact Nat.succ_le_succ (ih hj)

theorem batch_le_length {cap n : Nat} {pending : Fin n → List Record} {es : List (List UInt8)} {ks : Fin n → Nat}
    (h : batch cap pending = some (es, ks)) (i : Fin n) : ks i ≤ (pending i).length := by
  refine (threadFin_collect id (fun i k => shownEntries ((pending i).take k)) (fun i k => k ≤ (pending i).length)
    (fun i e s' k hi => ?_) (e := []) h).2 i
  simp only [Option.map_eq_some_iff, Prod.mk.injEq] at hi
  obtain ⟨_, hk, rfl, rfl⟩ := hi
  exact ⟨rfl, by simpa using accept_le_length hk⟩

/-- The entries shown cost no more than the messages, and as much just when
they are the messages. -/
theorem hexCost_shownEntries (rs : List Record) :
    hexCost (shownEntries rs) ≤ hexCost (recordEntries rs) ∧
    (hexCost (shownEntries rs) = hexCost (recordEntries rs) → ∀ r ∈ rs, 2 ≤ r.payload.length → shown r = r.payload) := by
  induction rs with
  | nil => exact ⟨Nat.le_refl _, by simp⟩
  | cons r rs ih =>
    obtain ⟨hle, heq⟩ := ih
    have hh := headerLength_le r
    have hlen := length_shown r
    have hrec : hexCost (recordEntries (r :: rs)) =
        (if 2 ≤ r.payload.length then 2 * r.payload.length + 1 else 0) + hexCost (recordEntries rs) := by
      by_cases h2 : 2 ≤ r.payload.length <;> simp [recordEntries, h2]
    have hshow : hexCost (shownEntries (r :: rs)) =
        (if 2 ≤ (shown r).length then 2 * (shown r).length + 1 else 0) + hexCost (shownEntries rs) := by
      rw [shownEntries_cons]
      by_cases h2 : 2 ≤ (shown r).length <;> simp [h2]
    have hiff : 2 ≤ (shown r).length ↔ 2 ≤ r.payload.length := by
      simp only [packLineSize] at hlen
      omega
    simp only [hrec, hshow, hiff]
    refine ⟨by split <;> omega, fun h => List.forall_mem_cons.mpr ⟨fun h2 => ?_, ?_⟩⟩
    · rw [if_pos h2, if_pos h2] at h
      rw [shown, List.take_of_length_le]
      simp only [packLineSize] at hlen ⊢
      omega
    · refine heq ?_
      split at h <;> omega

/-- `pack_data_from_files` has packed whole messages: from the line numbers
`start` to line numbers `stop`, all with at least two bytes. -/
def PackedWhole {n : Nat} (recs : Fin n → List Record) (start : Fin n → Nat) (b : HexBatch) (offsets : Fin n → Nat) :
    Prop :=
  ∃ stop : Fin n → Nat, (∀ i, start i ≤ stop i ∧ offsets i = lineStart (recs i) (stop i)) ∧
    b.hexBuf = joinHex ((List.finRange n).flatMap fun i => recordEntries (((recs i).take (stop i)).drop (start i))) ∧
    b.entryCount = ((List.finRange n).flatMap fun i => recordEntries (((recs i).take (stop i)).drop (start i))).length

theorem recordEntries_flatMap {n : Nat} (f : Fin n → List Record) :
    recordEntries ((List.finRange n).flatMap f) = (List.finRange n).flatMap fun i => recordEntries (f i) := by
  rw [recordEntries, List.map_flatMap, List.filter_flatMap]
  rfl

theorem take_drop_eq (rs : List Record) (start k : Nat) :
    (rs.take (start + k)).drop start = (rs.drop start).take k := by
  rw [List.drop_take, Nat.add_sub_cancel_left]

theorem lineStart_add (rs : List Record) (start k : Nat) :
    lineStart rs (start + k) = lineStart rs start + (logText ((rs.drop start).take k)).length := by
  rw [lineStart, List.take_add, logText_append, List.length_append]
  rfl

/-- The entries of `pack_data_from_files` are whole messages, and it stops at the
start of a line, just when the lines it takes with an entry have at most two
characters more than the 511 its reader reads, and the last line of each log
has no more than these. -/
theorem packDataFromFiles_whole_iff {n : Nat} {files : Fin n → Option (List Char)} {recs : Fin n → List Record}
    (hfiles : ∀ i, Holds (files i) (recs i)) (start : Fin n → Nat) (cap : Nat) :
    (∃ b offsets, packDataFromFiles files (fun i => lineStart (recs i) (start i)) cap = some (b, offsets) ∧
      PackedWhole recs start b offsets) ↔
    ∃ es ks, (batch cap fun i => (recs i).drop (start i)) = some (es, ks) ∧
      ∀ i, (∀ r ∈ ((recs i).drop (start i)).take (ks i), 2 ≤ r.payload.length → r.line.length ≤ 513) ∧
        ∀ r ∈ (((recs i).drop (start i)).take (ks i)).getLast?, r.line.length ≤ 511 := by
  rw [packDataFromFiles_records hfiles]
  constructor
  · intro hpacked
    obtain ⟨b, offsets, hb, stop, hstop, hhex, hcount⟩ := hpacked
    obtain ⟨⟨es, ks⟩, hbatch, hpair⟩ := Option.map_eq_some_iff.mp hb
    obtain ⟨rfl, rfl⟩ := Prod.mk.inj hpair
    -- The offsets say which records were taken, the text that they were shown whole.
    have htake : ∀ i, ((recs i).drop (start i)).take (ks i) = ((recs i).drop (start i)).take (stop i - start i) ∧
        ∀ r ∈ (((recs i).drop (start i)).take (ks i)).getLast?, r.line.length ≤ packLineSize - 1 := by
      intro i
      refine (stopOffset_eq_iff (batch_le_length hbatch i)).mp ?_
      obtain ⟨hle, hoff⟩ := hstop i
      rw [← Nat.add_sub_cancel' hle, lineStart_add] at hoff
      exact Nat.add_left_cancel hoff
    have hsame : ((List.finRange n).flatMap fun i => recordEntries (((recs i).take (stop i)).drop (start i))) =
        recordEntries ((List.finRange n).flatMap fun i => ((recs i).drop (start i)).take (ks i)) := by
      rw [recordEntries_flatMap]
      refine List.flatMap_congr fun i _ => ?_
      rw [(htake i).1, List.drop_take]
    have hcost : hexCost es = hexCost (recordEntries ((List.finRange n).flatMap fun i =>
        ((recs i).drop (start i)).take (ks i))) := by
      rw [hexCost_eq, hexCost_eq, ← hsame, ← hhex, ← hcount]
      rfl
    have hwhole := (hexCost_shownEntries _).2 (batch_eq hbatch ▸ hcost)
    refine ⟨es, ks, hbatch, fun i => ⟨fun r hr h2 => ?_, (htake i).2⟩⟩
    exact (shown_eq_payload_iff r).mp (hwhole r (List.mem_flatMap.mpr ⟨i, List.mem_finRange i, hr⟩) h2)
  · intro haccepted
    obtain ⟨es, ks, hbatch, hfit⟩ := haccepted
    have hshown : ∀ i, ∀ r ∈ ((recs i).drop (start i)).take (ks i), shown r = r.payload := by
      intro i r hr
      rw [shown_eq_payload_iff]
      by_cases h2 : 2 ≤ r.payload.length
      · exact (hfit i).1 r hr h2
      · have hh := headerLength_le r
        have hlen := r.length_line
        simp only [packLineSize]
        omega
    have hentries : es = (List.finRange n).flatMap fun i =>
        recordEntries (((recs i).take (start i + ks i)).drop (start i)) := by
      rw [batch_eq hbatch, shownEntries, List.map_flatMap, List.filter_flatMap]
      refine List.flatMap_congr fun i _ => ?_
      rw [take_drop_eq, recordEntries, List.map_congr_left (hshown i)]
    rw [hbatch, Option.map_some]
    refine ⟨_, _, rfl, fun i => start i + ks i, fun i => ⟨Nat.le_add_right _ _, ?_⟩, ?_, ?_⟩
    · rw [lineStart_add]
      exact congrArg (_ + ·) ((stopOffset_eq_iff (batch_le_length hbatch i)).mpr ⟨rfl, (hfit i).2⟩)
    · exact congrArg joinHex hentries
    · exact congrArg List.length hentries

/-- A message of 256 bytes. -/
def longest : Record := zeros 256 1 (by decide) (by decide)

theorem length_line_longest : longest.line.length = 801 := length_line_zeros _ _ _ _ (by decide)

theorem headerLength_longest : headerLength longest = 32 := by
  have := longest.length_line
  rw [length_line_longest, longest, payload_zeros, List.length_replicate] at this
  rw [longest]
  omega

theorem shown_longest : shown longest = List.replicate 160 0 := by
  rw [shown, headerLength_longest, longest, payload_zeros, List.take_replicate]
  rfl

/-- The first piece of the longest message's line has 160 of its bytes. -/
theorem packDataFromFiles_longest :
    packDataFromFiles (fun i => some (logText (firstLog [longest] i))) (fun _ => 0) egMaxHexLen =
      some (batchOf [List.replicate 160 0], fun i => if i = 0 then 511 else 0) := by
  have hfiles : ∀ i, Holds (some (logText (firstLog [longest] i))) (firstLog [longest] i) := fun _ => .inl rfl
  have hsize : shownSize longest = some 160 := by
    rw [shownSize, if_neg (fun hc => absurd hc.2 (by rw [headerLength_longest]; decide)), shown_longest,
      List.length_replicate]
  have hbatch : batch egMaxHexLen (firstLog [longest]) =
      some ([List.replicate 160 0], fun i => if i = 0 then 1 else 0) := by
    rw [batch_firstLog, List.map_singleton, hsize, show accept egMaxHexLen 0 [some 160] = some 1 by decide,
      Option.map_some, List.take_succ_cons, List.take_zero, shownEntries, List.map_singleton, shown_longest,
      List.filter_cons_of_pos (by rw [List.length_replicate]; decide), List.filter_nil]
  have h := packDataFromFiles_records hfiles (fun _ => 0) egMaxHexLen
  simp only [lineStart_zero, List.drop_zero, hbatch, Option.map_some] at h
  rw [h]
  refine congrArg (fun f => some (_, f)) (funext fun i => ?_)
  by_cases hi : i = 0
  · simp [hi, stopOffset, firstLog, length_line_longest, packLineSize]
  · simp [hi, stopOffset]

/-- Those bytes are no message, and 511 is not the start of a line. -/
theorem packDataFromFiles_longest_torn :
    ¬ ∃ b offsets, packDataFromFiles (fun i => some (logText (firstLog [longest] i))) (fun _ => 0) egMaxHexLen =
        some (b, offsets) ∧ PackedWhole (firstLog [longest]) (fun _ => 0) b offsets := by
  intro hpacked
  obtain ⟨b, offsets, hb, stop, hstop, -⟩ := hpacked
  rw [packDataFromFiles_longest] at hb
  obtain ⟨-, rfl⟩ := Prod.mk.inj (Option.some.inj hb)
  have h : 511 = lineStart [longest] (stop 0) := (hstop 0).2
  cases hk : stop 0 with
  | zero => simp [hk] at h
  | succ k =>
    rw [hk, lineStart, List.take_succ_cons, List.take_nil, logText_cons, logText_nil, List.append_nil,
      length_line_longest] at h
    exact absurd h (by decide)

theorem packDataFromFiles_whole_iff_two :
    ∃ b offsets, packDataFromFiles (fun i => some (logText (threeLog i))) (fun i => lineStart (threeLog i) 1)
        egMaxHexLen = some (b, offsets) ∧
      PackedWhole threeLog (fun _ => 1) b offsets := by
  refine (packDataFromFiles_whole_iff (fun _ => .inl rfl) (fun _ => 1) egMaxHexLen).mpr ?_
  exact ⟨_, _, batch_threeLog, by decide +kernel⟩

end Dtu
