import Dtu.Proof.Window

/-!
# Sending over BeiDou first

`MAIN_ST_IDLE` goes straight to `MAIN_ST_TRY_BD` when the send path is
`SEND_PATH_BD_ONLY` or `SEND_PATH_BD_FIRST`, though it opens no window. If one is
open, `MAIN_ST_TRY_BD` packs an entry of it and does not go back to
`MAIN_ST_IDLE` without having tried to send (`mainSend_bdPath`).
-/

namespace Dtu

open Stdio Loop

/-- A packer with an empty batch that passes over lines without packing one has
found no entry in them, if each would have fitted. -/
theorem packUntil_empty {cap rawBufSize endOffset : Nat} {ws rest : List (List Char)} {pos pending stop : Nat}
    (hne : ∀ line ∈ ws, line ≠ []) (hend : pos + ws.flatten.length ≤ endOffset)
    (hfit : ∀ e ∈ ws.filterMap entryOf, 2 * e.length ≤ cap ∧ e.length ≤ rawBufSize)
    (h : packUntil cap rawBufSize endOffset (ws ++ rest) pos pending (untilOf []) = some (untilOf [], stop)) :
    ws.filterMap entryOf = [] := by
  induction ws generalizing pos pending with
  | nil => rfl
  | cons line ws ih =>
    obtain ⟨hline, hne⟩ := List.forall_mem_cons.mp hne
    have hpos := List.length_pos_iff.mpr hline
    rw [List.flatten_cons, List.length_append] at hend
    rw [List.cons_append, packUntil, if_neg (by omega), if_neg (by omega)] at h
    cases hp : parseLogLine (cstr line) 256 with
    | none => simp [hp] at h
    | some raw =>
      have hent := entryOf_eq hp
      simp only [hp] at h
      by_cases hshort : raw.length < 2
      · rw [if_pos hshort] at h hent
        rw [List.filterMap_cons_none hent] at hfit ⊢
        exact ih hne (by omega) hfit h
      · rw [if_neg hshort] at h hent
        rw [List.filterMap_cons_some hent] at hfit
        obtain ⟨⟨hhex, hraw⟩, -⟩ := List.forall_mem_cons.mp hfit
        have hcost : hexCost [] + 2 * raw.length ≤ cap := by rwa [hexCost_nil, Nat.zero_add]
        rw [if_neg (by simpa [untilOf, joinHex] using hhex), if_neg (by simpa [untilOf, joinRaw] using hraw),
          untilOf_add hcost] at h
        obtain ⟨k, hb, -⟩ := packUntil_some (by omega) h
        have hcount := congrArg UntilBatch.entryCount hb
        simp only [untilOf, List.length_append, List.length_singleton, List.length_nil] at hcount
        omega

/-- `packed_raw_len` stays within the buffer. -/
theorem packUntil_fits {cap rawBufSize endOffset : Nat} {lines : List (List Char)} {pos pending stop : Nat}
    {b b' : UntilBatch} (hb : b.packedRawLen ≤ rawBufSize)
    (h : packUntil cap rawBufSize endOffset lines pos pending b = some (b', stop)) : b'.packedRawLen ≤ rawBufSize := by
  induction lines generalizing pos pending b with
  | nil =>
    cases h
    exact hb
  | cons line lines ih =>
    rw [packUntil] at h
    split at h
    · cases h
      exact hb
    split at h
    · cases h
      exact hb
    split at h
    · cases h
    rename_i raw hraw
    have hadd : (b.add cap raw).packedRawLen = b.packedRawLen + (if 0 < b.entryCount then 1 else 0) + raw.length :=
      (Nat.add_assoc _ _ _).symm
    generalize (if 0 < b.entryCount then 1 else 0) = comma at h hadd
    simp only at h
    split at h
    · exact ih hb h
    split at h
    · cases h
      exact hb
    split at h
    · cases h
      exact hb
    · exact ih (by omega) h

/-- `main_pack_pending_until` returns 0. -/
theorem mainPackPendingUntil_ret {n : Nat} {files : Fin n → Option (List Char)} {offsets endOffsets : Fin n → Nat}
    {cap rawBufSize : Nat} (hm : 0 < rawBufSize) {r : PackResult n}
    (h : mainPackPendingUntil files offsets endOffsets cap rawBufSize = some r) : r.ret = 0 := by
  simp only [mainPackPendingUntil, Option.map_eq_some_iff, Prod.exists] at h
  obtain ⟨b, pending, hp, rfl⟩ := h
  have hfits : b.packedRawLen ≤ rawBufSize := by
    refine threadFin_invariant (fun b => b.packedRawLen ≤ rawBufSize) (fun i b b' stop hb hi => ?_) (Nat.zero_le _) hp
    unfold packUntilFile at hi
    split at hi
    · cases hi
      exact hb
    split at hi
    · cases hi
      exact hb
    · exact packUntil_fits hb hi
  obtain ⟨rfl, -⟩ := threadFin_collect untilOf
    (fun i stop => entriesBetween untilLineSize (files i) (offsets i) stop) (fun _ _ => True)
    (fun i es b' stop hi => ⟨(packUntilFile_some hi).1, trivial⟩) (e := []) hp
  show (finishPack pending (joinHex (windowEntries untilLineSize files offsets pending))
    (windowEntries untilLineSize files offsets pending).length rawBufSize).ret = 0
  have hlen : (joinRaw (windowEntries untilLineSize files offsets pending)).length ≤ rawBufSize := hfits
  rw [finishPack_eq pending ne_nil_of_mem_windowEntries hm, if_pos hlen]

/-- A turn for a file with a window that packs nothing: there was no entry in it, if
each would have fitted. -/
theorem packUntilFile_empty {file : Option (List Char)} {offset endOffset cap rawBufSize stop : Nat}
    (h : packUntilFile file offset endOffset cap rawBufSize (untilOf []) = some (untilOf [], stop))
    (hlt : offset < endOffset) (hline : AtLine (file.getD []) endOffset)
    (hfit : ∀ e ∈ entriesBetween untilLineSize file offset endOffset, 2 * e.length ≤ cap ∧ e.length ≤ rawBufSize) :
    entriesBetween untilLineSize file offset endOffset = [] := by
  cases file with
  | none => exact entriesBetween_none _ _ _
  | some content =>
    have hpieces : fgetsAll untilLineSize (content.drop offset) = _ :=
      hline.fgetsAll_drop (by decide) (Nat.le_of_lt hlt)
    rw [packUntilFile, if_neg (by omega), hpieces] at h
    refine packUntil_empty (fun line hmem => ne_nil_of_mem_fgetsAll (by decide) hmem) ?_ hfit h
    rw [fgetsAll_flatten (by decide), length_slice hline.1]
    omega

/-- `main_pack_pending_until` packs something of a window with an entry in it, if
each entry would fit. -/
theorem mainPackPendingUntil_entry {n : Nat} {files : Fin n → Option (List Char)} {offsets endOffsets : Fin n → Nat}
    {cap rawBufSize : Nat} {r : PackResult n} (hm : 0 < rawBufSize)
    (h : mainPackPendingUntil files offsets endOffsets cap rawBufSize = some r) {i : Fin n}
    (hlt : offsets i < endOffsets i) (hline : AtLine ((files i).getD []) (endOffsets i))
    (hentry : entriesBetween untilLineSize (files i) (offsets i) (endOffsets i) ≠ [])
    (hfit : ∀ e ∈ entriesBetween untilLineSize (files i) (offsets i) (endOffsets i),
      2 * e.length ≤ cap ∧ e.length ≤ rawBufSize) : 0 < r.entryCount := by
  have hcount := (mainPackPendingUntil_window hm h).1.count
  simp only [mainPackPendingUntil, Option.map_eq_some_iff, Prod.exists] at h
  obtain ⟨b, pending, hp, rfl⟩ := h
  rw [finishPack_pendingOffsets] at hcount
  refine Nat.pos_of_ne_zero fun hzero => hentry ?_
  have hnil : windowEntries untilLineSize files offsets pending = [] := List.eq_nil_of_length_eq_zero (hcount ▸ hzero)
  -- No turn has packed anything, so each has started without a batch.
  obtain ⟨-, hturn⟩ := threadFin_collect_from untilOf
    (fun i stop => entriesBetween untilLineSize (files i) (offsets i) stop)
    (fun i es stop => packUntilFile (files i) (offsets i) (endOffsets i) cap rawBufSize (untilOf es) =
      some (untilOf (es ++ entriesBetween untilLineSize (files i) (offsets i) stop), stop))
    (fun i es b' stop hi => ⟨(packUntilFile_some hi).1, (packUntilFile_some hi).1 ▸ hi⟩) (e := []) hp
  obtain ⟨es, hprefix, hi⟩ := hturn i
  change es <+: windowEntries untilLineSize files offsets pending at hprefix
  rw [hnil, List.prefix_nil] at hprefix
  subst hprefix
  have hstop : entriesBetween untilLineSize (files i) (offsets i) (pending i) = [] :=
    List.flatMap_eq_nil_iff.mp hnil i (List.mem_finRange i)
  rw [hstop] at hi
  exact packUntilFile_empty hi hlt hline hfit

/-! ## From `MAIN_ST_IDLE` to `MAIN_ST_TRY_BD` -/

/-- The entries up to the end of a file are those before a line and those behind it. -/
theorem AtLine.entriesBetween {size : Nat} (hsize : 1 < size) {file : Option (List Char)} {start stop : Nat}
    (h : AtLine (file.getD []) stop) (hle : start ≤ stop) :
    entriesBetween size file start (file.getD []).length =
      Dtu.entriesBetween size file start stop ++ (fgetsAll size ((file.getD []).drop stop)).filterMap entryOf := by
  rw [Dtu.entriesBetween, Dtu.slice, List.take_length, h.fgetsAll_drop hsize hle, List.filterMap_append]
  rfl

/-- The window has only entries that fit a segment. -/
def MainSend.SmallWindow (s : MainSend) : Prop :=
  ∀ i, ∀ e ∈ entriesBetween untilLineSize (s.disk.logs i) (s.offsets i) (s.bdBatchEndOffsets i), e.length ≤ bdMaxRawLen

theorem MainSend.SmallWindow.append {s s' : MainSend} (h : s.SmallWindow) (hwindow : s.Window)
    {appended : Fin mainPathCount → List Record} (hkept : s.Kept s')
    (hlogs : s'.disk.logs = (s.disk.append appended).logs) : s'.SmallWindow := by
  intro i e he
  have hstop := (hwindow.atLine i).1
  rw [hlogs, hkept.offsets, hkept.endOffsets, entriesBetween, s.disk.getD_append, slice_append (by omega)] at he
  exact h i e he

/-- `MAIN_ST_TRY_BD` packs something of a window, if the entries in it fit a segment. -/
theorem MainSend.Window.packs {s : MainSend} (h : s.Window) (hsmall : s.SmallWindow) {r : PackResult mainPathCount}
    (hr : mainPackPendingUntil s.disk.logs s.offsets s.bdBatchEndOffsets bdMaxHexLen bdMaxRawLen = some r) :
    r.ret = 0 ∧ 0 < r.entryCount := by
  obtain ⟨i, hlt⟩ := h.moves
  refine ⟨mainPackPendingUntil_ret (by decide) hr, mainPackPendingUntil_entry (by decide) hr hlt (h.atLine i)
    (h.lastEntry i hlt).entriesBetween fun e he => ?_⟩
  have hle := hsmall i e he
  simp only [bdMaxHexLen]
  omega

/-- With something packed, `MAIN_ST_TRY_BD` goes back to `MAIN_ST_IDLE` only with a
commit. -/
theorem MainSend.tryBd_attempts {s s' : MainSend} {t : Turn} {c : Option Commit} {r : PackResult mainPathCount}
    (hr : mainPackPendingUntil s.disk.logs s.offsets s.bdBatchEndOffsets bdMaxHexLen bdMaxRawLen = some r)
    (hret : r.ret = 0) (hcount : 0 < r.entryCount) (h : s.tryBd t = some (s', c)) (hidle : s'.state = .idle) :
    c ≠ none := by
  have hfail : ∀ s₁ : MainSend, s₁.failBd.state ≠ .idle := fun s₁ => by
    rcases s₁.failBd_state with hst | hst <;> simp [hst]
  simp only [MainSend.tryBd, hr, Option.map_some, Option.some.injEq, hret, ne_eq, not_true, if_false,
    if_neg (Nat.ne_of_gt hcount)] at h
  split at h
  · cases h
    cases hidle
  split at h
  · cases h
    exact absurd hidle (hfail _)
  split at h
  · cases h
    exact absurd hidle (hfail _)
  split at h
  · cases h
    exact absurd hidle (hfail _)
  split at h
  · cases h
    exact Option.some_ne_none _
  · cases h
    exact Option.some_ne_none _

/-- In every run as for `mainSend_window`: if `MAIN_ST_IDLE` goes to
`MAIN_ST_TRY_BD` while a window is open and each pending entry fits a segment,
`MAIN_ST_TRY_BD`, whatever is appended before it, packs an entry, and it does not
go back to `MAIN_ST_IDLE` without a commit. -/
theorem mainSend_bdPath {disk : Disk} {s s₁ s₂ s₃ : MainSend} {t t₂ : Turn} {c : Option Commit}
    (hrun : Runs MainSend.step MainSend.BatchInTurn (MainSend.boot disk) s) (hst : s.state = .idle)
    (hmesh : t.meshNode = false) (hidle : s.step (.turn t) = some (s₁, none)) (hst₁ : s₁.state = .tryBd)
    (hactive : s.bdBatchActive = true)
    (hsmall : ∀ i, ∀ e ∈ entriesBetween untilLineSize (s.disk.logs i) (s.offsets i) ((s.disk.logs i).getD []).length,
      e.length ≤ bdMaxRawLen)
    (happend : Runs MainSend.step (fun _ a => ∃ appended, a = .append appended) s₁ s₂)
    (hmesh₂ : t₂.meshNode = false) (htry : s₂.step (.turn t₂) = some (s₃, c)) :
    ∃ r, mainPackPendingUntil s₂.disk.logs s₂.offsets s₂.bdBatchEndOffsets bdMaxHexLen bdMaxRawLen = some r ∧
      r.ret = 0 ∧ 0 < r.entryCount ∧ (s₃.state = .idle → c ≠ none) := by
  have hwindow := mainSend_batch hrun hactive
  have hsmallWindow : s.SmallWindow := fun i e he => hsmall i e (by
    rw [(hwindow.atLine i).entriesBetween (by decide) (hwindow.forward i)]
    exact List.mem_append_left _ he)
  have happended : ∃ appended, s.Kept s₁ ∧ s₁.disk.logs = (s.disk.append appended).logs := by
    cases MainSend.turned hidle with
    | node hnode => rw [hmesh] at hnode; cases hnode
    | packed _ _ _ hkept hdisk => exact ⟨fun _ => [], hkept, by rw [hdisk, s.disk.append_nil]⟩
    | waited appended _ hkept hdisk => exact ⟨appended, hkept, by rw [hdisk]⟩
    | opened _ hst' => rw [hst] at hst'; cases hst'
  obtain ⟨appended, hkept, hlogs⟩ := happended
  have hready : s₂.state = .tryBd ∧ s₂.Window ∧ s₂.SmallWindow := by
    refine happend.invariant (I := fun s => s.state = .tryBd ∧ s.Window ∧ s.SmallWindow)
      ⟨hst₁, hwindow.append hkept hlogs, hsmallWindow.append hwindow hkept hlogs⟩ ?_
    rintro s _ s' _ ⟨hst, hwindow, hsmall⟩ ⟨appended, rfl⟩ hstep
    cases hstep
    exact ⟨hst, hwindow.append ⟨rfl, rfl, rfl⟩ rfl, hsmall.append hwindow ⟨rfl, rfl, rfl⟩ rfl⟩
  obtain ⟨hst₂, hwindow₂, hsmall₂⟩ := hready
  have htry' : s₂.tryBd t₂ = some (s₃, c) := by
    simpa only [MainSend.step, MainSend.turn, hmesh₂, hst₂, Bool.false_eq_true, if_false] using htry
  obtain ⟨r, hr, -⟩ := Option.map_eq_some_iff.mp htry'
  obtain ⟨hret, hcount⟩ := hwindow₂.packs hsmall₂ hr
  exact ⟨r, hr, hret, hcount, MainSend.tryBd_attempts hr hret hcount htry'⟩

/-- An iteration with `SEND_PATH_BD_ONLY`. -/
def Turn.onlyBd : Turn := { Turn.gateway with sendPath := .onlyBd }

/-- From a fresh start no window is open, and the iterations go in a circle: the
message is pending in `MAIN_ST_IDLE`, nothing is packed in `MAIN_ST_TRY_BD`. -/
theorem mainSend_bdPath_circle :
    ∃ s s₁ s₂, Runs MainSend.step (fun _ _ => True) (MainSend.boot Disk.blank) s ∧ s.state = .idle ∧
      s.step (.turn Turn.onlyBd) = some (s₁, none) ∧ s₁.state = .tryBd ∧
      windowEntries untilLineSize s.disk.logs s.offsets (fun i => ((s.disk.logs i).getD []).length) = [[0, 0]] ∧
      (mainPackPendingUntil s₁.disk.logs s₁.offsets s₁.bdBatchEndOffsets bdMaxHexLen bdMaxRawLen).map (·.entryCount) =
        some 0 ∧
      s₁.step (.turn Turn.onlyBd) = some (s₂, none) ∧ s₂.state = .idle ∧ ∀ i, s₂.offsets i = s.offsets i := by
  have h : ((runList MainSend.step (fun _ _ => true) (MainSend.boot Disk.blank) (overtakenRun.take 1)).bind fun s =>
      (s.turn Turn.onlyBd).bind fun r => (r.1.turn Turn.onlyBd).map fun r' =>
        decide (s.state = .idle ∧ r.2.isNone ∧ r.1.state = .tryBd ∧
          windowEntries untilLineSize s.disk.logs s.offsets (fun i => ((s.disk.logs i).getD []).length) = [[0, 0]] ∧
          (mainPackPendingUntil r.1.disk.logs r.1.offsets r.1.bdBatchEndOffsets bdMaxHexLen bdMaxRawLen).map
            (·.entryCount) = some 0 ∧
          r'.2.isNone ∧ r'.1.state = .idle ∧ ∀ i, r'.1.offsets i = s.offsets i)) = some true := by
    decide +kernel
  obtain ⟨s, hs, h⟩ := Option.bind_eq_some_iff.mp h
  obtain ⟨⟨s₁, c₁⟩, hidle, h⟩ := Option.bind_eq_some_iff.mp h
  obtain ⟨⟨s₂, c₂⟩, htry, h⟩ := Option.map_eq_some_iff.mp h
  obtain ⟨hst, hc₁, hst₁, hpending, hpacked, hc₂, hst₂, hoffsets⟩ := of_decide_eq_true h
  obtain rfl : c₁ = none := Option.isNone_iff_eq_none.mp hc₁
  obtain rfl : c₂ = none := Option.isNone_iff_eq_none.mp hc₂
  exact ⟨s, s₁, s₂, .of_runList (fun _ _ _ => trivial) .start hs, hst, hidle, hst₁, hpending, hpacked, htry,
    hst₂, hoffsets⟩

theorem mainSend_bdPath_two :
    ∃ (s₁ : MainSend) (r : PackResult mainPathCount), s₁.state = .tryBd ∧
      mainPackPendingUntil s₁.disk.logs s₁.offsets s₁.bdBatchEndOffsets bdMaxHexLen bdMaxRawLen = some r ∧
      0 < r.entryCount := by
  have h : ((runList MainSend.step Action.onFirst (MainSend.boot Disk.blank) (overtakenRun.take 9)).bind fun s =>
      (s.turn Turn.onlyBd).bind fun r => (r.1.turn Turn.onlyBd).map fun _ =>
        decide (s.state = .idle ∧ r.2.isNone ∧ r.1.state = .tryBd ∧ s.bdBatchActive = true ∧
          ∀ i, ∀ e ∈ entriesBetween untilLineSize (s.disk.logs i) (s.offsets i) ((s.disk.logs i).getD []).length,
            e.length ≤ bdMaxRawLen)) = some true := by
    decide +kernel
  obtain ⟨s, hs, h⟩ := Option.bind_eq_some_iff.mp h
  obtain ⟨⟨s₁, c₁⟩, hidle, h⟩ := Option.bind_eq_some_iff.mp h
  obtain ⟨⟨s₂, c₂⟩, htry, h⟩ := Option.map_eq_some_iff.mp h
  obtain ⟨hst, hc₁, hst₁, hactive, hsmall⟩ := of_decide_eq_true h
  obtain rfl : c₁ = none := Option.isNone_iff_eq_none.mp hc₁
  obtain ⟨r, hr, -, hcount, -⟩ := mainSend_bdPath (.of_runList Action.onFirst_inTurn .start hs) hst rfl hidle
    hst₁ hactive hsmall .start rfl htry
  exact ⟨s₁, r, hst₁, hr, hcount⟩

end Dtu
