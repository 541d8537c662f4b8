import Dtu.Proof.MainSend

/-!
# The window of a BeiDou batch

`MAIN_ST_TRY_4G` opens a window when it fails: `bd_batch_end_offsets`, up to which
`MAIN_ST_TRY_BD` then sends segments. As long as no payload is sent over 4G and
no iteration is one as a node while it is open, it goes from the offsets to the
start of a line of each log, and there is an entry in it (`mainSend_window`).
-/

namespace Dtu

open Stdio Loop

/-! ## Lines -/

theorem AtLine.append {content : List Char} {offset : Nat} (h : AtLine content offset) (t : List Char) :
    AtLine (content ++ t) offset := by
  rw [AtLine, List.take_append_of_le_length h.1, List.length_append]
  exact ⟨Nat.le_add_right_of_le h.1, h.2⟩

/-- What lies between an offset and a line behind it ends with a newline. -/
theorem AtLine.slice {content : List Char} {start stop : Nat} (h : AtLine content stop) :
    slice content start stop = [] ∨ (slice content start stop).getLast? = some '\n' := by
  by_cases hnil : Dtu.slice content start stop = []
  · exact .inl hnil
  · refine .inr ?_
    have hlen : ¬(content.take stop).length ≤ start := fun hle => hnil (List.drop_of_length_le hle)
    rw [Dtu.slice, List.getLast?_drop, if_neg hlen]
    refine h.2.resolve_left fun htake => hlen ?_
    rw [htake]
    exact Nat.zero_le _

theorem slice_append_drop {content : List Char} {start stop : Nat} (hle : start ≤ stop) (hstop : stop ≤ content.length) :
    slice content start stop ++ content.drop stop = content.drop start := by
  conv_rhs => rw [← List.take_append_drop stop content]
  rw [List.drop_append_of_le_length (by rw [List.length_take]; omega), slice]

theorem length_slice {content : List Char} {start stop : Nat} (hstop : stop ≤ content.length) :
    (slice content start stop).length = stop - start := by
  rw [slice, List.length_drop, List.length_take, Nat.min_eq_left hstop]

/-- A reader finds what lies before a line, and then what lies behind it. -/
theorem AtLine.fgetsAll_drop {size : Nat} (hsize : 1 < size) {content : List Char} {start stop : Nat}
    (h : AtLine content stop) (hle : start ≤ stop) :
    fgetsAll size (content.drop start) =
      fgetsAll size (Dtu.slice content start stop) ++ fgetsAll size (content.drop stop) := by
  rw [← slice_append_drop hle h.1, fgetsAll_append hsize h.slice]

/-- The line that ends at an offset is one. -/
theorem EndsInLine.atLine {content : List Char} {start stop : Nat} (h : EndsInLine content start stop)
    (hle : start ≤ stop) (hstop : stop ≤ max start content.length) : AtLine content stop := by
  unfold EndsInLine at h
  split at h
  · rename_i hnil
    have hlen := congrArg List.length hnil
    have hstart := h.1
    rw [length_slice (by omega), List.length_nil] at hlen
    rwa [show stop = start by omega]
  · rename_i hne
    obtain ⟨front, line, hslice, -⟩ := h
    have hlt : start < content.length := Nat.lt_of_not_le fun hge => hne (slice_of_le content (by omega))
    refine ⟨by omega, .inr ?_⟩
    have hlast : (slice content start stop).getLast? = some '\n' := by
      rw [hslice, ← List.append_assoc, List.getLast?_concat]
    rw [slice, List.getLast?_drop] at hlast
    split at hlast
    · cases hlast
    · exact hlast

/-- The larger buffer reads the last line like the smaller one. -/
theorem EndsInLine.lastEntry {content : List Char} {start stop : Nat} (h : EndsInLine content start stop)
    (hlast : LastEntry packLineSize content start stop) : LastEntry untilLineSize content start stop := by
  obtain ⟨cs, last, hpieces, hentry⟩ := hlast
  unfold EndsInLine at h
  split at h
  · rename_i hnil
    rw [hnil, fgetsAll_nil] at hpieces
    exact absurd hpieces (by simp)
  · obtain ⟨front, line, hslice, hfront, hline, hfit⟩ := h
    have hread : ∀ size, packLineSize ≤ size →
        fgetsAll size (slice content start stop) = fgetsAll size front ++ [line ++ ['\n']] := fun size hsize => by
      have hone : 1 < size := Nat.lt_of_lt_of_le (by decide) hsize
      rw [hslice, fgetsAll_append hone hfront, fgetsAll_singleton hline (by omega)]
    rw [hread packLineSize (Nat.le_refl _)] at hpieces
    have hsame : line ++ ['\n'] = last := by simpa using (List.append_inj_right' hpieces rfl)
    exact ⟨_, _, hread untilLineSize (by decide), hsame ▸ hentry⟩

theorem LastEntry.entriesBetween {size : Nat} {file : Option (List Char)} {start stop : Nat}
    (h : LastEntry size (file.getD []) start stop) : entriesBetween size file start stop ≠ [] := by
  obtain ⟨cs, line, hpieces, hentry⟩ := h
  obtain ⟨e, he⟩ := Option.ne_none_iff_exists'.mp hentry
  rw [Dtu.entriesBetween, hpieces, List.filterMap_append, List.filterMap_cons_some he]
  simp

/-- A reader that has not passed the last line still has it before it. -/
theorem LastEntry.drop {size : Nat} (hsize : 1 < size) {content : List Char} {start stop k : Nat}
    (h : LastEntry size content start stop) (hline : AtLine content stop) (hle : start ≤ stop)
    (hlt : start + ((fgetsAll size (content.drop start)).take k).flatten.length < stop) :
    LastEntry size content (start + ((fgetsAll size (content.drop start)).take k).flatten.length) stop := by
  obtain ⟨cs, line, hpieces, hentry⟩ := h
  have hlen := congrArg List.length (fgetsAll_flatten hsize (slice content start stop))
  rw [length_slice hline.1] at hlen
  rw [hline.fgetsAll_drop hsize hle] at hlt ⊢
  have hk : k < (fgetsAll size (slice content start stop)).length := by
    refine Nat.lt_of_not_le fun hge => ?_
    rw [List.take_append, List.take_of_length_le hge, List.flatten_append, List.length_append, hlen] at hlt
    omega
  rw [List.take_append_of_le_length (Nat.le_of_lt hk)]
  have hslice : slice content (start + ((fgetsAll size (slice content start stop)).take k).flatten.length) stop =
      (slice content start stop).drop ((fgetsAll size (slice content start stop)).take k).flatten.length := by
    rw [slice, slice, List.drop_drop]
  refine ⟨cs.drop k, line, ?_, hentry⟩
  rw [hslice, fgetsAll_drop hsize (List.take_append_drop k _).symm, hpieces, List.drop_append_of_le_length]
  rw [hpieces, List.length_append, List.length_singleton] at hk
  omega

/-! ## The window -/

/-- The window goes from the offsets to lines of the logs, and where it is not
empty an entry is its last line. -/
structure MainSend.Window (s : MainSend) : Prop where
  forward (i : Fin mainPathCount) : s.offsets i ≤ s.bdBatchEndOffsets i
  atLine (i : Fin mainPathCount) : AtLine ((s.disk.logs i).getD []) (s.bdBatchEndOffsets i)
  moves : ∃ i, s.offsets i < s.bdBatchEndOffsets i
  lastEntry (i : Fin mainPathCount) : s.offsets i < s.bdBatchEndOffsets i →
    LastEntry untilLineSize ((s.disk.logs i).getD []) (s.offsets i) (s.bdBatchEndOffsets i)

/-- No iteration as a node comes before sending over 4G or while a window is open;
nothing is sent over 4G while one is; and in an iteration that opens one, the last line packed
of each log has fitted the reader's buffer. -/
def MainSend.BatchInTurn (s : MainSend) : Action → Prop
  | .append _ => True
  | .turn t =>
    if t.meshNode then s.state ≠ .try4g ∧ s.bdBatchActive = false
    else s.state = .try4g →
      if s.bdBatchActive then ¬s.Sends4g t
      else s.Opens t → ∀ i, EndsInLine ((s.disk.logs i).getD []) (s.offsets i) (s.pendingOffsets i)

theorem MainSend.BatchInTurn.node {s : MainSend} {t : Turn} (h : s.BatchInTurn (.turn t)) (hmesh : t.meshNode = true) :
    s.state ≠ .try4g ∧ s.bdBatchActive = false := by
  rwa [MainSend.BatchInTurn, if_pos hmesh] at h

/-- The window is as it was when lines are appended. -/
theorem MainSend.Window.append {s s' : MainSend} (h : s.Window) {appended : Fin mainPathCount → List Record}
    (hkept : s.Kept s') (hlogs : s'.disk.logs = (s.disk.append appended).logs) : s'.Window := by
  obtain ⟨hoffsets, hend, -⟩ := hkept
  refine ⟨fun i => ?_, fun i => ?_, ?_, fun i hlt => ?_⟩
  · rw [hoffsets, hend]
    exact h.forward i
  · rw [hlogs, hend, s.disk.getD_append]
    exact (h.atLine i).append _
  · rw [hoffsets, hend]
    exact h.moves
  · rw [hoffsets, hend] at hlt ⊢
    have hstop := (h.atLine i).1
    rw [hlogs, s.disk.getD_append, LastEntry, slice_append (by omega)]
    exact h.lastEntry i hlt

/-- What `MAIN_ST_TRY_4G` has packed becomes the window. -/
theorem MainSend.Packed.window {s s' : MainSend} (h : s.Packed)
    (hlines : ∀ i, EndsInLine ((s.disk.logs i).getD []) (s.offsets i) (s.pendingOffsets i))
    (hoffsets : s'.offsets = s.offsets) (hdisk : s'.disk = s.disk) (hend : s'.bdBatchEndOffsets = s.pendingOffsets) :
    s'.Window := by
  refine ⟨fun i => ?_, fun i => ?_, ?_, fun i hlt => ?_⟩
  · rw [hoffsets, hend]
    exact h.forward i
  · rw [hdisk, hend]
    exact (hlines i).atLine (h.forward i) (h.end_le i)
  · rw [hoffsets, hend]
    exact h.moves
  · rw [hoffsets, hend] at hlt
    rw [hdisk, hoffsets, hend]
    exact (hlines i).lastEntry (h.lastEntry i hlt)

/-- A segment that does not reach the end of the window leaves an entry in it. -/
theorem MainSend.Window.segment {s s' : MainSend} (h : s.Window) {r : PackResult mainPathCount}
    (hr : mainPackPendingUntil s.disk.logs s.offsets s.bdBatchEndOffsets bdMaxHexLen bdMaxRawLen = some r)
    (hmore : ∃ i, r.pendingOffsets i < s.bdBatchEndOffsets i) (hoffsets : s'.offsets = r.pendingOffsets)
    (hend : s'.bdBatchEndOffsets = s.bdBatchEndOffsets) (hdisk : s'.disk = s.disk) : s'.Window := by
  obtain ⟨hwindow, hstop⟩ := mainPackPendingUntil_window (by decide) hr
  refine ⟨fun i => ?_, fun i => ?_, ?_, fun i hlt => ?_⟩
  · rw [hoffsets, hend]
    exact Nat.le_trans (hstop i).1 (Nat.max_le.mpr ⟨h.forward i, Nat.le_refl _⟩)
  · rw [hdisk, hend]
    exact h.atLine i
  · rw [hoffsets, hend]
    exact hmore
  · obtain ⟨-, k, hk⟩ := hstop i
    rw [hoffsets, hend] at hlt
    rw [hdisk, hoffsets, hend, hk]
    exact (h.lastEntry i (Nat.lt_of_le_of_lt (hwindow.le i) hlt)).drop (by decide) (h.atLine i) (h.forward i) (hk ▸ hlt)

theorem MainSend.exists_lt_of_batchDone {s : MainSend} {pending : Offsets} (hactive : s.bdBatchActive = true)
    (h : s.batchDone pending = false) : ∃ i, pending i < s.bdBatchEndOffsets i := by
  refine Classical.byContradiction fun hnone => ?_
  have hreached : offsetsReached pending s.bdBatchEndOffsets = true :=
    decide_eq_true fun i => Nat.le_of_not_lt fun hlt => hnone ⟨i, hlt⟩
  rw [MainSend.batchDone, hactive, hreached] at h
  cases h

/-- A window is open as `MainSend.Window` says. -/
theorem mainSend_batch {disk : Disk} {s : MainSend}
    (hrun : Runs MainSend.step MainSend.BatchInTurn (MainSend.boot disk) s) : s.bdBatchActive = true → s.Window := by
  induction hrun with
  | start => exact fun h => by cases h
  | @step s s' a c hrun hok hstep ih =>
    intro hactive'
    have hpacked := mainSend_packed (fun _ _ hok hmesh => (hok.node hmesh).1) hrun
    rcases a with appended | t
    · cases hstep
      exact (ih hactive').append ⟨rfl, rfl, rfl⟩ rfl
    have hnil := s.disk.append_nil
    cases MainSend.turned hstep with
    | node hmesh =>
      have hactive : s.bdBatchActive = true := hactive'
      rw [(hok.node hmesh).2] at hactive
      cases hactive
    | packed hmesh hst hr hkept hdisk =>
      exact (ih (hkept.active ▸ hactive')).append hkept (by rw [hdisk, hnil])
    | waited appended hmesh hkept hdisk => exact (ih (hkept.active ▸ hactive')).append hkept (by rw [hdisk])
    | opened hmesh hst hidle hoffsets hdisk hend hactive hst' hopens =>
      rw [MainSend.BatchInTurn, if_neg (by simp [hmesh]), if_neg (by simp [hidle])] at hok
      exact (hpacked hst).window (hok hst hopens) hoffsets hdisk hend
    | sent4g hmesh hst hoffsets hdisk hend hactive hst' hsends =>
      rw [MainSend.BatchInTurn, if_neg (by simp [hmesh]), if_pos (hactive ▸ hactive')] at hok
      exact absurd hsends (hok hst)
    | @sentBd _ r hmesh hst hr hret hcount hdone hoffsets hdisk hend hactive =>
      have hopen : s.bdBatchActive = true := hactive ▸ hactive'
      have hsegment : ({ s with offsets := r.pendingOffsets } : MainSend).Window :=
        (ih hopen).segment hr (MainSend.exists_lt_of_batchDone hopen hdone) rfl rfl rfl
      have hlogs : s'.disk.logs = (s.disk.append t.appended).logs := by
        rw [hdisk]
        simp only [MainSend.commitBd, hdone, Bool.false_eq_true, if_false, List.append_nil]
        rfl
      exact hsegment.append ⟨hoffsets, hend, hactive⟩ hlogs
    | doneBd hmesh hst hr hret hcount hdone hoffsets hdisk hactive hst' =>
      rw [hactive] at hactive'
      cases hactive'

/-- In every run in which no payload is sent over 4G and no iteration is one as a
node while a window is open, and a window is opened only at lines that the packer
has read whole, an open window ends in each log at a line, not before the offset
and within the log, and an entry is in it. -/
theorem mainSend_window {disk : Disk} {s : MainSend}
    (hrun : Runs MainSend.step MainSend.BatchInTurn (MainSend.boot disk) s) (hactive : s.bdBatchActive = true) :
    (∀ i, s.offsets i ≤ s.bdBatchEndOffsets i ∧ s.bdBatchEndOffsets i ≤ ((s.disk.logs i).getD []).length ∧
      AtLine ((s.disk.logs i).getD []) (s.bdBatchEndOffsets i)) ∧
    offsetsReached s.offsets s.bdBatchEndOffsets = false ∧
    windowEntries untilLineSize s.disk.logs s.offsets s.bdBatchEndOffsets ≠ [] := by
  have hwindow := mainSend_batch hrun hactive
  obtain ⟨i, hlt⟩ := hwindow.moves
  refine ⟨fun i => ⟨hwindow.forward i, (hwindow.atLine i).1, hwindow.atLine i⟩, ?_, fun hnil => ?_⟩
  · exact decide_eq_false fun hreached => Nat.not_le_of_lt hlt (hreached i)
  · exact (hwindow.lastEntry i hlt).entriesBetween (List.flatMap_eq_nil_iff.mp hnil i (List.mem_finRange i))

/-- A message is packed, 4G fails and opens the window, and BeiDou fails three
times; the next message is packed with it and both are sent over 4G. -/
def overtakenRun : List Action :=
  [.append (firstLog [short 0]), .turn Turn.gateway,
    .turn { Turn.gateway with egReady := false },
    .turn { Turn.gateway with bdReady := false }, .turn Turn.gateway,
    .turn { Turn.gateway with bdReady := false }, .turn Turn.gateway,
    .turn { Turn.gateway with bdReady := false }, .turn Turn.gateway,
    .append (firstLog [short 1]), .turn Turn.gateway, .turn Turn.gateway]

/-- The offsets are then past the window, and it is still open. -/
theorem mainSend_window_overtaken :
    ∃ s, Runs MainSend.step (fun _ _ => True) (MainSend.boot Disk.blank) s ∧ s.bdBatchActive = true ∧
      s.bdBatchEndOffsets 0 < s.offsets 0 ∧ offsetsReached s.offsets s.bdBatchEndOffsets = true := by
  have h : (runList MainSend.step (fun _ _ => true) (MainSend.boot Disk.blank) overtakenRun).map (fun s =>
      (s.bdBatchActive, s.bdBatchEndOffsets 0, s.offsets 0, offsetsReached s.offsets s.bdBatchEndOffsets)) =
      some (true, 39, 78, true) := by
    decide +kernel
  obtain ⟨s, hs, heq⟩ := Option.map_eq_some_iff.mp h
  simp only [Prod.mk.injEq] at heq
  obtain ⟨hactive, hend, hoffset, hreached⟩ := heq
  exact ⟨s, .of_runList (fun _ _ _ => trivial) .start hs, hactive, by omega, hreached⟩

/-- A record whose line fits the reader's buffer ends in a line. -/
theorem EndsInLine.record {content : List Char} {start stop : Nat} (r : Record) (h : slice content start stop = r.line)
    (hfit : r.line.length < packLineSize) : EndsInLine content start stop := by
  have hlen := r.length_line_body
  rw [EndsInLine, if_neg (by rw [h]; exact r.line_ne_nil)]
  exact ⟨[], logHeader r.tm r.msg ++ hexText r.payload, h.trans r.line_eq, .inl rfl,
    newline_not_mem_lineBody r.tm r.msg, by omega⟩

/-- The actions of a gateway that has not sent yet and opens a window on one
message. -/
def Action.onFirst (s : MainSend) (a : Action) : Bool :=
  a.gateway && decide (s.state = .try4g → s.bdBatchActive = false ∧ ∀ i, s.offsets i = 0 ∧
    slice ((s.disk.logs i).getD []) 0 (s.pendingOffsets i) =
      if i.val = 0 then (short 0).line else [])

theorem Action.onFirst_inTurn (s : MainSend) (a : Action) (h : Action.onFirst s a = true) : s.BatchInTurn a := by
  obtain ⟨hgateway, hfirst⟩ := (Bool.and_eq_true _ _).mp h
  cases a with
  | append appended => exact trivial
  | turn t =>
    have hmesh : ¬t.meshNode = true := fun hmesh => by simp [Action.gateway, hmesh] at hgateway
    rw [MainSend.BatchInTurn, if_neg hmesh]
    intro hst
    obtain ⟨hclosed, hlines⟩ := of_decide_eq_true hfirst hst
    rw [if_neg (by rw [hclosed]; decide)]
    intro _ i
    obtain ⟨hzero, hslice⟩ := hlines i
    rw [hzero]
    by_cases hi : i.val = 0
    · refine .record (short 0) (hslice.trans (if_pos hi)) ?_
      rw [length_line_short (by decide)]
      decide
    · rw [EndsInLine, if_pos (hslice.trans (if_neg hi))]
      exact ⟨Nat.zero_le _, .inl rfl⟩

theorem mainSend_window_two :
    ∃ s : MainSend, s.bdBatchActive = true ∧ s.bdBatchEndOffsets 0 = 39 ∧
      offsetsReached s.offsets s.bdBatchEndOffsets = false ∧
      windowEntries untilLineSize s.disk.logs s.offsets s.bdBatchEndOffsets ≠ [] := by
  have h : (runList MainSend.step Action.onFirst (MainSend.boot Disk.blank) (overtakenRun.take 3)).map (fun s =>
      (s.bdBatchActive, s.bdBatchEndOffsets 0)) = some (true, 39) := by
    decide +kernel
  obtain ⟨s, hs, heq⟩ := Option.map_eq_some_iff.mp h
  obtain ⟨hactive, hend⟩ := Prod.mk.inj heq
  have hwindow := mainSend_window (.of_runList Action.onFirst_inTurn .start hs) hactive
  exact ⟨s, hactive, hend, hwindow.2⟩

end Dtu
