import Dtu.Framework.Runs
import Dtu.Proof.LoraFrame
import Dtu.Proof.Segments

/-!
# The offsets of `lora_transform_thread`

`lora_transform_thread` moves its offsets over what it has packed, whether or not
`Lora_send_packet` has sent it, saves them, and never loads what it has saved. As
long as each batch has one entry and is sent, and no line with one data byte is
passed over, each line before an offset has been delivered; and as long as the saved
offsets are 0 when the thread starts, it resumes from them
(`loraTransform_offsets`).
-/

namespace Dtu

open Stdio Loop

/-! ## What is packed -/

theorem length_le_of_mem_joinHex {es : List (List UInt8)} {e : List UInt8} (h : e ∈ es) :
    2 * e.length ≤ (joinHex es).length := by
  have hmem : 2 * e.length + 1 ∈ es.map fun e => 2 * e.length + 1 := List.mem_map_of_mem h
  have hle : 2 * e.length + 1 ≤ hexCost es := List.le_sum_of_mem hmem
  rw [length_joinHex]
  omega

/-- `lora_transform_thread` packs records that its reader finds whole, from the line
numbers `pos` to line numbers `stop`. -/
theorem LoraSend.pack_records {s : LoraSend} {pos : Fin 2 → Nat}
    (hpos : ∀ i, s.offsets i = lineStart (s.records i) (pos i)) {b : HexBatch} {pending : Fin 2 → Nat}
    (h : s.pack = some (b, pending)) :
    ∃ stop : Fin 2 → Nat, (∀ i, pos i ≤ stop i ∧ stop i ≤ max (pos i) (s.records i).length ∧
        pending i = lineStart (s.records i) (stop i)) ∧
      b = batchOf ((List.finRange 2).flatMap fun i => lineEntries (s.records i) (pos i) (stop i)) := by
  have hfits := packDataFromFiles_fits h
  rw [LoraSend.pack, show s.offsets = fun i => lineStart (s.records i) (pos i) from funext hpos,
    packDataFromFiles_records (fun i => .inl rfl)] at h
  obtain ⟨⟨es, ks⟩, hbatch, heq⟩ := Option.map_eq_some_iff.mp h
  simp only [Prod.mk.injEq] at heq
  obtain ⟨rfl, rfl⟩ := heq
  have hes := batch_eq hbatch
  -- A record that is taken has at most 128 bytes, so its line fits the reader's buffer.
  have hshort : ∀ i, ∀ r ∈ ((s.records i).drop (pos i)).take (ks i), r.line.length ≤ packLineSize - 1 := by
    intro i r hr
    have hheader := headerLength_le r
    have hline := r.length_line
    have hlen := length_shown r
    have hcap : (joinHex es).length ≤ loraMaxHexLen := hfits
    have hshown : (shown r).length ≤ 128 := by
      by_cases htwo : 2 ≤ (shown r).length
      · have hmem : shown r ∈ es := by
          rw [hes, shownEntries, List.mem_filter]
          exact ⟨List.mem_map_of_mem (List.mem_flatMap.mpr ⟨i, List.mem_finRange i, hr⟩), by simpa using htwo⟩
        have hle := length_le_of_mem_joinHex hmem
        simp only [loraMaxHexLen] at hcap
        omega
      · omega
    simp only [packLineSize] at hlen ⊢
    omega
  refine ⟨fun i => pos i + ks i, fun i => ⟨Nat.le_add_right _ _, ?_, ?_⟩, ?_⟩
  · have hle := batch_le_length hbatch i
    rw [List.length_drop] at hle
    show pos i + ks i ≤ max (pos i) (s.records i).length
    omega
  · have hstop : stopOffset ((s.records i).drop (pos i)) (ks i) =
        (logText (((s.records i).drop (pos i)).take (ks i))).length :=
      (stopOffset_eq_iff (batch_le_length hbatch i)).mpr
        ⟨rfl, fun r hr => hshort i r (List.mem_of_getLast? hr)⟩
    show lineStart (s.records i) (pos i) + stopOffset _ _ = lineStart (s.records i) (pos i + ks i)
    rw [lineStart_add, hstop]
  · rw [hes, shownEntries_of_length_le (fun r hr => by
      obtain ⟨i, -, hi⟩ := List.mem_flatMap.mp hr
      exact hshort i r hi), recordEntries_flatMap]
    simp only [lineEntries, take_drop_eq]

/-! ## What is delivered -/

/-- The data of a record is in a payload for which `Lora_send_packet` has returned 0. -/
def LoraSend.Delivered (s : LoraSend) (r : Record) : Prop := r.payload = [] ∨ ∃ p ∈ s.delivered, r.payload <:+: p

/-- Each line that starts before an offset has been delivered. -/
def LoraSend.Sent (s : LoraSend) : Prop :=
  ∀ i k r, (s.records i)[k]? = some r → lineStart (s.records i) k < s.offsets i → s.Delivered r

/-- An action that starts the thread again. -/
def LoraAction.Restarts : LoraAction → Prop
  | .append _ => False
  | .iterate _ => False
  | .cut _ _ => True
  | .restart => True
  | .stop => True

/-- The batch of an iteration has at most one entry, `Lora_send` returns 0 for it, and
the iteration passes over no line with one data byte; where the thread starts again,
the saved offsets are 0. -/
def LoraSend.Clean (s : LoraSend) (a : LoraAction) : Prop :=
  (∀ t, a = .iterate t → t.cfg.meshType = loraMeshNode → ∀ b pending, s.pack = some (b, pending) →
    b.entryCount ≤ 1 ∧ (0 < b.entryCount → t.sent = true) ∧
      ∀ i k r, (s.records i)[k]? = some r → s.offsets i ≤ lineStart (s.records i) k →
        lineStart (s.records i) k < pending i → r.payload.length ≠ 1) ∧
  (a.Restarts → ∀ s' e, s.step a = some (s', e) → loadOffsetsOf 2 s'.offsetFile = fun _ => 0)

instance : (a : LoraAction) → Decidable a.Restarts
  | .append _ | .iterate _ => isFalse id
  | .cut _ _ | .restart | .stop => isTrue trivial

instance (s : LoraSend) (t : LoraTurn) : Decidable (s.Clean (.iterate t)) :=
  decidable_of_iff (t.cfg.meshType = loraMeshNode → ∀ r ∈ s.pack,
      r.1.entryCount ≤ 1 ∧ (0 < r.1.entryCount → t.sent = true) ∧
        ∀ i, ∀ k ∈ List.range (s.records i).length, ∀ record ∈ (s.records i)[k]?,
          s.offsets i ≤ lineStart (s.records i) k → lineStart (s.records i) k < r.2 i → record.payload.length ≠ 1) (by
    constructor
    · intro h
      refine ⟨fun t' ht hnode b pending hpack => ?_, fun hrestarts => hrestarts.elim⟩
      cases ht
      obtain ⟨hcount, hsent, hlines⟩ := h hnode (b, pending) hpack
      exact ⟨hcount, hsent, fun i k record hrecord =>
        hlines i k (List.mem_range.mpr (List.getElem?_eq_some_iff.mp hrecord).1) record hrecord⟩
    · rintro ⟨h, -⟩ hnode ⟨b, pending⟩ hpack
      obtain ⟨hcount, hsent, hlines⟩ := h t rfl hnode b pending hpack
      exact ⟨hcount, hsent, fun i k _ record hrecord => hlines i k record hrecord⟩)

/-- The condition on a restart. -/
theorem LoraSend.clean_iff {s : LoraSend} {a : LoraAction} (h : ∀ t, a ≠ .iterate t) :
    s.Clean a ↔ (a.Restarts → ∀ r ∈ s.step a, loadOffsetsOf 2 r.1.offsetFile = fun _ => 0) := by
  rw [Clean, and_iff_right fun t ht => absurd ht (h t)]
  exact imp_congr_right fun _ => ⟨fun h r hr => h r.1 r.2 hr, fun h s' e hs => h (s', e) hs⟩

instance (s : LoraSend) : (a : LoraAction) → Decidable (s.Clean a)
  | .iterate t => inferInstanceAs (Decidable (s.Clean (.iterate t)))
  | .append _ | .cut _ _ | .restart | .stop => decidable_of_iff' _ (LoraSend.clean_iff fun _ h => LoraAction.noConfusion h)

/-- The invariant: the offsets are at lines, and the lines before them delivered. -/
def LoraSend.SentTo (s : LoraSend) (pos : Fin 2 → Nat) : Prop :=
  ∀ i, s.offsets i = lineStart (s.records i) (pos i) ∧ pos i ≤ (s.records i).length ∧
    ∀ r ∈ (s.records i).take (pos i), s.Delivered r

theorem LoraSend.sentTo_start (s : LoraSend) : s.start.SentTo fun _ => 0 :=
  fun i => ⟨rfl, Nat.zero_le _, fun r hr => by simp at hr⟩

theorem LoraSend.SentTo.sent {s : LoraSend} {pos : Fin 2 → Nat} (h : s.SentTo pos) : s.Sent := by
  intro i k r hr hbefore
  obtain ⟨hoffset, -, hdelivered⟩ := h i
  refine hdelivered r (List.mem_of_getElem? (i := k) ?_)
  rw [List.getElem?_take_of_lt, hr]
  refine Nat.lt_of_not_le fun hge => ?_
  have := length_logText_take_le (s.records i) hge
  rw [hoffset, lineStart, lineStart] at hbefore
  omega

theorem lineStart_lt {rs : List Record} {j k : Nat} (hjk : j < k) (hj : j < rs.length) :
    lineStart rs j < lineStart rs k := by
  refine Nat.lt_of_le_of_ne (length_logText_take_le rs (Nat.le_of_lt hjk)) fun heq => ?_
  have hlen := congrArg List.length (take_eq_take_of_length (Nat.le_of_lt hjk) heq)
  rw [List.length_take, List.length_take] at hlen
  omega

/-- What stays as it is when the offset file is written. -/
theorem LoraSend.SentTo.congr {s s' : LoraSend} {pos : Fin 2 → Nat} (h : s.SentTo pos) (hrecords : s'.records = s.records)
    (hoffsets : s'.offsets = s.offsets) (hdelivered : s'.delivered = s.delivered) : s'.SentTo pos := by
  intro i
  rw [hrecords, hoffsets]
  obtain ⟨hoffset, hle, hsent⟩ := h i
  refine ⟨hoffset, hle, fun r hr => ?_⟩
  rw [LoraSend.Delivered, hdelivered]
  exact hsent r hr

theorem LoraSend.SentTo.append {s : LoraSend} {pos : Fin 2 → Nat} (h : s.SentTo pos) (appended : Fin 2 → List Record) :
    LoraSend.SentTo { s with records := fun i => s.records i ++ appended i } pos := by
  intro i
  obtain ⟨hoffset, hle, hsent⟩ := h i
  have htake : (s.records i ++ appended i).take (pos i) = (s.records i).take (pos i) :=
    List.take_append_of_le_length hle
  refine ⟨?_, ?_, ?_⟩
  · rw [lineStart, htake]
    exact hoffset
  · rw [List.length_append]
    omega
  · rw [htake]
    exact hsent

/-- An iteration that packs at most one entry, and is answered 0 for it. -/
theorem LoraSend.SentTo.transmit {s s' : LoraSend} {t : LoraTurn} {save : Bool} {pos : Fin 2 → Nat} (h : s.SentTo pos)
    (hclean : s.Clean (.iterate t)) (htransmit : s.transmit t = some (s', save)) : ∃ pos', s'.SentTo pos' := by
  unfold LoraSend.transmit at htransmit
  split at htransmit
  · cases htransmit
    exact ⟨pos, h⟩
  rename_i hnode
  obtain ⟨⟨b, pending⟩, hpack, heq⟩ := Option.map_eq_some_iff.mp htransmit
  obtain ⟨hcount, hsent, hone⟩ := hclean.1 t rfl (Decidable.not_not.mp hnode) b pending hpack
  have hfits := packDataFromFiles_fits hpack
  obtain ⟨stop, hstop, rfl⟩ := LoraSend.pack_records (fun i => (h i).1) hpack
  generalize hes : (List.finRange 2).flatMap (fun i => lineEntries (s.records i) (pos i) (stop i)) = es at *
  -- The one entry is the payload, and `Lora_send_packet` has sent it.
  have hdelivered : s'.records = s.records ∧ s'.offsets = pending ∧
      ∀ r : Record, s.Delivered r ∨ r.payload ∈ es → s'.Delivered r := by
    by_cases hpos : 0 < (batchOf es).entryCount
    · obtain ⟨e, rfl⟩ := List.length_eq_one_iff.mp (Nat.le_antisymm hcount hpos)
      have htwo : 2 ≤ e.length := by
        obtain ⟨i, -, hi⟩ := List.mem_flatMap.mp (hes ▸ List.mem_singleton_self e)
        simpa using (List.mem_filter.mp hi).2
      have hlen : 2 * e.length ≤ loraMaxHexLen := Nat.le_trans (length_le_of_mem_joinHex List.mem_cons_self) hfits
      simp only [loraMaxHexLen] at hlen
      have hpayload : loraPayload t.stale (batchOf [e]) = e := by
        have htext : (batchOf [e]).hexBuf.take (batchOf [e]).hexLen = joinHex [e] := List.take_length
        rw [loraPayload, htext, loraDecode_singleton t.stale (by simp only [loraPayloadSize]; omega)]
      simp only [if_pos hpos, hpayload, loraSendPacket_eq t.cfg.netId t.cfg.devId (show 0 < e.length by omega)
        (by omega), Option.isSome_some, hsent hpos, Bool.and_self, if_true] at heq
      cases heq
      refine ⟨rfl, rfl, fun r hr => ?_⟩
      rcases hr with (hnil | ⟨p, hp, hinfix⟩) | hmem
      · exact .inl hnil
      · exact .inr ⟨p, List.mem_cons_of_mem e hp, hinfix⟩
      · exact .inr ⟨e, List.mem_cons_self, List.mem_singleton.mp hmem ▸ List.infix_rfl⟩
    · simp only [if_neg hpos] at heq
      cases heq
      have hnil : es = [] := List.length_eq_zero_iff.mp (Nat.eq_zero_of_not_pos hpos)
      refine ⟨rfl, rfl, fun r hr => ?_⟩
      rcases hr with hr | hmem
      · exact hr
      · rw [hnil] at hmem
        cases hmem
  obtain ⟨hrecords, hoffsets, hdelivered⟩ := hdelivered
  refine ⟨stop, fun i => ?_⟩
  obtain ⟨hpos, hend, hpending⟩ := hstop i
  obtain ⟨hoffset, hle, hbefore⟩ := h i
  rw [hrecords, hoffsets]
  refine ⟨hpending, by omega, fun r hr => hdelivered r ?_⟩
  rw [← List.take_append_drop (pos i) ((s.records i).take (stop i)), List.take_take, Nat.min_eq_left hpos] at hr
  rcases List.mem_append.mp hr with hr | hr
  · exact .inl (hbefore r hr)
  · obtain ⟨j, hj, hget⟩ := List.mem_iff_getElem.mp hr
    rw [List.length_drop, List.length_take] at hj
    rw [List.getElem_drop, List.getElem_take] at hget
    have hone' := hone i (pos i + j) r (by rw [List.getElem?_eq_getElem (by omega), hget])
      (hoffset ▸ length_logText_take_le _ (Nat.le_add_right _ _)) (hpending ▸ lineStart_lt (by omega) (by omega))
    by_cases htwo : 2 ≤ r.payload.length
    · refine .inr (hes ▸ List.mem_flatMap.mpr ⟨i, List.mem_finRange i, ?_⟩)
      rw [lineEntries, recordEntries, List.mem_filter]
      exact ⟨List.mem_map_of_mem hr, by simpa using htwo⟩
    · exact .inl (.inl (List.length_eq_zero_iff.mp (by omega)))

/-! ## The run -/

theorem LoraSend.SentTo.step {s s' : LoraSend} {a : LoraAction} {e : Unit} {pos : Fin 2 → Nat} (h : s.SentTo pos)
    (hclean : s.Clean a) (hstep : s.step a = some (s', e)) : ∃ pos', s'.SentTo pos' := by
  rcases a with appended | t | ⟨t, steps⟩ | _ | _
  · cases hstep
    exact ⟨pos, h.append appended⟩
  · obtain ⟨⟨s₁, save⟩, htransmit, heq⟩ := Option.map_eq_some_iff.mp hstep
    cases heq
    obtain ⟨pos', h'⟩ := h.transmit hclean htransmit
    exact ⟨pos', h'.congr rfl rfl rfl⟩
  · obtain ⟨⟨s₁, save⟩, -, heq⟩ := Option.map_eq_some_iff.mp hstep
    cases heq
    exact ⟨_, LoraSend.sentTo_start _⟩
  · cases hstep
    exact ⟨_, LoraSend.sentTo_start _⟩
  · cases hstep
    exact ⟨_, LoraSend.sentTo_start _⟩

/-- The thread starts with offsets 0. -/
theorem LoraSend.offsets_of_restarts {s s' : LoraSend} {a : LoraAction} {e : Unit} (h : a.Restarts)
    (hstep : s.step a = some (s', e)) : s'.offsets = fun _ => 0 := by
  rcases a with appended | t | ⟨t, steps⟩ | _ | _
  · exact absurd h id
  · exact absurd h id
  · obtain ⟨⟨s₁, save⟩, -, heq⟩ := Option.map_eq_some_iff.mp hstep
    cases heq
    rfl
  · cases hstep
    rfl
  · cases hstep
    rfl

/-- In every run in which each batch has at most one entry and is sent, no line with
one data byte is passed over, and the saved offsets are 0 where the thread starts,
each line before an offset has been delivered, and the thread resumes from the
saved offsets. -/
theorem loraTransform_offsets {s : LoraSend} (hrun : Runs LoraSend.step LoraSend.Clean .blank s) :
    s.Sent ∧ ∀ a s' e, s.Clean a → s.step a = some (s', e) → a.Restarts →
      s'.offsets = loadOffsetsOf 2 s'.offsetFile := by
  have hblank : ∃ pos, LoraSend.SentTo .blank pos := ⟨_, LoraSend.sentTo_start .blank⟩
  have hinv : ∃ pos, s.SentTo pos := by
    refine hrun.invariant (I := fun s => ∃ pos, LoraSend.SentTo s pos) hblank fun s a s' e hinv hclean hstep => ?_
    obtain ⟨pos, h⟩ := hinv
    exact h.step hclean hstep
  obtain ⟨pos, h⟩ := hinv
  refine ⟨h.sent, fun a s' e hclean hstep hrestarts => ?_⟩
  rw [LoraSend.offsets_of_restarts hrestarts hstep, hclean.2 hrestarts s' e hstep]

/-- A message on the RS485 log. -/
def rs485Record (r : Record) : Fin 2 → List Record := fun i => if i.val = 0 then [r] else []

/-- An iteration as a node. -/
def LoraTurn.node : LoraTurn := ⟨nodeConfig, fun _ => 0, true⟩

/-- `Lora_send` fails: the line is behind the offset, and nothing is delivered. -/
theorem loraTransform_lost :
    ∃ s, Runs LoraSend.step (fun _ _ => True) .blank s ∧ ¬s.Sent := by
  have h : (runList LoraSend.step (fun _ _ => true) .blank
      [.append (rs485Record (short 0)), .iterate { LoraTurn.node with sent := false }]).map (fun s =>
        (decide (s.delivered = []), ((s.records 0).map Record.payload, s.offsets 0))) = some (true, [[0, 0]], 39) := by
    decide +kernel
  obtain ⟨s, hs, heq⟩ := Option.map_eq_some_iff.mp h
  simp only [Prod.mk.injEq, decide_eq_true_eq] at heq
  obtain ⟨hnone, hrecords, hoffset⟩ := heq
  refine ⟨s, .of_runList (fun _ _ _ => trivial) .start hs, fun hsent => ?_⟩
  obtain ⟨r, hr, hpayload⟩ := List.map_eq_singleton_iff.mp hrecords
  rcases hsent 0 0 r (by rw [hr]; rfl) (by rw [hoffset, lineStart_zero]; decide) with hnil | ⟨p, hp, -⟩
  · rw [hnil] at hpayload
    cases hpayload
  · rw [hnone] at hp
    cases hp

/-- A message is logged and sent, the power is lost behind `O_TRUNC` in `save_offsets`, and the message sent
again; then another is logged and sent. -/
def resentRun : List LoraAction :=
  [.append (rs485Record (short 0)), .cut LoraTurn.node 1, .iterate LoraTurn.node, .append (rs485Record (short 1)),
    .iterate LoraTurn.node]

theorem loraTransform_offsets_two :
    ∃ s : LoraSend, s.offsets 0 = 78 ∧ s.delivered.length = 3 ∧ s.Sent := by
  have h : (runList LoraSend.step (fun s a => decide (s.Clean a)) .blank resentRun).map (fun s =>
      (s.offsets 0, s.delivered.length)) = some (78, 3) := by
    decide +kernel
  obtain ⟨s, hs, heq⟩ := Option.map_eq_some_iff.mp h
  obtain ⟨hoffset, hdelivered⟩ := Prod.mk.inj heq
  exact ⟨s, hoffset, hdelivered, (loraTransform_offsets (.of_runList (fun _ _ h => of_decide_eq_true h) .start hs)).1⟩

end Dtu
