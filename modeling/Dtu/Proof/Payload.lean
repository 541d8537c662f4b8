import Dtu.Proof.BdPacket
import Dtu.Proof.Limits
import Dtu.Proof.Pack

/-!
# What a payload tells of its frames

The text of a batch tells its entries (`joinHex_inj`). Its bytes, in which a comma is
also a byte of data, tell the pieces into which commas cut the entries, and the entries
where these have none (`packs_payload_iff`).
-/

namespace Dtu

open Stdio Loop

/-- A packer takes the entries `es` from logs: as text, and as the payload that
`data_separator` makes of it. -/
inductive Packs : List (List UInt8) → List Char → List UInt8 → Prop where
  | packed {n : Nat} {files : Fin n → Option (List Char)} {offsets : Fin n → Nat} {maxHexLen rawBufSize : Nat}
      {r : PackResult n} :
    0 < rawBufSize → mainPackPending files offsets maxHexLen rawBufSize = some r → r.ret = 0 →
    Packs (windowEntries packLineSize files offsets r.pendingOffsets) r.hexBuf r.rawBuf
  | packedUntil {n : Nat} {files : Fin n → Option (List Char)} {offsets endOffsets : Fin n → Nat}
      {maxHexLen rawBufSize : Nat} {r : PackResult n} :
    0 < rawBufSize → mainPackPendingUntil files offsets endOffsets maxHexLen rawBufSize = some r → r.ret = 0 →
    Packs (windowEntries untilLineSize files offsets r.pendingOffsets) r.hexBuf r.rawBuf

variable {es fs : List (List UInt8)} {hex hex' : List Char} {raw raw' : List UInt8}

theorem Packs.batch (h : Packs es hex raw) : hex = joinHex es ∧ raw = joinRaw es ∧ ∀ e ∈ es, e ≠ [] := by
  cases h with
  | packed hsize hpack hret =>
    have hwindow := mainPackPending_window hsize hpack
    exact ⟨hwindow.hex, hwindow.raw hret, ne_nil_of_mem_windowEntries⟩
  | packedUntil hsize hpack hret =>
    obtain ⟨hwindow, -⟩ := mainPackPendingUntil_window hsize hpack
    exact ⟨hwindow.hex, hwindow.raw hret, ne_nil_of_mem_windowEntries⟩

/-! ## The text -/

theorem flatMap_fmtX2_injective : Function.Injective fun e : List UInt8 => e.flatMap fmtX2 := by
  intro e f h
  have hpairs := hexPairs_flatMap_fmtX2 e
  rw [show e.flatMap fmtX2 = f.flatMap fmtX2 from h, hexPairs_flatMap_fmtX2] at hpairs
  exact (Option.some.inj hpairs).symm

theorem comma_not_mem_flatMap_fmtX2 (e : List UInt8) : ',' ∉ e.flatMap fmtX2 := by
  intro h
  obtain ⟨b, -, hb⟩ := List.mem_flatMap.mp h
  obtain ⟨hhi, hlo⟩ := halves_lt b
  rcases List.mem_pair.mp hb with hb | hb
  · exact hexDigit_ne hhi (c := ',') (by decide) hb.symm
  · exact hexDigit_ne hlo (c := ',') (by decide) hb.symm

theorem splitOn_joinHex (hne : es ≠ []) : (joinHex es).splitOn ',' = es.map (·.flatMap fmtX2) := by
  refine List.splitOn_intercalate ',' (fun x hx => ?_) (by simpa using hne)
  obtain ⟨e, -, rfl⟩ := List.mem_map.mp hx
  exact comma_not_mem_flatMap_fmtX2 e

theorem joinHex_ne_nil (hne : es ≠ []) (hes : ∀ e ∈ es, e ≠ []) : joinHex es ≠ [] := by
  obtain ⟨e, es, rfl⟩ := List.exists_cons_of_ne_nil hne
  have hpos := List.length_pos_iff.mpr (hes e List.mem_cons_self)
  intro hnil
  have hlen := length_joinHex (e :: es)
  rw [hnil, hexCost_cons, List.length_nil] at hlen
  omega

/-- No two batches have the same text. -/
theorem joinHex_inj (hes : ∀ e ∈ es, e ≠ []) (hfs : ∀ f ∈ fs, f ≠ []) : joinHex es = joinHex fs ↔ es = fs := by
  refine ⟨fun h => ?_, congrArg _⟩
  by_cases he : es = []
  · subst he
    by_contra hf
    exact joinHex_ne_nil (Ne.symm hf) hfs h.symm
  by_cases hf : fs = []
  · subst hf
    exact absurd h (joinHex_ne_nil he hes)
  · have hsplit := splitOn_joinHex he
    rw [h, splitOn_joinHex hf] at hsplit
    exact (List.map_injective_iff.mpr flatMap_fmtX2_injective hsplit).symm

/-! ## The bytes -/

/-- The pieces into which commas cut the entries of a batch. -/
def commaPieces (es : List (List UInt8)) : List (List UInt8) := es.flatMap (List.splitOn 0x2C)

theorem commaPieces_ne_nil (hne : es ≠ []) : commaPieces es ≠ [] := by
  obtain ⟨e, es, rfl⟩ := List.exists_cons_of_ne_nil hne
  rw [commaPieces, List.flatMap_cons]
  exact List.append_ne_nil_of_left_ne_nil (List.splitOn_ne_nil 0x2C e) _

/-- The payloads of two batches are the same if the pieces are. -/
theorem joinRaw_eq_iff (hes : ∀ e ∈ es, e ≠ []) (hfs : ∀ f ∈ fs, f ≠ []) :
    joinRaw es = joinRaw fs ↔ commaPieces es = commaPieces fs := by
  by_cases he : es = []
  · subst he
    by_cases hf : fs = []
    · subst hf
      exact iff_of_true rfl rfl
    · exact iff_of_false (fun h => joinRaw_ne_nil hf hfs h.symm) fun h => commaPieces_ne_nil hf h.symm
  by_cases hf : fs = []
  · subst hf
    exact iff_of_false (joinRaw_ne_nil he hes) (commaPieces_ne_nil he)
  · exact intercalate_eq_iff he hf

theorem commaPieces_of_not_mem (h : ∀ e ∈ es, 0x2C ∉ e) : commaPieces es = es := by
  induction es with
  | nil => rfl
  | cons e es ih =>
    rw [List.forall_mem_cons] at h
    rw [commaPieces, List.flatMap_cons, List.splitOn_eq_singleton h.1, List.singleton_append]
    exact congrArg _ (ih h.2)

/-- The text of two batches is the same only if the batches are. Their payloads are the
same if commas cut the entries of both into the same pieces, so not for two batches
without a comma in their entries, and these are the batches whose entries are the pieces
of the payload. -/
theorem packs_payload_iff (h : Packs es hex raw) (h' : Packs fs hex' raw') :
    (hex = hex' ↔ es = fs) ∧ (raw = raw' ↔ commaPieces es = commaPieces fs) ∧
      ((∀ e ∈ es, 0x2C ∉ e) → (∀ f ∈ fs, 0x2C ∉ f) → raw = raw' → es = fs) ∧
      (es ≠ [] → (raw.splitOn 0x2C = es ↔ ∀ e ∈ es, 0x2C ∉ e)) := by
  obtain ⟨rfl, rfl, hes⟩ := h.batch
  obtain ⟨rfl, rfl, hfs⟩ := h'.batch
  have hraw := joinRaw_eq_iff hes hfs
  refine ⟨joinHex_inj hes hfs, hraw, fun he hf heq => ?_, splitOn_intercalate_iff⟩
  rw [hraw, commaPieces_of_not_mem he, commaPieces_of_not_mem hf] at heq
  exact heq

/-! ## Two batches with the same payload -/

/-- A message of a serial port with a frame id of its own. -/
def frame (data : List UInt8) (id : UInt32) (hdata : data.length ≤ 256) (hid : id ≠ 0) : Record where
  tm := Tm.setTime
  msg := message 1 data id 0 1
  len_le := by
    rw [message, UInt32.toNat_ofNat']
    exact Nat.le_trans (Nat.mod_le _ _) hdata
  frameId_ne := hid

/-- What `main_pack_pending_until` packs of all of a first log. -/
def untilPacked (rs : List Record) : Option (PackResult mainPathCount) :=
  mainPackPendingUntil (fun i => some (logText (firstLog rs i))) (fun _ => 0) (fun i => (logText (firstLog rs i)).length)
    bdMaxHexLen bdMaxRawLen

theorem packs_untilPacked {rs : List Record} {es : List (List UInt8)} {raw : List UInt8}
    (h : (untilPacked rs).map (fun r => (r.ret, r.rawBuf, windowEntries untilLineSize
      (fun i => some (logText (firstLog rs i))) (fun _ => 0) r.pendingOffsets)) = some (0, raw, es)) :
    ∃ hex, Packs es hex raw := by
  obtain ⟨r, hr, hpacked⟩ := Option.map_eq_some_iff.mp h
  simp only [Prod.mk.injEq] at hpacked
  obtain ⟨hret, rfl, rfl⟩ := hpacked
  exact ⟨_, .packedUntil (by decide) hr hret⟩

theorem packs_two : ∃ hex, Packs [[1, 2], [3, 4]] hex [1, 2, 0x2C, 3, 4] :=
  @packs_untilPacked [frame [1, 2] 1 (by decide) (by decide), frame [3, 4] 2 (by decide) (by decide)] _ _
    (by decide +kernel)

/-- Two frames, and one frame with a comma in it. -/
theorem packs_payload_comma : ∃ es fs hex hex' raw, Packs es hex raw ∧ Packs fs hex' raw ∧ es ≠ fs := by
  obtain ⟨hex, htwo⟩ := packs_two
  have hone : ∃ hex, Packs [[1, 2, 0x2C, 3, 4]] hex [1, 2, 0x2C, 3, 4] :=
    @packs_untilPacked [frame [1, 2, 0x2C, 3, 4] 1 (by decide) (by decide)] _ _ (by decide +kernel)
  obtain ⟨hex', hone⟩ := hone
  exact ⟨_, _, hex, hex', _, htwo, hone, by decide⟩

theorem packs_payload_iff_two :
    ∃ hex raw, Packs [[1, 2], [3, 4]] hex raw ∧ raw.splitOn 0x2C = [[1, 2], [3, 4]] := by
  obtain ⟨hex, htwo⟩ := packs_two
  obtain ⟨-, -, -, hsplit⟩ := packs_payload_iff htwo htwo
  exact ⟨hex, _, htwo, (hsplit (by decide)).mpr (by decide)⟩

end Dtu
