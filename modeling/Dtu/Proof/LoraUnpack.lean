import Dtu.Proof.LoraCrc

/-!
# `lora_unpack` over its calls

`last_frame` is the last frame that `lora_unpack` has accepted (`keeps_unpackAll`), so it
accepts a frame that is valid for the ids it expects just when that was another one, and
stores nothing otherwise (`loraUnpack_returns`). What it stores of a frame of `lora_pack`
is the payload.
-/

namespace Dtu

/-- The frames that `lora_unpack` accepts but for the last one again. -/
def UnpackCall.Valid (c : UnpackCall) : Prop :=
  4 ≤ c.buf.length ∧ CrcTest c.buf ∧ c.buf.getD 0 0 = c.expectNetid ∧ c.buf.getD 1 0 = c.expectDevid

instance (c : UnpackCall) : Decidable c.Valid := inferInstanceAs (Decidable (_ ∧ _))

/-- What `lora_unpack` keeps between its calls, and the frame of the last one that has
returned 0. -/
structure Unpacked where
  last : LastFrame
  accepted : Option (List UInt8)

/-- A call. -/
def Unpacked.call (u : Unpacked) (c : UnpackCall) : Unpacked :=
  let (ret, last, _) := c.run u.last
  ⟨last, if ret = 0 then some c.buf else u.accepted⟩

/-- All calls since the program has started. -/
def unpackAll (calls : List UnpackCall) : Unpacked := calls.foldl .call ⟨.init, none⟩

/-! ## One call -/

/-- `last_frame` holds the accepted frame. -/
def Keeps (last : LastFrame) : Option (List UInt8) → Prop
  | none => last.lastLen = 0
  | some frame => last.lastFrame = frame ∧ last.lastLen = frame.length

/-- The test for duplicates. -/
theorem Keeps.duplicate_iff {last : LastFrame} {accepted : Option (List UInt8)} (h : Keeps last accepted)
    {buf : List UInt8} (hlen : 4 ≤ buf.length) :
    buf.length = last.lastLen ∧ buf = last.lastFrame.take buf.length ↔ accepted = some buf := by
  cases accepted with
  | none =>
    have hzero : last.lastLen = 0 := h
    rw [hzero]
    constructor
    · rintro ⟨hnil, -⟩
      omega
    · intro hnone
      cases hnone
  | some frame =>
    obtain ⟨hframe, hlast⟩ := h
    rw [hframe, hlast, Option.some.injEq]
    constructor
    · rintro ⟨heq, htake⟩
      rw [heq, List.take_length] at htake
      exact htake.symm
    · rintro rfl
      exact ⟨rfl, List.take_length.symm⟩

/-- The call of a valid frame. -/
theorem UnpackCall.run_of_valid {c : UnpackCall} {last : LastFrame} {accepted : Option (List UInt8)}
    (hkeeps : Keeps last accepted) (h : c.Valid) :
    c.run last = if accepted = some c.buf then (-4, last, c.out) else
      (0, ⟨c.buf, c.buf.length⟩, ⟨(c.buf.drop 2).take (c.buf.length - 4) ++ c.out.outPayload.drop (c.buf.length - 4),
        (c.buf.length - 4 : Nat)⟩) := by
  obtain ⟨hlen, hcrc, hnet, hdev⟩ := h
  have hpayload : ((c.buf.drop 2).take (c.buf.length - 4)).length = c.buf.length - 4 := by
    rw [List.length_take, List.length_drop]
    omega
  have hunpack : loraUnpack last c.buf c.expectNetid c.expectDevid =
      if accepted = some c.buf then (.error (-4), last) else
        (.ok ((c.buf.drop 2).take (c.buf.length - 4)), ⟨c.buf, c.buf.length⟩) := by
    rw [CrcTest] at hcrc
    rw [loraUnpack]
    simp only [if_neg (show ¬c.buf.length < 4 by omega), hkeeps.duplicate_iff hlen, hcrc, hnet, hdev, ne_eq, not_true,
      or_false, if_false]
  rw [run, hunpack]
  by_cases hdup : accepted = some c.buf
  · rw [if_pos hdup, if_pos hdup]
  · rw [if_neg hdup, if_neg hdup]
    simp only [hpayload]

/-- The call of another one. -/
theorem UnpackCall.run_of_not_valid {c : UnpackCall} (h : ¬c.Valid) (last : LastFrame) :
    ∃ e : Int, e ≠ 0 ∧ c.run last = (e, last, c.out) := by
  have hunpack : ∃ e : Int, e ≠ 0 ∧ loraUnpack last c.buf c.expectNetid c.expectDevid = (.error e, last) := by
    by_cases hlen : c.buf.length < 4
    · exact ⟨-1, by decide, if_pos hlen⟩
    by_cases hcrc : CrcTest c.buf
    · have hids : c.buf.getD 0 0 ≠ c.expectNetid ∨ c.buf.getD 1 0 ≠ c.expectDevid := by
        by_contra hids
        rw [not_or, not_not, not_not] at hids
        exact h ⟨Nat.not_lt.mp hlen, hcrc, hids⟩
      rw [CrcTest] at hcrc
      refine ⟨-3, by decide, ?_⟩
      rw [loraUnpack]
      simp only [if_neg hlen, hcrc, ne_eq, not_true, if_false]
      exact if_pos hids
    · exact ⟨-2, by decide, loraUnpack_of_not_crcTest (Nat.not_lt.mp hlen) hcrc _ _ _⟩
  obtain ⟨e, he, hunpack⟩ := hunpack
  exact ⟨e, he, by rw [run, hunpack]⟩

/-! ## All calls -/

theorem Keeps.call {u : Unpacked} (h : Keeps u.last u.accepted) (c : UnpackCall) :
    Keeps (u.call c).last (u.call c).accepted := by
  by_cases hvalid : c.Valid
  · by_cases hdup : u.accepted = some c.buf
    · have hcall : u.call c = u := by
        rw [Unpacked.call, c.run_of_valid h hvalid, if_pos hdup]
        rfl
      rw [hcall]
      exact h
    · have hcall : (u.call c).last = ⟨c.buf, c.buf.length⟩ ∧ (u.call c).accepted = some c.buf := by
        rw [Unpacked.call, c.run_of_valid h hvalid, if_neg hdup]
        exact ⟨rfl, rfl⟩
      rw [hcall.1, hcall.2]
      exact ⟨rfl, rfl⟩
  · obtain ⟨e, he, hrun⟩ := c.run_of_not_valid hvalid u.last
    have hcall : u.call c = u := by
      rw [Unpacked.call, hrun]
      simp only [if_neg he]
    rw [hcall]
    exact h

/-- `last_frame` is the last frame that has been accepted. -/
theorem keeps_unpackAll (calls : List UnpackCall) :
    Keeps (unpackAll calls).last (unpackAll calls).accepted := by
  have h : ∀ u : Unpacked, Keeps u.last u.accepted →
      Keeps (calls.foldl .call u).last (calls.foldl .call u).accepted := by
    induction calls with
    | nil => exact fun _ h => h
    | cons c calls ih => exact fun u h => ih (u.call c) (h.call c)
  exact h _ rfl

theorem valid_loraPack (netid devid : UInt8) (payload : List UInt8) (out : UnpackOut) :
    (UnpackCall.mk (loraPack netid devid payload) netid devid out).Valid := by
  refine ⟨by rw [length_loraPack]; omega, crcTest_loraPack netid devid payload, ?_, ?_⟩
  · rfl
  · rfl

/-- After any calls, `lora_unpack` returns 0 just for the valid frames other than the last
it has accepted, stores nothing where it returns something else, and what it stores of a
frame of `lora_pack` that it accepts is its payload. -/
theorem loraUnpack_returns (calls : List UnpackCall) :
    let u := unpackAll calls
    (∀ c : UnpackCall,
      ((c.run u.last).1 = 0 ↔ c.Valid ∧ u.accepted ≠ some c.buf) ∧
        ((c.run u.last).1 ≠ 0 → (c.run u.last).2 = (u.last, c.out))) ∧
      ∀ netid devid payload out,
        let c : UnpackCall := ⟨loraPack netid devid payload, netid, devid, out⟩
        u.accepted ≠ some c.buf →
          (c.run u.last).1 = 0 ∧
            (c.run u.last).2.2 = ⟨payload ++ out.outPayload.drop payload.length, payload.length⟩ := by
  have hkeeps := keeps_unpackAll calls
  refine ⟨fun c => ?_, fun netid devid payload out hnew => ?_⟩
  · by_cases hvalid : c.Valid
    · rw [c.run_of_valid hkeeps hvalid]
      by_cases hdup : (unpackAll calls).accepted = some c.buf
      · simp [hdup]
      · simp [hdup, hvalid]
    · obtain ⟨e, he, hrun⟩ := c.run_of_not_valid hvalid (unpackAll calls).last
      rw [hrun]
      simp [he, hvalid]
  · have hlen := length_loraPack netid devid payload
    rw [UnpackCall.run_of_valid hkeeps (valid_loraPack netid devid payload out), if_neg hnew]
    refine ⟨rfl, ?_⟩
    simp only [hlen, Nat.add_sub_cancel]
    simp [loraPack]

end Dtu
