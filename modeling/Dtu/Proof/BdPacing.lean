import Mathlib.Data.List.Chain
import Dtu.Proof.BdLink

/-!
# The pacing of the BeiDou module

Each sender paces its own packets: `main_send_thread` by the time of its last
acknowledged one, the Bluetooth thread by the reading of `time(NULL)` before its last
one. So any two packets in turn are 60 seconds apart in the runs in which the sender's
pacing records the packet before each (`bdSends_apart`). A segment that is not
acknowledged is not recorded, and sent again at once (`bdSends_at_once`).
-/

namespace Dtu

variable {s s' : BdLink}

/-- The action hands a packet to the module. -/
def BdLink.sends (s : BdLink) : BdAction → Bool
  | .main _ => match s.pc with
    | .tryBd _ r (.send _) => (bdSendPacket r.rawBuf).isSome
    | _ => false
  | .btSend => s.btSending.any fun data => (bdSendPacket data).isSome
  | _ => false

/-- The pacing of the sender of a packet records `p`, the last one: it was a segment
that `main_send_thread` has taken as acknowledged, or one of the Bluetooth thread, and
`time(NULL)` has not advanced more between its two readings than the monotonic clock
between the two packets. -/
def BdLink.records (s : BdLink) (a : BdAction) (p : Packet) : Prop :=
  match a with
  | .main _ => s.sent.length - 1 ∈ s.acknowledged
  | _ => p.segment = none ∧ p.lastBdSendTime ≠ 0 ∧
      s.debug.gDebugBtLastBdSendTime + p.clock ≤ s.clock + p.lastBdSendTime

instance (s : BdLink) (a : BdAction) (p : Packet) : Decidable (s.records a p) := by
  unfold BdLink.records
  split <;> infer_instance

/-- A packet is handed to the module only behind one that its sender's pacing records. -/
def BdLink.Paced (s : BdLink) (a : BdAction) : Prop := s.sends a = true → ∀ p ∈ s.sent.getLast?, s.records a p

instance (s : BdLink) (a : BdAction) : Decidable (s.Paced a) :=
  inferInstanceAs (Decidable (_ → _))

/-- Packets handed to the module by `clock`, the acknowledged ones recorded by
`next_bd_send_time`. -/
structure Timed (sent : List Packet) (clock : Nat) (acknowledged : List Nat) (nextBdSendTime : Nat) : Prop where
  chain : sent.IsChain fun p q => p.clock + bdSendIntervalSec ≤ q.clock
  past : ∀ p ∈ sent, p.clock ≤ clock
  acked : ∀ i ∈ acknowledged, ∃ p, sent[i]? = some p ∧ p.clock + bdSendIntervalSec ≤ nextBdSendTime

section

variable {sent : List Packet} {clock next : Nat} {acknowledged : List Nat}

theorem Timed.snoc (h : Timed sent clock acknowledged next) {q : Packet} (hclock : q.clock = clock)
    (hapart : ∀ p ∈ sent.getLast?, p.clock + bdSendIntervalSec ≤ clock) :
    Timed (sent ++ [q]) clock acknowledged next := by
  refine ⟨h.chain.append (.singleton q) fun p hp q' hq' => ?_, fun p hp => ?_, fun i hi => ?_⟩
  · rw [List.head?_cons, Option.mem_some_iff] at hq'
    rw [← hq', hclock]
    exact hapart p hp
  · rcases List.mem_append.mp hp with hp | hp
    · exact h.past p hp
    · rw [List.mem_singleton.mp hp, hclock]
  · obtain ⟨p, hp, hnext⟩ := h.acked i hi
    exact ⟨p, by rw [List.getElem?_append_left (List.getElem?_eq_some_iff.mp hp).1, hp], hnext⟩

theorem Timed.tick (h : Timed sent clock acknowledged next) {clock' : Nat} (hclock : clock ≤ clock') :
    Timed sent clock' acknowledged next :=
  ⟨h.chain, fun p hp => (h.past p hp).trans hclock, h.acked⟩

/-- A packet is taken as acknowledged, and `next_bd_send_time` set. -/
theorem Timed.acknowledge (h : Timed sent clock acknowledged next) {i : Nat} (hi : i < sent.length) :
    Timed sent clock (i :: acknowledged) (clock + bdSendIntervalSec) := by
  refine ⟨h.chain, h.past, fun j hj => ?_⟩
  have hlt : j < sent.length := by
    rcases List.mem_cons.mp hj with rfl | hj
    · exact hi
    · obtain ⟨p, hp, -⟩ := h.acked j hj
      exact (List.getElem?_eq_some_iff.mp hp).1
  exact ⟨sent[j], List.getElem?_eq_getElem hlt, Nat.add_le_add_right (h.past _ (List.getElem_mem hlt)) _⟩

end

/-- What `g_debug_bt_last_bd_send_time` is if the last packet is from the Bluetooth
thread, which may be about to send another. -/
def DebugRead (sent : List Packet) (sending : Bool) (lastBdSendTime : Nat) : Prop :=
  ∀ p ∈ sent.getLast?, p.segment = none →
    if sending then p.lastBdSendTime = 0 ∨ p.lastBdSendTime + debugBtBdIntervalSec ≤ lastBdSendTime
    else p.lastBdSendTime ≤ lastBdSendTime

/-- The packets so far are 60 seconds apart, and the pacing records what it should. -/
structure BdLink.Spaced (s : BdLink) : Prop where
  due : s.Due
  timed : Timed s.sent s.clock s.acknowledged s.main.nextBdSendTime
  started : ∀ t r stage, s.pc = .tryBd t r stage → t.monotonic ≤ s.clock
  waits : ∀ t r q i, s.pc = .tryBd t r (.wait q i) → i < s.sent.length
  debug : DebugRead s.sent s.btSending.isSome s.debug.gDebugBtLastBdSendTime

/-! ## The steps -/

theorem debugBtHandleHexPayloadLine_last (d : DebugBt) (line : List Char) :
    (debugBtHandleHexPayloadLine d line).gDebugBtLastBdSendTime = d.gDebugBtLastBdSendTime := by
  unfold debugBtHandleHexPayloadLine debugBtBdEnqueue
  repeat' split
  all_goals rfl

theorem Timed.transmit (h : Timed s.sent s.clock s.acknowledged s.main.nextBdSendTime) (data : List UInt8)
    (segment : Option BdSegment)
    (hapart : (bdSendPacket data).isSome = true → ∀ p ∈ s.sent.getLast?, p.clock + bdSendIntervalSec ≤ s.clock) :
    Timed (s.transmit data segment).sent s.clock s.acknowledged s.main.nextBdSendTime := by
  rw [BdLink.sent_transmit]
  split
  · exact h.snoc rfl (hapart ‹_›)
  · exact h

/-- Behind a segment nothing is known of the Bluetooth thread. -/
theorem DebugRead.transmit {sending : Bool} (h : DebugRead s.sent sending s.debug.gDebugBtLastBdSendTime)
    (data : List UInt8) (segment : BdSegment) :
    DebugRead (s.transmit data (some segment)).sent sending s.debug.gDebugBtLastBdSendTime := by
  rw [BdLink.sent_transmit]
  split
  · intro p hp hsegment
    rw [List.getLast?_concat, Option.mem_some_iff] at hp
    rw [← hp] at hsegment
    cases hsegment
  · exact h

namespace BdLink.Spaced

theorem boot (disk : Disk) (clock wall : Nat) : (BdLink.boot disk clock wall).Spaced where
  due := .boot disk clock wall
  timed := ⟨.nil, fun _ hp => (nomatch hp), fun _ hi => (nomatch hi)⟩
  started := fun _ _ _ hpc => nomatch hpc
  waits := fun _ _ _ _ hpc => nomatch hpc
  debug := fun _ hp => nomatch hp

/-- The pacing of a segment that follows an acknowledged one. -/
theorem apart_main (h : s.Spaced) {t : Turn} {r : PackResult mainPathCount} {q : UInt32} {ok : Bool}
    (hpc : s.pc = .tryBd t r (.send q)) (hpaced : s.Paced (.main ok))
    (hsent : (bdSendPacket r.rawBuf).isSome = true) :
    ∀ p ∈ s.sent.getLast?, p.clock + bdSendIntervalSec ≤ s.clock := by
  intro p hp
  have hsends : s.sends (.main ok) = true := by
    rw [BdLink.sends, hpc]
    exact hsent
  have hacked : s.sent.length - 1 ∈ s.acknowledged := hpaced hsends p hp
  obtain ⟨p', hp', hnext⟩ := h.timed.acked _ hacked
  rw [List.getLast?_eq_getElem?, Option.mem_def, hp', Option.some.injEq] at hp
  obtain ⟨-, -, -, -, -, htime⟩ := MainSend.bdDue_eq_some (h.due _ _ _ hpc)
  have hclock := h.started _ _ _ hpc
  rw [hp] at hnext
  omega

/-- The pacing of the Bluetooth thread. -/
theorem apart_bt (h : s.Spaced) {data : List UInt8} (hdata : s.btSending = some data) (hpaced : s.Paced .btSend)
    (hsent : (bdSendPacket data).isSome = true) :
    ∀ p ∈ s.sent.getLast?, p.clock + bdSendIntervalSec ≤ s.clock := by
  intro p hp
  have hsends : s.sends .btSend = true := by
    rw [BdLink.sends, hdata]
    exact hsent
  obtain ⟨hsegment, hpos, hread⟩ := hpaced hsends p hp
  have hdebug := h.debug p hp hsegment
  rw [hdata] at hdebug
  have hdebug : p.lastBdSendTime = 0 ∨ p.lastBdSendTime + 60 ≤ s.debug.gDebugBtLastBdSendTime := hdebug
  rcases hdebug with hzero | hlast
  · exact absurd hzero hpos
  · show p.clock + 60 ≤ s.clock
    omega

theorem step (h : s.Spaced) {a : BdAction} {c : Option Commit} (hpaced : s.Paced a)
    (hs : s.step a = some (s', c)) : s'.Spaced := by
  have hdue' := h.due.step hs
  rcases BdLink.stepped h.due hs
  case turned hdue hturn =>
    refine ⟨hdue', ?_, fun _ _ _ hpc => (nomatch hpc), fun _ _ _ _ hpc => (nomatch hpc), h.debug⟩
    exact (MainSend.turn_of_not_bdDue hdue hturn).1 ▸ h.timed
  case due hclock _ =>
    refine ⟨hdue', h.timed, fun t r stage hpc => ?_, fun t r q i hpc => (by cases hpc), h.debug⟩
    cases hpc
    exact Nat.le_of_eq hclock
  case ensured hpc | ready hpc | sampled hpc =>
    refine ⟨hdue', h.timed, fun t r stage hpc' => ?_, fun t r q i hpc' => (by cases hpc'), h.debug⟩
    cases hpc'
    exact h.started _ _ _ hpc
  case sentBd hpc hsent =>
    refine ⟨hdue', h.timed.transmit _ _ (h.apart_main hpc hpaced), fun t r stage hpc' => ?_,
      fun t r q i hpc' => ?_, h.debug.transmit _ _⟩
    · cases hpc'
      exact h.started _ _ _ hpc
    · cases hpc'
      show s.sent.length < (s.transmit _ _).sent.length
      rw [BdLink.sent_transmit, if_pos hsent, List.length_append]
      exact Nat.lt_succ_self _
  case notSent _ _ r _ _ main _ hpc hturn hnext =>
    have htimed := h.timed.transmit r.rawBuf (some (s.segment r)) (h.apart_main hpc hpaced)
    exact ⟨hdue', hnext ▸ htimed, fun _ _ _ hpc => (nomatch hpc), fun _ _ _ _ hpc => (nomatch hpc),
      h.debug.transmit _ _⟩
  case failed hpc _ hturn hnext =>
    exact ⟨hdue', hnext ▸ h.timed, fun _ _ _ hpc => (nomatch hpc), fun _ _ _ _ hpc => (nomatch hpc), h.debug⟩
  case acknowledged hpc _ _ hturn hnext _ =>
    have htimed := h.timed.acknowledge (h.waits _ _ _ _ hpc)
    exact ⟨hdue', hnext ▸ htimed, fun _ _ _ hpc => (nomatch hpc), fun _ _ _ _ hpc => (nomatch hpc), h.debug⟩
  case btLine line =>
    refine ⟨hdue', h.timed, h.started, h.waits, ?_⟩
    show DebugRead s.sent _ (debugBtHandleHexPayloadLine s.debug line).gDebugBtLastBdSendTime
    rw [debugBtHandleHexPayloadLine_last]
    exact h.debug
  case btFlush data debug hidle hflush =>
    obtain ⟨queue, -, rfl, hinterval⟩ := debugBtBdFlushOnce_eq_some hflush
    refine ⟨hdue', h.timed, h.started, h.waits, fun p hp hsegment => ?_⟩
    have hread := h.debug p hp hsegment
    rw [hidle] at hread
    have hread : p.lastBdSendTime ≤ s.debug.gDebugBtLastBdSendTime := hread
    show p.lastBdSendTime = 0 ∨ p.lastBdSendTime + debugBtBdIntervalSec ≤ s.wall
    omega
  case btSend data hdata =>
    refine ⟨hdue', h.timed.transmit _ _ (h.apart_bt hdata hpaced), h.started, fun t r q i hpc => ?_,
      fun p hp hsegment => ?_⟩
    · exact Nat.lt_of_lt_of_le (h.waits t r q i hpc) (s.sent_prefix data none).length_le
    · show p.lastBdSendTime ≤ s.debug.gDebugBtLastBdSendTime
      have hp : p ∈ (s.transmit data none).sent.getLast? := hp
      rw [BdLink.sent_transmit] at hp
      split at hp
      · rw [List.getLast?_concat, Option.mem_some_iff] at hp
        rw [← hp]
      · have hread := h.debug p hp hsegment
        rw [hdata] at hread
        have hread : p.lastBdSendTime = 0 ∨ p.lastBdSendTime + 60 ≤ s.debug.gDebugBtLastBdSendTime := hread
        omega
  case tick hclock =>
    exact ⟨hdue', h.timed.tick hclock, fun t r stage hpc => (h.started t r stage hpc).trans hclock, h.waits,
      h.debug⟩
  all_goals exact ⟨hdue', h.timed, h.started, h.waits, h.debug⟩

end BdLink.Spaced

/-- In every run in which the sender's pacing records the packet before each, the packets
are 60 seconds apart, each from the next. -/
theorem bdSends_apart {disk : Disk} {clock wall : Nat}
    (hrun : Runs BdLink.step BdLink.Paced (.boot disk clock wall) s) :
    s.sent.IsChain fun p q => p.clock + bdSendIntervalSec ≤ q.clock := by
  have h : s.Spaced := hrun.invariant (.boot disk clock wall) fun _ _ _ _ h hpaced hs => h.step hpaced hs
  exact h.timed.chain

/-- A message is logged, packed, not sent over 4G, and about to be sent over BeiDou. -/
def dueRun : List BdAction :=
  [.append (firstLog [short 0]), .turn Turn.gateway, .turn { Turn.gateway with egReady := false },
    .line "$BDICP,".toList, .turn Turn.gateway, .main true, .main true, .main true]

/-- The Bluetooth thread sends three packets. -/
def btRun : List BdAction :=
  [.tick 0 1, .btLine "00".toList, .btLine "01".toList, .btLine "02".toList, .btFlush, .btSend, .tick 60 61, .btFlush,
    .btSend, .tick 125 126, .btFlush, .btSend]

/-- An iteration as a gateway. -/
def Turn.gatewayAt (monotonic : Nat) : Turn := { Turn.gateway with monotonic := monotonic }

/-- `main_send_thread` sends two segments, the first of them acknowledged. -/
def ackedRun : List BdAction :=
  dueRun ++ ([.main true, .tick 5 5, .reply 0 "$BDFKI,060000,TCQ,Y,0".toList, .main true,
    .append (firstLog [short 1]), .turn (.gatewayAt 5), .turn { Turn.gatewayAt 5 with egReady := false },
    .turn (.gatewayAt 5), .tick 65 65, .turn (.gatewayAt 65), .turn (.gatewayAt 65), .main true, .main true, .main true,
    .main true] : List BdAction)

theorem bdSends_apart_three :
    (∃ s : BdLink, s.sent.map Packet.clock = [0, 60, 125] ∧
      s.sent.IsChain fun p q => p.clock + bdSendIntervalSec ≤ q.clock) ∧
    ∃ s : BdLink, s.sent.map Packet.clock = [0, 65] ∧
      s.sent.IsChain fun p q => p.clock + bdSendIntervalSec ≤ q.clock := by
  have hbt : (runList BdLink.step (fun s a => decide (s.Paced a)) (.boot Disk.blank 0 0) btRun).map (fun s =>
      s.sent.map Packet.clock) = some [0, 60, 125] := by
    decide +kernel
  have hmain : (runList BdLink.step (fun s a => decide (s.Paced a)) (.boot Disk.blank 0 0) ackedRun).map (fun s =>
      s.sent.map Packet.clock) = some [0, 65] := by
    decide +kernel
  obtain ⟨s, hs, hsent⟩ := Option.map_eq_some_iff.mp hbt
  obtain ⟨s', hs', hsent'⟩ := Option.map_eq_some_iff.mp hmain
  exact ⟨⟨s, hsent, bdSends_apart (.of_runList (fun _ _ h => of_decide_eq_true h) .start hs)⟩,
    s', hsent', bdSends_apart (.of_runList (fun _ _ h => of_decide_eq_true h) .start hs')⟩

/-- The module reports that it has not sent the segment. -/
def atOnceRun : List BdAction :=
  dueRun ++ ([.main true, .reply 0 "$BDFKI,060000,TCQ,N,1".toList, .main true, .turn Turn.gateway,
    .turn Turn.gateway, .main true, .main true, .main true, .main true] : List BdAction)

/-- It is sent again in the same second. -/
theorem bdSends_at_once :
    ¬∀ disk clock wall s, Runs BdLink.step (fun _ _ => True) (.boot disk clock wall) s →
      s.sent.IsChain fun p q => p.clock + bdSendIntervalSec ≤ q.clock := by
  intro happart
  have h : (runList BdLink.step (fun _ _ => true) (.boot Disk.blank 0 0) atOnceRun).map (fun s =>
      s.sent.map Packet.clock) = some [0, 0] := by
    decide +kernel
  obtain ⟨s, hs, hsent⟩ := Option.map_eq_some_iff.mp h
  have hchain := happart Disk.blank 0 0 s (.of_runList (fun _ _ _ => trivial) .start hs)
  have hclocks : (s.sent.map Packet.clock).IsChain fun c c' => c + bdSendIntervalSec ≤ c' :=
    (List.isChain_map Packet.clock).mpr hchain
  rw [hsent] at hclocks
  exact absurd hclocks (by decide)

end Dtu
