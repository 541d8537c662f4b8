import Dtu.Framework.Script
import Dtu.Framework.Watch
import Dtu.Impl.EgCommand

/-!
# What the 4G module is asked and answers

`eg_send_cmd` watches the text that it has read for the answer and for `ERROR` (`egCmdResponse_eq_zero_iff`): what it
returns does not depend on how the module's output is cut into reads just when no `ERROR` comes before the
answer (`egCmdResponse_cut_iff`). `eg_init` sends its commands in their order up to the first
required one without an answer, so `main_ensure_eg_ready` makes 4G available just when the module has answered
all of them, where it is initialised, and `eg_connect` has returned 0, where it is called (`mainEnsureEgReady_dialogue`).
-/

namespace Dtu

open Stdio Program Watch

/-! ## One command -/

/-- The text that `eg_send_cmd` has, of what the module has sent. -/
def egCmdText (stream : List Char) : List Char := cstr (stream.take (egCmdSize - 1))

/-- A read into `buf`. -/
def egCmdPush (buf chunk : List Char) : List Char := buf ++ chunk.take (egCmdSize - 1 - buf.length)

theorem egCmdPush_take (s chunk : List Char) :
    egCmdPush (s.take (egCmdSize - 1)) chunk = (s ++ chunk).take (egCmdSize - 1) := by
  rw [egCmdPush, List.take_append, List.length_take]
  congr 2
  omega

theorem foldl_egCmdPush (s : List Char) (reads : List (List Char)) :
    reads.foldl egCmdPush (s.take (egCmdSize - 1)) = (s ++ reads.flatten).take (egCmdSize - 1) := by
  induction reads generalizing s with
  | nil => rw [List.foldl_nil, List.flatten_nil, List.append_nil]
  | cons chunk reads ih => rw [List.foldl_cons, egCmdPush_take, ih, List.flatten_cons, List.append_assoc]

theorem cstr_prefix_append (s t : List Char) : cstr s <+: cstr (s ++ t) := by
  rw [cstr, cstr, List.takeWhile_append]
  split
  · exact (List.takeWhile_prefix _).trans (List.prefix_append _ _)
  · exact List.prefix_refl _

theorem egExpected_iff {expected : String} {buf : List Char} :
    egExpected (some expected) buf = true ↔ expected.toList <:+: cstr buf := by
  rw [egExpected, Option.any_some, strstr_isSome_iff]

theorem egError_iff {buf : List Char} : egError buf = true ↔ "ERROR".toList <:+: cstr buf := by
  rw [egError, strstr_isSome_iff]

theorem egExpected_grows (expectedResp : Option String) (buf chunk : List Char)
    (h : egExpected expectedResp buf = true) : egExpected expectedResp (egCmdPush buf chunk) = true := by
  cases expectedResp with
  | none => cases h
  | some expected =>
    rw [egExpected_iff] at h ⊢
    exact h.trans (cstr_prefix_append _ _).isInfix

/-- The loop watches for the answer and for `ERROR`. -/
theorem egCmdResponse_eq_watch {expectedResp : Option String} {buf : List Char} (reads : List (List Char))
    (hfound : egExpected expectedResp buf = false) (hfailed : egError buf = false) :
    egCmdResponse expectedResp buf reads =
      if watch egCmdPush (egExpected expectedResp) egError buf reads = some true then 0 else -1 := by
  induction reads generalizing buf with
  | nil => rfl
  | cons chunk reads ih =>
    rw [egCmdResponse, watch]
    by_cases hread : chunk.take (egCmdSize - 1 - buf.length) = []
    · have hsame : egCmdPush buf chunk = buf := by rw [egCmdPush, hread, List.append_nil]
      simp only [hread, if_true, hsame, hfound, hfailed, Bool.false_eq_true, if_false]
      exact ih hfound hfailed
    · show (if _ then _ else if egExpected expectedResp (egCmdPush buf chunk) then _ else _) = _
      rw [if_neg hread]
      cases hnow : egExpected expectedResp (egCmdPush buf chunk) with
      | true => simp
      | false =>
        cases hfails : egError (egCmdPush buf chunk) with
        | true =>
          show (if egError (egCmdPush buf chunk) then _ else _) = _
          simp [hfails]
        | false =>
          have hnext := ih hnow hfails
          show (if egError (egCmdPush buf chunk) then _ else _) = _
          simp only [hfails, Bool.false_eq_true, if_false]
          exact hnext

variable {expected : String}

theorem egExpected_nil (hne : expected ≠ "") : egExpected (some expected) [] = false := by
  rw [Bool.eq_false_iff, ne_eq, egExpected_iff]
  intro h
  exact hne (String.toList_eq_nil_iff.mp (List.infix_nil.mp h))

theorem egError_nil : egError [] = false := by decide

/-- `eg_send_cmd` returns 0 if the answer is in what it has read in the end, and also was where a read has ended
behind an `ERROR`. -/
theorem egCmdResponse_eq_zero_iff (hne : expected ≠ "") (reads : List (List Char)) :
    egCmdResponse (some expected) [] reads = 0 ↔ expected.toList <:+: egCmdText reads.flatten ∧
      ∀ k, "ERROR".toList <:+: egCmdText (reads.take k).flatten →
        expected.toList <:+: egCmdText (reads.take k).flatten := by
  have htext : ∀ reads : List (List Char), reads.foldl egCmdPush [] = reads.flatten.take (egCmdSize - 1) :=
    foldl_egCmdPush []
  rw [egCmdResponse_eq_watch reads (egExpected_nil hne) egError_nil]
  have hwatch := watch_eq_true_iff (egExpected_grows (some expected)) (egExpected_nil hne) egError_nil reads
  simp only [htext, egExpected_iff, egError_iff] at hwatch
  rw [← egCmdText] at hwatch
  rw [ite_eq_left_iff]
  simp only [reduceCtorEq, imp_false, not_not]
  exact hwatch

/-- What `eg_send_cmd` returns is the same for all ways to cut the module's output into reads just when
the answer is not in what it reads, or is there wherever `ERROR` is. -/
theorem egCmdResponse_cut_iff (hne : expected ≠ "") (stream : List Char) :
    (∀ reads reads', reads.flatten = stream → reads'.flatten = stream →
      egCmdResponse (some expected) [] reads = egCmdResponse (some expected) [] reads') ↔
      (expected.toList <:+: egCmdText stream → ∀ front, front <+: stream →
        "ERROR".toList <:+: egCmdText front → expected.toList <:+: egCmdText front) := by
  have hcut := watch_cut_iff (egExpected_grows (some expected)) (egExpected_nil hne) egError_nil
    (foldl_egCmdPush []) stream
  simp only [egExpected_iff, egError_iff] at hcut
  refine Iff.trans ?_ hcut
  simp only [egCmdResponse_eq_watch _ (egExpected_nil hne) egError_nil]
  refine forall_congr' fun reads => forall_congr' fun reads' => imp_congr_right fun _ => imp_congr_right fun _ => ?_
  split_ifs with h h' h'
  · exact iff_of_true rfl (iff_of_true h h')
  · exact iff_of_false (by decide) fun hiff => h' (hiff.mp h)
  · exact iff_of_false (by decide) fun hiff => h (hiff.mpr h')
  · exact iff_of_true rfl (iff_of_false h h')

/-- The answer and `ERROR`: what is seen of them depends on the reads. -/
theorem egCmdResponse_cut_two :
    (∀ reads reads', reads.flatten = "ERROR\r\nOK\r\n".toList → reads'.flatten = "ERROR\r\nOK\r\n".toList →
      egCmdResponse (some "OK") [] reads = egCmdResponse (some "OK") [] reads') ↔
      ("OK".toList <:+: egCmdText "ERROR\r\nOK\r\n".toList → ∀ front, front <+: "ERROR\r\nOK\r\n".toList →
        "ERROR".toList <:+: egCmdText front → "OK".toList <:+: egCmdText front) :=
  egCmdResponse_cut_iff (by decide) "ERROR\r\nOK\r\n".toList

/-! ## `eg_init` -/

/-- A command of `eg_init`. -/
def egStage (cmd : String) (expectedResp : Option String) (timeoutSec : Nat) (required : Bool) : Stage EgOp EgOp.Ans where
  op := .cmd cmd timeoutSec
  required
  ok reads := egCmdResponse expectedResp [] reads = 0

/-- Its commands. -/
def egInitStages : List (Stage EgOp EgOp.Ans) :=
  [egStage "AT\r\n" (some "OK") 2 true,
    egStage "ATE0\r\n" (some "OK") 3 false,
    egStage "ATI\r\n" (some "Revision") 8 true,
    egStage "AT+CPIN?\r\n" (some "READY") 5 true,
    egStage "AT+CSQ\r\n" none 2 false,
    egStage "AT+CEREG?\r\n" (some "1") 10 true,
    egStage "AT+QICLOSE=0\r\n" (some "OK") 5 false,
    egStage "AT+QIDEACT=1\r\n" (some "OK") 10 false,
    egStage "AT+QICSGP=1,1,\"CMNET\",\"\",\"\",1\r\n" (some "OK") 5 true,
    egStage "AT+QIACT=1\r\n" (some "OK") 150 true,
    egStage "AT+QIACT?\r\n" none 2 false]

variable {α : Type} {cmd : String} {expectedResp : Option String} {timeoutSec : Nat} {stages : List (Stage EgOp EgOp.Ans)}

theorem script_required (k : Bool → EgProgram α) :
    (script (egStage cmd expectedResp timeoutSec true :: stages) >>= k) =
      egSendCmd cmd expectedResp timeoutSec >>= fun ret => if ret ≠ 0 then k false else script stages >>= k := by
  show Program.call _ _ = Program.call _ _
  refine congrArg (Program.call _) (funext fun reads => ?_)
  show Program.bind (if (true && !decide (egCmdResponse expectedResp [] reads = 0)) = true then pure false
    else script stages) k = if egCmdResponse expectedResp [] reads ≠ 0 then k false else script stages >>= k
  by_cases hret : egCmdResponse expectedResp [] reads = 0
  · rw [decide_eq_true hret, if_neg (by decide), if_neg (not_not_intro hret)]
    rfl
  · rw [decide_eq_false hret, if_pos (by decide), if_pos hret]
    rfl

theorem script_optional (k : Bool → EgProgram α) :
    (script (egStage cmd expectedResp timeoutSec false :: stages) >>= k) =
      egSendCmd cmd expectedResp timeoutSec >>= fun _ => script stages >>= k := rfl

/-- `eg_init` follows the script. -/
theorem egInit_eq : egInit = script egInitStages >>= fun b => pure (if b then 0 else -1) := by
  simp only [egInitStages, script_required, script_optional]
  rfl

/-- The commands that `eg_init` requires an answer to, the answer and the timeout. -/
def egInitAnswers : List (String × String × Nat) :=
  [("AT\r\n", "OK", 2), ("ATI\r\n", "Revision", 8), ("AT+CPIN?\r\n", "READY", 5), ("AT+CEREG?\r\n", "1", 10),
    ("AT+QICSGP=1,1,\"CMNET\",\"\",\"\",1\r\n", "OK", 5), ("AT+QIACT=1\r\n", "OK", 150)]

theorem forall_egInitStages {P : Stage EgOp EgOp.Ans → Prop} :
    (∀ stage ∈ egInitStages, stage.required = true → P stage) ↔
      ∀ q ∈ egInitAnswers, P (egStage q.1 (some q.2.1) q.2.2 true) := by
  simp [egInitStages, egInitAnswers, egStage]

theorem egInitAnswers_ne : ∀ q ∈ egInitAnswers, q.2.1 ≠ "" := by decide

/-- What has been done, with the answers. -/
abbrev EgDialogue : Type := List (Σ o, EgOp.Ans o)

/-- The answer is in the output, and also was where a read has ended behind an `ERROR`. -/
def Answered (expected : String) (reads : List (List Char)) : Prop :=
  expected.toList <:+: egCmdText reads.flatten ∧
    ∀ k, "ERROR".toList <:+: egCmdText (reads.take k).flatten → expected.toList <:+: egCmdText (reads.take k).flatten

/-- The module has answered the commands of `eg_init`. -/
def Initializes (es : EgDialogue) : Prop :=
  ∀ q ∈ egInitAnswers, ∃ reads, ⟨.cmd q.1 q.2.2, reads⟩ ∈ es ∧ Answered q.2.1 reads

theorem egInit_ran {es : EgDialogue} {ret : Int} (h : Ran Sigma.mk egInit es ret) :
    es.map Sigma.fst <+: egInitStages.map (·.op) ∧ (ret = 0 ↔ Initializes es) := by
  rw [egInit_eq, ran_bind] at h
  obtain ⟨es₁, es₂, b, rfl, hscript, hret⟩ := h
  obtain ⟨rfl, rfl⟩ := ran_pure.mp hret
  have hfollowed := ran_script.mp hscript
  rw [List.append_nil]
  refine ⟨hfollowed.calls, ?_⟩
  have hiff := hfollowed.eq_true_iff (by decide)
  have hret : (if b then 0 else -1 : Int) = 0 ↔ b = true := by cases b <;> decide
  rw [hret, hiff]
  rw [forall_egInitStages]
  refine forall₂_congr fun q hq => exists_congr fun reads => and_congr_right fun _ => ?_
  exact decide_eq_true_iff.trans (egCmdResponse_eq_zero_iff (egInitAnswers_ne q hq) reads)

/-! ## `main_ensure_eg_ready` -/

/-- `eg_connect` has returned 0 for an answer to its `AT+QIOPEN`. -/
def HasConnected (es : EgDialogue) : Prop :=
  ∃ port answer, ⟨.qiopen (tcpCmd port), answer⟩ ∈ es ∧ egConnect answer.1 answer.2 = 0

/-- The value that `g_4g_available` is set to. -/
def setTo : (Σ o, EgOp.Ans o) → Option Bool
  | ⟨.mainSet4gAvailable available, _⟩ => some available
  | _ => none

/-- What `g_4g_available` has been set to last. -/
def lastSet (es : EgDialogue) : Option Bool := (es.filterMap setTo).getLast?

/-- What is done to connect. -/
def EgOp.connecting : EgOp → Bool
  | .cmd cmd timeoutSec => cmd = "AT+QICLOSE=0\r\n" && timeoutSec = 3
  | .qiopen _ => true
  | .serverPort => true
  | .stopFlag => true
  | .interruptibleSleep _ => true
  | .mainSet4gAvailable _ => true
  | _ => false

theorem egConnectCmds_ran {es : EgDialogue} {ret : Int} (h : Ran Sigma.mk egConnectCmds es ret) :
    ∃ port reads answer, es = [⟨.serverPort, port⟩, ⟨.cmd "AT+QICLOSE=0\r\n" 3, reads⟩, ⟨.qiopen (tcpCmd port), answer⟩] ∧
      ret = egConnect answer.1 answer.2 := by
  obtain ⟨port, es₁, rfl, hclose⟩ := ran_op_bind.mp h
  obtain ⟨reads, es₂, rfl, hopen⟩ := ran_op_bind.mp hclose
  obtain ⟨answer, es₃, rfl, hret⟩ := ran_op_bind.mp hopen
  obtain ⟨rfl, rfl⟩ := ran_pure.mp hret
  exact ⟨port, reads, answer, rfl, rfl⟩

theorem hasConnected_append {es es' : EgDialogue} : HasConnected (es ++ es') ↔ HasConnected es ∨ HasConnected es' := by
  simp only [HasConnected, List.mem_append, or_and_right, exists_or]

theorem lastSet_append {front : EgDialogue} (hfront : front.filterMap setTo = []) (es : EgDialogue) :
    lastSet (front ++ es) = lastSet es := by
  rw [lastSet, List.filterMap_append, hfront, List.nil_append, lastSet]

/-- How the loop of `main_ensure_eg_ready` ends: with a connection and 4G available, or without. -/
structure ConnectEnds (flags : EgFlags) (es : EgDialogue) (r : Int × EgFlags) : Prop where
  connecting : ∀ e ∈ es, e.1.connecting = true
  ends : r = (0, { flags with connected := true }) ∧ HasConnected es ∧ lastSet es = some true ∨
    r.1 ≠ 0 ∧ ¬HasConnected es ∧ lastSet es ≠ some true

variable {flags : EgFlags} {es front : EgDialogue} {r : Int × EgFlags}

/-- It goes on behind what has not made a connection. -/
theorem ConnectEnds.append (h : ConnectEnds flags es r) (hconnecting : ∀ e ∈ front, e.1.connecting = true)
    (hset : front.filterMap setTo = []) (hnot : ¬HasConnected front) : ConnectEnds flags (front ++ es) r where
  connecting := List.forall_mem_append.mpr ⟨hconnecting, h.connecting⟩
  ends := by
    rw [lastSet_append hset, hasConnected_append, or_iff_right hnot]
    exact h.ends

theorem connectEnds_failed {u : Unit} (ret : Int) (hret : ret ≠ 0) :
    ConnectEnds flags [⟨.mainSet4gAvailable false, u⟩] (ret, flags) where
  connecting := by simp [EgOp.connecting]
  ends := by
    refine .inr ⟨hret, by simp [HasConnected], ?_⟩
    show some false ≠ some true
    decide

theorem connectEnds_interrupted : ConnectEnds flags [⟨.interruptibleSleep 30, true⟩] (-1, flags) where
  connecting := by simp [EgOp.connecting]
  ends := .inr ⟨Int.neg_ne_zero.mpr one_ne_zero, by simp [HasConnected], Option.some_ne_none _ |>.symm⟩

/-- The loop returns 0 just when an `eg_connect` does. -/
theorem mainConnectEg_ran {turns : Nat} (h : Ran Sigma.mk (mainConnectEg flags turns) es r) : ConnectEnds flags es r := by
  induction turns generalizing es with
  | zero =>
    obtain ⟨_, es, rfl, hret⟩ := ran_op_bind.mp h
    obtain ⟨rfl, rfl⟩ := ran_pure.mp hret
    exact connectEnds_failed (-2) (by decide)
  | succ turns ih =>
    obtain ⟨stop, es₁, rfl, hbody⟩ := ran_op_bind.mp h
    rw [← List.singleton_append]
    have hstop : ∀ {r}, ConnectEnds flags es₁ r → ConnectEnds flags ([⟨.stopFlag, stop⟩] ++ es₁) r := fun h =>
      h.append (by simp [EgOp.connecting]) rfl (by simp [HasConnected])
    cases stop with
    | true =>
      obtain ⟨_, es, rfl, hret⟩ := ran_op_bind.mp hbody
      obtain ⟨rfl, rfl⟩ := ran_pure.mp hret
      exact hstop (connectEnds_failed (-2) (by decide))
    | false =>
      obtain ⟨es₂, es₃, ret, rfl, hconnect, hrest⟩ := ran_bind.mp hbody
      obtain ⟨port, reads, answer, rfl, rfl⟩ := egConnectCmds_ran hconnect
      apply hstop
      split at hrest
      · rename_i hopened
        obtain ⟨_, es, rfl, hret⟩ := ran_op_bind.mp hrest
        obtain ⟨rfl, rfl⟩ := ran_pure.mp hret
        exact ⟨by simp [EgOp.connecting], .inl ⟨rfl, ⟨port, answer, by simp, hopened⟩, rfl⟩⟩
      · rename_i hnot
        have hfront : ∀ {es}, ConnectEnds flags es r → ConnectEnds flags ([⟨.serverPort, port⟩,
            ⟨.cmd "AT+QICLOSE=0\r\n" 3, reads⟩, ⟨.qiopen (tcpCmd port), answer⟩] ++ es) r := fun h =>
          h.append (by simp [EgOp.connecting]) rfl fun ⟨port', answer', hmem, hopens⟩ => by
            have heq : answer' = answer := by simp_all
            exact hnot (heq ▸ hopens)
        apply hfront
        split at hrest
        · obtain ⟨interrupted, es₄, rfl, hnext⟩ := ran_op_bind.mp hrest
          cases interrupted with
          | true =>
            obtain ⟨rfl, rfl⟩ := ran_pure.mp hnext
            exact connectEnds_interrupted
          | false =>
            rw [← List.singleton_append]
            exact (ih hnext).append (by simp [EgOp.connecting]) rfl (by simp [HasConnected])
        · exact ih hrest

/-- The commands of `eg_init` are not among what is done to connect. -/
theorem initializes_append (hconnecting : ∀ e ∈ es, e.1.connecting = true) (front : EgDialogue) :
    Initializes (front ++ es) ↔ Initializes front := by
  refine forall₂_congr fun q hq => exists_congr fun reads => and_congr_left fun _ => ?_
  rw [List.mem_append, or_iff_left]
  intro hmem
  have hnot : (EgOp.cmd q.1 q.2.2).connecting = false := (by decide :
    ∀ q ∈ egInitAnswers, (EgOp.cmd q.1 q.2.2).connecting = false) q hq
  exact absurd (hnot.symm.trans (hconnecting _ hmem)) Bool.false_ne_true

/-- `eg_init` does nothing but send commands. -/
theorem egInit_cmds {ret : Int} (h : Ran Sigma.mk egInit es ret) :
    ∀ e ∈ es, ∃ cmd timeoutSec, e.1 = .cmd cmd timeoutSec := by
  intro e he
  have hmem := (egInit_ran h).1.subset (List.mem_map.mpr ⟨e, he, rfl⟩)
  have hcmds : ∀ o ∈ egInitStages.map (·.op), ∃ cmd timeoutSec, o = .cmd cmd timeoutSec := by
    simp [egInitStages, egStage]
  exact hcmds e.1 hmem

/-- How `main_ensure_eg_ready` ends behind the UART. -/
structure ReadyEnds (flags : EgFlags) (es : EgDialogue) (r : Int × EgFlags) : Prop where
  noReopen : ∀ e ∈ es, e.1 ≠ .uartReopenEg
  ready : r.1 = 0 ↔ (flags.initialized = true ∨ Initializes es) ∧ (flags.connected = true ∨ HasConnected es)
  available : r.1 = 0 ↔ lastSet es = some true
  flags : r.1 = 0 → r.2.initialized = true ∧ r.2.connected = true

theorem mainInitializeEg_ran {connectMaxRetry : Nat} (h : Ran Sigma.mk (mainInitializeEg connectMaxRetry flags) es r) :
    ReadyEnds flags es r := by
  obtain ⟨es₁, es₂, ret, rfl, hinit, hrest⟩ := ran_bind.mp h
  -- What `eg_init` has done and returned, if it has been called.
  obtain ⟨hcmds, hret⟩ : (∀ e ∈ es₁, ∃ cmd timeoutSec, e.1 = EgOp.cmd cmd timeoutSec) ∧
      (ret = 0 ↔ flags.initialized = true ∨ Initializes es₁) := by
    unfold egInitUnless at hinit
    split at hinit
    · rename_i hinitialized
      obtain ⟨rfl, rfl⟩ := ran_pure.mp hinit
      exact ⟨fun e he => absurd he List.not_mem_nil, iff_of_true rfl (.inl hinitialized)⟩
    · rename_i hnot
      exact ⟨egInit_cmds hinit, (egInit_ran hinit).2.trans (or_iff_right hnot).symm⟩
  have hset : es₁.filterMap setTo = [] := List.filterMap_eq_nil_iff.mpr fun e he => by
    obtain ⟨cmd, timeoutSec, heq⟩ := hcmds e he
    obtain ⟨o, a⟩ := e
    cases heq
    rfl
  have hopened : ¬HasConnected es₁ := by
    rintro ⟨port, answer, hmem, -⟩
    obtain ⟨cmd, timeoutSec, heq⟩ := hcmds _ hmem
    cases heq
  have hreopen : ∀ e ∈ es₁, e.1 ≠ EgOp.uartReopenEg := fun e he heq => by
    obtain ⟨cmd, timeoutSec, hcmd⟩ := hcmds e he
    cases heq.symm.trans hcmd
  have hbehind : (∀ e ∈ es₂, e.1.connecting = true) → (r.1 = 0 ↔ ret = 0 ∧ (flags.connected = true ∨ HasConnected es₂)) →
      (r.1 = 0 ↔ lastSet es₂ = some true) → (r.1 = 0 → r.2.initialized = true ∧ r.2.connected = true) →
      ReadyEnds flags (es₁ ++ es₂) r := by
    intro hconnecting hready havailable hflags
    refine ⟨List.forall_mem_append.mpr ⟨hreopen, fun e he heq => ?_⟩, ?_, ?_, hflags⟩
    · have hnot := hconnecting e he
      rw [heq] at hnot
      exact Bool.false_ne_true hnot
    · rw [hready, hret, initializes_append hconnecting, hasConnected_append, or_iff_right hopened]
    · rw [havailable, lastSet_append hset]
  split at hrest
  · rename_i hnot
    obtain ⟨_, es, rfl, hpure⟩ := ran_op_bind.mp hrest
    obtain ⟨rfl, rfl⟩ := ran_pure.mp hpure
    refine hbehind (by simp [EgOp.connecting]) (iff_of_false (by simp) fun h => hnot h.1)
      (iff_of_false (by simp) ?_) fun h => ?_
    · show ¬some false = some true
      decide
    · exact absurd h (by simp)
  · rename_i hzero
    rw [not_not] at hzero
    dsimp only at hrest
    split at hrest
    · rename_i hconnected
      obtain ⟨_, es, rfl, hpure⟩ := ran_op_bind.mp hrest
      obtain ⟨rfl, rfl⟩ := ran_pure.mp hpure
      exact hbehind (by simp [EgOp.connecting]) (iff_of_true rfl ⟨hzero, .inl hconnected⟩) (iff_of_true rfl rfl)
        fun _ => ⟨rfl, hconnected⟩
    · rename_i hnot
      obtain ⟨hconnecting, ⟨rfl, hopens, hset⟩ | ⟨hfails, hopens, hset⟩⟩ := mainConnectEg_ran hrest
      · exact hbehind hconnecting (iff_of_true rfl ⟨hzero, .inr hopens⟩) (iff_of_true rfl hset) fun _ => ⟨rfl, rfl⟩
      · exact hbehind hconnecting (iff_of_false hfails fun h => h.2.elim hnot hopens) (iff_of_false hfails hset)
          fun h => absurd h hfails

theorem ReadyEnds.append (h : ReadyEnds flags es r) (front : EgDialogue)
    (hinits : ∀ e ∈ front, ∀ cmd timeoutSec, e.1 ≠ .cmd cmd timeoutSec)
    (hset : front.filterMap setTo = []) (hnot : ∀ e ∈ front, ∀ cmd, e.1 ≠ .qiopen cmd) :
    (r.1 = 0 ↔ (flags.initialized = true ∨ Initializes (front ++ es)) ∧
      (flags.connected = true ∨ HasConnected (front ++ es))) ∧
      (r.1 = 0 ↔ lastSet (front ++ es) = some true) ∧ (r.1 = 0 → r.2.initialized = true ∧ r.2.connected = true) := by
  have hinitializes : Initializes (front ++ es) ↔ Initializes es := by
    refine forall₂_congr fun q hq => exists_congr fun reads => and_congr_left fun _ => ?_
    rw [List.mem_append, or_iff_right]
    exact fun hmem => hinits _ hmem _ _ rfl
  have hopened : HasConnected (front ++ es) ↔ HasConnected es := by
    rw [hasConnected_append, or_iff_right]
    rintro ⟨port, answer, hmem, -⟩
    exact hnot _ hmem _ rfl
  rw [hinitializes, hopened, lastSet_append hset]
  exact ⟨h.ready, h.available, h.flags⟩

/-- `main_ensure_eg_ready` returns 0 just when the UART has been opened again, if it had to be, the module has
answered each required command of `eg_init`, if it is not initialised or the UART has been opened again, and
`eg_connect` has returned 0, if it is not connected or the UART has been opened again (what that takes of the
answer is in `egConnect_eq`); and just then it has set `g_4g_available` to 1 last. -/
theorem mainEnsureEgReady_dialogue {connectMaxRetry : Nat}
    (h : Ran Sigma.mk (mainEnsureEgReady connectMaxRetry flags) es r) :
    (r.1 = 0 ↔ ⟨.uartReopenEg, false⟩ ∉ es ∧
      (flags.initialized = true ∧ ⟨.uartReopenEg, true⟩ ∉ es ∨ Initializes es) ∧
      (flags.connected = true ∧ ⟨.uartReopenEg, true⟩ ∉ es ∨ HasConnected es)) ∧
    (r.1 = 0 ↔ lastSet es = some true) ∧ (r.1 = 0 → r.2.initialized = true ∧ r.2.connected = true) := by
  obtain ⟨generation, es₁, rfl, hfd⟩ := ran_op_bind.mp h
  obtain ⟨fdOpen, es₂, rfl, hbody⟩ := ran_op_bind.mp hfd
  split at hbody
  · obtain ⟨reopened, es₃, rfl, hrest⟩ := ran_op_bind.mp hbody
    cases reopened with
    | true =>
      have hends := mainInitializeEg_ran hrest
      have hreopened : ¬(⟨.uartReopenEg, false⟩ : Σ o, EgOp.Ans o) ∈ es₃ := fun hmem => hends.noReopen _ hmem rfl
      have happend := hends.append [⟨.power, generation⟩, ⟨.egFdOpen, fdOpen⟩, ⟨.uartReopenEg, true⟩]
        (by simp) rfl (by simp)
      simpa [hreopened] using happend
    | false =>
      obtain ⟨_, es₄, rfl, hpure⟩ := ran_op_bind.mp hrest
      obtain ⟨rfl, rfl⟩ := ran_pure.mp hpure
      refine ⟨iff_of_false (by simp) fun h => h.1 (by simp), iff_of_false (by simp) ?_, fun h => absurd h (by simp)⟩
      show ¬some false = some true
      decide
  · have hends := mainInitializeEg_ran hbody
    have hreopened : ∀ ok : Bool, (⟨.uartReopenEg, ok⟩ : Σ o, EgOp.Ans o) ∉ es₂ := fun ok hmem => hends.noReopen _ hmem rfl
    have happend := hends.append [⟨.power, generation⟩, ⟨.egFdOpen, fdOpen⟩] (by simp) rfl (by simp)
    simpa [hreopened] using happend

/-- A module that answers. -/
def goodModule : (o : EgOp) → EgOp.Ans o
  | .cmd cmd _ =>
    if cmd = "ATI\r\n" then ["EG800K\r\nRevi".toList, "sion: 1\r\nOK\r\n".toList]
    else if cmd = "AT+CPIN?\r\n" then ["+CPIN: READY\r\nOK\r\n".toList]
    else if cmd = "AT+CEREG?\r\n" then ["+CEREG: 0,1\r\nOK\r\n".toList]
    else ["OK\r\n".toList]
  | .qiopen _ => (0, [some "OK\r\n".toList, none, some "+QIOPEN: 0,0\r\n".toList])
  | .serverPort => 23738
  | .egFdOpen => true
  | .power => 0
  | .uartReopenEg => true
  | .stopFlag => false
  | .interruptibleSleep _ => false
  | .mainSet4gAvailable _ => ()

theorem mainEnsureEgReady_dialogue_good :
    let (es, r) := runWith Sigma.mk goodModule (mainEnsureEgReady 3 ⟨false, false, 0⟩)
    r.1 = 0 ∧
      (r.1 = 0 ↔ ⟨.uartReopenEg, false⟩ ∉ es ∧
        (false = true ∧ ⟨.uartReopenEg, true⟩ ∉ es ∨ Initializes es) ∧
        (false = true ∧ ⟨.uartReopenEg, true⟩ ∉ es ∨ HasConnected es)) ∧
      (r.1 = 0 ↔ lastSet es = some true) ∧ (r.1 = 0 → r.2.initialized = true ∧ r.2.connected = true) := by
  refine ⟨by decide +kernel, ?_⟩
  exact mainEnsureEgReady_dialogue (ran_runWith goodModule (mainEnsureEgReady 3 ⟨false, false, 0⟩))

end Dtu
