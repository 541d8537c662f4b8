import Dtu.Framework.Recent
import Dtu.Impl.Eg800k

/-!
# The answer to sent data

`resp` holds the last 127 characters that the module has sent (`foldl_egRespPush`), and
`eg_send_data` looks at them once behind each read: it goes by the first of these windows
with an answer in it, and there by `SEND OK` (`egSendResponse_eq`). So it needs the first
answer of the stream to be no more than 127 characters back at the end of the read that
completes it, and no `SEND OK` to come behind a failure by then (`egSendData_iff`); reads of at most 119
characters are short enough for the first (`inReach_of_short`).
-/

namespace Dtu

open Stdio Recent

/-! ## `resp` -/

theorem egRespPush_rtake (s : List Char) (c : Char) :
    egRespPush (s.rtake (egRespSize - 1)) c = (s ++ [c]).rtake (egRespSize - 1) := rtake_succ_concat s c 126

/-- What is in `resp` behind a read. -/
theorem foldl_egRespPush (s chunk : List Char) :
    chunk.foldl egRespPush (s.rtake (egRespSize - 1)) = (s ++ chunk).rtake (egRespSize - 1) := by
  induction chunk generalizing s with
  | nil => rw [List.append_nil, List.foldl_nil]
  | cons c chunk ih => rw [List.foldl_cons, egRespPush_rtake, ih, List.append_assoc, List.singleton_append]

/-! ## Answers -/

/-- The answers that say that the data has not been sent. -/
def egFailures : List (List Char) := ["SEND FAIL".toList, "ERROR".toList, "CLOSED".toList]

/-- All answers. -/
def egAnswers : List (List Char) := "SEND OK".toList :: egFailures

/-- What the first answer in a text says: that the data has been sent, or that it has not. -/
def egVerdict : List Char → Option Bool
  | [] => none
  | c :: s =>
    if "SEND OK".toList.isPrefixOf (c :: s) then some true
    else if egFailures.any fun answer => answer.isPrefixOf (c :: s) then some false
    else egVerdict s

/-- A text from its first answer on. -/
def egFromAnswer : List Char → List Char
  | [] => []
  | c :: s => if egAnswers.any fun answer => answer.isPrefixOf (c :: s) then c :: s else egFromAnswer s

/-- There is an answer in a text. -/
def HasAnswer (s : List Char) : Prop := ∃ answer ∈ egAnswers, answer <:+: s

instance (s : List Char) : Decidable (HasAnswer s) := inferInstanceAs (Decidable (∃ answer ∈ egAnswers, _))

/-- What has been read behind each read, and the text `s` before. -/
def egTexts : List Char → List (List Char) → List (List Char)
  | _, [] => []
  | s, chunk :: chunks => (s ++ chunk) :: egTexts (s ++ chunk) chunks

/-- What has been read at the end of the read that completes the first answer. -/
def egAnswered (reads : List (List Char)) : Option (List Char) := (egTexts [] reads).find? fun s => HasAnswer s

/-- There the first answer begins in the last 127 characters. -/
def InReach (reads : List (List Char)) : Prop :=
  ∀ s ∈ egAnswered reads, (egFromAnswer s).length ≤ egRespSize - 1

instance (reads : List (List Char)) : Decidable (InReach reads) :=
  inferInstanceAs (Decidable (∀ s ∈ egAnswered reads, _))

/-- The first answer is a failure, and a `SEND OK` comes behind it in what has been read there. -/
def Overtaken (reads : List (List Char)) : Prop :=
  egVerdict reads.flatten = some false ∧ ∃ s ∈ egAnswered reads, "SEND OK".toList <:+: s

instance (reads : List (List Char)) : Decidable (Overtaken reads) := inferInstanceAs (Decidable (_ ∧ _))

/-- No answer is in another. -/
theorem eq_of_mem_egAnswers : ∀ answer ∈ egAnswers, ∀ answer' ∈ egAnswers, answer <:+: answer' → answer = answer' := by
  decide

theorem length_egAnswers : ∀ answer ∈ egAnswers, answer.length ≤ 9 := by decide

theorem not_hasAnswer_nil : ¬HasAnswer [] := by decide

theorem HasAnswer.mono {s t : List Char} (h : HasAnswer s) (hst : s <:+: t) : HasAnswer t := by
  obtain ⟨answer, hanswer, hs⟩ := h
  exact ⟨answer, hanswer, hs.trans hst⟩

theorem any_egAnswers {s : List Char} :
    (egAnswers.any fun answer => answer.isPrefixOf s) = true ↔ ∃ answer ∈ egAnswers, answer <+: s := by
  rw [List.any_eq_true]
  simp only [List.isPrefixOf_iff_prefix]

theorem egFromAnswer_suffix (s : List Char) : egFromAnswer s <:+ s := by
  induction s with
  | nil => exact List.suffix_rfl
  | cons c s ih =>
    rw [egFromAnswer]
    split
    · exact List.suffix_rfl
    · exact ih.trans (List.suffix_cons c s)

/-- It begins with an answer. -/
theorem prefix_egFromAnswer {s : List Char} (h : HasAnswer s) : ∃ answer ∈ egAnswers, answer <+: egFromAnswer s := by
  induction s with
  | nil => exact absurd h not_hasAnswer_nil
  | cons c s ih =>
    rw [egFromAnswer]
    split
    · exact any_egAnswers.mp ‹_›
    · obtain ⟨answer, hanswer, hsub⟩ := h
      rcases List.infix_cons_iff.mp hsub with hpre | hsub
      · exact absurd (any_egAnswers.mpr ⟨answer, hanswer, hpre⟩) ‹_›
      · exact ih ⟨answer, hanswer, hsub⟩

/-- All answers of a text are there. -/
theorem infix_egFromAnswer {s answer : List Char} (hanswer : answer ∈ egAnswers) :
    answer <:+: egFromAnswer s ↔ answer <:+: s := by
  refine ⟨fun h => h.trans (egFromAnswer_suffix s).isInfix, fun h => ?_⟩
  induction s with
  | nil => exact h
  | cons c s ih =>
    rw [egFromAnswer]
    split
    · exact h
    · rcases List.infix_cons_iff.mp h with hpre | hsub
      · exact absurd (any_egAnswers.mpr ⟨answer, hanswer, hpre⟩) ‹_›
      · exact ih hsub

/-- More text does not complete an answer that begins before the first one. -/
theorem not_prefix_append {c : Char} {s answer : List Char} (h : HasAnswer s) (hanswer : answer ∈ egAnswers)
    (hnot : ¬answer <+: c :: s) (t : List Char) : ¬answer <+: c :: s ++ t := by
  intro hpre
  rcases List.prefix_or_prefix_of_prefix hpre (List.prefix_append (c :: s) t) with hle | hle
  · exact hnot hle
  · obtain ⟨answer', hanswer', hsub⟩ := h
    have hin : answer' <:+: answer := hsub.trans ((List.suffix_cons c s).isInfix.trans hle.isInfix)
    rw [eq_of_mem_egAnswers answer' hanswer' answer hanswer hin] at hsub
    exact absurd (hsub.length_le.trans_lt (Nat.lt_succ_self _)) (Nat.not_lt.mpr hle.length_le)

theorem egFromAnswer_append {s : List Char} (h : HasAnswer s) (t : List Char) :
    egFromAnswer (s ++ t) = egFromAnswer s ++ t := by
  induction s with
  | nil => exact absurd h not_hasAnswer_nil
  | cons c s ih =>
    rw [List.cons_append, egFromAnswer, egFromAnswer]
    by_cases hfirst : (egAnswers.any fun answer => answer.isPrefixOf (c :: s)) = true
    · obtain ⟨answer, hanswer, hpre⟩ := any_egAnswers.mp hfirst
      have hmore : answer <+: c :: (s ++ t) := hpre.trans (List.prefix_append (c :: s) t)
      rw [if_pos hfirst, if_pos (any_egAnswers.mpr ⟨answer, hanswer, hmore⟩)]
      rfl
    · have hs : HasAnswer s := by
        obtain ⟨answer, hanswer, hsub⟩ := h
        rcases List.infix_cons_iff.mp hsub with hpre | hsub
        · exact absurd (any_egAnswers.mpr ⟨answer, hanswer, hpre⟩) hfirst
        · exact ⟨answer, hanswer, hsub⟩
      have hmore : ¬(egAnswers.any fun answer => answer.isPrefixOf (c :: (s ++ t))) = true := by
        rw [any_egAnswers]
        rintro ⟨answer, hanswer, hpre⟩
        exact not_prefix_append hs hanswer (fun h => hfirst (any_egAnswers.mpr ⟨answer, hanswer, h⟩)) t hpre
      rw [if_neg hfirst, if_neg hmore]
      exact ih hs

/-- What the first answer says is what is at the start from there on. -/
theorem egVerdict_eq (s : List Char) :
    egVerdict s = if "SEND OK".toList <+: egFromAnswer s then some true
      else if egFromAnswer s = [] then none else some false := by
  induction s with
  | nil => rfl
  | cons c s ih =>
    rw [egVerdict, egFromAnswer]
    by_cases hok : "SEND OK".toList.isPrefixOf (c :: s) = true
    · have hany : (egAnswers.any fun answer => answer.isPrefixOf (c :: s)) = true :=
        List.any_eq_true.mpr ⟨_, List.mem_cons_self, hok⟩
      rw [if_pos hok, if_pos hany, if_pos (List.isPrefixOf_iff_prefix.mp hok)]
    · rw [if_neg hok]
      by_cases hfailed : (egFailures.any fun answer => answer.isPrefixOf (c :: s)) = true
      · have hany : (egAnswers.any fun answer => answer.isPrefixOf (c :: s)) = true := by
          rw [egAnswers, List.any_cons, hfailed, Bool.or_true]
        rw [if_pos hfailed, if_pos hany, if_neg (mt List.isPrefixOf_iff_prefix.mpr hok), if_neg (List.cons_ne_nil c s)]
      · have hany : ¬(egAnswers.any fun answer => answer.isPrefixOf (c :: s)) = true := by
          rw [egAnswers, List.any_cons, Bool.or_eq_true]
          exact not_or.mpr ⟨hok, hfailed⟩
        rw [if_neg hfailed, if_neg hany, ih]

theorem egVerdict_eq_true {s : List Char} : egVerdict s = some true ↔ "SEND OK".toList <+: egFromAnswer s := by
  rw [egVerdict_eq]
  split
  · exact iff_of_true rfl ‹_›
  · refine iff_of_false ?_ ‹_›
    split
    · exact Option.some_ne_none true ∘ Eq.symm
    · exact fun h => Bool.false_ne_true (Option.some_inj.mp h)

/-- More text does not change what the first answer says. -/
theorem egVerdict_append {s : List Char} (h : HasAnswer s) (t : List Char) : egVerdict (s ++ t) = egVerdict s := by
  obtain ⟨answer, hanswer, hpre⟩ := prefix_egFromAnswer h
  have hne : egFromAnswer s ≠ [] := by
    intro hnil
    rw [hnil, List.prefix_nil] at hpre
    rw [hpre] at hanswer
    exact absurd hanswer (by decide)
  have hok : "SEND OK".toList <+: egFromAnswer s ++ t ↔ "SEND OK".toList <+: egFromAnswer s := by
    refine ⟨fun hok => ?_, fun hok => hok.trans (List.prefix_append _ t)⟩
    have heq : answer = "SEND OK".toList := by
      rcases List.prefix_or_prefix_of_prefix (hpre.trans (List.prefix_append _ t)) hok with hle | hle
      · exact eq_of_mem_egAnswers _ hanswer _ List.mem_cons_self hle.isInfix
      · exact (eq_of_mem_egAnswers _ List.mem_cons_self _ hanswer hle.isInfix).symm
    rwa [heq] at hpre
  have hne' : egFromAnswer s ++ t ≠ [] := fun hnil => hne (List.append_eq_nil_iff.mp hnil).1
  rw [egVerdict_eq, egVerdict_eq, egFromAnswer_append h, if_neg hne, if_neg hne', if_congr hok rfl rfl]

theorem hasAnswer_of_egVerdict {s : List Char} {sent : Bool} (h : egVerdict s = some sent) : HasAnswer s := by
  induction s with
  | nil => cases h
  | cons c s ih =>
    rw [egVerdict] at h
    split at h
    · exact ⟨_, List.mem_cons_self, (List.isPrefixOf_iff_prefix.mp ‹_›).isInfix⟩
    split at h
    · obtain ⟨answer, hanswer, hpre⟩ := List.any_eq_true.mp ‹_›
      exact ⟨answer, List.mem_cons_of_mem _ hanswer, (List.isPrefixOf_iff_prefix.mp hpre).isInfix⟩
    · exact (ih h).mono (List.suffix_cons c s).isInfix

/-! ## Reads -/

/-- What has been read is in the stream. -/
theorem prefix_of_mem_egTexts {s text : List Char} {reads : List (List Char)} (h : text ∈ egTexts s reads) :
    s <+: text ∧ text <+: s ++ reads.flatten := by
  induction reads generalizing s with
  | nil => cases h
  | cons read reads ih =>
    rw [List.flatten_cons, ← List.append_assoc]
    rcases List.mem_cons.mp h with rfl | h
    · exact ⟨List.prefix_append _ _, List.prefix_append _ _⟩
    · obtain ⟨hs, htext⟩ := ih h
      exact ⟨(List.prefix_append s read).trans hs, htext⟩

/-- The first of them with an answer is at the start of each that has one. -/
theorem prefix_of_find_egTexts {s text text' : List Char} {reads : List (List Char)}
    (h : (egTexts s reads).find? (fun s => HasAnswer s) = some text) (hmem : text' ∈ egTexts s reads)
    (hanswer : HasAnswer text') : text <+: text' := by
  induction reads generalizing s with
  | nil => cases hmem
  | cons read reads ih =>
    rw [egTexts, List.find?_cons] at h
    by_cases hread : HasAnswer (s ++ read)
    · rw [decide_eq_true hread] at h
      rw [← Option.some_inj.mp h]
      rcases List.mem_cons.mp hmem with rfl | hmem
      · exact List.prefix_rfl
      · exact (prefix_of_mem_egTexts hmem).1
    · rw [decide_eq_false hread] at h
      rcases List.mem_cons.mp hmem with rfl | hmem
      · exact absurd hanswer hread
      · exact ih h hmem

/-- A stream with an answer has all of it at the end of some read. -/
theorem egAnswered_ne_none {reads : List (List Char)} (h : HasAnswer reads.flatten) : egAnswered reads ≠ none := by
  have hall : ∀ s, ¬HasAnswer s → HasAnswer (s ++ reads.flatten) → ∃ text ∈ egTexts s reads, HasAnswer text := by
    clear h
    induction reads with
    | nil => exact fun s hnone hs => absurd ((List.append_nil s) ▸ hs) hnone
    | cons read reads ih =>
      intro s _ hs
      rw [List.flatten_cons, ← List.append_assoc] at hs
      by_cases hread : HasAnswer (s ++ read)
      · exact ⟨_, List.mem_cons_self, hread⟩
      · obtain ⟨text, hmem, htext⟩ := ih (s ++ read) hread hs
        exact ⟨text, List.mem_cons_of_mem _ hmem, htext⟩
  obtain ⟨text, hmem, htext⟩ := hall [] not_hasAnswer_nil h
  intro hnone
  exact List.find?_eq_none.mp hnone text hmem (decide_eq_true htext)

theorem egAnswered_eq_some {reads : List (List Char)} {text : List Char} (h : egAnswered reads = some text) :
    HasAnswer text ∧ text <+: reads.flatten := by
  have hmem := List.mem_of_find?_eq_some h
  refine ⟨by simpa using List.find?_some h, ?_⟩
  have hprefix := (prefix_of_mem_egTexts hmem).2
  rwa [List.nil_append] at hprefix

/-! ## Windows -/

/-- What is in `resp` behind each read. -/
def egWindows (s : List Char) (reads : List (List Char)) : List (List Char) :=
  (egTexts s reads).map fun text => text.rtake (egRespSize - 1)

theorem egSendOk_iff {resp : List Char} (hnul : '\x00' ∉ resp) :
    egSendOk resp = true ↔ "SEND OK".toList <:+: resp := by
  rw [egSendOk, cstr_of_not_mem hnul, strstr_isSome_iff]

theorem egSendFailed_iff {resp : List Char} (hnul : '\x00' ∉ resp) :
    egSendFailed resp = true ↔ ∃ answer ∈ egFailures, answer <:+: resp := by
  rw [egSendFailed, cstr_of_not_mem hnul, Bool.or_eq_true, Bool.or_eq_true, strstr_isSome_iff, strstr_isSome_iff,
    strstr_isSome_iff, egFailures, List.exists_mem_cons_iff, List.exists_mem_cons_iff, List.exists_mem_cons_iff, or_assoc]
  simp

theorem hasAnswer_iff {s : List Char} :
    HasAnswer s ↔ "SEND OK".toList <:+: s ∨ ∃ answer ∈ egFailures, answer <:+: s := by
  rw [HasAnswer, egAnswers, List.exists_mem_cons_iff]

/-- `eg_send_data` goes by the first window with an answer. -/
theorem egSendResponse_eq {s : List Char} {chunks : List (List Char)} (hs : '\x00' ∉ s)
    (hnul : ∀ chunk ∈ chunks, '\x00' ∉ chunk) :
    egSendResponse (s.rtake (egRespSize - 1)) chunks =
      if ∃ w ∈ (egWindows s chunks).find? fun w => HasAnswer w, "SEND OK".toList <:+: w then 0 else -1 := by
  induction chunks generalizing s with
  | nil => rfl
  | cons chunk chunks ih =>
    have hnext : '\x00' ∉ s ++ chunk := List.not_mem_append hs (hnul chunk List.mem_cons_self)
    have hwindow : '\x00' ∉ (s ++ chunk).rtake (egRespSize - 1) := fun h => hnext ((rtake_suffix _ _).subset h)
    rw [egSendResponse, foldl_egRespPush, egWindows, egTexts, List.map_cons, List.find?_cons]
    simp only [egSendOk_iff hwindow, egSendFailed_iff hwindow]
    by_cases hok : "SEND OK".toList <:+: (s ++ chunk).rtake (egRespSize - 1)
    · have hanswer : HasAnswer ((s ++ chunk).rtake (egRespSize - 1)) := hasAnswer_iff.mpr (Or.inl hok)
      rw [if_pos hok, decide_eq_true hanswer]
      exact (if_pos ⟨_, rfl, hok⟩).symm
    · rw [if_neg hok]
      by_cases hfailed : ∃ answer ∈ egFailures, answer <:+: (s ++ chunk).rtake (egRespSize - 1)
      · have hanswer : HasAnswer ((s ++ chunk).rtake (egRespSize - 1)) := hasAnswer_iff.mpr (Or.inr hfailed)
        rw [if_pos hfailed, decide_eq_true hanswer]
        refine (if_neg ?_).symm
        rintro ⟨w, hw, hok'⟩
        rw [← Option.mem_some_iff.mp hw] at hok'
        exact hok hok'
      · have hnone : ¬HasAnswer ((s ++ chunk).rtake (egRespSize - 1)) :=
          mt hasAnswer_iff.mp (not_or.mpr ⟨hok, hfailed⟩)
        rw [if_neg hfailed, decide_eq_false hnone]
        exact ih hnext fun c hc => hnul c (List.mem_cons_of_mem chunk hc)

/-- So it returns 0 just where that window has `SEND OK`. -/
theorem egSendData_eq {prompt reads : List (List Char)} (hprompt : egSendPrompt [] prompt = true)
    (hnul : ∀ chunk ∈ reads, '\x00' ∉ chunk) :
    egSendData prompt reads =
      if ∃ w ∈ (egWindows [] reads).find? fun w => HasAnswer w, "SEND OK".toList <:+: w then 0 else -1 := by
  have hresponse := egSendResponse_eq List.not_mem_nil hnul
  rw [List.rtake_nil] at hresponse
  rw [egSendData, if_pos hprompt]
  exact hresponse

/-- What a window of a size has, if what is at the end of the text is no longer. -/
theorem suffix_rtake {s t : List Char} {k : Nat} (h : t <:+ s) (hle : t.length ≤ k) : t <:+ s.rtake k := by
  refine List.suffix_of_suffix_length_le h (rtake_suffix s k) ?_
  rw [length_rtake]
  exact Nat.le_min.mpr ⟨hle, h.length_le⟩

/-- An answer in reach is in the first window with an answer. -/
theorem find_egWindows {s text : List Char} {reads : List (List Char)}
    (h : (egTexts s reads).find? (fun s => HasAnswer s) = some text)
    (hreach : (egFromAnswer text).length ≤ egRespSize - 1) :
    (egWindows s reads).find? (fun w => HasAnswer w) = some (text.rtake (egRespSize - 1)) := by
  induction reads generalizing s with
  | nil => cases h
  | cons read reads ih =>
    rw [egTexts, List.find?_cons] at h
    rw [egWindows, egTexts, List.map_cons, List.find?_cons]
    by_cases hread : HasAnswer (s ++ read)
    · rw [decide_eq_true hread] at h
      have htext : s ++ read = text := Option.some_inj.mp h
      rw [htext] at hread ⊢
      obtain ⟨answer, hanswer, hpre⟩ := prefix_egFromAnswer hread
      have hwindow : HasAnswer (text.rtake (egRespSize - 1)) :=
        ⟨answer, hanswer, hpre.isInfix.trans (suffix_rtake (egFromAnswer_suffix text) hreach).isInfix⟩
      rw [decide_eq_true hwindow]
    · rw [decide_eq_false hread] at h
      have hwindow : ¬HasAnswer ((s ++ read).rtake (egRespSize - 1)) :=
        fun hwindow => hread (hwindow.mono (rtake_suffix _ _).isInfix)
      rw [decide_eq_false hwindow]
      exact ih h

/-! ## The verdict -/

/-- What `eg_send_data` should return, by the first answer of the stream. -/
def Reports (ret : Int) (stream : List Char) : Prop :=
  (egVerdict stream = some true → ret = 0) ∧ (egVerdict stream = some false → ret = -1)

instance (ret : Int) (stream : List Char) : Decidable (Reports ret stream) := inferInstanceAs (Decidable (_ ∧ _))

theorem reports_ite (isSent : Prop) [Decidable isSent] (stream : List Char) :
    Reports (if isSent then 0 else -1) stream ↔ ∀ sent, egVerdict stream = some sent → (isSent ↔ sent = true) := by
  rw [Reports]
  by_cases hsent : isSent <;> cases egVerdict stream with
  | none => simp
  | some sent => cases sent <;> simp [hsent]

/-- Where the first answer is in reach. -/
theorem reports_iff_of_inReach {prompt reads : List (List Char)} (hprompt : egSendPrompt [] prompt = true)
    (hnul : ∀ chunk ∈ reads, '\x00' ∉ chunk) (hreach : InReach reads) :
    Reports (egSendData prompt reads) reads.flatten ↔ ¬Overtaken reads := by
  rw [egSendData_eq hprompt hnul, reports_ite, Overtaken]
  cases htext : egAnswered reads with
  | none =>
    have hnone : egVerdict reads.flatten = none :=
      Option.eq_none_iff_forall_ne_some.mpr fun _ h => egAnswered_ne_none (hasAnswer_of_egVerdict h) htext
    rw [hnone]
    simp
  | some text =>
    obtain ⟨hanswer, back, hback⟩ := egAnswered_eq_some htext
    have hwindow : (∃ w ∈ (egWindows [] reads).find? fun w => HasAnswer w, "SEND OK".toList <:+: w) ↔
        "SEND OK".toList <:+: text := by
      rw [find_egWindows htext (hreach text htext)]
      simp only [Option.mem_some_iff, exists_eq_left']
      refine ⟨fun h => h.trans (rtake_suffix _ _).isInfix, fun h => ?_⟩
      have h := (infix_egFromAnswer List.mem_cons_self).mpr h
      exact h.trans (suffix_rtake (egFromAnswer_suffix text) (hreach text htext)).isInfix
    simp only [hwindow, Option.mem_some_iff, exists_eq_left']
    rw [← hback, egVerdict_append hanswer]
    cases hverdict : egVerdict text with
    | none => simp
    | some sent =>
      cases sent with
      | false => simp
      | true =>
        have hok := (infix_egFromAnswer List.mem_cons_self).mp (egVerdict_eq_true.mp hverdict).isInfix
        exact iff_of_true (fun sent hsent => iff_of_true hok (Option.some_inj.mp hsent).symm) fun h => nomatch h.1

theorem infix_or_infix_tail {s t : List Char} (h : t <:+: s) : t <+: s ∨ t <:+: s.tail := by
  cases s with
  | nil => exact Or.inr h
  | cons c s => exact List.infix_cons_iff.mp h

/-- Where a stream has no other answer, a `SEND OK` in a window is that answer, in reach. -/
theorem window_of_only {reads : List (List Char)} (honly : ¬HasAnswer (egFromAnswer reads.flatten).tail)
    {text : List Char} (hmem : text ∈ egTexts [] reads) (hok : "SEND OK".toList <:+: text.rtake (egRespSize - 1)) :
    egVerdict reads.flatten = some true ∧ (egFromAnswer text).length ≤ egRespSize - 1 := by
  have hin : "SEND OK".toList <:+: text := hok.trans (rtake_suffix _ _).isInfix
  have hanswer : HasAnswer text := ⟨_, List.mem_cons_self, hin⟩
  obtain ⟨back, hback⟩ : text <+: reads.flatten := by
    have h := (prefix_of_mem_egTexts hmem).2
    rwa [List.nil_append] at h
  have hfrom : egFromAnswer reads.flatten = egFromAnswer text ++ back := by rw [← hback, egFromAnswer_append hanswer]
  constructor
  · have hstream : "SEND OK".toList <:+: egFromAnswer reads.flatten := by
      rw [hfrom]
      exact ((infix_egFromAnswer List.mem_cons_self).mpr hin).trans (List.prefix_append _ back).isInfix
    rcases infix_or_infix_tail hstream with hpre | htail
    · exact egVerdict_eq_true.mpr hpre
    · exact absurd ⟨_, List.mem_cons_self, htail⟩ honly
  · -- Else the window would begin behind the first answer.
    by_contra hlong
    have hsuffix : text.rtake (egRespSize - 1) <:+ (egFromAnswer text).tail := by
      refine List.suffix_of_suffix_length_le (rtake_suffix _ _)
        ((List.tail_suffix _).trans (egFromAnswer_suffix text)) ?_
      rw [length_rtake, List.length_tail]
      omega
    have htail : (egFromAnswer text).tail <:+: (egFromAnswer reads.flatten).tail := by
      rw [hfrom, List.tail_append_of_ne_nil (by intro hnil; simp [hnil] at hlong)]
      exact (List.prefix_append _ back).isInfix
    exact honly ⟨_, List.mem_cons_self, (hok.trans hsuffix.isInfix).trans htail⟩

/-- A window is the end of what has been read behind a read. -/
theorem text_of_window {s : List Char} {reads : List (List Char)}
    (h : ∃ w ∈ (egWindows s reads).find? fun w => HasAnswer w, "SEND OK".toList <:+: w) :
    ∃ text ∈ egTexts s reads, "SEND OK".toList <:+: text.rtake (egRespSize - 1) := by
  obtain ⟨w, hw, hok⟩ := h
  obtain ⟨text, hmem, rfl⟩ := List.mem_map.mp (List.mem_of_find?_eq_some hw)
  exact ⟨text, hmem, hok⟩

/-- Where there is no other answer. -/
theorem reports_iff_of_only {prompt reads : List (List Char)} (hprompt : egSendPrompt [] prompt = true)
    (hnul : ∀ chunk ∈ reads, '\x00' ∉ chunk) (honly : ¬HasAnswer (egFromAnswer reads.flatten).tail) :
    Reports (egSendData prompt reads) reads.flatten ↔ (egVerdict reads.flatten = some true → InReach reads) := by
  cases hverdict : egVerdict reads.flatten with
  | none => simp [Reports, hverdict]
  | some sent =>
    cases sent with
    | false =>
      have hnone : ¬∃ w ∈ (egWindows [] reads).find? fun w => HasAnswer w, "SEND OK".toList <:+: w := by
        intro h
        obtain ⟨text, hmem, hok⟩ := text_of_window h
        rw [(window_of_only honly hmem hok).1] at hverdict
        cases hverdict
      rw [egSendData_eq hprompt hnul, reports_ite, hverdict]
      simpa using hnone
    | true =>
      constructor
      · intro hreports _
        rw [egSendData_eq hprompt hnul, reports_ite] at hreports
        obtain ⟨text', hmem, hok⟩ := text_of_window ((hreports true hverdict).mpr rfl)
        intro text htext
        have hanswer : HasAnswer text' := ⟨_, List.mem_cons_self, hok.trans (rtake_suffix _ _).isInfix⟩
        obtain ⟨more, rfl⟩ := prefix_of_find_egTexts htext hmem hanswer
        have hle := (window_of_only honly hmem hok).2
        rw [egFromAnswer_append (egAnswered_eq_some htext).1, List.length_append] at hle
        exact (Nat.le_add_right _ _).trans hle
      · intro hreach
        rw [reports_iff_of_inReach hprompt hnul (hreach rfl), Overtaken, hverdict]
        exact fun h => by cases h.1

/-- Behind the data, where the first answer of the stream begins in the last 127 characters
at the end of the read that completes it, `eg_send_data` returns what it says just when it is
no failure that a `SEND OK` has overtaken by then; where there is no other answer, just
when it begins there or is a failure. -/
theorem egSendData_iff {prompt reads : List (List Char)} (hprompt : egSendPrompt [] prompt = true)
    (hnul : ∀ chunk ∈ reads, '\x00' ∉ chunk) :
    (InReach reads → (Reports (egSendData prompt reads) reads.flatten ↔ ¬Overtaken reads)) ∧
      (¬HasAnswer (egFromAnswer reads.flatten).tail →
        (Reports (egSendData prompt reads) reads.flatten ↔ (egVerdict reads.flatten = some true → InReach reads))) :=
  ⟨reports_iff_of_inReach hprompt hnul, reports_iff_of_only hprompt hnul⟩

/-- `SEND OK`, and other output in the same read. -/
def sendOkAndMore : List Char := "SEND OK\r\n".toList ++ List.replicate 120 '.'

/-- With less of it `SEND OK` is seen, in two reads as well; with all of it it is not. -/
theorem egSendData_iff_more :
    Reports (egSendData [['>']] ["\r\nSEND ".toList, "OK\r\n".toList ++ List.replicate 118 '.'])
        ("\r\nSEND ".toList ++ ("OK\r\n".toList ++ List.replicate 118 '.')) ∧
      ¬Reports (egSendData [['>']] [sendOkAndMore]) [sendOkAndMore].flatten := by
  constructor
  · exact ((egSendData_iff (by decide) (by decide +kernel)).1 (by decide +kernel)).mpr (by decide +kernel)
  · rw [(egSendData_iff (by decide) (by decide +kernel)).2 (by decide +kernel)]
    decide +kernel

/-- The answer is not in the last 127 characters; in two reads it is seen. And an answer
that comes first is not the one that counts. -/
theorem egSendData_reports_more :
    ¬Reports (egSendData [['>']] [sendOkAndMore]) [sendOkAndMore].flatten ∧
      Reports (egSendData [['>']] [sendOkAndMore.take 9, sendOkAndMore.drop 9]) [sendOkAndMore].flatten ∧
        ¬Reports (egSendData [['>']] ["ERROR\r\nSEND OK\r\n".toList]) "ERROR\r\nSEND OK\r\n".toList := by
  decide +kernel

/-- A short read that completes the first answer. -/
theorem length_egFromAnswer_le {s read : List Char} (hs : ¬HasAnswer s) (hread : HasAnswer (s ++ read))
    (hshort : read.length ≤ 119) : (egFromAnswer (s ++ read)).length ≤ egRespSize - 1 := by
  obtain ⟨front, hfront⟩ := egFromAnswer_suffix (s ++ read)
  obtain ⟨answer, hanswer, hpre⟩ := prefix_egFromAnswer hread
  by_contra hlong
  -- Else the answer ends in what was there before the read.
  have hlen := congrArg List.length hfront
  simp only [List.length_append] at hlen
  have hle : (front ++ answer).length ≤ s.length := by
    have hanswer := length_egAnswers answer hanswer
    simp only [List.length_append, egRespSize] at hlong ⊢
    omega
  have hin : front ++ answer <+: s ++ read := hfront ▸ (List.prefix_append_right_inj front).mpr hpre
  have hin : front ++ answer <+: s := List.prefix_of_prefix_length_le hin (List.prefix_append s read) hle
  exact hs ⟨answer, hanswer, (List.suffix_append front answer).isInfix.trans hin.isInfix⟩

/-- Reads that are short enough. -/
theorem inReach_of_short {reads : List (List Char)} (hshort : ∀ read ∈ reads, read.length ≤ 119) : InReach reads := by
  have hall : ∀ s, ¬HasAnswer s → ∀ text, (egTexts s reads).find? (fun s => HasAnswer s) = some text →
      (egFromAnswer text).length ≤ egRespSize - 1 := by
    induction reads with
    | nil => exact fun _ _ _ h => nomatch h
    | cons read reads ih =>
      intro s hs text h
      rw [egTexts, List.find?_cons] at h
      by_cases hread : HasAnswer (s ++ read)
      · rw [decide_eq_true hread] at h
        rw [← Option.some_inj.mp h]
        exact length_egFromAnswer_le hs hread (hshort read List.mem_cons_self)
      · rw [decide_eq_false hread] at h
        exact ih (fun r hr => hshort r (List.mem_cons_of_mem read hr)) (s ++ read) hread text h
  exact fun text htext => hall [] not_hasAnswer_nil text htext

end Dtu
