import KamuSinavi.PracticeExam.Isolation

/-! # The end of an exam

`fetchActiveExam` returns no exam that has ended, and the list of the topics is not shown when it has
(`pages/denemeSinaviPage.dart`); neither the questions nor `finishTest` look at the time again. `InTime`
says that no result is written after the end of its exam, and `inTime_of_punctual` for which runs. -/

namespace KamuSinavi.PracticeExam

open KamuSinavi.Lib KamuSinavi.Lib.Runs

/-- **A result is written before its exam has ended.** -/
def InTime (s : State) (a : Action) (_ : State) : Prop :=
  match a with
  | .finishTest k _ => ∀ c ∈ s.calls[k]?, ∀ data ∈ c.pc.data, ∀ e ∈ data.exam.end_time,
      s.store.now ≤ e
  | _ => True

instance (s : State) (a : Action) (t : State) : Decidable (InTime s a t) :=
  match a with
  | .finishTest k _ => inferInstanceAs (Decidable (∀ c ∈ s.calls[k]?, ∀ data ∈ c.pc.data,
      ∀ e ∈ data.exam.end_time, s.store.now ≤ e))
  | .publish .. | .remove | .openPage _ | .loadExam _ | .loadFails _ | .rebuild _ | .chooseTopic ..
  | .tapOption .. | .tapFinish _ | .finishFails _ | .wait _ | .dispose _ => isTrue trivial

/-- The end of the exam a call is going to write a result of. -/
def deadline (s : State) (c : FinishCall) : Option ℕ :=
  match c.pc with
  | .getUserFullName _ => (s.pages[c.page]?.bind Page.examData).bind Exam.end_time
  | .write _ data => data.exam.end_time
  | .fetchResults => none

/-- `Testi Bitir` is pressed before the exam of the page has ended, and the time does not pass the end
of an exam that a call is going to write a result of. -/
def Punctual (s : State) : Action → Prop
  | .tapFinish i => ∀ p ∈ s.pages[i]?, ∀ exam ∈ p.examData, ∀ e ∈ exam.end_time, s.store.now ≤ e
  | .wait seconds => ∀ c ∈ s.calls, ∀ e ∈ deadline s c, s.store.now + seconds ≤ e
  | _ => True

instance (s : State) : DecidablePred (Punctual s)
  | .tapFinish i => inferInstanceAs (Decidable (∀ p ∈ s.pages[i]?, ∀ exam ∈ p.examData,
      ∀ e ∈ exam.end_time, s.store.now ≤ e))
  | .wait seconds =>
    inferInstanceAs (Decidable (∀ c ∈ s.calls, ∀ e ∈ deadline s c, s.store.now + seconds ≤ e))
  | .publish .. | .remove | .openPage _ | .loadExam _ | .loadFails _ | .rebuild _ | .chooseTopic ..
  | .tapOption .. | .finishTest .. | .finishFails _ | .dispose _ => isTrue trivial

/-- The page of a call that reads the name has its topic chosen, and no exam a call is going to write a
result of has ended. -/
structure Open (s : State) : Prop where
  settled : ∀ p ∈ s.pages, Settled p
  chosen : ∀ c ∈ s.calls, ∀ user, c.pc = .getUserFullName user →
    ∃ p, s.pages[c.page]? = some p ∧ Chosen p
  ends : ∀ c ∈ s.calls, ∀ e ∈ deadline s c, s.store.now ≤ e

/-- **The time passes by waiting only.** -/
theorem now_step {s t : State} {a : Action} (h : step s a = some t) :
    t.store.now = s.store.now ∨ ∃ seconds, a = .wait seconds ∧ t.store.now = s.store.now + seconds := by
  cases steps_of_step h with
  | published hs =>
    unfold publish at hs
    simp only at hs
    split_ifs at hs
    obtain rfl := Option.some.inj hs
    exact Or.inl rfl
  | waited seconds => exact Or.inr ⟨seconds, rfl, rfl⟩
  | removed | opened | resumed | loadFailed | rebuilt | topicChosen | optionTapped | finishTapped |
    nameRead | written | finished | finishedGone | finishFailed | disposed => exact Or.inl rfl

/-- A call that runs on keeps the end of its exam. -/
theorem Open.deadline_eq {s t : State} {a : Action} (hI : Open s) (h : step s a = some t)
    {c : FinishCall} (hc : c ∈ s.calls) : deadline t c = deadline s c := by
  unfold deadline
  split
  · rename_i user hpc
    obtain ⟨p, hp, hchosen⟩ := hI.chosen c hc user hpc
    obtain ⟨p', hp', hstep⟩ := (pages_step h).old _ p hp
    rw [hp, hp', Option.bind_some, Option.bind_some, (hchosen.step hstep).2.1]
  · rfl
  · rfl

/-- The time does not pass the end of an exam that a call was going to write a result of. -/
theorem Open.now_le {s t : State} {a : Action} (hI : Open s) (ha : Punctual s a)
    (h : step s a = some t) {c : FinishCall} (hc : c ∈ s.calls) {e : ℕ}
    (he : e ∈ deadline s c) : t.store.now ≤ e := by
  rcases now_step h with hnow | ⟨seconds, rfl, hnow⟩
  · rw [hnow]; exact hI.ends c hc e he
  · rw [hnow]; exact ha c hc e he

theorem open_step {s t : State} {a : Action} (hI : Open s) (ha : Punctual s a)
    (h : step s a = some t) : Open t := by
  have hpages := pages_step h
  refine ⟨settled_step hI.settled h, fun c hc user hpc => ?_, fun c hc e he => ?_⟩
  · cases call_step h hc with
    | old hc =>
      obtain ⟨p, hp, hchosen⟩ := hI.chosen c hc user hpc
      obtain ⟨p', hp', hstep⟩ := hpages.old _ p hp
      exact ⟨p', hp', (hchosen.step hstep).1⟩
    | tapFinish hp hen =>
      have hchosen := chosen_of_finishEnabled (hI.settled _ (List.mem_of_getElem? hp)) hen
      obtain ⟨p', hp', hstep⟩ := hpages.old _ _ hp
      exact ⟨p', hp', (hchosen.step hstep).1⟩
    | write | fetchResults => cases hpc
  · cases call_step h hc with
    | old hc =>
      rw [hI.deadline_eq h hc] at he
      exact hI.now_le ha h hc he
    | tapFinish hp hen =>
      rename_i i p
      have hchosen := chosen_of_finishEnabled (hI.settled p (List.mem_of_getElem? hp)) hen
      obtain ⟨p', hp', hstep⟩ := hpages.old _ p hp
      have hnow : t.store.now = s.store.now :=
        (now_step h).elim id fun ⟨_, hw, _⟩ => by cases hw
      unfold firstSuspension deadline at he
      cases hu : p.user with
      | none => rw [hu] at he; cases he
      | some user =>
        rw [hu] at he
        simp only [hp', Option.bind_some, (hchosen.step hstep).2.1] at he
        obtain ⟨exam, hexam, he⟩ := Option.bind_eq_some_iff.mp he
        rw [hnow]
        exact ha p hp exam hexam e he
    | write hd hp hname hexam =>
      rename_i k full_name d p user exam
      refine hI.now_le ha h (List.mem_of_getElem? hd) ?_
      simp only [deadline, hname, hp, Option.bind_some, hexam]
      exact he
    | fetchResults => cases he

theorem Open.inTime {s t : State} (hI : Open s) (a : Action) : InTime s a t := by
  cases a with
  | finishTest k full_name =>
    intro c hc data hdata e he
    obtain ⟨uid, hpc⟩ := Finish.data_eq_some_iff.mp hdata
    refine hI.ends c (List.mem_of_getElem? hc) e ?_
    simp only [deadline, hpc]
    exact he
  | _ => trivial

/-- **No result is written after the end of its exam** in every run in which `Testi Bitir` is pressed
before the end, and the end does not pass while a call is on its way to its write. -/
theorem inTime_of_punctual {s : State} (hcalls : s.calls = []) (hpages : s.pages = [])
    {as : List Action} (h : Along step Punctual s as) : EachStep step InTime s as :=
  eachStep_of_along (J := Open)
    (fun _ _ _ hI ha hs => ⟨open_step hI ha hs, hI.inTime _⟩)
    ⟨Calls.forall_mem_of_nil hpages, Calls.forall_mem_of_nil hcalls, Calls.forall_mem_of_nil hcalls⟩ h

theorem inTime_of_punctual_secondExam : EachStep step InTime installed secondExam :=
  inTime_of_punctual rfl rfl (by decide)

/-- A user leaves the questions open for two days. -/
def leftOpen : List Action :=
  [.publish "Deneme 1" "Matematik" [sumForm], .openPage (some ayse), .loadExam 0, .loadExam 0,
    .loadExam 0, .chooseTopic 0 "Matematik", .tapOption 0 0 "4", .wait 172800, .tapFinish 0,
    .finishTest 0 (some "Ayşe"), .finishTest 0 none]

/-- **The result is written a day after the end of the exam.** -/
theorem leftOpen_not_inTime : ¬ EachStep step InTime installed leftOpen := by decide

end KamuSinavi.PracticeExam
