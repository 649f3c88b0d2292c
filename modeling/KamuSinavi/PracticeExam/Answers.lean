import KamuSinavi.PracticeExam.Isolation

/-! # The answers of a result

A result holds a score and the answers, keyed by the position of their question among those of the
chosen topic (`pages/denemeSinaviPage.dart`). `finishTest` computes the score when it is called and
reads both when it has got the name of the user; `Agrees` says that they agree where they are written,
and `agrees_of_steady` for which runs. -/

namespace KamuSinavi.PracticeExam

open KamuSinavi.Lib KamuSinavi.Lib.Runs KamuSinavi.Lib.Dart

/-- The number of stored answers that are those of the questions. -/
def storedScore (questions : List ExamQuestion) (answers : LinkedMap String String) : ℕ :=
  questions.zipIdx.countP fun q => answers.get? (toString q.2) = some q.1.answer

/-- **A result that is written has the score of its answers** among the questions of the topic chosen
in its page. -/
def Agrees (s : State) (a : Action) (_ : State) : Prop :=
  match a with
  | .finishTest k _ => ∀ c ∈ s.calls[k]?, ∀ data ∈ c.pc.data, ∀ p ∈ s.pages[c.page]?,
      data.score = storedScore (getSelectedQuestions p) data.answers
  | _ => True

/-- The call is reading the full name of the user. -/
def Finish.awaitsName : Finish → Bool
  | .getUserFullName _ => true
  | _ => false

/-- A `finishTest` of the page has its score and not yet its answers. -/
def Scoring (s : State) (i : ℕ) : Prop := ∃ c ∈ s.calls, c.page = i ∧ c.pc.awaitsName = true

instance (s : State) (i : ℕ) : Decidable (Scoring s i) :=
  inferInstanceAs (Decidable (∃ c ∈ s.calls, _))

/-- While a `finishTest` of the page reads the name, a tapped option is right if and only if the answer
it replaces is. -/
def Steady (s : State) : Action → Prop
  | .tapOption i index option => Scoring s i → ∀ p ∈ s.pages[i]?,
      ∀ q ∈ (getSelectedQuestions p)[index]?,
        (option = q.answer ↔ p.selectedAnswers.get? index = some q.answer)
  | _ => True

instance (s : State) : DecidablePred (Steady s)
  | .tapOption i index option => inferInstanceAs (Decidable (Scoring s i → ∀ p ∈ s.pages[i]?,
      ∀ q ∈ (getSelectedQuestions p)[index]?,
        (option = q.answer ↔ p.selectedAnswers.get? index = some q.answer)))
  | .publish .. | .remove | .wait _ | .openPage _ | .loadExam _ | .loadFails _ | .rebuild _
  | .chooseTopic .. | .tapFinish _ | .finishTest .. | .finishFails _ | .dispose _ => isTrue trivial

instance (s : State) (a : Action) (t : State) : Decidable (Agrees s a t) :=
  match a with
  | .finishTest k _ => inferInstanceAs (Decidable (∀ c ∈ s.calls[k]?, ∀ data ∈ c.pc.data,
      ∀ p ∈ s.pages[c.page]?, data.score = storedScore (getSelectedQuestions p) data.answers))
  | .publish .. | .remove | .openPage _ | .loadExam _ | .loadFails _ | .rebuild _ | .chooseTopic ..
  | .tapOption .. | .tapFinish _ | .finishFails _ | .wait _ | .dispose _ => isTrue trivial

/-! ### Scores -/

/-- The stored answers have the score of the page's. -/
theorem storedScore_mapKeys (questions : List ExamQuestion) (answers : LinkedMap ℕ String) :
    storedScore questions (answers.mapKeys toString) = scoreOf questions answers := by
  unfold storedScore scoreOf
  refine List.countP_congr fun q _ => ?_
  rw [LinkedMap.get?_mapKeys_of_injective toString_injective]

/-- Replacing an answer by one that is right if and only if it was keeps the score. -/
theorem scoreOf_set {questions : List ExamQuestion} {answers : LinkedMap ℕ String} {index : ℕ}
    {option : String} {q : ExamQuestion} (hq : questions[index]? = some q)
    (h : option = q.answer ↔ answers.get? index = some q.answer) :
    scoreOf questions (answers.set index option) = scoreOf questions answers := by
  unfold scoreOf
  refine List.countP_congr fun e he => ?_
  obtain ⟨q', i⟩ := e
  have hi := List.mk_mem_zipIdx_iff_getElem?.mp he
  rw [LinkedMap.get?_set]
  by_cases hii : i = index
  · subst hii
    rw [hq] at hi
    obtain rfl := Option.some.inj hi
    simpa using h
  · rw [if_neg hii]

theorem getSelectedQuestions_congr {p p' : Page} (hexam : p'.examData = p.examData)
    (htopic : p'.selectedTopic = p.selectedTopic) :
    getSelectedQuestions p' = getSelectedQuestions p := by
  simp only [getSelectedQuestions, hexam, htopic]

/-! ### What holds along a run -/

/-- The score of the page is that of its answers. -/
def Scored (p : Page) : Prop := p.score = scoreOf (getSelectedQuestions p) p.selectedAnswers

/-- The page of a call that reads the name has the score of its answers, and what a call is about to
write agrees. -/
structure ScoresAgree (s : State) : Prop where
  settled : ∀ p ∈ s.pages, Settled p
  awaiting : ∀ c ∈ s.calls, ∀ user, c.pc = .getUserFullName user →
    ∃ p, s.pages[c.page]? = some p ∧ Chosen p ∧ Scored p
  writing : ∀ c ∈ s.calls, ∀ uid data, c.pc = .write uid data →
    ∃ p, s.pages[c.page]? = some p ∧ Chosen p ∧
      data.score = storedScore (getSelectedQuestions p) data.answers

/-- **A steady step keeps the score of a page right**, while one of its calls reads the name. -/
theorem Scored.step {s : State} {i : ℕ} {p p' : Page} {a : Action} (hp : s.pages[i]? = some p)
    (hc : Chosen p) (h : Scored p) (hscoring : Scoring s i) (ha : Steady s a)
    (hstep : PageStep s i p a p') : Scored p' := by
  cases hstep with
  | tapOption hq => exact h.trans (scoreOf_set hq (ha hscoring p hp _ hq)).symm
  | tapFinish => rfl
  | loadExam hpc =>
    rw [hc.loading] at hpc
    cases hpc
  | chooseTopic _ hno => exact absurd hno hc.topic
  | same | loadFails | rebuild | finished | dispose => exact h

theorem scoresAgree_step {s t : State} {a : Action} (hI : ScoresAgree s) (ha : Steady s a)
    (h : step s a = some t) : ScoresAgree t := by
  have hpages := pages_step h
  refine ⟨settled_step hI.settled h, fun c hc user hpc => ?_, fun c hc uid data hpc => ?_⟩
  · cases call_step h hc with
    | old hc =>
      obtain ⟨p, hp, hchosen, hscored⟩ := hI.awaiting c hc user hpc
      obtain ⟨p', hp', hstep⟩ := hpages.old _ p hp
      have hscoring : Scoring s c.page := ⟨c, hc, rfl, by rw [hpc]; rfl⟩
      exact ⟨p', hp', (hchosen.step hstep).1, hscored.step hp hchosen hscoring ha hstep⟩
    | tapFinish hp hen =>
      rename_i i p
      have hchosen := chosen_of_finishEnabled (hI.settled p (List.mem_of_getElem? hp)) hen
      have hpage : t.pages[i]? =
          some { p with score := scoreOf (getSelectedQuestions p) p.selectedAnswers } := by
        simp only [step, hp, Option.bind_some, hen, if_true, Option.some.injEq] at h
        subst h
        exact List.getElem?_set_self (List.getElem?_eq_some_iff.mp hp).1
      exact ⟨_, hpage, ⟨hchosen.isLoading, hchosen.loading, hchosen.topic⟩, rfl⟩
    | write | fetchResults => cases hpc
  · cases call_step h hc with
    | old hc =>
      obtain ⟨p, hp, hchosen, hagrees⟩ := hI.writing c hc uid data hpc
      obtain ⟨p', hp', hstep⟩ := hpages.old _ p hp
      obtain ⟨hchosen', hexam, htopic⟩ := hchosen.step hstep
      exact ⟨p', hp', hchosen', by rw [getSelectedQuestions_congr hexam htopic]; exact hagrees⟩
    | tapFinish hp hen =>
      rename_i i p
      unfold firstSuspension at hpc
      cases hu : p.user <;> rw [hu] at hpc <;> cases hpc
    | write hd hp hname hexam =>
      rename_i k full_name d p user exam
      obtain ⟨-, rfl⟩ := Finish.write.inj hpc
      obtain ⟨q, hq, hchosen, hscored⟩ := hI.awaiting d (List.mem_of_getElem? hd) user hname
      rw [hp] at hq
      obtain rfl := Option.some.inj hq
      obtain ⟨p', hp', hstep⟩ := hpages.old _ p hp
      obtain ⟨hchosen', hexam', htopic'⟩ := hchosen.step hstep
      refine ⟨p', hp', hchosen', ?_⟩
      rw [getSelectedQuestions_congr hexam' htopic']
      exact hscored.trans (storedScore_mapKeys _ _).symm
    | fetchResults => cases hpc

theorem ScoresAgree.agrees {s t : State} (hI : ScoresAgree s) (a : Action) : Agrees s a t := by
  cases a with
  | finishTest k full_name =>
    intro c hc data hdata p hp
    obtain ⟨uid, hpc⟩ := Finish.data_eq_some_iff.mp hdata
    obtain ⟨q, hq, -, hagrees⟩ := hI.writing c (List.mem_of_getElem? hc) uid data hpc
    rw [hp] at hq
    exact Option.some.inj hq ▸ hagrees
  | _ => trivial

/-- **Every result that is written agrees with itself** in every run in which, while a call reads the
name of the user, an option is tapped only if it is right exactly when the answer it replaces is. -/
theorem agrees_of_steady {s : State} (hcalls : s.calls = []) (hpages : s.pages = []) {as : List Action}
    (h : Along step Steady s as) : EachStep step Agrees s as :=
  eachStep_of_along (J := ScoresAgree)
    (fun _ _ _ hI ha hs => ⟨scoresAgree_step hI ha hs, hI.agrees _⟩)
    ⟨Calls.forall_mem_of_nil hpages, Calls.forall_mem_of_nil hcalls, Calls.forall_mem_of_nil hcalls⟩ h

/-- A user taps another option after `Testi Bitir`. -/
def changedAnswer : List Action :=
  [.publish "Deneme 1" "Matematik" [sumForm], .openPage (some ayse), .loadExam 0, .loadExam 0,
    .loadExam 0, .chooseTopic 0 "Matematik", .tapOption 0 0 "5", .tapFinish 0, .tapOption 0 0 "4",
    .finishTest 0 (some "Ayşe"), .finishTest 0 none]

theorem agrees_of_steady_secondExam : EachStep step Agrees installed secondExam :=
  agrees_of_steady rfl rfl (by decide)

/-- **The stored answer is right, and the score is that of the answer before.** -/
theorem changedAnswer_not_agrees : ¬ EachStep step Agrees installed changedAnswer := by decide

end KamuSinavi.PracticeExam
