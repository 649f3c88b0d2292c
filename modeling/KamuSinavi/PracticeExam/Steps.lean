import KamuSinavi.PracticeExam.Page

/-! # What a step does to the pages and the calls

`PageStep` lists what an action makes of one page and `CallsStep` which calls there are after it;
`pages_step` and `calls_step` say that a step does nothing else. From these follow the facts about the
pages that the runs of the practice exam rest on: a page that shows an exam is not loading (`Settled`),
and its exam and topic stay as they are once a topic is chosen (`Chosen`). -/

namespace KamuSinavi.PracticeExam

open KamuSinavi.Lib KamuSinavi.Lib.Runs KamuSinavi.Lib.Dart

/-! ### What a step does to a page -/

/-- What an action makes of the page `p`, the `i`-th one. -/
inductive PageStep (s : State) (i : ℕ) (p : Page) : Action → Page → Prop
  | same (a : Action) : PageStep s i p a p
  | loadExam {pc : Load} (hpc : p.loading = some pc) :
    PageStep s i p (.loadExam i) (PracticeExam.loadExam s.store p pc)
  | loadFails : PageStep s i p (.loadFails i) { p with loading := none }
  | rebuild : PageStep s i p (.rebuild i) { p with expired := isExpired s.store.now p }
  | chooseTopic {topic : String} (hshow : showsExam p = true) (hno : p.selectedTopic = none) :
    PageStep s i p (.chooseTopic i topic) { p with
      selectedTopic := some topic
      selectedAnswers := LinkedMap.empty
      score := 0
      showResult := false }
  | tapOption {index : ℕ} {option : String} {q : ExamQuestion}
    (hq : (getSelectedQuestions p)[index]? = some q) :
    PageStep s i p (.tapOption i index option)
      { p with selectedAnswers := p.selectedAnswers.set index option }
  | tapFinish : PageStep s i p (.tapFinish i)
      { p with score := scoreOf (getSelectedQuestions p) p.selectedAnswers }
  | finished (k : ℕ) (full_name : Option String) :
    PageStep s i p (.finishTest k full_name) (finishedPage s.store p)
  | dispose : PageStep s i p (.dispose i) { p with onScreen := false, mounted := false }

/-- The pages after a step: those before, each with its step, and new ones. -/
structure PagesStep (s : State) (a : Action) (t : State) : Prop where
  old : ∀ (i : ℕ) p, s.pages[i]? = some p → ∃ p', t.pages[i]? = some p' ∧ PageStep s i p a p'
  new : ∀ (i : ℕ) p', t.pages[i]? = some p' → s.pages[i]? = none → ∃ user, p' = newPage user

theorem pagesStep_of_eq {s t : State} {a : Action} (h : t.pages = s.pages) : PagesStep s a t :=
  ⟨fun _ p hp => ⟨p, h ▸ hp, .same a⟩, fun _ p' hp' hno => by
    rw [← h, hp'] at hno
    cases hno⟩

theorem pagesStep_of_set {s t : State} {a : Action} {j : ℕ} {q q' : Page} (hq : s.pages[j]? = some q)
    (h : t.pages = s.pages.set j q') (hstep : PageStep s j q a q') : PagesStep s a t := by
  have hj : j < s.pages.length := (List.getElem?_eq_some_iff.mp hq).1
  refine ⟨fun i p hp => ?_, fun i p' hp' hno => ?_⟩
  · by_cases hij : j = i
    · subst hij
      rw [hq] at hp
      obtain rfl := Option.some.inj hp
      exact ⟨q', by rw [h, List.getElem?_set_self hj], hstep⟩
    · exact ⟨p, by rw [h, List.getElem?_set_ne hij, hp], .same a⟩
  · rw [List.getElem?_eq_none_iff] at hno
    have := (List.getElem?_eq_some_iff.mp hp').1
    rw [h, List.length_set] at this
    omega

/-- One more page. -/
theorem PagesStep.addPage {s t u : State} {a : Action} (h : PagesStep s a t) (user : Option User)
    (hu : u.pages = t.pages ++ [newPage user]) : PagesStep s a u := by
  refine ⟨fun i p hp => ?_, fun i p' hp' hno => ?_⟩
  · obtain ⟨p', hp', hstep⟩ := h.old i p hp
    refine ⟨p', ?_, hstep⟩
    rw [hu, List.getElem?_append_left (List.getElem?_eq_some_iff.mp hp').1, hp']
  · rw [hu] at hp'
    rcases Nat.lt_or_ge i t.pages.length with hi | hi
    · rw [List.getElem?_append_left hi] at hp'
      exact h.new i p' hp' hno
    · rw [List.getElem?_append_right hi] at hp'
      exact ⟨user, List.mem_singleton.mp (List.mem_of_getElem? hp')⟩

/-- **What a step does to the pages.** -/
theorem pages_step {s t : State} {a : Action} (h : step s a = some t) : PagesStep s a t := by
  cases steps_of_step h with
  | published | removed | waited | nameRead | written | finishedGone | finishFailed =>
    exact pagesStep_of_eq rfl
  | opened user => exact (pagesStep_of_eq (t := s) rfl).addPage user rfl
  | resumed hp hpc => exact pagesStep_of_set hp rfl (.loadExam hpc)
  | loadFailed hp => exact pagesStep_of_set hp rfl .loadFails
  | rebuilt hp => exact pagesStep_of_set hp rfl .rebuild
  | topicChosen hp hg => exact pagesStep_of_set hp rfl (.chooseTopic hg.1 hg.2.1)
  | optionTapped hp hg =>
    obtain ⟨-, q, hq, -⟩ := hg
    exact pagesStep_of_set hp rfl (.tapOption hq)
  | finishTapped hp => exact pagesStep_of_set hp rfl .tapFinish
  | disposed hp => exact pagesStep_of_set hp rfl .dispose
  | @finished k c p full_name _ hp =>
    exact (pagesStep_of_set (t := setPage s c.page (finishedPage s.store p)) hp rfl
      (.finished k full_name)).addPage p.user rfl

/-- What holds of new pages and is kept by what a step does to a page holds of all pages. -/
theorem forall_pages_step {s t : State} {a : Action} (h : step s a = some t) {P P' : Page → Prop}
    (hs : ∀ p ∈ s.pages, P p) (hnew : ∀ user, P' (newPage user))
    (hstep : ∀ i p p', P p → PageStep s i p a p' → P' p') : ∀ p ∈ t.pages, P' p := by
  intro p' hp'
  obtain ⟨i, hi⟩ := List.mem_iff_getElem?.mp hp'
  have hpages := pages_step h
  rcases hp : s.pages[i]? with _ | p
  · obtain ⟨user, rfl⟩ := hpages.new i p' hi hp
    exact hnew user
  · obtain ⟨p'', hi', hps⟩ := hpages.old i p hp
    rw [hi] at hi'
    obtain rfl := Option.some.inj hi'
    exact hstep i p p' (hs p (List.mem_of_getElem? hp)) hps

/-! ### What a step does to the calls -/

/-- What the call is about to write. -/
def Finish.data : Finish → Option ResultData
  | .write _ data => some data
  | _ => none

theorem Finish.data_eq_some_iff {pc : Finish} {data : ResultData} :
    pc.data = some data ↔ ∃ uid, pc = .write uid data := by
  cases pc <;> simp [Finish.data]

/-- The calls there are after the action `a`. -/
inductive CallsStep (s : State) : Action → List FinishCall → Prop
  | same {a : Action} (ha : ∀ k full_name, a ≠ .finishTest k full_name) : CallsStep s a s.calls
  | tapFinish {i : ℕ} {p : Page} (hp : s.pages[i]? = some p) (hen : finishEnabled p = true) :
    CallsStep s (.tapFinish i) (s.calls ++ [{ page := i, pc := firstSuspension p }])
  | write {k : ℕ} {full_name : Option String} {c : FinishCall} {p : Page} {user : User} {exam : Exam}
    (hc : s.calls[k]? = some c) (hp : s.pages[c.page]? = some p) (hpc : c.pc = .getUserFullName user)
    (hexam : p.examData = some exam) :
    CallsStep s (.finishTest k full_name)
      (s.calls.set k { c with pc := .write user.uid (resultData p exam user full_name) })
  | fetchResults {k : ℕ} {full_name : Option String} {c : FinishCall} {uid : String}
    {data : ResultData} (hc : s.calls[k]? = some c) (hpc : c.pc = .write uid data) :
    CallsStep s (.finishTest k full_name) (s.calls.set k { c with pc := .fetchResults })
  | ends {k : ℕ} {full_name : Option String} {c : FinishCall} (hc : s.calls[k]? = some c)
    (hpc : c.pc = .fetchResults) : CallsStep s (.finishTest k full_name) (s.calls.eraseIdx k)
  | fails (k : ℕ) : CallsStep s (.finishFails k) (s.calls.eraseIdx k)

/-- **What a step does to the calls.** -/
theorem calls_step {s t : State} {a : Action} (h : step s a = some t) : CallsStep s a t.calls := by
  cases steps_of_step h with
  | published | removed | waited | opened | resumed | loadFailed | rebuilt | topicChosen | optionTapped |
    disposed => exact .same fun _ _ ha => by cases ha
  | finishTapped hp hen => exact .tapFinish hp hen
  | nameRead hc hp hpc hexam => exact .write hc hp hpc hexam
  | written hc hpc => exact .fetchResults hc hpc
  | finished hc _ hpc | finishedGone hc hpc => exact .ends hc hpc
  | finishFailed => exact .fails _

/-- A call there is after the action `a`. -/
inductive CallStep (s : State) : Action → FinishCall → Prop
  | old {a : Action} {c : FinishCall} (hc : c ∈ s.calls) : CallStep s a c
  | tapFinish {i : ℕ} {p : Page} (hp : s.pages[i]? = some p) (hen : finishEnabled p = true) :
    CallStep s (.tapFinish i) { page := i, pc := firstSuspension p }
  | write {k : ℕ} {full_name : Option String} {c : FinishCall} {p : Page} {user : User} {exam : Exam}
    (hc : s.calls[k]? = some c) (hp : s.pages[c.page]? = some p) (hpc : c.pc = .getUserFullName user)
    (hexam : p.examData = some exam) :
    CallStep s (.finishTest k full_name)
      { c with pc := .write user.uid (resultData p exam user full_name) }
  | fetchResults {k : ℕ} {full_name : Option String} (page : ℕ) :
    CallStep s (.finishTest k full_name) { page := page, pc := .fetchResults }

/-- **What a step does to each of the calls.** -/
theorem call_step {s t : State} {a : Action} (h : step s a = some t) {c : FinishCall}
    (hc : c ∈ t.calls) : CallStep s a c := by
  have hcalls := calls_step h
  generalize t.calls = calls at hcalls hc
  cases hcalls with
  | same => exact .old hc
  | tapFinish hp hen =>
    rcases List.mem_append.mp hc with hc | hc
    · exact .old hc
    · obtain rfl := List.mem_singleton.mp hc
      exact .tapFinish hp hen
  | write hd hp hpc hexam =>
    rcases List.mem_or_eq_of_mem_set hc with hc | rfl
    · exact .old hc
    · exact .write hd hp hpc hexam
  | fetchResults =>
    rcases List.mem_or_eq_of_mem_set hc with hc | rfl
    · exact .old hc
    · exact .fetchResults _
  | ends | fails => exact .old (List.mem_of_mem_eraseIdx hc)

/-! ### Pages with a chosen topic -/

/-- A page that does not show that it loads is not loading. -/
def Settled (p : Page) : Prop := p.isLoading = false → p.loading = none

/-- The page is loaded, and the user has chosen a topic. -/
structure Chosen (p : Page) : Prop where
  isLoading : p.isLoading = false
  loading : p.loading = none
  topic : p.selectedTopic ≠ none

theorem Settled.step {s : State} {i : ℕ} {p p' : Page} {a : Action} (h : Settled p)
    (hstep : PageStep s i p a p') : Settled p' := by
  cases hstep with
  | loadExam hpc =>
    rename_i pc
    have hload : p.isLoading = true := by
      by_contra hne
      rw [h (by simpa using hne)] at hpc
      cases hpc
    cases pc with
    | fetchActiveExam =>
      intro hf
      exact absurd (hload.symm.trans hf) (by decide)
    | fetchResults data =>
      unfold PracticeExam.loadExam
      split_ifs
      · cases p.user with
        | some u =>
          intro hf
          exact absurd (hload.symm.trans hf) (by decide)
        | none => exact fun _ => rfl
      · exact fun _ => rfl
    | fetchOwn data =>
      unfold PracticeExam.loadExam
      simp only
      split_ifs <;> exact fun _ => rfl
  | loadFails => exact fun _ => rfl
  | same | rebuild | chooseTopic | tapOption | tapFinish | finished | dispose => exact h

theorem settled_step {s t : State} {a : Action} (hs : ∀ p ∈ s.pages, Settled p)
    (h : step s a = some t) : ∀ p ∈ t.pages, Settled p :=
  forall_pages_step h hs (fun _ hf => Bool.noConfusion hf) fun _ _ _ hp hstep => hp.step hstep

/-- `Testi Bitir` can only be pressed when a topic is chosen. -/
theorem chosen_of_finishEnabled {p : Page} (hs : Settled p) (h : finishEnabled p = true) : Chosen p := by
  simp only [finishEnabled, showsExam, Bool.and_eq_true, Bool.not_eq_true', Option.isSome_iff_ne_none]
    at h
  obtain ⟨⟨⟨⟨⟨⟨-, hload⟩, -⟩, -⟩, htopic⟩, -⟩, -⟩ := h
  exact ⟨hload, hs hload, htopic⟩

/-- **The exam and the topic stay chosen.** -/
theorem Chosen.step {s : State} {i : ℕ} {p p' : Page} {a : Action} (h : Chosen p)
    (hstep : PageStep s i p a p') :
    Chosen p' ∧ p'.examData = p.examData ∧ p'.selectedTopic = p.selectedTopic := by
  cases hstep with
  | loadExam hpc =>
    rw [h.loading] at hpc
    cases hpc
  | chooseTopic _ hno => exact absurd hno h.topic
  | loadFails => exact ⟨⟨h.isLoading, rfl, h.topic⟩, rfl, rfl⟩
  | same | rebuild | tapOption | tapFinish | finished | dispose =>
    exact ⟨⟨h.isLoading, h.loading, h.topic⟩, rfl, rfl⟩

end KamuSinavi.PracticeExam
