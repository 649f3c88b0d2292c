import KamuSinavi.Lib.Choices
import KamuSinavi.Lib.Sorting
import KamuSinavi.PracticeExam.SinavGecmisi

/-! # Results and their ranking

What the results of a practice exam are, and what a page shows of them (`pages/denemeSinaviPage.dart`).

`submitted` is about the documents: each of them is a complete submission for one topic of the exam it
was scored against. `ranked` is about the rows of a page, numbered from one in the order of
`fetchResults`: they are the ranking the results had at a moment of the run. -/

namespace KamuSinavi.PracticeExam

open KamuSinavi.Lib KamuSinavi.Lib.Runs KamuSinavi.Lib.Dart

/-- The questions on a topic of an exam. -/
def questionsOn (exam : Exam) (topic : String) : List ExamQuestion :=
  exam.questions.filter fun q => q.topic = some topic

/-- The option is the answer. -/
def right (q : ExamQuestion) (option : String) : Bool := option == q.answer

/-- The score is one that answers to the questions can have. -/
def Possible (questions : List ExamQuestion) (score : ℕ) : Prop :=
  Choices.fewest (fun q : ExamQuestion => q.options) right questions ≤ score ∧
    score ≤ Choices.most (fun q : ExamQuestion => q.options) right questions

/-- The answers are one option of each of the questions, and the score is a possible one. -/
structure Answers (d : ResultData) (questions : List ExamQuestion) : Prop where
  keys : ∀ key, key ∈ d.answers.keys ↔ ∃ i < questions.length, key = toString i
  options : ∀ (i : ℕ) option, d.answers.get? (toString i) = some option →
    ∃ q, questions[i]? = some q ∧ option ∈ q.options
  score : Possible questions d.score

/-- **A complete submission**: the questions on some topic of the exam, of which there are any, are
answered. -/
def Submitted (d : ResultData) : Prop :=
  ∃ topic, questionsOn d.exam topic ≠ [] ∧ Answers d (questionsOn d.exam topic)

/-- Every result is a complete submission. -/
def AllSubmitted (s : State) : Prop :=
  ∀ uid r, s.store.results.get? uid = some r → Submitted r.toResultData

/-- The number of users who are ahead of `uid` with the result `r`: those with a higher score, and
those with the same score and a greater id. -/
def usersAhead (s : Store) (uid : String) (r : ResultDoc) : ℕ :=
  s.results.entries.countP fun e => r.score < e.2.score ∨ e.2.score = r.score ∧ uid < e.1

/-- **The rows rank the results**: there is one for each user, after the rows of those who are ahead. -/
structure Ranks (s : Store) (rows : List ResultDoc) : Prop where
  length : rows.length = s.results.length
  place : ∀ uid r, s.results.get? uid = some r → rows[usersAhead s uid r]? = some r

/-! ### The order of the ranking -/

theorem rankedBefore_eq :
    RankedBefore = Sorting.Descending (fun e : String × ResultDoc => e.2.score) Prod.fst := rfl

instance : Std.Total RankedBefore := by
  rw [rankedBefore_eq]
  infer_instance

instance : IsTrans (String × ResultDoc) RankedBefore := by
  rw [rankedBefore_eq]
  infer_instance

/-- The number of users ahead is the number of rows before. -/
theorem ahead_results (s : Store) (uid : String) (r : ResultDoc) :
    Sorting.ahead RankedBefore s.results.entries (uid, r) = usersAhead s uid r := by
  unfold Sorting.ahead usersAhead
  refine List.countP_congr fun e _ => ?_
  rw [decide_eq_true_eq, decide_eq_true_eq]
  exact Sorting.not_descending (fun e : String × ResultDoc => e.2.score) Prod.fst (uid, r) e

/-- **What `fetchResults` gets ranks the results.** -/
theorem ranks_fetchResults (s : Store) : Ranks s (fetchResults s) := by
  refine ⟨?_, fun uid r hr => ?_⟩
  · rw [fetchResults, List.length_map, List.length_insertionSort]
    rfl
  · have hordered : Sorting.Ordered RankedBefore s.results.entries :=
      Sorting.ordered_of_nodup s.results.nodup
    have hplace := Sorting.getElem?_insertionSort hordered (LinkedMap.get?_eq_some_iff.mp hr)
    rw [fetchResults, List.getElem?_map, ← ahead_results, hplace]
    rfl

/-! ### The rows of a page -/

/-- The rows of a page are none, or those of a state of the run. -/
def Moment (s : State) (as : List Action) (rows : List ResultDoc) : Prop :=
  rows = [] ∨ ∃ as' u, as' <+: as ∧ run step s as' = some u ∧ rows = fetchResults u.store

theorem Moment.concat {s : State} {as : List Action} {rows : List ResultDoc} (h : Moment s as rows)
    (a : Action) : Moment s (as ++ [a]) rows := by
  refine h.imp_right ?_
  rintro ⟨as', u, hpre, hu, hrows⟩
  exact ⟨as', u, hpre.trans (List.prefix_append _ _), hu, hrows⟩

/-- The rows of a page are as they were, or those of the results now. -/
theorem sortedResults_step {s : State} {i : ℕ} {p p' : Page} {a : Action} (h : PageStep s i p a p') :
    p'.sortedResults = p.sortedResults ∨ p'.sortedResults = fetchResults s.store := by
  cases h with
  | loadExam hpc =>
    rename_i pc
    cases pc with
    | fetchActiveExam => exact Or.inl rfl
    | fetchResults data =>
      unfold loadExam
      split_ifs
      · cases p.user with
        | some u => exact Or.inr rfl
        | none => exact Or.inr rfl
      · exact Or.inl rfl
    | fetchOwn data =>
      unfold loadExam
      simp only
      split_ifs <;> exact Or.inl rfl
  | finished => exact Or.inr rfl
  | same | loadFails | rebuild | chooseTopic | tapOption | tapFinish | dispose => exact Or.inl rfl

/-- **The ranking a page shows is the one of a moment of the run**, in which the user on each row is
preceded by those who were ahead, and by nobody else. -/
theorem ranked {as : List Action} {t : State} (h : run step installed as = some t) {p : Page}
    (hp : p ∈ t.pages) :
    p.sortedResults = [] ∨ ∃ as' u, as' <+: as ∧ run step installed as' = some u ∧
      Ranks u.store p.sortedResults := by
  have hall : ∀ p ∈ t.pages, Moment installed as p.sortedResults := by
    refine run_history (J := fun as t => ∀ p ∈ t.pages, Moment installed as p.sortedResults)
      (Calls.forall_mem_of_nil rfl) (fun as s a t hs hJ hst => ?_) h
    refine forall_pages_step hst hJ (fun _ => Or.inl rfl) fun i p p' hp hstep => ?_
    rcases sortedResults_step hstep with heq | heq
    · rw [heq]
      exact hp.concat a
    · exact Or.inr ⟨as, s, List.prefix_append _ _, hs, heq⟩
  refine (hall p hp).imp_right ?_
  rintro ⟨as', u, hpre, hu, hrows⟩
  exact ⟨as', u, hpre, hu, hrows ▸ ranks_fetchResults u.store⟩

theorem ranked_secondExam : ∃ t, run step installed secondExam = some t ∧ ∀ p ∈ t.pages,
    p.sortedResults = [] ∨ ∃ as' u, as' <+: secondExam ∧ run step installed as' = some u ∧
      Ranks u.store p.sortedResults :=
  ⟨_, rfl, fun _ hp => ranked rfl hp⟩

/-! ### What is submitted -/

/-- The answers of a page are options of the questions of its topic, of which there are any. -/
structure Fitting (p : Page) : Prop where
  options : ∀ i option, p.selectedAnswers.get? i = some option →
    ∃ q, (getSelectedQuestions p)[i]? = some q ∧ option ∈ q.options
  topic : p.selectedTopic ≠ none → getSelectedQuestions p ≠ []

theorem fitting_newPage (user : Option User) : Fitting (newPage user) :=
  ⟨fun _ _ h => (by cases h), fun h => absurd rfl h⟩

theorem Fitting.congr {p p' : Page} (h : Fitting p)
    (hquestions : getSelectedQuestions p' = getSelectedQuestions p)
    (htopic : p'.selectedTopic = p.selectedTopic) (hanswers : p'.selectedAnswers = p.selectedAnswers) :
    Fitting p' := by
  refine ⟨?_, ?_⟩
  · rw [hquestions, hanswers]
    exact h.options
  · rw [hquestions, htopic]
    exact h.topic

/-- The bounds of the scores are the same for the questions with their positions. -/
theorem countP_zipIdx (questions : List ExamQuestion) (P : ExamQuestion → Bool) :
    (questions.zipIdx.countP fun q => P q.1) = questions.countP P := by
  conv_rhs => rw [← List.zipIdx_map_fst 0 questions, List.countP_map]
  rfl

/-- **Complete answers have a possible score.** -/
theorem possible_scoreOf {p : Page} (ha : Answered p) (hf : Fitting p) :
    Possible (getSelectedQuestions p) (scoreOf (getSelectedQuestions p) p.selectedAnswers) := by
  let choice : ExamQuestion × ℕ → String := fun q => (p.selectedAnswers.get? q.2).getD ""
  have hget : ∀ q ∈ (getSelectedQuestions p).zipIdx,
      p.selectedAnswers.get? q.2 = some (choice q) ∧ choice q ∈ q.1.options := by
    rintro ⟨q, i⟩ hq
    have hi := List.mk_mem_zipIdx_iff_getElem?.mp hq
    obtain ⟨option, ho⟩ := LinkedMap.mem_keys_iff.mp
      ((ha i).mpr (List.getElem?_eq_some_iff.mp hi).1)
    obtain ⟨q', hq', hopt⟩ := hf.options i option ho
    obtain rfl := Option.some.inj (hi.symm.trans hq')
    have hchoice : choice (q, i) = option := by simp only [choice, ho, Option.getD_some]
    rw [hchoice]
    exact ⟨ho, hopt⟩
  have hscore : scoreOf (getSelectedQuestions p) p.selectedAnswers =
      (getSelectedQuestions p).zipIdx.countP fun q => right q.1 (choice q) := by
    refine List.countP_congr fun q hq => ?_
    rw [(hget q hq).1, decide_eq_true_eq, Option.some.injEq, right, beq_iff_eq]
  have hbounds := Choices.countP_choice (fun q : ExamQuestion × ℕ => q.1.options)
    (fun q => right q.1) fun q hq => (hget q hq).2
  rw [← hscore] at hbounds
  unfold Possible Choices.fewest Choices.most at *
  rwa [countP_zipIdx _ fun q => q.options.all (right q),
    countP_zipIdx _ fun q => q.options.any (right q)] at hbounds

/-- A page that loads has no topic, and so no questions. -/
theorem fitting_loadExam {s : Store} {p : Page} {pc : Load} (h : Fitting p) (ha : Answering p)
    (hpc : p.loading = some pc) : Fitting (loadExam s p pc) := by
  obtain ⟨htopic, hanswers⟩ := loadExam_answers s p pc
  have hnone : p.selectedTopic = none := by
    by_contra hne
    rw [(ha.chosen hne).loading] at hpc
    cases hpc
  have hno : ∀ {p' : Page}, p'.selectedTopic = none → getSelectedQuestions p' = [] := fun h => by
    simp only [getSelectedQuestions, h]
  exact h.congr ((hno (htopic.trans hnone)).trans (hno hnone).symm) htopic hanswers

/-- A topic that the page offers has questions. -/
theorem getSelectedQuestions_ne_nil {p : Page} {topic : String} (htopic : topic ∈ topics p) :
    getSelectedQuestions { p with selectedTopic := some topic } ≠ [] := by
  unfold topics at htopic
  unfold getSelectedQuestions
  cases hexam : p.examData with
  | none =>
    rw [hexam] at htopic
    exact absurd htopic List.not_mem_nil
  | some exam =>
    rw [hexam, Option.elim_some, List.mem_eraseDups, List.mem_filterMap] at htopic
    obtain ⟨q, hq, hqt⟩ := htopic
    exact List.ne_nil_of_mem (List.mem_filter.mpr ⟨hq, decide_eq_true hqt⟩)

theorem fitting_step {s t : State} {a : Action} (hI : ∀ p ∈ s.pages, Answering p)
    (hF : ∀ p ∈ s.pages, Fitting p) (h : step s a = some t) : ∀ p ∈ t.pages, Fitting p := by
  cases steps_of_step h with
  | published | removed | waited | nameRead | written | finishedGone | finishFailed => exact hF
  | opened user => exact Calls.forall_mem_concat hF (fitting_newPage user)
  | resumed hp hpc =>
    have hmem := List.mem_of_getElem? hp
    exact Calls.forall_mem_set hF (fitting_loadExam (hF _ hmem) (hI _ hmem) hpc)
  | loadFailed hp | rebuilt hp | finishTapped hp | disposed hp =>
    exact Calls.forall_mem_set hF ((hF _ (List.mem_of_getElem? hp)).congr rfl rfl rfl)
  | topicChosen hp hg =>
    refine Calls.forall_mem_set hF ⟨fun _ _ h => (by cases h), fun _ => ?_⟩
    exact getSelectedQuestions_ne_nil hg.2.2.2.1
  | @optionTapped i index p option hp hg =>
    have hfit := hF _ (List.mem_of_getElem? hp)
    refine Calls.forall_mem_set hF ⟨fun j option' h => ?_, hfit.topic⟩
    rw [LinkedMap.get?_set] at h
    split_ifs at h with hj
    · obtain rfl := Option.some.inj h
      obtain ⟨-, q, hq, hoption⟩ := hg
      exact ⟨q, hj ▸ hq, hoption⟩
    · exact hfit.options j option' h
  | @finished k c p full_name _ hp =>
    refine Calls.forall_mem_concat (Calls.forall_mem_set hF ?_) (fitting_newPage p.user)
    exact (hF _ (List.mem_of_getElem? hp)).congr rfl rfl rfl

/-- **What `finishTest` takes from a page is a complete submission.** -/
theorem submitted_resultData {p : Page} {exam : Exam} (hexam : p.examData = some exam) (hc : Chosen p)
    (ha : Answered p) (hf : Fitting p) (hscore : Possible (getSelectedQuestions p) p.score) (user : User)
    (full_name : Option String) : Submitted (resultData p exam user full_name) := by
  obtain ⟨topic, htopic⟩ := Option.ne_none_iff_exists'.mp hc.topic
  have hquestions : questionsOn exam topic = getSelectedQuestions p :=
    (getSelectedQuestions_eq hexam htopic).symm
  have hget : ∀ i : ℕ, (resultData p exam user full_name).answers.get? (toString i) =
      p.selectedAnswers.get? i := fun i => LinkedMap.get?_mapKeys_of_injective toString_injective _ i
  refine ⟨topic, ?_, fun key => ?_, fun i option h => ?_, ?_⟩
  · exact hquestions ▸ hf.topic hc.topic
  · change key ∈ (p.selectedAnswers.mapKeys toString).keys ↔
      ∃ i < (questionsOn exam topic).length, key = toString i
    rw [hquestions]
    constructor
    · intro hkey
      by_contra hno
      refine LinkedMap.get?_eq_none_iff.mp (LinkedMap.get?_mapKeys_eq_none.mpr fun i hi he => ?_) hkey
      exact hno ⟨i, (ha i).mp hi, he.symm⟩
    · rintro ⟨i, hi, rfl⟩
      obtain ⟨option, ho⟩ := LinkedMap.mem_keys_iff.mp ((ha i).mpr hi)
      exact LinkedMap.mem_keys_iff.mpr ⟨option, (hget i).trans ho⟩
  · change ∃ q, (questionsOn exam topic)[i]? = some q ∧ option ∈ q.options
    rw [hquestions]
    exact hf.options i option ((hget i).symm.trans h)
  · change Possible (questionsOn exam topic) p.score
    rw [hquestions]
    exact hscore

/-- The pages are fit to be submitted, the score of a page whose call reads the name is possible, and
what is written and about to be is complete. -/
structure Submissions (s : State) : Prop where
  submits : Submits s
  fitting : ∀ p ∈ s.pages, Fitting p
  reading : ∀ c ∈ s.calls, ∀ user ∈ c.pc.reads, ∀ p ∈ s.pages[c.page]?,
    Possible (getSelectedQuestions p) p.score
  writing : ∀ c ∈ s.calls, ∀ data ∈ c.pc.data, Submitted data
  results : AllSubmitted s

/-- **The score of a page with complete answers stays possible.** -/
theorem possible_pageStep {s : State} {i : ℕ} {p p' : Page} {a : Action} (hc : Chosen p)
    (ha : Answered p) (hf : Fitting p) (h : Possible (getSelectedQuestions p) p.score)
    (hstep : PageStep s i p a p') : Possible (getSelectedQuestions p') p'.score := by
  cases hstep with
  | loadExam hpc =>
    rw [hc.loading] at hpc
    cases hpc
  | chooseTopic _ hno => exact absurd hno hc.topic
  | tapFinish =>
    have hscore := possible_scoreOf ha hf
    exact hscore
  | same | loadFails | rebuild | tapOption | finished | dispose => exact h

/-- The score of a page whose call reads the name is possible. -/
theorem reading_step {s t : State} {a : Action} (hI : Submissions s) (h : step s a = some t)
    {c : FinishCall} (hc : c ∈ t.calls) {user : User} (hreads : user ∈ c.pc.reads) {p' : Page}
    (hp' : t.pages[c.page]? = some p') : Possible (getSelectedQuestions p') p'.score := by
  have hpages := pages_step h
  cases call_step h hc with
  | old hc =>
    obtain ⟨p, hp, hchosen, hanswered⟩ := hI.submits.reading c hc user hreads
    obtain ⟨q, hq, hstep⟩ := hpages.old _ p hp
    obtain rfl := Option.some.inj (hq.symm.trans hp')
    exact possible_pageStep hchosen hanswered (hI.fitting p (List.mem_of_getElem? hp))
      (hI.reading c hc user hreads p hp) hstep
  | tapFinish hp hen =>
    rename_i i p
    have hmem := List.mem_of_getElem? hp
    have hpage : t.pages[i]? =
        some { p with score := scoreOf (getSelectedQuestions p) p.selectedAnswers } := by
      simp only [step, hp, Option.bind_some, hen, if_true, Option.some.injEq] at h
      subst h
      exact List.getElem?_set_self (List.getElem?_eq_some_iff.mp hp).1
    obtain rfl := Option.some.inj (hpage.symm.trans hp')
    have hscore := possible_scoreOf (answered_of_finishEnabled (hI.submits.pages p hmem) hen)
      (hI.fitting p hmem)
    exact hscore
  | write | fetchResults => cases hreads

/-- What is about to be written and what is stored has `P`. -/
structure Data (P : ResultData → Prop) (s : State) : Prop where
  writing : ∀ c ∈ s.calls, ∀ data ∈ c.pc.data, P data
  results : ∀ uid r, s.store.results.get? uid = some r → P r.toResultData

/-- **What `finishTest` takes from a page is all that comes to be written and stored.** -/
theorem data_step {P : ResultData → Prop} {s t : State} {a : Action} (hD : Data P s)
    (hnew : ∀ c ∈ s.calls, ∀ user, c.pc = .getUserFullName user → ∀ p, s.pages[c.page]? = some p →
      ∀ exam, p.examData = some exam → ∀ full_name, P (resultData p exam user full_name))
    (h : step s a = some t) : Data P t := by
  refine ⟨fun c hc data hdata => ?_, fun uid r hr => ?_⟩
  · cases call_step h hc with
    | old hc => exact hD.writing c hc data hdata
    | tapFinish =>
      rename_i i p hp hen
      unfold firstSuspension at hdata
      cases hu : p.user <;> rw [hu] at hdata <;> cases hdata
    | write hd hp hname hexam =>
      obtain rfl := Option.some.inj hdata
      exact hnew _ (List.mem_of_getElem? hd) _ hname _ hp _ hexam _
    | fetchResults => cases hdata
  · rcases step_store h with ⟨title, topic, questions, -, hp⟩ | ⟨-, ht⟩ |
      ⟨k, full_name, uid', data, -, ⟨c, hc, hpc⟩, ht⟩ | ⟨-, hsame⟩
    · rw [publish_results hp] at hr
      exact hD.results uid r hr
    · rw [ht] at hr
      exact hD.results uid r hr
    · rw [ht, setResult, LinkedMap.get?_set] at hr
      split_ifs at hr
      · obtain rfl := Option.some.inj hr
        exact hD.writing c (List.mem_of_getElem? hc) data (by rw [hpc]; rfl)
      · exact hD.results uid r hr
    · rw [hsame.results] at hr
      exact hD.results uid r hr

theorem submissions_step {s t : State} {a : Action} (hI : Submissions s) (h : step s a = some t) :
    Submissions t := by
  have hdata : Data Submitted t := by
    refine data_step ⟨hI.writing, hI.results⟩ (fun c hc user hname p hp exam hexam full_name => ?_) h
    have hreads : user ∈ c.pc.reads := by rw [hname]; rfl
    obtain ⟨q, hq, hchosen, hanswered⟩ := hI.submits.reading c hc user hreads
    obtain rfl := Option.some.inj (hp.symm.trans hq)
    exact submitted_resultData hexam hchosen hanswered (hI.fitting p (List.mem_of_getElem? hp))
      (hI.reading c hc user hreads p hp) user full_name
  exact ⟨submits_step hI.submits h, fitting_step hI.submits.pages hI.fitting h,
    fun c hc user hreads p hp => reading_step hI h hc hreads hp, hdata.writing, hdata.results⟩

theorem submissions_installed : Submissions installed :=
  ⟨⟨Calls.forall_mem_of_nil rfl, Calls.forall_mem_of_nil rfl⟩, Calls.forall_mem_of_nil rfl,
    Calls.forall_mem_of_nil rfl, Calls.forall_mem_of_nil rfl, fun _ _ h => by cases h⟩

/-- **In every run every result is a complete submission**: whatever is published or removed meanwhile,
it has one answer for each question on a topic of its exam, an option of this question, and a score that
such answers can have. -/
theorem submitted (as : List Action) : Always step AllSubmitted installed as :=
  always_of_keeps (fun _ _ _ hI h => submissions_step hI h) (fun _ hI => hI.results) as
    submissions_installed

end KamuSinavi.PracticeExam
