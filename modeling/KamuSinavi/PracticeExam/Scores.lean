import KamuSinavi.PracticeExam.Ranking

/-! # The scores of a practice exam

Which results a user can get in the active exam (`pages/denemeSinaviPage.dart`).

`result_iff` says that the scores a user without a result can end up with, whatever else happens, are
those that answers to the questions on one of the topics can have. For one direction every result is a
complete submission (Ranking); for the other a page is opened, its exam loaded, a topic chosen, an
option of each question tapped and the test finished, while nothing else happens. -/

namespace KamuSinavi.PracticeExam.Scores

open KamuSinavi.Lib KamuSinavi.Lib.Runs KamuSinavi.Lib.Dart

variable {s : State} {p : Page} {exam : Exam} {user : User}

/-! ### The last page -/

/-- The state with one more page. -/
def withPage (s : State) (p : Page) : State := { s with pages := s.pages ++ [p] }

theorem getElem?_withPage (s : State) (p : Page) : (withPage s p).pages[s.pages.length]? = some p :=
  List.getElem?_concat_length

theorem setPage_withPage (s : State) (p p' : Page) :
    setPage (withPage s p) s.pages.length p' = withPage s p' := by
  unfold setPage withPage
  simp

/-- `loadExam` goes on in the last page. -/
theorem step_loadExam {pc : Load} (hpc : p.loading = some pc) :
    step (withPage s p) (.loadExam s.pages.length) = some (withPage s (loadExam s.store p pc)) := by
  rw [step, getElem?_withPage, Option.bind_some, hpc, Option.map_some, setPage_withPage]
  rfl

/-- The page when its exam is loaded. -/
def loadedPage (store : Store) (exam : Exam) (user : User) : Page :=
  { newPage (some user) with
    examData := some exam
    isLoading := false
    sortedResults := fetchResults store
    endTime := exam.end_time
    loading := none }

/-- **A user without a result opens the exam**, which is not over. -/
theorem run_open (hactive : s.store.active = some exam) {e : ℕ} (hend : exam.end_time = some e)
    (hnow : ¬ e < s.store.now) (hnone : s.store.results.get? user.uid = none) :
    run step s (.openPage (some user) :: List.replicate 3 (.loadExam s.pages.length)) =
      some (withPage s (loadedPage s.store exam user)) := by
  have hfetch : fetchActiveExam s.store = some exam := by
    unfold fetchActiveExam
    rw [hactive, Option.bind_some, hend]
    simp only
    rw [if_neg hnow]
  have hno : resultExists s.store user.uid = false := by
    unfold resultExists LinkedMap.contains
    rw [hnone]
    rfl
  let fetched : Page := { newPage (some user) with
                          endTime := exam.end_time
                          loading := some (.fetchResults (some exam)) }
  let ranked : Page := { fetched with
                         sortedResults := fetchResults s.store
                         loading := some (.fetchOwn (some exam)) }
  have hfirst : loadExam s.store (newPage (some user)) .fetchActiveExam = fetched := by
    unfold loadExam
    rw [hfetch]
    rfl
  have hsecond : loadExam s.store fetched (.fetchResults (some exam)) = ranked := rfl
  have hthird : loadExam s.store ranked (.fetchOwn (some exam)) = loadedPage s.store exam user := by
    have hexpired : isExpired s.store.now ranked = false := by
      change exam.end_time.any (· < s.store.now) = false
      rw [hend, Option.any_some]
      exact decide_eq_false hnow
    change loaded s.store.now { ranked with hasUserTakenExam := resultExists s.store user.uid } _ = _
    rw [hno]
    change { loaded s.store.now ranked (some exam) with expired := isExpired s.store.now ranked } = _
    rw [hexpired]
    rfl
  rw [List.replicate_succ, List.replicate_succ, List.replicate_succ, run_cons]
  change (run step (withPage s (newPage (some user))) _) = _
  rw [run_cons, step_loadExam rfl, Option.bind_some, hfirst]
  rw [run_cons, step_loadExam rfl, Option.bind_some, hsecond]
  rw [run_cons, step_loadExam rfl, Option.bind_some, hthird]
  rfl

/-- The page when a topic is chosen. -/
def chosenPage (store : Store) (exam : Exam) (user : User) (topic : String) : Page :=
  { loadedPage store exam user with selectedTopic := some topic }

/-- **A topic with questions can be chosen.** -/
theorem step_chooseTopic {e : ℕ} (hend : exam.end_time = some e) {topic : String}
    (hne : questionsOn exam topic ≠ []) :
    step (withPage s (loadedPage s.store exam user)) (.chooseTopic s.pages.length topic) =
      some (withPage s (chosenPage s.store exam user topic)) := by
  have hshow : showsExam (loadedPage s.store exam user) = true := by
    unfold showsExam loadedPage
    rw [hend]
    rfl
  have htopic : topic ∈ topics (loadedPage s.store exam user) := by
    obtain ⟨q, hq⟩ := List.exists_mem_of_ne_nil _ hne
    obtain ⟨hq, ht⟩ := List.mem_filter.mp hq
    change topic ∈ (exam.questions.filterMap ExamQuestion.topic).eraseDups
    rw [List.mem_eraseDups, List.mem_filterMap]
    exact ⟨q, hq, of_decide_eq_true ht⟩
  rw [step, getElem?_withPage, Option.bind_some, if_pos ⟨hshow, rfl, rfl, htopic, rfl⟩,
    setPage_withPage]
  rfl

/-- **Options of its questions can be tapped.** -/
theorem run_taps (f : ExamQuestion × ℕ → String) (l : List (ExamQuestion × ℕ)) (p : Page)
    (hshow : showsExam p = true)
    (hl : ∀ q ∈ l, (getSelectedQuestions p)[q.2]? = some q.1 ∧ f q ∈ q.1.options) :
    run step (withPage s p) (l.map fun q => .tapOption s.pages.length q.2 (f q)) =
      some (withPage s { p with
        selectedAnswers := (l.map fun q => (q.2, f q)).foldl (fun m a => m.set a.1 a.2)
          p.selectedAnswers }) := by
  induction l generalizing p with
  | nil => rfl
  | cons q l ih =>
    obtain ⟨⟨hq, hopt⟩, hrest⟩ := List.forall_mem_cons.mp hl
    have hstep : step (withPage s p) (.tapOption s.pages.length q.2 (f q)) =
        some (withPage s { p with selectedAnswers := p.selectedAnswers.set q.2 (f q) }) := by
      rw [step, getElem?_withPage, Option.bind_some, if_pos ⟨hshow, q.1, hq, hopt⟩, setPage_withPage]
    rw [List.map_cons, run_cons, hstep, Option.bind_some]
    exact ih { p with selectedAnswers := p.selectedAnswers.set q.2 (f q) } hshow hrest

/-- The answers when an option of each question is tapped. -/
def answersOf (questions : List ExamQuestion) (f : ExamQuestion × ℕ → String) : LinkedMap ℕ String :=
  LinkedMap.ofPairs (questions.zipIdx.map fun q => (q.2, f q))

theorem entries_answersOf (questions : List ExamQuestion) (f : ExamQuestion × ℕ → String) :
    (answersOf questions f).entries = questions.zipIdx.map fun q => (q.2, f q) := by
  have hnodup : ((questions.zipIdx.map fun q => (q.2, f q)).map Prod.fst).Nodup := by
    rw [List.map_map]
    change (questions.zipIdx.map Prod.snd).Nodup
    rw [List.zipIdx_map_snd]
    exact List.nodup_range'
  exact LinkedMap.entries_foldl_set _ LinkedMap.empty hnodup

/-- **The score is the number of right choices.** -/
theorem scoreOf_answersOf (questions : List ExamQuestion) (f : ExamQuestion × ℕ → String) :
    scoreOf questions (answersOf questions f) =
      questions.zipIdx.countP fun q => right q.1 (f q) := by
  refine List.countP_congr fun q hq => ?_
  have hget : (answersOf questions f).get? q.2 = some (f q) := by
    rw [LinkedMap.get?_eq_some_iff, entries_answersOf]
    exact List.mem_map.mpr ⟨q, hq, rfl⟩
  rw [hget, decide_eq_true_eq, Option.some.injEq, right, beq_iff_eq]

/-! ### Finishing the test -/

/-- The state with one more running `finishTest`. -/
def withCall (s : State) (c : FinishCall) : State := { s with calls := s.calls ++ [c] }

/-- The last call goes on. -/
theorem step_finishTest (s : State) (c : FinishCall) {p : Page} (hp : s.pages[c.page]? = some p)
    (full_name : Option String) :
    step (withCall s c) (.finishTest s.calls.length full_name) =
      finishTest (withCall s c) s.calls.length c p full_name := by
  have hc : (withCall s c).calls[s.calls.length]? = some c := List.getElem?_concat_length
  have hp' : (withCall s c).pages[c.page]? = some p := hp
  rw [step, hc, Option.bind_some, hp', Option.bind_some]

theorem setCall_withCall (s : State) (c c' : FinishCall) :
    setCall (withCall s c) s.calls.length c' = withCall s c' := by
  unfold setCall withCall
  simp

/-- The page when the options have been tapped. -/
def answeredPage (store : Store) (exam : Exam) (user : User) (topic : String)
    (f : ExamQuestion × ℕ → String) : Page :=
  { chosenPage store exam user topic with selectedAnswers := answersOf (questionsOn exam topic) f }

/-- **A test with all answers is finished, and its result written.** -/
theorem run_finish (s : State) (user : User) {e : ℕ} (hend : exam.end_time = some e) (topic : String)
    (f : ExamQuestion × ℕ → String) :
    ∃ t r, run step (withPage s (answeredPage s.store exam user topic f))
        (.tapFinish s.pages.length :: List.replicate 2 (.finishTest s.calls.length none)) = some t ∧
      t.store.results.get? user.uid = some r ∧ r.exam = exam ∧
      r.score = scoreOf (questionsOn exam topic) (answersOf (questionsOn exam topic) f) := by
  have henabled : finishEnabled (answeredPage s.store exam user topic f) = true := by
    have hlength : (answersOf (questionsOn exam topic) f).length = (questionsOn exam topic).length := by
      unfold LinkedMap.length
      rw [entries_answersOf, List.length_map, List.length_zipIdx]
    have hshow : showsExam (answeredPage s.store exam user topic f) = true := by
      unfold showsExam answeredPage chosenPage loadedPage
      rw [hend]
      rfl
    unfold finishEnabled
    rw [hshow]
    change (true && true && ((answersOf (questionsOn exam topic) f).length ==
      (questionsOn exam topic).length) && !false) = true
    rw [hlength, beq_self_eq_true]
    rfl
  -- the page with its score, the call, and what it writes
  let q : Page := { answeredPage s.store exam user topic f with
                    score := scoreOf (questionsOn exam topic) (answersOf (questionsOn exam topic) f) }
  let data : ResultData := resultData q exam user none
  have hq : (withPage s q).pages[s.pages.length]? = some q := getElem?_withPage s q
  have hcalls : (withPage s q).calls.length = s.calls.length := rfl
  have htap : step (withPage s (answeredPage s.store exam user topic f)) (.tapFinish s.pages.length) =
      some (withCall (withPage s q) { page := s.pages.length, pc := .getUserFullName user }) := by
    rw [step, getElem?_withPage, Option.bind_some, if_pos henabled, setPage_withPage]
    rfl
  have hname : step (withCall (withPage s q) { page := s.pages.length, pc := .getUserFullName user })
      (.finishTest s.calls.length none) =
      some (withCall (withPage s q) { page := s.pages.length, pc := .write user.uid data }) := by
    rw [← hcalls, step_finishTest _ _ hq]
    change some (setCall _ _ _) = _
    rw [setCall_withCall]
  let written : State := { withPage s q with store := setResult s.store user.uid data }
  have hwrite : step (withCall (withPage s q) { page := s.pages.length, pc := .write user.uid data })
      (.finishTest s.calls.length none) =
      some (withCall written { page := s.pages.length, pc := .fetchResults }) := by
    rw [← hcalls, step_finishTest _ _ hq]
    change some (setCall (withCall written _) written.calls.length _) = _
    rw [setCall_withCall]
  refine ⟨withCall written { page := s.pages.length, pc := .fetchResults },
    { data with timestamp := s.store.now }, ?_,
    LinkedMap.get?_set_self s.store.results user.uid _, rfl, rfl⟩
  rw [List.replicate_succ, List.replicate_succ, run_cons, htap, Option.bind_some, run_cons, hname,
    Option.bind_some, run_cons, hwrite, Option.bind_some]
  rfl

/-! ### What the scores can be -/

/-- The user can end up with a result for this exam and with this score. -/
def CanGet (s : State) (exam : Exam) (user : User) (k : ℕ) : Prop :=
  ∃ as t r, run step s as = some t ∧ t.store.results.get? user.uid = some r ∧ r.exam = exam ∧
    r.score = k

/-- A topic whose questions all have options, and can be answered with this score. -/
structure Offers (exam : Exam) (k : ℕ) (topic : String) : Prop where
  questions : questionsOn exam topic ≠ []
  options : ∀ q ∈ questionsOn exam topic, q.options ≠ []
  score : Possible (questionsOn exam topic) k

/-- A complete submission is for such a topic. -/
theorem offers_of_submitted {r : ResultData} (h : Submitted r) :
    ∃ topic, Offers r.exam r.score topic := by
  obtain ⟨topic, hne, hanswers⟩ := h
  refine ⟨topic, hne, fun q hq => ?_, hanswers.score⟩
  obtain ⟨i, hi⟩ := List.mem_iff_getElem?.mp hq
  have hkey := (hanswers.keys (toString i)).mpr ⟨i, (List.getElem?_eq_some_iff.mp hi).1, rfl⟩
  obtain ⟨option, ho⟩ := LinkedMap.mem_keys_iff.mp hkey
  obtain ⟨q', hq', hopt⟩ := hanswers.options i option ho
  obtain rfl := Option.some.inj (hi.symm.trans hq')
  exact List.ne_nil_of_mem hopt

/-- **Options can be chosen that give the score.** -/
theorem exists_choice_of_possible {questions : List ExamQuestion} {k : ℕ}
    (hopts : ∀ q ∈ questions, q.options ≠ []) (hk : Possible questions k) :
    ∃ f : ExamQuestion × ℕ → String, (∀ q ∈ questions.zipIdx, f q ∈ q.1.options) ∧
      questions.zipIdx.countP (fun q => right q.1 (f q)) = k := by
  have hnodup : questions.zipIdx.Nodup := by
    refine List.Nodup.of_map Prod.snd ?_
    rw [List.zipIdx_map_snd]
    exact List.nodup_range'
  have hne : ∀ q ∈ questions.zipIdx, q.1.options ≠ [] := by
    intro q hq
    exact hopts q.1 (List.mem_of_getElem? (List.mem_zipIdx_iff_getElem?.mp hq))
  obtain ⟨hlo, hhi⟩ := hk
  unfold Choices.fewest at hlo
  unfold Choices.most at hhi
  rw [← countP_zipIdx] at hlo hhi
  exact Choices.exists_choice hnodup hne hlo hhi

/-- **Every score of a run is offered** by a topic of its exam. -/
theorem offers_of_canGet {as : List Action} (hrun : run step installed as = some s) {k : ℕ}
    (h : CanGet s exam user k) : ∃ topic, Offers exam k topic := by
  obtain ⟨as', t, r, hrun', hr, rfl, rfl⟩ := h
  have hall : run step installed (as ++ as') = some t := by
    rw [run_append, hrun, Option.bind_some, hrun']
  have hsub : Submissions t :=
    run_of_keeps (fun _ _ _ hI h => submissions_step hI h) submissions_installed hall
  exact offers_of_submitted (hsub.results user.uid r hr)

/-- **A user without a result can get what a topic offers**, in an exam that is not over. -/
theorem canGet_of_offers (hactive : s.store.active = some exam) {e : ℕ} (hend : exam.end_time = some e)
    (hnow : ¬ e < s.store.now) (hnone : s.store.results.get? user.uid = none) {k : ℕ} {topic : String}
    (hoffers : Offers exam k topic) : CanGet s exam user k := by
  obtain ⟨f, hf, hcount⟩ := exists_choice_of_possible hoffers.options hoffers.score
  obtain ⟨t, r, hfinish, hr, hexam, hscore⟩ := run_finish s user hend topic f
  refine ⟨(.openPage (some user) :: List.replicate 3 (.loadExam s.pages.length)) ++
    (.chooseTopic s.pages.length topic :: ((questionsOn exam topic).zipIdx.map fun q =>
      .tapOption s.pages.length q.2 (f q)) ++
    (.tapFinish s.pages.length :: List.replicate 2 (.finishTest s.calls.length none))), t, r, ?_,
    hr, hexam, hscore.trans ((scoreOf_answersOf _ f).trans hcount)⟩
  have hshow : showsExam (chosenPage s.store exam user topic) = true := by
    unfold showsExam chosenPage loadedPage
    rw [hend]
    rfl
  have htaps := run_taps (s := s) f (questionsOn exam topic).zipIdx
    (chosenPage s.store exam user topic) hshow
    fun q hq => ⟨List.mem_zipIdx_iff_getElem?.mp hq, hf q hq⟩
  rw [run_append, run_open hactive hend hnow hnone, Option.bind_some, List.cons_append, run_cons,
    step_chooseTopic hend hoffers.questions, Option.bind_some, run_append, htaps, Option.bind_some]
  exact hfinish

/-- **The scores of the active exam**, which is not over, that a user without a result can end up with
are those that the questions on one of its topics can be answered with. -/
theorem result_iff {as : List Action} (hrun : run step installed as = some s)
    (hactive : s.store.active = some exam) {e : ℕ} (hend : exam.end_time = some e)
    (hnow : ¬ e < s.store.now) (hnone : s.store.results.get? user.uid = none) (k : ℕ) :
    CanGet s exam user k ↔ ∃ topic, Offers exam k topic :=
  ⟨fun h => offers_of_canGet hrun h,
    fun ⟨_, hoffers⟩ => canGet_of_offers hactive hend hnow hnone hoffers⟩

theorem result_iff_published :
    ∃ s exam, run step installed (secondExam.take 1) = some s ∧ s.store.active = some exam ∧
      (CanGet s exam ayse 1 ↔ ∃ topic, Offers exam 1 topic) := by
  have hrun : run step installed (secondExam.take 1) = some _ := rfl
  exact ⟨_, _, hrun, rfl, result_iff hrun rfl rfl (by decide) rfl 1⟩

end KamuSinavi.PracticeExam.Scores
