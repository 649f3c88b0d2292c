import KamuSinavi.Bank.Store
import KamuSinavi.Completion
import KamuSinavi.Lib.Choices
import KamuSinavi.Session.Selection

/-! # The scores a test can have

A user who finishes a test by hand has answered every question (`pages/test_screen.dart`), and the
result shows and saves how many answers are right (`pages/result_screen.dart`). `scores_iff` says
which numbers that can be.

`fullMarks_iff` follows the questions of a topic from the question bank into the test (`_startTest` in
`pages/Kamu_sinavlari.dart`) and says when all of them can be answered right. -/

namespace KamuSinavi.Session.Scores

open KamuSinavi.Lib KamuSinavi.Lib.Runs KamuSinavi.Lib.Dart KamuSinavi.Models KamuSinavi.History
open KamuSinavi.Lib.ListHeap KamuSinavi.Session.Selection

variable (C : Convert)

/-- The option is the answer. -/
def right (q : QuestionObj) (option : String) : Bool := option == q.answer

/-- The questions that are answered right whatever the user taps. -/
def fewest (qs : List QuestionObj) : ℕ := Choices.fewest (fun q : QuestionObj => q.options) right qs

/-- The questions that can be answered right. -/
def most (qs : List QuestionObj) : ℕ := Choices.most (fun q : QuestionObj => q.options) right qs

/-- The result shows `k` right answers, and the record that was added last says the same. -/
structure Result (s : State) (k : ℕ) : Prop where
  shown : (ResultScreen.build s.test.questions s.test.selectedAnswers).correctAnswers = k
  saved : ∃ earlier r, s.service.testResults = earlier ++ [r] ∧
    r.score = Double.percent k s.test.questions.length

/-- The session after `Testi Bitir` and the first build of the result. -/
def finished (s : State) (date : DateTime) : State :=
  { navigateToResultScreen s with
    results := { drawn := true } :: s.results
    service := s.service.saveTestResult C s.test date
    builds := s.builds + 1 }

/-- **A session can end with `k` right answers**: something is done in it, `Testi Bitir` is pressed, and
the result is drawn. -/
def CanScore (w : TestScreen) (qs : RandomQuestions w) (service : Service) (k : ℕ) : Prop :=
  ∃ steps date t,
    run (step C) (initState w qs service) (steps ++ [.tapFinish, .build 0 date]) = some t ∧ Result t k

/-- The data of a question document. -/
def ofDoc (d : Bank.QuestionDoc) : Json :=
  .obj [("question", .str d.question), ("options", .arr (d.options.map .str)),
    ("answer", Question.nullable d.answer), ("imagePath", Question.nullable d.imagePath)]

/-- What `_startTest` reads of the questions of a topic. -/
def snapshotOf (s : Bank.Store) (topic : String) : List Json :=
  (s.questionList topic).map fun e => ofDoc e.doc

/-- **All questions of the test that `_startTest` opens can be answered right.** -/
def FullMarks (settings : Settings) (topic : String) (snapshot : List Json)
    (offlineData : Option (List String)) (random random' : Shuffle QuestionObj) (h : Lists) : Prop :=
  ∃ args h' w qs,
    startTest C settings topic true (some snapshot) offlineData random h = (some (.ok args), h') ∧
      Begins args h' (shuffledQuestions random' args.testData h').2
        (shuffledQuestions random' args.testData h').1 w qs ∧
      ∀ service, CanScore C w qs service qs.1.length

variable {C}

/-! ### Tapping one option of each question -/

/-- The answers after one option of each question has been tapped. -/
theorem get?_foldl_tap (f : QuestionObj → String) (qs : List QuestionObj)
    (m : LinkedMap QuestionObj String) (q : QuestionObj) :
    (qs.foldl (fun m q => m.set q (f q)) m).get? q = if q ∈ qs then some (f q) else m.get? q := by
  induction qs generalizing m with
  | nil => rfl
  | cons q' qs ih =>
    rw [List.foldl_cons, ih, LinkedMap.get?_set]
    by_cases hq : q ∈ qs
    · rw [if_pos hq, if_pos (List.mem_cons_of_mem _ hq)]
    · rw [if_neg hq]
      by_cases he : q = q'
      · rw [if_pos he, if_pos (he ▸ List.mem_cons_self ..), he]
      · rw [if_neg he, if_neg fun hmem => (List.mem_cons.mp hmem).elim he hq]

/-- **The taps leave the answers, and nothing else.** -/
theorem exists_taps {f : QuestionObj → String} (qs : List QuestionObj) (s : State)
    (hqs : ∀ q ∈ qs, q ∈ s.test.questions ∧ f q ∈ q.options) (hon : onTop s = true) :
    ∃ test, run (step C) s (qs.map fun q => .tapOption q (f q)) = some { s with test := test } ∧
      test.questions = s.test.questions ∧
      test.selectedAnswers = qs.foldl (fun m q => m.set q (f q)) s.test.selectedAnswers := by
  induction qs generalizing s with
  | nil => exact ⟨s.test, rfl, rfl, rfl⟩
  | cons q qs ih =>
    obtain ⟨⟨hq, hopt⟩, hrest⟩ := List.forall_mem_cons.mp hqs
    have hstep : step C s (.tapOption q (f q)) = some { s with test := select s.test q hq (f q) } := by
      simp only [step, dif_pos hq, if_pos (And.intro hon hopt)]
    obtain ⟨test, hrun, hquestions, hanswers⟩ :=
      ih { s with test := select s.test q hq (f q) } hrest hon
    refine ⟨test, ?_, hquestions, hanswers⟩
    rw [List.map_cons, run_cons, hstep, Option.bind_some]
    exact hrun

/-- What finishing by hand and drawing the result make of a session. -/
theorem run_finish {s t : State} {date : DateTime} :
    run (step C) s [.tapFinish, .build 0 date] = some t ↔
      (onTop s = true ∧ Completion.finishEnabled s = true) ∧
        t = finished C s date := by
  rw [Completion.finishEnabled, beq_iff_eq]
  by_cases hg : onTop s ∧ s.test.selectedAnswers.length = s.test.questions.length
  · rw [and_iff_right hg]
    have hrun : run (step C) s [.tapFinish, .build 0 date] = some (finished C s date) := by
      simp only [run_cons, step, if_pos hg, Option.bind_some, navigateToResultScreen, List.length_cons,
        Nat.zero_lt_succ, if_true, run_nil, List.set_cons_zero, finished]
    rw [hrun, Option.some.injEq]
    exact eq_comm
  · refine iff_of_false (fun h => ?_) fun h => hg h.1
    rw [run_cons] at h
    simp only [step, if_neg hg, Option.bind_none] at h
    cases h

/-- One option of each question is tapped. -/
def taps (f : QuestionObj → String) (qs : List QuestionObj) : List Step :=
  qs.map fun q => .tapOption q (f q)

/-- **Every choice of options can be made**, and the test finished with it. -/
theorem exists_finished (w : TestScreen) (qs : RandomQuestions w) (service : Service) (date : DateTime)
    {f : QuestionObj → String} (hf : ∀ q ∈ qs.1, f q ∈ q.options) :
    ∃ s, run (step C) (initState w qs service) (taps f qs.1) = some s ∧ s.test.questions = qs.1 ∧
      (∀ q ∈ qs.1, s.test.selectedAnswers.get? q = some (f q)) ∧
      run (step C) (initState w qs service) (taps f qs.1 ++ [.tapFinish, .build 0 date]) =
        some (finished C s date) := by
  obtain ⟨test, htaps, hquestions, hanswers⟩ := exists_taps (C := C) qs.1
    (initState w qs service) (fun q hq => ⟨hq, hf q hq⟩) rfl
  have hget : ∀ q ∈ qs.1, test.selectedAnswers.get? q = some (f q) := fun q hq => by
    rw [hanswers, get?_foldl_tap, if_pos hq]
  let s : State := { initState w qs service with test := test }
  have hown : Completion.OwnOptions s :=
    run_of_keeps (fun _ _ _ hJ h => Completion.ownOptions_step hJ h) (fun _ _ h => by cases h) htaps
  have hsame : s.test.questions = qs.1 := hquestions
  have hen : Completion.finishEnabled s = true :=
    (Completion.completeSession_of_ownOptions hown).enabled.mpr fun q hq =>
      ⟨f q, hget q (hsame ▸ hq)⟩
  refine ⟨s, htaps, hsame, hget, ?_⟩
  unfold taps
  rw [run_append, htaps, Option.bind_some]
  exact run_finish.mpr ⟨⟨rfl, hen⟩, rfl⟩

/-! ### The score -/

/-- The choice a complete session has made. -/
theorem exists_choice_of_complete {s : State} (h : Completion.OwnOptions s)
    (hen : Completion.finishEnabled s = true) :
    ∃ f : QuestionObj → String, ∀ q ∈ s.test.questions,
      s.test.selectedAnswers.get? q = some (f q) ∧ f q ∈ q.options := by
  have hall := (Completion.completeSession_of_ownOptions h).enabled.mp hen
  refine ⟨fun q => (s.test.selectedAnswers.get? q).getD "", fun q hq => ?_⟩
  obtain ⟨option, ho⟩ := hall q hq
  have hf : (s.test.selectedAnswers.get? q).getD "" = option := by rw [ho]; rfl
  refine ⟨ho.trans (congrArg some hf.symm), ?_⟩
  change (s.test.selectedAnswers.get? q).getD "" ∈ q.options
  rw [hf]
  exact h q option ho

/-- The result of a session whose answers are a choice. -/
theorem correctAnswers_of_choice {t : FinishedTest} {f : QuestionObj → String}
    (hf : ∀ q ∈ t.questions, t.selectedAnswers.get? q = some (f q)) :
    (ResultScreen.build t.questions t.selectedAnswers).correctAnswers =
      t.questions.countP fun q => right q (f q) := by
  rw [ResultScreen.correctAnswers_build]
  refine List.countP_congr fun q hq => ?_
  rw [hf q hq]
  rfl

/-- **What is shown is saved, if every question has an answer.** -/
theorem result_of_choice {s : State} (date : DateTime) {f : QuestionObj → String}
    (hf : ∀ q ∈ s.test.questions, s.test.selectedAnswers.get? q = some (f q)) :
    Result (finished C s date) (s.test.questions.countP fun q => right q (f q)) := by
  have hshown := correctAnswers_of_choice hf
  have hcount : (s.test.questions.countP fun q =>
      (s.test.selectedAnswers.get? q).getD "" == q.answer) =
        Service.correctAnswersCount s.test.questions s.test.selectedAnswers :=
    Report.countP_getD_eq_iff.mpr fun q hq hnone => by
      rw [hf q hq] at hnone
      cases hnone
  refine ⟨hshown, s.service.testResults, Service.newResult C s.test date,
    Service.saveTestResult_testResults _ _ _, ?_⟩
  rw [ResultScreen.correctAnswers_build, hcount] at hshown
  rw [Service.newResult, hshown]
  rfl

/-- **A session can end with `k` right answers exactly if every question has options, and `k` is between
the number of questions that only have right ones and of those that have a right one.** -/
theorem scores_iff (w : TestScreen) (qs : RandomQuestions w) (service : Service) (k : ℕ) :
    CanScore C w qs service k ↔
      (∀ q ∈ qs.1, q.options ≠ []) ∧ fewest qs.1 ≤ k ∧ k ≤ most qs.1 := by
  constructor
  · rintro ⟨steps, date, t, hrun, hresult⟩
    rw [run_append] at hrun
    obtain ⟨s, hs, hend⟩ := Option.bind_eq_some_iff.mp hrun
    obtain ⟨⟨-, hen⟩, rfl⟩ := run_finish.mp hend
    have hown : Completion.OwnOptions s ∧ s.test.questions = qs.1 := by
      refine run_of_keeps (J := fun s => Completion.OwnOptions s ∧ s.test.questions = qs.1)
        (fun s a t hJ h => ⟨Completion.ownOptions_step hJ.1 h, ?_⟩) ⟨fun _ _ h => (by cases h), rfl⟩ hs
      rcases test_step h with ⟨question, option, hq, -, -, ht⟩ | ht
      · rw [ht]; exact hJ.2
      · rw [ht]; exact hJ.2
    obtain ⟨f, hf⟩ := exists_choice_of_complete hown.1 hen
    have hk := hresult.shown.symm.trans (correctAnswers_of_choice fun q hq => (hf q hq).1)
    change k = s.test.questions.countP _ at hk
    rw [hk, hown.2]
    rw [hown.2] at hf
    exact ⟨fun q hq => List.ne_nil_of_mem (hf q hq).2,
      Choices.countP_choice _ right fun q hq => (hf q hq).2⟩
  · rintro ⟨hne, hlo, hhi⟩
    have hnodup : qs.1.Nodup := List.Nodup.of_map QuestionObj.ref
      ((qs.2.map QuestionObj.ref).nodup_iff.mpr w.distinct)
    obtain ⟨f, hf, hcount⟩ := Choices.exists_choice hnodup hne hlo hhi
    obtain ⟨s, -, hquestions, hget, hrun⟩ := exists_finished (C := C) w qs service .noon hf
    have hres := result_of_choice (C := C) (s := s) .noon fun q hq => hget q (hquestions ▸ hq)
    rw [hquestions, hcount] at hres
    exact ⟨taps f qs.1, .noon, _, hrun, hres.shown, hres.saved⟩

/-! ### Full marks -/

/-- **All answers can be right exactly if every question has its answer among its options.** -/
theorem canScore_length_iff (w : TestScreen) (qs : RandomQuestions w) (service : Service) :
    CanScore C w qs service qs.1.length ↔ ∀ q ∈ qs.1, q.answer ∈ q.options := by
  have hany : ∀ q : QuestionObj, q.options.any (right q) = true ↔ q.answer ∈ q.options := fun q => by
    rw [List.any_eq_true]
    exact ⟨fun ⟨o, ho, he⟩ => beq_iff_eq.mp he ▸ ho, fun h => ⟨_, h, beq_self_eq_true _⟩⟩
  rw [scores_iff]
  constructor
  · rintro ⟨-, -, hmost⟩ q hq
    have hall := List.countP_eq_length.mp (Nat.le_antisymm List.countP_le_length hmost)
    exact (hany q).mp (hall q hq)
  · refine fun h => ⟨fun q hq => List.ne_nil_of_mem (h q hq), List.countP_le_length, ?_⟩
    exact (List.countP_eq_length.mpr fun q hq => (hany q).mpr (h q hq)).ge

/-- The question a document is read as. -/
def ofBank (d : Bank.QuestionDoc) : Question :=
  { question := d.question, options := d.options, answer := d.answer.getD "", imagePath := d.imagePath }

theorem fromJson_ofDoc (d : Bank.QuestionDoc) : Question.fromJson (ofDoc d) = some (ofBank d) := by
  obtain ⟨question, options, answer, imagePath⟩ := d
  have hoptions : Question.stringsOr [("question", .str question), ("options", .arr (options.map .str)),
      ("answer", Question.nullable answer), ("imagePath", Question.nullable imagePath)] "options" =
        some options := Json.mapM_map Json.str Json.str? (fun _ => rfl) options
  rw [Question.fromJson, ofDoc, Json.obj?, Option.bind_some]
  rw [hoptions]
  cases answer <;> cases imagePath <;> rfl

/-- A topic's title that is set in a `questionList` is read as `Bank.titleDoc`. -/
theorem fromJson_title (title : String) :
    Question.fromJson (.obj [("title", .str title)]) = some (ofBank Bank.titleDoc) := rfl

/-- **The questions that `_startTest` loads are those of the topic.** -/
theorem loadQuestions_snapshotOf {s : Bank.Store} {topic : String} (hne : s.questionList topic ≠ [])
    (offlineData : Option (List String)) :
    loadQuestions C true (some (snapshotOf s topic)) offlineData =
      some ((s.questionList topic).map fun e => ofBank e.doc) := by
  have hdecode : ∀ es : List Bank.Entry, (es.map fun e => ofDoc e.doc).mapM Question.fromJson =
      some (es.map fun e => ofBank e.doc) := fun es => by
    induction es with
    | nil => rfl
    | cons e es ih => rw [List.map_cons, List.mapM_cons, fromJson_ofDoc, ih]; rfl
  have hsome : ((some (snapshotOf s topic)).bind fun docs => docs.mapM Question.fromJson).getD [] =
      (s.questionList topic).map fun e => ofBank e.doc := by
    rw [Option.bind_some, snapshotOf, hdecode, Option.getD_some]
  have hnil : ((s.questionList topic).map fun e => ofBank e.doc).isEmpty = false := by
    rw [List.isEmpty_map]
    exact List.isEmpty_eq_false_iff.mpr hne
  unfold loadQuestions
  simp only [if_true, hsome, hnil, Bool.false_eq_true, if_false]

/-- The session that a started test begins presents the questions that were drawn. -/
theorem exists_begins {pool : List Question} (hpool : pool ≠ []) {random : Shuffle QuestionObj}
    {count : ℕ} {start : StateM Lists (Option (Except String TestArgs))}
    (hs : Starts C pool random count start) (random' : Shuffle QuestionObj) (h : Lists) :
    ∃ args h' w qs, start h = (some (.ok args), h') ∧
      Begins args h' (shuffledQuestions random' args.testData h').2
        (shuffledQuestions random' args.testData h').1 w qs ∧
      w.testData = (random.apply (objects pool)).take count := by
  obtain ⟨args, h', heq, hd⟩ := draws_of_starts hpool hs h
  have hread := (shuffledQuestions_draws random' args.testData h').read_eq
  rw [take_length_shuffle] at hread
  have hperm : ((shuffledQuestions random' args.testData h').2.read
      (shuffledQuestions random' args.testData h').1).Perm (h'.read args.testData) := by
    rw [hread]
    exact random'.perm _
  have hdistinct : ((h'.read args.testData).map QuestionObj.ref).Nodup := by
    rw [hd.read_eq]
    exact nodup_take_shuffle random pool count
  let w : TestScreen :=
    { testData := h'.read args.testData
      testName := args.testName
      isTimerEnabled := args.isTimerEnabled
      testDuration := args.testDuration
      distinct := hdistinct }
  exact ⟨args, h', w, ⟨_, hperm⟩, heq, ⟨rfl, rfl, rfl, rfl, rfl⟩, hd.read_eq⟩

/-- A question moved to the front. -/
def toFront (q : QuestionObj) : Shuffle QuestionObj where
  apply l := if q ∈ l then q :: l.erase q else l
  perm l := by
    split_ifs with h
    · exact (List.perm_cons_erase h).symm
    · exact List.Perm.refl l

/-- The objects of questions have their contents. -/
theorem map_toQuestion_objects (qs : List Question) :
    (objects qs).map QuestionObj.toQuestion = qs := by
  rw [objects, List.map_map]
  exact List.zipIdx_map_fst ..

section Start

variable {s : Bank.Store} {topic : String} {settings : Settings} {offlineData : Option (List String)}
  {h : Lists}

/-- **A test has full marks exactly if the answers of the drawn questions are among their options.** -/
theorem fullMarks_iff_drawn (hne : s.questionList topic ≠ []) (random random' : Shuffle QuestionObj) :
    FullMarks C settings topic (snapshotOf s topic) offlineData random random' h ↔
      ∀ q ∈ (random.apply (objects ((s.questionList topic).map fun e => ofBank e.doc))).take
        settings.selectedQuestionCount, q.answer ∈ q.options := by
  have hload := loadQuestions_snapshotOf (C := C) hne offlineData
  have hpool : (s.questionList topic).map (fun e => ofBank e.doc) ≠ [] :=
    fun hnil => hne (List.map_eq_nil_iff.mp hnil)
  obtain ⟨args, h', w, qs, heq, hbegins, hdrawn⟩ :=
    exists_begins (C := C) hpool (.startTest settings topic hload) random' h
  constructor
  · rintro ⟨args', h'', w', qs', heq', hbegins', hall⟩ q hq
    obtain ⟨hargs, rfl⟩ := Prod.mk.inj (heq.symm.trans heq')
    obtain rfl : args = args' := Except.ok.inj (Option.some.inj hargs)
    have hsame : qs'.1 = qs.1 := hbegins'.questions.trans hbegins.questions.symm
    refine (canScore_length_iff w' qs' { testResults := [], prefs := none }).mp (hall _) q ?_
    rw [hsame]
    exact qs.2.mem_iff.mpr (hdrawn ▸ hq)
  · refine fun hall => ⟨args, h', w, qs, heq, hbegins, fun service => ?_⟩
    exact (canScore_length_iff w qs service).mpr fun q hq =>
      hall q (hdrawn ▸ qs.2.mem_iff.mp hq)

/-- **Every test on a topic of the question bank can be passed with full marks exactly if the topic has
no question whose answer is not among its options**: any such question can be drawn. -/
theorem fullMarks_iff (hne : s.questionList topic ≠ []) (hcount : 0 < settings.selectedQuestionCount) :
    (∀ random random', FullMarks C settings topic (snapshotOf s topic) offlineData random random' h) ↔
      ∀ e ∈ s.questionList topic, e.doc.answer.getD "" ∈ e.doc.options := by
  have hcontents := map_toQuestion_objects ((s.questionList topic).map fun e => ofBank e.doc)
  constructor
  · intro hall e he
    have hmem : ofBank e.doc ∈ (objects ((s.questionList topic).map fun e => ofBank e.doc)).map
        QuestionObj.toQuestion := by
      rw [hcontents]
      exact List.mem_map.mpr ⟨e, he, rfl⟩
    obtain ⟨q, hq, hqe⟩ := List.mem_map.mp hmem
    have hfront : q ∈ ((toFront q).apply (objects ((s.questionList topic).map fun e =>
        ofBank e.doc))).take settings.selectedQuestionCount := by
      obtain ⟨n, hn⟩ := Nat.exists_eq_succ_of_ne_zero hcount.ne'
      rw [toFront, hn]
      simp only [if_pos hq, List.take_succ_cons]
      exact List.mem_cons_self ..
    have hans := (fullMarks_iff_drawn hne (toFront q) (toFront q)).mp (hall _ _) q hfront
    have hanswer : q.answer = e.doc.answer.getD "" := congrArg Question.answer hqe
    have hoptions : q.options = e.doc.options := congrArg Question.options hqe
    rwa [hanswer, hoptions] at hans
  · intro hall random random'
    refine (fullMarks_iff_drawn hne random random').mpr fun q hq => ?_
    have hobj := (random.perm _).mem_iff.mp (List.mem_of_mem_take hq)
    have hmem : q.toQuestion ∈ (s.questionList topic).map fun e => ofBank e.doc :=
      hcontents ▸ List.mem_map_of_mem hobj
    obtain ⟨e, he, hqe⟩ := List.mem_map.mp hmem
    have hanswer : e.doc.answer.getD "" = q.answer := congrArg Question.answer hqe
    have hoptions : e.doc.options = q.options := congrArg Question.options hqe
    rw [← hanswer, ← hoptions]
    exact hall e he

end Start

/-- A topic with two questions. -/
def twoSums : Bank.Store :=
  ((Bank.Store.empty.setTopic "Matematik").addQuestion "Matematik"
    { question := "2 + 2 = ?", options := ["4", "5", "6", "7"], answer := some "4",
      imagePath := none }).addQuestion "Matematik"
    { question := "2 + 3 = ?", options := ["4", "5", "6", "7"], answer := some "5", imagePath := none }

def tenQuestions : Settings :=
  { selectedQuestionCount := 10, isTimerEnabled := false, testDuration := 15 }

theorem fullMarks_iff_twoSums :
    (∀ random random', FullMarks compact tenQuestions "Matematik" (snapshotOf twoSums "Matematik") none
        random random' []) ↔
      ∀ e ∈ twoSums.questionList "Matematik", e.doc.answer.getD "" ∈ e.doc.options :=
  fullMarks_iff (by decide) (by decide)

end KamuSinavi.Session.Scores
