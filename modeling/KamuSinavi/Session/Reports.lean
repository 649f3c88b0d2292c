import KamuSinavi.Bank.Manager
import KamuSinavi.History.Report
import KamuSinavi.Session.Scores

/-! # From the question bank to the report

The way of a question through the app: an admin writes it (`buildQuestionManager` in
`pages/adminDashboard.dart`), a test is opened on it (`pages/Kamu_sinavlari.dart`,
`pages/customTestPage.dart`), the user taps its options (`pages/test_screen.dart`), the result is drawn
and saved (`pages/result_screen.dart`), and when the app has been started again the report shows it
(`pages/performance_report_screen.dart`).

`told_iff` says which taps the report tells as they were. `tells_iff` says on which topics it does so
whatever is tapped. -/

namespace KamuSinavi.Session.Reports

open KamuSinavi.Lib KamuSinavi.Lib.Runs KamuSinavi.Lib.Dart KamuSinavi.Models KamuSinavi.History
open KamuSinavi.Session.Selection KamuSinavi.Session.Scores

variable (C : Convert)

/-- The option that has been tapped last for a question. -/
def tapped (steps : List Step) (q : QuestionObj) : Option String :=
  steps.foldl (fun last a => match a with
    | .tapOption question option => if q = question then some option else last
    | _ => last) none

/-- **The report tells what was tapped**: when the app has been started again its last entry has a row
for each question with the option that was tapped last, and the rate of the questions for which this was
the answer. -/
def Told (qs : List QuestionObj) (steps : List Step) (service : Service) : Prop :=
  ∃ r, (service.restart.loadTestResults C).testResults.getLast? = some r ∧
    ((Report.questionResults C r).map fun row => (row.question, row.choice, row.correct)) =
      (qs.map fun q => (q.question, tapped steps q, q.answer)) ∧
    Report.successRate C r =
      Double.percent (qs.countP fun q => tapped steps q = some q.answer) qs.length

/-- Questions with one content were tapped alike, and no option that was tapped last is empty. -/
structure Tellable (qs : List QuestionObj) (steps : List Step) : Prop where
  agree : ∀ q ∈ qs, ∀ q' ∈ qs, q.toQuestion = q'.toQuestion → tapped steps q = tapped steps q'
  nonempty : ∀ q ∈ qs, tapped steps q ≠ some ""

/-- **The report tells every attempt** at a test on the topic: whatever the shuffles draw, and whatever
is done in the test until a result is drawn. -/
def Tells (settings : Settings) (topic : String) (snapshot : List Json)
    (offlineData : Option (List String)) (h : Lists) (service : Service) : Prop :=
  ∀ random random' args h' w qs steps index date t,
    startTest C settings topic true (some snapshot) offlineData random h = (some (.ok args), h') →
      Begins args h' (shuffledQuestions random' args.testData h').2
        (shuffledQuestions random' args.testData h').1 w qs →
      run (step C) (initState w qs service) (steps ++ [.build index date]) = some t →
      Told C qs.1 steps t.service

variable {C}

/-! ### What is tapped is what is saved -/

theorem tapped_concat (steps : List Step) (a : Step) (q : QuestionObj) :
    tapped (steps ++ [a]) q = match a with
      | .tapOption question option => if q = question then some option else tapped steps q
      | _ => tapped steps q := by
  unfold tapped
  rw [List.foldl_append]
  rfl

/-- **The answers of a session are the options tapped last.** -/
theorem get?_selectedAnswers (w : TestScreen) (qs : RandomQuestions w) (service : Service)
    {steps : List Step} {s : State} (h : run (step C) (initState w qs service) steps = some s)
    (q : QuestionObj) : s.test.selectedAnswers.get? q = tapped steps q := by
  refine run_history (J := fun steps s => s.test.selectedAnswers.get? q = tapped steps q) rfl
    (fun steps s a t _ hJ hst => ?_) h
  rw [tapped_concat]
  cases steps_of_step hst with
  | selected hq hon =>
    unfold select
    simp only
    rw [LinkedMap.get?_set, hJ]
  | ticked | timedOut | finished | built | popped | closed | wentHome => exact hJ

/-- The rows of a saved test. -/
theorem rows_iff {t : FinishedTest} {date : DateTime} {f : QuestionObj → Option String} :
    ((Report.questionResults C (Service.newResult C t date)).map fun row =>
        (row.question, row.choice, row.correct)) =
      (t.questions.map fun q => (q.question, f q, q.answer)) ↔
    (Report.questionResults C (Service.newResult C t date)).map Report.QuestionResult.choice =
      t.questions.map f := by
  have hquestions : (Service.newResult C t date).questions = t.questions.map QuestionObj.toQuestion := rfl
  unfold Report.questionResults
  rw [hquestions, List.map_map, List.map_map, List.map_map, List.map_map, List.map_inj_left,
    List.map_inj_left]
  refine forall₂_congr fun q _ => ?_
  simp only [Function.comp_apply, Prod.mk.injEq]
  exact ⟨fun h => h.2.1, fun h => ⟨rfl, h, rfl⟩⟩

/-- What the report tells is what the answers were. -/
theorem told_of_answers {service : Service} {test : FinishedTest} {date : DateTime} {steps : List Step}
    {earlier : List TestResult} (hanswers : ∀ q, test.selectedAnswers.get? q = tapped steps q)
    (hreopened : Report.reopened C service test date = earlier ++ [Service.newResult C test date]) :
    Told C test.questions steps (service.saveTestResult C test date) ↔
      (Report.questionResults C (Service.newResult C test date)).map Report.QuestionResult.choice =
        test.questions.map test.selectedAnswers.get? ∧
      Report.successRate C (Service.newResult C test date) =
        (Service.newResult C test date).score := by
  have hlast : ((service.saveTestResult C test date).restart.loadTestResults C).testResults.getLast? =
      some (Service.newResult C test date) := by
    change (Report.reopened C service test date).getLast? = _
    rw [hreopened, List.getLast?_concat]
  have hcount : (test.questions.countP fun q => tapped steps q = some q.answer) =
      Service.correctAnswersCount test.questions test.selectedAnswers := by
    rw [Report.correctAnswersCount_eq]
    exact List.countP_congr fun q _ => by rw [hanswers]
  have htapped : test.selectedAnswers.get? = tapped steps := funext hanswers
  unfold Told
  rw [hlast, hcount, htapped, ← rows_iff]
  constructor
  · rintro ⟨r, hr, hrows, hrate⟩
    obtain rfl := Option.some.inj hr
    exact ⟨hrows, hrate⟩
  · rintro ⟨hrows, hrate⟩
    exact ⟨_, rfl, hrows, hrate⟩

/-- **A session keeps the history in order**: a result that is drawn saves its questions. -/
theorem inv_session {w : TestScreen} {qs : RandomQuestions w} (hqs : qs.1 ≠ [])
    {app : Retention.App} (hI : Retention.Inv C app) {steps : List Step} {s : State}
    (h : run (step C) (initState w qs app.service) steps = some s) :
    s.test.questions = qs.1 ∧ Retention.Inv C { service := s.service, reportShown := false } := by
  refine run_of_keeps (J := fun s => s.test.questions = qs.1 ∧
    Retention.Inv C { service := s.service, reportShown := false }) (fun s a t hJ hst => ⟨?_, ?_⟩)
    ⟨rfl, hI⟩ h
  · rcases test_step hst with ⟨question, option, hq, -, -, ht⟩ | ht
    · rw [ht]; exact hJ.1
    · rw [ht]; exact hJ.1
  · rcases step_frame hst with ⟨index, date, -, -, hsv, -⟩ | ⟨-, -, hsv, -⟩
    · have hne : s.test.questions ≠ [] := by rw [hJ.1]; exact hqs
      rw [hsv]
      exact Retention.inv_step hJ.2 (show Retention.Op.HasQuestions (.saveTestResult s.test date) from hne)
        rfl
    · rw [hsv]
      exact hJ.2

/-- **The report tells a session exactly if it can**, and no question that was not tapped has the empty
answer. -/
theorem told_iff_session {w : TestScreen} {qs : RandomQuestions w} (hqs : qs.1 ≠ [])
    {app : Retention.App} (hI : Retention.Inv C app) {steps : List Step} {index : ℕ} {date : DateTime}
    {t : State} (h : run (step C) (initState w qs app.service) (steps ++ [.build index date]) = some t) :
    Told C qs.1 steps t.service ↔
      Tellable qs.1 steps ∧ ∀ q ∈ qs.1, tapped steps q = none → q.answer ≠ "" := by
  rw [run_append] at h
  obtain ⟨s, hs, hbuild⟩ := Option.bind_eq_some_iff.mp h
  rw [run_singleton] at hbuild
  obtain ⟨hquestions, hIs⟩ := inv_session hqs hI hs
  have hanswers : ∀ q, s.test.selectedAnswers.get? q = tapped steps q :=
    get?_selectedAnswers w qs app.service hs
  have hne : s.test.questions ≠ [] := by rw [hquestions]; exact hqs
  have hreopened : Report.reopened C s.service s.test date = _ := (Report.reopened_iff hIs).mpr hne
  cases steps_of_step hbuild with
  | built hi =>
    change Told C qs.1 steps (s.service.saveTestResult C s.test date) ↔ _
    rw [← hquestions, told_of_answers hanswers hreopened]
    constructor
    · rintro ⟨hchoices, hrate⟩
      obtain ⟨-, hagree, hnonempty, hanswered⟩ :=
        (Report.reported_iff hIs s.test date).mp ⟨hreopened, hchoices, hrate⟩
      refine ⟨⟨fun q hq q' hq' he => ?_, fun q hq he => ?_⟩, fun q hq he => ?_⟩
      · rw [← hanswers, ← hanswers]
        exact hagree q hq q' hq' he
      · exact hnonempty q hq ((hanswers q).trans he)
      · exact hanswered q hq ((hanswers q).trans he)
    · rintro ⟨⟨hagree, hnonempty⟩, hanswered⟩
      have hreadable : Report.Readable s.test := by
        refine ⟨hne, fun q hq q' hq' he => ?_, fun q hq he => ?_, fun q hq he => ?_⟩
        · rw [hanswers, hanswers]
          exact hagree q hq q' hq' he
        · exact hnonempty q hq ((hanswers q).symm.trans he)
        · exact hanswered q hq ((hanswers q).symm.trans he)
      obtain ⟨-, hchoices, hrate⟩ := (Report.reported_iff hIs s.test date).mpr hreadable
      exact ⟨hchoices, hrate⟩

/-! ### From the bank -/

/-- The questions of a test that was opened on loaded questions. -/
theorem questions_of_begins {pool : List Question} (hpool : pool ≠ []) {random : Shuffle QuestionObj}
    {count : ℕ} {start : StateM Lists (Option (Except String TestArgs))}
    (hs : Starts C pool random count start) {h h' : Lists} {args : TestArgs}
    (hstart : start h = (some (.ok args), h')) {random' : Shuffle QuestionObj} {w : TestScreen}
    {qs : RandomQuestions w}
    (hb : Begins args h' (shuffledQuestions random' args.testData h').2
      (shuffledQuestions random' args.testData h').1 w qs) :
    qs.1.Perm ((random.apply (objects pool)).take count) := by
  obtain ⟨args', h'', heq, hd⟩ := draws_of_starts hpool hs h
  obtain ⟨hargs, rfl⟩ := Prod.mk.inj (hstart.symm.trans heq)
  obtain rfl : args = args' := Except.ok.inj (Option.some.inj hargs)
  rw [← hd.read_eq, ← hb.testData]
  exact qs.2

/-- They are there, and among those that were loaded. -/
theorem questions_of_perm {pool : List Question} (hpool : pool ≠ []) {random : Shuffle QuestionObj}
    {count : ℕ} (hcount : 0 < count) {qs : List QuestionObj}
    (hperm : qs.Perm ((random.apply (objects pool)).take count)) :
    qs ≠ [] ∧ ∀ q ∈ qs, q.toQuestion ∈ pool := by
  constructor
  · rintro rfl
    have hlen := hperm.length_eq
    rw [length_take_shuffle, length_objects, List.length_nil] at hlen
    have hpos := List.length_pos_iff.mpr hpool
    omega
  · intro q hq
    have hobj := (random.perm _).mem_iff.mp (List.mem_of_mem_take (hperm.mem_iff.mp hq))
    rw [← map_toQuestion_objects pool]
    exact List.mem_map_of_mem hobj

/-- A title that is read as a question has no option to tap. -/
theorem tapped_title {w : TestScreen} {qs : RandomQuestions w} {service : Service} {steps : List Step}
    {s : State} (h : run (step C) (initState w qs service) steps = some s) {q : QuestionObj}
    (hq : q.toQuestion = ofBank Bank.titleDoc) : tapped steps q = none := by
  have hown : Completion.OwnOptions s :=
    run_of_keeps (fun _ _ _ hJ hst => Completion.ownOptions_step hJ hst) (fun _ _ hx => by cases hx) h
  have hnone : q.options = [] := congrArg Question.options hq
  cases ht : tapped steps q with
  | none => rfl
  | some option =>
    have hmem := hown q option ((get?_selectedAnswers w qs service h q).trans ht)
    rw [hnone] at hmem
    exact absurd hmem List.not_mem_nil

/-- **The report tells what was tapped exactly if questions with one content were tapped alike, no
option that was tapped last is empty, and no question is a title**: whatever the admins have stored, in
every run of the question manager, from whichever page the test was opened, and whatever the history
was. A title is read as a question without options, and the report counts it as answered right. -/
theorem told_iff {store : Bank.Store} (hstore : Bank.Manager.Answered store)
    {as : List Bank.Manager.Action} {m : Bank.Manager.State}
    (hm : run Bank.Manager.step (Bank.Manager.opened store) as = some m) {pool : List Question}
    (hpool : pool ≠ []) (hbank : ∀ q ∈ pool, ∃ e ∈ m.store.entries, q = ofBank e.doc)
    {random : Shuffle QuestionObj} {count : ℕ} (hcount : 0 < count)
    {start : StateM Lists (Option (Except String TestArgs))} (hs : Starts C pool random count start)
    {h h' : Lists} {args : TestArgs} (hstart : start h = (some (.ok args), h'))
    {random' : Shuffle QuestionObj} {w : TestScreen} {qs : RandomQuestions w}
    (hb : Begins args h' (shuffledQuestions random' args.testData h').2
      (shuffledQuestions random' args.testData h').1 w qs)
    {p : Option String} {hist : List TestResult} (hp : Service.Stored C p hist)
    {ops : List Retention.Op}
    (hops : Along (Retention.step C) (fun _ op => op.HasQuestions) (Retention.started p) ops)
    {app : Retention.App} (happ : run (Retention.step C) (Retention.started p) ops = some app)
    {steps : List Step} {index : ℕ} {date : DateTime} {t : State}
    (hrun : run (step C) (initState w qs app.service) (steps ++ [.build index date]) = some t) :
    Told C qs.1 steps t.service ↔
      Tellable qs.1 steps ∧ ∀ q ∈ qs.1, q.toQuestion ≠ ofBank Bank.titleDoc := by
  obtain ⟨hqs, hmem⟩ := questions_of_perm hpool hcount (questions_of_begins hpool hs hstart hb)
  rw [told_iff_session hqs (Retention.inv_run hp hops happ) hrun]
  rw [run_append] at hrun
  obtain ⟨u, hu, -⟩ := Option.bind_eq_some_iff.mp hrun
  refine and_congr_right fun _ => ⟨fun h q hq htitle => ?_, fun h q hq _ => ?_⟩
  · exact h q hq (tapped_title hu htitle) (congrArg Question.answer htitle)
  · obtain ⟨e, he, hqe⟩ := hbank q.toQuestion (hmem q hq)
    have hanswer : q.answer = e.doc.answer.getD "" := congrArg Question.answer hqe
    rw [hanswer]
    refine (Bank.Manager.answered_run hstore hm e he).resolve_right fun htitle => ?_
    exact h q hq (htitle ▸ hqe)

theorem exists_addSums :
    ∃ m, run Bank.Manager.step (Bank.Manager.opened Bank.Store.empty) Bank.Manager.addSums = some m ∧
      m.store.entries = twoSums.entries := ⟨_, rfl, rfl⟩

/-- The two sums are in the only list of questions. -/
theorem questionList_addSums {s : Bank.Store} (h : s.entries = twoSums.entries) (topic : String) :
    s.questionList topic = twoSums.questionList topic := by
  unfold Bank.Store.questionList
  rw [h]

/-- A test has been saved before. -/
def savedOne : Retention.App where
  service := Service.saveTestResult compact (Retention.started none).service Retention.sums .noon
  reportShown := false

theorem run_savedOne : run (Retention.step compact) (Retention.started none)
    [.saveTestResult Retention.sums .noon] = some savedOne := rfl

theorem told_iff_addSums :
    ∃ m args h' w qs steps t,
      run Bank.Manager.step (Bank.Manager.opened Bank.Store.empty) Bank.Manager.addSums = some m ∧
      startTest compact tenQuestions "Matematik" true (some (snapshotOf m.store "Matematik")) none
        reversed [] = (some (.ok args), h') ∧
      qs.1.length = 2 ∧
      run (step compact) (initState w qs savedOne.service) (steps ++ [.build 0 .noon]) = some t ∧
      (Told compact qs.1 steps t.service ↔
        Tellable qs.1 steps ∧ ∀ q ∈ qs.1, q.toQuestion ≠ ofBank Bank.titleDoc) := by
  obtain ⟨m, hm, hentries⟩ := exists_addSums
  have hlist := questionList_addSums hentries "Matematik"
  have hne : m.store.questionList "Matematik" ≠ [] := by rw [hlist]; decide
  have hpool : (m.store.questionList "Matematik").map (fun e => ofBank e.doc) ≠ [] :=
    fun hnil => hne (List.map_eq_nil_iff.mp hnil)
  have hs : Starts compact ((m.store.questionList "Matematik").map fun e => ofBank e.doc) reversed 10
      (startTest compact tenQuestions "Matematik" true (some (snapshotOf m.store "Matematik")) none
        reversed) := .startTest tenQuestions "Matematik" (loadQuestions_snapshotOf hne none)
  obtain ⟨args, h', w, qs, hstart, hb, -⟩ := exists_begins hpool hs reversed []
  have hperm := questions_of_begins hpool hs hstart hb
  have hmem := (questions_of_perm hpool (by decide) hperm).2
  have htwo : qs.1.length = 2 := by
    rw [hperm.length_eq, length_take_shuffle, length_objects, hlist]
    decide
  have hfour : ∀ q ∈ qs.1, "4" ∈ q.options := fun q hq => by
    have hall : ∀ question ∈ (twoSums.questionList "Matematik").map (fun e => ofBank e.doc),
        "4" ∈ question.options := by decide
    exact hall q.toQuestion (hlist ▸ hmem q hq)
  obtain ⟨u, -, -, -, hrun⟩ :=
    exists_finished (C := compact) w qs savedOne.service .noon hfour
  rw [List.append_cons] at hrun
  refine ⟨m, args, h', w, qs, _, _, hm, hstart, htwo, hrun, ?_⟩
  exact told_iff (fun _ he => absurd he List.not_mem_nil) hm hpool
    (fun q hq => let ⟨e, he, hqe⟩ := List.mem_map.mp hq
      ⟨e, (Bank.Store.mem_questionList.mp he).1, hqe.symm⟩)
    (by decide) hs hstart hb Service.stored_none (by decide) run_savedOne hrun

/-! ### All attempts at a test on a topic -/

section Topic

variable {settings : Settings} {topic : String} {offlineData : Option (List String)} {h : Lists}
  {app : Retention.App} {s : Bank.Store}

/-- The questions of a topic, as they are read. -/
def questionsOf (s : Bank.Store) (topic : String) : List Question :=
  (s.questionList topic).map fun e => ofBank e.doc

/-- Any choice of options for the questions that are drawn can be tapped, and is told. -/
theorem Tells.choice (hT : Tells C settings topic (snapshotOf s topic) offlineData h app.service)
    (hI : Retention.Inv C app) (hne : s.questionList topic ≠ [])
    (hcount : 0 < settings.selectedQuestionCount) (random : Shuffle QuestionObj)
    {f : QuestionObj → String} (hf : ∀ q ∈ objects (questionsOf s topic), f q ∈ q.options) {drawn}
    (hdrawn : drawn = (random.apply (objects (questionsOf s topic))).take settings.selectedQuestionCount) :
    (∀ q ∈ drawn, ∀ q' ∈ drawn, q.toQuestion = q'.toQuestion → f q = f q') ∧
      ∀ q ∈ drawn, f q ≠ "" := by
  have hpool : questionsOf s topic ≠ [] := fun hnil => hne (List.map_eq_nil_iff.mp hnil)
  have hstarts : Starts C (questionsOf s topic) random settings.selectedQuestionCount
      (startTest C settings topic true (some (snapshotOf s topic)) offlineData random) :=
    .startTest settings topic (loadQuestions_snapshotOf hne offlineData)
  obtain ⟨args, h', w, qs, heq, hb, -⟩ := exists_begins hpool hstarts random h
  have hperm := questions_of_begins hpool hstarts heq hb
  rw [← hdrawn] at hperm
  have hqs := (questions_of_perm hpool hcount (hdrawn ▸ hperm)).1
  have hobjects : ∀ q ∈ drawn, q ∈ objects (questionsOf s topic) := fun q hq => by
    rw [hdrawn] at hq
    exact (random.perm _).mem_iff.mp (List.mem_of_mem_take hq)
  obtain ⟨t, htaps, -, hget, hfinish⟩ := exists_finished (C := C) w qs app.service .noon fun q hq =>
    hf q (hobjects q (hperm.mem_iff.mp hq))
  -- a tap on the button is no tap on an option
  have htapped : ∀ q ∈ drawn, tapped (taps f qs.1 ++ [.tapFinish]) q = some (f q) := fun q hq => by
    rw [tapped_concat, ← get?_selectedAnswers w qs app.service htaps]
    exact hget q (hperm.mem_iff.mpr hq)
  have hrun : run (step C) (initState w qs app.service)
      ((taps f qs.1 ++ [.tapFinish]) ++ [.build 0 .noon]) = some (finished C t .noon) := by
    rw [List.append_assoc]
    exact hfinish
  obtain ⟨⟨hagree, hnonempty⟩, -⟩ :=
    (told_iff_session hqs hI hrun).mp (hT random random args h' w qs _ _ _ _ heq hb hrun)
  refine ⟨fun q hq q' hq' he => ?_, fun q hq he => ?_⟩
  · have hsame := hagree q (hperm.mem_iff.mpr hq) q' (hperm.mem_iff.mpr hq') he
    rw [htapped q hq, htapped q' hq'] at hsame
    exact Option.some.inj hsame
  · refine hnonempty q (hperm.mem_iff.mpr hq) ?_
    rw [htapped q hq, he]

/-- Two questions moved to the front. -/
theorem mem_take_toFront {q q' : QuestionObj} {qs : List QuestionObj} (hq : q ∈ qs) (hq' : q' ∈ qs)
    {n : ℕ} (hn : 2 ≤ n) :
    q ∈ ((toFront q).apply ((toFront q').apply qs)).take n ∧
      q' ∈ ((toFront q).apply ((toFront q').apply qs)).take n := by
  obtain ⟨n, rfl⟩ := Nat.exists_eq_add_of_le' hn
  have hmem : q ∈ (toFront q').apply qs := ((toFront q').perm qs).mem_iff.mpr hq
  unfold toFront at hmem ⊢
  simp only [if_pos hq'] at hmem ⊢
  rw [if_pos hmem, List.take_succ_cons]
  refine ⟨List.mem_cons_self .., ?_⟩
  by_cases he : q' = q
  · rw [he]
    exact List.mem_cons_self ..
  · rw [List.erase_cons_tail (by simpa using he), List.take_succ_cons]
    exact List.mem_cons_of_mem _ (List.mem_cons_self ..)

/-- The shuffle that moves two questions to the front. -/
def toFrontBoth (q q' : QuestionObj) : Shuffle QuestionObj where
  apply l := (toFront q).apply ((toFront q').apply l)
  perm l := ((toFront q).perm _).trans ((toFront q').perm l)

/-- Another option of one question. -/
theorem choice_update {qs : List QuestionObj} {f : QuestionObj → String}
    (hf : ∀ x ∈ qs, f x ∈ x.options) {q : QuestionObj} {o : String} (ho : o ∈ q.options) :
    ∀ x ∈ qs, Function.update f q o x ∈ x.options := by
  intro x hx
  by_cases he : x = q
  · rw [he, Function.update_self]
    exact ho
  · rw [Function.update_of_ne he]
    exact hf x hx

/-- Two questions with one content can be tapped differently. -/
theorem Tells.inj (hT : Tells C settings topic (snapshotOf s topic) offlineData h app.service)
    (hI : Retention.Inv C app) (hcount : 2 ≤ settings.selectedQuestionCount)
    (htwo : ∀ q ∈ objects (questionsOf s topic), ∃ o ∈ q.options, ∃ o' ∈ q.options, o ≠ o')
    {q q' : QuestionObj} (hq : q ∈ objects (questionsOf s topic))
    (hq' : q' ∈ objects (questionsOf s topic)) (he : q.toQuestion = q'.toQuestion) : q = q' := by
  by_contra hqq
  have hne : s.questionList topic ≠ [] := by
    intro hnil
    unfold questionsOf at hq
    rw [hnil] at hq
    cases hq
  obtain ⟨o, ho, o', ho', hdiff⟩ := htwo q hq
  have hmore : o' ∈ q'.options := congrArg Question.options he ▸ ho'
  choose! first hfirst using htwo
  have hf := choice_update (choice_update (fun x hx => (hfirst x hx).1) hmore) ho
  obtain ⟨hmem, hmem'⟩ := mem_take_toFront hq hq' hcount
  have hsame := (hT.choice hI hne (by omega) (toFrontBoth q q') hf rfl).1 q hmem q' hmem' he
  rw [Function.update_self, Function.update_of_ne (Ne.symm hqq), Function.update_self] at hsame
  exact hdiff hsame

/-- An empty option can be tapped. -/
theorem Tells.nonempty
    (hT : Tells C settings topic (snapshotOf s topic) offlineData h app.service)
    (hI : Retention.Inv C app) (hcount : 2 ≤ settings.selectedQuestionCount)
    (htwo : ∀ q ∈ objects (questionsOf s topic), ∃ o ∈ q.options, ∃ o' ∈ q.options, o ≠ o')
    {q : QuestionObj} (hq : q ∈ objects (questionsOf s topic)) : "" ∉ q.options := by
  intro hempty
  have hne : s.questionList topic ≠ [] := by
    intro hnil
    unfold questionsOf at hq
    rw [hnil] at hq
    cases hq
  choose! first hfirst using htwo
  have hf := choice_update (fun x hx => (hfirst x hx).1) hempty
  obtain ⟨hmem, -⟩ := mem_take_toFront hq hq hcount
  exact (hT.choice hI hne (by omega) (toFrontBoth q q) hf rfl).2 q hmem (Function.update_self ..)

/-- **The report tells every attempt at a test on a topic exactly if no two of its questions have one
content and none has an empty option**, when each has two different options and two questions can be
drawn. -/
theorem tells_iff {store : Bank.Store} (hstore : Bank.Manager.Answered store)
    {as : List Bank.Manager.Action} {m : Bank.Manager.State}
    (hm : run Bank.Manager.step (Bank.Manager.opened store) as = some m)
    (hne : m.store.questionList topic ≠ []) (hcount : 2 ≤ settings.selectedQuestionCount)
    (htwo : ∀ e ∈ m.store.questionList topic, ∃ o ∈ e.doc.options, ∃ o' ∈ e.doc.options, o ≠ o')
    {p : Option String} {hist : List TestResult} (hp : Service.Stored C p hist)
    {ops : List Retention.Op}
    (hops : Along (Retention.step C) (fun _ op => op.HasQuestions) (Retention.started p) ops)
    (happ : run (Retention.step C) (Retention.started p) ops = some app) :
    Tells C settings topic (snapshotOf m.store topic) offlineData h app.service ↔
      (questionsOf m.store topic).Nodup ∧ ∀ e ∈ m.store.questionList topic, "" ∉ e.doc.options := by
  have hI := Retention.inv_run hp hops happ
  have hpool : questionsOf m.store topic ≠ [] := fun hnil => hne (List.map_eq_nil_iff.mp hnil)
  have hcontents := map_toQuestion_objects (questionsOf m.store topic)
  have hdoc : ∀ question ∈ questionsOf m.store topic,
      ∃ e ∈ m.store.questionList topic, question = ofBank e.doc := fun question hq =>
    let ⟨e, he, hqe⟩ := List.mem_map.mp hq
    ⟨e, he, hqe.symm⟩
  have hobject : ∀ q ∈ objects (questionsOf m.store topic), q.toQuestion ∈ questionsOf m.store topic :=
    fun q hq => hcontents ▸ List.mem_map_of_mem hq
  constructor
  · intro hT
    have hoptions : ∀ q ∈ objects (questionsOf m.store topic), ∃ o ∈ q.options, ∃ o' ∈ q.options,
        o ≠ o' := fun q hq => by
      obtain ⟨e, he, hqe⟩ := hdoc _ (hobject q hq)
      have hqo : q.options = e.doc.options := congrArg Question.options hqe
      rw [hqo]
      exact htwo e he
    constructor
    · rw [← hcontents]
      exact List.Nodup.map_on (fun q hq q' hq' he => hT.inj hI hcount hoptions hq hq' he)
        (List.Nodup.of_map QuestionObj.ref (nodup_objects _))
    · intro e he hempty
      have hmem : ofBank e.doc ∈ (objects (questionsOf m.store topic)).map QuestionObj.toQuestion := by
        rw [hcontents]
        exact List.mem_map.mpr ⟨e, he, rfl⟩
      obtain ⟨q, hq, hqe⟩ := List.mem_map.mp hmem
      have hqo : q.options = e.doc.options := congrArg Question.options hqe
      refine hT.nonempty hI hcount hoptions hq ?_
      rw [hqo]
      exact hempty
  · rintro ⟨hnodup, hempty⟩ random random' args h' w qs steps index date t hstart hb hrun
    have hs : Starts C (questionsOf m.store topic) random settings.selectedQuestionCount
        (startTest C settings topic true (some (snapshotOf m.store topic)) offlineData random) :=
      .startTest settings topic (loadQuestions_snapshotOf hne offlineData)
    have hperm := questions_of_begins hpool hs hstart hb
    obtain ⟨hqs, hmem⟩ := questions_of_perm hpool (by omega) hperm
    have hobjects : ∀ q ∈ qs.1, q ∈ objects (questionsOf m.store topic) := fun q hq =>
      (random.perm _).mem_iff.mp (List.mem_of_mem_take (hperm.mem_iff.mp hq))
    rw [told_iff_session hqs hI hrun]
    refine ⟨⟨fun q hq q' hq' he => ?_, fun q hq he => ?_⟩, fun q hq _ => ?_⟩
    · rw [← hcontents] at hnodup
      rw [List.inj_on_of_nodup_map hnodup (hobjects q hq) (hobjects q' hq') he]
    · obtain ⟨e, hmem', hqe⟩ := hdoc _ (hmem q hq)
      rw [run_append] at hrun
      obtain ⟨u, hu, -⟩ := Option.bind_eq_some_iff.mp hrun
      have hown : Completion.OwnOptions u :=
        run_of_keeps (fun _ _ _ hJ hst => Completion.ownOptions_step hJ hst) (fun _ _ hx => by cases hx) hu
      have hqo : q.options = e.doc.options := congrArg Question.options hqe
      refine hempty e hmem' ?_
      rw [← hqo]
      refine hown q "" ?_
      rw [get?_selectedAnswers w qs app.service hu, he]
    · obtain ⟨e, hmem', hqe⟩ := hdoc _ (hmem q hq)
      have hanswer : q.answer = e.doc.answer.getD "" := congrArg Question.answer hqe
      rw [hanswer]
      refine (Bank.Manager.answered_run hstore hm e
        (Bank.Store.mem_questionList.mp hmem').1).resolve_right fun htitle => ?_
      -- a title has no options
      obtain ⟨o, ho, -⟩ := htwo e hmem'
      rw [htitle] at ho
      exact absurd ho List.not_mem_nil

end Topic

theorem tells_iff_addSums :
    ∃ m, run Bank.Manager.step (Bank.Manager.opened Bank.Store.empty) Bank.Manager.addSums = some m ∧
      (m.store.questionList "Matematik").length = 2 ∧
      (Tells compact tenQuestions "Matematik" (snapshotOf m.store "Matematik") none []
          savedOne.service ↔
        (questionsOf m.store "Matematik").Nodup ∧
          ∀ e ∈ m.store.questionList "Matematik", "" ∉ e.doc.options) := by
  obtain ⟨m, hm, hentries⟩ := exists_addSums
  have hlist := questionList_addSums hentries "Matematik"
  refine ⟨m, hm, by rw [hlist]; decide, ?_⟩
  refine tells_iff (fun _ he => absurd he List.not_mem_nil) hm (by rw [hlist]; decide) (by decide) ?_
    Service.stored_none (by decide) run_savedOne
  rw [hlist]
  decide

end KamuSinavi.Session.Reports
