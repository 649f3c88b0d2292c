import KamuSinavi.PracticeExam.Ranking

/-! # The history after another exam

`SinavGecmisiPage` (`pages/denemeSinaviPage.dart`) shows the stored answers of the user with the
questions of the exam its page has loaded, which need not be the exam they were given in: a result
stays when the next exam is published.

The dashboard publishes exams on one topic, so all exams of a run are on one (`Whole`), and the
questions a user answers are the whole exam. The stored answers are keyed by the positions in it, and
the page reads them as positions in another: `shown_iff` says with which exams it shows them right,
`throws_iff` with which it cannot show them at all, and `historyRight_iff` for which runs they are
always right with the active exam. `marks_of_steady` adds the score. -/

namespace KamuSinavi.PracticeExam.Republished

open KamuSinavi.Lib KamuSinavi.Lib.Runs KamuSinavi.Lib.Dart

/-- The question a stored answer was given to, where `questions` are those the user was asked. -/
def answeredQuestion (questions : List ExamQuestion) (key : String) : Option ExamQuestion :=
  (parseInt key).bind fun index => questions[index.toNat]?

/-- **The history shows every stored answer with the question it was given to**, and marks as many of
them as are right. -/
def Shows (examData : Exam) (d : ResultData) (questions : List ExamQuestion) : Prop :=
  ∃ entries ∈ sinavGecmisiPage examData d.answers,
    entries.map (fun e => (some e.question, e.selected)) =
      d.answers.entries.map (fun e => (answeredQuestion questions e.1, e.2)) ∧
    entries.countP HistoryEntry.marked = storedScore questions d.answers

instance (examData : Exam) (d : ResultData) (questions : List ExamQuestion) :
    Decidable (Shows examData d questions) :=
  inferInstanceAs (Decidable (∃ entries ∈ sinavGecmisiPage examData _, _ ∧ _))

/-- All questions of the exam are on the topic. -/
def OnTopic (exam : Exam) (topic : String) : Prop := ∀ q ∈ exam.questions, q.topic = some topic

/-! ### The exams of a state -/

/-- The exams a page has loaded or is loading. -/
def Has (p : Page) (e : Exam) : Prop := p.examData = some e ∨ p.loading.bind Load.data = some e

/-- The exams that are active, on a page, about to be submitted and stored with a result have `P`. -/
structure Exams (P : Exam → Prop) (s : State) : Prop where
  active : ∀ e, s.store.active = some e → P e
  pages : ∀ p ∈ s.pages, ∀ e, Has p e → P e
  data : Data (fun d => P d.exam) s

theorem active_of_fetchActiveExam {s : Store} {e : Exam} (h : fetchActiveExam s = some e) :
    s.active = some e := by
  obtain ⟨d, hd, h⟩ := Option.bind_eq_some_iff.mp h
  split at h
  · exact Option.some.inj h ▸ hd
  · split_ifs at h
    exact Option.some.inj h ▸ hd

/-- **A load gets the exam of the page or the active one.** -/
theorem has_loadExam {s : Store} {p : Page} {pc : Load} (hpc : p.loading = some pc) {e : Exam}
    (h : Has (loadExam s p pc) e) : Has p e ∨ s.active = some e := by
  have hdata : pc.data = some e → Has p e := fun he => Or.inr (by rw [hpc]; exact he)
  unfold Has at h
  cases pc with
  | fetchActiveExam => exact h.imp Or.inl active_of_fetchActiveExam
  | fetchResults data =>
    unfold loadExam at h
    split_ifs at h
    · cases hu : p.user with
      | some u =>
        rw [hu] at h
        exact Or.inl (h.elim Or.inl hdata)
      | none =>
        rw [hu] at h
        exact Or.inl (h.elim hdata fun h => by cases h)
    · exact Or.inl (h.elim Or.inl fun h => by cases h)
  | fetchOwn data =>
    unfold loadExam at h
    simp only at h
    split_ifs at h
    · exact Or.inl (h.elim hdata fun h => by cases h)
    · exact Or.inl (h.elim Or.inl fun h => by cases h)

theorem has_pageStep {s : State} {i : ℕ} {p p' : Page} {a : Action} (hstep : PageStep s i p a p')
    {e : Exam} (h : Has p' e) : Has p e ∨ s.store.active = some e := by
  cases hstep with
  | loadExam hpc => exact has_loadExam hpc h
  | loadFails => exact Or.inl (h.elim Or.inl fun h => by cases h)
  | same | rebuild | chooseTopic | tapOption | tapFinish | finished | dispose => exact Or.inl h

/-- **A step brings in no exam but the active one.** -/
theorem exams_step {P : Exam → Prop} {s t : State} {a : Action} (hE : Exams P s)
    (hactive : ∀ e, t.store.active = some e → P e) (h : step s a = some t) : Exams P t := by
  have hnew : ∀ user : Option User, ∀ e, Has (newPage user) e → P e := by
    rintro user e (h | h) <;> cases h
  refine ⟨hactive, forall_pages_step h hE.pages hnew fun _ _ _ hp hstep e he =>
    (has_pageStep hstep he).elim (hp e) (hE.active e), ?_⟩
  exact data_step hE.data (fun c _ _ _ p hp exam hexam _ =>
    hE.pages p (List.mem_of_getElem? hp) exam (Or.inl hexam)) h

/-! ### One topic -/

/-- **A published exam is on the topic of the form.** -/
theorem onTopic_publish {s t : Store} {title topic : String} {questions : List QuestionForm}
    (h : publish s title topic questions = some t) {e : Exam} (he : t.active = some e) :
    OnTopic e (trim topic) := by
  unfold publish at h
  simp only at h
  split_ifs at h
  obtain rfl := Option.some.inj h
  obtain rfl := Option.some.inj he
  intro q hq
  obtain ⟨form, -, hform⟩ := List.mem_filterMap.mp hq
  unfold QuestionForm.prepare at hform
  simp only at hform
  split_ifs at hform
  exact Option.some.inj hform ▸ rfl

theorem onTopic_step {s t : State} {a : Action} (hE : Exams (fun e => ∃ topic, OnTopic e topic) s)
    (h : step s a = some t) : Exams (fun e => ∃ topic, OnTopic e topic) t := by
  refine exams_step hE (fun e he => ?_) h
  rcases step_store h with ⟨title, topic, questions, -, hp⟩ | ⟨-, ht⟩ |
    ⟨k, full_name, uid, data, -, -, ht⟩ | ⟨-, hsame⟩
  · exact ⟨_, onTopic_publish hp he⟩
  · rw [ht] at he
    cases he
  · rw [ht] at he
    exact hE.active e he
  · exact hE.active e (hsame.active ▸ he)

theorem exams_installed (P : Exam → Prop) : Exams P installed :=
  ⟨fun _ h => (by cases h), Calls.forall_mem_of_nil rfl,
    ⟨Calls.forall_mem_of_nil rfl, fun _ _ h => (by cases h)⟩⟩

/-- If an exam on one topic has a question on a topic, all its questions are on it. -/
theorem questionsOn_eq {exam : Exam} {topic topic' : String} (h : OnTopic exam topic)
    (hne : questionsOn exam topic' ≠ []) : questionsOn exam topic' = exam.questions := by
  obtain ⟨q, hq⟩ := List.exists_mem_of_ne_nil _ hne
  obtain ⟨hmem, htopic⟩ := List.mem_filter.mp hq
  have hsame : some topic = some topic' := (h q hmem).symm.trans (of_decide_eq_true htopic)
  exact List.filter_eq_self.mpr fun q hq => decide_eq_true ((h q hq).trans hsame)

/-! ### The answers as positions -/

/-- **Complete answers are keyed by the positions of the questions.** -/
theorem exists_positions {d : ResultData} {questions : List ExamQuestion} (h : Answers d questions) :
    ∃ m : LinkedMap ℕ String, m.mapKeys toString = d.answers ∧
      ∀ i, i ∈ m.keys ↔ i < questions.length := by
  have hnames : ∀ key ∈ d.answers.keys, ∃ i : ℕ, toString i = key := fun key hkey => by
    obtain ⟨i, -, rfl⟩ := (h.keys key).mp hkey
    exact ⟨i, rfl⟩
  obtain ⟨m, hm⟩ := LinkedMap.exists_mapKeys toString_injective hnames
  refine ⟨m, hm, fun i => ?_⟩
  have hi : i ∈ m.keys ↔ toString i ∈ d.answers.keys := by
    rw [LinkedMap.mem_keys_iff, LinkedMap.mem_keys_iff, ← hm]
    simp only [LinkedMap.get?_mapKeys_of_injective toString_injective]
  rw [hi, h.keys]
  refine ⟨?_, fun hi => ⟨i, hi, rfl⟩⟩
  rintro ⟨j, hj, he⟩
  exact toString_injective he ▸ hj

theorem answeredQuestion_toString (questions : List ExamQuestion) (i : ℕ) :
    answeredQuestion questions (toString i) = questions[i]? := by
  rw [answeredQuestion, parseInt_toString, Option.bind_some, Int.toNat_natCast]

/-- What the history shows of answers at positions. -/
theorem sinavGecmisiPage_positions {d : ResultData} {m : LinkedMap ℕ String}
    (hm : m.mapKeys toString = d.answers) (examData : Exam) :
    sinavGecmisiPage examData d.answers =
      m.entries.mapM fun e => historyEntry examData (toString e.1, e.2) := by
  rw [sinavGecmisiPage, ← hm, LinkedMap.mapKeys_entries toString_injective, List.mapM_map,
    Function.comp_def]

/-- **The history can be shown exactly if the exam has as many questions.** -/
theorem exists_sinavGecmisiPage_iff {d : ResultData} {questions : List ExamQuestion}
    (h : Answers d questions) (examData : Exam) :
    (∃ entries, sinavGecmisiPage examData d.answers = some entries) ↔
      questions.length ≤ examData.questions.length := by
  obtain ⟨m, hm, hkeys⟩ := exists_positions h
  rw [sinavGecmisiPage_positions hm]
  constructor
  · rintro ⟨entries, hentries⟩
    by_contra hlt
    -- the answer after the last question of the exam has an entry
    have hmem : examData.questions.length ∈ m.keys := (hkeys _).mpr (by omega)
    obtain ⟨e, he, hpos⟩ := List.mem_map.mp hmem
    have hshown : (examData.questions[e.1]?, e.2) ∈
        entries.map fun entry => (some entry.question, entry.selected) := by
      rw [(mapM_historyEntry hentries).1]
      exact List.mem_map.mpr ⟨e, he, rfl⟩
    obtain ⟨entry, -, hentry⟩ := List.mem_map.mp hshown
    rw [hpos, List.getElem?_eq_none (Nat.le_refl _)] at hentry
    cases (Prod.mk.inj hentry).1
  · intro hle
    refine exists_mapM_historyEntry fun e he => ?_
    have hlt := ((hkeys e.1).mp (List.mem_map.mpr ⟨e, he, rfl⟩)).trans_le hle
    exact ⟨_, List.getElem?_eq_getElem hlt⟩

/-- **The history is right exactly if the exam begins with the questions that were answered.** -/
theorem shows_iff_begins {d : ResultData} {questions : List ExamQuestion} (h : Answers d questions)
    (examData : Exam) : Shows examData d questions ↔ questions <+: examData.questions := by
  obtain ⟨m, hm, hkeys⟩ := exists_positions h
  have hlt : ∀ e ∈ m.entries, e.1 < questions.length := fun e he =>
    (hkeys e.1).mp (List.mem_map.mpr ⟨e, he, rfl⟩)
  have hgiven : d.answers.entries.map (fun e => (answeredQuestion questions e.1, e.2)) =
      m.entries.map fun e => (questions[e.1]?, e.2) := by
    rw [← hm, LinkedMap.mapKeys_entries toString_injective, List.map_map]
    exact List.map_congr_left fun e _ => by
      rw [Function.comp_apply, answeredQuestion_toString]
  have hscore : storedScore questions d.answers =
      m.entries.countP fun e => questions[e.1]?.any fun q => e.2 = q.answer := by
    rw [← hm, storedScore_mapKeys, scoreOf_eq_countP hkeys]
  unfold Shows
  rw [sinavGecmisiPage_positions hm, hgiven, hscore]
  constructor
  · rintro ⟨entries, hentries, hmap, -⟩
    rw [List.prefix_iff_getElem?]
    intro i hi
    obtain ⟨e, he, rfl⟩ := List.mem_map.mp ((hkeys i).mpr hi)
    have hshown := (mapM_historyEntry hentries).1.symm.trans hmap
    have hq := (Prod.mk.inj (List.map_inj_left.mp hshown e he)).1
    rw [hq, List.getElem?_eq_getElem hi]
  · intro hbegins
    have hsame : ∀ e ∈ m.entries, examData.questions[e.1]? = questions[e.1]? := fun e he => by
      rw [List.prefix_iff_getElem?.mp hbegins e.1 (hlt e he), List.getElem?_eq_getElem (hlt e he)]
    have hexam : ∀ e ∈ m.entries, ∃ q, examData.questions[e.1]? = some q := fun e he =>
      ⟨_, (hsame e he).trans (List.getElem?_eq_getElem (hlt e he))⟩
    obtain ⟨entries, hentries⟩ := exists_mapM_historyEntry hexam
    obtain ⟨hshown, hmarks⟩ := mapM_historyEntry hentries
    refine ⟨entries, hentries, hshown.trans ?_, hmarks.trans ?_⟩
    · exact List.map_congr_left fun e he => by rw [hsame e he]
    · exact List.countP_congr fun e he => by rw [hsame e he]

/-! ### Every run -/

/-- The exams are on one topic, and what is submitted is complete. -/
structure Whole (s : State) : Prop where
  submissions : Submissions s
  exams : Exams (fun e => ∃ topic, OnTopic e topic) s

theorem whole_installed : Whole installed := ⟨submissions_installed, exams_installed _⟩

theorem whole_step {s t : State} {a : Action} (hW : Whole s) (h : step s a = some t) : Whole t :=
  ⟨submissions_step hW.submissions h, onTopic_step hW.exams h⟩

/-- **A stored result has the answers to all questions of its exam**, which are on one topic. -/
theorem Whole.answers {s : State} (hW : Whole s) {uid : String} {r : ResultDoc}
    (hr : s.store.results.get? uid = some r) :
    ∃ topic, OnTopic r.exam topic ∧ questionsOn r.exam topic = r.exam.questions ∧
      Answers r.toResultData r.exam.questions := by
  obtain ⟨topic, hon⟩ := hW.exams.data.results uid r hr
  obtain ⟨topic', hne, hanswers⟩ := hW.submissions.results uid r hr
  rw [questionsOn_eq hon hne] at hanswers
  exact ⟨topic, hon, List.filter_eq_self.mpr fun q hq => decide_eq_true (hon q hq), hanswers⟩

variable {as : List Action} {t : State} {uid : String} {r : ResultDoc}

/-- **In every run, the history shows a result right with the exams that begin with the questions of
its own**, and with no others. -/
theorem shown_iff (h : run step installed as = some t) (hr : t.store.results.get? uid = some r)
    (examData : Exam) : ∃ topic, OnTopic r.exam topic ∧
      (Shows examData r.toResultData (questionsOn r.exam topic) ↔
        r.exam.questions <+: examData.questions) := by
  have hW : Whole t := run_of_keeps (fun _ _ _ hW h => whole_step hW h) whole_installed h
  obtain ⟨topic, hon, hall, hanswers⟩ := hW.answers hr
  exact ⟨topic, hon, by rw [hall, shows_iff_begins hanswers]⟩

/-- The user has a result after the second exam is published. -/
theorem exists_result_secondExam :
    ∃ t r, run step installed secondExam = some t ∧ t.store.results.get? "ayse" = some r := by
  have hsome : ((run step installed secondExam).bind fun t =>
      t.store.results.get? "ayse").isSome = true := by decide
  obtain ⟨r, hr⟩ := Option.isSome_iff_exists.mp hsome
  obtain ⟨t, ht, hr⟩ := Option.bind_eq_some_iff.mp hr
  exact ⟨t, r, ht, hr⟩

theorem shown_iff_secondExam :
    ∃ t r, run step installed secondExam = some t ∧ t.store.results.get? "ayse" = some r ∧
      ∀ examData, ∃ topic, OnTopic r.exam topic ∧
        (Shows examData r.toResultData (questionsOn r.exam topic) ↔
          r.exam.questions <+: examData.questions) := by
  obtain ⟨t, r, ht, hr⟩ := exists_result_secondExam
  exact ⟨t, r, ht, hr, shown_iff ht hr⟩

/-- The answer to the sum is shown with the question on the capital. -/
example : (do
    let t ← run step installed secondExam
    let examData ← t.store.active
    let r ← t.store.results.get? "ayse"
    sinavGecmisiPage examData r.answers) =
      (capitalForm.prepare "Coğrafya").map fun q =>
        [{ question := q, selected := "4", marked := false }] := by decide

/-- **In every run, the history of a result throws with the exams that have fewer questions than its
own**, and with no others. -/
theorem throws_iff (h : run step installed as = some t) (hr : t.store.results.get? uid = some r)
    (examData : Exam) : sinavGecmisiPage examData r.answers = none ↔
      examData.questions.length < r.exam.questions.length := by
  have hW : Whole t := run_of_keeps (fun _ _ _ hW h => whole_step hW h) whole_installed h
  obtain ⟨-, -, -, hanswers⟩ := hW.answers hr
  rw [← not_iff_not, not_lt]
  exact Option.ne_none_iff_exists'.trans (exists_sinavGecmisiPage_iff hanswers examData)

theorem throws_iff_secondExam :
    ∃ t r, run step installed secondExam = some t ∧ t.store.results.get? "ayse" = some r ∧
      ∀ examData, sinavGecmisiPage examData r.answers = none ↔
        examData.questions.length < r.exam.questions.length := by
  obtain ⟨t, r, ht, hr⟩ := exists_result_secondExam
  exact ⟨t, r, ht, hr, throws_iff ht hr⟩

/-! ### The active exam -/

/-- **The history of every user is right with the active exam**: each answer of a result is shown with
the question of its own exam, all of which are on the topic that was chosen. -/
def HistoryRight (s : State) : Prop :=
  ∀ exam, s.store.active = some exam → ∀ uid r, s.store.results.get? uid = some r →
    Shows exam r.toResultData r.exam.questions

/-- An exam is published only if it begins with the questions of each exam that has results, and while
an exam is active a result is written only if the exam begins with the questions that were answered. -/
def Extends (s : State) : Action → Prop
  | .publish title topic questions => ∀ store, publish s.store title topic questions = some store →
      ∀ exam, store.active = some exam → ∀ uid r, s.store.results.get? uid = some r →
        r.exam.questions <+: exam.questions
  | .finishTest k _ => ∀ uid data, Writes s k uid data → ∀ exam, s.store.active = some exam →
      data.exam.questions <+: exam.questions
  | _ => True

theorem Extends.of_quiet {s : State} {a : Action} (h : Quiet s a) : Extends s a := by
  cases a with
  | publish | remove => exact h.elim
  | finishTest k full_name => exact fun uid data hw => absurd hw (h uid data)
  | _ => trivial

/-- The history is right if the active exam begins with the questions of every result. -/
theorem Whole.historyRight_iff_begins {s : State} (hW : Whole s) :
    HistoryRight s ↔ ∀ exam, s.store.active = some exam → ∀ uid r,
      s.store.results.get? uid = some r → r.exam.questions <+: exam.questions := by
  refine forall₂_congr fun exam _ => forall₃_congr fun uid r hr => ?_
  obtain ⟨-, -, -, hanswers⟩ := hW.answers hr
  exact shows_iff_begins hanswers exam

/-- **A step keeps the history right exactly if it extends the exams.** -/
theorem historyRight_step {s t : State} {a : Action} (hW : Whole s) (hR : HistoryRight s)
    (h : step s a = some t) : HistoryRight t ↔ Extends s a := by
  rw [(whole_step hW h).historyRight_iff_begins]
  have hR := hW.historyRight_iff_begins.mp hR
  rcases step_store h with ⟨title, topic, questions, rfl, hp⟩ | ⟨rfl, ht⟩ |
    ⟨k, full_name, uid, data, rfl, hw, ht⟩ | ⟨hq, hsame⟩
  · rw [publish_results hp]
    constructor
    · intro hright store hstore exam hexam
      obtain rfl := Option.some.inj (hp.symm.trans hstore)
      exact hright exam hexam
    · exact fun hext exam hexam => hext _ hp exam hexam
  · refine ⟨fun _ => trivial, fun _ exam hexam => ?_⟩
    rw [ht] at hexam
    cases hexam
  · rw [ht, setResult]
    constructor
    · intro hright uid' data' hw' exam hexam
      obtain ⟨c, hc, hpc⟩ := hw
      obtain ⟨c', hc', hpc'⟩ := hw'
      obtain rfl := Option.some.inj (hc.symm.trans hc')
      obtain ⟨rfl, rfl⟩ := Finish.write.inj (hpc.symm.trans hpc')
      exact hright exam hexam uid _ (LinkedMap.get?_set_self _ _ _)
    · intro hext exam hexam uid' r hr
      rw [LinkedMap.get?_set] at hr
      split_ifs at hr
      · obtain rfl := Option.some.inj hr
        exact hext uid data hw exam hexam
      · exact hR exam hexam uid' r hr
  · rw [hsame.active, hsame.results]
    exact ⟨fun _ => Extends.of_quiet hq, fun _ => hR⟩

/-- **The history of every user is right with the active exam at every moment of a run exactly if no
exam is published, and no result written, such that an exam does not begin with the questions that were
answered.** -/
theorem historyRight_iff (as : List Action) :
    Always step HistoryRight installed as ↔ Along step Extends installed as :=
  always_iff_along (fun _ _ _ hW _ h _ => whole_step hW h)
    (fun _ _ _ hW hR h => historyRight_step hW hR h) whole_installed (fun _ he => (by cases he))

/-- If exams are isolated, the history is right. -/
theorem Whole.historyRight {s : State} (hW : Whole s) (hI : Isolated s) : HistoryRight s := by
  refine hW.historyRight_iff_begins.mpr fun exam hexam uid r hr => ?_
  have hsame := (hI exam hexam).2 r (mem_fetchResults.mpr ⟨uid, hr⟩)
  exact hsame ▸ List.prefix_rfl

/-! ### Scores and marks -/

/-- What is about to be written and what is stored have the score of their answers. -/
structure Marked (s : State) : Prop where
  whole : Whole s
  agree : ScoresAgree s
  data : Data (fun d => d.score = storedScore d.exam.questions d.answers) s

/-- The questions of a page with a topic are its exam. -/
theorem Whole.getSelectedQuestions {s : State} (hW : Whole s) {p : Page} (hp : p ∈ s.pages)
    {exam : Exam} (hexam : p.examData = some exam) (hc : Chosen p) :
    getSelectedQuestions p = exam.questions := by
  obtain ⟨topic, htopic⟩ := Option.ne_none_iff_exists'.mp hc.topic
  obtain ⟨topic', hon⟩ := hW.exams.pages p hp exam (Or.inl hexam)
  have hne := (hW.submissions.fitting p hp).topic hc.topic
  rw [getSelectedQuestions_eq hexam htopic] at hne ⊢
  exact questionsOn_eq hon hne

/-- **A steady step keeps the scores those of the answers.** -/
theorem marked_step {s t : State} {a : Action} (hM : Marked s) (ha : Steady s a)
    (h : step s a = some t) : Marked t := by
  refine ⟨whole_step hM.whole h, scoresAgree_step hM.agree ha h, ?_⟩
  refine data_step hM.data (fun c hc user hname p hp exam hexam full_name => ?_) h
  obtain ⟨q, hq, hchosen, hscored⟩ := hM.agree.awaiting c hc user hname
  obtain rfl := Option.some.inj (hp.symm.trans hq)
  have hall := hM.whole.getSelectedQuestions (List.mem_of_getElem? hp) hexam hchosen
  calc p.score = scoreOf exam.questions p.selectedAnswers := by rw [← hall]; exact hscored
    _ = storedScore exam.questions (p.selectedAnswers.mapKeys toString) :=
      (storedScore_mapKeys _ _).symm

theorem marked_installed : Marked installed :=
  ⟨whole_installed,
    ⟨Calls.forall_mem_of_nil rfl, Calls.forall_mem_of_nil rfl, Calls.forall_mem_of_nil rfl⟩,
    ⟨Calls.forall_mem_of_nil rfl, fun _ _ h => (by cases h)⟩⟩

/-- **In every steady run, a history that is right marks as many answers as the ranking says.** -/
theorem marks_of_steady (hsteady : Along step Steady installed as) (h : run step installed as = some t)
    (hr : t.store.results.get? uid = some r) {examData : Exam}
    (hbegins : r.exam.questions <+: examData.questions) :
    ∃ entries ∈ sinavGecmisiPage examData r.answers, entries.countP HistoryEntry.marked = r.score := by
  have hM : Marked t :=
    run_inv (fun _ _ _ hM ha h => marked_step hM ha h) marked_installed hsteady h
  obtain ⟨-, -, -, hanswers⟩ := hM.whole.answers hr
  obtain ⟨entries, hentries, -, hmarks⟩ := (shows_iff_begins hanswers examData).mpr hbegins
  exact ⟨entries, hentries, hmarks.trans (hM.data.results uid r hr).symm⟩

theorem marks_of_steady_secondExam :
    ∃ t r, run step installed secondExam = some t ∧ t.store.results.get? "ayse" = some r ∧
      ∃ entries ∈ sinavGecmisiPage r.exam r.answers,
        entries.countP HistoryEntry.marked = r.score := by
  obtain ⟨t, r, ht, hr⟩ := exists_result_secondExam
  exact ⟨t, r, ht, hr, marks_of_steady (by decide) ht hr List.prefix_rfl⟩

end KamuSinavi.PracticeExam.Republished
