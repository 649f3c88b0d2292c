import KamuSinavi.PracticeExam.Answers

/-! # The history page

`finishTest` stores the answers keyed by the position of their question among those of the chosen
topic; `SinavGecmisiPage` (`pages/denemeSinaviPage.dart`) shows them with the questions at these
positions in the whole exam. `Faithful` says of a page that its answers are shown with the questions
they were given to, and marked as its score says.

`faithful_page_iff` says when a page with complete answers is faithful. Pages from which `finishTest`
takes the answers have complete ones (`Submits`), so `faithful_iff` can say for which runs all results
are shown faithfully. -/

namespace KamuSinavi.PracticeExam

open KamuSinavi.Lib KamuSinavi.Lib.Runs KamuSinavi.Lib.Dart

/-- An entry of the history page. -/
structure HistoryEntry where
  question : ExamQuestion
  selected : String
  marked : Bool
  deriving DecidableEq

/-- The entry of a stored answer; it throws if there is no such question. -/
def historyEntry (examData : Exam) (entry : String × String) : Option HistoryEntry :=
  (parseInt entry.1).bind fun index =>
    if 0 ≤ index then
      examData.questions[index.toNat]?.map fun question =>
        { question := question, selected := entry.2, marked := entry.2 = question.answer }
    else none

/-- The entries `SinavGecmisiPage` shows. -/
def sinavGecmisiPage (examData : Exam) (answers : LinkedMap String String) :
    Option (List HistoryEntry) :=
  answers.entries.mapM (historyEntry examData)

/-- **The history shows every answer of the result with the question that was answered**, and marks as
many of them as correct as the score says. -/
def Faithful (p : Page) (exam : Exam) (user : User) (full_name : Option String) : Prop :=
  ∃ entries ∈ sinavGecmisiPage exam (resultData p exam user full_name).answers,
    entries.map (fun e => (some e.question, e.selected)) =
      p.selectedAnswers.entries.map (fun e => ((getSelectedQuestions p)[e.1]?, e.2)) ∧
    entries.countP HistoryEntry.marked = (resultData p exam user full_name).score

/-- The user whose name the call is reading. -/
def Finish.reads : Finish → Option User
  | .getUserFullName user => some user
  | _ => none

/-- **What `finishTest` is going to write is shown faithfully.** -/
def Shown (s : State) (a : Action) (_ : State) : Prop :=
  match a with
  | .finishTest k full_name => ∀ c ∈ s.calls[k]?, ∀ user ∈ c.pc.reads, ∀ p ∈ s.pages[c.page]?,
      ∀ exam ∈ p.examData, Faithful p exam user full_name
  | _ => True

/-- When `finishTest` takes the answers of a page, the questions of its topic are the first ones of its
exam, and its score is that of the answers. -/
def Aligned (s : State) : Action → Prop
  | .finishTest k _ => ∀ c ∈ s.calls[k]?, ∀ user ∈ c.pc.reads, ∀ p ∈ s.pages[c.page]?,
      ∀ exam ∈ p.examData,
        (∀ q ∈ exam.questions.take (getSelectedQuestions p).length, q.topic = p.selectedTopic) ∧
          Scored p
  | _ => True

instance (p : Page) (exam : Exam) (user : User) (full_name : Option String) :
    Decidable (Faithful p exam user full_name) :=
  inferInstanceAs (Decidable (∃ entries ∈ sinavGecmisiPage exam _, _ ∧ _))

instance (s : State) (a : Action) (t : State) : Decidable (Shown s a t) :=
  match a with
  | .finishTest k full_name => inferInstanceAs (Decidable (∀ c ∈ s.calls[k]?, ∀ user ∈ c.pc.reads,
      ∀ p ∈ s.pages[c.page]?, ∀ exam ∈ p.examData, Faithful p exam user full_name))
  | .publish .. | .remove | .openPage _ | .loadExam _ | .loadFails _ | .rebuild _ | .chooseTopic ..
  | .tapOption .. | .tapFinish _ | .finishFails _ | .wait _ | .dispose _ => isTrue trivial

/-! ### One page -/

/-- The page has answers to the questions of its topic and to no others. -/
def Answered (p : Page) : Prop :=
  ∀ i, i ∈ p.selectedAnswers.keys ↔ i < (getSelectedQuestions p).length

/-- The page has an exam, a topic and the answers to its questions. -/
structure Complete (p : Page) (exam : Exam) (topic : String) : Prop where
  exam : p.examData = some exam
  topic : p.selectedTopic = some topic
  answered : Answered p

theorem historyEntry_toString (exam : Exam) (i : ℕ) (selected : String) :
    historyEntry exam (toString i, selected) = exam.questions[i]?.map fun question =>
      { question := question, selected := selected, marked := selected = question.answer } := by
  rw [historyEntry, parseInt_toString, Option.bind_some, if_pos (Int.natCast_nonneg i),
    Int.toNat_natCast]

theorem getSelectedQuestions_eq {p : Page} {exam : Exam} {topic : String}
    (hexam : p.examData = some exam) (htopic : p.selectedTopic = some topic) :
    getSelectedQuestions p = exam.questions.filter fun q => q.topic = some topic := by
  simp only [getSelectedQuestions, hexam, htopic]

/-- A filtered list stands at the front of the whole one exactly if it starts with as many items that
are not left out. -/
theorem prefix_filter_iff {α : Type*} {l : List α} {f : α → Bool} :
    l.filter f <+: l ↔ ∀ a ∈ l.take (l.filter f).length, f a = true := by
  constructor
  · intro h a ha
    rw [← List.prefix_iff_eq_take.mp h] at ha
    exact (List.mem_filter.mp ha).2
  · intro h
    have hle : (l.filter f).length ≤ l.length := List.length_filter_le _ _
    have htake : (l.take (l.filter f).length).filter f = l.take (l.filter f).length :=
      List.filter_eq_self.mpr h
    have hsplit : l.filter f = l.take (l.filter f).length ++ (l.drop (l.filter f).length).filter f := by
      conv_lhs => rw [← List.take_append_drop (l.filter f).length l, List.filter_append, htake]
    have hlen := congrArg List.length hsplit
    rw [List.length_append, List.length_take_of_le hle] at hlen
    have hnil : (l.drop (l.filter f).length).filter f = [] := List.length_eq_zero_iff.mp (by omega)
    rw [hnil, List.append_nil] at hsplit
    rw [hsplit]
    exact List.take_prefix _ _

/-- The score is the number of answers that are right, if each question has one. -/
theorem scoreOf_eq_countP {questions : List ExamQuestion} {answers : LinkedMap ℕ String}
    (h : ∀ i, i ∈ answers.keys ↔ i < questions.length) :
    scoreOf questions answers =
      answers.entries.countP fun e => questions[e.1]?.any fun q => e.2 = q.answer := by
  -- both count the positions whose answer is right, one in the order of the questions
  let right : ℕ → Bool := fun i => questions[i]?.any fun q => answers.get? i = some q.answer
  have hperm : answers.keys.Perm (List.range' 0 questions.length) :=
    (List.perm_ext_iff_of_nodup answers.nodup List.nodup_range').mpr fun i =>
      (h i).trans (by rw [List.mem_range'_1]; omega)
  calc scoreOf questions answers = (questions.zipIdx.map Prod.snd).countP right := by
        rw [scoreOf, List.countP_map]
        refine List.countP_congr fun e he => ?_
        have hq := List.mk_mem_zipIdx_iff_getElem?.mp he
        simp [right, hq]
    _ = answers.keys.countP right := by
        rw [List.zipIdx_map_snd]
        exact (hperm.countP_eq right).symm
    _ = answers.entries.countP fun e => questions[e.1]?.any fun q => e.2 = q.answer := by
        rw [LinkedMap.keys, List.countP_map]
        refine List.countP_congr fun e he => ?_
        have hv : answers.get? e.1 = some e.2 := LinkedMap.get?_eq_some_iff.mpr he
        simp [right, hv]

/-- What the entries of answers show. -/
theorem mapM_historyEntry {exam : Exam} {es : List (ℕ × String)} {entries : List HistoryEntry}
    (h : es.mapM (fun e => historyEntry exam (toString e.1, e.2)) = some entries) :
    entries.map (fun e => (some e.question, e.selected)) =
        es.map (fun e => (exam.questions[e.1]?, e.2)) ∧
      entries.countP HistoryEntry.marked =
        es.countP fun e => exam.questions[e.1]?.any fun q => e.2 = q.answer := by
  induction es generalizing entries with
  | nil =>
    obtain rfl := Option.some.inj h
    exact ⟨rfl, rfl⟩
  | cons e es ih =>
    rw [List.mapM_cons] at h
    obtain ⟨entry, hentry, h⟩ := Option.bind_eq_some_iff.mp h
    obtain ⟨rest, hrest, h⟩ := Option.bind_eq_some_iff.mp h
    obtain rfl := Option.some.inj h
    obtain ⟨hmap, hcount⟩ := ih hrest
    rw [historyEntry_toString] at hentry
    obtain ⟨q, hq, rfl⟩ := Option.map_eq_some_iff.mp hentry
    refine ⟨?_, ?_⟩
    · rw [List.map_cons, List.map_cons, hmap, hq]
    · rw [List.countP_cons, List.countP_cons, hcount, hq, Option.any_some]

/-- Every answer has an entry if it has a question. -/
theorem exists_mapM_historyEntry {exam : Exam} {es : List (ℕ × String)}
    (h : ∀ e ∈ es, ∃ q, exam.questions[e.1]? = some q) :
    ∃ entries, es.mapM (fun e => historyEntry exam (toString e.1, e.2)) = some entries := by
  induction es with
  | nil => exact ⟨[], rfl⟩
  | cons e es ih =>
    obtain ⟨q, hq⟩ := h e (List.mem_cons_self ..)
    obtain ⟨entries, hentries⟩ := ih fun e he => h e (List.mem_cons_of_mem _ he)
    exact ⟨_, by rw [List.mapM_cons, historyEntry_toString, hq, hentries]; rfl⟩

/-- **The history is faithful exactly if the questions of the chosen topic are the first ones of the
exam**, and the score is that of the answers. -/
theorem faithful_page_iff {p : Page} {exam : Exam} {topic : String} (hp : Complete p exam topic)
    (user : User) (full_name : Option String) :
    Faithful p exam user full_name ↔
      (∀ q ∈ exam.questions.take (getSelectedQuestions p).length, q.topic = p.selectedTopic) ∧
        Scored p := by
  have hsel := getSelectedQuestions_eq hp.exam hp.topic
  have hpage : sinavGecmisiPage exam (resultData p exam user full_name).answers =
      p.selectedAnswers.entries.mapM fun e => historyEntry exam (toString e.1, e.2) := by
    rw [sinavGecmisiPage, resultData, LinkedMap.mapKeys_entries toString_injective, List.mapM_map,
      Function.comp_def]
  have hfirst : (∀ q ∈ exam.questions.take (getSelectedQuestions p).length,
      q.topic = p.selectedTopic) ↔ getSelectedQuestions p <+: exam.questions := by
    rw [hsel, prefix_filter_iff, hp.topic]
    exact forall₂_congr fun q _ => by rw [decide_eq_true_eq]
  have hkeys : ∀ e ∈ p.selectedAnswers.entries, e.1 < (getSelectedQuestions p).length := fun e he =>
    (hp.answered e.1).mp (List.mem_map.mpr ⟨e, he, rfl⟩)
  -- at the front the questions are the same, so the marks give the score of the answers
  have hsame : getSelectedQuestions p <+: exam.questions → ∀ e ∈ p.selectedAnswers.entries,
      exam.questions[e.1]? = (getSelectedQuestions p)[e.1]? := fun h e he => by
    rw [List.prefix_iff_getElem?.mp h e.1 (hkeys e he), List.getElem?_eq_getElem (hkeys e he)]
  have hmarked : getSelectedQuestions p <+: exam.questions →
      (p.selectedAnswers.entries.countP fun e => exam.questions[e.1]?.any fun q => e.2 = q.answer) =
        scoreOf (getSelectedQuestions p) p.selectedAnswers := fun h => by
    rw [scoreOf_eq_countP hp.answered]
    exact List.countP_congr fun e he => by rw [hsame h e he]
  rw [hfirst]
  constructor
  · rintro ⟨entries, hentries, hmap, hcount⟩
    obtain ⟨hshown, hmarks⟩ := mapM_historyEntry (hpage.symm.trans hentries)
    have hfront : getSelectedQuestions p <+: exam.questions := by
      rw [List.prefix_iff_getElem?]
      intro i hi
      obtain ⟨e, he, rfl⟩ := List.mem_map.mp ((hp.answered i).mpr hi)
      have hq := (Prod.mk.inj (List.map_inj_left.mp (hshown.symm.trans hmap) e he)).1
      rw [hq, List.getElem?_eq_getElem hi]
    exact ⟨hfront, hcount.symm.trans (hmarks.trans (hmarked hfront))⟩
  · rintro ⟨hfront, hscored⟩
    have hexam : ∀ e ∈ p.selectedAnswers.entries, ∃ q, exam.questions[e.1]? = some q := fun e he =>
      ⟨_, List.prefix_iff_getElem?.mp hfront e.1 (hkeys e he)⟩
    obtain ⟨entries, hentries⟩ := exists_mapM_historyEntry hexam
    obtain ⟨hshown, hmarks⟩ := mapM_historyEntry hentries
    refine ⟨entries, hpage.trans hentries, ?_, (hmarks.trans (hmarked hfront)).trans hscored.symm⟩
    rw [hshown]
    exact List.map_congr_left fun e he => by rw [hsame hfront e he]

/-! ### The answers of a page along a run -/

/-- The answers of a page are to the questions of its topic, which is chosen when it is loaded. -/
structure Answering (p : Page) : Prop where
  settled : Settled p
  chosen : p.selectedTopic ≠ none → Chosen p
  inRange : ∀ i ∈ p.selectedAnswers.keys, i < (getSelectedQuestions p).length

theorem answering_newPage (user : Option User) : Answering (newPage user) :=
  ⟨fun h => Bool.noConfusion h, fun h => absurd rfl h, fun _ h => absurd h List.not_mem_nil⟩

/-- A load leaves the topic and the answers alone. -/
theorem loadExam_answers (s : Store) (p : Page) (pc : Load) :
    (loadExam s p pc).selectedTopic = p.selectedTopic ∧
      (loadExam s p pc).selectedAnswers = p.selectedAnswers := by
  cases pc with
  | fetchActiveExam => exact ⟨rfl, rfl⟩
  | fetchResults data =>
    unfold loadExam
    split_ifs
    · cases p.user <;> exact ⟨rfl, rfl⟩
    · exact ⟨rfl, rfl⟩
  | fetchOwn data =>
    unfold loadExam
    simp only
    split_ifs <;> exact ⟨rfl, rfl⟩

theorem Answering.step {s : State} {i : ℕ} {p p' : Page} {a : Action} (h : Answering p)
    (hstep : PageStep s i p a p') : Answering p' := by
  have hsettled := h.settled.step hstep
  cases hstep with
  | same => exact h
  | loadExam hpc =>
    rename_i pc
    obtain ⟨htopic, hanswers⟩ := loadExam_answers s.store p pc
    have hnone : p.selectedTopic = none := by
      by_contra hne
      rw [(h.chosen hne).loading] at hpc
      cases hpc
    have hno : getSelectedQuestions p = [] := by simp only [getSelectedQuestions, hnone]
    refine ⟨hsettled, fun hne => absurd (htopic.trans hnone) hne, fun j hj => ?_⟩
    rw [hanswers] at hj
    have hlt := h.inRange j hj
    rw [hno] at hlt
    exact absurd hlt (Nat.not_lt_zero j)
  | loadFails => exact ⟨hsettled, fun hne => ⟨(h.chosen hne).isLoading, rfl, hne⟩, h.inRange⟩
  | chooseTopic hshow =>
    have hload : p.isLoading = false := by
      simp only [showsExam, Bool.and_eq_true, Bool.not_eq_true'] at hshow
      exact hshow.1.1.2
    exact ⟨hsettled, fun _ => ⟨hload, h.settled hload, Option.some_ne_none _⟩,
      fun _ hj => absurd hj List.not_mem_nil⟩
  | tapOption hq =>
    refine ⟨hsettled, fun hne => ⟨(h.chosen hne).isLoading, (h.chosen hne).loading, hne⟩,
      fun j hj => ?_⟩
    rcases LinkedMap.mem_keys_set.mp hj with rfl | hj
    · exact (List.getElem?_eq_some_iff.mp hq).1
    · exact h.inRange j hj
  | rebuild | tapFinish | finished | dispose =>
    exact ⟨hsettled, fun hne => ⟨(h.chosen hne).isLoading, (h.chosen hne).loading, hne⟩, h.inRange⟩

/-- **`Testi Bitir` can only be pressed when every question has an answer.** -/
theorem answered_of_finishEnabled {p : Page} (h : Answering p) (hen : finishEnabled p = true) :
    Answered p := by
  have hlen : p.selectedAnswers.length = (List.range (getSelectedQuestions p).length).length := by
    simp only [finishEnabled, Bool.and_eq_true, beq_iff_eq] at hen
    rw [List.length_range]
    exact hen.1.2
  have hsub : ∀ i ∈ p.selectedAnswers.keys, i ∈ List.range (getSelectedQuestions p).length :=
    fun i hi => List.mem_range.mpr (h.inRange i hi)
  have hall := (LinkedMap.length_eq_iff List.nodup_range hsub).mp hlen
  exact fun i => ⟨h.inRange i, fun hi => hall i (List.mem_range.mpr hi)⟩

/-- Answers are replaced, and none is taken back. -/
theorem Answered.step {s : State} {i : ℕ} {p p' : Page} {a : Action} (hc : Chosen p)
    (h : Answered p) (hstep : PageStep s i p a p') : Answered p' := by
  cases hstep with
  | tapOption hq =>
    refine fun j => LinkedMap.mem_keys_set.trans ⟨fun hj => ?_, fun hj => Or.inr ((h j).mpr hj)⟩
    rcases hj with rfl | hj
    · exact (List.getElem?_eq_some_iff.mp hq).1
    · exact (h j).mp hj
  | loadExam hpc =>
    rw [hc.loading] at hpc
    cases hpc
  | chooseTopic _ hno => exact absurd hno hc.topic
  | same | loadFails | rebuild | tapFinish | finished | dispose => exact h

/-- The page of a call that reads the name has the answers to its questions. -/
structure Submits (s : State) : Prop where
  pages : ∀ p ∈ s.pages, Answering p
  reading : ∀ c ∈ s.calls, ∀ user ∈ c.pc.reads,
    ∃ p, s.pages[c.page]? = some p ∧ Chosen p ∧ Answered p

theorem submits_step {s t : State} {a : Action} (hI : Submits s) (h : step s a = some t) :
    Submits t := by
  have hpages := pages_step h
  refine ⟨forall_pages_step h hI.pages answering_newPage fun _ _ _ hp hstep => hp.step hstep,
    fun c hc user hreads => ?_⟩
  cases call_step h hc with
  | old hc =>
    obtain ⟨p, hp, hchosen, hanswered⟩ := hI.reading c hc user hreads
    obtain ⟨p', hp', hstep⟩ := hpages.old _ p hp
    exact ⟨p', hp', (hchosen.step hstep).1, hanswered.step hchosen hstep⟩
  | tapFinish hp hen =>
    rename_i i p
    have hpage := hI.pages p (List.mem_of_getElem? hp)
    have hchosen := chosen_of_finishEnabled hpage.settled hen
    obtain ⟨p', hp', hstep⟩ := hpages.old _ p hp
    exact ⟨p', hp', (hchosen.step hstep).1,
      (answered_of_finishEnabled hpage hen).step hchosen hstep⟩
  | write | fetchResults => cases hreads

/-- A step writes what is shown faithfully exactly if it is aligned. -/
theorem shown_step {s : State} (hI : Submits s) (a : Action) (t : State) :
    Shown s a t ↔ Aligned s a := by
  cases a with
  | finishTest k full_name =>
    refine forall₂_congr fun c hc => forall₂_congr fun user huser => forall₂_congr fun p hp =>
      forall₂_congr fun exam hexam => ?_
    obtain ⟨q, hq, hchosen, hanswered⟩ := hI.reading c (List.mem_of_getElem? hc) user huser
    obtain rfl := Option.some.inj (hp.symm.trans hq)
    obtain ⟨topic, htopic⟩ := Option.ne_none_iff_exists'.mp hchosen.topic
    exact faithful_page_iff ⟨hexam, htopic, hanswered⟩ user full_name
  | _ => exact Iff.rfl

/-- **The history shows every result faithfully, in every run, exactly if `finishTest` always takes
answers whose questions are the first ones of the exam**, and whose score it has. -/
theorem faithful_iff {s : State} (hcalls : s.calls = []) (hpages : s.pages = []) (as : List Action) :
    EachStep step Shown s as ↔ Along step Aligned s as := by
  have hstart : Submits s := ⟨Calls.forall_mem_of_nil hpages, Calls.forall_mem_of_nil hcalls⟩
  exact eachStep_iff_along (J := Submits) (fun _ _ _ hI h _ => submits_step hI h)
    (fun _ a t hI _ => shown_step hI a t) hstart

/-- When `finishTest` takes the answers of a page, the questions of its topic are the first ones of its
exam. -/
def InFront (s : State) : Action → Prop
  | .finishTest k _ => ∀ c ∈ s.calls[k]?, ∀ user ∈ c.pc.reads, ∀ p ∈ s.pages[c.page]?,
      ∀ exam ∈ p.examData,
        ∀ q ∈ exam.questions.take (getSelectedQuestions p).length, q.topic = p.selectedTopic
  | _ => True

theorem aligned_iff {s : State} (hI : ScoresAgree s) (a : Action) : Aligned s a ↔ InFront s a := by
  cases a with
  | finishTest k full_name =>
    refine forall₂_congr fun c hc => forall₂_congr fun user huser => forall₂_congr fun p hp =>
      forall₂_congr fun exam hexam => and_iff_left ?_
    have hname : c.pc = .getUserFullName user := by
      cases hpc : c.pc with
      | getUserFullName user' =>
        rw [hpc] at huser
        obtain rfl := Option.some.inj huser
        rfl
      | write | fetchResults =>
        rw [hpc] at huser
        cases huser
    obtain ⟨q, hq, -, hscored⟩ := hI.awaiting c (List.mem_of_getElem? hc) user hname
    obtain rfl := Option.some.inj (hp.symm.trans hq)
    exact hscored
  | _ => exact Iff.rfl

/-- **In steady runs the order of the questions decides alone**: the score of a page is then that of its
answers. -/
theorem faithful_iff_inFront {s : State} (hcalls : s.calls = []) (hpages : s.pages = [])
    {as : List Action} (h : Along step Steady s as) :
    EachStep step Shown s as ↔ Along step InFront s as := by
  have hstart : Submits s ∧ ScoresAgree s :=
    ⟨⟨Calls.forall_mem_of_nil hpages, Calls.forall_mem_of_nil hcalls⟩,
      Calls.forall_mem_of_nil hpages, Calls.forall_mem_of_nil hcalls, Calls.forall_mem_of_nil hcalls⟩
  refine eachStep_congr (eachStep_of_along (J := fun s => Submits s ∧ ScoresAgree s)
    (fun s a t hI ha hs => ⟨⟨submits_step hI.1 hs, scoresAgree_step hI.2 ha hs⟩, ?_⟩) hstart h)
  exact (shown_step hI.1 a t).trans (aligned_iff hI.2 a)

/-! ### An exam on two topics -/

def mixedExam : Exam where
  title := "Karma"
  questions :=
    [{ question := "KKTC'nin başkenti?", options := ["Lefkoşa", "Girne", "Güzelyurt", "İskele"],
       answer := "Lefkoşa", topic := some "Coğrafya" },
      { question := "2 + 2 = ?", options := ["4", "5", "6", "7"], answer := "4",
        topic := some "Matematik" }]
  created_at := 0
  end_time := some 86400
  serial := 0

/-- The exam is active, and no page is open. -/
def mixed : State where
  store :=
    { active := some mixedExam, results := LinkedMap.empty, now := 0, published := 1, finished := [] }
  pages := []
  calls := []

/-- A user answers the question on the given topic. -/
def answersTopic (topic option : String) : List Action :=
  [.openPage (some ayse), .loadExam 0, .loadExam 0, .loadExam 0, .chooseTopic 0 topic,
    .tapOption 0 0 option, .tapFinish 0, .finishTest 0 (some "Ayşe"), .finishTest 0 none]

theorem faithful_iff_mixed :
    EachStep step Shown mixed (answersTopic "Coğrafya" "Lefkoşa") ↔
      Along step Aligned mixed (answersTopic "Coğrafya" "Lefkoşa") :=
  faithful_iff rfl rfl _

/-- **The answer to the second question is shown with the first one.** -/
theorem mixedExam_not_faithful : ¬ EachStep step Shown mixed (answersTopic "Matematik" "4") := by
  decide

end KamuSinavi.PracticeExam
