import KamuSinavi.History.Retention

/-! # The report of a stored test

`PerformanceReportScreen` (`pages/performance_report_screen.dart`) looks up the option selected for a
question under the JSON text of the question, which two questions with one content share, shows an
empty option as no answer, and counts a question as correct if the option is its answer, none being
the empty one.

`reported_iff` says for which tests this is what was selected and gives the stored score, after the
test has been saved, the app started again and the history loaded. -/

namespace KamuSinavi.History.Report

open KamuSinavi.Lib KamuSinavi.Lib.Runs KamuSinavi.Lib.Dart KamuSinavi.Models Service Retention

/-- What the report shows of one question. -/
structure QuestionResult where
  question : String
  selected : String
  correct : String
  isCorrect : Bool
  deriving DecidableEq

variable (C : Convert)

def questionResult (result : TestResult) (question : Question) : QuestionResult :=
  let questionKey := question.key C
  let selectedAnswer := (result.selectedAnswers.get? questionKey).getD ""
  { question := question.question
    selected := selectedAnswer
    correct := question.answer
    isCorrect := selectedAnswer == question.answer }

def questionResults (result : TestResult) : List QuestionResult :=
  result.questions.map (questionResult C result)

def correctAnswers (result : TestResult) : ℕ :=
  (questionResults C result).countP QuestionResult.isCorrect

def successRate (result : TestResult) : Double :=
  if 0 < result.questions.length then
    Double.percent (correctAnswers C result) result.questions.length
  else .finite 0

/-- The option a row shows; an empty one is shown as `CEVAPLANMADI!`. -/
def QuestionResult.choice (row : QuestionResult) : Option String :=
  if row.selected.isEmpty then none else some row.selected

/-- The history the report shows when the test has been saved and the app started again. -/
def reopened (s : Service) (t : FinishedTest) (date : DateTime) : List TestResult :=
  (loadTestResults C (saveTestResult C s t date).restart).testResults

/-- **The report shows what was selected**: the new result is the last entry after the earlier ones,
each of its rows shows the option selected for the question, and the rate is the stored score. -/
structure Reported (s : Service) (t : FinishedTest) (date : DateTime) : Prop where
  last : reopened C s t date = s.testResults ++ [newResult C t date]
  choices : (questionResults C (newResult C t date)).map QuestionResult.choice =
    t.questions.map t.selectedAnswers.get?
  rate : successRate C (newResult C t date) = (newResult C t date).score

/-- The test has questions, questions with one content have one selection, no selected option is
empty, and no question without a selection has the empty answer. -/
structure Readable (t : FinishedTest) : Prop where
  ne_nil : t.questions ≠ []
  agree : ∀ q ∈ t.questions, ∀ q' ∈ t.questions, q.toQuestion = q'.toQuestion →
    t.selectedAnswers.get? q = t.selectedAnswers.get? q'
  nonempty : ∀ q ∈ t.questions, t.selectedAnswers.get? q ≠ some ""
  answered : ∀ q ∈ t.questions, t.selectedAnswers.get? q = none → q.answer ≠ ""

variable {C}

/-! ### The stored selection -/

theorem choice_questionResult (r : TestResult) (q : Question) :
    (questionResult C r q).choice = (r.selectedAnswers.get? (q.key C)).filter (· ≠ "") := by
  have hsel : (questionResult C r q).selected = (r.selectedAnswers.get? (q.key C)).getD "" := rfl
  rw [QuestionResult.choice, hsel]
  rcases r.selectedAnswers.get? (q.key C) with _ | v
  · rfl
  · by_cases hv : v = "" <;> simp [hv, Option.filter]

/-- A question without a stored selection has none in the session. -/
theorem stored_none_iff {t : FinishedTest} {date : DateTime} {q : Question} :
    (newResult C t date).selectedAnswers.get? (q.key C) = none ↔
      ∀ q' ∈ t.selectedAnswers.keys, q'.toQuestion ≠ q := by
  rw [newResult, LinkedMap.get?_mapKeys_eq_none]
  exact forall₂_congr fun q' _ => (Question.key_inj C).not

/-- If questions with one content have one selection, it is what is stored. -/
theorem stored_eq {t : FinishedTest} {date : DateTime}
    (hagree : ∀ q ∈ t.questions, ∀ q' ∈ t.questions, q.toQuestion = q'.toQuestion →
      t.selectedAnswers.get? q = t.selectedAnswers.get? q') {q : QuestionObj}
    (hq : q ∈ t.questions) :
    (newResult C t date).selectedAnswers.get? (q.key C) = t.selectedAnswers.get? q := by
  rcases h : (newResult C t date).selectedAnswers.get? (q.key C) with _ | v
  · have hno : q ∉ t.selectedAnswers.keys := fun hk => stored_none_iff.mp h q hk rfl
    exact (LinkedMap.get?_eq_none_iff.mpr hno).symm
  · obtain ⟨q', hkey, hq'⟩ := LinkedMap.get?_mapKeys h
    have hmem : q' ∈ t.questions := t.selected_sub q' (LinkedMap.mem_keys_iff.mpr ⟨v, hq'⟩)
    rw [hagree q hq q' hmem ((Question.key_inj C).mp hkey).symm, hq']

theorem map_choice_questionResults (t : FinishedTest) (date : DateTime) :
    (questionResults C (newResult C t date)).map QuestionResult.choice = t.questions.map fun q =>
      ((newResult C t date).selectedAnswers.get? (q.key C)).filter (· ≠ "") := by
  rw [questionResults, List.map_map]
  have : (newResult C t date).questions = t.questions.map QuestionObj.toQuestion := rfl
  rw [this, List.map_map]
  exact List.map_congr_left fun q _ => choice_questionResult _ _

/-- **The rows show the selections exactly if one content has one selection, which is not empty.** -/
theorem choices_iff {t : FinishedTest} {date : DateTime} :
    (questionResults C (newResult C t date)).map QuestionResult.choice =
        t.questions.map t.selectedAnswers.get? ↔
      (∀ q ∈ t.questions, ∀ q' ∈ t.questions, q.toQuestion = q'.toQuestion →
        t.selectedAnswers.get? q = t.selectedAnswers.get? q') ∧
      ∀ q ∈ t.questions, t.selectedAnswers.get? q ≠ some "" := by
  rw [map_choice_questionResults, List.map_inj_left]
  constructor
  · intro h
    refine ⟨fun q hq q' hq' he => ?_, fun q hq he => ?_⟩
    · rw [← h q hq, ← h q' hq', he]
    · have hno := h q hq
      rw [he, Option.filter_eq_some_iff] at hno
      simp at hno
  · rintro ⟨hagree, hne⟩ q hq
    rw [stored_eq hagree hq]
    rcases h : t.selectedAnswers.get? q with _ | v
    · rfl
    · have hv : v ≠ "" := fun he => hne q hq (he ▸ h)
      simp [Option.filter, hv]

/-! ### The two counts -/

/-- The loop counts the questions it adds one for. -/
theorem correctAnswersCount_eq (qs : List QuestionObj) (m : LinkedMap QuestionObj String) :
    correctAnswersCount qs m = qs.countP fun q => m.get? q = some q.answer := by
  have hcond : ∀ q : QuestionObj, (m.contains q = true ∧ m.get? q = some q.answer) ↔
      m.get? q = some q.answer := fun q =>
    ⟨And.right, fun h => ⟨LinkedMap.contains_iff.mpr ⟨_, h⟩, h⟩⟩
  have hfold : ∀ n, qs.foldl (fun n q =>
      if m.contains q ∧ m.get? q = some q.answer then n + 1 else n) n =
        n + qs.countP fun q => m.get? q = some q.answer := by
    induction qs with
    | nil => exact fun n => rfl
    | cons q qs ih =>
      intro n
      rw [List.foldl_cons, ih, List.countP_cons]
      simp only [hcond, decide_eq_true_eq]
      split_ifs <;> omega
  rw [correctAnswersCount, hfold, Nat.zero_add]

theorem correctAnswers_eq (t : FinishedTest) (date : DateTime) :
    correctAnswers C (newResult C t date) = t.questions.countP fun q =>
      ((newResult C t date).selectedAnswers.get? (q.key C)).getD "" == q.answer := by
  rw [correctAnswers, questionResults, List.countP_map]
  have : (newResult C t date).questions = t.questions.map QuestionObj.toQuestion := rfl
  rw [this, List.countP_map]
  rfl

/-- Counts of two properties, one of which gives the other, are equal only if both are the same. -/
theorem countP_eq_iff {α : Type*} {p q : α → Bool} {l : List α} (himp : ∀ x ∈ l, p x → q x) :
    l.countP p = l.countP q ↔ ∀ x ∈ l, q x → p x := by
  induction l with
  | nil => simp
  | cons x l ih =>
    rw [List.forall_mem_cons] at himp
    have hle : l.countP p ≤ l.countP q := List.countP_mono_left himp.2
    rw [List.forall_mem_cons, ← ih himp.2, List.countP_cons, List.countP_cons]
    rcases hp : p x with _ | _
    · rcases hq : q x with _ | _
      · simp
      · simp only [Bool.false_eq_true, if_false, if_true]
        constructor
        · omega
        · exact fun h => absurd (h.1 trivial) id
    · rw [himp.1 hp]
      simp

/-- A count that takes no selection for the empty one is that of the loop only if no question without
a selection has the empty answer. -/
theorem countP_getD_eq_iff {qs : List QuestionObj} {m : LinkedMap QuestionObj String} :
    (qs.countP fun q => (m.get? q).getD "" == q.answer) = correctAnswersCount qs m ↔
      ∀ q ∈ qs, m.get? q = none → q.answer ≠ "" := by
  rw [correctAnswersCount_eq, eq_comm, countP_eq_iff]
  · refine forall₂_congr fun q _ => ?_
    rcases h : m.get? q with _ | v
    · simp
    · simp
  · intro q _ h
    rw [of_decide_eq_true h]
    simp

/-- **The counts agree exactly if no question without a selection has the empty answer.** -/
theorem counts_iff {t : FinishedTest} {date : DateTime}
    (hagree : ∀ q ∈ t.questions, ∀ q' ∈ t.questions, q.toQuestion = q'.toQuestion →
      t.selectedAnswers.get? q = t.selectedAnswers.get? q') :
    correctAnswers C (newResult C t date) = correctAnswersCount t.questions t.selectedAnswers ↔
      ∀ q ∈ t.questions, t.selectedAnswers.get? q = none → q.answer ≠ "" := by
  have hcount : correctAnswers C (newResult C t date) =
      t.questions.countP fun q => (t.selectedAnswers.get? q).getD "" == q.answer := by
    rw [correctAnswers_eq]
    exact List.countP_congr fun q hq => by rw [stored_eq hagree hq]
  rw [hcount, countP_getD_eq_iff]

/-! ### The report after a restart -/

theorem score_eq_percent {t : FinishedTest} {date : DateTime} :
    (newResult C t date).score =
      Double.percent (correctAnswersCount t.questions t.selectedAnswers) t.questions.length := rfl

theorem rate_iff {t : FinishedTest} {date : DateTime} (ht : t.questions ≠ []) :
    successRate C (newResult C t date) = (newResult C t date).score ↔
      correctAnswers C (newResult C t date) =
        correctAnswersCount t.questions t.selectedAnswers := by
  have hlen : (newResult C t date).questions.length = t.questions.length := List.length_map _
  have hpos : 0 < t.questions.length := List.length_pos_iff.mpr ht
  rw [successRate, hlen, if_pos hpos, score_eq_percent, Double.percent_inj hpos.ne']

/-- **The new result is the last entry loaded exactly if the test has questions.** -/
theorem reopened_iff {s : App} (hI : Inv C s) {t : FinishedTest} {date : DateTime} :
    reopened C s.service t date = s.service.testResults ++ [newResult C t date] ↔
      t.questions ≠ [] := by
  have hsc := hI.scored
  obtain ⟨hist, hs, -⟩ := hI
  constructor
  · intro h ht
    have hprefs : Stored C (saveTestResult C s.service t date).restart.prefs hist :=
      save_nil s.service ht date ▸ hs
    rw [reopened, load_of_stored hprefs (Or.inr rfl)] at h
    have hfin := hs.scored (newResult C t date) (by simp only at h; simp [h])
    exact isFinite_newResult.mp hfin ht
  · intro ht
    rw [reopened, load_of_stored (s := (saveTestResult C s.service t date).restart)
      (save_stored hsc ht date) (Or.inr rfl)]

/-- **The report of a saved test shows what was selected, and its rate is the score, exactly if the
test is readable.** -/
theorem reported_iff {s : App} (hI : Inv C s) (t : FinishedTest) (date : DateTime) :
    Reported C s.service t date ↔ Readable t := by
  constructor
  · rintro ⟨hlast, hchoices, hrate⟩
    have ht := (reopened_iff hI).mp hlast
    obtain ⟨hagree, hne⟩ := choices_iff.mp hchoices
    exact ⟨ht, hagree, hne, (counts_iff hagree).mp ((rate_iff ht).mp hrate)⟩
  · rintro ⟨ht, hagree, hne, hans⟩
    exact ⟨(reopened_iff hI).mpr ht, choices_iff.mpr ⟨hagree, hne⟩,
      (rate_iff ht).mpr ((counts_iff hagree).mpr hans)⟩

/-- **What the report of a finished test shows**, in every state the app can be in. -/
theorem reported_iff_readable {p : Option String} {h : List TestResult} (hs : Stored C p h)
    {ops : List Op} (hops : Along (step C) (fun _ op => op.HasQuestions) (started p) ops) {s : App}
    (hrun : run (step C) (started p) ops = some s) (t : FinishedTest) (date : DateTime) :
    Reported C s.service t date ↔ Readable t :=
  reported_iff (inv_run hs hops hrun) t date

theorem reported_iff_readable_sums :
    Reported compact (saveTestResult compact (started none).service sums .noon).restart sums .noon ↔
      Readable sums :=
  reported_iff_readable stored_none (by decide)
    (show run (step compact) (started none) [.saveTestResult sums .noon, .restart] = some
      { service := (saveTestResult compact (started none).service sums .noon).restart,
        reportShown := false } from rfl) sums .noon

/-- One question stored twice, answered in two ways. -/
def twice : FinishedTest where
  testName := "Matematik"
  questions := [{ question := "2 + 2 = ?", options := ["4", "5"], answer := "4", imagePath := none,
                  ref := 0 },
                { question := "2 + 2 = ?", options := ["4", "5"], answer := "4", imagePath := none,
                  ref := 1 }]
  selectedAnswers := (LinkedMap.empty.set
    { question := "2 + 2 = ?", options := ["4", "5"], answer := "4", imagePath := none, ref := 0 }
    "4").set
    { question := "2 + 2 = ?", options := ["4", "5"], answer := "4", imagePath := none, ref := 1 } "5"
  distinct := by decide
  selected_sub := by decide

/-- **Two questions with one content share a row**: the first is shown with the option selected for
the second. -/
theorem twice_not_reported : ¬ Reported compact (started none).service twice .noon := by
  intro h
  have hagree := (choices_iff.mp h.choices).1
  exact absurd (hagree _ (List.mem_cons_self ..) _ (List.mem_cons_of_mem _ (List.mem_cons_self ..)) rfl)
    (by decide)

end KamuSinavi.History.Report
