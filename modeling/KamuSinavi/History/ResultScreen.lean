import KamuSinavi.History.Report

/-! # The result of a test on the screen

`ResultScreen` (`pages/result_screen.dart`) counts the correct answers for what it shows and then calls
`saveTestResult` (`services/test_results_service.dart`), which counts them once more. The screen takes
a question without a selection to be answered with the empty text; the service passes it over.

`sameScore_iff` says for which questions and selections the score shown is the score saved. -/

namespace KamuSinavi.History.ResultScreen

open KamuSinavi.Lib KamuSinavi.Lib.Dart KamuSinavi.Models Service Report

/-- The map the screen makes for a question. -/
structure QuestionResult where
  question : String
  selected : String
  correct : String
  isCorrect : String
  deriving DecidableEq

/-- What the screen shows. -/
structure Shown where
  totalQuestions : ℕ
  correctAnswers : ℕ
  questionResults : List QuestionResult
  successRate : Double
  deriving DecidableEq

/-- One turn of the loop over the questions. -/
def addQuestion (selectedAnswers : LinkedMap QuestionObj String) (acc : ℕ × List QuestionResult)
    (question : QuestionObj) : ℕ × List QuestionResult :=
  let selectedAnswer := (selectedAnswers.get? question).getD ""
  let isCorrect := selectedAnswer == question.answer
  (if isCorrect then acc.1 + 1 else acc.1,
    acc.2 ++ [{ question := question.question
                selected := selectedAnswer
                correct := question.answer
                isCorrect := toString isCorrect }])

/-- `_ResultScreenState.build`, up to the call of `saveTestResult`. -/
def build (questions : List QuestionObj) (selectedAnswers : LinkedMap QuestionObj String) : Shown :=
  let results := questions.foldl (addQuestion selectedAnswers) (0, [])
  { totalQuestions := questions.length
    correctAnswers := results.1
    questionResults := results.2
    successRate :=
      if 0 < questions.length then Double.percent results.1 questions.length else .finite 0 }

/-- The arguments of a call of `saveTestResult`, and when it is made. -/
structure Save where
  testName : String
  questions : List QuestionObj
  selectedAnswers : LinkedMap QuestionObj String
  date : DateTime

variable (C : Convert)

/-- The record `saveTestResult` adds. -/
def Save.result (a : Save) : TestResult where
  testName := a.testName
  score := Double.percent (correctAnswersCount a.questions a.selectedAnswers) a.questions.length
  date := a.date
  questions := a.questions.map QuestionObj.toQuestion
  selectedAnswers := a.selectedAnswers.mapKeys fun q => q.key C

/-- The call a finished test leads to. -/
def Save.ofTest (t : FinishedTest) (date : DateTime) : Save where
  testName := t.testName
  questions := t.questions
  selectedAnswers := t.selectedAnswers
  date := date

/-- **The score shown is the score saved**: both counts are the same number, and the rate shown is the
stored score. -/
structure SameScore (a : Save) : Prop where
  count : (build a.questions a.selectedAnswers).correctAnswers =
    correctAnswersCount a.questions a.selectedAnswers
  rate : (build a.questions a.selectedAnswers).successRate = (a.result C).score

variable {C}

/-- The record of a finished test is that of its call. -/
theorem newResult_eq (t : FinishedTest) (date : DateTime) :
    newResult C t date = (Save.ofTest t date).result C := rfl

/-- The loop counts the questions whose selection, or the empty text, is the answer. -/
theorem foldl_addQuestion (qs : List QuestionObj) (m : LinkedMap QuestionObj String)
    (acc : ℕ × List QuestionResult) :
    (qs.foldl (addQuestion m) acc).1 =
      acc.1 + qs.countP fun q => (m.get? q).getD "" == q.answer := by
  induction qs generalizing acc with
  | nil => rfl
  | cons q qs ih =>
    rw [List.foldl_cons, ih, List.countP_cons]
    simp only [addQuestion]
    split_ifs <;> omega

theorem correctAnswers_build (qs : List QuestionObj) (m : LinkedMap QuestionObj String) :
    (build qs m).correctAnswers = qs.countP fun q => (m.get? q).getD "" == q.answer := by
  rw [build, foldl_addQuestion, Nat.zero_add]

/-- The rates of one number of questions are equal only if the counts are. -/
theorem rate_eq_iff {a : Save} (ha : a.questions ≠ []) :
    (build a.questions a.selectedAnswers).successRate = (a.result C).score ↔
      (build a.questions a.selectedAnswers).correctAnswers =
        correctAnswersCount a.questions a.selectedAnswers := by
  have hpos : 0 < a.questions.length := List.length_pos_iff.mpr ha
  have hrate : (build a.questions a.selectedAnswers).successRate =
      Double.percent (build a.questions a.selectedAnswers).correctAnswers a.questions.length :=
    if_pos hpos
  rw [hrate, Save.result, Double.percent_inj hpos.ne']

/-- **The score shown is the score saved exactly if no question without a selection has the empty
answer.** -/
theorem sameScore_iff {a : Save} (ha : a.questions ≠ []) :
    SameScore C a ↔ ∀ q ∈ a.questions, a.selectedAnswers.get? q = none → q.answer ≠ "" := by
  have hcount : (build a.questions a.selectedAnswers).correctAnswers =
      correctAnswersCount a.questions a.selectedAnswers ↔
        ∀ q ∈ a.questions, a.selectedAnswers.get? q = none → q.answer ≠ "" := by
    rw [correctAnswers_build, countP_getD_eq_iff]
  rw [← hcount]
  exact ⟨SameScore.count, fun h => ⟨h, (rate_eq_iff ha).mpr h⟩⟩

/-- A test of one question that is not answered. -/
def unanswered (question : Question) : Save where
  testName := "Matematik"
  questions := [{ question with ref := 0 }]
  selectedAnswers := LinkedMap.empty
  date := .noon

def sum : Question :=
  { question := "2 + 2 = ?", options := ["4", "5"], answer := "4", imagePath := none }

/-- A test of two questions, the first of which is answered. -/
def halfAnswered : Save where
  testName := "Matematik"
  questions :=
    [{ sum with ref := 0 },
      { question := "2 + 3 = ?", options := ["4", "5"], answer := "5", imagePath := none, ref := 1 }]
  selectedAnswers := LinkedMap.empty.set { sum with ref := 0 } "4"
  date := .noon

theorem sameScore_iff_halfAnswered :
    SameScore compact halfAnswered ↔
      ∀ q ∈ halfAnswered.questions, halfAnswered.selectedAnswers.get? q = none → q.answer ≠ "" :=
  sameScore_iff (List.cons_ne_nil _ _)

/-- **A question read from a document without an answer** and left out by the user is shown as correct,
and saved as not. -/
theorem missingAnswer_not_sameScore :
    ∃ q, Question.fromJson (.obj [("question", .str "2 + 2 = ?"),
        ("options", .arr [.str "4", .str "5"])]) = some q ∧
      ¬ SameScore compact (unanswered q) :=
  ⟨{ sum with answer := "" }, rfl, fun h => absurd h.count (by decide)⟩

end KamuSinavi.History.ResultScreen
