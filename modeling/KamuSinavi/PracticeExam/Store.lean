import Mathlib.Data.Fin.VecNotation
import Mathlib.Data.List.Sort
import KamuSinavi.Lib.Dart
import KamuSinavi.Lib.LinkedMap

/-! # The active practice exam and its results

The document `practice_exams/active_exam` and its subcollection `results`, one document for each
user, as `DenemeSinaviPage` reads them (`pages/denemeSinaviPage.dart`) and the admin's form writes
them (`buildPracticeExamForm` in `pages/adminDashboard.dart`). Setting and deleting the exam document
leave the subcollection alone.

Times are seconds. Three things the code does not have are kept beside what it has: the `serial` of a
published exam, the exam a result was scored against, and `finished`, which user finished which
exam. -/

namespace KamuSinavi.PracticeExam

open KamuSinavi.Lib KamuSinavi.Lib.Dart

structure ExamQuestion where
  question : String
  options : List String
  answer : String
  topic : Option String
  deriving DecidableEq

structure Exam where
  title : String
  questions : List ExamQuestion
  created_at : ℕ
  end_time : Option ℕ
  serial : ℕ
  deriving DecidableEq

/-- What `finishTest` writes. -/
structure ResultData where
  score : ℕ
  displayName : String
  full_name : String
  answers : LinkedMap String String
  exam : Exam
  deriving DecidableEq

/-- A document of the results; the timestamp is the server's. -/
structure ResultDoc extends ResultData where
  timestamp : ℕ
  deriving DecidableEq

structure User where
  uid : String
  email : Option String
  deriving DecidableEq

/-- The part of the database the exam uses. `published` counts the exams published so far. -/
structure Store where
  active : Option Exam
  results : LinkedMap String ResultDoc
  now : ℕ
  published : ℕ
  finished : List (String × ℕ)
  deriving DecidableEq

/-! ### The admin's form -/

/-- The fields of one question of the form. -/
structure QuestionForm where
  question : String
  options : Fin 4 → String
  correctAnswer : String

/-- The question a form stands for, if it is complete. -/
def QuestionForm.prepare (topic : String) (q : QuestionForm) : Option ExamQuestion :=
  let question := trim q.question
  let options := List.ofFn fun j => trim (q.options j)
  let answer := q.correctAnswer
  if question.isEmpty ∨ options.any String.isEmpty ∨ answer.isEmpty then none
  else some { question, options, answer, topic := some topic }

/-- `Sınavı Başlat`; `none` if the button returns without writing. -/
def publish (s : Store) (titleText topicText : String) (questions : List QuestionForm) :
    Option Store :=
  let title := trim titleText
  let topic := trim topicText
  let preparedQuestions := questions.filterMap (QuestionForm.prepare topic)
  if title.isEmpty ∨ topic.isEmpty ∨ preparedQuestions = [] then none
  else some { s with
    active := some
      { title := title
        questions := preparedQuestions
        created_at := s.now
        end_time := some (s.now + 24 * 60 * 60)
        serial := s.published }
    published := s.published + 1 }

/-- `Sınavı Kaldır`. -/
def remove (s : Store) : Store := { s with active := none }

/-! ### What the page reads and writes -/

/-- The order of the ranking: by score and then by document id, both descending. -/
def RankedBefore (a b : String × ResultDoc) : Prop :=
  b.2.score < a.2.score ∨ b.2.score = a.2.score ∧ b.1 ≤ a.1

instance : DecidableRel RankedBefore := fun _ _ => inferInstanceAs (Decidable (_ ∨ _))

/-- The documents `fetchResults` gets. -/
def fetchResults (s : Store) : List ResultDoc :=
  (s.results.entries.insertionSort RankedBefore).map Prod.snd

/-- `resultDoc.exists`. -/
def resultExists (s : Store) (uid : String) : Bool := s.results.contains uid

/-- `fetchActiveExam`: an exam whose end is before now is not returned. -/
def fetchActiveExam (s : Store) : Option Exam :=
  s.active.bind fun data =>
    match data.end_time with
    | none => some data
    | some e => if e < s.now then none else some data

/-- The document that `set` leaves at `uid`, and that the user finished its exam. -/
def setResult (s : Store) (uid : String) (data : ResultData) : Store :=
  { s with
    results := s.results.set uid { data with timestamp := s.now }
    finished := (uid, data.exam.serial) :: s.finished }

/-- The user finished the exam after it was published. -/
def Finished (s : Store) (uid : String) (exam : Exam) : Prop := (uid, exam.serial) ∈ s.finished

instance (s : Store) (uid : String) (exam : Exam) : Decidable (Finished s uid exam) :=
  inferInstanceAs (Decidable (_ ∈ _))

theorem publish_results {s t : Store} {title topic : String} {questions : List QuestionForm}
    (h : publish s title topic questions = some t) : t.results = s.results := by
  unfold publish at h
  simp only at h
  split_ifs at h
  obtain rfl := Option.some.inj h
  rfl

theorem mem_fetchResults {s : Store} {r : ResultDoc} :
    r ∈ fetchResults s ↔ ∃ uid, s.results.get? uid = some r := by
  simp only [fetchResults, List.mem_map, List.mem_insertionSort, Prod.exists, exists_eq_right,
    LinkedMap.get?_eq_some_iff]

end KamuSinavi.PracticeExam
