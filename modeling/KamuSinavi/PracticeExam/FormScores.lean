import KamuSinavi.PracticeExam.Form
import KamuSinavi.PracticeExam.Republished
import KamuSinavi.PracticeExam.Scores

/-! # What a form lets users score

The form of the practice exam and the pages of its users are two systems over one database. Here they
are put together: `Sınavı Başlat` is pressed in any state of the form and of the pages, and a user
without a result takes the exam.

`scores_published` says which scores the user can end up with, as the numbers of complete forms whose
options are all the chosen answer and of those with the chosen answer among their options;
`perfect_iff` that all questions can be answered right exactly if no chosen answer was typed over. -/

namespace KamuSinavi.PracticeExam.FormScores

open KamuSinavi.Lib KamuSinavi.Lib.Runs KamuSinavi.Lib.Dart
open Form (questionOf optionTexts IsComplete)
open Republished (OnTopic onTopic_publish questionsOn_eq)
open Scores (CanGet Offers offers_of_canGet canGet_of_offers)

/-- The forms that `Sınavı Başlat` publishes. -/
def completeForms (f : Form.State) : List QuestionForm := f.questions.filter fun q => IsComplete q

/-- Whatever option is tapped, it is the answer. -/
def OnlyAnswer (q : QuestionForm) : Prop := ∀ o ∈ optionTexts q, o = q.correctAnswer

/-- The answer is one of the options. -/
def HasAnswer (q : QuestionForm) : Prop := q.correctAnswer ∈ optionTexts q

instance : DecidablePred OnlyAnswer := fun q =>
  inferInstanceAs (Decidable (∀ o ∈ optionTexts q, o = _))

instance : DecidablePred HasAnswer := fun q => inferInstanceAs (Decidable (_ ∈ optionTexts q))

/-! ### An exam on one topic -/

/-- What an exam on one topic offers is what its questions can be answered with. -/
theorem offers_iff {exam : Exam} {topic : String} (hon : OnTopic exam topic)
    (hne : exam.questions ≠ []) (hopts : ∀ q ∈ exam.questions, q.options ≠ []) (k : ℕ) :
    (∃ topic, Offers exam k topic) ↔ Possible exam.questions k := by
  constructor
  · rintro ⟨topic', hoffers⟩
    have hscore := hoffers.score
    rwa [questionsOn_eq hon hoffers.questions] at hscore
  · intro hscore
    have hall : questionsOn exam topic = exam.questions :=
      List.filter_eq_self.mpr fun q hq => decide_eq_true (hon q hq)
    exact ⟨topic, hall ▸ hne, hall ▸ hopts, hall ▸ hscore⟩

/-- The scores that the questions of forms can be answered with. -/
theorem possible_map (topic : String) (forms : List QuestionForm) (k : ℕ) :
    Possible (forms.map (questionOf topic)) k ↔
      forms.countP OnlyAnswer ≤ k ∧ k ≤ forms.countP HasAnswer := by
  have hfewest : Choices.fewest (fun q : ExamQuestion => q.options) right
      (forms.map (questionOf topic)) = forms.countP OnlyAnswer := by
    unfold Choices.fewest
    rw [List.countP_map]
    refine List.countP_congr fun q _ => ?_
    rw [decide_eq_true_eq]
    simp [OnlyAnswer, right, questionOf]
  have hmost : Choices.most (fun q : ExamQuestion => q.options) right
      (forms.map (questionOf topic)) = forms.countP HasAnswer := by
    unfold Choices.most
    rw [List.countP_map]
    refine List.countP_congr fun q _ => ?_
    rw [decide_eq_true_eq]
    simp [HasAnswer, right, questionOf]
  unfold Possible
  rw [hfewest, hmost]

/-! ### The form and the pages -/

variable {f f' : Form.State} {s : State} {exam : Exam} {user : User}

/-- What `Sınavı Başlat` leaves in the database. -/
theorem publish_of_start (h : Form.step f .start = some f') :
    publish f.store f.titleText f.topicText f.questions = some f'.store := by
  rw [Form.step, Option.map_eq_some_iff] at h
  obtain ⟨store, hp, rfl⟩ := h
  exact hp

/-- A published exam ends later, and there are its questions. -/
theorem end_publish {t u : Store} {title topic : String} {questions : List QuestionForm}
    (h : publish t title topic questions = some u) (he : u.active = some exam) :
    exam.end_time = some (u.now + 24 * 60 * 60) ∧ exam.questions ≠ [] := by
  unfold publish at h
  simp only at h
  split_ifs at h with hcond
  obtain rfl := Option.some.inj h
  obtain rfl := Option.some.inj he
  exact ⟨rfl, fun hnil => hcond (Or.inr (Or.inr hnil))⟩

/-- The pages go on over the database that the form leaves. -/
def published (s : State) (f' : Form.State) : State := { s with store := f'.store }

/-- The form publishes as an action among those of the pages. -/
theorem run_published {as : List Action} (hrun : run step installed as = some s)
    (hstore : f.store = s.store) (h : Form.step f .start = some f') :
    run step installed (as ++ [.publish f.titleText f.topicText f.questions]) =
      some (published s f') := by
  rw [run_append, hrun, Option.bind_some, run_singleton, step, ← hstore, publish_of_start h]
  rfl

/-- **What a user can score in the published exam** is what its questions can be answered with. -/
theorem canGet_iff_possible {as : List Action} (hrun : run step installed as = some s)
    (hstore : f.store = s.store) (hstart : Form.step f .start = some f')
    (hactive : f'.store.active = some exam) (hnone : s.store.results.get? user.uid = none) (k : ℕ) :
    CanGet (published s f') exam user k ↔ Possible exam.questions k := by
  have hpublish := publish_of_start hstart
  obtain ⟨hend, hne⟩ := end_publish hpublish hactive
  have hnone' : (published s f').store.results.get? user.uid = none := by
    have hresults := publish_results hpublish
    rw [hstore] at hresults
    exact hresults ▸ hnone
  have hopts : ∀ q ∈ exam.questions, q.options ≠ [] := by
    obtain ⟨-, -, exam', hactive', hquestions⟩ := Form.active_of_start hstart
    obtain rfl := Option.some.inj (hactive.symm.trans hactive')
    rw [hquestions]
    intro q hq
    obtain ⟨form, -, rfl⟩ := List.mem_map.mp hq
    simp [questionOf, optionTexts]
  have hnow : ¬ (published s f').store.now + 24 * 60 * 60 < (published s f').store.now := by omega
  rw [← offers_iff (onTopic_publish hpublish hactive) hne hopts]
  refine ⟨offers_of_canGet (run_published hrun hstore hstart), ?_⟩
  rintro ⟨topic, hoffers⟩
  exact canGet_of_offers hactive hend hnow hnone' hoffers

/-- **What the form publishes lets a user score** any number from the complete forms whose options are
all the chosen answer up to those that have it among their options, and nothing else. -/
theorem scores_published {as : List Action} (hrun : run step installed as = some s)
    (hstore : f.store = s.store) (hstart : Form.step f .start = some f')
    (hactive : f'.store.active = some exam) (hnone : s.store.results.get? user.uid = none) (k : ℕ) :
    CanGet (published s f') exam user k ↔
      (completeForms f).countP OnlyAnswer ≤ k ∧ k ≤ (completeForms f).countP HasAnswer := by
  obtain ⟨-, -, exam', hactive', hquestions⟩ := Form.active_of_start hstart
  obtain rfl := Option.some.inj (hactive.symm.trans hactive')
  rw [canGet_iff_possible hrun hstore hstart hactive hnone, hquestions, possible_map, completeForms]

/-- The form with the question of `sumForm`. -/
def sumState : Form.State :=
  { Form.opened installed.store with
    titleText := "Deneme 1"
    topicText := "Matematik"
    questions := [sumForm] }

theorem scores_published_sum :
    ∃ f' exam, Form.step sumState .start = some f' ∧ f'.store.active = some exam ∧
      ∀ k, CanGet (published installed f') exam ayse k ↔
        (completeForms sumState).countP OnlyAnswer ≤ k ∧
          k ≤ (completeForms sumState).countP HasAnswer := by
  have hrun : run step installed [] = some installed := rfl
  exact ⟨_, _, rfl, rfl, fun k => scores_published hrun rfl rfl rfl rfl k⟩

/-- **All questions can be answered right exactly if the answers of the complete forms are options.** -/
theorem perfect_iff {as : List Action} (hrun : run step installed as = some s)
    (hstore : f.store = s.store) (hstart : Form.step f .start = some f')
    (hactive : f'.store.active = some exam) (hnone : s.store.results.get? user.uid = none) :
    CanGet (published s f') exam user exam.questions.length ↔ Form.Chosen f .start := by
  obtain ⟨htitle, htopic, exam', hactive', hquestions⟩ := Form.active_of_start hstart
  obtain rfl := Option.some.inj (hactive.symm.trans hactive')
  have hlength : exam.questions.length = (completeForms f).length := by
    rw [hquestions, List.length_map, completeForms]
  have hall : (completeForms f).length ≤ (completeForms f).countP HasAnswer ↔
      ∀ q ∈ completeForms f, HasAnswer q := by
    rw [List.countP_le_length.ge_iff_eq, List.countP_eq_length]
    exact forall₂_congr fun q _ => decide_eq_true_iff
  have hchosen : (∀ q ∈ completeForms f, HasAnswer q) ↔ Form.Chosen f .start := by
    constructor
    · intro h _ _ q hq hcomplete
      exact h q (List.mem_filter.mpr ⟨hq, decide_eq_true hcomplete⟩)
    · intro h q hq
      obtain ⟨hq, hcomplete⟩ := List.mem_filter.mp hq
      exact h htitle htopic q hq (of_decide_eq_true hcomplete)
  rw [canGet_iff_possible hrun hstore hstart hactive hnone, hlength, hquestions, possible_map,
    ← completeForms, and_iff_right List.countP_le_length, hall, hchosen]

/-- **If no chosen answer has been typed over since the form was opened, whatever it publishes can be
answered right by everybody who has no result**, to whichever state the pages have brought the database
meanwhile. -/
theorem perfect_of_keeps {store : Store} {bs : List Form.Action}
    (hkeeps : Along Form.step Form.Keeps (Form.opened store) bs)
    (hform : run Form.step (Form.opened store) bs = some f) {as : List Action}
    (hrun : run step installed as = some s)
    (hstart : Form.step { f with store := s.store } .start = some f')
    (hactive : f'.store.active = some exam) (hnone : s.store.results.get? user.uid = none) :
    CanGet (published s f') exam user exam.questions.length := by
  have hopened : ∀ q ∈ (Form.opened store).questions, Form.Kept q := fun q hq => by
    obtain rfl := List.mem_singleton.mp hq
    exact Or.inl rfl
  have hkept : ∀ q ∈ f.questions, Form.Kept q :=
    run_inv (fun _ _ _ hs ha h => Form.kept_step hs ha h) hopened hkeeps hform
  refine (perfect_iff hrun rfl hstart hactive hnone).mpr fun _ _ q hq hcomplete => ?_
  exact (hkept q hq).resolve_left hcomplete.2.2

instance (f : Form.State) : DecidablePred (Form.Keeps f)
  | .typeOption i j text => inferInstanceAs (Decidable (∀ q ∈ f.questions[i]?,
      q.correctAnswer = "" ∨
        q.correctAnswer ∈ optionTexts { q with options := Function.update q.options j text }))
  | .typeTitle _ | .typeTopic _ | .addForm | .removeForm _ | .typeQuestion .. | .chooseAnswer .. |
    .start | .remove | .written | .fails | .wait _ => isTrue trivial

/-- A question is typed, and its answer chosen when the options are there. -/
def types (i : ℕ) (q : QuestionForm) : List Form.Action :=
  .typeQuestion i q.question :: List.ofFn (fun j => .typeOption i j (q.options j)) ++
    [.chooseAnswer i q.correctAnswer]

/-- The admin fills in the form. -/
def typesSum : List Form.Action := .typeTitle "Deneme 1" :: .typeTopic "Matematik" :: types 0 sumForm

theorem perfect_of_keeps_typesSum :
    ∃ f s f' exam, run Form.step (Form.opened installed.store) typesSum = some f ∧
      run step installed [.publish "Deneme 0" "Coğrafya" [capitalForm], .wait 3600] = some s ∧
      Form.step { f with store := s.store } .start = some f' ∧ f'.store.active = some exam ∧
      CanGet (published s f') exam ayse exam.questions.length := by
  have hkeeps : Along Form.step Form.Keeps (Form.opened installed.store) typesSum := by decide
  have hform : run Form.step (Form.opened installed.store) typesSum = some _ := rfl
  have hrun : run step installed [.publish "Deneme 0" "Coğrafya" [capitalForm], .wait 3600] =
      some _ := rfl
  exact ⟨_, _, _, _, hform, hrun, rfl, rfl, perfect_of_keeps hkeeps hform hrun rfl rfl rfl⟩

end KamuSinavi.PracticeExam.FormScores
