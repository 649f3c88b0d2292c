import KamuSinavi.Lib.Calls
import KamuSinavi.Lib.Runs
import KamuSinavi.PracticeExam.Store

/-! # The form of the practice exam

`buildPracticeExamForm` (`pages/adminDashboard.dart`): forms for questions are added and removed, texts
typed and answers chosen among the options, and `Sınavı Başlat` publishes the forms that are complete.
A chosen answer is a copy of the option, which can be typed over afterwards; `Sınavı Başlat` and
`Sınavı Kaldır` clear the form when their write is done.

`Answerable` says that what is published are the forms that a user can answer, and `answerable_iff` for
which runs. -/

namespace KamuSinavi.PracticeExam.Form

open KamuSinavi.Lib KamuSinavi.Lib.Runs KamuSinavi.Lib.Dart

/-- `QuestionForm()`. -/
def newForm : QuestionForm := { question := "", options := fun _ => "", correctAnswer := "" }

/-- The form and the database. `awaiting` counts the calls that await their write. -/
structure State where
  store : Store
  titleText : String
  topicText : String
  questions : List QuestionForm
  awaiting : ℕ

inductive Action where
  | typeTitle (text : String)
  | typeTopic (text : String)
  | addForm
  | removeForm (i : ℕ)
  | typeQuestion (i : ℕ) (text : String)
  | typeOption (i : ℕ) (j : Fin 4) (text : String)
  | chooseAnswer (i : ℕ) (answer : String)
  | start
  | remove
  | written
  | fails
  | wait (seconds : ℕ)

/-- The trimmed options. -/
def optionTexts (q : QuestionForm) : List String := List.ofFn fun j => trim (q.options j)

/-- The items of the dropdown. -/
def dropdownItems (q : QuestionForm) : List String := (optionTexts q).filter fun text => !text.isEmpty

/-- The `i`-th form is changed. -/
def setForm (s : State) (i : ℕ) (q : QuestionForm) : State :=
  { s with questions := s.questions.set i q }

def step (s : State) : Action → Option State
  | .typeTitle text => some { s with titleText := text }
  | .typeTopic text => some { s with topicText := text }
  | .addForm => some { s with questions := s.questions ++ [newForm] }
  | .removeForm i =>
    if i < s.questions.length then some { s with questions := s.questions.eraseIdx i } else none
  | .typeQuestion i text => s.questions[i]?.map fun q => setForm s i { q with question := text }
  | .typeOption i j text => s.questions[i]?.map fun q =>
    setForm s i { q with options := Function.update q.options j text }
  | .chooseAnswer i answer => s.questions[i]?.bind fun q =>
    if answer ∈ dropdownItems q then some (setForm s i { q with correctAnswer := answer }) else none
  | .start => (publish s.store s.titleText s.topicText s.questions).map fun store =>
    { s with store := store, awaiting := s.awaiting + 1 }
  | .remove =>
    some { s with store := PracticeExam.remove s.store, awaiting := s.awaiting + 1 }
  | .written =>
    if 0 < s.awaiting then
      some { s with
        titleText := ""
        topicText := ""
        questions := [newForm]
        awaiting := s.awaiting - 1 }
    else none
  | .fails => if 0 < s.awaiting then some { s with awaiting := s.awaiting - 1 } else none
  | .wait seconds => some { s with store := { s.store with now := s.store.now + seconds } }

/-- The form when the dashboard opens it. -/
def opened (store : Store) : State :=
  { store := store, titleText := "", topicText := "", questions := [newForm], awaiting := 0 }

/-- The question of a form. -/
def questionOf (topic : String) (q : QuestionForm) : ExamQuestion :=
  { question := trim q.question, options := optionTexts q, answer := q.correctAnswer,
    topic := some topic }

/-- The question has a text and four options, and the answer is one of them. -/
structure Valid (q : ExamQuestion) : Prop where
  question : q.question ≠ ""
  length : q.options.length = 4
  options : ∀ o ∈ q.options, o ≠ ""
  answer : q.answer ∈ q.options

instance (q : ExamQuestion) : Decidable (Valid q) :=
  decidable_of_iff
    (q.question ≠ "" ∧ q.options.length = 4 ∧ (∀ o ∈ q.options, o ≠ "") ∧ q.answer ∈ q.options)
    ⟨fun ⟨h₁, h₂, h₃, h₄⟩ => ⟨h₁, h₂, h₃, h₄⟩, fun ⟨h₁, h₂, h₃, h₄⟩ => ⟨h₁, h₂, h₃, h₄⟩⟩

/-- **What `Sınavı Başlat` writes has valid questions only**, and they are those of the forms that have
one, in order. -/
def Answerable (s : State) (a : Action) (t : State) : Prop :=
  match a with
  | .start => ∀ exam ∈ t.store.active, (∀ q ∈ exam.questions, Valid q) ∧
      exam.questions = (s.questions.map (questionOf (trim s.topicText))).filter Valid
  | _ => True

/-- Text, options and answer of the form are there. -/
def IsComplete (q : QuestionForm) : Prop :=
  trim q.question ≠ "" ∧ (∀ o ∈ optionTexts q, o ≠ "") ∧ q.correctAnswer ≠ ""

/-- When the exam is published, the answer of each complete form is still one of its options. -/
def Chosen (s : State) : Action → Prop
  | .start => trim s.titleText ≠ "" → trim s.topicText ≠ "" →
      ∀ q ∈ s.questions, IsComplete q → q.correctAnswer ∈ optionTexts q
  | _ => True

instance (q : QuestionForm) : Decidable (IsComplete q) := inferInstanceAs (Decidable (_ ∧ _ ∧ _))

/-! ### What is published -/

/-- A form is prepared exactly if it is complete. -/
theorem prepare_eq (topic : String) (q : QuestionForm) :
    q.prepare topic = if IsComplete q then some (questionOf topic q) else none := by
  have hcond : ((trim q.question).isEmpty = true ∨ (optionTexts q).any String.isEmpty = true ∨
      q.correctAnswer.isEmpty = true) ↔ ¬ IsComplete q := by
    simp only [IsComplete, String.isEmpty_iff, List.any_eq_true, ne_eq, not_and_or, not_not, not_forall,
      exists_prop]
  rw [optionTexts] at hcond
  unfold QuestionForm.prepare
  simp only
  by_cases h : IsComplete q
  · rw [if_pos h, if_neg (mt hcond.mp (not_not.mpr h)), questionOf, optionTexts]
  · rw [if_neg h, if_pos (hcond.mpr h)]

theorem filterMap_prepare (topic : String) (questions : List QuestionForm) :
    questions.filterMap (QuestionForm.prepare topic) =
      (questions.filter fun q => IsComplete q).map (questionOf topic) := by
  induction questions with
  | nil => rfl
  | cons q qs ih =>
    rw [List.filterMap_cons, prepare_eq, ih]
    by_cases h : IsComplete q
    · rw [if_pos h, List.filter_cons_of_pos (by simpa using h), List.map_cons]
    · rw [if_neg h, List.filter_cons_of_neg (by simpa using h)]

/-- **The question of a form is valid exactly if the form is complete and its answer is one of its
options.** -/
theorem valid_questionOf (topic : String) (q : QuestionForm) :
    Valid (questionOf topic q) ↔ IsComplete q ∧ q.correctAnswer ∈ optionTexts q := by
  constructor
  · rintro ⟨hquestion, -, hoptions, hanswer⟩
    exact ⟨⟨hquestion, hoptions, hoptions _ hanswer⟩, hanswer⟩
  · rintro ⟨⟨hquestion, hoptions, -⟩, hanswer⟩
    exact ⟨hquestion, List.length_ofFn, hoptions, hanswer⟩

/-- What `Sınavı Başlat` writes. -/
theorem active_of_start {s t : State} (h : step s .start = some t) :
    trim s.titleText ≠ "" ∧ trim s.topicText ≠ "" ∧ ∃ exam, t.store.active = some exam ∧
      exam.questions = (s.questions.filter fun q => IsComplete q).map (questionOf (trim s.topicText)) := by
  rw [step, Option.map_eq_some_iff] at h
  obtain ⟨store, hp, rfl⟩ := h
  unfold publish at hp
  simp only [filterMap_prepare] at hp
  split_ifs at hp with hcond
  obtain rfl := Option.some.inj hp
  simp only [not_or, String.isEmpty_iff] at hcond
  exact ⟨hcond.1, hcond.2.1, _, rfl, rfl⟩

/-- **What is published can be answered exactly if the answers are still options.** -/
theorem answerable_step {s t : State} {a : Action} (h : step s a = some t) :
    Answerable s a t ↔ Chosen s a := by
  cases a with
  | start =>
    obtain ⟨htitle, htopic, exam, hactive, hquestions⟩ := active_of_start h
    constructor
    · intro hA _ _ q hq hcomplete
      have hmem : questionOf (trim s.topicText) q ∈ exam.questions := by
        rw [hquestions]
        exact List.mem_map_of_mem (List.mem_filter.mpr ⟨hq, by simpa using hcomplete⟩)
      exact ((valid_questionOf _ q).mp ((hA exam hactive).1 _ hmem)).2
    · intro hC exam' hexam'
      rw [hactive] at hexam'
      obtain rfl := Option.some.inj hexam'
      have hanswer := hC htitle htopic
      refine ⟨fun q hq => ?_, ?_⟩
      · rw [hquestions] at hq
        obtain ⟨f, hf, rfl⟩ := List.mem_map.mp hq
        obtain ⟨hmem, hcomplete⟩ := List.mem_filter.mp hf
        have hcomplete : IsComplete f := by simpa using hcomplete
        exact (valid_questionOf _ f).mpr ⟨hcomplete, hanswer f hmem hcomplete⟩
      · rw [hquestions, List.filter_map]
        refine congrArg (List.map _) (List.filter_congr fun q hq => ?_)
        rw [Function.comp_apply, decide_eq_decide, valid_questionOf]
        exact ⟨fun hcomplete => ⟨hcomplete, hanswer q hq hcomplete⟩, And.left⟩
  | _ => exact ⟨fun _ => trivial, fun _ => trivial⟩

/-- **A published exam has no unanswerable question, in every run, exactly if at every press of
`Sınavı Başlat` the answer of each complete form is still one of its options.** -/
theorem answerable_iff (store : Store) (as : List Action) :
    EachStep step Answerable (opened store) as ↔ Along step Chosen (opened store) as := by
  have hiff : ∀ s a t, True → step s a = some t → (Answerable s a t ↔ Chosen s a) :=
    fun _ _ _ _ h => answerable_step h
  exact eachStep_iff_along (J := fun _ => True) (fun _ _ _ _ _ _ => trivial) hiff trivial

/-! ### Answers that are typed over -/

/-- The chosen answer is one of the options. -/
def Kept (q : QuestionForm) : Prop := q.correctAnswer = "" ∨ q.correctAnswer ∈ optionTexts q

/-- An option is typed such that the chosen answer stays one of the options. -/
def Keeps (s : State) : Action → Prop
  | .typeOption i j text => ∀ q ∈ s.questions[i]?,
      Kept { q with options := Function.update q.options j text }
  | _ => True

/-- Only typing an option over takes the chosen answer from the options. -/
theorem kept_step {s t : State} {a : Action} (hs : ∀ q ∈ s.questions, Kept q) (ha : Keeps s a)
    (h : step s a = some t) : ∀ q ∈ t.questions, Kept q := by
  have hnew : Kept newForm := Or.inl rfl
  cases a with
  | typeTitle text | typeTopic text | remove | wait seconds =>
    obtain rfl := Option.some.inj h
    exact hs
  | addForm =>
    obtain rfl := Option.some.inj h
    exact Calls.forall_mem_concat hs hnew
  | removeForm i =>
    simp only [step, Option.ite_none_right_eq_some, Option.some.injEq] at h
    obtain ⟨-, rfl⟩ := h
    exact Calls.forall_mem_eraseIdx hs
  | typeQuestion i text =>
    obtain ⟨q, hq, rfl⟩ := Option.map_eq_some_iff.mp h
    exact Calls.forall_mem_set hs (hs q (List.mem_of_getElem? hq))
  | typeOption i j text =>
    obtain ⟨q, hq, rfl⟩ := Option.map_eq_some_iff.mp h
    exact Calls.forall_mem_set hs (ha q hq)
  | chooseAnswer i answer =>
    obtain ⟨q, hq, h⟩ := Option.bind_eq_some_iff.mp h
    simp only [Option.ite_none_right_eq_some, Option.some.injEq] at h
    obtain ⟨hanswer, rfl⟩ := h
    exact Calls.forall_mem_set hs (Or.inr (List.mem_of_mem_filter hanswer))
  | start =>
    rw [step, Option.map_eq_some_iff] at h
    obtain ⟨store, -, rfl⟩ := h
    exact hs
  | written =>
    simp only [step, Option.ite_none_right_eq_some, Option.some.injEq] at h
    obtain ⟨-, rfl⟩ := h
    exact fun q hq => List.mem_singleton.mp hq ▸ hnew
  | fails =>
    simp only [step, Option.ite_none_right_eq_some, Option.some.injEq] at h
    obtain ⟨-, rfl⟩ := h
    exact hs

/-- **If no chosen answer is typed over, every published exam can be answered.** -/
theorem answerable_of_keeps (store : Store) {as : List Action}
    (h : Along step Keeps (opened store) as) : EachStep step Answerable (opened store) as :=
  eachStep_of_along (J := fun s => ∀ q ∈ s.questions, Kept q)
    (fun s a t hs ha hstep => ⟨kept_step hs ha hstep, (answerable_step hstep).mpr (by
      cases a with
      | start => exact fun _ _ q hq hcomplete => (hs q hq).resolve_left hcomplete.2.2
      | _ => trivial)⟩)
    (fun q hq => List.mem_singleton.mp hq ▸ Or.inl rfl) h

/-! ### An answer that is typed over -/

/-- An empty database. -/
def noExam : Store :=
  { active := none, results := LinkedMap.empty, now := 0, published := 0, finished := [] }

/-- **The published question has no right option.** -/
theorem typedOver_not_answerable :
    ¬ EachStep step Answerable (opened noExam)
      [.typeTitle "Deneme 1", .typeTopic "Matematik", .typeQuestion 0 "2 + 2 = ?",
        .typeOption 0 0 "4", .typeOption 0 1 "5", .typeOption 0 2 "6", .typeOption 0 3 "7",
        .chooseAnswer 0 "4", .typeOption 0 0 "dört", .start] := by
  rintro ⟨-, -, -, -, -, -, -, -, -, hwritten, -⟩
  exact absurd ((hwritten _ rfl).1 _ (List.mem_singleton_self _)).answer (by decide)

end KamuSinavi.PracticeExam.Form
