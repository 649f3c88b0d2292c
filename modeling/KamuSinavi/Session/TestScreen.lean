import KamuSinavi.Lib.Runs
import KamuSinavi.History.Service

/-! # A test session

`TestScreen` (`pages/test_screen.dart`) with the `ResultScreen`s pushed over it
(`pages/result_screen.dart`). The session ends at the first `_navigateToResultScreen`, called by the
button or by the timer. A `ResultScreen` gets the answer map by reference and saves the test whenever
it is built; the framework builds it when it is first drawn and whenever it draws it again.

Until a `ResultScreen` is drawn `TestScreen` takes taps; a system back takes off the topmost
`ResultScreen`, and the timer runs on below.

`OneRecord` says that the session has added at most one entry to the history, with the answers the
session ended with. `oneRecord_iff` says that this is so in every state of a session exactly if a
result is drawn once, with the answers as they were at the end. -/

namespace KamuSinavi.Session

open KamuSinavi.Lib KamuSinavi.Lib.Runs KamuSinavi.Lib.Dart KamuSinavi.Models KamuSinavi.History

/-- The arguments of `TestScreen`; the questions come from separate documents. -/
structure TestScreen where
  testData : List QuestionObj
  testName : String
  isTimerEnabled : Bool
  testDuration : ℕ
  distinct : (testData.map QuestionObj.ref).Nodup

/-- `drawn` of a `ResultScreen`: it has been built at least once. -/
structure ResultScreen where
  drawn : Bool
  deriving DecidableEq

/-- A session. `test` holds the shuffled questions and the selected answers, `results` the
`ResultScreen`s above the test, the topmost first, and `opened` is false once the session has been
left. `endedWith` are the answers at the end of the session and `builds` counts the builds of
`ResultScreen`s; the code has neither. -/
structure State where
  test : FinishedTest
  timer : Bool
  remainingTime : ℕ
  results : List ResultScreen
  opened : Bool
  service : Service
  endedWith : Option (LinkedMap QuestionObj String)
  builds : ℕ

/-- `selectedAnswers[question] = option`. -/
def select (t : FinishedTest) (question : QuestionObj) (h : question ∈ t.questions)
    (option : String) : FinishedTest where
  testName := t.testName
  questions := t.questions
  selectedAnswers := t.selectedAnswers.set question option
  distinct := t.distinct
  selected_sub q hq := by
    rcases LinkedMap.mem_keys_set.mp hq with rfl | hq
    · exact h
    · exact t.selected_sub q hq

/-- The results of `getRandomQuestions(testData, testData.length)`. -/
def RandomQuestions (w : TestScreen) : Type := { qs : List QuestionObj // qs.Perm w.testData }

def initState (w : TestScreen) (shuffledQuestions : RandomQuestions w) (service : Service) : State where
  test :=
    { testName := w.testName
      questions := shuffledQuestions.1
      selectedAnswers := LinkedMap.empty
      distinct := (shuffledQuestions.2.map QuestionObj.ref).nodup_iff.mpr w.distinct
      selected_sub := fun _ h => absurd h List.not_mem_nil }
  timer := w.isTimerEnabled
  remainingTime := if w.isTimerEnabled then w.testDuration * 60 else 0
  results := []
  opened := true
  service := service
  endedWith := none
  builds := 0

def navigateToResultScreen (s : State) : State :=
  { s with
    results := { drawn := false } :: s.results
    endedWith := s.endedWith.or (some s.test.selectedAnswers) }

inductive Step where
  | tick
  | tapOption (question : QuestionObj) (option : String)
  | tapFinish
  | build (index : ℕ) (date : DateTime)
  | back
  | tapHome

/-- `TestScreen` takes taps. -/
def onTop (s : State) : Bool := s.opened && s.results.all fun r => !r.drawn

variable (C : Convert)

def step (s : State) : Step → Option State
  | .tick =>
    if s.timer then
      if 0 < s.remainingTime then some { s with remainingTime := s.remainingTime - 1 }
      else some (navigateToResultScreen { s with timer := false })
    else none
  | .tapOption question option =>
    if h : question ∈ s.test.questions then
      if onTop s ∧ option ∈ question.options then
        some { s with test := select s.test question h option }
      else none
    else none
  | .tapFinish =>
    if onTop s ∧ s.test.selectedAnswers.length = s.test.questions.length then
      some (navigateToResultScreen s)
    else none
  | .build index date =>
    if index < s.results.length then
      some { s with
        results := s.results.set index { drawn := true }
        service := s.service.saveTestResult C s.test date
        builds := s.builds + 1 }
    else none
  | .back =>
    match s.results with
    | _ :: rs => some { s with results := rs }
    | [] => if s.opened then some { s with timer := false, opened := false } else none
  -- the button leads to the home page and takes every page below off
  | .tapHome =>
    match s.results with
    | { drawn := true } :: _ => some { s with results := [], timer := false, opened := false }
    | _ => none

/-- **One attempt, one record**: the history is the one before the session, or has one more entry, with
the answers the session ended with. -/
def OneRecord (before : List TestResult) (s : State) : Prop :=
  s.service.testResults = before ∨
    ∃ answers r, s.endedWith = some answers ∧ s.service.testResults = before ++ [r] ∧
      r.selectedAnswers = answers.mapKeys fun q => q.key C

/-- A `ResultScreen` is built if none was, and while the answers are those of the end. -/
def BuiltOnce (s : State) : Step → Prop
  | .build _ _ => s.builds = 0 ∧ ∃ answers, s.endedWith = some answers ∧
      (s.test.selectedAnswers.mapKeys fun q => q.key C) = answers.mapKeys fun q => q.key C
  | _ => True

variable {C}

theorem OneRecord.length_le {before : List TestResult} {s : State} (h : OneRecord C before s) :
    s.service.testResults.length ≤ before.length + 1 := by
  rcases h with h | ⟨answers, r, -, h, -⟩
  · rw [h]; exact Nat.le_succ _
  · rw [h, List.length_append, List.length_singleton]

/-- Before the first build the history is the one before the session, after it it is longer. -/
structure Inv (before : List TestResult) (s : State) : Prop where
  unbuilt : s.builds = 0 → s.service.testResults = before
  built : s.builds ≠ 0 → before.length < s.service.testResults.length

theorem inv_initState (w : TestScreen) (qs : RandomQuestions w) (service : Service) :
    Inv service.testResults (initState w qs service) :=
  ⟨fun _ => rfl, fun h => absurd rfl h⟩

/-- What a step makes of the state, and when. -/
inductive Steps (C : Convert) (s : State) : Step → State → Prop
  | ticked (ht : s.timer = true) (hr : 0 < s.remainingTime) :
      Steps C s .tick { s with remainingTime := s.remainingTime - 1 }
  | timedOut (ht : s.timer = true) (hr : ¬ 0 < s.remainingTime) :
      Steps C s .tick (navigateToResultScreen { s with timer := false })
  | selected {question : QuestionObj} {option : String} (hq : question ∈ s.test.questions)
      (hon : onTop s ∧ option ∈ question.options) :
      Steps C s (.tapOption question option) { s with test := select s.test question hq option }
  | finished (hon : onTop s ∧ s.test.selectedAnswers.length = s.test.questions.length) :
      Steps C s .tapFinish (navigateToResultScreen s)
  | built {index : ℕ} {date : DateTime} (hi : index < s.results.length) :
      Steps C s (.build index date) { s with
        results := s.results.set index { drawn := true }
        service := s.service.saveTestResult C s.test date
        builds := s.builds + 1 }
  | popped {r : ResultScreen} {rs : List ResultScreen} (hr : s.results = r :: rs) :
      Steps C s .back { s with results := rs }
  | closed (hr : s.results = []) (ho : s.opened = true) :
      Steps C s .back { s with timer := false, opened := false }
  | wentHome {rs : List ResultScreen} (hr : s.results = { drawn := true } :: rs) :
      Steps C s .tapHome { s with results := [], timer := false, opened := false }

theorem steps_of_step {s t : State} {a : Step} (h : step C s a = some t) : Steps C s a t := by
  cases a with
  | tick =>
    simp only [step, Option.ite_none_right_eq_some] at h
    obtain ⟨ht, h⟩ := h
    split_ifs at h with hr
    · obtain rfl := Option.some.inj h
      exact .ticked ht hr
    · obtain rfl := Option.some.inj h
      exact .timedOut ht hr
  | tapOption question option =>
    simp only [step] at h
    split_ifs at h with hq hon
    obtain rfl := Option.some.inj h
    exact .selected hq hon
  | tapFinish =>
    simp only [step, Option.ite_none_right_eq_some, Option.some.injEq] at h
    obtain ⟨hon, rfl⟩ := h
    exact .finished hon
  | build index date =>
    simp only [step, Option.ite_none_right_eq_some, Option.some.injEq] at h
    obtain ⟨hi, rfl⟩ := h
    exact .built hi
  | back =>
    simp only [step] at h
    split at h
    · rename_i hr
      obtain rfl := Option.some.inj h
      exact .popped hr
    · rename_i hr
      split_ifs at h with ho
      obtain rfl := Option.some.inj h
      exact .closed hr ho
  | tapHome =>
    simp only [step] at h
    split at h
    · rename_i hr
      obtain rfl := Option.some.inj h
      exact .wentHome hr
    · cases h

/-- **What a step does to the history**: all but a build leave it alone and do not change an end that
has come. -/
theorem step_frame {s s' : State} {a : Step} (h : step C s a = some s') :
    (∃ index date, a = .build index date ∧ s'.builds = s.builds + 1 ∧
      s'.service = s.service.saveTestResult C s.test date ∧ s'.endedWith = s.endedWith) ∨
    (∀ index date, a ≠ .build index date) ∧ s'.builds = s.builds ∧ s'.service = s.service ∧
      (s'.endedWith = s.endedWith ∨ s.endedWith = none) := by
  have hend : ∀ o : Option (LinkedMap QuestionObj String), ∀ m, o.or (some m) = o ∨ o = none := by
    intro o m
    cases o with
    | none => exact Or.inr rfl
    | some e => exact Or.inl rfl
  cases steps_of_step h with
  | built hi => exact Or.inl ⟨_, _, rfl, rfl, rfl, rfl⟩
  | ticked | selected | popped | closed | wentHome =>
    exact Or.inr ⟨fun _ _ he => (by cases he), rfl, rfl, Or.inl rfl⟩
  | timedOut | finished => exact Or.inr ⟨fun _ _ he => (by cases he), rfl, rfl, hend _ _⟩

/-- **A step replaces the answers by a tap on an option, or leaves the test alone.** -/
theorem test_step {s t : State} {a : Step} (h : step C s a = some t) :
    (∃ question option, ∃ hq : question ∈ s.test.questions, a = .tapOption question option ∧
      option ∈ question.options ∧ t.test = select s.test question hq option) ∨
    t.test = s.test := by
  cases steps_of_step h with
  | selected hq hon => exact Or.inl ⟨_, _, hq, rfl, hon.2, rfl⟩
  | ticked | timedOut | finished | built | popped | closed | wentHome => exact Or.inr rfl

theorem inv_step {before : List TestResult} {s s' : State} {a : Step} (hI : Inv before s)
    (h : step C s a = some s') : Inv before s' := by
  rcases step_frame h with ⟨index, date, -, hb, hsv, -⟩ | ⟨-, hb, hsv, -⟩
  · have hlen : before.length ≤ s.service.testResults.length := by
      by_cases h0 : s.builds = 0
      · rw [hI.unbuilt h0]
      · exact (hI.built h0).le
    refine ⟨fun h0 => by omega, fun _ => ?_⟩
    rw [hsv, Service.saveTestResult_testResults, List.length_append, List.length_singleton]
    omega
  · exact ⟨fun h0 => hsv ▸ hI.unbuilt (hb ▸ h0), fun h0 => hsv ▸ hI.built (hb ▸ h0)⟩

/-- **A step keeps the one record exactly if it builds once.** -/
theorem oneRecord_step {before : List TestResult} {s s' : State} {a : Step} (hI : Inv before s)
    (hP : OneRecord C before s) (h : step C s a = some s') :
    OneRecord C before s' ↔ BuiltOnce C s a := by
  rcases step_frame h with ⟨index, date, rfl, hb, hsv, hend⟩ | ⟨hne, hb, hsv, hend⟩
  · have hres : s'.service.testResults =
        s.service.testResults ++ [Service.newResult C s.test date] := by
      rw [hsv, Service.saveTestResult_testResults]
    by_cases h0 : s.builds = 0
    · unfold OneRecord BuiltOnce
      rw [hres, hend, hI.unbuilt h0, and_iff_right h0]
      constructor
      · rintro (hnil | ⟨answers, r, he, hr, hans⟩)
        · exact absurd (List.append_right_eq_self.mp hnil) (List.cons_ne_nil _ _)
        · obtain rfl := List.singleton_injective (List.append_cancel_left hr)
          exact ⟨answers, he, hans⟩
      · rintro ⟨answers, he, hans⟩
        exact Or.inr ⟨answers, _, he, rfl, hans⟩
    · have hlen := hI.built h0
      refine ⟨fun hP' => ?_, fun hc => absurd hc.1 h0⟩
      have hle := hP'.length_le
      rw [hres, List.length_append, List.length_singleton] at hle
      omega
  · have hB : BuiltOnce C s a := by
      cases a with
      | build index date => exact absurd rfl (hne index date)
      | tick | tapOption | tapFinish | back | tapHome => trivial
    refine ⟨fun _ => hB, fun _ => ?_⟩
    rcases hP with hP | ⟨answers, r, he, hr, hans⟩
    · exact Or.inl (hsv ▸ hP)
    · refine Or.inr ⟨answers, r, ?_, hsv ▸ hr, hans⟩
      rcases hend with hend | hnone
      · rw [hend, he]
      · rw [he] at hnone; cases hnone

/-- **In every state of a session there is one record at most, of the answers at its end, exactly if
one build of a `ResultScreen` takes place, with those answers.** -/
theorem oneRecord_iff (w : TestScreen) (qs : RandomQuestions w) (service : Service)
    (steps : List Step) :
    Always (step C) (OneRecord C service.testResults) (initState w qs service) steps ↔
      Along (step C) (BuiltOnce C) (initState w qs service) steps :=
  always_iff_along (J := Inv service.testResults)
    (fun _ _ _ hI _ h _ => inv_step hI h) (fun _ _ _ hI hP h => oneRecord_step hI hP h)
    (inv_initState w qs service) (Or.inl rfl)

/-! ### A result that is drawn again -/

def sum : QuestionObj :=
  { question := "2 + 2 = ?", options := ["4", "5"], answer := "4", imagePath := none, ref := 0 }

def sumScreen : TestScreen where
  testData := [sum]
  testName := "Matematik"
  isTimerEnabled := false
  testDuration := 0
  distinct := by decide

/-- **A result that is drawn twice is recorded twice.** -/
theorem redraw_records_again :
    ¬ Always (step compact) (OneRecord compact []) (initState sumScreen ⟨[sum], List.Perm.refl _⟩
        { testResults := [], prefs := none })
      [.tapOption sum "4", .tapFinish, .build 0 .noon, .build 0 .noon] := by
  rintro ⟨-, -, -, -, hrec, -⟩
  have htwo : ∀ (sv : Service) (t t' : FinishedTest) (d d' : DateTime),
      ((sv.saveTestResult compact t d).saveTestResult compact t' d').testResults.length =
        sv.testResults.length + 2 := fun sv t t' d d' => by
    rw [Service.saveTestResult_testResults, Service.saveTestResult_testResults, List.length_append,
      List.length_append]; rfl
  exact absurd ((htwo _ _ _ _ _).ge.trans hrec.length_le) (by decide)

end KamuSinavi.Session
