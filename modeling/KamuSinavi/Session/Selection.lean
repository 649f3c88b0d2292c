import KamuSinavi.History.ResultScreen
import KamuSinavi.Lib.ListHeap
import KamuSinavi.Session.TestScreen

/-! # The questions of a test

From the questions that were loaded to those `TestScreen` presents: `_startTest`
(`pages/Kamu_sinavlari.dart`) and `_startCustomTest` (`pages/customTestPage.dart`) shuffle the list
they have loaded and take the first ones, and `initState` (`pages/test_screen.dart`) shuffles a copy of
these with `getRandomQuestions` (`test_data.dart`). The lists are objects of a heap, so that it can be
said which of them a step changes.

`presents` says that for all questions and all shuffles the presented list has the right length, holds
no question more often than the loaded list does, leaves `testData` alone, and is what is scored and
saved. -/

namespace KamuSinavi.Session.Selection

open KamuSinavi.Lib KamuSinavi.Lib.Runs KamuSinavi.Lib.Dart KamuSinavi.Models KamuSinavi.History
open KamuSinavi.Lib.ListHeap

abbrev Lists := ListHeap QuestionObj

/-- The objects of loaded questions; those of one load are told apart by their places. -/
def objects (qs : List Question) : List QuestionObj :=
  qs.zipIdx.map fun e => { e.1 with ref := e.2 }

/-- The arguments of `TestScreen`, with the list it is given by reference. -/
structure TestArgs where
  testData : ℕ
  testName : String
  isTimerEnabled : Bool
  testDuration : ℕ
  deriving DecidableEq

/-! ### The functions -/

/-- `getRandomQuestions`. -/
def getRandomQuestions (random : Shuffle QuestionObj) (questions count : ℕ) : StateM Lists ℕ := do
  let randomQuestions ← toList questions
  shuffle random randomQuestions
  takeToList randomQuestions count

/-- The list `initState` of `TestScreen` makes. -/
def shuffledQuestions (random : Shuffle QuestionObj) (testData : ℕ) : StateM Lists ℕ := do
  getRandomQuestions random testData (← lengthOf testData)

/-- How the two pages open a test on the questions they have loaded, or show that there are none. -/
def openTest (pool : List Question) (count : ℕ) (testName : String) (isTimerEnabled : Bool)
    (testDuration : ℕ) (empty : String) (random : Shuffle QuestionObj) :
    StateM Lists (Except String TestArgs) := do
  if pool.isEmpty then
    return .error empty
  let allQuestions ← new (objects pool)
  shuffle random allQuestions
  let testData ← takeToList allQuestions count
  return .ok { testData, testName, isTimerEnabled, testDuration }

/-- The questions `_startTest` loads, from the collection or, if there are none, from what has been
downloaded; `none` if it throws. -/
def loadQuestions (C : Convert) (isConnected : Bool) (snapshot : Option (List Json))
    (offlineData : Option (List String)) : Option (List Question) :=
  let allQuestions :=
    if isConnected then (snapshot.bind fun docs => docs.mapM Question.fromJson).getD [] else []
  if allQuestions.isEmpty then
    (offlineData.getD []).mapM fun e => (C.jsonDecode e).bind Question.fromJson
  else some allQuestions

/-- What is chosen on the page before a test is started. -/
structure Settings where
  selectedQuestionCount : ℕ
  isTimerEnabled : Bool
  testDuration : ℕ

/-- `_startTest`; `none` if it throws. -/
def startTest (C : Convert) (settings : Settings) (topicName : String) (isConnected : Bool)
    (snapshot : Option (List Json)) (offlineData : Option (List String))
    (random : Shuffle QuestionObj) : StateM Lists (Option (Except String TestArgs)) :=
  match loadQuestions C isConnected snapshot offlineData with
  | none => return none
  | some pool => some <$> openTest pool settings.selectedQuestionCount topicName
      settings.isTimerEnabled (if settings.isTimerEnabled then settings.testDuration else 0)
      "Bu konuda çevrimdışı soru bulunamadı." random

/-- `_startCustomTest` after its loop. -/
def startCustomTest (selectedQuestionCount selectedDuration : ℕ) (allQuestions : List Question)
    (random : Shuffle QuestionObj) : StateM Lists (Except String TestArgs) :=
  openTest allQuestions selectedQuestionCount "Özel Test" true selectedDuration
    "Seçilen konularda soru bulunamadı." random

/-! ### What they make of a list -/

theorem map_ref_objects (qs : List Question) :
    (objects qs).map QuestionObj.ref = List.range' 0 qs.length := by
  rw [objects, List.map_map]
  exact List.zipIdx_map_snd ..

/-- The objects are distinct. -/
theorem nodup_objects (qs : List Question) : ((objects qs).map QuestionObj.ref).Nodup := by
  rw [map_ref_objects]
  exact List.nodup_range'

theorem length_objects (qs : List Question) : (objects qs).length = qs.length := by
  rw [objects, List.length_map, List.length_zipIdx]

/-- The first items of a shuffled list are items of the list. -/
theorem subperm_take_shuffle {α : Type*} (random : Shuffle α) (l : List α) (count : ℕ) :
    ((random.apply l).take count).Subperm l :=
  (List.take_sublist _ _).subperm.trans (random.perm l).subperm

theorem length_take_shuffle {α : Type*} (random : Shuffle α) (l : List α) (count : ℕ) :
    ((random.apply l).take count).length = min count l.length := by
  rw [List.length_take, (random.perm l).length_eq]

/-- The first of the shuffled objects are distinct. -/
theorem nodup_take_shuffle (random : Shuffle QuestionObj) (qs : List Question) (count : ℕ) :
    (((random.apply (objects qs)).take count).map QuestionObj.ref).Nodup := by
  have hnodup := ((random.perm (objects qs)).map QuestionObj.ref).nodup_iff.mpr (nodup_objects qs)
  exact hnodup.sublist ((List.take_sublist _ _).map _)

/-- A list shuffled as a whole. -/
theorem take_length_shuffle {α : Type*} (random : Shuffle α) (l : List α) :
    (random.apply l).take l.length = random.apply l :=
  List.take_of_length_le (random.perm l).length_eq.le

/-! ### From the loaded questions to the presented ones -/

/-- **A test is opened on loaded questions** in two ways. -/
inductive Starts (C : Convert) (pool : List Question) (random : Shuffle QuestionObj) :
    ℕ → StateM Lists (Option (Except String TestArgs)) → Prop
  | startTest (settings : Settings) (topicName : String) {isConnected : Bool}
    {snapshot : Option (List Json)} {offlineData : Option (List String)}
    (hload : loadQuestions C isConnected snapshot offlineData = some pool) :
    Starts C pool random settings.selectedQuestionCount
      (startTest C settings topicName isConnected snapshot offlineData random)
  | startCustomTest (selectedQuestionCount selectedDuration : ℕ) :
    Starts C pool random selectedQuestionCount
      (some <$> startCustomTest selectedQuestionCount selectedDuration pool random)

/-- The session that begins with these arguments, `testData` and `_shuffledQuestions` being what the
heaps hold. -/
structure Begins (args : TestArgs) (h h' : Lists) (shuffled : ℕ) (w : TestScreen)
    (qs : RandomQuestions w) : Prop where
  testData : w.testData = h.read args.testData
  testName : w.testName = args.testName
  isTimerEnabled : w.isTimerEnabled = args.isTimerEnabled
  testDuration : w.testDuration = args.testDuration
  questions : qs.1 = h'.read shuffled

/-- A build of a result saves a record of the presented questions, with their score; nothing else saves
one. -/
def Saves (C : Convert) (presented : List QuestionObj) (s : State) (a : Step) (t : State) : Prop :=
  match a with
  | .build _ date => t.service.testResults = s.service.testResults ++
      [({ testName := s.test.testName
          questions := presented
          selectedAnswers := s.test.selectedAnswers
          date := date } : ResultScreen.Save).result C]
  | .tick | .tapOption .. | .tapFinish | .back | .tapHome => t.service = s.service

/-- **`TestScreen` presents a selection of the loaded questions**: it has the right length, holds no
question more often than they do, leaves `testData` alone, and is what is scored and saved. -/
structure Presents (C : Convert) (pool : List Question) (count : ℕ) (args : TestArgs)
    (h h' : Lists) (shuffled : ℕ) : Prop where
  length : (h'.read shuffled).length = min count pool.length
  count_le : ∀ q, (h'.read shuffled).count q ≤ (objects pool).count q
  unchanged : h'.read args.testData = h.read args.testData
  saved : ∃ w qs, Begins args h h' shuffled w qs ∧
    ∀ service steps, EachStep (step C) (Saves C (h'.read shuffled)) (initState w qs service) steps

/-- What opening a test leaves. -/
theorem openTest_draws {pool : List Question} (hpool : pool ≠ []) (count : ℕ) (testName : String)
    (isTimerEnabled : Bool) (testDuration : ℕ) (empty : String) (random : Shuffle QuestionObj)
    (h : Lists) :
    ∃ args h', openTest pool count testName isTimerEnabled testDuration empty random h =
        (.ok args, h') ∧ Draws h ((random.apply (objects pool)).take count) args.testData h' := by
  have hne : pool.isEmpty = false := List.isEmpty_eq_false_iff.mpr hpool
  refine ⟨{ testData := _, testName := testName, isTimerEnabled := isTimerEnabled,
            testDuration := testDuration }, _, ?_, draws random (objects pool) count h⟩
  rw [openTest, hne]
  rfl

/-- Either way the test is opened on the first of the shuffled questions. -/
theorem draws_of_starts {C : Convert} {pool : List Question} (hpool : pool ≠ [])
    {random : Shuffle QuestionObj} {count : ℕ} {start : StateM Lists (Option (Except String TestArgs))}
    (hs : Starts C pool random count start) (h : Lists) :
    ∃ args h', start h = (some (.ok args), h') ∧
      Draws h ((random.apply (objects pool)).take count) args.testData h' := by
  have hmap : ∀ {open' : StateM Lists (Except String TestArgs)} {args : TestArgs} {h' : Lists},
      open' h = (.ok args, h') → (some <$> open') h = (some (.ok args), h') := fun heq =>
    congrArg (fun x : Except String TestArgs × Lists => (some x.1, x.2)) heq
  cases hs with
  | startTest settings topicName hload =>
    obtain ⟨args, h', heq, hd⟩ := openTest_draws hpool settings.selectedQuestionCount topicName
      settings.isTimerEnabled (if settings.isTimerEnabled then settings.testDuration else 0)
      "Bu konuda çevrimdışı soru bulunamadı." random h
    rw [startTest, hload]
    exact ⟨args, h', hmap heq, hd⟩
  | startCustomTest selectedQuestionCount selectedDuration =>
    obtain ⟨args, h', heq, hd⟩ := openTest_draws hpool count "Özel Test" true selectedDuration
      "Seçilen konularda soru bulunamadı." random h
    exact ⟨args, h', hmap heq, hd⟩

/-- What `initState` leaves. -/
theorem shuffledQuestions_draws (random : Shuffle QuestionObj) (testData : ℕ) (h : Lists) :
    Draws h ((random.apply (h.read testData)).take (h.read testData).length)
      (shuffledQuestions random testData h).1 (shuffledQuestions random testData h).2 :=
  draws random (h.read testData) (h.read testData).length h

/-- **A session saves its questions**, whatever happens in it. -/
theorem saves_questions {C : Convert} (w : TestScreen) (qs : RandomQuestions w) (service : Service)
    (steps : List Step) : EachStep (step C) (Saves C qs.1) (initState w qs service) steps := by
  refine eachStep_of_keeps (J := fun s => s.test.questions = qs.1) (fun s a t hI h => ⟨?_, ?_⟩) steps rfl
  · rcases test_step h with ⟨question, option, hq, -, -, ht⟩ | ht
    · rw [ht]; exact hI
    · rw [ht]; exact hI
  · rcases step_frame h with ⟨index, date, rfl, -, hsv, -⟩ | ⟨hne, -, hsv, -⟩
    · unfold Saves
      simp only
      rw [hsv, Service.saveTestResult_testResults, ResultScreen.newResult_eq, ResultScreen.Save.ofTest,
        hI]
    · cases a with
      | build index date => exact absurd rfl (hne index date)
      | tick | tapOption | tapFinish | back | tapHome => exact hsv

/-- **Question selection neither loses nor repeats questions**, for all loaded questions, counts and
shuffles. -/
theorem presents {C : Convert} {pool : List Question} (hpool : pool ≠ [])
    {random : Shuffle QuestionObj} {count : ℕ} {start : StateM Lists (Option (Except String TestArgs))}
    (hs : Starts C pool random count start) (h : Lists) (random' : Shuffle QuestionObj) :
    ∃ args h', start h = (some (.ok args), h') ∧
      Presents C pool count args h' (shuffledQuestions random' args.testData h').2
        (shuffledQuestions random' args.testData h').1 := by
  obtain ⟨args, h', heq, hd⟩ := draws_of_starts hpool hs h
  have hd' := shuffledQuestions_draws random' args.testData h'
  have hread := hd'.read_eq
  rw [take_length_shuffle] at hread
  have hperm : ((shuffledQuestions random' args.testData h').2.read
      (shuffledQuestions random' args.testData h').1).Perm (h'.read args.testData) := by
    rw [hread]; exact random'.perm _
  have hsub : (h'.read args.testData).Subperm (objects pool) := by
    rw [hd.read_eq]; exact subperm_take_shuffle random _ count
  have hdistinct : ((h'.read args.testData).map QuestionObj.ref).Nodup := by
    rw [hd.read_eq]; exact nodup_take_shuffle random pool count
  let w : TestScreen :=
    { testData := h'.read args.testData
      testName := args.testName
      isTimerEnabled := args.isTimerEnabled
      testDuration := args.testDuration
      distinct := hdistinct }
  refine ⟨args, h', heq, ?_, fun q => (hperm.subperm.trans hsub).count_le q,
    hd'.frame _ hd.valid, w, ⟨_, hperm⟩, ⟨rfl, rfl, rfl, rfl, rfl⟩, saves_questions w ⟨_, hperm⟩⟩
  rw [hperm.length_eq, hd.read_eq, length_take_shuffle, length_objects]

/-- The list the other way round. -/
def reversed : Shuffle QuestionObj := ⟨List.reverse, List.reverse_perm⟩

/-- Two questions with one content. -/
def sums : List Question :=
  [{ question := "2 + 2 = ?", options := ["4", "5"], answer := "4", imagePath := none },
    { question := "2 + 2 = ?", options := ["4", "5"], answer := "4", imagePath := none }]

theorem presents_sums : ∃ args h',
    (some <$> startCustomTest 10 15 sums reversed) [] = (some (.ok args), h') ∧
      Presents compact sums 10 args h' (shuffledQuestions reversed args.testData h').2
        (shuffledQuestions reversed args.testData h').1 :=
  presents (List.cons_ne_nil _ _) (.startCustomTest 10 15) [] reversed

end KamuSinavi.Session.Selection
