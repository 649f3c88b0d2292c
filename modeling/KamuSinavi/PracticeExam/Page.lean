import KamuSinavi.Lib.Calls
import KamuSinavi.Lib.Runs
import KamuSinavi.PracticeExam.Store

/-! # The pages of the practice exam

Any number of `DenemeSinaviPage`s of any users, over one store (`pages/denemeSinaviPage.dart`).
`loadExam` and `finishTest` suspend at each call of the database; an action lets one of them go on to
its next suspension, or fail there. Several calls of `finishTest` can run in one page, and a call runs
on when its page is gone, until it calls `setState`.

A finished test replaces its page by a new one; the old page is disposed of later. -/

namespace KamuSinavi.PracticeExam

open KamuSinavi.Lib KamuSinavi.Lib.Runs KamuSinavi.Lib.Dart

/-- Where `loadExam` is suspended. -/
inductive Load where
  | fetchActiveExam
  | fetchResults (data : Option Exam)
  | fetchOwn (data : Option Exam)
  deriving DecidableEq

/-- The state of a page. `expired` is `isExpired` when the page was last built, `loading` where its
`loadExam` is suspended. -/
structure Page where
  user : Option User
  examData : Option Exam
  selectedAnswers : LinkedMap ℕ String
  isLoading : Bool
  selectedTopic : Option String
  showResult : Bool
  score : ℕ
  sortedResults : List ResultDoc
  hasUserTakenExam : Bool
  endTime : Option ℕ
  expired : Bool
  loading : Option Load
  onScreen : Bool
  mounted : Bool
  deriving DecidableEq

/-- `initState`. -/
def newPage (user : Option User) : Page where
  user := user
  examData := none
  selectedAnswers := LinkedMap.empty
  isLoading := true
  selectedTopic := none
  showResult := false
  score := 0
  sortedResults := []
  hasUserTakenExam := false
  endTime := none
  expired := false
  loading := some .fetchActiveExam
  onScreen := true
  mounted := true

/-- Where a call of `finishTest` is suspended: reading the full name, at its write, and reading the
results. -/
inductive Finish where
  | getUserFullName (user : User)
  | write (uid : String) (data : ResultData)
  | fetchResults
  deriving DecidableEq

/-- A running `finishTest` of a page. -/
structure FinishCall where
  page : ℕ
  pc : Finish
  deriving DecidableEq

structure State where
  store : Store
  pages : List Page
  calls : List FinishCall
  deriving DecidableEq

inductive Action where
  | publish (titleText topicText : String) (questions : List QuestionForm)
  | remove
  | wait (seconds : ℕ)
  | openPage (user : Option User)
  | loadExam (page : ℕ)
  | loadFails (page : ℕ)
  | rebuild (page : ℕ)
  | chooseTopic (page : ℕ) (topic : String)
  | tapOption (page index : ℕ) (option : String)
  | tapFinish (page : ℕ)
  | finishTest (call : ℕ) (full_name : Option String)
  | finishFails (call : ℕ)
  | dispose (page : ℕ)

/-- `isExpired`. -/
def isExpired (now : ℕ) (p : Page) : Bool := p.endTime.any (· < now)

/-- The `setState` at the end of `loadExam`. -/
def loaded (now : ℕ) (p : Page) (data : Option Exam) : Page :=
  let p := { p with examData := data, isLoading := false, loading := none }
  { p with expired := isExpired now p }

/-- `loadExam`, from where it is suspended to its next suspension. In a page that is gone `setState`
throws. -/
def loadExam (s : Store) (p : Page) : Load → Page
  | .fetchActiveExam =>
    let data := fetchActiveExam s
    { p with
      endTime := data.elim p.endTime Exam.end_time
      loading := some (.fetchResults data) }
  | .fetchResults data =>
    if p.mounted then
      match p.user with
      | some _ => { p with sortedResults := fetchResults s, loading := some (.fetchOwn data) }
      | none => loaded s.now { p with sortedResults := fetchResults s } data
    else { p with loading := none }
  | .fetchOwn data =>
    let p := { p with hasUserTakenExam := p.user.any fun u => resultExists s u.uid }
    if p.mounted then loaded s.now p data else { p with loading := none }

def getSelectedQuestions (p : Page) : List ExamQuestion :=
  match p.selectedTopic, p.examData with
  | some topic, some examData => examData.questions.filter fun q => q.topic = some topic
  | _, _ => []

/-- The scoring loop of `finishTest`. -/
def scoreOf (questions : List ExamQuestion) (selectedAnswers : LinkedMap ℕ String) : ℕ :=
  questions.zipIdx.countP fun q => selectedAnswers.get? q.2 = some q.1.answer

/-- The topics the page offers. -/
def topics (p : Page) : List String :=
  p.examData.elim [] fun e => (e.questions.filterMap ExamQuestion.topic).eraseDups

/-- The page shows the topics or the questions of an exam. -/
def showsExam (p : Page) : Bool :=
  p.onScreen && !p.isLoading && p.examData.isSome && p.endTime.isSome

/-- What a call of `finishTest` in the page `p` writes. -/
def resultData (p : Page) (exam : Exam) (user : User) (full_name : Option String) : ResultData where
  score := p.score
  displayName := user.email.getD "User"
  full_name := full_name.getD "İsimsiz"
  answers := p.selectedAnswers.mapKeys toString
  exam := exam

/-- `Testi Bitir` can be pressed. -/
def finishEnabled (p : Page) : Bool :=
  showsExam p && p.selectedTopic.isSome &&
    p.selectedAnswers.length == (getSelectedQuestions p).length && !p.hasUserTakenExam

/-- The first suspension of a `finishTest` in the page `p`. -/
def firstSuspension (p : Page) : Finish :=
  match p.user with
  | some user => .getUserFullName user
  | none => .fetchResults

def setPage (s : State) (i : ℕ) (p : Page) : State := { s with pages := s.pages.set i p }

def setCall (s : State) (k : ℕ) (c : FinishCall) : State := { s with calls := s.calls.set k c }

def endCall (s : State) (k : ℕ) : State := { s with calls := s.calls.eraseIdx k }

/-- The page when `finishTest` has read the results. -/
def finishedPage (s : Store) (p : Page) : Page :=
  { p with
    sortedResults := fetchResults s
    showResult := true
    hasUserTakenExam := true
    onScreen := false }

/-- `finishTest`, from where the call `k` is suspended to its next suspension. -/
def finishTest (s : State) (k : ℕ) (c : FinishCall) (p : Page) (full_name : Option String) :
    Option State :=
  match c.pc with
  | .getUserFullName user =>
    p.examData.map fun exam =>
      setCall s k { c with pc := .write user.uid (resultData p exam user full_name) }
  | .write uid data =>
    some (setCall { s with store := setResult s.store uid data } k { c with pc := .fetchResults })
  | .fetchResults =>
    if p.mounted then
      let s := endCall (setPage s c.page (finishedPage s.store p)) k
      some { s with pages := s.pages ++ [newPage p.user] }
    else some (endCall s k)

def step (s : State) : Action → Option State
  | .publish titleText topicText questions =>
    (publish s.store titleText topicText questions).map fun store => { s with store := store }
  | .remove => some { s with store := remove s.store }
  | .wait seconds => some { s with store := { s.store with now := s.store.now + seconds } }
  | .openPage user => some { s with pages := s.pages ++ [newPage user] }
  | .loadExam i =>
    s.pages[i]?.bind fun p => p.loading.map fun pc => setPage s i (loadExam s.store p pc)
  | .loadFails i =>
    s.pages[i]?.bind fun p => p.loading.map fun _ => setPage s i { p with loading := none }
  | .rebuild i =>
    s.pages[i]?.bind fun p =>
      if p.mounted then some (setPage s i { p with expired := isExpired s.store.now p }) else none
  | .chooseTopic i topic =>
    s.pages[i]?.bind fun p =>
      if showsExam p ∧ p.selectedTopic = none ∧ p.expired = false ∧ topic ∈ topics p ∧
          p.hasUserTakenExam = false then
        some (setPage s i { p with
          selectedTopic := some topic
          selectedAnswers := LinkedMap.empty
          score := 0
          showResult := false })
      else none
  | .tapOption i index option =>
    s.pages[i]?.bind fun p =>
      if showsExam p ∧ ∃ q ∈ (getSelectedQuestions p)[index]?, option ∈ q.options then
        some (setPage s i { p with selectedAnswers := p.selectedAnswers.set index option })
      else none
  | .tapFinish i =>
    s.pages[i]?.bind fun p =>
      if finishEnabled p then
        some { setPage s i { p with score := scoreOf (getSelectedQuestions p) p.selectedAnswers } with
          calls := s.calls ++ [{ page := i, pc := firstSuspension p }] }
      else none
  | .finishTest k full_name =>
    s.calls[k]?.bind fun c => s.pages[c.page]?.bind fun p => finishTest s k c p full_name
  | .finishFails k => s.calls[k]?.map fun _ => endCall s k
  | .dispose i =>
    s.pages[i]?.map fun p => setPage s i { p with onScreen := false, mounted := false }

/-! ### What a step does -/

/-- **What a step makes of the state**, and when. -/
inductive Steps (s : State) : Action → State → Prop
  | published {title topic : String} {questions : List QuestionForm} {store : Store}
    (hs : publish s.store title topic questions = some store) :
    Steps s (.publish title topic questions) { s with store := store }
  | removed : Steps s .remove { s with store := remove s.store }
  | waited (seconds : ℕ) :
    Steps s (.wait seconds) { s with store := { s.store with now := s.store.now + seconds } }
  | opened (user : Option User) : Steps s (.openPage user) { s with pages := s.pages ++ [newPage user] }
  | resumed {i : ℕ} {p : Page} {pc : Load} (hp : s.pages[i]? = some p) (hpc : p.loading = some pc) :
    Steps s (.loadExam i) (setPage s i (loadExam s.store p pc))
  | loadFailed {i : ℕ} {p : Page} {pc : Load} (hp : s.pages[i]? = some p) (hpc : p.loading = some pc) :
    Steps s (.loadFails i) (setPage s i { p with loading := none })
  | rebuilt {i : ℕ} {p : Page} (hp : s.pages[i]? = some p) (hm : p.mounted = true) :
    Steps s (.rebuild i) (setPage s i { p with expired := isExpired s.store.now p })
  | topicChosen {i : ℕ} {p : Page} {topic : String} (hp : s.pages[i]? = some p)
    (hg : showsExam p ∧ p.selectedTopic = none ∧ p.expired = false ∧ topic ∈ topics p ∧
      p.hasUserTakenExam = false) :
    Steps s (.chooseTopic i topic) (setPage s i { p with
      selectedTopic := some topic
      selectedAnswers := LinkedMap.empty
      score := 0
      showResult := false })
  | optionTapped {i index : ℕ} {p : Page} {option : String} (hp : s.pages[i]? = some p)
    (hg : showsExam p ∧ ∃ q ∈ (getSelectedQuestions p)[index]?, option ∈ q.options) :
    Steps s (.tapOption i index option)
      (setPage s i { p with selectedAnswers := p.selectedAnswers.set index option })
  | finishTapped {i : ℕ} {p : Page} (hp : s.pages[i]? = some p) (hen : finishEnabled p = true) :
    Steps s (.tapFinish i)
      { setPage s i { p with score := scoreOf (getSelectedQuestions p) p.selectedAnswers } with
        calls := s.calls ++ [{ page := i, pc := firstSuspension p }] }
  | nameRead {k : ℕ} {c : FinishCall} {p : Page} {full_name : Option String} {user : User} {exam : Exam}
    (hc : s.calls[k]? = some c) (hp : s.pages[c.page]? = some p) (hpc : c.pc = .getUserFullName user)
    (hexam : p.examData = some exam) :
    Steps s (.finishTest k full_name)
      (setCall s k { c with pc := .write user.uid (resultData p exam user full_name) })
  | written {k : ℕ} {c : FinishCall} {full_name : Option String} {uid : String} {data : ResultData}
    (hc : s.calls[k]? = some c) (hpc : c.pc = .write uid data) :
    Steps s (.finishTest k full_name)
      (setCall { s with store := setResult s.store uid data } k { c with pc := .fetchResults })
  | finished {k : ℕ} {c : FinishCall} {p : Page} {full_name : Option String} (hc : s.calls[k]? = some c)
    (hp : s.pages[c.page]? = some p) (hpc : c.pc = .fetchResults) (hm : p.mounted = true) :
    Steps s (.finishTest k full_name)
      { endCall (setPage s c.page (finishedPage s.store p)) k with
        pages := s.pages.set c.page (finishedPage s.store p) ++ [newPage p.user] }
  | finishedGone {k : ℕ} {c : FinishCall} {full_name : Option String} (hc : s.calls[k]? = some c)
    (hpc : c.pc = .fetchResults) : Steps s (.finishTest k full_name) (endCall s k)
  | finishFailed {k : ℕ} {c : FinishCall} (hc : s.calls[k]? = some c) :
    Steps s (.finishFails k) (endCall s k)
  | disposed {i : ℕ} {p : Page} (hp : s.pages[i]? = some p) :
    Steps s (.dispose i) (setPage s i { p with onScreen := false, mounted := false })

/-- What `finishTest` does, by where it is suspended. -/
theorem steps_of_finishTest {s t : State} {k : ℕ} {c : FinishCall} {p : Page}
    {full_name : Option String} (hc : s.calls[k]? = some c) (hp : s.pages[c.page]? = some p)
    (h : finishTest s k c p full_name = some t) : Steps s (.finishTest k full_name) t := by
  unfold finishTest at h
  split at h
  · rename_i user hpc
    obtain ⟨exam, hexam, rfl⟩ := Option.map_eq_some_iff.mp h
    exact .nameRead hc hp hpc hexam
  · rename_i uid data hpc
    obtain rfl := Option.some.inj h
    exact .written hc hpc
  · rename_i hpc
    split_ifs at h with hm
    · obtain rfl := Option.some.inj h
      exact .finished hc hp hpc hm
    · obtain rfl := Option.some.inj h
      exact .finishedGone hc hpc

theorem steps_of_step {s t : State} {a : Action} (h : step s a = some t) : Steps s a t := by
  cases a with
  | publish title topic questions =>
    rw [step, Option.map_eq_some_iff] at h
    obtain ⟨store, hs, rfl⟩ := h
    exact .published hs
  | remove =>
    obtain rfl := Option.some.inj h
    exact .removed
  | wait seconds =>
    obtain rfl := Option.some.inj h
    exact .waited seconds
  | openPage user =>
    obtain rfl := Option.some.inj h
    exact .opened user
  | loadExam i =>
    obtain ⟨p, hp, h⟩ := Option.bind_eq_some_iff.mp h
    obtain ⟨pc, hpc, rfl⟩ := Option.map_eq_some_iff.mp h
    exact .resumed hp hpc
  | loadFails i =>
    obtain ⟨p, hp, h⟩ := Option.bind_eq_some_iff.mp h
    obtain ⟨pc, hpc, rfl⟩ := Option.map_eq_some_iff.mp h
    exact .loadFailed hp hpc
  | rebuild i =>
    obtain ⟨p, hp, h⟩ := Option.bind_eq_some_iff.mp h
    split_ifs at h with hm
    obtain rfl := Option.some.inj h
    exact .rebuilt hp hm
  | chooseTopic i topic =>
    obtain ⟨p, hp, h⟩ := Option.bind_eq_some_iff.mp h
    split_ifs at h with hg
    obtain rfl := Option.some.inj h
    exact .topicChosen hp hg
  | tapOption i index option =>
    obtain ⟨p, hp, h⟩ := Option.bind_eq_some_iff.mp h
    split_ifs at h with hg
    obtain rfl := Option.some.inj h
    exact .optionTapped hp hg
  | tapFinish i =>
    obtain ⟨p, hp, h⟩ := Option.bind_eq_some_iff.mp h
    split_ifs at h with hen
    obtain rfl := Option.some.inj h
    exact .finishTapped hp hen
  | finishTest k full_name =>
    obtain ⟨c, hc, h⟩ := Option.bind_eq_some_iff.mp h
    obtain ⟨p, hp, h⟩ := Option.bind_eq_some_iff.mp h
    exact steps_of_finishTest hc hp h
  | finishFails k =>
    obtain ⟨c, hc, rfl⟩ := Option.map_eq_some_iff.mp h
    exact .finishFailed hc
  | dispose i =>
    obtain ⟨p, hp, rfl⟩ := Option.map_eq_some_iff.mp h
    exact .disposed hp

/-! ### What a step does to the store -/

/-- The next thing the call `k` does is to write `data` at `uid`. -/
def Writes (s : State) (k : ℕ) (uid : String) (data : ResultData) : Prop :=
  ∃ c, s.calls[k]? = some c ∧ c.pc = .write uid data

/-- The action neither publishes nor removes an exam, and is not the write of a result. -/
def Quiet (s : State) : Action → Prop
  | .publish .. | .remove => False
  | .finishTest k _ => ∀ uid data, ¬ Writes s k uid data
  | _ => True

/-- The exam and the results are the same. -/
structure SameExam (s t : Store) : Prop where
  active : t.active = s.active
  results : t.results = s.results
  finished : t.finished = s.finished
  published : t.published = s.published

theorem SameExam.refl (s : Store) : SameExam s s := ⟨rfl, rfl, rfl, rfl⟩

/-- **A step publishes an exam, removes it, writes a result, or leaves all of it alone.** -/
theorem step_store {s t : State} {a : Action} (h : step s a = some t) :
    (∃ title topic questions, a = .publish title topic questions ∧
      publish s.store title topic questions = some t.store) ∨
    (a = .remove ∧ t.store = remove s.store) ∨
    (∃ k full_name uid data, a = .finishTest k full_name ∧ Writes s k uid data ∧
      t.store = setResult s.store uid data) ∨
    (Quiet s a ∧ SameExam s.store t.store) := by
  have hquiet : ∀ {k full_name} {c : FinishCall}, s.calls[k]? = some c →
      (∀ uid data, c.pc ≠ .write uid data) → Quiet s (.finishTest k full_name) := by
    rintro k full_name c hc hne uid data ⟨c', hc', hw⟩
    obtain rfl := Option.some.inj (hc.symm.trans hc')
    exact hne uid data hw
  cases steps_of_step h with
  | published hs => exact Or.inl ⟨_, _, _, rfl, hs⟩
  | removed => exact Or.inr (Or.inl ⟨rfl, rfl⟩)
  | written hc hpc => exact Or.inr (Or.inr (Or.inl ⟨_, _, _, _, rfl, ⟨_, hc, hpc⟩, rfl⟩))
  | nameRead hc _ hpc | finished hc _ hpc | finishedGone hc hpc =>
    exact Or.inr (Or.inr (Or.inr ⟨hquiet hc (by simp [hpc]), SameExam.refl _⟩))
  | waited => exact Or.inr (Or.inr (Or.inr ⟨trivial, ⟨rfl, rfl, rfl, rfl⟩⟩))
  | opened | resumed | loadFailed | rebuilt | topicChosen | optionTapped | finishTapped | finishFailed |
    disposed => exact Or.inr (Or.inr (Or.inr ⟨trivial, SameExam.refl _⟩))

end KamuSinavi.PracticeExam
