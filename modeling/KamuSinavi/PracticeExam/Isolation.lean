import KamuSinavi.PracticeExam.Steps

/-! # Successive exams

The active exam is one document with a fixed name, and so is the collection of the results; nothing in
them says which exam a result belongs to. `Isolated` says that nevertheless a load would take a user
for one who has taken the active exam exactly if the user finished it after it was published, and that
every row of the ranking was scored against its questions.

`isolated_iff` says when all states of a run are isolated: an exam is published only while there are no
results, and a result is written only for the exam that is active. -/

namespace KamuSinavi.PracticeExam

open KamuSinavi.Lib KamuSinavi.Lib.Runs

/-- **The active exam is isolated from the exams before it**, in what `loadExam` and `fetchResults`
read. -/
def Isolated (s : State) : Prop :=
  ∀ exam, s.store.active = some exam →
    (∀ uid, resultExists s.store uid = true ↔ Finished s.store uid exam) ∧
      ∀ r ∈ fetchResults s.store, r.exam.questions = exam.questions

/-- A load takes the user for one who has taken the exam exactly if the user finished it. -/
theorem Isolated.hasUserTakenExam {s : State} (h : Isolated s) {exam : Exam}
    (he : s.store.active = some exam) {p : Page} {user : User} (hu : p.user = some user)
    (data : Option Exam) :
    (loadExam s.store p (.fetchOwn data)).hasUserTakenExam = true ↔
      Finished s.store user.uid exam := by
  have hflag : (loadExam s.store p (.fetchOwn data)).hasUserTakenExam =
      resultExists s.store user.uid := by
    simp only [loadExam, hu]
    split_ifs <;> rfl
  rw [hflag]
  exact (h exam he).1 user.uid

/-- An exam is published while there are no results; while an exam is active, a result is written if
it is for this exam, or replaces one for this exam and is scored against the same questions. -/
def Separate (s : State) : Action → Prop
  | .publish .. => s.store.results = LinkedMap.empty
  | .finishTest k _ => ∀ uid data, Writes s k uid data → ∀ exam, s.store.active = some exam →
      (data.exam.serial = exam.serial ∨ Finished s.store uid exam) ∧
        data.exam.questions = exam.questions
  | _ => True

theorem Separate.of_quiet {s : State} {a : Action} (h : Quiet s a) : Separate s a := by
  cases a with
  | publish | remove => exact h.elim
  | finishTest k full_name => exact fun uid data hw => absurd hw (h uid data)
  | _ => trivial

/-- Before anything is published. -/
def installed : State where
  store := { active := none, results := LinkedMap.empty, now := 0, published := 0, finished := [] }
  pages := []
  calls := []

/-! ### The exams a state knows were published -/

def Load.data : Load → Option Exam
  | .fetchActiveExam => none
  | .fetchResults data => data
  | .fetchOwn data => data

/-- The exams in a page have serials below `n`. -/
def Page.Known (n : ℕ) (p : Page) : Prop :=
  ∀ e, p.examData = some e ∨ p.loading.bind Load.data = some e → e.serial < n

/-- Every exam in the state has been published. -/
structure Known (s : State) : Prop where
  active : ∀ e, s.store.active = some e → e.serial < s.store.published
  pages : ∀ p ∈ s.pages, p.Known s.store.published
  calls : ∀ c ∈ s.calls, ∀ uid data, c.pc = .write uid data →
    data.exam.serial < s.store.published
  finished : ∀ f ∈ s.store.finished, f.2 < s.store.published

theorem Page.Known.mono {n m : ℕ} {p : Page} (h : p.Known n) (hnm : n ≤ m) : p.Known m :=
  fun e he => (h e he).trans_le hnm

theorem Page.Known.loadExam {s : Store} {p : Page} {pc : Load} {n : ℕ} (h : p.Known n)
    (hpc : p.loading = some pc) (hact : ∀ e, s.active = some e → e.serial < n) :
    (loadExam s p pc).Known n := by
  have hdata : ∀ e, pc.data = some e → e.serial < n := fun e he =>
    h e (Or.inr (by rw [hpc]; exact he))
  have hexam : ∀ e, p.examData = some e → e.serial < n := fun e he => h e (Or.inl he)
  cases pc with
  | fetchActiveExam =>
    rintro e (he | he)
    · exact hexam e he
    · refine hact e ?_
      have he' : fetchActiveExam s = some e := he
      obtain ⟨d, hd, hd'⟩ := Option.bind_eq_some_iff.mp he'
      split at hd'
      · exact Option.some.inj hd' ▸ hd
      · split_ifs at hd'
        exact Option.some.inj hd' ▸ hd
  | fetchResults data =>
    unfold PracticeExam.loadExam
    split_ifs
    · cases p.user with
      | some u =>
        rintro e (he | he)
        · exact hexam e he
        · exact hdata e he
      | none =>
        rintro e (he | he)
        · exact hdata e he
        · cases he
    · rintro e (he | he)
      · exact hexam e he
      · cases he
  | fetchOwn data =>
    unfold PracticeExam.loadExam
    simp only
    split_ifs
    · rintro e (he | he)
      · exact hdata e he
      · cases he
    · rintro e (he | he)
      · exact hexam e he
      · cases he

theorem Known.page {s : State} (h : Known s) {i : ℕ} {p : Page} (hp : s.pages[i]? = some p) :
    p.Known s.store.published := h.pages p (List.mem_of_getElem? hp)

theorem Page.Known.step {s : State} {i n : ℕ} {p p' : Page} {a : Action} (h : p.Known n)
    (hact : ∀ e, s.store.active = some e → e.serial < n) (hstep : PageStep s i p a p') :
    p'.Known n := by
  cases hstep with
  | loadExam hpc => exact h.loadExam hpc hact
  | loadFails =>
    rintro e (he | he)
    · exact h e (Or.inl he)
    · cases he
  | same | rebuild | chooseTopic | tapOption | tapFinish | finished | dispose => exact h

/-- The exams of the store after a step. -/
theorem Known.store {s t : State} {a : Action} (hK : Known s) (h : step s a = some t) :
    s.store.published ≤ t.store.published ∧
      (∀ e, t.store.active = some e → e.serial < t.store.published) ∧
      ∀ f ∈ t.store.finished, f.2 < t.store.published := by
  rcases step_store h with ⟨title, topic, questions, -, hp⟩ | ⟨-, hr⟩ |
    ⟨k, full_name, uid, data, -, ⟨c, hc, hpc⟩, ht⟩ | ⟨-, hsame⟩
  · unfold publish at hp
    simp only at hp
    split_ifs at hp
    rw [← Option.some.inj hp]
    refine ⟨Nat.le_succ _, fun e he => ?_, fun f hf => (hK.finished f hf).trans (Nat.lt_succ_self _)⟩
    obtain rfl := Option.some.inj he
    exact Nat.lt_succ_self _
  · rw [hr]
    exact ⟨Nat.le_refl _, fun e he => (Option.some_ne_none _ he.symm).elim, hK.finished⟩
  · rw [ht]
    refine ⟨Nat.le_refl _, hK.active, fun f hf => ?_⟩
    rcases List.mem_cons.mp hf with rfl | hf
    · exact hK.calls c (List.mem_of_getElem? hc) uid data hpc
    · exact hK.finished f hf
  · rw [hsame.published, hsame.active, hsame.finished]
    exact ⟨Nat.le_refl _, hK.active, hK.finished⟩

def sumForm : QuestionForm :=
  { question := "2 + 2 = ?", options := !["4", "5", "6", "7"], correctAnswer := "4" }

def capitalForm : QuestionForm :=
  { question := "KKTC'nin başkenti?", options := !["Lefkoşa", "Girne", "Güzelyurt", "İskele"],
    correctAnswer := "Lefkoşa" }

def ayse : User := { uid := "ayse", email := some "ayse@example.com" }

/-- A user takes an exam, and the admin publishes the next one. -/
def secondExam : List Action :=
  [.publish "Deneme 1" "Matematik" [sumForm], .openPage (some ayse), .loadExam 0, .loadExam 0,
    .loadExam 0, .chooseTopic 0 "Matematik", .tapOption 0 0 "4", .tapFinish 0,
    .finishTest 0 (some "Ayşe"), .finishTest 0 none, .publish "Deneme 2" "Coğrafya" [capitalForm]]

end KamuSinavi.PracticeExam
