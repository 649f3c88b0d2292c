import KamuSinavi.Lib.Runs
import KamuSinavi.History.Service

/-! # What the local history retains

The runs of the history: the app is started again, `PerformanceReportScreen` opens and loads, a
finished test is saved, an entry shown by the report is deleted, everything is cleared
(`services/test_results_service.dart`, `pages/result_screen.dart`,
`pages/performance_report_screen.dart`).

`HistoryLaw` is what each step should do to the persisted list. The list in memory is the persisted
one or empty (`Inv`), and a save writes what is in memory: `historyLaw_iff` says that the law holds at
a step exactly if a save finds in memory what is persisted, and saves a test that has questions. -/

namespace KamuSinavi.History.Retention

open KamuSinavi.Lib KamuSinavi.Lib.Runs KamuSinavi.Lib.Dart KamuSinavi.Models Service

inductive Op where
  | restart
  | loadTestResults
  | saveTestResult (t : FinishedTest) (date : DateTime)
  | deleteTestResultAt (index : ℕ)
  | clearTestResults
  | leaveReport

/-- The service, and whether `PerformanceReportScreen` shows its list. -/
structure App where
  service : Service
  reportShown : Bool

/-- An entry can be deleted if the report shows it; the report shows the list of the service itself. -/
def step (C : Convert) (s : App) : Op → Option App
  | .restart => some { service := s.service.restart, reportShown := false }
  | .loadTestResults => some { service := loadTestResults C s.service, reportShown := true }
  | .saveTestResult t date => some { s with service := saveTestResult C s.service t date }
  | .deleteTestResultAt index =>
    if s.reportShown ∧ index < s.service.testResults.length then
      some { s with service := deleteTestResultAt C s.service index }
    else none
  | .clearTestResults => some { s with service := s.service.clearTestResults }
  | .leaveReport => some { s with reportShown := false }

/-- The app has been started on the persisted text `p`. -/
def started (p : Option String) : App where
  service := { testResults := [], prefs := p }
  reportShown := false

/-- **What a step should do to the persisted history**: a save appends the new result, a deletion
removes the shown entry, clearing empties it, and nothing else changes it. -/
def HistoryLaw (C : Convert) (s : App) (op : Op) (s' : App) : Prop :=
  match op with
  | .saveTestResult t date =>
    history C s'.service = (history C s.service).map (· ++ [newResult C t date])
  | .deleteTestResultAt index =>
    (history C s.service).bind (·[index]?) = s.service.testResults[index]? ∧
      history C s'.service = (history C s.service).map (·.eraseIdx index)
  | .clearTestResults => history C s'.service = some []
  | .restart | .loadTestResults | .leaveReport => history C s'.service = history C s.service

/-- A saved test has questions. -/
def Op.HasQuestions : Op → Prop
  | .saveTestResult t _ => t.questions ≠ []
  | _ => True

instance : DecidablePred Op.HasQuestions
  | .saveTestResult t _ => inferInstanceAs (Decidable (t.questions ≠ []))
  | .restart | .loadTestResults | .deleteTestResultAt _ | .clearTestResults | .leaveReport =>
    isTrue trivial

/-- A save is of a test with questions, and finds the persisted history in memory. -/
def Synced (C : Convert) (s : App) (op : Op) : Prop :=
  match op with
  | .saveTestResult t _ => t.questions ≠ [] ∧ history C s.service = some s.service.testResults
  | _ => True

/-- The list in memory is the persisted history, or empty. -/
def Inv (C : Convert) (s : App) : Prop :=
  ∃ h, Stored C s.service.prefs h ∧ (s.service.testResults = h ∨ s.service.testResults = [])

variable {C : Convert}

theorem inv_started {p : Option String} {h : List TestResult} (hs : Stored C p h) :
    Inv C (started p) := ⟨h, hs, Or.inr rfl⟩

theorem Inv.scored {s : App} (hI : Inv C s) : Scored s.service.testResults := by
  obtain ⟨h, hs, hm | hm⟩ := hI
  · exact hm ▸ hs.scored
  · exact hm ▸ scored_nil

/-- Saving a test with questions persists the list in memory and the new result. -/
theorem save_stored {s : Service} (hs : Scored s.testResults) {t : FinishedTest}
    (ht : t.questions ≠ []) (date : DateTime) :
    Stored C (saveTestResult C s t date).prefs (s.testResults ++ [newResult C t date]) :=
  saveToPreferences_of_scored (s := { s with testResults := _ }) (scored_append.mpr ⟨hs, by
    intro r hr
    rw [List.mem_singleton.mp hr]
    exact isFinite_newResult.mpr ht⟩)

/-- Saving a test without questions persists nothing. -/
theorem save_nil (s : Service) {t : FinishedTest} (ht : t.questions = []) (date : DateTime) :
    (saveTestResult C s t date).prefs = s.prefs := by
  have hf : (newResult C t date).score.isFinite = false := by
    rw [← Bool.not_eq_true, isFinite_newResult]
    exact not_not.mpr ht
  have hr : newResult C t date ∈ s.testResults ++ [newResult C t date] := by simp
  rw [saveTestResult, saveToPreferences_of_not_finite hr hf]

/-- **One step obeys the law exactly if it is synced.** -/
theorem historyLaw_iff {s s' : App} {op : Op} (hI : Inv C s) (h : step C s op = some s') :
    HistoryLaw C s op s' ↔ Synced C s op := by
  have hsc := hI.scored
  obtain ⟨hist, hs, hm⟩ := hI
  have hh := history_of_stored hs
  cases op with
  | restart =>
    obtain rfl := Option.some.inj h
    exact ⟨fun _ => trivial, fun _ => rfl⟩
  | loadTestResults =>
    obtain rfl := Option.some.inj h
    refine ⟨fun _ => trivial, fun _ => ?_⟩
    simp only [HistoryLaw, load_of_stored hs hm, history]
  | saveTestResult t date =>
    obtain rfl := Option.some.inj h
    simp only [HistoryLaw, Synced, hh, Option.map_some, Option.some.injEq]
    by_cases ht : t.questions = []
    · have hsame : history C (saveTestResult C s.service t date) = some hist :=
        history_of_stored (save_nil s.service ht date ▸ hs)
      rw [hsame]
      constructor
      · intro heq
        have := congrArg List.length (Option.some.inj heq)
        simp at this
      · exact fun hc => absurd ht hc.1
    · rw [history_of_stored (save_stored hsc ht date), Option.some.injEq,
        List.append_left_inj]
      exact ⟨fun he => ⟨ht, he.symm⟩, fun hc => hc.2.symm⟩
  | deleteTestResultAt index =>
    simp only [step, Option.ite_none_right_eq_some, Option.some.injEq] at h
    obtain ⟨⟨-, hlt⟩, rfl⟩ := h
    refine ⟨fun _ => trivial, fun _ => ?_⟩
    rcases hm with hm | hm
    · have hst : Stored C (deleteTestResultAt C s.service index).prefs (hist.eraseIdx index) := by
        rw [deleteTestResultAt, if_pos hlt, hm]
        exact saveToPreferences_of_scored (s := { s.service with testResults := _ })
          (hs.scored.eraseIdx index)
      simp only [HistoryLaw, hh, Option.bind_some, Option.map_some, history_of_stored hst, hm,
        and_self]
    · rw [hm] at hlt
      exact absurd hlt (Nat.not_lt_zero _)
  | clearTestResults =>
    obtain rfl := Option.some.inj h
    exact ⟨fun _ => trivial, fun _ => rfl⟩
  | leaveReport =>
    obtain rfl := Option.some.inj h
    exact ⟨fun _ => trivial, fun _ => rfl⟩

/-- The invariant is kept by every step but a save without questions. -/
theorem inv_step {s s' : App} {op : Op} (hI : Inv C s) (hq : op.HasQuestions)
    (h : step C s op = some s') : Inv C s' := by
  have hsc := hI.scored
  obtain ⟨hist, hs, hm⟩ := hI
  cases op with
  | restart =>
    obtain rfl := Option.some.inj h
    exact ⟨hist, hs, Or.inr rfl⟩
  | loadTestResults =>
    obtain rfl := Option.some.inj h
    refine ⟨hist, ?_, Or.inl ?_⟩
    · rw [load_of_stored hs hm]; exact hs
    · rw [load_of_stored hs hm]
  | saveTestResult t date =>
    obtain rfl := Option.some.inj h
    exact ⟨_, save_stored hsc hq date, Or.inl (saveTestResult_testResults _ _ _)⟩
  | deleteTestResultAt index =>
    simp only [step, Option.ite_none_right_eq_some, Option.some.injEq] at h
    obtain ⟨⟨-, hlt⟩, rfl⟩ := h
    simp only [deleteTestResultAt, if_pos hlt]
    exact ⟨_, saveToPreferences_of_scored (hsc.eraseIdx index),
      Or.inl (saveToPreferences_testResults _)⟩
  | clearTestResults =>
    obtain rfl := Option.some.inj h
    exact ⟨[], stored_none, Or.inl rfl⟩
  | leaveReport =>
    obtain rfl := Option.some.inj h
    exact ⟨hist, hs, hm⟩

theorem Synced.hasQuestions {s : App} {op : Op} (h : Synced C s op) : op.HasQuestions := by
  cases op <;> first | exact h.1 | trivial

/-- Whatever is lost, the list in memory stays the persisted one or empty. -/
theorem inv_run {p : Option String} {h : List TestResult} (hs : Stored C p h) {ops : List Op}
    (hops : Along (step C) (fun _ op => op.HasQuestions) (started p) ops) {s : App}
    (hrun : run (step C) (started p) ops = some s) : Inv C s :=
  run_inv (fun _ _ _ hI hq h => inv_step hI hq h) (inv_started hs) hops hrun

/-- **Every step of a run obeys the law exactly if every save is of a test with questions and finds
the persisted history in memory.** -/
theorem retains_iff_synced {p : Option String} {h : List TestResult} (hs : Stored C p h)
    (ops : List Op) :
    EachStep (step C) (HistoryLaw C) (started p) ops ↔ Along (step C) (Synced C) (started p) ops :=
  eachStep_iff_along (J := Inv C)
    (fun _ _ _ hI h hQ => inv_step hI ((historyLaw_iff hI h).mp hQ).hasQuestions h)
    (fun _ _ _ hI h => historyLaw_iff hI h) (inv_started hs)

/-! ### A save after a restart -/

/-- A test of one question, answered. -/
def sums : FinishedTest where
  testName := "Matematik"
  questions := [{ question := "2 + 2 = ?", options := ["4", "5"], answer := "4", imagePath := none,
                  ref := 0 }]
  selectedAnswers := LinkedMap.empty.set
    { question := "2 + 2 = ?", options := ["4", "5"], answer := "4", imagePath := none, ref := 0 } "4"
  distinct := by decide
  selected_sub := by decide

theorem retains_iff_synced_installed :
    EachStep (step compact) (HistoryLaw compact) (started none)
        [.saveTestResult sums .noon, .restart, .loadTestResults, .saveTestResult sums .noon,
          .deleteTestResultAt 0] ↔
      Along (step compact) (Synced compact) (started none)
        [.saveTestResult sums .noon, .restart, .loadTestResults, .saveTestResult sums .noon,
          .deleteTestResultAt 0] :=
  retains_iff_synced stored_none _

/-- **A test finished after a restart replaces the history** if the report has not been opened. -/
theorem restart_loses_history :
    ¬ EachStep (step compact) (HistoryLaw compact) (started none)
      [.saveTestResult sums .noon, .restart, .saveTestResult sums .noon] := by
  intro h
  have hs : Stored compact (saveTestResult compact (started none).service sums .noon).prefs
      ([] ++ [newResult compact sums .noon]) := save_stored scored_nil (by decide) .noon
  obtain ⟨-, -, hlaw, -⟩ := h
  have hsync := (historyLaw_iff (inv_started hs) rfl).mp hlaw
  have hone : history compact
      (started (saveTestResult compact (started none).service sums .noon).prefs).service =
        some ([] ++ [newResult compact sums .noon]) := history_of_stored hs
  have hempty := hone.symm.trans hsync.2
  exact absurd (Option.some.inj hempty) (List.cons_ne_nil _ _)

end KamuSinavi.History.Retention
