import KamuSinavi.History.ResultScreen
import KamuSinavi.History.Retention

/-! # Reading the persisted history

`_saveToPreferences` and `loadTestResults` (`services/test_results_service.dart`). `reload` says that a
history is read as it was written, with the names of its questions. `loadLaw_iff` is about every text:
loading clears the list in memory before it reads the entries, so that one that cannot be read costs
the whole list, and with the next save the persisted one (`history_of_failed_load`). -/

namespace KamuSinavi.History.Persisted

open KamuSinavi.Lib KamuSinavi.Lib.Dart KamuSinavi.Models Service ResultScreen

variable (C : Convert)

/-- The list a text stands for, `none` if a part of it cannot be read. -/
def decodeAll (resultsJson : String) : Option (List TestResult) :=
  ((C.jsonDecode resultsJson).bind Json.arr?).bind fun decoded =>
    decoded.mapM (TestResult.fromJson C)

/-- **Loading is all or nothing**: the list in memory is the one the text stands for, or what it
was. -/
def LoadLaw (testResults : List TestResult) (resultsJson : String) : Prop :=
  (loadTestResults C { testResults := testResults, prefs := some resultsJson }).testResults =
    (decodeAll C resultsJson).getD testResults

/-- **A history is read as it was written**, by the service and after a restart, and its questions keep
their names. -/
structure Reloaded (saves : List Save) (prefs : Option String) : Prop where
  loaded : (loadTestResults C (saveToPreferences C
      { testResults := saves.map (Save.result C), prefs := prefs }).restart).testResults =
    saves.map (Save.result C)
  keys : (loadTestResults C (saveToPreferences C
      { testResults := saves.map (Save.result C), prefs := prefs }).restart).testResults.map
        (fun r => r.questions.map (Question.key C)) =
    saves.map fun a => a.questions.map fun q => q.key C

variable {C}

/-! ### Any text -/

/-- The text of a list one of whose entries cannot be read leaves nothing in memory. -/
theorem load_of_rejected {s : Service} {resultsJson : String} {decoded : List Json} {json : Json}
    (hs : s.prefs = some resultsJson) (hd : (C.jsonDecode resultsJson).bind Json.arr? = some decoded)
    (hjson : json ∈ decoded) (hno : TestResult.fromJson C json = none) :
    loadTestResults C s = { s with testResults := [] } := by
  have hnone : decoded.mapM (TestResult.fromJson C) = none :=
    Json.mapM_eq_none_iff.mpr ⟨json, hjson, hno⟩
  simp only [loadTestResults, hs, hd, hnone]

/-- **Loading is all or nothing exactly if the text is not that of a list, every entry can be read, or
there is nothing in memory.** -/
theorem loadLaw_iff (testResults : List TestResult) (resultsJson : String) :
    LoadLaw C testResults resultsJson ↔
      ∀ decoded ∈ (C.jsonDecode resultsJson).bind Json.arr?,
        (∀ json ∈ decoded, TestResult.fromJson C json ≠ none) ∨ testResults = [] := by
  rcases hd : (C.jsonDecode resultsJson).bind Json.arr? with _ | decoded
  · refine iff_of_true ?_ fun _ h => by cases h
    simp only [LoadLaw, loadTestResults, decodeAll, hd, Option.bind_none, Option.getD_none]
  · simp only [Option.mem_some_iff, forall_eq']
    rcases hr : decoded.mapM (TestResult.fromJson C) with _ | results
    · obtain ⟨json, hjson, hno⟩ := Json.mapM_eq_none_iff.mp hr
      rw [or_iff_right fun h => h json hjson hno, LoadLaw, load_of_rejected (by rfl) hd hjson hno,
        decodeAll, hd, Option.bind_some, hr, Option.getD_none]
      exact eq_comm
    · refine iff_of_true ?_ (Or.inl fun json hjson hno => ?_)
      · simp only [LoadLaw, loadTestResults, decodeAll, hd, Option.bind_some, hr, Option.getD_some]
      · exact Option.some_ne_none _ (hr.symm.trans (Json.mapM_eq_none_iff.mpr ⟨json, hjson, hno⟩))

/-- **After a load that fails at an entry** the next save persists the new result alone. -/
theorem history_of_failed_load {s : Service} {resultsJson : String} {decoded : List Json}
    {json : Json} (hs : s.prefs = some resultsJson)
    (hd : (C.jsonDecode resultsJson).bind Json.arr? = some decoded) (hjson : json ∈ decoded)
    (hno : TestResult.fromJson C json = none) {t : FinishedTest} (ht : t.questions ≠ [])
    (date : DateTime) :
    history C (saveTestResult C (loadTestResults C s) t date) = some [newResult C t date] := by
  rw [load_of_rejected hs hd hjson hno]
  exact history_of_stored (Retention.save_stored (s := { s with testResults := [] }) scored_nil ht date)

/-- A history of one result. -/
def oneResult : List TestResult := [newResult compact Retention.sums .noon]

/-- **A text with an entry that cannot be read** erases the history in memory. -/
theorem oneResult_erased : ¬ LoadLaw compact oneResult "[{}]" := by
  have hd : (compact.jsonDecode "[{}]").bind Json.arr? = some [.obj []] := rfl
  intro h
  rcases (loadLaw_iff _ _).mp h _ hd with hread | hnil
  · exact hread (.obj []) (List.mem_singleton_self _) rfl
  · exact List.cons_ne_nil _ _ hnil

/-! ### The text of a history -/

theorem isFinite_result {a : Save} (ha : a.questions ≠ []) :
    (a.result C).score.isFinite = true :=
  Double.isFinite_percent fun h0 => ha (List.length_eq_zero_iff.mp h0)

theorem scored_results {saves : List Save} (h : ∀ a ∈ saves, a.questions ≠ []) :
    Scored (saves.map (Save.result C)) := by
  intro r hr
  obtain ⟨a, ha, rfl⟩ := List.mem_map.mp hr
  exact isFinite_result (h a ha)

/-- The questions of a record have the names of those it was made from. -/
theorem keys_result (a : Save) :
    (a.result C).questions.map (Question.key C) = a.questions.map fun q => q.key C := by
  rw [Save.result, List.map_map]; rfl

/-- **Decoding undoes encoding for every history of tests with questions.** -/
theorem reload {saves : List Save} (h : ∀ a ∈ saves, a.questions ≠ []) (prefs : Option String) :
    Reloaded C saves prefs := by
  have hstored := saveToPreferences_of_scored (C := C)
    (s := { testResults := saves.map (Save.result C), prefs := prefs }) (scored_results h)
  have hloaded := congrArg Service.testResults (load_of_stored
    (s := (saveToPreferences C { testResults := saves.map (Save.result C), prefs := prefs }).restart)
    hstored (Or.inr rfl))
  refine ⟨hloaded, ?_⟩
  rw [hloaded, List.map_map]
  exact List.map_congr_left fun a _ => keys_result a

theorem reload_halfAnswered : Reloaded compact [halfAnswered, unanswered sum, halfAnswered] none :=
  reload (by decide) none

end KamuSinavi.History.Persisted
