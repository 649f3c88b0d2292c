import KamuSinavi.Lib.LinkedMap
import KamuSinavi.Models.Question

/-! # The local history of finished tests

`TestResultsService` (`services/test_results_service.dart`): the list `_testResults` in memory, empty
at every start of the app, and the text persisted under `'testResults'`. Each operation is a function
on the two; where the source throws, the state is the one it leaves behind.

`history` is the list the persisted text stands for, and `Stored C p h` says that `p` is the text of
`h` (or that nothing is persisted and `h` is empty). `save_stored` and its companions say what each
operation makes of both copies. -/

namespace KamuSinavi.History

open KamuSinavi.Lib KamuSinavi.Lib.Dart KamuSinavi.Models

structure TestResult where
  testName : String
  score : Double
  date : DateTime
  questions : List Question
  selectedAnswers : LinkedMap String String
  deriving DecidableEq

namespace TestResult

variable (C : Convert)

def toJson (r : TestResult) : Json :=
  .obj [("testName", .str r.testName), ("score", .double r.score),
    ("date", .str (C.toIso8601String r.date)), ("questions", .arr (r.questions.map Question.toJson)),
    ("selectedAnswers", .obj (r.selectedAnswers.entries.map fun e => (e.1, .str e.2)))]

/-- `Map<String, String>.from(json)`. -/
def stringMap (fields : List (String × Json)) : Option (LinkedMap String String) :=
  (fields.mapM fun f : String × Json => f.2.str?.map fun v => (f.1, v)).map LinkedMap.ofPairs

/-- The factory constructor; it throws on a missing field and on a field of another type. -/
def fromJson (json : Json) : Option TestResult :=
  json.obj?.bind fun fields =>
    ((fields.lookup "questions").bind fun j => j.arr?.bind fun js => js.mapM Question.fromJson).bind
      fun questions =>
    ((fields.lookup "selectedAnswers").bind fun j => j.obj?.bind stringMap).bind
      fun selectedAnswers =>
    ((fields.lookup "testName").bind Json.str?).bind fun testName =>
    ((fields.lookup "score").bind Json.double?).bind fun score =>
    ((fields.lookup "date").bind fun j => j.str?.bind C.parse).map fun date =>
      { testName, score, date, questions, selectedAnswers }

end TestResult

/-- A finished test as the result page hands it over: the questions are distinct objects, and the
selected options belong to them. -/
structure FinishedTest where
  testName : String
  questions : List QuestionObj
  selectedAnswers : LinkedMap QuestionObj String
  distinct : (questions.map QuestionObj.ref).Nodup
  selected_sub : ∀ q ∈ selectedAnswers.keys, q ∈ questions

structure Service where
  testResults : List TestResult
  prefs : Option String
  deriving DecidableEq

namespace Service

variable (C : Convert)

/-- `jsonEncode` of the list; `none` if it throws. -/
def encodeAll (rs : List TestResult) : Option String :=
  C.jsonEncode (.arr (rs.map (TestResult.toJson C)))

/-- The scoring loop. -/
def correctAnswersCount (questions : List QuestionObj) (selectedAnswers : LinkedMap QuestionObj String) :
    ℕ :=
  questions.foldl (fun n q =>
    if selectedAnswers.contains q ∧ selectedAnswers.get? q = some q.answer then n + 1 else n) 0

/-- The record `saveTestResult` makes of a test finished at `date`. -/
def newResult (t : FinishedTest) (date : DateTime) : TestResult where
  testName := t.testName
  score := Double.percent (correctAnswersCount t.questions t.selectedAnswers) t.questions.length
  date := date
  questions := t.questions.map QuestionObj.toQuestion
  selectedAnswers := t.selectedAnswers.mapKeys fun q => q.key C

/-- The list in memory replaces the persisted one, unless encoding it throws. -/
def saveToPreferences (s : Service) : Service :=
  match encodeAll C s.testResults with
  | some jsonString => { s with prefs := some jsonString }
  | none => s

def saveTestResult (s : Service) (t : FinishedTest) (date : DateTime) : Service :=
  saveToPreferences C { s with testResults := s.testResults ++ [newResult C t date] }

/-- The list in memory is cleared when the text has been decoded, before its entries are read. -/
def loadTestResults (s : Service) : Service :=
  match s.prefs with
  | none => s
  | some resultsJson =>
    match (C.jsonDecode resultsJson).bind Json.arr? with
    | none => s
    | some decoded =>
      match decoded.mapM (TestResult.fromJson C) with
      | none => { s with testResults := [] }
      | some results => { s with testResults := results }

def clearTestResults (_ : Service) : Service := { testResults := [], prefs := none }

def deleteTestResultAt (s : Service) (index : ℕ) : Service :=
  if index < s.testResults.length then
    saveToPreferences C { s with testResults := s.testResults.eraseIdx index }
  else s

/-- The app is started again. -/
def restart (s : Service) : Service := { s with testResults := [] }

end Service

/-! ### Encoding and decoding -/

namespace TestResult

variable {C : Convert}

theorem encodable_toJson {r : TestResult} (h : r.score.isFinite = true) : (toJson C r).Encodable := by
  rw [toJson, Json.encodable_obj]
  refine ⟨by simp, fun f hf => ?_⟩
  simp only [List.mem_cons, List.not_mem_nil, or_false] at hf
  rcases hf with rfl | rfl | rfl | rfl | rfl
  · exact Json.encodable_str _
  · exact Json.encodable_double.mpr h
  · exact Json.encodable_str _
  · rw [Json.encodable_arr]
    intro j hj
    obtain ⟨q, -, rfl⟩ := List.mem_map.mp hj
    exact q.encodable_toJson
  · rw [Json.encodable_obj]
    refine ⟨?_, fun f hf => ?_⟩
    · have := r.selectedAnswers.nodup
      simpa [List.map_map, Function.comp_def] using this
    · obtain ⟨e, -, rfl⟩ := List.mem_map.mp hf
      exact Json.encodable_str _

/-- The score of a result is one of the numbers of its tree. -/
theorem score_mem_doubles (r : TestResult) : r.score ∈ (toJson C r).doubles := by
  have hf : ("score", Json.double r.score) ∈
      [("testName", Json.str r.testName), ("score", .double r.score),
        ("date", .str (C.toIso8601String r.date)),
        ("questions", .arr (r.questions.map Question.toJson)),
        ("selectedAnswers", .obj (r.selectedAnswers.entries.map fun e => (e.1, .str e.2)))] := by
    simp
  exact Json.doubles_sub_fields hf (by simp [Json.doubles])

theorem stringMap_entries (m : LinkedMap String String) :
    stringMap (m.entries.map fun e => (e.1, Json.str e.2)) = some m := by
  have h := Json.mapM_map (fun e : String × String => (e.1, Json.str e.2))
    (fun f => f.2.str?.map fun v => (f.1, v)) (fun _ => rfl) m.entries
  rw [stringMap, h, Option.map_some, LinkedMap.ofPairs_entries]

/-- **Decoding undoes encoding.** -/
theorem fromJson_toJson (r : TestResult) : fromJson C (toJson C r) = some r := by
  obtain ⟨testName, score, date, questions, selectedAnswers⟩ := r
  have hq := Json.mapM_map Question.toJson Question.fromJson Question.fromJson_toJson questions
  have hs := stringMap_entries selectedAnswers
  simp only [fromJson, toJson, Json.obj?, Option.bind_some]
  simp [List.lookup_cons, Json.arr?, Json.str?, Json.double?, hs, C.parse_iso, -List.mapM_map, hq]

end TestResult

namespace Service

variable {C : Convert}

/-- A score that is no number makes the encoder throw. -/
theorem encodeAll_eq_none {rs : List TestResult} {r : TestResult} (hr : r ∈ rs)
    (h : r.score.isFinite = false) : encodeAll C rs = none :=
  C.encode_not_finite _ r.score
    (Json.doubles_sub_items (List.mem_map.mpr ⟨r, hr, rfl⟩) r.score_mem_doubles) h

/-- Every score of the list is a number. -/
def Scored (rs : List TestResult) : Prop := ∀ r ∈ rs, r.score.isFinite = true

theorem scored_nil : Scored [] := fun _ h => absurd h List.not_mem_nil

theorem scored_append {rs rs' : List TestResult} :
    Scored (rs ++ rs') ↔ Scored rs ∧ Scored rs' := List.forall_mem_append

theorem Scored.eraseIdx {rs : List TestResult} (h : Scored rs) (i : ℕ) : Scored (rs.eraseIdx i) :=
  fun r hr => h r (List.mem_of_mem_eraseIdx hr)

theorem exists_encodeAll {rs : List TestResult} (h : Scored rs) :
    ∃ text, encodeAll C rs = some text ∧
      ((C.jsonDecode text).bind Json.arr?).bind (fun js => js.mapM (TestResult.fromJson C)) =
        some rs := by
  have henc : (Json.arr (rs.map (TestResult.toJson C))).Encodable := by
    rw [Json.encodable_arr]
    intro j hj
    obtain ⟨r, hr, rfl⟩ := List.mem_map.mp hj
    exact TestResult.encodable_toJson (h r hr)
  obtain ⟨text, ht, hd⟩ := C.decode_encode _ henc
  refine ⟨text, ht, ?_⟩
  rw [hd, Option.bind_some, Json.arr?, Option.bind_some]
  exact Json.mapM_map _ _ TestResult.fromJson_toJson rs

/-- The text `p` is that of the history `h`. -/
structure Stored (C : Convert) (p : Option String) (h : List TestResult) : Prop where
  scored : Scored h
  text : p = encodeAll C h ∨ p = none ∧ h = []

theorem stored_none : Stored C none [] := ⟨scored_nil, Or.inr ⟨rfl, rfl⟩⟩

theorem stored_encodeAll {h : List TestResult} (hs : Scored h) : Stored C (encodeAll C h) h :=
  ⟨hs, Or.inl rfl⟩

/-- **The list the persisted text stands for**, `none` if it stands for none. -/
def history (C : Convert) (s : Service) : Option (List TestResult) :=
  match s.prefs with
  | none => some []
  | some resultsJson =>
    ((C.jsonDecode resultsJson).bind Json.arr?).bind fun decoded =>
      decoded.mapM (TestResult.fromJson C)

theorem history_of_stored {s : Service} {h : List TestResult} (hs : Stored C s.prefs h) :
    history C s = some h := by
  rcases hs.text with htext | ⟨hnone, rfl⟩
  · obtain ⟨text, ht, hd⟩ := exists_encodeAll (C := C) hs.scored
    rw [history, htext, ht]; exact hd
  · rw [history, hnone]

/-! ### What the operations make of the two copies -/

theorem saveToPreferences_testResults (s : Service) :
    (saveToPreferences C s).testResults = s.testResults := by
  unfold saveToPreferences
  cases encodeAll C s.testResults <;> rfl

theorem saveTestResult_testResults (s : Service) (t : FinishedTest) (date : DateTime) :
    (saveTestResult C s t date).testResults = s.testResults ++ [newResult C t date] :=
  saveToPreferences_testResults _

theorem saveToPreferences_of_scored {s : Service} (h : Scored s.testResults) :
    Stored C (saveToPreferences C s).prefs s.testResults := by
  obtain ⟨text, ht, -⟩ := exists_encodeAll (C := C) h
  have hp : (saveToPreferences C s).prefs = encodeAll C s.testResults := by
    rw [saveToPreferences, ht]
  rw [hp]
  exact stored_encodeAll h

theorem saveToPreferences_of_not_finite {s : Service} {r : TestResult} (hr : r ∈ s.testResults)
    (h : r.score.isFinite = false) : saveToPreferences C s = s := by
  rw [saveToPreferences, encodeAll_eq_none hr h]

theorem isFinite_newResult {t : FinishedTest} {date : DateTime} :
    (newResult C t date).score.isFinite = true ↔ t.questions ≠ [] := by
  constructor
  · intro h hq
    rw [newResult, hq, List.length_nil, Double.not_isFinite_percent] at h
    exact Bool.noConfusion h
  · intro h
    exact Double.isFinite_percent (fun h0 => h (List.length_eq_zero_iff.mp h0))

/-- Loading finds the persisted history. -/
theorem load_of_stored {s : Service} {h : List TestResult} (hs : Stored C s.prefs h)
    (hm : s.testResults = h ∨ s.testResults = []) :
    loadTestResults C s = { s with testResults := h } := by
  rcases hs.text with htext | ⟨hnone, rfl⟩
  · obtain ⟨text, ht, hd⟩ := exists_encodeAll (C := C) hs.scored
    obtain ⟨js, hjs, hrs⟩ := Option.bind_eq_some_iff.mp hd
    simp only [loadTestResults, htext, ht, hjs, hrs]
  · rw [or_self] at hm
    obtain ⟨rs, p⟩ := s
    simp only at hnone hm
    subst hnone hm
    rfl

end Service

end KamuSinavi.History
