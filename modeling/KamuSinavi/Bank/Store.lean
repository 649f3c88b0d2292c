import Mathlib.Data.Fin.VecNotation
import KamuSinavi.Lib.Calls
import KamuSinavi.Lib.Dart
import KamuSinavi.Lib.Runs

/-! # The question bank

The collection `questions`: a document for each topic, with a subcollection `questionList`. Deleting
a topic's document leaves its subcollection; a document added to a collection gets a fresh id.

The text of a topic is a path. `questions.doc(topic)` splits it at the slashes, so a text with slashes
names a document below `questions`, among them the documents of a `questionList`, or none at all.

`AddCall` is the handler of `Soru Ekle` (`buildQuestionManager` in `pages/adminDashboard.dart`) from
its first call of the database on: it looks whether the topic exists, creates it if not, and adds the
question. -/

namespace KamuSinavi.Bank

/-- A question document, as it is read. -/
structure QuestionDoc where
  question : String
  options : List String
  answer : Option String
  imagePath : Option String
  deriving DecidableEq

/-- The document `{'title': topic}`, read as a question. -/
def titleDoc : QuestionDoc := { question := "", options := [], answer := none, imagePath := none }

/-- The id of a question: one that `add` makes, or one typed in a path. The ids that `add` makes are
random and shown nowhere, so no text names one. -/
inductive QuestionId where
  | generated (n : ℕ)
  | typed (id : String)
  deriving DecidableEq

/-- A document of the subcollection of `topic`. -/
structure Entry where
  topic : String
  id : QuestionId
  doc : QuestionDoc
  deriving DecidableEq

/-- A document at or below `questions`: a topic, a document of the `questionList` of the document at
`parent`, or another one. -/
inductive DocRef where
  | topic (id : String)
  | question (parent id : String)
  | elsewhere (path : String)
  deriving DecidableEq

def DocRef.path : DocRef → String
  | .topic id => id
  | .question parent id => parent ++ "/questionList/" ++ id
  | .elsewhere path => path

/-- It is one of the documents that are read as questions. -/
def DocRef.inQuestionList : DocRef → Bool
  | .question .. => true
  | .topic _ | .elsewhere _ => false

/-- The segments of a path; an empty one is skipped, as at an end (where two slashes meet the client
refuses the path, which is a call that fails). -/
def segments (path : String) : List String :=
  ((path.toList.splitOn '/').filter fun segment => segment ≠ []).map String.ofList

/-- `questions.doc(path)`. A document has an odd number of segments below `questions`; the rest throws,
at the latest at the first call. -/
def doc (path : String) : Option DocRef :=
  match (segments path).reverse with
  | [] => none
  | [id] => some (.topic id)
  | id :: collection :: parent =>
    if parent.length % 2 = 0 then none
    else if collection = "questionList" then
      some (.question ("/".intercalate parent.reverse) id)
    else some (.elsewhere ("/".intercalate (segments path)))

/-- **A text without a slash is the id of a topic.** -/
theorem doc_eq_topic {text : String} (hne : text ≠ "") (h : '/' ∉ text.toList) :
    doc text = some (.topic text) := by
  have hsplit : text.toList.splitOn '/' = [text.toList] := List.splitOn_eq_singleton h
  have hseg : segments text = [text] := by
    unfold segments
    rw [hsplit, List.filter_cons_of_pos (by simpa using hne), List.filter_nil, List.map_singleton,
      String.ofList_toList]
  unfold doc
  rw [hseg]
  rfl

example : doc "Matematik/questionList/x" = some (.question "Matematik" "x") := by decide

/-- The topic documents, the documents of all subcollections `questionList`, and the paths of the
others. -/
structure Store where
  topics : List String
  entries : List Entry
  elsewhere : List String
  nextId : ℕ
  deriving DecidableEq

namespace Store

def empty : Store := { topics := [], entries := [], elsewhere := [], nextId := 0 }

/-- `questions.doc(topic).collection('questionList')`. -/
def questionList (s : Store) (topic : String) : List Entry := s.entries.filter fun e => e.topic = topic

/-- `topicDoc.get()` finds the document. -/
def has (s : Store) : DocRef → Bool
  | .topic id => id ∈ s.topics
  | .question parent id => (s.questionList parent).any fun e => e.id = .typed id
  | .elsewhere path => path ∈ s.elsewhere

/-- A topic's document is set. -/
def setTopic (s : Store) (topic : String) : Store :=
  { s with topics := if topic ∈ s.topics then s.topics else s.topics ++ [topic] }

/-- `topicDoc.delete()`. -/
def deleteTopic (s : Store) (topic : String) : Store :=
  { s with topics := s.topics.filter fun t => t ≠ topic }

/-- `questionList.add(newQuestion)`. -/
def addQuestion (s : Store) (topic : String) (newQuestion : QuestionDoc) : Store :=
  { s with
    entries := s.entries ++ [{ topic := topic, id := .generated s.nextId, doc := newQuestion }]
    nextId := s.nextId + 1 }

/-- `update` of the document `id` of a topic. -/
def updateQuestion (s : Store) (topic : String) (id : QuestionId) (f : QuestionDoc → QuestionDoc) :
    Store :=
  { s with entries := s.entries.map fun e =>
      if e.topic = topic ∧ e.id = id then { e with doc := f e.doc } else e }

/-- `delete` of the document `id` of a topic. -/
def deleteQuestion (s : Store) (topic : String) (id : QuestionId) : Store :=
  { s with entries := s.entries.filter fun e => ¬ (e.topic = topic ∧ e.id = id) }

/-- `topicDoc.set({'title': topic})`. In a `questionList` it replaces what was there. -/
def setTitle (s : Store) : DocRef → Store
  | .topic id => s.setTopic id
  | .question parent id =>
    let s := s.deleteQuestion parent (.typed id)
    { s with entries := s.entries ++ [{ topic := parent, id := .typed id, doc := titleDoc }] }
  | .elsewhere path => { s with elsewhere := s.elsewhere ++ [path] }

theorem mem_questionList {s : Store} {topic : String} {e : Entry} :
    e ∈ s.questionList topic ↔ e ∈ s.entries ∧ e.topic = topic := by
  simp [questionList]

theorem mem_setTopic {s : Store} {topic t : String} :
    t ∈ (s.setTopic topic).topics ↔ t ∈ s.topics ∨ t = topic := by
  unfold setTopic
  split_ifs with h
  · exact ⟨Or.inl, fun ht => ht.elim id fun e => e ▸ h⟩
  · simp

theorem mem_deleteTopic {s : Store} {topic t : String} :
    t ∈ (s.deleteTopic topic).topics ↔ t ∈ s.topics ∧ t ≠ topic := by
  simp [deleteTopic]

theorem mem_addQuestion {s : Store} {topic : String} {q : QuestionDoc} {e : Entry} :
    e ∈ (s.addQuestion topic q).entries ↔
      e ∈ s.entries ∨ e = { topic := topic, id := .generated s.nextId, doc := q } := by
  simp [addQuestion]

theorem mem_deleteQuestion {s : Store} {topic : String} {id : QuestionId} {e : Entry} :
    e ∈ (s.deleteQuestion topic id).entries ↔ e ∈ s.entries ∧ ¬ (e.topic = topic ∧ e.id = id) := by
  simp only [deleteQuestion, List.mem_filter, decide_eq_true_eq]

/-- A question is deleted from its own list. -/
theorem questionList_deleteQuestion {s : Store} {topic t : String} {id : QuestionId} (hne : topic ≠ t) :
    (s.deleteQuestion topic id).questionList t = s.questionList t := by
  unfold questionList deleteQuestion
  rw [List.filter_filter]
  refine List.filter_congr fun e _ => ?_
  by_cases he : e.topic = t
  · simp [he, Ne.symm hne]
  · simp [he]

/-- **A title that is set leaves every question as it is, and every other list.** -/
theorem mem_setTitle {s : Store} {ref : DocRef} {e : Entry} (h : e ∈ (s.setTitle ref).entries) :
    e ∈ s.entries ∨ ∃ parent id, ref = .question parent id ∧
      e = { topic := parent, id := .typed id, doc := titleDoc } := by
  cases ref with
  | topic id | elsewhere path => exact Or.inl h
  | question parent id =>
    rcases List.mem_append.mp h with h | h
    · exact Or.inl (mem_deleteQuestion.mp h).1
    · exact Or.inr ⟨parent, id, rfl, List.mem_singleton.mp h⟩

/-- The other lists of questions are left. -/
theorem questionList_setTitle {s : Store} {ref : DocRef} {topic : String}
    (h : ∀ parent id, ref = .question parent id → parent ≠ topic) :
    (s.setTitle ref).questionList topic = s.questionList topic := by
  cases ref with
  | topic id | elsewhere path => rfl
  | question parent id =>
    have hne : parent ≠ topic := h parent id rfl
    rw [setTitle, questionList, List.filter_append, List.filter_cons_of_neg (by simpa using hne),
      List.filter_nil, List.append_nil]
    exact questionList_deleteQuestion hne

end Store

/-- What the handler of `Soru Ekle` awaits. -/
inductive AddPc where
  | get
  | set
  | add
  deriving DecidableEq

structure AddCall where
  topicDoc : DocRef
  newQuestion : QuestionDoc
  pc : AddPc
  deriving DecidableEq

/-- The document whose `questionList` the question is added to. -/
def AddCall.topic (c : AddCall) : String := c.topicDoc.path

/-- The awaited call is done, and the handler goes on to the next; `none` when it is past the last. -/
def AddCall.next (s : Store) (c : AddCall) : Store × Option AddCall :=
  match c.pc with
  | .get => (s, some { c with pc := if s.has c.topicDoc then .add else .set })
  | .set => (s.setTitle c.topicDoc, some { c with pc := .add })
  | .add => (s.addQuestion c.topic c.newQuestion, none)

/-- **What an addition stores** is its question, or a title among the questions. -/
theorem AddCall.forall_next {P : QuestionDoc → Prop} {s : Store} {c : AddCall}
    (hs : ∀ e ∈ s.entries, P e.doc) (hc : P c.newQuestion)
    (htitle : c.pc = .set → c.topicDoc.inQuestionList → P titleDoc) :
    ∀ e ∈ (c.next s).1.entries, P e.doc := by
  intro e he
  obtain ⟨topicDoc, newQuestion, pc⟩ := c
  cases pc with
  | get => exact hs e he
  | set =>
    rcases Store.mem_setTitle he with he | ⟨parent, id, rfl, rfl⟩
    · exact hs e he
    · exact htitle rfl rfl
  | add =>
    rcases Store.mem_addQuestion.mp he with he | rfl
    · exact hs e he
    · exact hc

/-- An addition that goes on is still one of the same question. -/
theorem AddCall.newQuestion_next {s : Store} {c c' : AddCall} (h : (c.next s).2 = some c') :
    c'.newQuestion = c.newQuestion := by
  obtain ⟨topicDoc, newQuestion, pc⟩ := c
  cases pc with
  | get | set =>
    obtain rfl := Option.some.inj h
    rfl
  | add => cases h

end KamuSinavi.Bank
