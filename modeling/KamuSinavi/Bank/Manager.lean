import KamuSinavi.Bank.Store

/-! # The form and the dialog that write questions

The admin's question manager (`buildQuestionManager` and `_showEditQuestionDialog` in
`pages/adminDashboard.dart`). Both keep the answer apart from the options. The form stores the texts
of its option fields as they are, but offers them trimmed as answers, and keeps the chosen answer when
fields are retyped or, after a question has been added, cleared. The dialog offers the letters `A` to
`D` as answers and stores trimmed texts.

`answerable_of_checked` says when all stored questions can be answered: the chosen answer is one of
the stored texts at each press of `Soru Ekle` and `Kaydet`, and no topic's title is set among the
questions. -/

namespace KamuSinavi.Bank.Manager

open KamuSinavi.Lib KamuSinavi.Lib.Runs KamuSinavi.Lib.Dart

/-- The edit dialog of the document `id` of a topic. -/
structure Dialog where
  topicId : String
  id : QuestionId
  question : String
  options : Fin 4 → String
  selectedAnswer : String

/-- The data of a pressed `Kaydet` whose `update` is awaited. -/
structure Update where
  topicId : String
  id : QuestionId
  question : String
  options : List String
  answer : String
  deriving DecidableEq

/-- The manager. `items` are the entries of the answer dropdown when it was last built; clearing the
fields does not build it again. -/
structure State where
  question : String
  options : Fin 4 → String
  newTopic : String
  selectedTopic : Option String
  selectedAnswer : Option String
  items : List String
  adding : List AddCall
  dialog : Option Dialog
  updating : List Update
  store : Store

inductive Action where
  | typeQuestion (text : String)
  | typeOption (i : Fin 4) (text : String)
  | typeNewTopic (text : String)
  | chooseTopic (topic : String)
  | chooseAnswer (answer : String)
  | rebuild
  | pressAdd
  | addNext (call : ℕ)
  | addFails (call : ℕ)
  | openDialog (topic : String) (id : QuestionId)
  | typeDialogQuestion (text : String)
  | typeDialogOption (i : Fin 4) (text : String)
  | chooseDialogAnswer (i : Fin 4)
  | cancelDialog
  | pressSave
  | updateNext (call : ℕ)
  | updateFails (call : ℕ)

/-- The entries of the answer dropdown. -/
def dropdownItems (options : Fin 4 → String) : List String :=
  ((List.ofFn options).map trim).filter fun text => !text.isEmpty

/-- The `value:` argument of the answer dropdown. The form field has a shown value of its own, which a
build does not always change. -/
def dropdownValue (s : State) : Option String :=
  s.selectedAnswer.filter fun answer => (List.ofFn s.options).contains answer

/-- The call `Soru Ekle` makes; `none` if it returns at once, or throws as the topic's text is the path
of no document. -/
def addCall (s : State) : Option AddCall :=
  let topic := s.selectedTopic.getD (trim s.newTopic)
  if topic.isEmpty ∨ s.question.isEmpty then none
  else s.selectedAnswer.bind fun answer =>
    (doc topic).map fun topicDoc =>
      { topicDoc := topicDoc
        newQuestion :=
          { question := s.question
            options := List.ofFn s.options
            answer := some answer
            imagePath := none }
        pc := .get }

/-- The letter of the `i`-th option. -/
def letter (i : Fin 4) : String := ["A", "B", "C", "D"].get i

def openedDialog (topicId : String) (id : QuestionId) (data : QuestionDoc) : Dialog where
  topicId := topicId
  id := id
  question := data.question
  options := fun i => data.options.getD i ""
  selectedAnswer := data.answer.getD "A"

/-- What `Kaydet` writes. -/
def updatedData (d : Dialog) : Update where
  topicId := d.topicId
  id := d.id
  question := trim d.question
  options := (List.ofFn d.options).map trim
  answer := d.selectedAnswer

def Update.apply (u : Update) (doc : QuestionDoc) : QuestionDoc :=
  { doc with question := u.question, options := u.options, answer := some u.answer }

/-- The fields cleared when a question has been added. -/
def clearFields (s : State) : State := { s with question := "", options := fun _ => "" }

def step (s : State) : Action → Option State
  | .typeQuestion text => if s.dialog.isNone then some { s with question := text } else none
  | .typeOption i text =>
    if s.dialog.isNone then
      let options := Function.update s.options i text
      some { s with options := options, items := dropdownItems options }
    else none
  | .typeNewTopic text => if s.dialog.isNone then some { s with newTopic := text } else none
  | .chooseTopic topic =>
    if s.dialog.isNone then
      some { s with selectedTopic := some topic, items := dropdownItems s.options }
    else none
  | .chooseAnswer answer =>
    if s.dialog.isNone ∧ answer ∈ s.items then
      some { s with selectedAnswer := some answer, items := dropdownItems s.options }
    else none
  | .rebuild => some { s with items := dropdownItems s.options }
  | .pressAdd =>
    if s.dialog.isNone then some { s with adding := s.adding ++ (addCall s).toList } else none
  | .addNext k =>
    s.adding[k]?.map fun c =>
      match c.next s.store with
      | (store, some c') => { s with store := store, adding := s.adding.set k c' }
      | (store, none) => clearFields { s with store := store, adding := s.adding.eraseIdx k }
  | .addFails k => s.adding[k]?.map fun _ => { s with adding := s.adding.eraseIdx k }
  | .openDialog topic id =>
    if s.dialog.isNone then
      ((s.store.questionList topic).find? fun e => e.id = id).map fun e =>
        { s with dialog := some (openedDialog topic id e.doc) }
    else none
  | .typeDialogQuestion text =>
    s.dialog.map fun d => { s with dialog := some { d with question := text } }
  | .typeDialogOption i text =>
    s.dialog.map fun d =>
      { s with dialog := some { d with options := Function.update d.options i text } }
  | .chooseDialogAnswer i =>
    s.dialog.map fun d => { s with dialog := some { d with selectedAnswer := letter i } }
  | .cancelDialog => s.dialog.map fun _ => { s with dialog := none }
  | .pressSave => s.dialog.map fun d => { s with updating := s.updating ++ [updatedData d] }
  | .updateNext k =>
    s.updating[k]?.map fun u =>
      { s with
        store := s.store.updateQuestion u.topicId u.id u.apply
        updating := s.updating.eraseIdx k
        items := dropdownItems s.options
        dialog := none }
  | .updateFails k => s.updating[k]?.map fun _ => { s with updating := s.updating.eraseIdx k }

/-- The manager opened on a bank. -/
def opened (store : Store) : State where
  question := ""
  options := fun _ => ""
  newTopic := ""
  selectedTopic := none
  selectedAnswer := none
  items := []
  adding := []
  dialog := none
  updating := []
  store := store

/-- The answer is, as a string, one of the options. -/
def QuestionDoc.Answerable (d : QuestionDoc) : Prop := ∃ answer ∈ d.answer, answer ∈ d.options

/-- **Every stored question can be answered correctly.** -/
def Answerable (s : State) : Prop := ∀ e ∈ s.store.entries, QuestionDoc.Answerable e.doc

instance (d : QuestionDoc) : Decidable (QuestionDoc.Answerable d) :=
  inferInstanceAs (Decidable (∃ answer ∈ d.answer, answer ∈ d.options))

instance : DecidablePred Answerable := fun s =>
  inferInstanceAs (Decidable (∀ e ∈ s.store.entries, QuestionDoc.Answerable e.doc))

/-- The form stores a question only while the chosen answer is the value given to the dropdown, and sets
no title in a list of questions; the dialog stores one only while its answer is one of the trimmed
texts. -/
def Checked (s : State) : Action → Prop
  | .pressAdd => addCall s ≠ none → dropdownValue s ≠ none
  | .addNext k => ∀ c ∈ s.adding[k]?, c.pc = .set → ¬ c.topicDoc.inQuestionList
  | .pressSave => ∀ d ∈ s.dialog, d.selectedAnswer ∈ (List.ofFn d.options).map trim
  | _ => True

instance (s : State) : DecidablePred (Checked s)
  | .pressAdd => inferInstanceAs (Decidable (addCall s ≠ none → dropdownValue s ≠ none))
  | .addNext k => inferInstanceAs (Decidable
      (∀ c ∈ s.adding[k]?, c.pc = .set → ¬ c.topicDoc.inQuestionList))
  | .pressSave => inferInstanceAs (Decidable
      (∀ d ∈ s.dialog, d.selectedAnswer ∈ (List.ofFn d.options).map trim))
  | .typeQuestion _ | .typeOption .. | .typeNewTopic _ | .chooseTopic _ | .chooseAnswer _ | .rebuild
  | .addFails _ | .openDialog .. | .typeDialogQuestion _ | .typeDialogOption .. | .chooseDialogAnswer _
  | .cancelDialog | .updateNext _ | .updateFails _ => isTrue trivial

/-- The stored questions and those on their way can be answered. -/
structure Inv (s : State) : Prop where
  stored : Answerable s
  adding : ∀ c ∈ s.adding, QuestionDoc.Answerable c.newQuestion
  updating : ∀ u ∈ s.updating, u.answer ∈ u.options

theorem Inv.frame {s t : State} (h : Inv s) (hs : t.store = s.store) (ha : t.adding = s.adding)
    (hu : t.updating = s.updating) : Inv t :=
  ⟨fun e he => h.stored e (hs ▸ he), fun c hc => h.adding c (ha ▸ hc),
    fun u hu' => h.updating u (hu ▸ hu')⟩

/-- What `Soru Ekle` adds. -/
theorem eq_of_addCall {s : State} {c : AddCall} (h : addCall s = some c) :
    c.newQuestion.answer = s.selectedAnswer ∧ s.selectedAnswer ≠ none ∧
      c.newQuestion.options = List.ofFn s.options := by
  unfold addCall at h
  simp only at h
  split_ifs at h
  obtain ⟨answer, ha, h⟩ := Option.bind_eq_some_iff.mp h
  obtain ⟨topicDoc, -, rfl⟩ := Option.map_eq_some_iff.mp h
  rw [ha]
  exact ⟨rfl, Option.some_ne_none answer, rfl⟩

/-- While the chosen answer is the value of the dropdown it is one of the texts that are stored. -/
theorem answerable_addCall {s : State} {c : AddCall} (h : addCall s = some c)
    (hv : dropdownValue s ≠ none) : QuestionDoc.Answerable c.newQuestion := by
  obtain ⟨hanswer, -, hoptions⟩ := eq_of_addCall h
  obtain ⟨v, hv⟩ := Option.ne_none_iff_exists'.mp hv
  obtain ⟨hsel, hmem⟩ := Option.filter_eq_some_iff.mp hv
  rw [← hanswer] at hsel
  exact ⟨v, hsel, by rw [hoptions]; simpa using hmem⟩

theorem answerable_apply {u : Update} (h : u.answer ∈ u.options) (doc : QuestionDoc) :
    QuestionDoc.Answerable (u.apply doc) := ⟨u.answer, rfl, h⟩

theorem Inv.addNext {s : State} (h : Inv s) {k : ℕ} {c : AddCall} (hc : s.adding[k]? = some c)
    (hset : c.pc = .set → ¬ c.topicDoc.inQuestionList) :
    Inv (match c.next s.store with
      | (store, some c') => { s with store := store, adding := s.adding.set k c' }
      | (store, none) => clearFields { s with store := store, adding := s.adding.eraseIdx k }) := by
  have hans := h.adding c (List.mem_of_getElem? hc)
  have hstored := AddCall.forall_next h.stored hans fun hpc hin => absurd hin (hset hpc)
  have hnew : ∀ c', (c.next s.store).2 = some c' → QuestionDoc.Answerable c'.newQuestion :=
    fun c' hc' => AddCall.newQuestion_next hc' ▸ hans
  revert hstored hnew
  rcases c.next s.store with ⟨store, _ | c'⟩ <;> intro hstored hnew
  · exact ⟨hstored, Calls.forall_mem_eraseIdx h.adding, h.updating⟩
  · exact ⟨hstored, Calls.forall_mem_set h.adding (hnew c' rfl), h.updating⟩

theorem Inv.updateNext {s : State} (h : Inv s) {k : ℕ} {u : Update} (hu : s.updating[k]? = some u) :
    Inv { s with
      store := s.store.updateQuestion u.topicId u.id u.apply
      updating := s.updating.eraseIdx k
      items := dropdownItems s.options
      dialog := none } := by
  have hans := h.updating u (List.mem_of_getElem? hu)
  refine ⟨fun e he => ?_, h.adding, Calls.forall_mem_eraseIdx h.updating⟩
  obtain ⟨e', he', rfl⟩ := List.mem_map.mp he
  split_ifs
  · exact answerable_apply hans e'.doc
  · exact h.stored e' he'

/-- **A checked step keeps the questions answerable.** -/
theorem inv_step {s t : State} {a : Action} (h : Inv s) (hc : Checked s a) (hs : step s a = some t) :
    Inv t := by
  cases a with
  | typeQuestion text | typeOption i text | typeNewTopic text | chooseTopic topic
  | chooseAnswer answer =>
    simp only [step, Option.ite_none_right_eq_some, Option.some.injEq] at hs
    obtain ⟨-, rfl⟩ := hs
    exact h.frame rfl rfl rfl
  | rebuild =>
    obtain rfl := Option.some.inj hs
    exact h.frame rfl rfl rfl
  | pressAdd =>
    simp only [step, Option.ite_none_right_eq_some, Option.some.injEq] at hs
    obtain ⟨-, rfl⟩ := hs
    refine ⟨h.stored, List.forall_mem_append.mpr ⟨h.adding, fun c hadd => ?_⟩, h.updating⟩
    rw [Option.mem_toList] at hadd
    exact answerable_addCall hadd (hc (by rw [hadd]; exact Option.some_ne_none c))
  | addNext k =>
    obtain ⟨c, hk, rfl⟩ := Option.map_eq_some_iff.mp hs
    exact h.addNext hk (hc c hk)
  | addFails k =>
    obtain ⟨c, -, rfl⟩ := Option.map_eq_some_iff.mp hs
    exact ⟨h.stored, Calls.forall_mem_eraseIdx h.adding, h.updating⟩
  | openDialog topic id =>
    simp only [step, Option.ite_none_right_eq_some] at hs
    obtain ⟨e, -, rfl⟩ := Option.map_eq_some_iff.mp hs.2
    exact h.frame rfl rfl rfl
  | typeDialogQuestion text | typeDialogOption i text | chooseDialogAnswer i | cancelDialog =>
    obtain ⟨d, -, rfl⟩ := Option.map_eq_some_iff.mp hs
    exact h.frame rfl rfl rfl
  | pressSave =>
    obtain ⟨d, hd, rfl⟩ := Option.map_eq_some_iff.mp hs
    exact ⟨h.stored, h.adding, Calls.forall_mem_concat h.updating (hc d hd)⟩
  | updateNext k =>
    obtain ⟨u, hk, rfl⟩ := Option.map_eq_some_iff.mp hs
    exact h.updateNext hk
  | updateFails k =>
    obtain ⟨u, -, rfl⟩ := Option.map_eq_some_iff.mp hs
    exact ⟨h.stored, h.adding, Calls.forall_mem_eraseIdx h.updating⟩

/-- **All stored questions can be answered in every run whose presses of `Soru Ekle` and `Kaydet` find
the answer among the texts they store**, and that sets no title among the questions. -/
theorem answerable_of_checked {store : Store} (h : Answerable (opened store)) {as : List Action}
    (hc : Along step Checked (opened store) as) : Always step Answerable (opened store) as :=
  always_of_along (J := Inv) (fun _ _ _ hI hc hs => inv_step hI hc hs) (fun _ hI => hI.stored)
    ⟨h, fun _ hc => absurd hc List.not_mem_nil, fun _ hu => absurd hu List.not_mem_nil⟩ hc

/-! ### An answer that outlives its options -/

/-- A question typed, its answer chosen, and stored. -/
def addSum : List Action :=
  [.typeNewTopic "Matematik", .typeQuestion "2 + 2 = ?", .typeOption 0 "4", .typeOption 1 "5",
    .typeOption 2 "6", .typeOption 3 "7", .chooseAnswer "4", .pressAdd, .addNext 0, .addNext 0,
    .addNext 0]

/-- A second question typed, its answer chosen, and stored. -/
def addSums : List Action :=
  addSum ++
    [.typeQuestion "2 + 3 = ?", .typeOption 0 "4", .typeOption 1 "5", .typeOption 2 "6",
      .typeOption 3 "7", .chooseAnswer "5", .pressAdd, .addNext 0, .addNext 0]

/-- Another one, for which no answer is chosen. -/
def addProduct : List Action :=
  [.typeQuestion "3 * 3 = ?", .typeOption 0 "9", .typeOption 1 "6", .typeOption 2 "3",
    .typeOption 3 "33", .pressAdd, .addNext 0, .addNext 0]

/-- A topic typed as the path of a question. -/
example : ¬ Always step Answerable (opened Store.empty)
    [.typeNewTopic "Matematik/questionList/x", .typeQuestion "2 + 2 = ?", .typeOption 0 "4",
      .chooseAnswer "4", .pressAdd, .addNext 0, .addNext 0] := by
  decide

theorem answerable_of_checked_addSum : Always step Answerable (opened Store.empty) addSum :=
  answerable_of_checked (fun _ he => absurd he List.not_mem_nil) (by decide)

/-- **The answer of one question is stored with the options of the next.** -/
theorem addProduct_not_answerable :
    ¬ Always step Answerable (opened Store.empty) (addSum ++ addProduct) := by
  decide

/-! ### No answer is empty -/

/-- Every stored question has an answer, which is not empty, or is a title only. -/
def Answered (store : Store) : Prop :=
  ∀ e ∈ store.entries, e.doc.answer.getD "" ≠ "" ∨ e.doc = titleDoc

/-- No answer is empty: not one that is stored or on its way, nor one that the form or the dialog
holds or offers. -/
structure NoneEmpty (s : State) : Prop where
  stored : Answered s.store
  adding : ∀ c ∈ s.adding, c.newQuestion.answer.getD "" ≠ ""
  updating : ∀ u ∈ s.updating, u.answer ≠ ""
  items : ∀ item ∈ s.items, item ≠ ""
  form : ∀ answer ∈ s.selectedAnswer, answer ≠ ""
  dialog : ∀ d ∈ s.dialog, d.selectedAnswer ≠ ""

theorem ne_empty_of_mem_dropdownItems {options : Fin 4 → String} {item : String}
    (h : item ∈ dropdownItems options) : item ≠ "" := by
  unfold dropdownItems at h
  obtain ⟨-, hne⟩ := List.mem_filter.mp h
  rintro rfl
  exact absurd hne (by decide)

/-- The dropdown was built, or is the same. -/
theorem items_ne_empty {s t : State} (h : ∀ item ∈ s.items, item ≠ "")
    (ht : t.items = s.items ∨ ∃ options, t.items = dropdownItems options) :
    ∀ item ∈ t.items, item ≠ "" := by
  intro item hmem
  rcases ht with ht | ⟨options, ht⟩
  · rw [ht] at hmem
    exact h item hmem
  · rw [ht] at hmem
    exact ne_empty_of_mem_dropdownItems hmem

theorem NoneEmpty.frame {s t : State} (h : NoneEmpty s) (hs : t.store = s.store)
    (ha : t.adding = s.adding) (hu : t.updating = s.updating)
    (hi : t.items = s.items ∨ ∃ options, t.items = dropdownItems options)
    (hf : t.selectedAnswer = s.selectedAnswer) (hd : t.dialog = s.dialog) : NoneEmpty t :=
  ⟨hs ▸ h.stored, ha ▸ h.adding, hu ▸ h.updating, items_ne_empty h.items hi, hf ▸ h.form, hd ▸ h.dialog⟩

/-- The dialog opens on the stored answer, or on a letter. -/
theorem ne_empty_openedDialog {topicId : String} {id : QuestionId} {data : QuestionDoc}
    (h : data.answer.getD "" ≠ "" ∨ data = titleDoc) :
    (openedDialog topicId id data).selectedAnswer ≠ "" := by
  have hA : "A" ≠ "" := by decide
  unfold openedDialog
  rcases h with h | rfl
  · cases hans : data.answer with
    | none => exact hA
    | some answer =>
      rw [hans] at h
      exact h
  · exact hA

/-- `Soru Ekle` stores the answer the form holds. -/
theorem ne_empty_addCall {s : State} {c : AddCall} (h : addCall s = some c)
    (hform : ∀ answer ∈ s.selectedAnswer, answer ≠ "") : c.newQuestion.answer.getD "" ≠ "" := by
  obtain ⟨hanswer, hne, -⟩ := eq_of_addCall h
  obtain ⟨answer, hans⟩ := Option.ne_none_iff_exists'.mp hne
  rw [hanswer, hans]
  exact hform answer hans

theorem NoneEmpty.addNext {s : State} (h : NoneEmpty s) {k : ℕ} {c : AddCall}
    (hc : s.adding[k]? = some c) :
    NoneEmpty (match c.next s.store with
      | (store, some c') => { s with store := store, adding := s.adding.set k c' }
      | (store, none) => clearFields { s with store := store, adding := s.adding.eraseIdx k }) := by
  have hans := h.adding c (List.mem_of_getElem? hc)
  have hstored : Answered (c.next s.store).1 :=
    AddCall.forall_next (P := fun d => d.answer.getD "" ≠ "" ∨ d = titleDoc) h.stored (Or.inl hans)
      fun _ _ => Or.inr rfl
  have hnew : ∀ c', (c.next s.store).2 = some c' → c'.newQuestion.answer.getD "" ≠ "" :=
    fun c' hc' => AddCall.newQuestion_next hc' ▸ hans
  revert hstored hnew
  rcases c.next s.store with ⟨store, _ | c'⟩ <;> intro hstored hnew
  · exact { h with stored := hstored, adding := Calls.forall_mem_eraseIdx h.adding }
  · exact { h with stored := hstored, adding := Calls.forall_mem_set h.adding (hnew c' rfl) }

theorem NoneEmpty.updateNext {s : State} (h : NoneEmpty s) {k : ℕ} {u : Update}
    (hu : s.updating[k]? = some u) :
    NoneEmpty { s with
      store := s.store.updateQuestion u.topicId u.id u.apply
      updating := s.updating.eraseIdx k
      items := dropdownItems s.options
      dialog := none } := by
  have hans := h.updating u (List.mem_of_getElem? hu)
  refine ⟨fun e he => ?_, h.adding, Calls.forall_mem_eraseIdx h.updating,
    items_ne_empty h.items (Or.inr ⟨s.options, by dsimp only⟩), h.form, fun _ hd => by cases hd⟩
  obtain ⟨e', he', rfl⟩ := List.mem_map.mp he
  split_ifs
  · exact Or.inl hans
  · exact h.stored e' he'

/-- **No step makes an answer empty.** -/
theorem noneEmpty_step {s t : State} {a : Action} (h : NoneEmpty s) (hs : step s a = some t) :
    NoneEmpty t := by
  cases a with
  | typeQuestion text | typeNewTopic text =>
    simp only [step, Option.ite_none_right_eq_some, Option.some.injEq] at hs
    obtain ⟨-, rfl⟩ := hs
    exact h.frame rfl rfl rfl (Or.inl rfl) rfl rfl
  | typeOption i text =>
    simp only [step, Option.ite_none_right_eq_some, Option.some.injEq] at hs
    obtain ⟨-, rfl⟩ := hs
    exact h.frame rfl rfl rfl (Or.inr ⟨Function.update s.options i text, by dsimp only⟩) rfl rfl
  | chooseTopic topic =>
    simp only [step, Option.ite_none_right_eq_some, Option.some.injEq] at hs
    obtain ⟨-, rfl⟩ := hs
    exact h.frame rfl rfl rfl (Or.inr ⟨s.options, by dsimp only⟩) rfl rfl
  | chooseAnswer answer =>
    simp only [step, Option.ite_none_right_eq_some, Option.some.injEq] at hs
    obtain ⟨⟨-, hmem⟩, rfl⟩ := hs
    refine ⟨h.stored, h.adding, h.updating,
      items_ne_empty h.items (Or.inr ⟨s.options, by dsimp only⟩), fun b hb => ?_, h.dialog⟩
    obtain rfl := Option.some.inj hb
    exact h.items _ hmem
  | rebuild =>
    obtain rfl := Option.some.inj hs
    exact h.frame rfl rfl rfl (Or.inr ⟨s.options, by dsimp only⟩) rfl rfl
  | pressAdd =>
    simp only [step, Option.ite_none_right_eq_some, Option.some.injEq] at hs
    obtain ⟨-, rfl⟩ := hs
    refine { h with adding := List.forall_mem_append.mpr ⟨h.adding, fun c hadd => ?_⟩ }
    rw [Option.mem_toList] at hadd
    exact ne_empty_addCall hadd h.form
  | addNext k =>
    obtain ⟨c, hk, rfl⟩ := Option.map_eq_some_iff.mp hs
    exact h.addNext hk
  | addFails k =>
    obtain ⟨c, -, rfl⟩ := Option.map_eq_some_iff.mp hs
    exact { h with adding := Calls.forall_mem_eraseIdx h.adding }
  | openDialog topic id =>
    simp only [step, Option.ite_none_right_eq_some] at hs
    obtain ⟨e, he, rfl⟩ := Option.map_eq_some_iff.mp hs.2
    have hmem := (Store.mem_questionList.mp (List.mem_of_find?_eq_some he)).1
    refine { h with dialog := fun d hd => ?_ }
    obtain rfl := Option.some.inj hd
    exact ne_empty_openedDialog (h.stored e hmem)
  | typeDialogQuestion text | typeDialogOption i text =>
    obtain ⟨d, hd, rfl⟩ := Option.map_eq_some_iff.mp hs
    refine { h with dialog := fun d' hd' => ?_ }
    obtain rfl := Option.some.inj hd'
    exact h.dialog d hd
  | chooseDialogAnswer i =>
    obtain ⟨d, -, rfl⟩ := Option.map_eq_some_iff.mp hs
    have hletter : ∀ i, letter i ≠ "" := by decide
    refine { h with dialog := fun d' hd' => ?_ }
    obtain rfl := Option.some.inj hd'
    exact hletter i
  | cancelDialog =>
    obtain ⟨d, -, rfl⟩ := Option.map_eq_some_iff.mp hs
    exact { h with dialog := fun _ hd => by cases hd }
  | pressSave =>
    obtain ⟨d, hd, rfl⟩ := Option.map_eq_some_iff.mp hs
    exact { h with updating := Calls.forall_mem_concat h.updating (h.dialog d hd) }
  | updateNext k =>
    obtain ⟨u, hk, rfl⟩ := Option.map_eq_some_iff.mp hs
    exact h.updateNext hk
  | updateFails k =>
    obtain ⟨u, -, rfl⟩ := Option.map_eq_some_iff.mp hs
    exact { h with updating := Calls.forall_mem_eraseIdx h.updating }

/-- **The manager never stores an empty answer**, but for a title that it sets among the questions. -/
theorem answered_run {store : Store} (h : Answered store) {as : List Action} {s : State}
    (hs : run step (opened store) as = some s) : Answered s.store := by
  have hstart : NoneEmpty (opened store) :=
    ⟨h, fun _ hc => absurd hc List.not_mem_nil, fun _ hu => absurd hu List.not_mem_nil,
      fun _ hi => absurd hi List.not_mem_nil, fun _ ha => (by cases ha), fun _ hd => by cases hd⟩
  exact (run_of_keeps (fun _ _ _ hI hst => noneEmpty_step hI hst) hstart hs).stored

end KamuSinavi.Bank.Manager
