import KamuSinavi.Bank.Store

/-! # Topics and their questions

Several admins add questions, delete questions and delete topics (`buildQuestionManager` in
`pages/adminDashboard.dart`). Each of these is a handler that suspends at its calls of the database
and at its dialog; an action lets one of them go on, or fail there.

The questions of a topic should be those added since its document was last created and not deleted
since, and a listed topic should have one. `added` keeps the former; the code has nothing like it.
`sound_of_kept` says that this is so whenever no handler runs, in every run that creates a topic only
while it has no questions left from an earlier time, sets no title among the questions of a listed
topic, and takes the last question from a listed topic only while one is being added to it. -/

namespace KamuSinavi.Bank.Topics

open KamuSinavi.Lib KamuSinavi.Lib.Runs

/-- What the handler of `Soruyu Sil` awaits: the number of questions, the dialog, the delete. -/
inductive DeletePc where
  | count
  | confirm
  | delete
  deriving DecidableEq

structure DeleteCall where
  topic : String
  id : QuestionId
  pc : DeletePc
  deriving DecidableEq

/-- What the handler of `Konu Başlığını Sil` awaits. -/
inductive TopicPc where
  | confirm
  | delete
  deriving DecidableEq

structure TopicCall where
  topic : String
  pc : TopicPc
  deriving DecidableEq

structure State where
  store : Store
  adds : List AddCall
  deletes : List DeleteCall
  topicDeletes : List TopicCall
  added : List (String × QuestionId)
  deriving DecidableEq

inductive Action where
  | pressAdd (topic : String) (newQuestion : QuestionDoc)
  | addNext (call : ℕ)
  | addFails (call : ℕ)
  | pressDelete (topic : String) (id : QuestionId)
  | deleteNext (call : ℕ)
  | deleteStops (call : ℕ)
  | pressDeleteTopic (topic : String)
  | topicNext (call : ℕ)
  | topicStops (call : ℕ)

/-- What an addition does to `added` when the awaited call is done. -/
def addedNext (s : State) (c : AddCall) : List (String × QuestionId) :=
  match c.pc with
  | .get => s.added
  | .set =>
    match c.topicDoc with
    | .topic id => if id ∈ s.store.topics then s.added else s.added.filter fun a => a.1 ≠ id
    | .question .. | .elsewhere _ => s.added
  | .add => s.added ++ [(c.topic, .generated s.store.nextId)]

/-- The last question of a topic is not deleted: the handler returns if it counts one. A topic's text
that is the path of no document makes `Soru Ekle` throw. -/
def step (s : State) : Action → Option State
  | .pressAdd topic newQuestion =>
    let call := (doc topic).map fun topicDoc =>
      { topicDoc := topicDoc, newQuestion := newQuestion, pc := .get }
    some { s with adds := s.adds ++ call.toList }
  | .addNext k =>
    s.adds[k]?.map fun c =>
      { s with
        store := (c.next s.store).1
        adds := match (c.next s.store).2 with
          | some c' => s.adds.set k c'
          | none => s.adds.eraseIdx k
        added := addedNext s c }
  | .addFails k => s.adds[k]?.map fun _ => { s with adds := s.adds.eraseIdx k }
  | .pressDelete topic id =>
    some { s with deletes := s.deletes ++ [{ topic := topic, id := id, pc := .count }] }
  | .deleteNext k =>
    s.deletes[k]?.map fun c =>
      match c.pc with
      | .count =>
        let totalQuestions := (s.store.questionList c.topic).length
        if totalQuestions = 1 then { s with deletes := s.deletes.eraseIdx k }
        else { s with deletes := s.deletes.set k { c with pc := .confirm } }
      | .confirm => { s with deletes := s.deletes.set k { c with pc := .delete } }
      | .delete =>
        { s with
          store := s.store.deleteQuestion c.topic c.id
          deletes := s.deletes.eraseIdx k
          added := s.added.filter fun a => a ≠ (c.topic, c.id) }
  -- a call fails, or the dialog is answered with no
  | .deleteStops k => s.deletes[k]?.map fun _ => { s with deletes := s.deletes.eraseIdx k }
  | .pressDeleteTopic topic =>
    some { s with topicDeletes := s.topicDeletes ++ [{ topic := topic, pc := .confirm }] }
  | .topicNext k =>
    s.topicDeletes[k]?.map fun c =>
      match c.pc with
      | .confirm => { s with topicDeletes := s.topicDeletes.set k { c with pc := .delete } }
      | .delete =>
        { s with
          store := s.store.deleteTopic c.topic
          topicDeletes := s.topicDeletes.eraseIdx k }
  | .topicStops k =>
    s.topicDeletes[k]?.map fun _ => { s with topicDeletes := s.topicDeletes.eraseIdx k }

/-- No handler runs. -/
def Idle (s : State) : Prop := s.adds = [] ∧ s.deletes = [] ∧ s.topicDeletes = []

/-- The questions of a listed topic are those added since it was created and not deleted since. -/
def Current (s : State) : Prop :=
  ∀ t ∈ s.store.topics, ∀ id, (∃ e ∈ s.store.questionList t, e.id = id) ↔ (t, id) ∈ s.added

/-- **The bank is a map from topics to non-empty collections of questions**, whenever no handler
runs. -/
def Sound (s : State) : Prop :=
  Idle s → (∀ t ∈ s.store.topics, s.store.questionList t ≠ []) ∧ Current s

/-- A question is being added to the topic, not counting the `k`-th addition. -/
def AnotherAdd (s : State) (k : ℕ) (topic : String) : Prop :=
  ∃ c ∈ s.adds.eraseIdx k, c.topic = topic

/-- No question is left in the collection of a topic that is created, and no title is set among the
questions of a listed topic. -/
def Creatable (s : Store) : DocRef → Prop
  | .topic id => id ∉ s.topics → s.questionList id = []
  | .question parent _ => parent ∉ s.topics
  | .elsewhere _ => True

/-- A title is set only where it can be. A listed topic loses its last question, or the question that
was being added to it, only while another one is being added. -/
def Kept (s : State) : Action → Prop
  | .addNext k => ∀ c ∈ s.adds[k]?, c.pc = .set → Creatable s.store c.topicDoc
  | .addFails k => ∀ c ∈ s.adds[k]?, c.topic ∈ s.store.topics →
      s.store.questionList c.topic ≠ [] ∨ AnotherAdd s k c.topic
  | .deleteNext k => ∀ c ∈ s.deletes[k]?, c.pc = .delete → c.topic ∈ s.store.topics →
      (∃ e ∈ s.store.questionList c.topic, e.id ≠ c.id) ∨ ∃ a ∈ s.adds, a.topic = c.topic
  | _ => True

instance (s : State) (k : ℕ) (topic : String) : Decidable (AnotherAdd s k topic) :=
  inferInstanceAs (Decidable (∃ c ∈ s.adds.eraseIdx k, c.topic = topic))

instance (s : Store) : DecidablePred (Creatable s)
  | .topic id => inferInstanceAs (Decidable (id ∉ s.topics → s.questionList id = []))
  | .question parent _ => inferInstanceAs (Decidable (parent ∉ s.topics))
  | .elsewhere _ => isTrue trivial

instance (s : State) : DecidablePred (Kept s)
  | .addNext k => inferInstanceAs (Decidable
      (∀ c ∈ s.adds[k]?, c.pc = .set → Creatable s.store c.topicDoc))
  | .addFails k => inferInstanceAs (Decidable (∀ c ∈ s.adds[k]?, c.topic ∈ s.store.topics →
      s.store.questionList c.topic ≠ [] ∨ AnotherAdd s k c.topic))
  | .deleteNext k => inferInstanceAs (Decidable (∀ c ∈ s.deletes[k]?, c.pc = .delete →
      c.topic ∈ s.store.topics →
      (∃ e ∈ s.store.questionList c.topic, e.id ≠ c.id) ∨ ∃ a ∈ s.adds, a.topic = c.topic))
  | .pressAdd .. | .pressDelete .. | .deleteStops _ | .pressDeleteTopic _ | .topicNext _
  | .topicStops _ => isTrue trivial

/-- A listed topic has a question, or one is being added to it. -/
def Filled (s : State) : Prop :=
  ∀ t ∈ s.store.topics, s.store.questionList t ≠ [] ∨ ∃ c ∈ s.adds, c.topic = t

structure Inv (s : State) : Prop where
  filled : Filled s
  current : Current s

theorem Inv.sound {s : State} (h : Inv s) : Sound s := by
  rintro ⟨hadds, -, -⟩
  refine ⟨fun t ht => (h.filled t ht).resolve_right ?_, h.current⟩
  rintro ⟨c, hc, -⟩
  rw [hadds] at hc
  exact absurd hc List.not_mem_nil

/-- The additions that go on are for the same topics. -/
theorem exists_topic_set {adds : List AddCall} {k : ℕ} {c b : AddCall} (hc : adds[k]? = some c)
    (ht : b.topic = c.topic) {d : AddCall} (hd : d ∈ adds) :
    ∃ d' ∈ adds.set k b, d'.topic = d.topic := by
  rcases Calls.eq_or_mem_set hc b hd with rfl | hd
  · exact ⟨b, Calls.mem_set_self hc b, ht⟩
  · exact ⟨d, hd, rfl⟩

/-- An addition to another topic goes on when one ends. -/
theorem mem_eraseIdx_of_topic {adds : List AddCall} {k : ℕ} {c d : AddCall} (hc : adds[k]? = some c)
    (hd : d ∈ adds) (hne : d.topic ≠ c.topic) : d ∈ adds.eraseIdx k :=
  (Calls.eq_or_mem_eraseIdx hc hd).resolve_left fun e => hne (e ▸ rfl)

/-- The store and `added` are the same, and the additions are for the same topics. -/
theorem Inv.frame {s t : State} (h : Inv s) (hs : t.store = s.store) (ha : t.added = s.added)
    (hadds : ∀ c ∈ s.adds, ∃ c' ∈ t.adds, c'.topic = c.topic) : Inv t := by
  refine ⟨fun u hu => ?_, fun u hu id => ?_⟩
  · rw [hs] at hu ⊢
    refine (h.filled u hu).imp_right ?_
    rintro ⟨c, hc, rfl⟩
    exact hadds c hc
  · rw [hs] at hu ⊢
    rw [ha]
    exact h.current u hu id

/-- A topic is created, or is there already. -/
theorem Inv.setTopic {s : State} (h : Inv s) {k : ℕ} {topic : String} {newQuestion : QuestionDoc}
    {pc : AddPc} (hc : s.adds[k]? = some ⟨.topic topic, newQuestion, pc⟩)
    (hempty : topic ∉ s.store.topics → s.store.questionList topic = []) :
    Inv { s with
      store := s.store.setTopic topic
      adds := s.adds.set k ⟨.topic topic, newQuestion, .add⟩
      added := if topic ∈ s.store.topics then s.added else s.added.filter fun a => a.1 ≠ topic } := by
  have hlist : ∀ t, (s.store.setTopic topic).questionList t = s.store.questionList t := fun t => rfl
  refine ⟨fun t ht => ?_, fun t ht id => ?_⟩
  · rcases Store.mem_setTopic.mp ht with ht | rfl
    · refine (h.filled t ht).imp_right ?_
      rintro ⟨d, hd, rfl⟩
      exact exists_topic_set hc (b := ⟨.topic topic, newQuestion, .add⟩) rfl hd
    · exact Or.inr ⟨_, Calls.mem_set_self hc _, rfl⟩
  · simp only [hlist]
    by_cases hnew : topic ∈ s.store.topics
    · rw [if_pos hnew]
      refine h.current t ((Store.mem_setTopic.mp ht).elim (fun h => h) fun e => e ▸ hnew) id
    · rw [if_neg hnew, List.mem_filter]
      rcases Store.mem_setTopic.mp ht with ht | rfl
      · have hne : t ≠ topic := fun e => hnew (e ▸ ht)
        rw [h.current t ht id]
        simp [hne]
      · rw [hempty hnew]
        simp

/-- A title is set somewhere else. -/
theorem Inv.setBelow {s : State} (h : Inv s) {k : ℕ} {c : AddCall} (hc : s.adds[k]? = some c)
    (htopics : (s.store.setTitle c.topicDoc).topics = s.store.topics)
    (hlists : ∀ t ∈ s.store.topics,
      (s.store.setTitle c.topicDoc).questionList t = s.store.questionList t) :
    Inv { s with
      store := s.store.setTitle c.topicDoc
      adds := s.adds.set k { c with pc := .add } } := by
  refine ⟨fun t ht => ?_, fun t ht id => ?_⟩
  · have ht : t ∈ s.store.topics := htopics ▸ ht
    refine (h.filled t ht).imp (fun hne => ?_) ?_
    · exact (hlists t ht).trans_ne hne
    · rintro ⟨d, hd, rfl⟩
      exact exists_topic_set hc (b := { c with pc := .add }) rfl hd
  · have ht : t ∈ s.store.topics := htopics ▸ ht
    have hcurrent := h.current t ht id
    rw [← hlists t ht] at hcurrent
    exact hcurrent

theorem Inv.add {s : State} (h : Inv s) {k : ℕ} {c : AddCall} (hc : s.adds[k]? = some c) :
    Inv { s with
      store := s.store.addQuestion c.topic c.newQuestion
      adds := s.adds.eraseIdx k
      added := s.added ++ [(c.topic, .generated s.store.nextId)] } := by
  have hmem : ∀ t e, e ∈ (s.store.addQuestion c.topic c.newQuestion).questionList t ↔
      e ∈ s.store.questionList t ∨
        e = { topic := c.topic, id := .generated s.store.nextId, doc := c.newQuestion } ∧
          c.topic = t := by
    intro t e
    rw [Store.mem_questionList, Store.mem_questionList, Store.mem_addQuestion, or_and_right]
    refine or_congr_right (and_congr_right fun he => ?_)
    rw [he]
  refine ⟨fun t ht => ?_, fun t ht id => ?_⟩
  · by_cases hct : c.topic = t
    · left
      exact List.ne_nil_of_mem ((hmem t _).mpr (Or.inr ⟨rfl, hct⟩))
    · refine (h.filled t ht).imp (fun hne => ?_) ?_
      · obtain ⟨e, he⟩ := List.exists_mem_of_ne_nil _ hne
        exact List.ne_nil_of_mem ((hmem t e).mpr (Or.inl he))
      · rintro ⟨d, hd, rfl⟩
        exact ⟨d, mem_eraseIdx_of_topic hc hd fun e => hct e.symm, rfl⟩
  · rw [List.mem_append, List.mem_singleton, Prod.mk.injEq, ← h.current t ht id]
    constructor
    · rintro ⟨e, he, rfl⟩
      rcases (hmem t e).mp he with he | ⟨rfl, hct⟩
      · exact Or.inl ⟨e, he, rfl⟩
      · exact Or.inr ⟨hct.symm, rfl⟩
    · rintro (⟨e, he, rfl⟩ | ⟨rfl, rfl⟩)
      · exact ⟨e, (hmem t e).mpr (Or.inl he), rfl⟩
      · exact ⟨_, (hmem _ _).mpr (Or.inr ⟨rfl, rfl⟩), rfl⟩

theorem Inv.delete {s : State} (h : Inv s) {c : DeleteCall}
    (hkept : c.topic ∈ s.store.topics →
      (∃ e ∈ s.store.questionList c.topic, e.id ≠ c.id) ∨ ∃ a ∈ s.adds, a.topic = c.topic)
    (deletes : List DeleteCall) :
    Inv { s with
      store := s.store.deleteQuestion c.topic c.id
      deletes := deletes
      added := s.added.filter fun a => a ≠ (c.topic, c.id) } := by
  have hmem : ∀ t e, e ∈ (s.store.deleteQuestion c.topic c.id).questionList t ↔
      e ∈ s.store.questionList t ∧ ¬ (t = c.topic ∧ e.id = c.id) := by
    intro t e
    rw [Store.mem_questionList, Store.mem_questionList, Store.mem_deleteQuestion]
    constructor
    · rintro ⟨⟨he, hne⟩, rfl⟩; exact ⟨⟨he, rfl⟩, hne⟩
    · rintro ⟨⟨he, rfl⟩, hne⟩; exact ⟨⟨he, hne⟩, rfl⟩
  refine ⟨fun t ht => ?_, fun t ht id => ?_⟩
  · by_cases hct : t = c.topic
    · subst hct
      refine (hkept ht).imp_left ?_
      rintro ⟨e, he, hne⟩
      exact List.ne_nil_of_mem ((hmem _ e).mpr ⟨he, fun h => hne h.2⟩)
    · refine (h.filled t ht).imp_left fun hne => ?_
      obtain ⟨e, he⟩ := List.exists_mem_of_ne_nil _ hne
      exact List.ne_nil_of_mem ((hmem t e).mpr ⟨he, fun h => hct h.1⟩)
  · rw [List.mem_filter, ← h.current t ht id, decide_eq_true_eq, ne_eq, Prod.mk.injEq]
    constructor
    · rintro ⟨e, he, rfl⟩
      obtain ⟨he, hne⟩ := (hmem t e).mp he
      exact ⟨⟨e, he, rfl⟩, hne⟩
    · rintro ⟨⟨e, he, rfl⟩, hne⟩
      exact ⟨e, (hmem t e).mpr ⟨he, hne⟩, rfl⟩

theorem Inv.addFails {s : State} (h : Inv s) {k : ℕ} {c : AddCall} (hc : s.adds[k]? = some c)
    (hkept : c.topic ∈ s.store.topics →
      s.store.questionList c.topic ≠ [] ∨ AnotherAdd s k c.topic) :
    Inv { s with adds := s.adds.eraseIdx k } := by
  refine ⟨fun t ht => ?_, h.current⟩
  by_cases hct : t = c.topic
  · subst hct
    exact hkept ht
  · refine (h.filled t ht).imp_right ?_
    rintro ⟨d, hd, rfl⟩
    exact ⟨d, mem_eraseIdx_of_topic hc hd hct, rfl⟩

theorem Inv.deleteTopic {s : State} (h : Inv s) (topic : String) (topicDeletes : List TopicCall) :
    Inv { s with store := s.store.deleteTopic topic, topicDeletes := topicDeletes } :=
  ⟨fun t ht => h.filled t (Store.mem_deleteTopic.mp ht).1,
    fun t ht => h.current t (Store.mem_deleteTopic.mp ht).1⟩

/-- **A kept step keeps the bank sound.** -/
theorem inv_step {s t : State} {a : Action} (h : Inv s) (hk : Kept s a) (hs : step s a = some t) :
    Inv t := by
  cases a with
  | pressAdd topic newQuestion =>
    obtain rfl := Option.some.inj hs
    exact h.frame rfl rfl fun c hc => ⟨c, List.mem_append_left _ hc, rfl⟩
  | addNext k =>
    obtain ⟨c, hc, rfl⟩ := Option.map_eq_some_iff.mp hs
    have hset := hk c hc
    obtain ⟨topicDoc, newQuestion, pc⟩ := c
    cases pc with
    | get =>
      refine h.frame rfl rfl fun d hd => ?_
      exact exists_topic_set hc
        (b := ⟨topicDoc, newQuestion, if s.store.has topicDoc then .add else .set⟩) rfl hd
    | set =>
      cases topicDoc with
      | topic id => exact h.setTopic hc (hset rfl)
      | question parent id =>
        have hparent : parent ∉ s.store.topics := hset rfl
        refine h.setBelow hc rfl fun t ht => Store.questionList_setTitle ?_
        rintro parent id ⟨⟩ rfl
        exact hparent ht
      | elsewhere path => exact h.setBelow hc rfl fun _ _ => rfl
    | add => exact h.add hc
  | addFails k =>
    obtain ⟨c, hc, rfl⟩ := Option.map_eq_some_iff.mp hs
    exact h.addFails hc (hk c hc)
  | deleteNext k =>
    obtain ⟨c, hc, rfl⟩ := Option.map_eq_some_iff.mp hs
    have hdel := hk c hc
    obtain ⟨topic, id, pc⟩ := c
    cases pc with
    | count =>
      simp only
      split_ifs <;> exact h.frame rfl rfl fun d hd => ⟨d, hd, rfl⟩
    | confirm => exact h.frame rfl rfl fun d hd => ⟨d, hd, rfl⟩
    | delete => exact h.delete (hdel rfl) _
  | pressDelete topic id | pressDeleteTopic topic =>
    obtain rfl := Option.some.inj hs
    exact h.frame rfl rfl fun d hd => ⟨d, hd, rfl⟩
  | topicNext k =>
    obtain ⟨c, -, rfl⟩ := Option.map_eq_some_iff.mp hs
    obtain ⟨topic, pc⟩ := c
    cases pc with
    | confirm => exact h.frame rfl rfl fun d hd => ⟨d, hd, rfl⟩
    | delete => exact h.deleteTopic topic _
  | deleteStops k | topicStops k =>
    obtain ⟨c, -, rfl⟩ := Option.map_eq_some_iff.mp hs
    exact h.frame rfl rfl fun d hd => ⟨d, hd, rfl⟩

/-- **The bank is sound whenever no handler runs**, in every run that creates topics only without
left-over questions, sets no title among the questions of a listed topic and does not take its last
question. -/
theorem sound_of_kept {s : State} (hidle : Idle s) (hsound : Sound s) {as : List Action}
    (hk : Along step Kept s as) : Always step Sound s as :=
  always_of_along (J := Inv) (fun _ _ _ h hk hs => inv_step h hk hs) (fun _ h => h.sound)
    ⟨fun t ht => Or.inl ((hsound hidle).1 t ht), (hsound hidle).2⟩ hk

/-! ### A topic that is created again -/

def opened : State :=
  { store := Store.empty, adds := [], deletes := [], topicDeletes := [], added := [] }

def sum : QuestionDoc :=
  { question := "2 + 2 = ?", options := ["4", "5", "6", "7"], answer := some "4", imagePath := none }

/-- A topic with two questions, one of which is deleted. -/
def twoQuestions : List Action :=
  [.pressAdd "Matematik" sum, .addNext 0, .addNext 0, .addNext 0, .pressAdd "Matematik" sum,
    .addNext 0, .addNext 0, .pressDelete "Matematik" (.generated 0), .deleteNext 0, .deleteNext 0,
    .deleteNext 0]

theorem sound_of_kept_twoQuestions : Always step Sound opened twoQuestions :=
  sound_of_kept ⟨rfl, rfl, rfl⟩
    (fun _ => ⟨fun _ ht => absurd ht List.not_mem_nil, fun _ ht => absurd ht List.not_mem_nil⟩)
    (by decide)

/-- A topic is deleted, and a question is added to a topic of the same name. -/
def createdAgain : List Action :=
  [.pressAdd "Matematik" sum, .addNext 0, .addNext 0, .addNext 0, .pressDeleteTopic "Matematik",
    .topicNext 0, .topicNext 0, .pressAdd "Matematik" sum, .addNext 0, .addNext 0, .addNext 0]

/-- **The questions of a deleted topic come back** with a topic of the same name. -/
theorem createdAgain_not_sound : ¬ Always step Sound opened createdAgain := by
  intro h
  have hfirst : Always step (fun s => s.adds = [] ∧ s.deletes = [] ∧ s.topicDeletes = [] →
      "Matematik" ∈ s.store.topics → ((∃ e ∈ s.store.questionList "Matematik", e.id = .generated 0) ↔
        ("Matematik", .generated 0) ∈ s.added)) opened createdAgain :=
    always_mono (fun s hS hidle ht => (hS hidle).2 "Matematik" ht (.generated 0)) h
  exact absurd hfirst (by decide)

end KamuSinavi.Bank.Topics
