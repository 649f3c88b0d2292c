import KamuSinavi.Session.Selection

/-! # Building a custom test

`CustomTestScreen` (`pages/customTestPage.dart`). `_startCustomTest` iterates over the list of selected
topics itself and awaits the questions of one topic after the other, while the chips stay active. The
iterator remembers the length the list had and throws when it is asked for the next topic and finds
another one; nothing catches an exception of the loop.

`Clean` says that whenever no test is being built the screen does not show that it is, and that every
test is drawn from the questions of the topics selected when the button was pressed. `clean_of_undisturbed`
says for which runs it holds, and `stuck` that a screen left loading stays so. -/

namespace KamuSinavi.Session.CustomTest

open KamuSinavi.Lib KamuSinavi.Lib.Runs KamuSinavi.Lib.Dart KamuSinavi.Models Selection

/-- The questions of fetched documents; `none` if reading one throws. -/
def readDocs (docs : List Json) : Option (List Question) := docs.mapM Question.fromJson

/-- A running `_startCustomTest`, which awaits the questions of `topic`. `length` and `index` are those
of the iterator. Two things the code does not keep are `pressed`, the topics selected when the button
was pressed, and `fetched`, the topics whose documents have come. -/
structure Call where
  length : ℕ
  index : ℕ
  topic : String
  allQuestions : List Question
  pressed : List String
  fetched : List (String × List Json)

/-- A `TestScreen` that was opened, with the call that opened it. -/
structure Opened where
  args : TestArgs
  allQuestions : List Question
  pressed : List String
  fetched : List (String × List Json)

structure State where
  selectedTopics : List String
  selectedQuestionCount : ℕ
  selectedDuration : ℕ
  isLoading : Bool
  snackBar : Option String
  call : Option Call
  lists : Lists
  opened : List Opened

/-- The taps, and a fetch that ends. `random` is what a shuffle does that follows. -/
inductive Action where
  | tapTopic (topic : String)
  | tapCount (count : ℕ)
  | slideDuration (minutes : ℕ)
  | tapStart
  | fetched (docs : List Json) (random : Shuffle QuestionObj)
  | fetchFails

/-- The screen has just been opened. -/
def initState (lists : Lists) : State where
  selectedTopics := []
  selectedQuestionCount := 10
  selectedDuration := 10
  isLoading := false
  snackBar := none
  call := none
  lists := lists
  opened := []

/-- `moveNext` of the iterator of a list: the next item, if there is one; `none` if it throws. -/
def moveNext (topics : List String) (length index : ℕ) : Option (Option String) :=
  if topics.length = length then some topics[index]? else none

/-- What follows the loop. -/
def finish (s : State) (c : Call) (random : Shuffle QuestionObj) : State :=
  let started := startCustomTest s.selectedQuestionCount s.selectedDuration c.allQuestions random s.lists
  let s := { s with isLoading := false, call := none, lists := started.2 }
  match started.1 with
  | .error text => { s with snackBar := some text }
  | .ok args => { s with
      opened := s.opened ++ [{ args := args, allQuestions := c.allQuestions, pressed := c.pressed,
                               fetched := c.fetched }] }

/-- The loop goes on with the next topic. -/
def nextTopic (s : State) (c : Call) (random : Shuffle QuestionObj) : State :=
  match moveNext s.selectedTopics c.length c.index with
  | none => { s with call := none }
  | some none => finish s c random
  | some (some topic) => { s with call := some { c with topic := topic, index := c.index + 1 } }

def step (s : State) : Action → Option State
  | .tapTopic topic =>
    some { s with selectedTopics :=
      if topic ∈ s.selectedTopics then s.selectedTopics.erase topic else s.selectedTopics ++ [topic] }
  | .tapCount count => some { s with selectedQuestionCount := count }
  | .slideDuration minutes => some { s with selectedDuration := minutes }
  | .tapStart =>
    if s.isLoading then none
    else match s.selectedTopics with
      | topic :: _ :: _ =>
        some { s with
          isLoading := true
          call := some { length := s.selectedTopics.length, index := 1, topic := topic,
                         allQuestions := [], pressed := s.selectedTopics, fetched := [] } }
      | _ => some { s with snackBar := some "Lütfen en az 2 konu seçin." }
  | .fetched docs random =>
    s.call.map fun c => match readDocs docs with
      | none => { s with call := none }
      | some questions => nextTopic s { c with
          allQuestions := c.allQuestions ++ questions
          fetched := c.fetched ++ [(c.topic, docs)] } random
  | .fetchFails => s.call.map fun _ => { s with call := none }

/-- The questions of the fetched documents. -/
def questionsOf (fetched : List (String × List Json)) : Option (List Question) :=
  (fetched.mapM fun f => readDocs f.2).map List.flatten

/-- The test is drawn from the questions of the topics selected when the button was pressed. -/
def Drawn (o : Opened) : Prop :=
  (o.fetched.map Prod.fst).Perm o.pressed ∧ questionsOf o.fetched = some o.allQuestions

/-- **A test that is built ends cleanly**: the screen is not left loading, and the questions are those
of the topics selected at the start. -/
def Clean (s : State) : Prop :=
  (s.call.isNone = true → s.isLoading = false) ∧ ∀ o ∈ s.opened, Drawn o

/-- No fetch fails, its documents can be read, and when it ends as many topics are selected as at the
start and the next one is one of these, not fetched yet. -/
def Undisturbed (s : State) : Action → Prop
  | .fetched docs _ => ∀ c ∈ s.call, readDocs docs ≠ none ∧
      s.selectedTopics.length = c.length ∧
      ∀ topic ∈ s.selectedTopics[c.index]?,
        topic ∈ c.pressed ∧ topic ∉ c.fetched.map Prod.fst ++ [c.topic]
  | .fetchFails => False
  | _ => True

instance : DecidablePred Drawn := fun o =>
  inferInstanceAs (Decidable ((o.fetched.map Prod.fst).Perm o.pressed ∧
    questionsOf o.fetched = some o.allQuestions))

instance : DecidablePred Clean := fun s =>
  inferInstanceAs (Decidable ((s.call.isNone = true → s.isLoading = false) ∧
    ∀ o ∈ s.opened, Drawn o))

instance (s : State) : DecidablePred (Undisturbed s)
  | .fetched docs _ => inferInstanceAs (Decidable (∀ c ∈ s.call, readDocs docs ≠ none ∧
      s.selectedTopics.length = c.length ∧
      ∀ topic ∈ s.selectedTopics[c.index]?,
        topic ∈ c.pressed ∧ topic ∉ c.fetched.map Prod.fst ++ [c.topic]))
  | .fetchFails => isFalse id
  | .tapTopic _ | .tapCount _ | .slideDuration _ | .tapStart => isTrue trivial

/-! ### The loop -/

/-- The call has fetched some of the pressed topics, and awaits another one of them. -/
structure Waiting (c : Call) : Prop where
  nodup : (c.fetched.map Prod.fst ++ [c.topic]).Nodup
  sub : ∀ topic ∈ c.fetched.map Prod.fst ++ [c.topic], topic ∈ c.pressed
  length : c.length = c.pressed.length
  index : c.index = c.fetched.length + 1
  questions : questionsOf c.fetched = some c.allQuestions

/-- The running call is waiting, no call leaves the screen loading, and the opened tests are drawn as
they should be. -/
structure Inv (s : State) : Prop where
  waiting : ∀ c ∈ s.call, Waiting c
  idle : s.call = none → s.isLoading = false
  drawn : ∀ o ∈ s.opened, Drawn o

theorem inv_initState (lists : Lists) : Inv (initState lists) :=
  ⟨fun _ h => (by cases h), fun _ => rfl, fun _ h => absurd h List.not_mem_nil⟩

theorem Inv.clean {s : State} (h : Inv s) : Clean s :=
  ⟨fun hc => h.idle (Option.isNone_iff_eq_none.mp hc), h.drawn⟩

theorem questionsOf_append {fetched : List (String × List Json)} {qs qs' : List Question}
    {docs : List Json} (h : questionsOf fetched = some qs) (hdocs : readDocs docs = some qs')
    (topic : String) : questionsOf (fetched ++ [(topic, docs)]) = some (qs ++ qs') := by
  obtain ⟨qss, hqss, rfl⟩ := Option.map_eq_some_iff.mp h
  rw [questionsOf, List.mapM_append, hqss, List.mapM_cons, hdocs]
  simp

/-- Nothing but the selection, the messages and the settings changes. -/
theorem Inv.frame {s t : State} (h : Inv s) (hcall : t.call = s.call)
    (hloading : t.isLoading = s.isLoading) (hopened : t.opened = s.opened) : Inv t :=
  ⟨fun c hc => h.waiting c (hcall ▸ hc), fun hc => hloading ▸ h.idle (hcall ▸ hc),
    fun o ho => h.drawn o (hopened ▸ ho)⟩

/-- **The fetched topics are the pressed ones** when there are as many of them. -/
theorem perm_of_fetched {c : Call} (hnodup : (c.fetched.map Prod.fst).Nodup)
    (hsub : ∀ topic ∈ c.fetched.map Prod.fst, topic ∈ c.pressed)
    (hlen : c.pressed.length ≤ c.fetched.length) : (c.fetched.map Prod.fst).Perm c.pressed :=
  (List.subperm_of_subset hnodup hsub).perm_of_length_le (by rwa [List.length_map])

/-- The end of the loop leaves the screen as it should. -/
theorem inv_finish {s : State} (h : Inv s) {c : Call} (random : Shuffle QuestionObj)
    (hperm : (c.fetched.map Prod.fst).Perm c.pressed)
    (hquestions : questionsOf c.fetched = some c.allQuestions) : Inv (finish s c random) := by
  unfold finish
  simp only
  split
  · exact ⟨fun _ hc => (by cases hc), fun _ => rfl, h.drawn⟩
  · refine ⟨fun _ hc => (by cases hc), fun _ => rfl, fun o ho => ?_⟩
    rcases List.mem_append.mp ho with ho | ho
    · exact h.drawn o ho
    · rw [List.mem_singleton.mp ho]
      exact ⟨hperm, hquestions⟩

/-- **A call whose documents have come goes on to another pressed topic, or ends as it should.** -/
theorem inv_nextTopic {s : State} (h : Inv s) {c : Call} (random : Shuffle QuestionObj)
    (hnodup : (c.fetched.map Prod.fst).Nodup)
    (hsub : ∀ topic ∈ c.fetched.map Prod.fst, topic ∈ c.pressed)
    (hlength : c.length = c.pressed.length) (hindex : c.index = c.fetched.length)
    (hquestions : questionsOf c.fetched = some c.allQuestions)
    (hsame : s.selectedTopics.length = c.length)
    (hnext : ∀ topic ∈ s.selectedTopics[c.index]?,
      topic ∈ c.pressed ∧ topic ∉ c.fetched.map Prod.fst) : Inv (nextTopic s c random) := by
  rw [nextTopic, moveNext, if_pos hsame]
  rcases htopic : s.selectedTopics[c.index]? with _ | topic
  · have hlen := List.getElem?_eq_none_iff.mp htopic
    exact inv_finish h random (perm_of_fetched hnodup hsub (by omega)) hquestions
  · obtain ⟨hmem, hnew⟩ := hnext topic htopic
    refine ⟨fun d hd => ?_, fun hno => (by cases hno), h.drawn⟩
    obtain rfl := Option.some.inj hd
    refine ⟨?_, fun t ht => ?_, hlength, congrArg (· + 1) hindex, hquestions⟩
    · exact hnodup.append (List.nodup_singleton _) (List.disjoint_singleton.mpr hnew)
    · rcases List.mem_append.mp ht with ht | ht
      · exact hsub t ht
      · rw [List.mem_singleton.mp ht]; exact hmem

theorem inv_step {s t : State} {a : Action} (h : Inv s) (ha : Undisturbed s a)
    (hs : step s a = some t) : Inv t := by
  cases a with
  | tapTopic topic | tapCount count | slideDuration minutes =>
    obtain rfl := Option.some.inj hs
    exact h.frame rfl rfl rfl
  | tapStart =>
    simp only [step] at hs
    split_ifs at hs
    split at hs
    · rename_i topic topic' rest hsel
      obtain rfl := Option.some.inj hs
      refine ⟨fun c hc => ?_, fun hno => (by cases hno), h.drawn⟩
      obtain rfl := Option.some.inj hc
      refine ⟨List.nodup_singleton _, fun t ht => ?_, rfl, rfl, rfl⟩
      rw [List.mem_singleton.mp ht, hsel]
      exact List.mem_cons_self ..
    · obtain rfl := Option.some.inj hs
      exact h.frame rfl rfl rfl
  | fetched docs random =>
    obtain ⟨c, hc, rfl⟩ := Option.map_eq_some_iff.mp hs
    obtain ⟨hread, hsame, hnext⟩ := ha c hc
    obtain ⟨questions, hq⟩ := Option.ne_none_iff_exists'.mp hread
    have hw := h.waiting c hc
    simp only [hq]
    have hmap : (c.fetched ++ [(c.topic, docs)]).map Prod.fst = c.fetched.map Prod.fst ++ [c.topic] :=
      List.map_append
    refine inv_nextTopic h random ?_ ?_ hw.length ?_
      (questionsOf_append hw.questions hq c.topic) hsame ?_
    · rw [hmap]; exact hw.nodup
    · rw [hmap]; exact hw.sub
    · rw [hw.index, List.length_append, List.length_singleton]
    · rw [hmap]; exact hnext
  | fetchFails => exact absurd ha id

/-- **A test that is built ends cleanly, in every run in which no fetch fails, the documents can be
read, and the selection the loop goes on with is as long as at the start and has one of the topics that
are left where the loop looks.** -/
theorem clean_of_undisturbed (lists : Lists) {as : List Action}
    (ha : Along step Undisturbed (initState lists) as) :
    Always step Clean (initState lists) as :=
  always_of_along (J := Inv) (fun _ _ _ h ha hs => inv_step h ha hs) (fun _ h => h.clean)
    (inv_initState lists) ha

/-- The document of a question. -/
def doc (question answer : String) : Json :=
  .obj [("question", .str question), ("options", .arr [.str answer]), ("answer", .str answer)]

/-- Two topics are selected, and one of them is tapped twice while the questions of the other one are
awaited. -/
def undisturbed : List Action :=
  [.tapTopic "tarih", .tapTopic "matematik", .tapStart, .tapTopic "matematik", .tapTopic "matematik",
    .fetched [doc "KKTC ne zaman kuruldu?" "1983"] reversed, .fetched [doc "2 + 2 = ?" "4"] reversed]

theorem clean_of_undisturbed_topics : Always step Clean (initState []) undisturbed :=
  clean_of_undisturbed [] (by decide)

/-- **A fetch that fails** leaves the screen loading. -/
theorem failedFetch_not_clean :
    ¬ Always step Clean (initState [])
      [.tapTopic "tarih", .tapTopic "matematik", .tapStart, .fetchFails] := by decide

/-- The topic whose questions are awaited is tapped twice, and is fetched again in the place of the
other one. -/
example : ¬ Always step Clean (initState [])
    [.tapTopic "tarih", .tapTopic "matematik", .tapStart, .tapTopic "tarih", .tapTopic "tarih",
      .fetched [doc "KKTC ne zaman kuruldu?" "1983"] reversed,
      .fetched [doc "KKTC ne zaman kuruldu?" "1983"] reversed] := by decide

/-- **A screen left loading stays so**: no other test can be built on it. -/
theorem stuck {s : State} (hcall : s.call = none) (hloading : s.isLoading = true) (as : List Action) :
    Always step (fun t : State => t.call = none ∧ t.isLoading = true) s as := by
  refine always_of_keeps (J := fun t : State => t.call = none ∧ t.isLoading = true) ?_ (fun _ h => h) as
    ⟨hcall, hloading⟩
  rintro s a t ⟨hcall, hloading⟩ h
  cases a with
  | tapTopic topic | tapCount count | slideDuration minutes =>
    obtain rfl := Option.some.inj h
    exact ⟨hcall, hloading⟩
  | tapStart =>
    rw [step, if_pos hloading] at h
    cases h
  | fetched docs random | fetchFails =>
    rw [step, hcall] at h
    cases h

end KamuSinavi.Session.CustomTest
