import KamuSinavi.Session.TestScreen
import KamuSinavi.PracticeExam.SinavGecmisi

/-! # Finishing a test by hand

`Testi Bitir` of `TestScreen` (`pages/test_screen.dart`) and of `DenemeSinaviPage`
(`pages/denemeSinaviPage.dart`) compares the number of answers with the number of questions.
`finishes_complete` says that in every run of either page this is to have an answer to each of them. -/

namespace KamuSinavi.Completion

open KamuSinavi.Lib KamuSinavi.Lib.Runs KamuSinavi.Lib.Dart KamuSinavi.Models KamuSinavi.History

/-! ### TestScreen -/

section Session

open Session

/-- `Testi Bitir` can be pressed. -/
def finishEnabled (s : Session.State) : Bool :=
  s.test.selectedAnswers.length == s.test.questions.length

/-- **The button is enabled exactly if every question has an answer**, and every answer is one of the
options of its question. -/
structure CompleteSession (s : Session.State) : Prop where
  enabled : finishEnabled s = true ↔
    ∀ q ∈ s.test.questions, ∃ option, s.test.selectedAnswers.get? q = some option
  options : ∀ q option, s.test.selectedAnswers.get? q = some option →
    q ∈ s.test.questions ∧ option ∈ q.options

/-- Every answer is one of the options of its question. -/
def OwnOptions (s : Session.State) : Prop :=
  ∀ q option, s.test.selectedAnswers.get? q = some option → option ∈ q.options

variable {C : Convert}

theorem ownOptions_step {s t : Session.State} {a : Step} (hI : OwnOptions s)
    (h : Session.step C s a = some t) : OwnOptions t := by
  rcases test_step h with ⟨question, option, hq, -, hmem, ht⟩ | ht
  · intro q o ho
    rw [ht, select, LinkedMap.get?_set] at ho
    split_ifs at ho with he
    · exact Option.some.inj ho ▸ he ▸ hmem
    · exact hI q o ho
  · unfold OwnOptions
    rw [ht]
    exact hI

/-- The questions are distinct objects and the answers are to them, so their number decides. -/
theorem completeSession_of_ownOptions {s : Session.State} (h : OwnOptions s) : CompleteSession s := by
  have hnodup : s.test.questions.Nodup := List.Nodup.of_map _ s.test.distinct
  refine ⟨?_, fun q option ho =>
    ⟨s.test.selected_sub q (LinkedMap.mem_keys_iff.mpr ⟨option, ho⟩), h q option ho⟩⟩
  rw [finishEnabled, beq_iff_eq, LinkedMap.length_eq_iff hnodup s.test.selected_sub]
  exact forall₂_congr fun q _ => LinkedMap.mem_keys_iff

theorem always_completeSession (w : TestScreen) (qs : RandomQuestions w) (service : Service)
    (steps : List Step) :
    Always (Session.step C) CompleteSession (initState w qs service) steps :=
  always_of_keeps (J := OwnOptions) (fun _ _ _ hI h => ownOptions_step hI h)
    (fun _ => completeSession_of_ownOptions) steps fun _ _ h => by cases h

end Session

/-! ### DenemeSinaviPage -/

section PracticeExam

open PracticeExam

/-- **The button of a page with a chosen topic is enabled, for a user who has not taken the exam,
exactly if every question of the topic has an answer.** -/
def CompleteExam (s : PracticeExam.State) : Prop :=
  ∀ p ∈ s.pages, showsExam p = true → p.selectedTopic ≠ none → p.hasUserTakenExam = false →
    (PracticeExam.finishEnabled p = true ↔
      ∀ i < (getSelectedQuestions p).length, ∃ option, p.selectedAnswers.get? i = some option)

theorem finishEnabled_iff {p : Page} (h : Answering p) (hshow : showsExam p = true)
    (htopic : p.selectedTopic ≠ none) (htaken : p.hasUserTakenExam = false) :
    PracticeExam.finishEnabled p = true ↔
      ∀ i < (getSelectedQuestions p).length, ∃ option, p.selectedAnswers.get? i = some option := by
  have hlen := LinkedMap.length_eq_iff (List.nodup_range (n := (getSelectedQuestions p).length))
    fun i hi => List.mem_range.mpr (h.inRange i hi)
  rw [List.length_range] at hlen
  rw [PracticeExam.finishEnabled, hshow, htaken, Option.isSome_iff_ne_none.mpr htopic, Bool.true_and,
    Bool.true_and, Bool.not_false, Bool.and_true, beq_iff_eq, hlen]
  exact forall_congr' fun i => imp_congr List.mem_range LinkedMap.mem_keys_iff

theorem always_completeExam (store : Store) (as : List Action) :
    Always PracticeExam.step CompleteExam { store := store, pages := [], calls := [] } as :=
  always_of_keeps (J := fun s => ∀ p ∈ s.pages, Answering p)
    (fun _ _ _ hI h => forall_pages_step h hI answering_newPage fun _ _ _ hp hstep => hp.step hstep)
    (fun _ hI p hp => finishEnabled_iff (hI p hp)) as fun _ hp => absurd hp List.not_mem_nil

end PracticeExam

/-- **A test can be finished by hand exactly when it is complete**, in every session of `TestScreen` and
on every page of the practice exam. -/
theorem finishes_complete (C : Convert) (w : Session.TestScreen) (qs : Session.RandomQuestions w)
    (service : Service) (steps : List Session.Step) (store : PracticeExam.Store)
    (as : List PracticeExam.Action) :
    Always (Session.step C) CompleteSession (Session.initState w qs service) steps ∧
      Always PracticeExam.step CompleteExam { store := store, pages := [], calls := [] } as :=
  ⟨always_completeSession w qs service steps, always_completeExam store as⟩

end KamuSinavi.Completion
