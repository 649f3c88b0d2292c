import KamuSinavi.Infos.Pages
import KamuSinavi.Lib.Cells
import KamuSinavi.Notes.Screen
import KamuSinavi.Session.Selection

/-! # The preferences of the app

All that is kept on the device is in `SharedPreferences`: the notes, the marks of the study pages, the
test results, the theme, and whether the user is remembered. `_startTest` (`pages/Kamu_sinavlari.dart`)
reads one more entry for each topic. The writes are stored one after the other, whichever screen has
issued them.

`intact` says that the notes and the marks are what they are when their screens are alone (Notes, Infos).
`restart_moment` says what is left when the app is restarted while writes are on their way, and
`startTest_message` what the questions that should be there offline come to. -/

namespace KamuSinavi.Preferences

open KamuSinavi.Lib KamuSinavi.Lib.Runs KamuSinavi.Lib.Dart KamuSinavi.Models

inductive Key where
  | notlar
  | selectedDetails
  | testResults
  | darkMode
  | rememberMe
  | offline (topicName : String)
  deriving DecidableEq

def Key.name : Key → String
  | .notlar => "notlar"
  | .selectedDetails => "selected_details"
  | .testResults => "testResults"
  | .darkMode => "darkMode"
  | .rememberMe => "rememberMe"
  | .offline topicName => "offline_" ++ topicName

/-- What an entry holds; `none` if it is not there. -/
abbrev Key.Value : Key → Type
  | .notlar | .selectedDetails | .offline _ => Option (List String)
  | .testResults => Option String
  | .darkMode | .rememberMe => Option Bool

/-- The preferences, and the screens of the notes and of the study pages with what `Notes.State` and
`Infos.State` keep of them. -/
structure State where
  prefs : Cells Key.Value
  noteScreen : Option Notes.Screen
  created : ℕ
  performed : List Notes.Edit
  infoScreen : Option Infos.Screen
  saves : List Infos.Save
  thrown : Bool
  toggled : List Infos.Toggle

/-- What is done on the screens, but for restarts and writes that are stored; and what the rest of the
app writes: `TestResultsService` its text or the removal of it, `_toggleDarkMode`, and `_signIn`. -/
inductive Action where
  | notes (a : Notes.Action)
  | infos (a : Infos.Action)
  | saveResults (resultsJson : Option String)
  | toggleDarkMode (value : Bool)
  | signIn (rememberMe : Bool)
  | written
  | restart

def State.notes (s : State) : Notes.State :=
  { prefs := s.prefs.cell .notlar, screen := s.noteScreen, created := s.created,
    performed := s.performed }

def State.infos (s : State) : Infos.State :=
  { prefs := s.prefs.cell .selectedDetails, screen := s.infoScreen, saves := s.saves, thrown := s.thrown,
    toggled := s.toggled }

def State.setNotes (s : State) (t : Notes.State) : State :=
  { s with
    prefs := s.prefs.adopt .notlar t.prefs
    noteScreen := t.screen
    created := t.created
    performed := t.performed }

def State.setInfos (s : State) (t : Infos.State) : State :=
  { s with
    prefs := s.prefs.adopt .selectedDetails t.prefs
    infoScreen := t.screen
    saves := t.saves
    thrown := t.thrown
    toggled := t.toggled }

variable (C : Convert)

def step (s : State) : Action → Option State
  | .notes .restart | .notes .written | .infos .restart | .infos .written => none
  | .notes a => (Notes.step C s.notes a).map s.setNotes
  | .infos a => (Infos.step s.infos a).map s.setInfos
  | .saveResults resultsJson => some { s with prefs := s.prefs.write .testResults resultsJson }
  | .toggleDarkMode value => some { s with prefs := s.prefs.write .darkMode (some value) }
  | .signIn rememberMe => some { s with prefs := s.prefs.write .rememberMe (some rememberMe) }
  | .written => s.prefs.store.map fun prefs => { s with prefs := prefs }
  | .restart => some { s with
      prefs := s.prefs.lose
      noteScreen := none
      infoScreen := none
      saves := [] }

/-- Before the app is used. -/
def installed : State where
  prefs :=
    { stored := fun
        | .notlar | .selectedDetails | .offline _ | .testResults | .darkMode | .rememberMe => none
      issued := [] }
  noteScreen := none
  created := 0
  performed := []
  infoScreen := none
  saves := []
  thrown := false
  toggled := []

/-- The screens are used as the notes and the study pages require, and the app is restarted when all
that is to be written is stored. -/
def Careful (s : State) : Action → Prop
  | .notes a => Notes.Orderly s.notes a
  | .infos a => Infos.Apart s.infos a
  | .restart => s.saves = [] ∧ s.prefs.issued = []
  | _ => True

instance (s : State) : DecidablePred (Careful s)
  | .notes a => inferInstanceAs (Decidable (Notes.Orderly s.notes a))
  | .infos a => inferInstanceAs (Decidable (Infos.Apart s.infos a))
  | .restart => inferInstanceAs (Decidable (s.saves = [] ∧ s.prefs.issued = []))
  | .saveResults _ | .toggleDarkMode _ | .signIn _ | .written => isTrue trivial

variable {C} {s t : State} {a : Action}

/-- **The entries have names of their own.** -/
theorem name_injective : Function.Injective Key.name := by
  have hoffline : ∀ topicName, (Key.offline topicName).name.toList.head? = some 'o' := by
    intro topicName
    unfold Key.name
    rw [String.toList_append]
    rfl
  intro k j h
  have hhead := congrArg (fun name : String => name.toList.head?) h
  cases k with
  | offline topicName =>
    simp only [hoffline] at hhead
    cases j with
    | offline topicName' =>
      have hlist := congrArg String.toList h
      unfold Key.name at hlist
      rw [String.toList_append, String.toList_append] at hlist
      rw [String.toList_injective (List.append_cancel_left hlist)]
    | notlar | selectedDetails | testResults | darkMode | rememberMe => exact absurd hhead (by decide)
  | notlar | selectedDetails | testResults | darkMode | rememberMe =>
    cases j with
    | offline topicName =>
      simp only [hoffline] at hhead
      exact absurd hhead (by decide)
    | notlar | selectedDetails | testResults | darkMode | rememberMe =>
      first
        | rfl
        | exact absurd h (by decide)

/-! ### What the screens write -/

/-- A screen of the notes issues at most one write. -/
theorem notes_prefs {n m : Notes.State} {b : Notes.Action} (hr : b ≠ .restart) (hw : b ≠ .written)
    (h : Notes.step C n b = some m) : m.prefs = n.prefs ∨ ∃ v, m.prefs = n.prefs.write v := by
  cases b with
  | restart => exact absurd rfl hr
  | written => exact absurd rfl hw
  | openScreen =>
    simp only [Notes.step, Option.ite_none_right_eq_some, Option.some.injEq] at h
    obtain ⟨-, rfl⟩ := h
    exact Or.inl rfl
  | closeScreen | selectCategory category | addNot title content category =>
    obtain ⟨c, -, rfl⟩ := Option.map_eq_some_iff.mp h
    exact Or.inl rfl
  | loadNotlar =>
    obtain ⟨c, -, h⟩ := Option.bind_eq_some_iff.mp h
    obtain ⟨pc, -, rfl⟩ := Option.map_eq_some_iff.mp h
    cases pc with
    | delayed => exact Or.inl rfl
    | getInstance =>
      unfold Notes.loaded
      cases n.prefs.read.bind (Notes.decodeNotlar C) <;> exact Or.inl rfl
  | deleteNot index =>
    obtain ⟨c, -, h⟩ := Option.bind_eq_some_iff.mp h
    simp only [Option.ite_none_right_eq_some, Option.some.injEq] at h
    obtain ⟨-, rfl⟩ := h
    exact Or.inl rfl
  | resume k =>
    obtain ⟨c, -, h⟩ := Option.bind_eq_some_iff.mp h
    obtain ⟨e, -, rfl⟩ := Option.map_eq_some_iff.mp h
    unfold Notes.resume
    simp only
    split
    · exact Or.inl rfl
    · rename_i notlar _
      cases henc : Notes.encodeNotlar C (notlar.map Notes.NoteObj.toNote) with
      | none => exact Or.inl rfl
      | some l => exact Or.inr ⟨some l, rfl⟩

/-- A study page issues at most one write. -/
theorem infos_prefs {n m : Infos.State} {b : Infos.Action} (hr : b ≠ .restart) (hw : b ≠ .written)
    (h : Infos.step n b = some m) : m.prefs = n.prefs ∨ ∃ v, m.prefs = n.prefs.write v := by
  cases b with
  | restart => exact absurd rfl hr
  | written => exact absurd rfl hw
  | openPage page =>
    simp only [Infos.step, Option.ite_none_right_eq_some, Option.some.injEq] at h
    obtain ⟨-, rfl⟩ := h
    exact Or.inl rfl
  | leavePage =>
    obtain ⟨c, -, rfl⟩ := Option.map_eq_some_iff.mp h
    exact Or.inl rfl
  | load =>
    obtain ⟨c, -, h⟩ := Option.bind_eq_some_iff.mp h
    simp only [Option.ite_none_right_eq_some, Option.some.injEq] at h
    obtain ⟨-, rfl⟩ := h
    unfold Infos.loaded
    cases n.prefs.read <;> exact Or.inl rfl
  | tapDetail i j =>
    obtain ⟨c, -, h⟩ := Option.bind_eq_some_iff.mp h
    obtain ⟨v, -, h⟩ := Option.bind_eq_some_iff.mp h
    obtain ⟨m', -, rfl⟩ := Option.map_eq_some_iff.mp h
    exact Or.inl rfl
  | save k =>
    obtain ⟨v, -, rfl⟩ := Option.map_eq_some_iff.mp h
    exact Or.inr ⟨_, rfl⟩

/-! ### The app and its screens -/

/-- **The screen of the notes is stepped on its entry**, and nothing else sees it. -/
theorem setNotes_of_step {b : Notes.Action} (hr : b ≠ .restart) (hw : b ≠ .written) {m : Notes.State}
    (h : Notes.step C s.notes b = some m) :
    (s.setNotes m).notes = m ∧ (s.setNotes m).infos = s.infos ∧
      Cells.Uses s.prefs (s.setNotes m).prefs ∧
      ∀ k, k ≠ .notlar → (s.setNotes m).prefs.cell k = s.prefs.cell k := by
  obtain ⟨huses, hself, hother⟩ :=
    Cells.uses_adopt (c := s.prefs) (k := .notlar) (e := m.prefs) (notes_prefs hr hw h)
  refine ⟨?_, ?_, huses, hother⟩
  · unfold State.notes State.setNotes
    simp only
    rw [hself]
  · unfold State.infos State.setNotes
    simp only
    rw [hother .selectedDetails (by decide)]

/-- **A study page is stepped on its entry**, and nothing else sees it. -/
theorem setInfos_of_step {b : Infos.Action} (hr : b ≠ .restart) (hw : b ≠ .written) {m : Infos.State}
    (h : Infos.step s.infos b = some m) :
    (s.setInfos m).infos = m ∧ (s.setInfos m).notes = s.notes ∧
      Cells.Uses s.prefs (s.setInfos m).prefs ∧
      ∀ k, k ≠ .selectedDetails → (s.setInfos m).prefs.cell k = s.prefs.cell k := by
  obtain ⟨huses, hself, hother⟩ :=
    Cells.uses_adopt (c := s.prefs) (k := .selectedDetails) (e := m.prefs) (infos_prefs hr hw h)
  refine ⟨?_, ?_, huses, hother⟩
  · unfold State.infos State.setInfos
    simp only
    rw [hself]
  · unfold State.notes State.setInfos
    simp only
    rw [hother .notlar (by decide)]

/-- **What a step of the app does**: a screen is stepped on its entry, another entry written, a write
stored, or the app restarted. -/
inductive Steps (C : Convert) (s : State) : Action → State → Prop
  | notes {b : Notes.Action} {m : Notes.State} (hr : b ≠ .restart) (hw : b ≠ .written)
    (h : Notes.step C s.notes b = some m) : Steps C s (.notes b) (s.setNotes m)
  | infos {b : Infos.Action} {m : Infos.State} (hr : b ≠ .restart) (hw : b ≠ .written)
    (h : Infos.step s.infos b = some m) : Steps C s (.infos b) (s.setInfos m)
  | wrote {a : Action} (k : Key) (v : k.Value) (hn : k ≠ .notlar) (hd : k ≠ .selectedDetails)
    (ho : ∀ topicName, k ≠ .offline topicName) : Steps C s a { s with prefs := s.prefs.write k v }
  | stored {prefs : Cells Key.Value} (h : s.prefs.store = some prefs) :
    Steps C s .written { s with prefs := prefs }
  | restarted : Steps C s .restart { s with
      prefs := s.prefs.lose
      noteScreen := none
      infoScreen := none
      saves := [] }

theorem steps_of_step (h : step C s a = some t) : Steps C s a t := by
  cases a with
  | notes b =>
    cases b with
    | restart | written => cases h
    | openScreen | closeScreen | loadNotlar | selectCategory category | addNot title content category
    | deleteNot index | resume k =>
      obtain ⟨m, hm, rfl⟩ := Option.map_eq_some_iff.mp h
      exact .notes (by simp) (by simp) hm
  | infos b =>
    cases b with
    | restart | written => cases h
    | openPage page | leavePage | load | tapDetail i j | save k =>
      obtain ⟨m, hm, rfl⟩ := Option.map_eq_some_iff.mp h
      exact .infos (by simp) (by simp) hm
  | saveResults resultsJson =>
    obtain rfl := Option.some.inj h
    exact .wrote .testResults resultsJson (by decide) (by decide) (by simp)
  | toggleDarkMode value =>
    obtain rfl := Option.some.inj h
    exact .wrote .darkMode (some value) (by decide) (by decide) (by simp)
  | signIn rememberMe =>
    obtain rfl := Option.some.inj h
    exact .wrote .rememberMe (some rememberMe) (by decide) (by decide) (by simp)
  | written =>
    obtain ⟨prefs, hp, rfl⟩ := Option.map_eq_some_iff.mp h
    exact .stored hp
  | restart =>
    obtain rfl := Option.some.inj h
    exact .restarted

theorem uses_step (h : step C s a = some t) : Cells.Uses s.prefs t.prefs := by
  cases steps_of_step h with
  | notes hr hw hm => exact (setNotes_of_step hr hw hm).2.2.1
  | infos hr hw hm => exact (setInfos_of_step hr hw hm).2.2.1
  | wrote k v => exact .write k v
  | stored hp => exact .store hp
  | restarted => exact .lose

/-! ### The notes and the marks -/

/-- **The notes take the steps of their own model**: a step of the app is one of its screen, or leaves
it alone. -/
theorem notes_step (h : step C s a = some t) (hc : Careful s a) :
    t.notes = s.notes ∨ ∃ b, Notes.step C s.notes b = some t.notes ∧ Notes.Orderly s.notes b := by
  cases steps_of_step h with
  | notes hr hw hm =>
    refine Or.inr ⟨_, ?_, hc⟩
    rw [(setNotes_of_step hr hw hm).1]
    exact hm
  | infos hr hw hm => exact Or.inl (setInfos_of_step hr hw hm).2.1
  | wrote k v hn =>
    refine Or.inl ?_
    unfold State.notes
    simp only
    rw [Cells.cell_write_of_ne hn]
  | stored hp =>
    rcases Cells.cell_store hp .notlar with heq | hcell
    · refine Or.inl ?_
      unfold State.notes
      simp only
      rw [heq]
    · refine Or.inr ⟨.written, ?_, trivial⟩
      unfold Notes.step State.notes
      simp only
      rw [hcell]
      rfl
  | restarted =>
    exact Or.inr ⟨.restart, rfl, Cells.issued_cell_of_nil hc.2 .notlar⟩

/-- **So do the study pages.** -/
theorem infos_step (h : step C s a = some t) (hc : Careful s a) :
    t.infos = s.infos ∨ ∃ b, Infos.step s.infos b = some t.infos ∧ Infos.Apart s.infos b := by
  cases steps_of_step h with
  | infos hr hw hm =>
    refine Or.inr ⟨_, ?_, hc⟩
    rw [(setInfos_of_step hr hw hm).1]
    exact hm
  | notes hr hw hm => exact Or.inl (setNotes_of_step hr hw hm).2.1
  | wrote k v hn hd =>
    refine Or.inl ?_
    unfold State.infos
    simp only
    rw [Cells.cell_write_of_ne hd]
  | stored hp =>
    rcases Cells.cell_store hp .selectedDetails with heq | hcell
    · refine Or.inl ?_
      unfold State.infos
      simp only
      rw [heq]
    · refine Or.inr ⟨.written, ?_, trivial⟩
      unfold Infos.step State.infos
      simp only
      rw [hcell]
      rfl
  | restarted =>
    exact Or.inr ⟨.restart, rfl, hc.1, Cells.issued_cell_of_nil hc.2 .selectedDetails⟩

/-- **The notes and the marks are what their screens make of them alone**, in runs of their own that use
them as they require. -/
structure Alone (C : Convert) (s : State) : Prop where
  notes : ReachedAlong (Notes.step C) Notes.Orderly Notes.installed s.notes
  infos : ReachedAlong Infos.step Infos.Apart Infos.installed s.infos

theorem alone_installed : Alone C installed := ⟨reachedAlong_refl _ _, reachedAlong_refl _ _⟩

theorem alone_step (hA : Alone C s) (hc : Careful s a) (h : step C s a = some t) : Alone C t :=
  ⟨hA.notes.concat (notes_step h hc), hA.infos.concat (infos_step h hc)⟩

/-- **The notes survive and the marks are undisturbed**, whatever else is written meanwhile. -/
structure Intact (C : Convert) (s : State) : Prop where
  alone : Alone C s
  notes : Notes.Survives C s.notes
  infos : Infos.Undisturbed s.infos

/-- What holds of the screens alone holds of them in the app. -/
theorem intact_of_alone (hA : Alone C s) : Intact C s where
  alone := hA
  notes := (hA.notes.inv (fun _ _ _ hI hO h => Notes.inv_step hI hO h) Notes.inv_installed).survives
  infos := (hA.infos.inv (fun _ _ _ hI hO h => Infos.inv_step hI hO h) Infos.inv_installed).undisturbed

/-- **In every run that uses the screens as they require the notes and the marks are as if their screens
were alone**: they survive and are undisturbed. -/
theorem intact {as : List Action} (has : Along (step C) Careful installed as) :
    Always (step C) (Intact C) installed as :=
  always_of_along (fun _ _ _ hA hc h => alone_step hA hc h) (fun _ hA => intact_of_alone hA) alone_installed has

/-- A note is added while a detail is tapped, and both are there when the app is started again. -/
def both : List Action :=
  [.notes .openScreen, .notes .loadNotlar, .notes .loadNotlar, .infos (.openPage .genelKultur), .infos .load,
    .notes (.addNot "Ehliyet" "Harç yatır" "Önemli"), .infos (.tapDetail 0 0), .toggleDarkMode true,
    .infos (.save 0), .notes (.resume 0), .written, .written, .written, .infos .leavePage, .restart,
    .notes .openScreen, .notes .loadNotlar, .notes .loadNotlar]

theorem intact_both : Always (step compact) (Intact compact) installed both := intact (by decide +kernel)

/-! ### Restarting -/

/-- **A restart takes all entries back to one moment of the run**, that of the last write that has been
stored. -/
theorem restart_moment {as : List Action} (h : run (step C) installed as = some s)
    (hr : step C s .restart = some t) :
    ∃ as' u, as' <+: as ∧ run (step C) installed as' = some u ∧
      ∀ k, (t.prefs.cell k).read = (u.prefs.cell k).read := by
  obtain ⟨as', u, hpre, hu, hstored⟩ :=
    Cells.stored_moment State.prefs (fun _ _ _ hs => uses_step hs) rfl h
  refine ⟨as', u, hpre, hu, fun k => ?_⟩
  obtain rfl := Option.some.inj hr
  exact hstored k

/-- Only the first of two writes has been stored. -/
theorem restart_moment_both :
    ∃ s t, run (step compact) installed (both.take 11) = some s ∧ step compact s .restart = some t ∧
      ∃ as' u, as' <+: both.take 11 ∧ run (step compact) installed as' = some u ∧
        ∀ k, (t.prefs.cell k).read = (u.prefs.cell k).read := by
  have hrun : run (step compact) installed (both.take 11) = some _ := rfl
  exact ⟨_, _, hrun, rfl, restart_moment hrun rfl⟩

/-! ### The questions that should be there offline -/

/-- No questions of any topic are there. -/
def NoOffline (s : State) : Prop :=
  ∀ topicName, s.prefs.cell (.offline topicName) = { stored := none, issued := [] }

theorem noOffline_step (hI : NoOffline s) (h : step C s a = some t) : NoOffline t := by
  intro topicName
  cases steps_of_step h with
  | notes hr hw hm =>
    rw [(setNotes_of_step hr hw hm).2.2.2 _ (by simp)]
    exact hI topicName
  | infos hr hw hm =>
    rw [(setInfos_of_step hr hw hm).2.2.2 _ (by simp)]
    exact hI topicName
  | wrote k v hn hd ho =>
    rw [Cells.cell_write_of_ne (ho topicName)]
    exact hI topicName
  | stored hp =>
    rcases Cells.cell_store hp (.offline topicName) with heq | hcell
    · exact heq.trans (hI topicName)
    · rw [hI topicName] at hcell
      cases hcell
  | restarted =>
    rw [Cells.cell_lose, hI topicName]
    rfl

/-- A test is opened unless there are no questions. -/
theorem openTest_message (pool : List Question) (count : ℕ) (testName : String) (isTimerEnabled : Bool)
    (testDuration : ℕ) (empty : String) (random : Shuffle QuestionObj) (lists : Session.Selection.Lists) :
    (some <$> Session.Selection.openTest pool count testName isTimerEnabled testDuration empty random).run
      lists = (some (.error empty), lists) ↔ pool = [] := by
  cases pool with
  | nil => exact iff_of_true rfl rfl
  | cons q qs =>
    refine iff_of_false (fun h => ?_) (List.cons_ne_nil q qs)
    have hok := congrArg Prod.fst h
    cases hok

/-- Without questions that are there offline, a question has to be read. -/
theorem loadQuestions_none (isConnected : Bool) (snapshot : Option (List Json)) :
    ∃ pool, Session.Selection.loadQuestions C isConnected snapshot none = some pool ∧
      (pool = [] ↔ ¬ ∃ docs qs, isConnected = true ∧ snapshot = some docs ∧
        docs.mapM Question.fromJson = some qs ∧ qs ≠ []) := by
  unfold Session.Selection.loadQuestions
  simp only
  generalize hall : (if isConnected = true then
    (snapshot.bind fun docs => docs.mapM Question.fromJson).getD [] else []) = allQuestions
  have hiff : allQuestions = [] ↔ ¬ ∃ docs qs, isConnected = true ∧ snapshot = some docs ∧
      docs.mapM Question.fromJson = some qs ∧ qs ≠ [] := by
    subst hall
    constructor
    · rintro hnil ⟨docs, qs, hcon, rfl, hqs, hne⟩
      rw [if_pos hcon, Option.bind_some, hqs] at hnil
      exact hne hnil
    · intro hno
      split_ifs with hcon
      · cases hsnap : snapshot with
        | none => rfl
        | some docs =>
          rw [Option.bind_some]
          cases hqs : docs.mapM Question.fromJson with
          | none => rfl
          | some qs =>
            by_contra hne
            exact hno ⟨docs, qs, hcon, hsnap, hqs, hne⟩
      · rfl
  cases allQuestions with
  | nil => exact ⟨[], rfl, hiff⟩
  | cons q qs => exact ⟨q :: qs, rfl, hiff⟩

/-- **No topic is ever stored for use offline**: in every run `_startTest` shows its message, unless it has
read questions of the topic's collection. It asks for the collection if `isConnected` holds, the variable
of the source: it compares a list of connections with one kind of them, and so holds offline too. -/
theorem startTest_message {as : List Action} (h : run (step C) installed as = some s)
    (settings : Session.Selection.Settings) (topicName : String) (isConnected : Bool)
    (snapshot : Option (List Json)) (random : Shuffle QuestionObj)
    (lists : Session.Selection.Lists) :
    (Session.Selection.startTest C settings topicName isConnected snapshot
        (s.prefs.cell (.offline topicName)).read random).run lists =
      (some (.error "Bu konuda çevrimdışı soru bulunamadı."), lists) ↔
    ¬ ∃ docs qs, isConnected = true ∧ snapshot = some docs ∧ docs.mapM Question.fromJson = some qs ∧
      qs ≠ [] := by
  have hno : NoOffline s := run_of_keeps (fun _ _ _ hI hs => noOffline_step hI hs) (fun _ => rfl) h
  have hread : (s.prefs.cell (.offline topicName)).read = none := by
    rw [hno topicName]
    rfl
  obtain ⟨pool, hload, hiff⟩ := loadQuestions_none (C := C) isConnected snapshot
  rw [hread, ← hiff]
  unfold Session.Selection.startTest
  rw [hload]
  exact openTest_message ..

theorem startTest_message_both :
    ∃ s, run (step compact) installed (both.take 11) = some s ∧
      ((Session.Selection.startTest compact
          { selectedQuestionCount := 10, isTimerEnabled := false, testDuration := 15 } "Matematik" false none
          (s.prefs.cell (.offline "Matematik")).read ⟨id, fun _ => List.Perm.refl _⟩).run [] =
        (some (.error "Bu konuda çevrimdışı soru bulunamadı."), []) ↔
      ¬ ∃ docs qs, false = true ∧ (none : Option (List Json)) = some docs ∧
        docs.mapM Question.fromJson = some qs ∧ qs ≠ []) := by
  have hrun : run (step compact) installed (both.take 11) = some _ := rfl
  exact ⟨_, hrun, startTest_message hrun _ _ _ _ _ _⟩

end KamuSinavi.Preferences
