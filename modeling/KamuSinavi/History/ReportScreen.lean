import KamuSinavi.History.Overlap
import KamuSinavi.Lib.Erasures

/-! # Deleting from the report

`PerformanceReportScreen` (`pages/performance_report_screen.dart`) draws a card for each result that
`TestResultsService` (`services/test_results_service.dart`) has in memory. A long press on a card asks
whether the test is to be deleted, and deletes at the position the card had when it was built. The
result is taken out of the list at once, but the cards are built again only when the rest has been
written, and not at all if that fails; meanwhile they can be pressed.

`deletes_shown_iff` says for which runs every deletion takes out the result on the card, and
`overlap_of_run` that what the screen makes of the service are runs of calls that overlap (Overlap). -/

namespace KamuSinavi.History.ReportScreen

open KamuSinavi.Lib KamuSinavi.Lib.Runs KamuSinavi.Lib.Dart KamuSinavi.Lib.Erasures Service

/-- A result in memory; `ref` tells it from others with the same fields. -/
structure TestResultObj extends TestResult where
  ref : ℕ
  deriving DecidableEq

/-- A card, with what its item builder has read. `erased`, which the code does not have, are the
positions deleted since then, `none` if the list has been filled anew. -/
structure Card where
  index : ℕ
  result : TestResultObj
  erased : Option (List ℕ)
  deriving DecidableEq

inductive Dialog where
  | deleteTest (card : Card)
  | deleteAll
  deriving DecidableEq

/-- The screen. Until its load has ended its list is an empty one of its own; from then on it is the list
of the service. `itemCount` is that of the `ListView` last built, `cards` are the items built for it. -/
structure Screen where
  id : ℕ
  loaded : Bool
  itemCount : ℕ
  cards : List Card
  dialog : Option Dialog
  deriving DecidableEq

/-- Where a call of the service is suspended; a load is awaited by a screen. -/
inductive Pc where
  | load (screen : ℕ)
  | beforeWrite
  | writing
  | beforeRemove
  | removing
  deriving DecidableEq

/-- The service, its running calls and the screen, if it is open. `created` counts the objects made so
far, `opened` the screens. -/
structure State where
  testResults : List TestResultObj
  prefs : Option String
  calls : List Pc
  screen : Option Screen
  created : ℕ
  opened : ℕ

/-- A result page may save a test at any time. -/
inductive Action where
  | openScreen
  | leaveScreen
  | build
  | buildItem (index : ℕ)
  | longPress (card : ℕ)
  | tapDeleteAll
  | cancel
  | confirm
  | saveTestResult (t : FinishedTest) (date : DateTime)
  | resume (k : ℕ)

/-- The service without the identities of its results. -/
def State.service (s : State) : Service :=
  { testResults := s.testResults.map TestResultObj.toTestResult, prefs := s.prefs }

/-- New objects for the results. -/
def allocate (created : ℕ) (results : List TestResult) : List TestResultObj :=
  (results.zipIdx created).map fun p => { p.1 with ref := p.2 }

def Dialog.map (f : Card → Card) : Dialog → Dialog
  | .deleteTest card => .deleteTest (f card)
  | .deleteAll => .deleteAll

def Dialog.cards : Dialog → List Card
  | .deleteTest card => [card]
  | .deleteAll => []

/-- The cards that can still delete something. -/
def cards (s : State) : List Card :=
  s.screen.elim [] fun r => r.cards ++ r.dialog.elim [] Dialog.cards

/-- The list has changed, which the cards do not notice. -/
def State.note (s : State) (f : Card → Card) : State :=
  { s with screen := s.screen.map fun r =>
      { r with cards := r.cards.map f, dialog := r.dialog.map (Dialog.map f) } }

def Card.erase (index : ℕ) (card : Card) : Card :=
  { card with erased := card.erased.map (· ++ [index]) }

def Card.lose (card : Card) : Card := { card with erased := none }

/-- The list is cleared and filled with new objects. -/
def fill (s : State) (results : List TestResult) : State :=
  { s.note Card.lose with
    testResults := allocate s.created results
    created := s.created + results.length }

def deleteTestResultAt (s : State) (index : ℕ) : State :=
  if index < s.testResults.length then
    { s.note (Card.erase index) with
      testResults := s.testResults.eraseIdx index
      calls := s.calls ++ [.beforeWrite] }
  else s

/-- `setState` at the end of `_loadTestResults`, in the screen that awaits the load. -/
def Screen.show (id : ℕ) (r : Screen) : Screen := if r.id = id then { r with loaded := true } else r

variable (C : Convert)

/-- What `loadTestResults` fills the list with; `none` if it leaves the list alone. -/
def decoded (prefs : Option String) : Option (List TestResult) :=
  (prefs.bind fun resultsJson => (C.jsonDecode resultsJson).bind Json.arr?).map fun decoded =>
    (decoded.mapM (TestResult.fromJson C)).getD []

/-- The call `k` goes on to its next suspension. -/
def resume (s : State) (k : ℕ) : Pc → State
  | .load id =>
    let t := (decoded C s.prefs).elim s (fill s)
    { t with calls := s.calls.eraseIdx k, screen := t.screen.map (Screen.show id) }
  | .beforeWrite =>
    { s with
      prefs := (saveToPreferences C s.service).prefs
      calls := if (encodeAll C s.service.testResults).isSome then s.calls.set k .writing
        else s.calls.eraseIdx k }
  | .writing => { s with calls := s.calls.eraseIdx k }
  | .beforeRemove => { s with prefs := none, calls := s.calls.set k .removing }
  | .removing => { fill s [] with calls := s.calls.eraseIdx k }

/-- A change of the open screen. -/
def onScreen (s : State) (change : Screen → Option Screen) : Option State :=
  s.screen.bind fun r => (change r).map fun r' => { s with screen := some r' }

/-- What a dialog that is confirmed does, when it has been closed. -/
def confirmed (s : State) : Dialog → State
  | .deleteTest card => deleteTestResultAt s card.index
  | .deleteAll => { s with calls := s.calls ++ [.beforeRemove] }

def step (s : State) : Action → Option State
  | .openScreen =>
    if s.screen.isNone then
      some { s with
        screen := some { id := s.opened, loaded := false, itemCount := 0, cards := [], dialog := none }
        opened := s.opened + 1
        calls := s.calls ++ [.load s.opened] }
    else none
  | .leaveScreen =>
    s.screen.bind fun r => if r.dialog.isNone then some { s with screen := none } else none
  | .build => onScreen s fun r => some { r with
      itemCount := if r.loaded then s.testResults.length else 0
      cards := [] }
  -- building an item behind the end of the list throws
  | .buildItem index => onScreen s fun r =>
    if index < r.itemCount then s.testResults[index]?.map fun result =>
      { r with cards := r.cards ++ [{ index, result, erased := some [] }] }
    else none
  | .longPress k => onScreen s fun r =>
    if r.dialog.isNone then r.cards[k]?.map fun card => { r with dialog := some (.deleteTest card) }
    else none
  | .tapDeleteAll => onScreen s fun r =>
    if r.dialog.isNone then some { r with dialog := some .deleteAll } else none
  | .cancel => onScreen s fun r => r.dialog.map fun _ => { r with dialog := none }
  | .confirm => s.screen.bind fun r => r.dialog.map fun dialog =>
    confirmed { s with screen := some { r with dialog := none } } dialog
  | .saveTestResult t date =>
    some { s with
      testResults := s.testResults ++ [{ newResult C t date with ref := s.created }]
      created := s.created + 1
      calls := s.calls ++ [.beforeWrite] }
  | .resume k => s.calls[k]?.map (resume C s k)

/-- The app has been started on a persisted text. -/
def started (prefs : Option String) : State :=
  { testResults := [], prefs, calls := [], screen := none, created := 0, opened := 0 }

/-- **A confirmed deletion takes out the result on the card**, and no other. -/
def Removes (s : State) (a : Action) (t : State) : Prop :=
  match a with
  | .confirm => ∀ r ∈ s.screen, ∀ card, r.dialog = some (.deleteTest card) →
      card.result ∈ s.testResults ∧ t.testResults = s.testResults.filter (· ≠ card.result)
  | _ => True

/-- Since the card was built the list has not been filled anew, and the results deleted stood behind
that of the card. -/
def Untouched (s : State) : Action → Prop
  | .confirm => ∀ r ∈ s.screen, ∀ card, r.dialog = some (.deleteTest card) →
      ∃ ds ∈ card.erased, ∀ d ∈ ds, card.index < d
  | _ => True

variable {C}

/-! ## What a step does to the list and the cards -/

/-- The cards do not depend on what else there is. -/
theorem cards_congr {s t : State} (h : t.screen = s.screen) : cards t = cards s := by
  rw [cards, cards, h]

theorem cards_note (s : State) (f : Card → Card) : cards (s.note f) = (cards s).map f := by
  obtain ⟨_, _, _, screen, _, _⟩ := s
  rcases screen with _ | ⟨_, _, _, _, _ | (_ | _)⟩ <;> simp [cards, State.note, Dialog.map, Dialog.cards]

theorem exists_of_note {s t : State} {f : Card → Card} (h : t.screen = (s.note f).screen) :
    ∀ c ∈ cards t, ∃ c' ∈ cards s, c = f c' := by
  intro c hc
  rw [cards_congr h, cards_note] at hc
  obtain ⟨c', hc', rfl⟩ := List.mem_map.mp hc
  exact ⟨c', hc', rfl⟩

/-- **A step leaves the list alone, appends a new result to it, deletes at a position or fills it with
new results**, and a new card shows what is at its position. -/
inductive Change (s t : State) : Prop
  | kept (hl : t.testResults = s.testResults) (hc : t.created = s.created)
    (hcards : ∀ c ∈ cards t, c ∈ cards s ∨ s.testResults[c.index]? = some c.result ∧ c.erased = some [])
  | appended (r : TestResultObj) (hl : t.testResults = s.testResults ++ [r]) (hr : r.ref = s.created)
    (hc : t.created = s.created + 1) (hcards : ∀ c ∈ cards t, c ∈ cards s)
  | deleted (d : ℕ) (hl : t.testResults = s.testResults.eraseIdx d) (hc : t.created = s.created)
    (hcards : ∀ c ∈ cards t, ∃ c' ∈ cards s, c = c'.erase d)
  | filled (results : List TestResult) (hl : t.testResults = allocate s.created results)
    (hc : t.created = s.created + results.length)
    (hcards : ∀ c ∈ cards t, ∃ c' ∈ cards s, c = c'.lose)

/-- A step of the screen only. -/
theorem change_of_cards {s t : State} (hl : t.testResults = s.testResults) (hc : t.created = s.created)
    (hcards : ∀ c ∈ cards t, c ∈ cards s) : Change s t :=
  .kept hl hc fun c h => Or.inl (hcards c h)

theorem change_of_fill {s t : State} (results : List TestResult)
    (hl : t.testResults = (fill s results).testResults) (hc : t.created = (fill s results).created)
    (hcards : cards t = cards (fill s results)) : Change s t :=
  .filled results hl hc fun c h => exists_of_note (t := fill s results) rfl c (hcards ▸ h)

/-- The end of a load changes no card. -/
theorem cards_show (s t : State) (id : ℕ) (h : t.screen = s.screen.map (Screen.show id)) :
    cards t = cards s := by
  rw [cards, cards, h]
  rcases s.screen with _ | r
  · rfl
  · rw [Option.map_some, Option.elim_some, Option.elim_some, Screen.show]
    split_ifs <;> rfl

theorem change_resume (s : State) (k : ℕ) (pc : Pc) : Change s (resume C s k pc) := by
  cases pc with
  | load id =>
    rcases hd : decoded C s.prefs with _ | results
    · refine change_of_cards ?_ ?_ fun c h => ?_
      · rw [resume, hd]; rfl
      · rw [resume, hd]; rfl
      · rwa [resume, hd, cards_show s _ id rfl] at h
    · refine change_of_fill results ?_ ?_ ?_
      · rw [resume, hd]; rfl
      · rw [resume, hd]; rfl
      · rw [resume, hd]
        exact cards_show (fill s results) _ id rfl
  | beforeWrite | writing | beforeRemove => exact change_of_cards rfl rfl fun _ h => h
  | removing => exact change_of_fill [] rfl rfl rfl

theorem change_deleteTestResultAt (s : State) (index : ℕ) : Change s (deleteTestResultAt s index) := by
  rw [deleteTestResultAt]
  split_ifs with h
  · exact .deleted index rfl rfl (exists_of_note rfl)
  · exact change_of_cards rfl rfl fun _ hc => hc

theorem change_confirmed (s : State) (dialog : Dialog) : Change s (confirmed s dialog) := by
  cases dialog with
  | deleteTest card => exact change_deleteTestResultAt s card.index
  | deleteAll => exact change_of_cards rfl rfl fun _ hc => hc

/-- There may be more cards at the start. -/
theorem Change.mono {s s' t : State} (h : Change s t) (hl : s'.testResults = s.testResults)
    (hc : s'.created = s.created) (hcards : ∀ c ∈ cards s, c ∈ cards s') : Change s' t := by
  cases h with
  | kept htl htc htcards =>
    refine .kept (htl.trans hl.symm) (htc.trans hc.symm) fun c h => ?_
    rw [hl]
    exact (htcards c h).imp_left (hcards c)
  | appended r htl hr htc htcards =>
    exact .appended r (hl ▸ htl) (hc ▸ hr) (hc ▸ htc) fun c h => hcards c (htcards c h)
  | deleted d htl htc htcards =>
    refine .deleted d (hl ▸ htl) (htc.trans hc.symm) fun c h => ?_
    obtain ⟨c', hc', rfl⟩ := htcards c h
    exact ⟨c', hcards c' hc', rfl⟩
  | filled results htl htc htcards =>
    refine .filled results (hc ▸ htl) (hc ▸ htc) fun c h => ?_
    obtain ⟨c', hc', rfl⟩ := htcards c h
    exact ⟨c', hcards c' hc', rfl⟩

theorem cards_closed {s : State} {r : Screen} (hr : s.screen = some r) :
    ∀ c ∈ cards { s with screen := some { r with dialog := none } }, c ∈ cards s := by
  intro c hc
  rw [cards, hr]
  exact List.mem_append_left _ ((List.mem_append.mp hc).resolve_right List.not_mem_nil)

/-- A change of the screen that leaves the list alone. -/
theorem change_onScreen {s t : State} {change : Screen → Option Screen}
    (hcards : ∀ r ∈ s.screen, ∀ r' ∈ change r, ∀ c ∈ r'.cards ++ r'.dialog.elim [] Dialog.cards,
      c ∈ r.cards ++ r.dialog.elim [] Dialog.cards ∨
        s.testResults[c.index]? = some c.result ∧ c.erased = some [])
    (h : onScreen s change = some t) : Change s t := by
  obtain ⟨r, hr, h⟩ := Option.bind_eq_some_iff.mp h
  obtain ⟨r', hr', rfl⟩ := Option.map_eq_some_iff.mp h
  refine .kept rfl rfl fun c hc => ?_
  have hold : cards s = r.cards ++ r.dialog.elim [] Dialog.cards := by
    rw [cards, hr, Option.elim_some]
  rw [hold]
  exact hcards r hr r' hr' c hc

theorem step_change {s t : State} {a : Action} (h : step C s a = some t) : Change s t := by
  cases a with
  | openScreen =>
    simp only [step, Option.ite_none_right_eq_some, Option.some.injEq] at h
    obtain ⟨-, rfl⟩ := h
    exact change_of_cards rfl rfl fun c hc => absurd hc List.not_mem_nil
  | leaveScreen =>
    obtain ⟨r, -, h⟩ := Option.bind_eq_some_iff.mp h
    simp only [Option.ite_none_right_eq_some, Option.some.injEq] at h
    obtain ⟨-, rfl⟩ := h
    exact change_of_cards rfl rfl fun c hc => absurd hc List.not_mem_nil
  | build =>
    refine change_onScreen (fun r _ r' hr' c hc => Or.inl ?_) h
    obtain rfl := Option.some.inj hr'
    exact List.mem_append_right _ hc
  | buildItem index =>
    refine change_onScreen (fun r _ r' hr' c hc => ?_) h
    rw [Option.mem_def, Option.ite_none_right_eq_some] at hr'
    obtain ⟨result, hresult, rfl⟩ := Option.map_eq_some_iff.mp hr'.2
    rw [List.mem_append, List.mem_append, List.mem_singleton] at hc
    rcases hc with (hc | rfl) | hc
    · exact Or.inl (List.mem_append_left _ hc)
    · exact Or.inr ⟨hresult, rfl⟩
    · exact Or.inl (List.mem_append_right _ hc)
  | longPress k =>
    refine change_onScreen (fun r _ r' hr' c hc => Or.inl ?_) h
    rw [Option.mem_def, Option.ite_none_right_eq_some] at hr'
    obtain ⟨card, hcard, rfl⟩ := Option.map_eq_some_iff.mp hr'.2
    rw [List.mem_append, Option.elim_some, Dialog.cards, List.mem_singleton] at hc
    rcases hc with hc | rfl
    · exact List.mem_append_left _ hc
    · exact List.mem_append_left _ (List.mem_of_getElem? hcard)
  | tapDeleteAll =>
    refine change_onScreen (fun r _ r' hr' c hc => Or.inl ?_) h
    rw [Option.mem_def, Option.ite_none_right_eq_some, Option.some.injEq] at hr'
    obtain ⟨-, rfl⟩ := hr'
    rw [List.mem_append] at hc
    exact List.mem_append_left _ (hc.resolve_right List.not_mem_nil)
  | cancel =>
    refine change_onScreen (fun r _ r' hr' c hc => Or.inl ?_) h
    obtain ⟨_, -, rfl⟩ := Option.map_eq_some_iff.mp hr'
    rw [List.mem_append] at hc
    exact List.mem_append_left _ (hc.resolve_right List.not_mem_nil)
  | confirm =>
    obtain ⟨r, hr, h⟩ := Option.bind_eq_some_iff.mp h
    obtain ⟨dialog, -, rfl⟩ := Option.map_eq_some_iff.mp h
    exact (change_confirmed _ dialog).mono rfl rfl (cards_closed hr)
  | saveTestResult t date =>
    obtain rfl := Option.some.inj h
    exact .appended _ rfl rfl rfl fun _ hc => hc
  | resume k =>
    obtain ⟨pc, -, rfl⟩ := Option.map_eq_some_iff.mp h
    exact change_resume s k pc

/-! ## What the cards know of the list -/

/-- The result of a card is where the deletions have taken it, or it is gone. -/
structure Seen (s : State) (c : Card) : Prop where
  old : c.result.ref < s.created
  tracks : ∀ ds, c.erased = some ds → Tracks s.testResults c.index c.result ds
  gone : c.erased = none → c.result ∉ s.testResults

structure Inv (s : State) : Prop where
  nodup : (s.testResults.map TestResultObj.ref).Nodup
  old : ∀ r ∈ s.testResults, r.ref < s.created
  cards : ∀ c ∈ cards s, Seen s c

theorem inv_started (prefs : Option String) : Inv (started prefs) :=
  ⟨List.nodup_nil, fun _ h => absurd h List.not_mem_nil, fun _ h => absurd h List.not_mem_nil⟩

theorem Inv.nodup_testResults {s : State} (hI : Inv s) : s.testResults.Nodup := hI.nodup.of_map

theorem map_ref_allocate (created : ℕ) (results : List TestResult) :
    (allocate created results).map TestResultObj.ref = List.range' created results.length := by
  rw [allocate, List.map_map]
  exact List.zipIdx_map_snd ..

theorem mem_allocate {created : ℕ} {results : List TestResult} {r : TestResultObj}
    (h : r ∈ allocate created results) : created ≤ r.ref ∧ r.ref < created + results.length := by
  have href := List.mem_map_of_mem (f := TestResultObj.ref) h
  rw [map_ref_allocate] at href
  simpa using href

theorem inv_change {s t : State} (hI : Inv s) (h : Change s t) : Inv t := by
  cases h with
  | kept hl hc hcards =>
    refine ⟨hl ▸ hI.nodup, fun r hr => hc ▸ hI.old r (hl ▸ hr), fun c h => ?_⟩
    rcases hcards c h with hold | ⟨hat, herased⟩
    · obtain ⟨hold, htracks, hgone⟩ := hI.cards c hold
      exact ⟨hc ▸ hold, hl ▸ htracks, hl ▸ hgone⟩
    · refine ⟨hc ▸ hI.old _ (List.mem_of_getElem? hat), fun ds hds => ?_, fun hnone => ?_⟩
      · obtain rfl := Option.some.inj (herased.symm.trans hds)
        exact hl ▸ tracks_nil hat
      · rw [herased] at hnone
        exact absurd hnone (Option.some_ne_none _)
  | appended r hl hr hc hcards =>
    have hfresh : ∀ r' : TestResultObj, r'.ref < s.created → r ≠ r' := by
      rintro r' hlt rfl
      exact absurd hlt (hr ▸ lt_irrefl _)
    refine ⟨?_, fun r' hr' => ?_, fun c h => ?_⟩
    · rw [hl, List.map_append, List.map_singleton, List.nodup_append]
      refine ⟨hI.nodup, List.nodup_singleton _, fun a ha b hb hab => ?_⟩
      obtain ⟨r', hr', rfl⟩ := List.mem_map.mp ha
      rw [List.mem_singleton, ← hab] at hb
      exact absurd (hI.old r' hr') (by omega)
    · rw [hl, List.mem_append, List.mem_singleton] at hr'
      rcases hr' with hr' | rfl
      · exact hc ▸ Nat.lt_succ_of_lt (hI.old r' hr')
      · omega
    · obtain ⟨hold, htracks, hgone⟩ := hI.cards c (hcards c h)
      refine ⟨by omega, fun ds hds => hl ▸ (htracks ds hds).append (hfresh _ hold), fun hnone => ?_⟩
      rw [hl, List.mem_append, List.mem_singleton]
      rintro (hmem | heq)
      · exact hgone hnone hmem
      · exact hfresh _ hold heq.symm
  | deleted d hl hc hcards =>
    refine ⟨?_, fun r hr => ?_, fun c h => ?_⟩
    · rw [hl]
      exact hI.nodup.sublist ((List.eraseIdx_sublist _ _).map _)
    · rw [hl] at hr
      exact hc ▸ hI.old r (List.mem_of_mem_eraseIdx hr)
    · obtain ⟨c', hc', rfl⟩ := hcards c h
      obtain ⟨hold, htracks, hgone⟩ := hI.cards c' hc'
      refine ⟨hc ▸ hold, fun ds hds => ?_, fun hnone hmem => ?_⟩
      · obtain ⟨ds', hds', rfl⟩ := Option.map_eq_some_iff.mp hds
        exact hl ▸ (htracks ds' hds').eraseIdx hI.nodup_testResults d
      · rw [hl] at hmem
        exact hgone (Option.map_eq_none_iff.mp hnone) (List.mem_of_mem_eraseIdx hmem)
  | filled results hl hc hcards =>
    refine ⟨?_, fun r hr => ?_, fun c h => ?_⟩
    · rw [hl, map_ref_allocate]
      exact List.nodup_range'
    · exact hc ▸ (mem_allocate (hl ▸ hr)).2
    · obtain ⟨c', hc', rfl⟩ := hcards c h
      have hold := (hI.cards c' hc').old
      refine ⟨?_, fun ds hds => absurd hds.symm (Option.some_ne_none ds), fun _ hmem => ?_⟩
      · exact hc ▸ Nat.lt_add_right _ hold
      · exact absurd hold (Nat.not_lt_of_le (mem_allocate (hl ▸ hmem)).1)

/-! ## Deletions -/

/-- **A card's position has its result exactly if only later ones have been deleted** since the card
was built. -/
theorem Seen.getElem?_iff {s : State} {c : Card} (h : Seen s c) (hl : s.testResults.Nodup) :
    s.testResults[c.index]? = some c.result ↔ ∃ ds ∈ c.erased, ∀ d ∈ ds, c.index < d := by
  rcases herased : c.erased with _ | ds
  · refine iff_of_false (fun hat => h.gone herased (List.mem_of_getElem? hat)) ?_
    rintro ⟨ds, hds, -⟩
    exact absurd hds (Option.not_mem_none ds)
  · rw [(h.tracks ds herased).getElem?_iff hl]
    exact ⟨fun hall => ⟨ds, rfl, hall⟩, fun ⟨ds', hds', hall⟩ => Option.some.inj hds' ▸ hall⟩

theorem deleteTestResultAt_testResults (s : State) (index : ℕ) :
    (deleteTestResultAt s index).testResults = s.testResults.eraseIdx index := by
  rw [deleteTestResultAt]
  split_ifs with h
  · rfl
  · exact (List.eraseIdx_of_length_le (Nat.le_of_not_lt h)).symm

theorem removes_iff_untouched {s t : State} {a : Action} (hI : Inv s) (h : step C s a = some t) :
    Removes s a t ↔ Untouched s a := by
  cases a with
  | confirm =>
    obtain ⟨r, hr, h⟩ := Option.bind_eq_some_iff.mp h
    obtain ⟨dialog, hdialog, rfl⟩ := Option.map_eq_some_iff.mp h
    simp only [Removes, Untouched, hr, Option.mem_some_iff, forall_eq', hdialog, Option.some.injEq]
    cases dialog with
    | deleteAll => exact iff_of_true (fun _ h => Dialog.noConfusion h) fun _ h => Dialog.noConfusion h
    | deleteTest card =>
      have hcard : card ∈ cards s := by
        rw [cards, hr, Option.elim_some, hdialog]
        exact List.mem_append_right _ (List.mem_singleton_self card)
      have hl := hI.nodup_testResults
      have hat := (hI.cards card hcard).getElem?_iff hl
      simp only [Dialog.deleteTest.injEq, forall_eq', confirmed, deleteTestResultAt_testResults]
      rw [← hat]
      constructor
      · exact fun ⟨hmem, hfilter⟩ => (eraseIdx_eq_filter_iff hl hmem).mp hfilter
      · intro hplace
        have hmem := List.mem_of_getElem? hplace
        exact ⟨hmem, (eraseIdx_eq_filter_iff hl hmem).mpr hplace⟩
  | openScreen | leaveScreen | build | buildItem _ | longPress _ | tapDeleteAll | cancel
  | saveTestResult _ _ | resume _ => exact Iff.rfl

/-- **Every deletion takes out the result on the card, and no other, exactly if no result at its
position or before has been deleted since the card was built**, and the list has not been filled anew. -/
theorem deletes_shown_iff (prefs : Option String) (as : List Action) :
    EachStep (step C) Removes (started prefs) as ↔ Along (step C) Untouched (started prefs) as :=
  eachStep_iff_along (J := Inv) (C := Untouched) (Q := Removes)
    (fun _ _ _ hI h _ => inv_change hI (step_change h))
    (fun _ _ _ hI h => removes_iff_untouched hI h) (inv_started prefs)

/-- Three tests are listed; the second card is pressed while the deletion of the first result has not
been written. -/
def pressedTwice : List Action :=
  [.saveTestResult Retention.sums .noon, .saveTestResult Retention.sums .noon,
    .saveTestResult Retention.sums .noon, .openScreen, .resume 3, .build, .buildItem 0, .buildItem 1,
    .longPress 0, .confirm, .longPress 1, .confirm]

/-- The third result is deleted, and the second stays. -/
example : ((run (step compact) (started none) pressedTwice).map fun s =>
    s.testResults.map TestResultObj.ref) = some [1] := by decide

/-! ## The calls of the service -/

def Pc.toOverlap : Pc → Overlap.Pc
  | .load _ => .beforeLoad
  | .beforeWrite => .beforeWrite
  | .writing => .writing
  | .beforeRemove => .beforeRemove
  | .removing => .removing

/-- The service and its running calls are those of `o`. -/
structure Same (s : State) (o : Overlap.State) : Prop where
  service : o.service = s.service
  calls : o.calls = s.calls.map Pc.toOverlap

theorem toTestResult_allocate (created : ℕ) (results : List TestResult) :
    (allocate created results).map TestResultObj.toTestResult = results := by
  rw [allocate, List.map_map]
  exact List.zipIdx_map_fst ..

theorem loadTestResults_eq (s : Service) :
    Service.loadTestResults C s = { s with testResults := (decoded C s.prefs).getD s.testResults } := by
  obtain ⟨results, prefs⟩ := s
  rcases prefs with _ | text
  · rfl
  · simp only [Service.loadTestResults, decoded, Option.bind_some]
    rcases hjs : (C.jsonDecode text).bind Json.arr? with _ | js
    · simp only [Option.map_none, Option.getD_none]
    · rcases hrs : js.mapM (TestResult.fromJson C) with _ | rs <;>
        simp only [hrs, Option.map_some, Option.getD_some, Option.getD_none]

theorem service_fill (s : State) (results : List TestResult) :
    (fill s results).service = { s.service with testResults := results } :=
  congrArg (Service.mk · s.prefs) (toTestResult_allocate s.created results)

theorem service_load (s : State) :
    ((decoded C s.prefs).elim s (fill s)).service = Service.loadTestResults C s.service := by
  rw [loadTestResults_eq]
  change _ = { s.service with testResults := (decoded C s.prefs).getD s.service.testResults }
  rcases decoded C s.prefs with _ | results
  · rfl
  · exact service_fill s results

theorem same_resume {s : State} {o : Overlap.State} (ho : Same s o) (k : ℕ) (pc : Pc) :
    Same (resume C s k pc) (Overlap.resume C o k pc.toOverlap) := by
  obtain ⟨hservice, hcalls⟩ := ho
  have herase : o.calls.eraseIdx k = (s.calls.eraseIdx k).map Pc.toOverlap := by
    rw [hcalls, List.eraseIdx_map]
  have hset : ∀ p : Pc, o.calls.set k p.toOverlap = (s.calls.set k p).map Pc.toOverlap := fun p => by
    rw [hcalls, List.map_set]
  cases pc with
  | load id =>
    refine ⟨?_, herase⟩
    change Service.loadTestResults C o.service = _
    rw [hservice, ← service_load]
    rfl
  | beforeWrite =>
    refine ⟨?_, ?_⟩
    · change saveToPreferences C o.service = _
      rw [hservice]
      exact congrArg (Service.mk · _) (saveToPreferences_testResults s.service)
    · simp only [Overlap.resume, resume, hservice]
      split_ifs
      · exact hset .writing
      · exact herase
  | writing => exact ⟨hservice, herase⟩
  | beforeRemove =>
    refine ⟨?_, hset .removing⟩
    change { o.service with prefs := none } = _
    rw [hservice]
    rfl
  | removing =>
    refine ⟨?_, herase⟩
    change { o.service with testResults := [] } = _
    rw [hservice]
    exact (service_fill s []).symm

theorem same_onScreen {s t : State} {o : Overlap.State} {change : Screen → Option Screen} (ho : Same s o)
    (h : onScreen s change = some t) : Same t o := by
  obtain ⟨r, -, h⟩ := Option.bind_eq_some_iff.mp h
  obtain ⟨r', -, rfl⟩ := Option.map_eq_some_iff.mp h
  exact ⟨ho.service, ho.calls⟩

/-- A call appended to those that are running. -/
theorem calls_append {s : State} {o : Overlap.State} (ho : Same s o) (pc : Pc) :
    o.calls ++ [pc.toOverlap] = (s.calls ++ [pc]).map Pc.toOverlap := by
  rw [ho.calls, List.map_append, List.map_singleton]

theorem same_deleteTestResultAt {s : State} {o : Overlap.State} (ho : Same s o) (index : ℕ) :
    Same (deleteTestResultAt s index) (Overlap.start C o (.deleteTestResultAt index)) := by
  have hresults : o.service.testResults = s.testResults.map TestResultObj.toTestResult := by
    rw [ho.service]
    rfl
  have hlen : o.service.testResults.length = s.testResults.length := by
    rw [hresults, List.length_map]
  rw [deleteTestResultAt, Overlap.start, hlen]
  split_ifs with h
  · refine ⟨?_, calls_append ho .beforeWrite⟩
    change Service.mk (o.service.testResults.eraseIdx index) o.service.prefs = _
    rw [hresults, List.eraseIdx_map, ho.service]
    rfl
  · exact ⟨ho.service, ho.calls⟩

/-- **A step of the screen is a step of the calls, or does nothing to them.** -/
theorem overlap_of_step {s t : State} {a : Action} {o : Overlap.State} (ho : Same s o)
    (h : step C s a = some t) :
    Same t o ∨ ∃ a' o', Overlap.step C o a' = some o' ∧ Same t o' := by
  cases a with
  | openScreen =>
    simp only [step, Option.ite_none_right_eq_some, Option.some.injEq] at h
    obtain ⟨-, rfl⟩ := h
    exact Or.inr ⟨.call .loadTestResults, _, rfl, ho.service, calls_append ho (.load s.opened)⟩
  | leaveScreen =>
    obtain ⟨r, -, h⟩ := Option.bind_eq_some_iff.mp h
    simp only [Option.ite_none_right_eq_some, Option.some.injEq] at h
    obtain ⟨-, rfl⟩ := h
    exact Or.inl ⟨ho.service, ho.calls⟩
  | build | buildItem _ | longPress _ | tapDeleteAll | cancel => exact Or.inl (same_onScreen ho h)
  | confirm =>
    obtain ⟨r, -, h⟩ := Option.bind_eq_some_iff.mp h
    obtain ⟨dialog, -, rfl⟩ := Option.map_eq_some_iff.mp h
    have ho : Same { s with screen := some { r with dialog := none } } o := ⟨ho.service, ho.calls⟩
    cases dialog with
    | deleteTest card =>
      exact Or.inr ⟨.call (.deleteTestResultAt card.index), _, rfl,
        same_deleteTestResultAt ho card.index⟩
    | deleteAll =>
      exact Or.inr ⟨.call .clearTestResults, _, rfl, ho.service, calls_append ho .beforeRemove⟩
  | saveTestResult test date =>
    obtain rfl := Option.some.inj h
    refine Or.inr ⟨.call (.saveTestResult test date), _, rfl, ?_, calls_append ho .beforeWrite⟩
    change Service.mk (o.service.testResults ++ _) o.service.prefs = _
    rw [ho.service, State.service, State.service, List.map_append]
    rfl
  | resume k =>
    obtain ⟨pc, hpc, rfl⟩ := Option.map_eq_some_iff.mp h
    refine Or.inr ⟨.resume k, Overlap.resume C o k pc.toOverlap, ?_, same_resume ho k pc⟩
    rw [Overlap.step, ho.calls, List.getElem?_map, hpc]
    rfl

/-- **A run of the screen is one of calls that overlap.** -/
theorem overlap_of_run {prefs : Option String} {as : List Action} {t : State}
    (h : run (step C) (started prefs) as = some t) :
    ∃ as' o, run (Overlap.step C) (Overlap.quiet { testResults := [], prefs }) as' = some o ∧
      Same t o := by
  refine run_of_keeps (J := fun t => ∃ as' o,
    run (Overlap.step C) (Overlap.quiet { testResults := [], prefs }) as' = some o ∧ Same t o)
    ?_ ⟨[], _, rfl, rfl, rfl⟩ h
  rintro s a t ⟨as', o, hrun, ho⟩ hstep
  rcases overlap_of_step ho hstep with ho' | ⟨a', o', hstep', ho'⟩
  · exact ⟨as', o, hrun, ho'⟩
  · refine ⟨as' ++ [a'], o', ?_, ho'⟩
    rw [run_append, hrun, Option.bind_some, run_singleton, hstep']

end KamuSinavi.History.ReportScreen
