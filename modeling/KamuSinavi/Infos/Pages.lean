import KamuSinavi.Infos.Marks
import KamuSinavi.Lib.Calls
import KamuSinavi.Lib.Cell
import KamuSinavi.Lib.Runs
import Mathlib.Algebra.Group.Nat.Even

/-! # The study pages share one entry

`MainMenuScreen` opens one of the seven pages (`pages/main_menu_screen.dart`), which loads the marks;
a tap on a detail flips its mark and saves all marks of the page (`infos/`). The load and each save
suspend at `SharedPreferences.getInstance`, and a save goes on when its page has been left. All pages
save to and load from the one entry `'selected_details'`.

`toggled` holds the taps so far. `Undisturbed` says that the marks a loaded page shows are those of the
details tapped an odd number of times on it, and that no load has thrown. `undisturbed_of_apart` says
for which runs this holds. -/

namespace KamuSinavi.Infos

open KamuSinavi.Lib KamuSinavi.Lib.Runs KamuSinavi.Lib.Ragged

/-- A tap on a detail. -/
structure Toggle where
  page : InfoPage
  topic : ℕ
  detail : ℕ
  deriving DecidableEq

/-- The page that is open. -/
structure Screen where
  page : InfoPage
  selectedDetails : List (List Bool)
  loading : Bool
  deriving DecidableEq

/-- A suspended `_saveSelectedDetails`, of the page that is open or of one left with these marks. -/
inductive Save where
  | onScreen
  | left (selectedDetails : List (List Bool))
  deriving DecidableEq

/-- The entry, the open page and the suspended saves. `thrown` says that a load has thrown. -/
structure State where
  prefs : Cell (Option (List String))
  screen : Option Screen
  saves : List Save
  thrown : Bool
  toggled : List Toggle
  deriving DecidableEq

inductive Action where
  | openPage (page : InfoPage)
  | leavePage
  | restart
  | load
  | tapDetail (topic detail : ℕ)
  | save (k : ℕ)
  | written

/-- `initState`. -/
def newScreen (page : InfoPage) : Screen :=
  { page := page, selectedDetails := initializeSelectedDetails page, loading := true }

/-- The marks a save writes. -/
def Save.marks (screen : Option Screen) : Save → List (List Bool)
  | .onScreen => screen.elim [] Screen.selectedDetails
  | .left selectedDetails => selectedDetails

/-- The page with these marks is left. -/
def Save.leave (selectedDetails : List (List Bool)) : Save → Save
  | .onScreen => .left selectedDetails
  | .left selectedDetails => .left selectedDetails

/-- The end of `_loadSelectedDetails`. -/
def loaded (s : State) (c : Screen) : State :=
  match s.prefs.read with
  | none => { s with screen := some { c with loading := false } }
  | some savedDetails =>
    let result := loadSelectedDetails savedDetails c.selectedDetails
    { s with
      screen := some { c with selectedDetails := result.1, loading := false }
      thrown := s.thrown || result.2 }

def step (s : State) : Action → Option State
  | .openPage page =>
    if s.screen = none then some { s with screen := some (newScreen page) } else none
  | .leavePage => s.screen.map fun c =>
    { s with screen := none, saves := s.saves.map (Save.leave c.selectedDetails) }
  | .restart => some { s with prefs := s.prefs.lose, screen := none, saves := [] }
  | .load => s.screen.bind fun c => if c.loading then some (loaded s c) else none
  | .tapDetail i j => s.screen.bind fun c => (item c.selectedDetails i j).bind fun b =>
    (put c.selectedDetails i j (!b)).map fun selectedDetails =>
      { s with
        screen := some { c with selectedDetails := selectedDetails }
        saves := s.saves ++ [.onScreen]
        toggled := s.toggled ++ [{ page := c.page, topic := i, detail := j }] }
  | .save k => s.saves[k]?.map fun v =>
    { s with
      prefs := s.prefs.write (some (saveSelectedDetails (v.marks s.screen)))
      saves := s.saves.eraseIdx k }
  | .written => s.prefs.store.map fun prefs => { s with prefs := prefs }

/-- Before the app is used. -/
def installed : State :=
  { prefs := { stored := none, issued := [] }, screen := none, saves := [], thrown := false,
    toggled := [] }

/-- **The marks of a page are those tapped an odd number of times on it**, and every saved position is
one of the page that loads it. -/
structure Undisturbed (s : State) : Prop where
  shown : ∀ c ∈ s.screen, c.loading = false → ∀ i j,
    item c.selectedDetails i j = some true ↔ Odd (s.toggled.count { page := c.page, topic := i, detail := j })
  inRange : s.thrown = false

/-- The page of the last tap. -/
def lastPage (s : State) : Option InfoPage := s.toggled.getLast?.map Toggle.page

/-- The same positions have been tapped an odd number of times on both pages. -/
def SameMarks (toggled : List Toggle) (p q : InfoPage) : Prop :=
  ∀ t ∈ toggled, (Odd (toggled.count { t with page := p }) ↔ Odd (toggled.count { t with page := q }))

/-- A page is opened when no save is suspended, and the app restarted when every save is stored; a
detail is tapped when the page is loaded; and the page that loads has the marks of the page of the last
tap. -/
def Apart (s : State) : Action → Prop
  | .openPage _ => s.saves = []
  | .restart => s.saves = [] ∧ s.prefs.issued = []
  | .load => ∀ c ∈ s.screen, ∀ p ∈ lastPage s, SameMarks s.toggled p c.page
  | .tapDetail .. => ∀ c ∈ s.screen, c.loading = false
  | _ => True

instance (toggled : List Toggle) (p q : InfoPage) : Decidable (SameMarks toggled p q) :=
  inferInstanceAs (Decidable (∀ t ∈ toggled, (_ ↔ _)))

instance (s : State) : DecidablePred (Apart s)
  | .openPage _ => inferInstanceAs (Decidable (s.saves = []))
  | .restart => inferInstanceAs (Decidable (_ ∧ _))
  | .load => inferInstanceAs (Decidable (∀ c ∈ s.screen, ∀ p ∈ lastPage s, _))
  | .tapDetail .. => inferInstanceAs (Decidable (∀ c ∈ s.screen, _))
  | .leavePage | .save _ | .written => isTrue trivial

/-! ### What holds along a run -/

/-- The matrix of a page has the marks it should. -/
structure Shows (page : InfoPage) (toggled : List Toggle) (m : List (List Bool)) : Prop where
  shape : shape m = page.details
  marks : ∀ i j, item m i j = some true ↔
    Odd (toggled.count { page := page, topic := i, detail := j })

/-- The page that is open, the suspended saves and the saved text all have the marks they should; the
text and the saves are those of the page of the last tap. -/
structure Inv (s : State) : Prop where
  shown : ∀ c ∈ s.screen, c.loading = false → Shows c.page s.toggled c.selectedDetails
  loading : ∀ c ∈ s.screen, c.loading = true →
    c.selectedDetails = initializeSelectedDetails c.page ∧ s.saves = []
  saves : ∀ v ∈ s.saves, ∃ p, lastPage s = some p ∧ Shows p s.toggled (v.marks s.screen)
  onScreen : ∀ c ∈ s.screen, ∀ v ∈ s.saves, v = .onScreen
  text : s.saves = [] → s.prefs.read = none ∧ s.toggled = [] ∨
    ∃ m p, lastPage s = some p ∧ s.prefs.read = some (saveSelectedDetails m) ∧ Shows p s.toggled m
  toggled : ∀ t ∈ s.toggled, InShape t.page.details t.topic t.detail
  inRange : s.thrown = false

theorem Inv.undisturbed {s : State} (hI : Inv s) : Undisturbed s :=
  ⟨fun c hc hl => (hI.shown c hc hl).marks, hI.inRange⟩

theorem inv_installed : Inv installed where
  shown := fun _ h => by cases h
  loading := fun _ h => by cases h
  saves := fun _ h => absurd h List.not_mem_nil
  onScreen := fun _ h => by cases h
  text := fun _ => Or.inl ⟨rfl, rfl⟩
  toggled := fun _ h => absurd h List.not_mem_nil
  inRange := rfl

/-- **A tap flips the mark**, and the number of taps is one more. -/
theorem Shows.tap {page : InfoPage} {toggled : List Toggle} {m m' : List (List Bool)}
    (h : Shows page toggled m) {i j : ℕ} {b : Bool} (hb : item m i j = some b)
    (hput : put m i j (!b) = some m') :
    Shows page (toggled ++ [{ page := page, topic := i, detail := j }]) m' := by
  refine ⟨(shape_put hput).trans h.shape, fun i' j' => ?_⟩
  rw [item_put hput, List.count_append]
  have hold := h.marks i' j'
  by_cases hij : i' = i ∧ j' = j
  · obtain ⟨rfl, rfl⟩ := hij
    rw [hb] at hold
    rw [if_pos ⟨rfl, rfl⟩, List.count_singleton_self, Nat.odd_add_one, ← hold]
    cases b <;> simp
  · have hne : ({ page := page, topic := i, detail := j } : Toggle) ≠
        { page := page, topic := i', detail := j' } := fun he =>
      hij ⟨(Toggle.mk.inj he).2.1.symm, (Toggle.mk.inj he).2.2.symm⟩
    rw [if_neg hij, List.count_singleton, if_neg (by simpa using hne), Nat.add_zero]
    exact hold

/-- Positions that no tap is on have no taps. -/
theorem SameMarks.iff {toggled : List Toggle} {p q : InfoPage} (h : SameMarks toggled p q) (i j : ℕ) :
    Odd (toggled.count { page := p, topic := i, detail := j }) ↔
      Odd (toggled.count { page := q, topic := i, detail := j }) := by
  by_cases hp : ({ page := p, topic := i, detail := j } : Toggle) ∈ toggled
  · exact h _ hp
  · by_cases hq : ({ page := q, topic := i, detail := j } : Toggle) ∈ toggled
    · exact h _ hq
    · rw [List.count_eq_zero.mpr hp, List.count_eq_zero.mpr hq]

/-- **A load finds the marks of the page**, if they are those of the page of the last tap. -/
theorem inv_loaded {s : State} (hI : Inv s) {c : Screen} (hc : c ∈ s.screen) (hl : c.loading = true)
    (hsame : ∀ p ∈ lastPage s, SameMarks s.toggled p c.page) : Inv (loaded s c) := by
  obtain ⟨hblank, hsaves⟩ := hI.loading c hc hl
  obtain ⟨m', hshape, hmarks, heq⟩ : ∃ m', shape m' = c.page.details ∧
      (∀ i j, item m' i j = some true ↔
        Odd (s.toggled.count { page := c.page, topic := i, detail := j })) ∧
      loaded s c = { s with screen := some { c with selectedDetails := m', loading := false } } := by
    rcases hI.text hsaves with ⟨hread, hnil⟩ | ⟨m, p, hp, hread, hshows⟩
    · refine ⟨initializeSelectedDetails c.page, shape_blank _, fun i j => ?_, ?_⟩
      · rw [hnil, List.count_nil]
        exact iff_of_false (fun h => Bool.noConfusion (item_blank h)) (by decide)
      · rw [loaded, hread, ← hblank]
    · have hmarks : ∀ i j, item m i j = some true ↔
          Odd (s.toggled.count { page := c.page, topic := i, detail := j }) := fun i j =>
        (hshows.marks i j).trans ((hsame p hp).iff i j)
      have hplaces : ∀ i j, item m i j = some true → InShape c.page.details i j := fun i j hij =>
        hI.toggled _ (List.count_pos_iff.mp ((hmarks i j).mp hij).pos)
      obtain ⟨m', hload, hshape, hitem⟩ := load_save hplaces
      refine ⟨m', hshape, fun i j => (hitem i j).trans (hmarks i j), ?_⟩
      rw [loaded, hread, hblank, initializeSelectedDetails]
      simp only [hload, Bool.or_false]
  rw [heq]
  refine ⟨fun _ h _ => ?_, fun _ h hl => ?_, Calls.forall_mem_of_nil hsaves,
    fun _ _ => Calls.forall_mem_of_nil hsaves, hI.text, hI.toggled, hI.inRange⟩
  · obtain rfl := Option.some.inj h
    exact ⟨hshape, hmarks⟩
  · obtain rfl := Option.some.inj h
    exact Bool.noConfusion hl

/-- **A tap on a loaded page keeps its marks right**, and the save it starts will write them. -/
theorem inv_tapDetail {s : State} (hI : Inv s) {c : Screen} (hc : c ∈ s.screen)
    (hl : c.loading = false) {i j : ℕ} {b : Bool} (hb : item c.selectedDetails i j = some b)
    {m : List (List Bool)} (hm : put c.selectedDetails i j (!b) = some m) :
    Inv { s with
      screen := some { c with selectedDetails := m }
      saves := s.saves ++ [.onScreen]
      toggled := s.toggled ++ [{ page := c.page, topic := i, detail := j }] } := by
  have hshows := hI.shown c hc hl
  have htap := hshows.tap hb hm
  have honScreen : ∀ v ∈ s.saves ++ [.onScreen], v = .onScreen :=
    Calls.forall_mem_concat (hI.onScreen c hc) rfl
  have htoggled : ∀ t ∈ s.toggled ++ [{ page := c.page, topic := i, detail := j }],
      InShape t.page.details t.topic t.detail := by
    refine Calls.forall_mem_concat hI.toggled ?_
    rw [← hshows.shape]
    exact exists_item_iff.mp ⟨b, hb⟩
  refine ⟨fun _ h _ => ?_, fun _ h hl' => ?_, fun v hv => ⟨c.page, by simp [lastPage], ?_⟩,
    fun _ _ => honScreen, fun hnil => ?_, htoggled, hI.inRange⟩
  · obtain rfl := Option.some.inj h
    exact htap
  · obtain rfl := Option.some.inj h
    exact absurd hl (by rw [hl']; exact Bool.noConfusion)
  · rw [honScreen v hv]
    exact htap
  · exact absurd hnil (List.append_ne_nil_of_right_ne_nil _ (List.cons_ne_nil _ _))

theorem inv_step {s t : State} {a : Action} (hI : Inv s) (hA : Apart s a) (h : step s a = some t) :
    Inv t := by
  cases a with
  | openPage page =>
    simp only [step, Option.ite_none_right_eq_some, Option.some.injEq] at h
    obtain ⟨-, rfl⟩ := h
    refine ⟨fun _ h hl => ?_, fun _ h _ => ?_, Calls.forall_mem_of_nil hA,
      fun _ _ => Calls.forall_mem_of_nil hA, hI.text, hI.toggled, hI.inRange⟩
    · obtain rfl := Option.some.inj h
      exact Bool.noConfusion hl
    · obtain rfl := Option.some.inj h
      exact ⟨rfl, hA⟩
  | leavePage =>
    obtain ⟨c, hc, rfl⟩ := Option.map_eq_some_iff.mp h
    refine ⟨fun _ h => (by cases h), fun _ h => (by cases h), fun v hv => ?_, fun _ h => (by cases h),
      fun hnil => hI.text (List.map_eq_nil_iff.mp hnil), hI.toggled, hI.inRange⟩
    obtain ⟨w, hw, rfl⟩ := List.mem_map.mp hv
    obtain ⟨p, hp, hshows⟩ := hI.saves w hw
    rw [hI.onScreen c hc w hw, hc] at hshows
    rw [hI.onScreen c hc w hw]
    exact ⟨p, hp, hshows⟩
  | restart =>
    obtain rfl := Option.some.inj h
    refine ⟨fun _ h => (by cases h), fun _ h => (by cases h), fun _ hv => absurd hv List.not_mem_nil,
      fun _ h => (by cases h), fun _ => ?_, hI.toggled, hI.inRange⟩
    rw [Cell.read_lose hA.2]
    exact hI.text hA.1
  | load =>
    obtain ⟨c, hc, h⟩ := Option.bind_eq_some_iff.mp h
    simp only [Option.ite_none_right_eq_some, Option.some.injEq] at h
    obtain ⟨hl, rfl⟩ := h
    exact inv_loaded hI hc hl (hA c hc)
  | tapDetail i j =>
    obtain ⟨c, hc, h⟩ := Option.bind_eq_some_iff.mp h
    obtain ⟨b, hb, h⟩ := Option.bind_eq_some_iff.mp h
    obtain ⟨m, hm, rfl⟩ := Option.map_eq_some_iff.mp h
    exact inv_tapDetail hI hc (hA c hc) hb hm
  | save k =>
    obtain ⟨v, hv, rfl⟩ := Option.map_eq_some_iff.mp h
    obtain ⟨p, hp, hshows⟩ := hI.saves v (List.mem_of_getElem? hv)
    refine ⟨hI.shown, fun c hc hl => ⟨(hI.loading c hc hl).1, ?_⟩,
      fun w hw => hI.saves w (List.mem_of_mem_eraseIdx hw),
      fun c hc w hw => hI.onScreen c hc w (List.mem_of_mem_eraseIdx hw),
      fun _ => Or.inr ⟨_, p, hp, Cell.read_write _ _, hshows⟩, hI.toggled, hI.inRange⟩
    rw [(hI.loading c hc hl).2]; rfl
  | written =>
    obtain ⟨prefs, hprefs, rfl⟩ := Option.map_eq_some_iff.mp h
    refine ⟨hI.shown, hI.loading, hI.saves, hI.onScreen, fun hnil => ?_, hI.toggled, hI.inRange⟩
    rw [Cell.read_store hprefs]
    exact hI.text hnil

/-- **The marks of a page are undisturbed** in every run in which a page loads only the marks it has,
pages are opened and the app restarted when the saves are done, and details are tapped on loaded
pages. -/
theorem undisturbed_of_apart {as : List Action} (has : Along step Apart installed as) :
    Always step Undisturbed installed as :=
  always_of_along (fun _ _ _ hI hA h => inv_step hI hA h) (fun _ hI => hI.undisturbed) inv_installed has

/-- A detail is tapped, and its page opened again after a restart. -/
theorem undisturbed_of_apart_reopened :
    Always step Undisturbed installed
      [.openPage .genelKultur, .load, .tapDetail 0 0, .save 0, .written, .leavePage, .restart,
        .openPage .genelKultur, .load] :=
  undisturbed_of_apart (by decide)

/-- **The mark of one page is shown on another.** -/
theorem otherPage_disturbed :
    ¬ Always step Undisturbed installed
      [.openPage .kamuYasasi, .load, .tapDetail 0 0, .save 0, .written, .leavePage,
        .openPage .kktcAnayasasi, .load] := by
  rintro ⟨-, -, -, -, -, -, -, -, hend, -⟩
  exact absurd ((hend.shown _ rfl rfl 0 0).mp (by decide)) (by decide)

end KamuSinavi.Infos
