import KamuSinavi.Lib.Cell
import KamuSinavi.Lib.Dart
import KamuSinavi.Lib.Runs

/-! # The notes

`NotlarimScreen` (`pages/notlarim_screen.dart`): a list of notes in memory and the list of their JSON
texts under `'notlar'`. `_addNot` and `_deleteNot` suspend before they change the list in memory, and
then write all of it. A screen can be closed and the app restarted at any time; a call that is
suspended then ends at its `setState`, and a write on its way is lost with the app.

`performed` is the list of the additions and deletions that have gone on, and `notesOf` what they make
of the empty list. `survives_of_orderly` says that memory, the persisted texts and `notesOf` agree
whenever no call is pending. -/

namespace KamuSinavi.Notes

open KamuSinavi.Lib KamuSinavi.Lib.Runs KamuSinavi.Lib.Dart

structure Note where
  title : String
  content : String
  category : String
  deriving DecidableEq

namespace Note

def toJson (n : Note) : Json :=
  .obj [("title", .str n.title), ("content", .str n.content), ("category", .str n.category)]

/-- It throws on a missing field and on a field that is no string. -/
def fromJson (json : Json) : Option Note :=
  json.obj?.bind fun fields =>
    ((fields.lookup "title").bind Json.str?).bind fun title =>
    ((fields.lookup "content").bind Json.str?).bind fun content =>
    ((fields.lookup "category").bind Json.str?).map fun category => { title, content, category }

end Note

/-- A note in memory; `ref` tells it from others with the same texts. -/
structure NoteObj extends Note where
  ref : ℕ
  deriving DecidableEq

/-- A call of `_addNot` or `_deleteNot`, suspended at `SharedPreferences.getInstance`. -/
inductive Edit where
  | addNot (title content category : String)
  | deleteNot (index : ℕ)
  deriving DecidableEq

/-- Where `_loadNotlar` is suspended: before it starts, and at `SharedPreferences.getInstance`. -/
inductive Load where
  | delayed
  | getInstance
  deriving DecidableEq

structure Screen where
  notlar : List NoteObj
  selectedCategory : String
  loading : Option Load
  calls : List Edit
  deriving DecidableEq

/-- The entry `'notlar'` and the screen, if there is one. `created` counts the notes made so far, and
`performed`, which the code does not have, are the calls that have gone on. -/
structure State where
  prefs : Cell (Option (List String))
  screen : Option Screen
  created : ℕ
  performed : List Edit
  deriving DecidableEq

inductive Action where
  | openScreen
  | closeScreen
  | restart
  | loadNotlar
  | selectCategory (category : String)
  | addNot (title content category : String)
  | deleteNot (index : ℕ)
  | resume (call : ℕ)
  | written

/-- `initState`. -/
def newScreen : Screen :=
  { notlar := [], selectedCategory := "Hepsi", loading := some .delayed, calls := [] }

/-- The texts of the notes; `none` if encoding throws. -/
def encodeNotlar (C : Convert) (notlar : List Note) : Option (List String) :=
  notlar.mapM fun note => C.jsonEncode note.toJson

/-- The notes of the texts; `none` if decoding throws. -/
def decodeNotlar (C : Convert) (savedNotlar : List String) : Option (List Note) :=
  savedNotlar.mapM fun e => (C.jsonDecode e).bind Note.fromJson

/-- New objects for the notes. -/
def allocate (created : ℕ) (notes : List Note) : List NoteObj :=
  (notes.zipIdx created).map fun p => { p.1 with ref := p.2 }

/-- The end of `_loadNotlar`. -/
def loaded (C : Convert) (s : State) (n : Screen) : State :=
  match s.prefs.read.bind (decodeNotlar C) with
  | none => { s with screen := some { n with loading := none } }
  | some notes =>
    { s with
      screen := some { n with notlar := allocate s.created notes, loading := none }
      created := s.created + notes.length }

/-- The change of the list in memory; `none` if `removeAt` throws. -/
def Edit.apply (created : ℕ) (notlar : List NoteObj) : Edit → Option (List NoteObj)
  | .addNot title content category => some (notlar ++ [{ title, content, category, ref := created }])
  | .deleteNot index => if index < notlar.length then some (notlar.eraseIdx index) else none

/-- The call `k` goes on to its write. -/
def resume (C : Convert) (s : State) (n : Screen) (k : ℕ) (e : Edit) : State :=
  let n := { n with calls := n.calls.eraseIdx k }
  match e.apply s.created n.notlar with
  | none => { s with screen := some n }
  | some notlar =>
    { s with
      screen := some { n with notlar := notlar }
      created := s.created + 1
      prefs := (encodeNotlar C (notlar.map NoteObj.toNote)).elim s.prefs fun l =>
        s.prefs.write (some l) }

def step (C : Convert) (s : State) : Action → Option State
  | .openScreen => if s.screen = none then some { s with screen := some newScreen } else none
  | .closeScreen => s.screen.map fun _ => { s with screen := none }
  | .restart => some { s with prefs := s.prefs.lose, screen := none }
  | .loadNotlar => s.screen.bind fun n => n.loading.map fun
    | .delayed => { s with screen := some { n with loading := some .getInstance } }
    | .getInstance => loaded C s n
  | .selectCategory category =>
    s.screen.map fun n => { s with screen := some { n with selectedCategory := category } }
  | .addNot title content category => s.screen.map fun n =>
    { s with screen := some { n with calls := n.calls ++ [.addNot title content category] } }
  | .deleteNot index => s.screen.bind fun n =>
    if index < n.notlar.length then
      some { s with screen := some { n with calls := n.calls ++ [.deleteNot index] } }
    else none
  | .resume k => s.screen.bind fun n => n.calls[k]?.map fun e =>
    { resume C s n k e with performed := s.performed ++ [e] }
  | .written => s.prefs.store.map fun prefs => { s with prefs := prefs }

/-- `_filteredNotlar`. -/
def filteredNotlar (selectedCategory : String) (notlar : List NoteObj) : List NoteObj :=
  if selectedCategory = "Hepsi" then notlar
  else notlar.filter fun n => n.category = selectedCategory

/-- Before the app is used. -/
def installed : State :=
  { prefs := { stored := none, issued := [] }, screen := none, created := 0, performed := [] }

/-! ### What the notes should be -/

/-- What an addition or a deletion makes of a list of notes. -/
def Edit.effect (notes : List Note) : Edit → List Note
  | .addNot title content category => notes ++ [{ title, content, category }]
  | .deleteNot index => notes.eraseIdx index

/-- **The fold of the additions and deletions.** -/
def notesOf (performed : List Edit) : List Note := performed.foldl Edit.effect []

/-- The notes of the persisted texts. -/
def persisted (C : Convert) (s : State) : Option (List Note) :=
  s.prefs.stored.elim (some []) (decodeNotlar C)

/-- No call is pending. -/
def Idle (s : State) : Prop :=
  s.prefs.issued = [] ∧ ∀ n ∈ s.screen, n.loading = none ∧ n.calls = []

/-- **The notes survive**: the persisted texts are those of the notes in memory when no call is
pending, and a screen that is loaded shows what the additions and deletions make of the empty list. -/
structure Survives (C : Convert) (s : State) : Prop where
  memory : Idle s → ∀ n ∈ s.screen, persisted C s = some (n.notlar.map NoteObj.toNote)
  persisted : Idle s → persisted C s = some (notesOf s.performed)
  shown : ∀ n ∈ s.screen, n.loading = none → n.selectedCategory = "Hepsi" →
    (filteredNotlar n.selectedCategory n.notlar).map NoteObj.toNote = notesOf s.performed

/-- A note is added or deleted on a screen that is loaded, and the app is restarted when every write
is stored. -/
def Orderly (s : State) : Action → Prop
  | .addNot .. | .deleteNot _ => ∀ n ∈ s.screen, n.loading = none
  | .restart => s.prefs.issued = []
  | _ => True

instance (s : State) : DecidablePred (Orderly s)
  | .addNot .. | .deleteNot _ => inferInstanceAs (Decidable (∀ n ∈ s.screen, n.loading = none))
  | .restart => inferInstanceAs (Decidable (s.prefs.issued = []))
  | .openScreen | .closeScreen | .loadNotlar | .selectCategory _ | .resume _ | .written =>
    isTrue trivial

variable {C : Convert}

/-! ### Encoding and decoding -/

namespace Note

theorem encodable_toJson (n : Note) : n.toJson.Encodable := by
  rw [toJson, Json.encodable_obj]
  refine ⟨by simp, fun f hf => ?_⟩
  simp only [List.mem_cons, List.not_mem_nil, or_false] at hf
  rcases hf with rfl | rfl | rfl <;> exact Json.encodable_str _

theorem fromJson_toJson (n : Note) : fromJson n.toJson = some n := by
  simp [fromJson, toJson, Json.obj?, Json.str?, List.lookup_cons]

end Note

/-- **The texts of notes are decoded to the notes.** -/
theorem exists_encodeNotlar (notes : List Note) :
    ∃ l, encodeNotlar C notes = some l ∧ decodeNotlar C l = some notes := by
  induction notes with
  | nil => exact ⟨[], rfl, rfl⟩
  | cons n notes ih =>
    obtain ⟨l, hl, hd⟩ := ih
    obtain ⟨text, ht, hn⟩ := C.decode_encode n.toJson n.encodable_toJson
    refine ⟨text :: l, ?_, ?_⟩
    · simp only [encodeNotlar] at hl
      simp [encodeNotlar, ht, hl]
    · simp only [decodeNotlar] at hd
      simp [decodeNotlar, hn, Note.fromJson_toJson, hd]

theorem map_allocate (created : ℕ) (notes : List Note) :
    (allocate created notes).map NoteObj.toNote = notes := by
  rw [allocate, List.map_map]
  exact List.zipIdx_map_fst created notes

theorem refs_allocate (created : ℕ) (notes : List Note) :
    (allocate created notes).map NoteObj.ref = List.range' created notes.length := by
  rw [allocate, List.map_map]
  exact List.zipIdx_map_snd created notes

/-- The change of the list in memory is the effect, and leaves it alone if `removeAt` throws. -/
theorem map_apply (created : ℕ) (notlar : List NoteObj) (e : Edit) :
    ((e.apply created notlar).getD notlar).map NoteObj.toNote =
      e.effect (notlar.map NoteObj.toNote) := by
  cases e with
  | addNot title content category => simp [Edit.apply, Edit.effect]
  | deleteNot index =>
    simp only [Edit.apply, Edit.effect]
    split_ifs with h
    · rw [Option.getD_some, List.eraseIdx_map]
    · rw [Option.getD_none, List.eraseIdx_of_length_le (by rw [List.length_map]; omega)]

theorem notesOf_concat (performed : List Edit) (e : Edit) :
    notesOf (performed ++ [e]) = e.effect (notesOf performed) := by
  rw [notesOf, List.foldl_append]; rfl

/-! ### What holds along a run -/

/-- The objects of a list are distinct, and made so far. -/
structure Distinct (created : ℕ) (notlar : List NoteObj) : Prop where
  nodup : (notlar.map NoteObj.ref).Nodup
  created : ∀ n ∈ notlar, n.ref < created

/-- The last texts issued are those of the fold, and so is the list of a screen that is loaded; a
screen that is not is as it was opened. -/
structure Inv (C : Convert) (s : State) : Prop where
  text : s.prefs.read.elim (some []) (decodeNotlar C) = some (notesOf s.performed)
  shown : ∀ n ∈ s.screen, n.loading = none → n.notlar.map NoteObj.toNote = notesOf s.performed
  loading : ∀ n ∈ s.screen, n.loading ≠ none → n.calls = [] ∧ n.notlar = []
  distinct : ∀ n ∈ s.screen, Distinct s.created n.notlar

/-- Without a screen only the texts matter. -/
theorem inv_of_screen_none {s : State} (hs : s.screen = none)
    (htext : s.prefs.read.elim (some []) (decodeNotlar C) = some (notesOf s.performed)) : Inv C s := by
  have hno : ∀ n, n ∉ s.screen := fun n h => Option.some_ne_none n (h.symm.trans hs)
  exact ⟨htext, fun n h => absurd h (hno n), fun n h => absurd h (hno n), fun n h => absurd h (hno n)⟩

theorem inv_installed : Inv C installed := inv_of_screen_none rfl rfl

theorem distinct_allocate (created : ℕ) (notes : List Note) :
    Distinct (created + notes.length) (allocate created notes) := by
  have hrefs := refs_allocate created notes
  refine ⟨hrefs ▸ List.nodup_range', fun n hn => ?_⟩
  have hmem : n.ref ∈ (allocate created notes).map NoteObj.ref := List.mem_map_of_mem hn
  rw [hrefs, List.mem_range'_1] at hmem
  exact hmem.2

theorem Distinct.mono {created created' : ℕ} {notlar : List NoteObj} (h : Distinct created notlar)
    (hle : created ≤ created') : Distinct created' notlar :=
  ⟨h.nodup, fun n hn => (h.created n hn).trans_le hle⟩

theorem Distinct.apply {created : ℕ} {notlar notlar' : List NoteObj} (h : Distinct created notlar)
    {e : Edit} (he : e.apply created notlar = some notlar') : Distinct (created + 1) notlar' := by
  cases e with
  | addNot title content category =>
    obtain rfl := Option.some.inj he
    refine ⟨?_, fun n hn => ?_⟩
    · rw [List.map_append, List.map_singleton]
      refine h.nodup.append (List.nodup_singleton _) ?_
      rintro r hr hr'
      obtain ⟨n, hn, rfl⟩ := List.mem_map.mp hr
      have := h.created n hn
      rw [List.mem_singleton.mp hr'] at this
      exact lt_irrefl _ this
    · rcases List.mem_append.mp hn with hn | hn
      · exact (h.created n hn).trans (Nat.lt_succ_self _)
      · rw [List.mem_singleton.mp hn]; exact Nat.lt_succ_self _
  | deleteNot index =>
    simp only [Edit.apply, Option.ite_none_right_eq_some, Option.some.injEq] at he
    obtain ⟨-, rfl⟩ := he
    refine ⟨?_, fun n hn => (h.created n (List.mem_of_mem_eraseIdx hn)).trans (Nat.lt_succ_self _)⟩
    rw [← List.eraseIdx_map]
    exact h.nodup.eraseIdx _

/-- With a screen the texts and this screen matter. -/
theorem inv_of_screen {s : State} {n : Screen} (hs : s.screen = some n)
    (htext : s.prefs.read.elim (some []) (decodeNotlar C) = some (notesOf s.performed))
    (hshown : n.loading = none → n.notlar.map NoteObj.toNote = notesOf s.performed)
    (hloading : n.loading ≠ none → n.calls = [] ∧ n.notlar = [])
    (hdistinct : Distinct s.created n.notlar) : Inv C s := by
  have heq : ∀ {m}, m ∈ s.screen → n = m := fun hm => Option.some.inj (hs.symm.trans hm)
  exact ⟨htext, fun _ hm => heq hm ▸ hshown, fun _ hm => heq hm ▸ hloading,
    fun _ hm => heq hm ▸ hdistinct⟩

/-- A step that only replaces the screen. -/
theorem Inv.setScreen {s : State} (hI : Inv C s) {n : Screen}
    (hshown : n.loading = none → n.notlar.map NoteObj.toNote = notesOf s.performed)
    (hloading : n.loading ≠ none → n.calls = [] ∧ n.notlar = [])
    (hdistinct : Distinct s.created n.notlar) : Inv C { s with screen := some n } :=
  inv_of_screen rfl hI.text hshown hloading hdistinct

/-- **A load finds the fold.** -/
theorem inv_loaded {s : State} (hI : Inv C s) {n : Screen} (hn : n ∈ s.screen)
    (hl : n.loading ≠ none) : Inv C (loaded C s n) := by
  obtain ⟨hcalls, hnil⟩ := hI.loading n hn hl
  have htext := hI.text
  rcases hread : s.prefs.read with _ | l
  · rw [hread, Option.elim_none, Option.some.injEq] at htext
    have heq : loaded C s n = { s with screen := some { n with loading := none } } := by
      rw [loaded, hread]; rfl
    rw [heq]
    exact hI.setScreen (fun _ => by rw [← htext, hnil]; rfl) (fun h => absurd rfl h)
      (hI.distinct n hn)
  · rw [hread, Option.elim_some] at htext
    have heq : loaded C s n = { s with
        screen := some { n with notlar := allocate s.created (notesOf s.performed), loading := none }
        created := s.created + (notesOf s.performed).length } := by
      simp only [loaded, hread, Option.bind_some, htext]
    rw [heq]
    exact inv_of_screen rfl hI.text (fun _ => map_allocate _ _) (fun hne => absurd rfl hne)
      (distinct_allocate _ _)

/-- **A call that goes on writes the fold.** -/
theorem inv_resume {s : State} (hI : Inv C s) {n : Screen} (hn : n ∈ s.screen) {k : ℕ} {e : Edit}
    (he : n.calls[k]? = some e) :
    Inv C { resume C s n k e with performed := s.performed ++ [e] } := by
  have hl : n.loading = none := by
    by_contra hne
    rw [(hI.loading n hn hne).1] at he
    cases he
  have hshown := hI.shown n hn hl
  have heffect := map_apply s.created n.notlar e
  rw [hshown, ← notesOf_concat] at heffect
  rcases happ : e.apply s.created n.notlar with _ | notlar
  · rw [happ, Option.getD_none, hshown] at heffect
    have heq : resume C s n k e =
        { s with screen := some { n with calls := n.calls.eraseIdx k } } := by
      simp only [resume, happ]
    rw [heq]
    refine inv_of_screen rfl ?_ (fun _ => hshown.trans heffect) (fun hne => absurd hl hne)
      (hI.distinct n hn)
    rw [← heffect]
    exact hI.text
  · rw [happ, Option.getD_some] at heffect
    obtain ⟨l, henc, hdec⟩ := exists_encodeNotlar (C := C) (notlar.map NoteObj.toNote)
    have heq : resume C s n k e =
        { prefs := s.prefs.write (some l)
          screen := some { n with calls := n.calls.eraseIdx k, notlar := notlar }
          created := s.created + 1
          performed := s.performed } := by
      simp only [resume, happ, henc, Option.elim_some]
    rw [heq]
    refine inv_of_screen rfl ?_ (fun _ => heffect) (fun hne => absurd hl hne)
      ((hI.distinct n hn).apply happ)
    rw [Cell.read_write, Option.elim_some, hdec, heffect]

theorem inv_step {s t : State} {a : Action} (hI : Inv C s) (hO : Orderly s a)
    (h : step C s a = some t) : Inv C t := by
  cases a with
  | openScreen =>
    simp only [step, Option.ite_none_right_eq_some, Option.some.injEq] at h
    obtain ⟨-, rfl⟩ := h
    exact hI.setScreen (fun h => by cases h) (fun _ => ⟨rfl, rfl⟩)
      ⟨List.nodup_nil, fun _ h => absurd h List.not_mem_nil⟩
  | closeScreen =>
    obtain ⟨n, -, rfl⟩ := Option.map_eq_some_iff.mp h
    exact inv_of_screen_none rfl hI.text
  | restart =>
    obtain rfl := Option.some.inj h
    refine inv_of_screen_none rfl ?_
    rw [Cell.read_lose hO]
    exact hI.text
  | loadNotlar =>
    obtain ⟨n, hn, h⟩ := Option.bind_eq_some_iff.mp h
    obtain ⟨pc, hpc, rfl⟩ := Option.map_eq_some_iff.mp h
    have hl : n.loading ≠ none := by rw [hpc]; exact Option.some_ne_none _
    cases pc with
    | delayed =>
      exact hI.setScreen (fun h => by cases h) (fun _ => hI.loading n hn hl) (hI.distinct n hn)
    | getInstance => exact inv_loaded hI hn hl
  | selectCategory category =>
    obtain ⟨n, hn, rfl⟩ := Option.map_eq_some_iff.mp h
    exact hI.setScreen (hI.shown n hn) (hI.loading n hn) (hI.distinct n hn)
  | addNot title content category =>
    obtain ⟨n, hn, rfl⟩ := Option.map_eq_some_iff.mp h
    exact hI.setScreen (hI.shown n hn) (fun hne => absurd (hO n hn) hne) (hI.distinct n hn)
  | deleteNot index =>
    obtain ⟨n, hn, h⟩ := Option.bind_eq_some_iff.mp h
    simp only [Option.ite_none_right_eq_some, Option.some.injEq] at h
    obtain ⟨-, rfl⟩ := h
    exact hI.setScreen (hI.shown n hn) (fun hne => absurd (hO n hn) hne) (hI.distinct n hn)
  | resume k =>
    obtain ⟨n, hn, h⟩ := Option.bind_eq_some_iff.mp h
    obtain ⟨e, he, rfl⟩ := Option.map_eq_some_iff.mp h
    exact inv_resume hI hn he
  | written =>
    obtain ⟨prefs, hp, rfl⟩ := Option.map_eq_some_iff.mp h
    refine ⟨?_, hI.shown, hI.loading, hI.distinct⟩
    rw [Cell.read_store hp]
    exact hI.text

theorem Inv.survives {s : State} (hI : Inv C s) : Survives C s := by
  have hpersisted : Idle s → persisted C s = some (notesOf s.performed) := fun hidle => by
    rw [persisted, ← Cell.read_of_issued_nil hidle.1]
    exact hI.text
  refine ⟨fun hidle n hn => ?_, hpersisted, fun n hn hl hall => ?_⟩
  · rw [hI.shown n hn (hidle.2 n hn).1]
    exact hpersisted hidle
  · rw [filteredNotlar, if_pos hall]
    exact hI.shown n hn hl

/-- **The notes survive any use** in which a note is added or deleted on loaded screens only, and the
app is restarted only when every write is stored. -/
theorem survives_of_orderly {as : List Action} (has : Along (step C) Orderly installed as) :
    Always (step C) (Survives C) installed as :=
  always_of_along (fun _ _ _ hI hO h => inv_step hI hO h) (fun _ hI => hI.survives) inv_installed has

/-- Two notes are added, one is deleted, and the app is restarted. -/
def twoNotes : List Action :=
  [.openScreen, .loadNotlar, .loadNotlar, .addNot "Ehliyet" "Harç yatır" "Önemli",
    .addNot "Anayasa" "Madde 1" "Yapılacaklar", .resume 1, .deleteNot 0, .resume 0, .resume 0,
    .written, .written, .written, .closeScreen, .restart, .openScreen, .loadNotlar, .loadNotlar]

theorem survives_of_orderly_twoNotes : Always (step compact) (Survives compact) installed twoNotes :=
  survives_of_orderly (by decide)

end KamuSinavi.Notes
