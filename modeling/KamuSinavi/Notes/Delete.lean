import KamuSinavi.Notes.Screen

/-! # The note on a card

The grid shows `_filteredNotlar`, and a long press on a card deletes at the card's position in it
(`pages/notlarim_screen.dart`); `_deleteNot` takes the position in the whole list. `removes_iff` says
when the two are the same note. -/

namespace KamuSinavi.Notes

open KamuSinavi.Lib KamuSinavi.Lib.Runs KamuSinavi.Lib.Dart

/-- The long press on the card `index`, up to the end of its write. -/
def longPress (index : ℕ) : List Action := [.deleteNot index, .resume 0, .written]

/-- **The press removes the note on the card**, in memory and among the persisted ones, and no other
note. -/
def Removes (C : Convert) (s : State) (n : Screen) (index : ℕ) (card : NoteObj) : Prop :=
  ∃ t n', run (step C) s (longPress index) = some t ∧ t.screen = some n' ∧
    n'.notlar = n.notlar.filter (fun m => m.ref ≠ card.ref) ∧
      persisted C t = some ((n.notlar.filter fun m => m.ref ≠ card.ref).map NoteObj.toNote)

variable {C : Convert}

/-! ### Positions in a filtered list -/

/-- An item of a filtered list has the same position in the whole list exactly if no item up to it has
been left out. -/
theorem getElem?_filter_eq_iff {α : Type*} {l : List α} (hl : l.Nodup) {p : α → Bool} {i : ℕ} {a : α}
    (ha : (l.filter p)[i]? = some a) : l[i]? = some a ↔ ∀ b ∈ l.take (i + 1), p b = true := by
  have hsplit : l.filter p = (l.take (i + 1)).filter p ++ (l.drop (i + 1)).filter p := by
    rw [← List.filter_append, List.take_append_drop]
  have hi : i < (l.filter p).length := (List.getElem?_eq_some_iff.mp ha).1
  have hle : (l.filter p).length ≤ l.length := List.length_filter_le _ _
  have hlen : (l.take (i + 1)).length = i + 1 := List.length_take_of_le (by omega)
  constructor
  · intro hat
    -- the item is not among those after it, so the filtered list has as many items up to it
    have hnot : a ∉ l.drop (i + 1) := by
      obtain ⟨hlt, rfl⟩ := List.getElem?_eq_some_iff.mp hat
      rw [← List.take_append_drop (i + 1) l] at hl
      have hmem : l[i] ∈ l.take (i + 1) := List.mem_take_iff_getElem.mpr ⟨i, by omega, rfl⟩
      exact fun h => (List.nodup_append.mp hl).2.2 _ hmem _ h rfl
    have hlt : i < ((l.take (i + 1)).filter p).length := by
      by_contra hge
      rw [hsplit, List.getElem?_append_right (by omega)] at ha
      exact hnot (List.mem_of_mem_filter (List.mem_of_getElem? ha))
    have hall : ((l.take (i + 1)).filter p).length = (l.take (i + 1)).length := by
      have := List.length_filter_le p (l.take (i + 1))
      omega
    exact List.length_filter_eq_length_iff.mp hall
  · intro hall
    rw [hsplit, List.filter_eq_self.mpr hall, List.getElem?_append_left (by omega),
      List.getElem?_take_of_lt (by omega)] at ha
    exact ha

/-- Erasing at a position removes the note with the reference `card.ref` exactly if it is there. -/
theorem eraseIdx_eq_filter_iff {notlar : List NoteObj} (hnd : (notlar.map NoteObj.ref).Nodup) {i : ℕ}
    (hi : i < notlar.length) {card : NoteObj} (hcard : card ∈ notlar) :
    notlar.eraseIdx i = notlar.filter (fun m => m.ref ≠ card.ref) ↔ notlar[i]? = some card := by
  obtain ⟨m, hm⟩ : ∃ m, notlar[i]? = some m := ⟨_, List.getElem?_eq_getElem hi⟩
  have herase : notlar.eraseIdx i = notlar.take i ++ notlar.drop (i + 1) :=
    List.eraseIdx_eq_take_drop_succ ..
  have hsplit : notlar = notlar.take i ++ m :: notlar.drop (i + 1) := by
    obtain ⟨_, rfl⟩ := List.getElem?_eq_some_iff.mp hm
    simp
  have hne : ∀ o ∈ notlar.eraseIdx i, o.ref ≠ m.ref := by
    rw [hsplit, List.map_append, List.map_cons, List.nodup_middle, List.nodup_cons,
      ← List.map_append, ← herase] at hnd
    exact fun o ho he => hnd.1 (List.mem_map.mpr ⟨o, ho, he⟩)
  rw [hm, Option.some.injEq]
  constructor
  · intro h
    by_contra hdiff
    have href : m.ref ≠ card.ref := fun he =>
      hdiff (List.inj_on_of_nodup_map hnd (List.mem_of_getElem? hm) hcard he)
    have hmem : m ∈ notlar.eraseIdx i := by
      rw [h]
      exact List.mem_filter.mpr ⟨List.mem_of_getElem? hm, by simpa using href⟩
    exact hne m hmem rfl
  · rintro rfl
    have hself : (notlar.eraseIdx i).filter (fun o => o.ref ≠ m.ref) = notlar.eraseIdx i :=
      List.filter_eq_self.mpr fun o ho => by simpa using hne o ho
    calc notlar.eraseIdx i = (notlar.take i ++ notlar.drop (i + 1)).filter (fun o => o.ref ≠ m.ref) := by
          rw [← herase, hself]
      _ = (notlar.take i ++ m :: notlar.drop (i + 1)).filter (fun o => o.ref ≠ m.ref) := by
          rw [List.filter_append, List.filter_append, List.filter_cons_of_neg (by simp)]
      _ = notlar.filter (fun o => o.ref ≠ m.ref) := by rw [← hsplit]

/-! ### The press -/

/-- What a long press does when no call is pending. -/
theorem run_longPress {s : State} (hidle : Idle s) {n : Screen} (hn : s.screen = some n) {i : ℕ}
    (hi : i < n.notlar.length) :
    ∃ l, decodeNotlar C l = some ((n.notlar.eraseIdx i).map NoteObj.toNote) ∧
      run (step C) s (longPress i) = some
        { prefs := { stored := some l, issued := [] }
          screen := some { n with notlar := n.notlar.eraseIdx i }
          created := s.created + 1
          performed := s.performed ++ [.deleteNot i] } := by
  obtain ⟨⟨stored, issued⟩, screen, created, performed⟩ := s
  obtain ⟨notlar, category, loading, calls⟩ := n
  obtain rfl : issued = [] := hidle.1
  obtain rfl : screen = _ := hn
  obtain ⟨rfl, rfl⟩ : loading = none ∧ calls = [] := hidle.2 _ rfl
  simp only at hi ⊢
  obtain ⟨l, henc, hdec⟩ := exists_encodeNotlar (C := C) ((notlar.eraseIdx i).map NoteObj.toNote)
  refine ⟨l, hdec, ?_⟩
  simp [longPress, run_cons, step, hi, resume, Edit.apply, henc, Cell.write, Cell.store]

/-- **A long press removes the note on its card exactly if the filter shows all notes, or none of the
notes up to that position is left out.** -/
theorem removes_iff {s : State} (hidle : Idle s) {n : Screen} (hn : s.screen = some n)
    (hd : Distinct s.created n.notlar) {i : ℕ} {card : NoteObj}
    (hcard : (filteredNotlar n.selectedCategory n.notlar)[i]? = some card) :
    Removes C s n i card ↔ n.selectedCategory = "Hepsi" ∨
      ∀ m ∈ n.notlar.take (i + 1), m.category = n.selectedCategory := by
  have hnd : n.notlar.Nodup := hd.nodup.of_map _
  have hmem : card ∈ n.notlar := by
    have := List.mem_of_getElem? hcard
    unfold filteredNotlar at this
    split_ifs at this
    · exact this
    · exact List.mem_of_mem_filter this
  have hi : i < n.notlar.length := by
    have hlt := (List.getElem?_eq_some_iff.mp hcard).1
    unfold filteredNotlar at hlt
    split_ifs at hlt
    · exact hlt
    · exact hlt.trans_le (List.length_filter_le _ _)
  have hremoves : Removes C s n i card ↔ n.notlar[i]? = some card := by
    obtain ⟨l, hdec, hrun⟩ := run_longPress (C := C) hidle hn hi
    rw [← eraseIdx_eq_filter_iff hd.nodup hi hmem]
    constructor
    · rintro ⟨t, n', ht, hn', herase, -⟩
      rw [hrun] at ht
      obtain rfl := Option.some.inj ht
      obtain rfl := Option.some.inj hn'
      exact herase
    · intro herase
      refine ⟨_, _, hrun, rfl, herase, ?_⟩
      rw [← herase]
      exact hdec
  rw [hremoves]
  unfold filteredNotlar at hcard
  split_ifs at hcard with hall
  · exact ⟨fun _ => Or.inl hall, fun _ => hcard⟩
  · rw [getElem?_filter_eq_iff hnd hcard, or_iff_right hall]
    exact forall₂_congr fun m _ => by rw [decide_eq_true_eq]

/-! ### Two notes under a filter -/

/-- The screen with two notes, that shows the second one. -/
def secondShown : Screen where
  notlar :=
    [{ title := "Ehliyet", content := "Harç yatır", category := "Önemli", ref := 0 },
      { title := "Anayasa", content := "Madde 1", category := "Yapılacaklar", ref := 1 }]
  selectedCategory := "Yapılacaklar"
  loading := none
  calls := []

/-- The state when the two notes have been stored. -/
def filtered : State where
  prefs := { stored := encodeNotlar compact (secondShown.notlar.map NoteObj.toNote), issued := [] }
  screen := some secondShown
  created := 2
  performed := [.addNot "Ehliyet" "Harç yatır" "Önemli", .addNot "Anayasa" "Madde 1" "Yapılacaklar"]

theorem removes_iff_filtered :
    Removes compact filtered secondShown 0
        { title := "Anayasa", content := "Madde 1", category := "Yapılacaklar", ref := 1 } ↔
      secondShown.selectedCategory = "Hepsi" ∨
        ∀ m ∈ secondShown.notlar.take 1, m.category = secondShown.selectedCategory :=
  removes_iff ⟨rfl, by decide⟩ rfl ⟨by decide, by decide⟩ rfl

/-- **A long press on the only card removes the note that is not shown.** -/
theorem press_removes_another :
    ¬ Removes compact filtered secondShown 0
      { title := "Anayasa", content := "Madde 1", category := "Yapılacaklar", ref := 1 } := by
  rintro ⟨t, n', ht, hn', herase, -⟩
  obtain ⟨l, -, hrun⟩ := run_longPress (C := compact) (s := filtered) ⟨rfl, by decide⟩ (n := secondShown)
    rfl (i := 0) (by decide)
  rw [hrun] at ht
  obtain rfl := Option.some.inj ht
  obtain rfl := Option.some.inj hn'
  exact absurd herase (by decide)

end KamuSinavi.Notes
