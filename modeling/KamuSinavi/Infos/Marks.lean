import KamuSinavi.Lib.Dart
import KamuSinavi.Lib.Ragged

/-! # The marks of a study page

The seven pages of `infos/` differ in their topics, and in nothing of what they do with the marks: they
keep a matrix with a row for each topic and an item for each of its details, save it as the list of
the positions that are marked, each as the text `i_j`, and load it by marking the positions of such a
list.

`lossless` says that a matrix is read back as it was saved into a fresh one of its shape; `load_save`
what a matrix of any shape makes of saved marks, and `load_save_iff` when reading them throws. -/

namespace KamuSinavi.Infos

open KamuSinavi.Lib KamuSinavi.Lib.Dart KamuSinavi.Lib.Ragged

/-- The pages `MainMenuScreen` opens. -/
inductive InfoPage where
  | kamuYasasi
  | kktcAnayasasi
  | ogretmenYasasi
  | ogretmenlikSinaviOnHazirlik
  | iyiIdareYasasi
  | sivilhavacilikdairesiYasasi
  | genelKultur
  deriving DecidableEq

/-- The number of details of each topic. -/
def InfoPage.details : InfoPage → List ℕ
  | .kamuYasasi => [10, 10, 10, 10, 10, 10, 10, 10]
  | .kktcAnayasasi =>
    [5, 4, 29, 12, 15, 5, 3, 16, 2, 1, 1, 1, 2, 2, 2, 2, 2, 2, 2, 2, 2, 2, 2, 2, 2, 2, 2, 1, 1, 2, 2,
      2, 2]
  | .ogretmenYasasi =>
    [20, 62, 18, 17, 12, 4, 7, 4, 2, 2, 4, 4, 5, 1, 2, 2, 2, 1, 2, 4, 5, 1, 1, 1, 1, 1, 1, 3, 3, 3, 2,
      4, 2, 1, 1, 8, 9, 11, 3, 9, 3, 3, 11]
  | .ogretmenlikSinaviOnHazirlik => [16, 25, 4, 1, 4]
  | .iyiIdareYasasi => [9, 1, 2, 2, 2, 3, 2, 1, 2, 3, 3, 4, 2, 3, 2, 3, 1, 3, 2, 4, 1, 1]
  | .sivilhavacilikdairesiYasasi => [20, 20, 20, 20, 20, 20, 20, 20, 20]
  | .genelKultur => [20, 19, 19, 17, 9, 20]

/-- `_initializeSelectedDetails`. -/
def initializeSelectedDetails (page : InfoPage) : List (List Bool) := blank page.details

/-- The text of a position. -/
def positionText (p : ℕ × ℕ) : String := toString p.1 ++ "_" ++ toString p.2

/-- The list `_saveSelectedDetails` writes. -/
def saveSelectedDetails (selectedDetails : List (List Bool)) : List String :=
  (marked selectedDetails).map positionText

/-- The indices in a saved item; `none` if one is missing or no number. -/
def indices (item : String) : Option (ℤ × ℤ) :=
  let indices := split item '_'
  (indices[0]?.bind parseInt).bind fun topicIndex =>
    (indices[1]?.bind parseInt).map fun detailIndex => (topicIndex, detailIndex)

/-- `_selectedDetails[topicIndex][detailIndex] = true`; `none` if an index is out of range. -/
def mark (selectedDetails : List (List Bool)) (p : ℤ × ℤ) : Option (List (List Bool)) :=
  if 0 ≤ p.1 ∧ 0 ≤ p.2 then put selectedDetails p.1.toNat p.2.toNat true else none

/-- The loop of `_loadSelectedDetails`, and whether it throws; what was marked before stays. -/
def loadSelectedDetails : List String → List (List Bool) → List (List Bool) × Bool
  | [], selectedDetails => (selectedDetails, false)
  | item :: savedDetails, selectedDetails =>
    match (indices item).bind (mark selectedDetails) with
    | none => (selectedDetails, true)
    | some selectedDetails => loadSelectedDetails savedDetails selectedDetails

/-! ### Loading what was saved -/

/-- **The indices of a saved position are the position.** -/
theorem indices_positionText (i j : ℕ) : indices (positionText (i, j)) = some ((i : ℤ), (j : ℤ)) := by
  have hno : ∀ n : ℕ, '_' ∉ Nat.toDigits 10 n := fun n h =>
    absurd (Nat.isDigit_of_mem_toDigits (by norm_num) (by norm_num) h) (by decide)
  have hback : ∀ n : ℕ, String.ofList (Nat.toDigits 10 n) = toString n := fun n => rfl
  have htext : (positionText (i, j)).toList = Nat.toDigits 10 i ++ '_' :: Nat.toDigits 10 j := by
    simp [positionText]
  have hsplit : split (positionText (i, j)) '_' = [toString i, toString j] := by
    rw [split, htext, List.splitOn_append_cons_self_of_not_mem (hno i),
      List.splitOn_eq_singleton (hno j), List.map_cons, List.map_singleton, hback, hback]
  simp only [indices, hsplit, List.getElem?_cons_zero, List.getElem?_cons_succ, Option.bind_some,
    parseInt_toString, Option.map_some]

theorem mark_natCast (m : List (List Bool)) (i j : ℕ) :
    mark m ((i : ℤ), (j : ℤ)) = put m i j true := by
  simp [mark]

/-- One saved position is marked. -/
theorem loadSelectedDetails_cons {m m' : List (List Bool)} {i j : ℕ} (h : put m i j true = some m')
    (items : List String) :
    loadSelectedDetails (positionText (i, j) :: items) m = loadSelectedDetails items m' := by
  rw [loadSelectedDetails, indices_positionText, Option.bind_some, mark_natCast, h]

/-- A saved position that the matrix does not have ends the loop. -/
theorem loadSelectedDetails_throws {m : List (List Bool)} {i j : ℕ} (h : ¬ InShape (shape m) i j)
    (items : List String) : loadSelectedDetails (positionText (i, j) :: items) m = (m, true) := by
  have hnone : put m i j true = none := by
    rw [Option.eq_none_iff_forall_ne_some]
    exact fun m' hm' => h (put_isSome_iff.mp ⟨m', hm'⟩)
  rw [loadSelectedDetails, indices_positionText, Option.bind_some, mark_natCast, hnone]

/-- **A list of positions of the matrix is loaded**: they are marked, and nothing else changes. -/
theorem load_positions {ps : List (ℕ × ℕ)} {m : List (List Bool)}
    (h : ∀ p ∈ ps, InShape (shape m) p.1 p.2) :
    ∃ m', loadSelectedDetails (ps.map positionText) m = (m', false) ∧ shape m' = shape m ∧
      ∀ i j, item m' i j = some true ↔ (i, j) ∈ ps ∨ item m i j = some true := by
  induction ps generalizing m with
  | nil => exact ⟨m, rfl, rfl, fun i j => by simp⟩
  | cons p ps ih =>
    obtain ⟨i, j⟩ := p
    obtain ⟨m₁, hm₁⟩ := put_isSome_iff (b := true) |>.mpr (h (i, j) (List.mem_cons_self ..))
    have hshape := shape_put hm₁
    obtain ⟨m', hload, hs, hitem⟩ := ih (m := m₁) fun p hp => by
      rw [hshape]; exact h p (List.mem_cons_of_mem _ hp)
    refine ⟨m', ?_, hs.trans hshape, fun i' j' => ?_⟩
    · rw [List.map_cons, loadSelectedDetails_cons hm₁, hload]
    · rw [hitem, item_put hm₁, List.mem_cons, Prod.mk.injEq]
      by_cases hij : i' = i ∧ j' = j
      · simp [hij]
      · rw [if_neg hij]; simp [hij]

/-- A list of positions is loaded without an error exactly if the matrix has them all. -/
theorem load_positions_iff {ps : List (ℕ × ℕ)} {m : List (List Bool)} :
    (loadSelectedDetails (ps.map positionText) m).2 = false ↔
      ∀ p ∈ ps, InShape (shape m) p.1 p.2 := by
  refine ⟨fun h => ?_, fun h => ?_⟩
  · induction ps generalizing m with
    | nil => exact fun p hp => absurd hp List.not_mem_nil
    | cons p ps ih =>
      obtain ⟨i, j⟩ := p
      rw [List.map_cons] at h
      by_cases hin : InShape (shape m) i j
      · obtain ⟨m₁, hm₁⟩ := put_isSome_iff (b := true) |>.mpr hin
        rw [loadSelectedDetails_cons hm₁] at h
        refine List.forall_mem_cons.mpr ⟨hin, ?_⟩
        rw [← shape_put hm₁]
        exact ih h
      · rw [loadSelectedDetails_throws hin] at h
        cases h
  · obtain ⟨m', hload, -, -⟩ := load_positions h
    rw [hload]

/-- **Saved marks are loaded without an error exactly if each of them has a place.** -/
theorem load_save_iff {s : List ℕ} {m : List (List Bool)} :
    (loadSelectedDetails (saveSelectedDetails m) (blank s)).2 = false ↔
      ∀ i j, item m i j = some true → InShape s i j := by
  rw [saveSelectedDetails, load_positions_iff, shape_blank]
  exact ⟨fun h i j hij => h (i, j) (mem_marked.mpr hij), fun h p hp => h p.1 p.2 (mem_marked.mp hp)⟩

/-- **What a matrix makes of saved marks**: if each of them has a place in it, they are its marks. -/
theorem load_save {s : List ℕ} {m : List (List Bool)}
    (h : ∀ i j, item m i j = some true → InShape s i j) :
    ∃ m', loadSelectedDetails (saveSelectedDetails m) (blank s) = (m', false) ∧
      shape m' = s ∧ ∀ i j, item m' i j = some true ↔ item m i j = some true := by
  have hplaces : ∀ p ∈ marked m, InShape (shape (blank s)) p.1 p.2 := by
    intro p hp
    rw [shape_blank]
    exact h p.1 p.2 (mem_marked.mp hp)
  obtain ⟨m', hload, hs, hitem⟩ := load_positions hplaces
  refine ⟨m', hload, hs.trans (shape_blank s), fun i j => ?_⟩
  rw [hitem, mem_marked, or_iff_left]
  exact fun hblank => Bool.noConfusion (item_blank hblank)

/-- **The encoding of a matrix is lossless**: every saved item has two indices of the matrix, and
reading them all into a fresh matrix of its shape gives it back, without an error. -/
structure Lossless (m : List (List Bool)) : Prop where
  readable : ∀ item ∈ saveSelectedDetails m, ∃ i j : ℕ,
    indices item = some ((i : ℤ), (j : ℤ)) ∧ InShape (shape m) i j
  loaded : loadSelectedDetails (saveSelectedDetails m) (blank (shape m)) = (m, false)

/-- **The encoding of every matrix is lossless**, whatever the lengths of its rows. -/
theorem lossless (m : List (List Bool)) : Lossless m := by
  have hplaces : ∀ i j, item m i j = some true → InShape (shape m) i j :=
    fun i j hij => exists_item_iff.mp ⟨true, hij⟩
  constructor
  · intro text htext
    obtain ⟨p, hp, rfl⟩ := List.mem_map.mp htext
    exact ⟨p.1, p.2, indices_positionText p.1 p.2, hplaces p.1 p.2 (mem_marked.mp hp)⟩
  · obtain ⟨m', hload, hs, hitem⟩ := load_save hplaces
    rw [hload, ext_of_marked hs hitem]

/-- Two topics, one of them without details. -/
example : loadSelectedDetails (saveSelectedDetails [[], [false, true]]) [[], [false, false]] =
    ([[], [false, true]], false) := by decide

end KamuSinavi.Infos
