import Mathlib.Data.List.Basic

/-! # Boolean matrices with rows of different lengths

`item m i j` is what stands at a position of a matrix, `shape m` the lengths of its rows, and `marked m`
the list of the positions that hold `true`, row by row. A matrix is given by its shape and its marked
positions (`ext_of_marked`). -/

namespace KamuSinavi.Lib.Ragged

/-- The lengths of the rows. -/
def shape (m : List (List Bool)) : List ℕ := m.map List.length

/-- The item at a position, if there is one. -/
def item (m : List (List Bool)) (i j : ℕ) : Option Bool := m[i]?.bind fun row => row[j]?

/-- The position is one of a matrix with the shape `s`. -/
def InShape (s : List ℕ) (i j : ℕ) : Prop := ∃ n ∈ s[i]?, j < n

instance (s : List ℕ) (i j : ℕ) : Decidable (InShape s i j) :=
  decidable_of_iff (s[i]?.any (j < ·) = true) (by simp [InShape, Option.any_eq_true])

/-- The matrix without a mark. -/
def blank (s : List ℕ) : List (List Bool) := s.map fun n => List.replicate n false

/-- The matrix with `b` at a position; it throws if there is no such position. -/
def put (m : List (List Bool)) (i j : ℕ) (b : Bool) : Option (List (List Bool)) :=
  m[i]?.bind fun row => if j < row.length then some (m.set i (row.set j b)) else none

/-- The marked positions of one row. -/
def markedRow (i : ℕ) (row : List Bool) : List (ℕ × ℕ) :=
  row.zipIdx.filterMap fun c => if c.1 then some (i, c.2) else none

/-- The marked positions, row by row. -/
def marked (m : List (List Bool)) : List (ℕ × ℕ) := m.zipIdx.flatMap fun r => markedRow r.2 r.1

theorem item_eq_some_iff {m : List (List Bool)} {i j : ℕ} {b : Bool} :
    item m i j = some b ↔ ∃ row, m[i]? = some row ∧ row[j]? = some b := Option.bind_eq_some_iff

theorem inShape_iff {m : List (List Bool)} {i j : ℕ} :
    InShape (shape m) i j ↔ ∃ row, m[i]? = some row ∧ j < row.length := by
  simp [InShape, shape]

/-- There is an item exactly at the positions of the shape. -/
theorem exists_item_iff {m : List (List Bool)} {i j : ℕ} :
    (∃ b, item m i j = some b) ↔ InShape (shape m) i j := by
  rw [inShape_iff]
  constructor
  · rintro ⟨b, hb⟩
    obtain ⟨row, hrow, hj⟩ := item_eq_some_iff.mp hb
    exact ⟨row, hrow, (List.getElem?_eq_some_iff.mp hj).1⟩
  · rintro ⟨row, hrow, hj⟩
    exact ⟨row[j], item_eq_some_iff.mpr ⟨row, hrow, List.getElem?_eq_getElem hj⟩⟩

theorem shape_blank (s : List ℕ) : shape (blank s) = s := by
  simp [shape, blank, Function.comp_def]

theorem item_blank {s : List ℕ} {i j : ℕ} {b : Bool} (h : item (blank s) i j = some b) :
    b = false := by
  obtain ⟨row, hrow, hj⟩ := item_eq_some_iff.mp h
  obtain ⟨n, -, rfl⟩ := List.mem_map.mp (List.mem_of_getElem? hrow)
  exact List.eq_of_mem_replicate (List.mem_of_getElem? hj)

/-! ### Marked positions -/

theorem mem_markedRow {i i' j : ℕ} {row : List Bool} :
    (i', j) ∈ markedRow i row ↔ i' = i ∧ row[j]? = some true := by
  simp only [markedRow, List.mem_filterMap, Prod.exists, Option.ite_none_right_eq_some,
    Option.some.injEq, Prod.mk.injEq, List.mk_mem_zipIdx_iff_getElem?]
  constructor
  · rintro ⟨b, j', hb, rfl, rfl, rfl⟩
    exact ⟨rfl, hb⟩
  · rintro ⟨rfl, hj⟩
    exact ⟨true, j, hj, rfl, rfl, rfl⟩

theorem mem_marked {m : List (List Bool)} {i j : ℕ} :
    (i, j) ∈ marked m ↔ item m i j = some true := by
  simp only [marked, List.mem_flatMap, Prod.exists, List.mk_mem_zipIdx_iff_getElem?, mem_markedRow,
    item_eq_some_iff]
  constructor
  · rintro ⟨row, i', hrow, rfl, hj⟩
    exact ⟨row, hrow, hj⟩
  · rintro ⟨row, hrow, hj⟩
    exact ⟨row, i, hrow, rfl, hj⟩

/-- **Matrices of one shape with the same marks are equal.** -/
theorem ext_of_marked {m m' : List (List Bool)} (hs : shape m = shape m')
    (hm : ∀ i j, item m i j = some true ↔ item m' i j = some true) : m = m' := by
  have hitem : ∀ i j, item m i j = item m' i j := by
    intro i j
    have hex : (∃ b, item m i j = some b) ↔ ∃ b, item m' i j = some b := by
      rw [exists_item_iff, exists_item_iff, hs]
    have hij := hm i j
    rcases h : item m i j with _ | b <;> rcases h' : item m' i j with _ | b'
    · rfl
    · exact absurd (hex.mpr ⟨b', h'⟩) (by simp [h])
    · exact absurd (hex.mp ⟨b, h⟩) (by simp [h'])
    · rw [h, h', Option.some.injEq, Option.some.injEq] at hij
      rw [Bool.eq_iff_iff.mpr hij]
  have hlen : m.length = m'.length := by
    have := congrArg List.length hs
    simpa [shape] using this
  refine List.ext_getElem hlen fun i hi hi' => List.ext_getElem? fun j => ?_
  have := hitem i j
  rwa [item, item, List.getElem?_eq_getElem hi, List.getElem?_eq_getElem hi', Option.bind_some,
    Option.bind_some] at this

/-! ### Putting -/

theorem put_isSome_iff {m : List (List Bool)} {i j : ℕ} {b : Bool} :
    (∃ m', put m i j b = some m') ↔ InShape (shape m) i j := by
  rw [inShape_iff]
  simp only [put, Option.bind_eq_some_iff, Option.ite_none_right_eq_some, Option.some.injEq]
  constructor
  · rintro ⟨m', row, hrow, hj, -⟩
    exact ⟨row, hrow, hj⟩
  · rintro ⟨row, hrow, hj⟩
    exact ⟨_, row, hrow, hj, rfl⟩

theorem shape_put {m m' : List (List Bool)} {i j : ℕ} {b : Bool} (h : put m i j b = some m') :
    shape m' = shape m := by
  obtain ⟨row, hrow, h⟩ := Option.bind_eq_some_iff.mp h
  simp only [Option.ite_none_right_eq_some, Option.some.injEq] at h
  obtain ⟨-, rfl⟩ := h
  obtain ⟨hi, rfl⟩ := List.getElem?_eq_some_iff.mp hrow
  unfold shape
  rw [List.map_set, List.length_set]
  exact List.ext_getElem (by simp) fun k hk hk' => by
    simp only [List.getElem_set, List.getElem_map]
    split_ifs with hik
    · subst hik; rfl
    · rfl

/-- **What is there after putting.** -/
theorem item_put {m m' : List (List Bool)} {i j : ℕ} {b : Bool} (h : put m i j b = some m')
    (i' j' : ℕ) : item m' i' j' = if i' = i ∧ j' = j then some b else item m i' j' := by
  obtain ⟨row, hrow, h⟩ := Option.bind_eq_some_iff.mp h
  simp only [Option.ite_none_right_eq_some, Option.some.injEq] at h
  obtain ⟨hj, rfl⟩ := h
  obtain ⟨hi, -⟩ := List.getElem?_eq_some_iff.mp hrow
  by_cases hii : i' = i
  · subst hii
    rw [item, List.getElem?_set_self hi, Option.bind_some, item, hrow, Option.bind_some]
    by_cases hjj : j' = j
    · subst hjj
      rw [List.getElem?_set_self hj, if_pos ⟨rfl, rfl⟩]
    · rw [List.getElem?_set_ne (fun e => hjj e.symm), if_neg fun hc => hjj hc.2]
  · rw [item, List.getElem?_set_ne (fun e => hii e.symm), if_neg fun hc => hii hc.1, item]

end KamuSinavi.Lib.Ragged
