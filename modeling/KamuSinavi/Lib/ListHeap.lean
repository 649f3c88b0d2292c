import Mathlib.Data.List.Perm.Basic

/-! # Mutable lists

Lists that are known by a reference and can be changed where they are. An operation that makes a new
list returns its reference; `shuffle` puts a list into another order. What a shuffle does is a
parameter, a function that permutes every list.

`read_new` and `read_shuffle` say what an operation leaves at every reference, and `draws` what is left
when a new list is shuffled and its first items are taken. -/

namespace KamuSinavi.Lib

/-- The lists there are, each at its reference. -/
abbrev ListHeap (α : Type*) := List (List α)

/-- One outcome of shuffling. -/
structure Shuffle (α : Type*) where
  apply : List α → List α
  perm : ∀ l, (apply l).Perm l

namespace ListHeap

variable {α : Type}

/-- The list at a reference. -/
def read (h : ListHeap α) (r : ℕ) : List α := h.getD r []

/-- A new list. -/
def new (l : List α) : StateM (ListHeap α) ℕ := fun h => (h.length, h ++ [l])

/-- A new list with the items of another one. -/
def toList (r : ℕ) : StateM (ListHeap α) ℕ := fun h => new (h.read r) h

/-- A new list with the first items of another one. -/
def takeToList (r count : ℕ) : StateM (ListHeap α) ℕ := fun h => new ((h.read r).take count) h

/-- The list at the reference is put into another order. -/
def shuffle (random : Shuffle α) (r : ℕ) : StateM (ListHeap α) Unit :=
  fun h => ((), h.set r (random.apply (h.read r)))

/-- The number of items of the list at a reference. -/
def lengthOf (r : ℕ) : StateM (ListHeap α) ℕ := fun h => ((h.read r).length, h)

/-- There is a list at the reference. -/
def Valid (h : ListHeap α) (r : ℕ) : Prop := r < h.length

theorem read_new (h : ListHeap α) (l : List α) (r : ℕ) :
    read (h ++ [l]) r = if r = h.length then l else h.read r := by
  unfold read
  rw [List.getD_eq_getElem?_getD, List.getD_eq_getElem?_getD]
  rcases Nat.lt_trichotomy r (h.length) with hlt | rfl | hgt
  · rw [if_neg (Nat.ne_of_lt hlt), List.getElem?_append_left hlt]
  · rw [if_pos rfl, List.getElem?_concat_length, Option.getD_some]
  · rw [if_neg (Nat.ne_of_gt hgt), List.getElem?_eq_none_iff.mpr (Nat.le_of_lt hgt), List.getElem?_eq_none_iff.mpr]
    rw [List.length_append, List.length_singleton]
    exact hgt

theorem read_shuffle {h : ListHeap α} {r : ℕ} (hr : Valid h r) (random : Shuffle α) (r' : ℕ) :
    read (shuffle random r h).2 r' = if r' = r then random.apply (h.read r) else h.read r' := by
  have hset : (shuffle random r h).2 = h.set r (random.apply (h.read r)) := rfl
  rw [hset]
  split_ifs with he
  · subst he
    rw [read, List.getD_eq_getElem?_getD, List.getElem?_set_self hr, Option.getD_some]
  · rw [read, List.getD_eq_getElem?_getD, List.getElem?_set_ne (Ne.symm he), read,
      List.getD_eq_getElem?_getD]

/-- A new list, shuffled, and a list of its first items. -/
def draw (random : Shuffle α) (l : List α) (count : ℕ) : StateM (ListHeap α) ℕ := do
  let r ← new l
  shuffle random r
  takeToList r count

/-- **What drawing leaves**: the drawn list at the reference that is returned, and every list that was
there before as it was. -/
structure Draws (h : ListHeap α) (drawn : List α) (r : ℕ) (h' : ListHeap α) : Prop where
  read_eq : h'.read r = drawn
  valid : Valid h' r
  frame : ∀ r', Valid h r' → h'.read r' = h.read r'

theorem length_shuffle (h : ListHeap α) (r : ℕ) (random : Shuffle α) :
    (shuffle random r h).2.length = h.length := List.length_set

theorem draws (random : Shuffle α) (l : List α) (count : ℕ) (h : ListHeap α) :
    Draws h ((random.apply l).take count) (draw random l count h).1 (draw random l count h).2 := by
  have hvalid : Valid (h ++ [l]) h.length := by
    rw [Valid, List.length_append, List.length_singleton]
    exact Nat.lt_succ_self _
  have hlen : (shuffle random h.length (h ++ [l])).2.length = h.length + 1 := by
    rw [length_shuffle, List.length_append, List.length_singleton]
  have hread : read (shuffle random h.length (h ++ [l])).2 h.length = random.apply l := by
    rw [read_shuffle hvalid, if_pos rfl, read_new, if_pos rfl]
  have hdraw : (draw random l count h) = ((shuffle random h.length (h ++ [l])).2.length,
      (shuffle random h.length (h ++ [l])).2 ++
        [(read (shuffle random h.length (h ++ [l])).2 h.length).take count]) := rfl
  rw [hdraw, hread]
  refine ⟨by rw [read_new, if_pos rfl], ?_, fun r hr => ?_⟩
  · rw [Valid, List.length_append, List.length_singleton]
    exact Nat.lt_succ_self _
  · have hr' : r < h.length := hr
    rw [read_new, if_neg (by omega), read_shuffle hvalid, if_neg (by omega), read_new,
      if_neg (by omega)]

end ListHeap

end KamuSinavi.Lib
