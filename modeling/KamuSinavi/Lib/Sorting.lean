import Mathlib.Data.List.Sort

/-! # Places in a sorted list

A query that asks for an order gives the items of a collection sorted by it. `Ordered` says of a list
that the order leaves no two different items of it in doubt; then `getElem?_insertionSort` gives the
place of an item by counting those that do not come after it, and `insertionSort_eq` says that a sorted
list of the items is the only one.

`Descending` is the order of a query for a number in descending order: items with the same number are
ordered by their ids. -/

namespace KamuSinavi.Lib.Sorting

variable {α : Type*} (r : α → α → Prop)

/-- The items are distinct, and no two of them come before each other. -/
structure Ordered (l : List α) : Prop where
  nodup : l.Nodup
  antisymm : ∀ a ∈ l, ∀ b ∈ l, r a b → r b a → a = b

variable {r} {l : List α}

theorem Ordered.of_perm {l' : List α} (h : Ordered r l) (hp : l'.Perm l) : Ordered r l' :=
  ⟨hp.nodup_iff.mpr h.nodup, fun a ha b hb => h.antisymm a (hp.mem_iff.mp ha) b (hp.mem_iff.mp hb)⟩

variable (r) [DecidableRel r]

/-- The number of items that `a` does not come before. -/
def ahead (l : List α) (a : α) : ℕ := l.countP fun b => ¬ r a b

variable {r} [Std.Total r]

/-- **An item of a sorted list stands after those it does not come before.** -/
theorem getElem?_of_pairwise (h : Ordered r l) (hs : l.Pairwise r) {a : α} (ha : a ∈ l) :
    l[ahead r l a]? = some a := by
  obtain ⟨l₁, l₂, rfl⟩ := List.append_of_mem ha
  rw [List.pairwise_append, List.pairwise_cons] at hs
  obtain ⟨-, ⟨hafter, -⟩, hbefore⟩ := hs
  have hnot : a ∉ l₁ := fun hmem =>
    (List.disjoint_of_nodup_append h.nodup) hmem (List.mem_cons_self ..)
  have h₁ : l₁.countP (fun b => ¬ r a b) = l₁.length := by
    refine List.countP_eq_length.mpr fun b hb => decide_eq_true fun hab => hnot ?_
    rw [h.antisymm a ha b (List.mem_append_left _ hb) hab (hbefore b hb a (List.mem_cons_self ..))]
    exact hb
  have h₂ : (a :: l₂).countP (fun b => ¬ r a b) = 0 := by
    refine List.countP_eq_zero.mpr fun b hb => ?_
    have hab : r a b := by
      rcases List.mem_cons.mp hb with rfl | hb
      · exact refl_of r b
      · exact hafter b hb
    simpa using hab
  rw [ahead, List.countP_append, h₁, h₂, Nat.add_zero, List.getElem?_append_right (Nat.le_refl _),
    Nat.sub_self, List.getElem?_cons_zero]

variable [IsTrans α r]

/-- **The place of an item in the sorted list.** -/
theorem getElem?_insertionSort (h : Ordered r l) {a : α} (ha : a ∈ l) :
    (l.insertionSort r)[ahead r l a]? = some a := by
  have hp := List.perm_insertionSort r l
  have hcount : ahead r (l.insertionSort r) a = ahead r l a := hp.countP_eq _
  rw [← hcount]
  exact getElem?_of_pairwise (h.of_perm hp) (List.pairwise_insertionSort r l)
    ((List.mem_insertionSort r).mpr ha)

/-- **A list is sorted in one way.** -/
theorem insertionSort_eq (h : Ordered r l) {l' : List α} (hp : l'.Perm l) (hs : l'.Pairwise r) :
    l.insertionSort r = l' :=
  ((List.perm_insertionSort r l).trans hp.symm).eq_of_pairwise
    (fun a b ha hb => h.antisymm a ((List.mem_insertionSort r).mp ha) b (hp.mem_iff.mp hb))
    (List.pairwise_insertionSort r l) hs

/-! ### By a number, and then by an id -/

/-- By a number and then by the id, both descending. -/
def Descending (number : α → ℕ) (id : α → String) (a b : α) : Prop :=
  number b < number a ∨ number b = number a ∧ id b ≤ id a

variable {number : α → ℕ} {id : α → String}

instance : DecidableRel (Descending number id) := fun _ _ => inferInstanceAs (Decidable (_ ∨ _))

instance : Std.Total (Descending number id) := ⟨fun a b => by
  rcases Nat.lt_trichotomy (number a) (number b) with h | h | h
  · exact Or.inr (Or.inl h)
  · rcases String.le_total (id b) (id a) with hid | hid
    · exact Or.inl (Or.inr ⟨h.symm, hid⟩)
    · exact Or.inr (Or.inr ⟨h, hid⟩)
  · exact Or.inl (Or.inl h)⟩

instance : IsTrans α (Descending number id) := ⟨fun a b c hab hbc => by
  rcases hab with hab | ⟨hab, hid⟩ <;> rcases hbc with hbc | ⟨hbc, hid'⟩
  · exact Or.inl (hbc.trans hab)
  · exact Or.inl (by omega)
  · exact Or.inl (by omega)
  · exact Or.inr ⟨hbc.trans hab, String.le_trans hid' hid⟩⟩

/-- Items with ids of their own are ordered. -/
theorem ordered_of_nodup {l : List α} (h : (l.map id).Nodup) : Ordered (Descending number id) l := by
  refine ⟨List.Nodup.of_map _ h, fun a ha b hb hab hba => ?_⟩
  have hid : id a = id b := by
    rcases hab with hab | ⟨hab, hid⟩ <;> rcases hba with hba | ⟨hba, hid'⟩
    · omega
    · omega
    · omega
    · exact String.le_antisymm hid' hid
  exact List.inj_on_of_nodup_map h ha hb hid

theorem not_descending (number : α → ℕ) (id : α → String) (a b : α) :
    ¬ Descending number id a b ↔ number a < number b ∨ number b = number a ∧ id a < id b := by
  rw [Descending, not_or, not_and, not_lt, String.not_le, Nat.le_iff_lt_or_eq]
  constructor
  · rintro ⟨hlt | heq, hid⟩
    · exact Or.inl hlt
    · exact Or.inr ⟨heq.symm, hid heq.symm⟩
  · rintro (hlt | ⟨heq, hid⟩)
    · exact ⟨Or.inl hlt, fun he => by omega⟩
    · exact ⟨Or.inr heq.symm, fun _ => hid⟩

end KamuSinavi.Lib.Sorting
