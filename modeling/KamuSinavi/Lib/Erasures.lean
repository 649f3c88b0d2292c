import Mathlib.Data.List.Induction
import Mathlib.Data.List.Nodup

/-! # Places in a list that changes

An entry of a list that is appended to and from which entries are erased by their places, one after the
other. `place i ds` is where the entry that was at `i` is when the entries at `ds` have been erased, each
of these being a place in what the earlier erasures have left.

`Tracks.getElem?_iff` says when a place has the entry it had, and `eraseIdx_eq_filter_iff` when an
erasure takes out the entry that is meant. -/

namespace KamuSinavi.Lib.Erasures

variable {α : Type*} {l : List α} {a : α} {i : ℕ} {ds : List ℕ}

/-- Where the entry at `j` is when the one at `d` has been erased; `none` if it is that one. -/
def moved (d j : ℕ) : Option ℕ :=
  if d = j then none else if d < j then some (j - 1) else some j

/-- Where the entry at `i` is when the ones at `ds` have been erased, one after the other; `none` if it
is one of them. -/
def place (i : ℕ) (ds : List ℕ) : Option ℕ := ds.foldl (fun p d => p.bind (moved d)) (some i)

theorem place_concat (i : ℕ) (ds : List ℕ) (d : ℕ) :
    place i (ds ++ [d]) = (place i ds).bind (moved d) := by
  unfold place
  rw [List.foldl_append]
  rfl

theorem moved_le {d j k : ℕ} (h : moved d j = some k) : k ≤ j := by
  unfold moved at h
  split_ifs at h
  · exact Option.some.inj h ▸ Nat.sub_le j 1
  · exact Option.some.inj h ▸ Nat.le_refl _

theorem moved_eq_self_iff {d j : ℕ} : moved d j = some j ↔ j < d := by
  unfold moved
  split_ifs with heq hlt
  · exact iff_of_false id (by omega)
  · rw [Option.some.injEq]
    omega
  · exact iff_of_true rfl (by omega)

/-- An entry moves to the front only. -/
theorem place_le {j : ℕ} (h : place i ds = some j) : j ≤ i := by
  induction ds using List.reverseRecOn generalizing j with
  | nil => exact Option.some.inj h ▸ Nat.le_refl _
  | append_singleton ds d ih =>
    rw [place_concat] at h
    obtain ⟨k, hk, hj⟩ := Option.bind_eq_some_iff.mp h
    exact Nat.le_trans (moved_le hj) (ih hk)

/-- An entry is where it was exactly if only later places have been erased. -/
theorem place_eq_self_iff : place i ds = some i ↔ ∀ d ∈ ds, i < d := by
  induction ds using List.reverseRecOn with
  | nil => exact iff_of_true rfl fun _ h => absurd h List.not_mem_nil
  | append_singleton ds d ih =>
    rw [place_concat, List.forall_mem_append, List.forall_mem_singleton, ← ih, ← moved_eq_self_iff]
    constructor
    · intro h
      obtain ⟨j, hj, hd⟩ := Option.bind_eq_some_iff.mp h
      obtain rfl : j = i := Nat.le_antisymm (place_le hj) (moved_le hd)
      exact ⟨hj, hd⟩
    · rintro ⟨hi, hd⟩
      rw [hi]
      exact hd

/-- **The list `l` has changed by these erasures, and by appending other entries, since it had `a` at
`i`.** -/
def Tracks (l : List α) (i : ℕ) (a : α) (ds : List ℕ) : Prop :=
  match place i ds with
  | some j => l[j]? = some a
  | none => a ∉ l

theorem tracks_some {j : ℕ} (h : place i ds = some j) : Tracks l i a ds ↔ l[j]? = some a := by
  rw [Tracks, h]

theorem tracks_none (h : place i ds = none) : Tracks l i a ds ↔ a ∉ l := by
  rw [Tracks, h]

/-- Looking at a place. -/
theorem tracks_nil (h : l[i]? = some a) : Tracks l i a [] := h

theorem Tracks.append (h : Tracks l i a ds) {b : α} (hb : b ≠ a) : Tracks (l ++ [b]) i a ds := by
  rcases hp : place i ds with _ | j
  · rw [tracks_none hp] at h ⊢
    rw [List.mem_append, List.mem_singleton]
    rintro (hl | rfl)
    · exact h hl
    · exact hb rfl
  · rw [tracks_some hp] at h ⊢
    rw [List.getElem?_append_left (List.getElem?_eq_some_iff.mp h).1]
    exact h

theorem Tracks.eraseIdx (hl : l.Nodup) (h : Tracks l i a ds) (d : ℕ) :
    Tracks (l.eraseIdx d) i a (ds ++ [d]) := by
  have hplace := place_concat i ds d
  rcases hp : place i ds with _ | j
  · rw [hp] at hplace
    rw [tracks_none hp] at h
    rw [tracks_none hplace]
    exact fun hmem => h (List.mem_of_mem_eraseIdx hmem)
  · rw [hp, Option.bind_some, moved] at hplace
    rw [tracks_some hp] at h
    split_ifs at hplace with heq hlt
    · subst heq
      rw [tracks_none hplace, List.mem_eraseIdx_iff_getElem?]
      rintro ⟨k, hk, hka⟩
      exact hk ((List.getElem?_inj (List.getElem?_eq_some_iff.mp hka).1 hl).mp (hka.trans h.symm))
    · rw [tracks_some hplace, List.getElem?_eraseIdx_of_ge (by omega), Nat.sub_add_cancel (by omega)]
      exact h
    · rw [tracks_some hplace, List.getElem?_eraseIdx_of_lt (by omega)]
      exact h

/-- **The place has the entry it had exactly if only later places have been erased.** -/
theorem Tracks.getElem?_iff (hl : l.Nodup) (h : Tracks l i a ds) :
    l[i]? = some a ↔ ∀ d ∈ ds, i < d := by
  rw [← place_eq_self_iff]
  rcases hp : place i ds with _ | j
  · rw [tracks_none hp] at h
    exact iff_of_false (fun hi => h (List.mem_of_getElem? hi)) (Option.some_ne_none i).symm
  · rw [tracks_some hp] at h
    rw [Option.some.injEq]
    constructor
    · intro hi
      exact (List.getElem?_inj (List.getElem?_eq_some_iff.mp h).1 hl).mp (h.trans hi.symm)
    · rintro rfl
      exact h

/-- **An erasure takes out the entry that is meant, and no other,** exactly if that is at the place. -/
theorem eraseIdx_eq_filter_iff [DecidableEq α] (hl : l.Nodup) (ha : a ∈ l) :
    l.eraseIdx i = l.filter (· ≠ a) ↔ l[i]? = some a := by
  constructor
  · intro h
    obtain ⟨j, hj⟩ := List.mem_iff_getElem?.mp ha
    by_contra hi
    have hmem : a ∈ l.eraseIdx i :=
      List.mem_eraseIdx_iff_getElem?.mpr ⟨j, fun hji => hi (hji ▸ hj), hj⟩
    rw [h, List.mem_filter] at hmem
    exact of_decide_eq_true hmem.2 rfl
  · intro h
    obtain ⟨hi, rfl⟩ := List.getElem?_eq_some_iff.mp h
    rw [← hl.erase_getElem i hi, hl.erase_eq_filter]
    exact List.filter_congr fun x _ => (decide_not (p := x = l[i])).symm ▸ rfl

end KamuSinavi.Lib.Erasures
