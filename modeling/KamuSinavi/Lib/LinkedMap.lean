import Mathlib.Data.List.Lookmap
import Mathlib.Data.List.Nodup
import Mathlib.Data.List.Perm.Subperm
import Mathlib.Data.Set.List
import Mathlib.Tactic.ApplyFun

/-! # Finite maps that remember the order of insertion

A `LinkedMap` is a list of entries with distinct keys. Writing a key that is present replaces its
value where it stands, writing a new key appends an entry, as the hash maps of several languages do
that iterate in the order of insertion.

`get?_set` says what a map holds after a write, `get?_ofPairs` that of several entries with one key the
last one written wins; `get?_mapKeys` is the same for a map whose keys are renamed by a function that
need not be injective. `length_eq_iff` decides by the number of entries whether all keys of a list are
held. -/

namespace KamuSinavi.Lib

/-- A finite map with its entries in the order in which their keys were first written. -/
@[ext] structure LinkedMap (κ ν : Type*) where
  entries : List (κ × ν)
  nodup : (entries.map Prod.fst).Nodup

namespace LinkedMap

variable {κ κ' ν : Type*} [DecidableEq κ] [DecidableEq κ']

instance [DecidableEq ν] : DecidableEq (LinkedMap κ ν) := fun m m' =>
  decidable_of_iff (m.entries = m'.entries) LinkedMap.ext_iff.symm

/-- The map without entries. -/
def empty : LinkedMap κ ν := ⟨[], List.nodup_nil⟩

/-- The keys, in order. -/
def keys (m : LinkedMap κ ν) : List κ := m.entries.map Prod.fst

/-- The number of entries. -/
def length (m : LinkedMap κ ν) : ℕ := m.entries.length

/-- The value at `k`, if there is one. -/
def get? (m : LinkedMap κ ν) (k : κ) : Option ν := m.entries.lookup k

/-- There is a value at `k`. -/
def contains (m : LinkedMap κ ν) (k : κ) : Bool := (m.get? k).isSome

/-- One write on a list of entries. -/
def setEntry (k : κ) (v : ν) : List (κ × ν) → List (κ × ν)
  | [] => [(k, v)]
  | (k', v') :: es => if k' = k then (k', v) :: es else (k', v') :: setEntry k v es

theorem map_fst_setEntry (k : κ) (v : ν) (es : List (κ × ν)) :
    (setEntry k v es).map Prod.fst =
      if k ∈ es.map Prod.fst then es.map Prod.fst else es.map Prod.fst ++ [k] := by
  induction es with
  | nil => simp [setEntry]
  | cons e es ih =>
    obtain ⟨k', v'⟩ := e
    unfold setEntry
    by_cases h : k' = k
    · rw [if_pos h, if_pos (by simp [h])]; rfl
    · rw [if_neg h, List.map_cons, ih]
      have h' : k ≠ k' := fun e => h e.symm
      by_cases hk : k ∈ es.map Prod.fst
      · rw [if_pos hk, if_pos (by simpa using Or.inr (by simpa using hk))]; rfl
      · rw [if_neg hk, if_neg (by simpa [h'] using hk)]; rfl

/-- `m[k] = v`. -/
def set (m : LinkedMap κ ν) (k : κ) (v : ν) : LinkedMap κ ν where
  entries := setEntry k v m.entries
  nodup := by
    rw [map_fst_setEntry]
    split_ifs with h
    · exact m.nodup
    · exact m.nodup.append (List.nodup_singleton k) (by simpa using h)

/-- `m.remove(k)`. -/
def erase (m : LinkedMap κ ν) (k : κ) : LinkedMap κ ν where
  entries := m.entries.filter fun e => e.1 ≠ k
  nodup := m.nodup.sublist (List.filter_sublist.map Prod.fst)

/-- The map the entries of a list are written into, one after the other. -/
def ofPairs (es : List (κ × ν)) : LinkedMap κ ν := es.foldl (fun m e => m.set e.1 e.2) empty

/-- The map with every key `k` renamed to `f k`; entries that get the same key are merged, the later
value replacing the earlier one. -/
def mapKeys (f : κ → κ') (m : LinkedMap κ ν) : LinkedMap κ' ν :=
  ofPairs (m.entries.map fun e => (f e.1, e.2))

/-! ### Reading -/

theorem get?_eq_some_iff {m : LinkedMap κ ν} {k : κ} {v : ν} :
    m.get? k = some v ↔ (k, v) ∈ m.entries := by
  obtain ⟨es, hnd⟩ := m
  simp only [get?]
  induction es with
  | nil => simp
  | cons e es ih =>
    obtain ⟨k', v'⟩ := e
    simp only [List.map_cons, List.nodup_cons] at hnd
    rw [List.lookup_cons, List.mem_cons, Prod.mk.injEq]
    by_cases h : k = k'
    · subst h
      have hno : (k, v) ∉ es := fun hm => hnd.1 (List.mem_map.mpr ⟨_, hm, rfl⟩)
      simp [hno, eq_comm]
    · have hb : (k == k') = false := by simpa using h
      rw [hb, ih hnd.2]; simp [h]

theorem mem_keys_iff {m : LinkedMap κ ν} {k : κ} : k ∈ m.keys ↔ ∃ v, m.get? k = some v := by
  simp only [keys, List.mem_map, get?_eq_some_iff]
  constructor
  · rintro ⟨⟨k', v⟩, he, rfl⟩; exact ⟨v, he⟩
  · rintro ⟨v, he⟩; exact ⟨_, he, rfl⟩

theorem get?_eq_none_iff {m : LinkedMap κ ν} {k : κ} : m.get? k = none ↔ k ∉ m.keys := by
  rw [mem_keys_iff]
  rcases m.get? k with _ | v <;> simp

theorem contains_iff {m : LinkedMap κ ν} {k : κ} :
    m.contains k = true ↔ ∃ v, m.get? k = some v := by
  rw [contains, Option.isSome_iff_exists]

@[simp] theorem get?_empty (k : κ) : (empty : LinkedMap κ ν).get? k = none := rfl

/-! ### Writing -/

theorem lookup_setEntry (k k' : κ) (v : ν) (es : List (κ × ν)) :
    (setEntry k v es).lookup k' = if k' = k then some v else es.lookup k' := by
  induction es with
  | nil =>
    by_cases h : k' = k
    · simp [setEntry, h]
    · have hb : (k' == k) = false := by simpa using h
      simp [setEntry, List.lookup_cons, hb, h]
  | cons e es ih =>
    obtain ⟨j, w⟩ := e
    unfold setEntry
    by_cases hj : j = k
    · subst hj
      rw [if_pos rfl]
      by_cases h : k' = j
      · simp [h]
      · have hb : (k' == j) = false := by simpa using h
        rw [if_neg h, List.lookup_cons, List.lookup_cons, hb]
    · rw [if_neg hj, List.lookup_cons, List.lookup_cons, ih]
      by_cases h : k' = j
      · subst h; simp [hj]
      · have hb : (k' == j) = false := by simpa using h
        rw [hb]

theorem get?_set (m : LinkedMap κ ν) (k k' : κ) (v : ν) :
    (m.set k v).get? k' = if k' = k then some v else m.get? k' :=
  lookup_setEntry k k' v m.entries

@[simp] theorem get?_set_self (m : LinkedMap κ ν) (k : κ) (v : ν) :
    (m.set k v).get? k = some v := by
  rw [get?_set, if_pos rfl]

theorem get?_set_of_ne (m : LinkedMap κ ν) {k k' : κ} (h : k' ≠ k) (v : ν) :
    (m.set k v).get? k' = m.get? k' := by
  rw [get?_set, if_neg h]

theorem keys_set (m : LinkedMap κ ν) (k : κ) (v : ν) :
    (m.set k v).keys = if k ∈ m.keys then m.keys else m.keys ++ [k] :=
  map_fst_setEntry k v m.entries

theorem mem_keys_set {m : LinkedMap κ ν} {k k' : κ} {v : ν} :
    k' ∈ (m.set k v).keys ↔ k' = k ∨ k' ∈ m.keys := by
  rw [keys_set]
  split_ifs with h
  · exact ⟨Or.inr, fun h' => h'.elim (fun e => e ▸ h) id⟩
  · rw [List.mem_append, List.mem_singleton]; exact Or.comm

/-! ### Removing -/

theorem get?_erase (m : LinkedMap κ ν) (k k' : κ) :
    (m.erase k).get? k' = if k' = k then none else m.get? k' := by
  refine Option.ext fun v => ?_
  rw [get?_eq_some_iff, erase, List.mem_filter, decide_eq_true_eq]
  split_ifs with h
  · exact iff_of_false (fun hv => hv.2 h) not_false
  · rw [get?_eq_some_iff]
    exact and_iff_left h

/-- **Removing changes a map exactly if it holds the key.** -/
theorem erase_eq_self_iff {m : LinkedMap κ ν} {k : κ} : m.erase k = m ↔ m.get? k = none := by
  constructor
  · intro h
    rw [← h, get?_erase, if_pos rfl]
  · intro h
    refine LinkedMap.ext (List.filter_eq_self.mpr fun e he => decide_eq_true fun hk => ?_)
    rw [get?_eq_none_iff] at h
    exact h (hk ▸ List.mem_map.mpr ⟨e, he, rfl⟩)

/-! ### Counting -/

omit [DecidableEq κ] in
/-- **A map whose keys are taken from a list of distinct ones has as many entries as the list exactly
if it holds them all.** -/
theorem length_eq_iff {m : LinkedMap κ ν} {l : List κ} (hl : l.Nodup) (hsub : ∀ k ∈ m.keys, k ∈ l) :
    m.length = l.length ↔ ∀ k ∈ l, k ∈ m.keys := by
  have hlen : m.length = m.keys.length := (List.length_map _).symm
  rw [hlen]
  constructor
  · intro h k hk
    have hperm := (List.subperm_of_subset m.nodup hsub).perm_of_length_le h.ge
    exact hperm.mem_iff.mpr hk
  · intro h
    exact ((List.perm_ext_iff_of_nodup m.nodup hl).mpr fun k => ⟨hsub k, h k⟩).length_eq

/-! ### Building -/

theorem get?_foldl_set (es : List (κ × ν)) (m : LinkedMap κ ν) (k : κ) :
    (es.foldl (fun m e => m.set e.1 e.2) m).get? k = (es.reverse.lookup k).or (m.get? k) := by
  induction es generalizing m with
  | nil => rfl
  | cons e es ih =>
    obtain ⟨j, w⟩ := e
    rw [List.foldl_cons, ih, get?_set, List.reverse_cons, List.lookup_append, Option.or_assoc]
    congr 1
    by_cases h : k = j
    · simp [h]
    · have hb : (k == j) = false := by simpa using h
      rw [if_neg h, List.lookup_cons, hb]; rfl

/-- **The last entry written for a key wins.** -/
theorem get?_ofPairs (es : List (κ × ν)) (k : κ) :
    (ofPairs es).get? k = es.reverse.lookup k := by
  rw [ofPairs, get?_foldl_set, get?_empty, Option.or_none]

theorem get?_ofPairs_eq_none {es : List (κ × ν)} {k : κ} :
    (ofPairs es).get? k = none ↔ ∀ e ∈ es, e.1 ≠ k := by
  rw [get?_ofPairs, List.lookup_eq_none_iff]
  constructor
  · intro h e he hk
    simpa [hk] using h e (List.mem_reverse.mpr he)
  · intro h e he
    simpa using fun hk => h e (List.mem_reverse.mp he) hk.symm

theorem mem_of_get?_ofPairs {es : List (κ × ν)} {k : κ} {v : ν}
    (h : (ofPairs es).get? k = some v) : (k, v) ∈ es := by
  rw [get?_ofPairs, List.lookup_eq_some_iff] at h
  obtain ⟨l₁, l₂, he, -⟩ := h
  have : (k, v) ∈ es.reverse := by rw [he]; simp
  simpa using this

theorem setEntry_of_not_mem {k : κ} {v : ν} {es : List (κ × ν)} (h : k ∉ es.map Prod.fst) :
    setEntry k v es = es ++ [(k, v)] := by
  induction es with
  | nil => rfl
  | cons e es ih =>
    rw [List.map_cons, List.mem_cons, not_or] at h
    unfold setEntry
    rw [if_neg fun he => h.1 he.symm, ih h.2]; rfl

theorem entries_foldl_set (es : List (κ × ν)) (m : LinkedMap κ ν)
    (h : ((m.entries ++ es).map Prod.fst).Nodup) :
    (es.foldl (fun m e => m.set e.1 e.2) m).entries = m.entries ++ es := by
  induction es generalizing m with
  | nil => simp
  | cons e es ih =>
    obtain ⟨k, v⟩ := e
    have hk : k ∉ m.entries.map Prod.fst := by
      rw [List.map_append, List.nodup_append] at h
      intro hm
      exact h.2.2 k hm k (by simp) rfl
    have hset : (m.set k v).entries = m.entries ++ [(k, v)] := setEntry_of_not_mem hk
    rw [List.foldl_cons, ih _ (by rw [hset]; simpa using h), hset, List.append_assoc]; rfl

/-- A map is made from its own entries. -/
theorem ofPairs_entries (m : LinkedMap κ ν) : ofPairs m.entries = m :=
  LinkedMap.ext (entries_foldl_set m.entries empty (by simpa [empty] using m.nodup))

omit [DecidableEq κ] in
theorem get?_mapKeys_eq_none {f : κ → κ'} {m : LinkedMap κ ν} {k' : κ'} :
    (m.mapKeys f).get? k' = none ↔ ∀ k ∈ m.keys, f k ≠ k' := by
  rw [mapKeys, get?_ofPairs_eq_none]
  constructor
  · intro h k hk
    obtain ⟨⟨k, v⟩, he, rfl⟩ := List.mem_map.mp hk
    exact h (f k, v) (List.mem_map.mpr ⟨_, he, rfl⟩)
  · intro h e he
    obtain ⟨e', he', rfl⟩ := List.mem_map.mp he
    exact h e'.1 (List.mem_map.mpr ⟨_, he', rfl⟩)

/-- What a renamed map holds was held under some key of that name. -/
theorem get?_mapKeys {f : κ → κ'} {m : LinkedMap κ ν} {k' : κ'} {v : ν}
    (h : (m.mapKeys f).get? k' = some v) : ∃ k, f k = k' ∧ m.get? k = some v := by
  obtain ⟨⟨k, w⟩, he, heq⟩ := List.mem_map.mp (mem_of_get?_ofPairs h)
  obtain ⟨hk, rfl⟩ := Prod.mk.injEq _ _ _ _ ▸ heq
  exact ⟨k, hk, get?_eq_some_iff.mpr he⟩

omit [DecidableEq κ] in
/-- **Renaming by an injective function keeps every entry.** -/
theorem mapKeys_entries {f : κ → κ'} (hf : Function.Injective f) (m : LinkedMap κ ν) :
    (m.mapKeys f).entries = m.entries.map fun e => (f e.1, e.2) := by
  have hnd : ((m.entries.map fun e => (f e.1, e.2)).map Prod.fst).Nodup := by
    have hkeys := m.nodup.map hf
    rwa [List.map_map] at hkeys ⊢
  exact congrArg entries (ofPairs_entries ⟨_, hnd⟩)

theorem get?_mapKeys_of_injective {f : κ → κ'} (hf : Function.Injective f) (m : LinkedMap κ ν)
    (k : κ) : (m.mapKeys f).get? (f k) = m.get? k := by
  refine Option.ext fun v => ?_
  rw [get?_eq_some_iff, get?_eq_some_iff, mapKeys_entries hf, List.mem_map]
  constructor
  · rintro ⟨⟨k', v'⟩, he, heq⟩
    obtain ⟨hk, rfl⟩ := Prod.mk.inj heq
    exact hf hk ▸ he
  · exact fun he => ⟨_, he, rfl⟩

omit [DecidableEq κ] in
/-- **A map whose keys are names is a renamed map.** -/
theorem exists_mapKeys {f : κ → κ'} (hf : Function.Injective f) {m' : LinkedMap κ' ν}
    (h : ∀ k' ∈ m'.keys, ∃ k, f k = k') : ∃ m : LinkedMap κ ν, m.mapKeys f = m' := by
  have hrange : m'.entries ∈ Set.range (List.map fun e : κ × ν => (f e.1, e.2)) := by
    rw [Set.range_list_map]
    rintro ⟨k', v⟩ he
    obtain ⟨k, rfl⟩ := h k' (List.mem_map.mpr ⟨_, he, rfl⟩)
    exact ⟨(k, v), rfl⟩
  obtain ⟨es, hes⟩ := hrange
  have hnd : ((es.map Prod.fst).map f).Nodup := by
    have hkeys := m'.nodup
    rw [← hes, List.map_map] at hkeys
    rwa [List.map_map]
  exact ⟨⟨es, hnd.of_map f⟩, LinkedMap.ext ((mapKeys_entries hf _).trans hes)⟩

end LinkedMap

end KamuSinavi.Lib
