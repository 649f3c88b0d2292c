import Mathlib.Algebra.Field.Rat
import Mathlib.Data.List.Nodup
import Mathlib.Tactic.FieldSimp
import Mathlib.Tactic.Ring

/-! # JSON trees

A JSON tree with integers and doubles kept apart, as a decoder with static types reads them. A
double is an exact rational number or one of the values that are no numbers; the rounding of machine
doubles is not modelled.

`Encodable` is what an encoder accepts and a decoder gives back: finite numbers and objects with
distinct keys. -/

namespace KamuSinavi.Lib

/-- A double, without the rounding. -/
inductive Double where
  | nan
  | infinity
  | finite (value : ℚ)
  deriving DecidableEq

namespace Double

/-- The number is neither infinite nor undefined. -/
def isFinite : Double → Bool
  | finite _ => true
  | _ => false

/-- `(a / b) * 100`. -/
def percent (a b : ℕ) : Double :=
  if b = 0 then (if a = 0 then nan else infinity) else finite ((a : ℚ) / b * 100)

theorem percent_of_pos (a : ℕ) {b : ℕ} (hb : b ≠ 0) : percent a b = finite ((a : ℚ) / b * 100) := by
  rw [percent, if_neg hb]

theorem isFinite_percent {a b : ℕ} (hb : b ≠ 0) : (percent a b).isFinite = true := by
  rw [percent_of_pos a hb]; rfl

theorem not_isFinite_percent (a : ℕ) : (percent a 0).isFinite = false := by
  rw [percent, if_pos rfl]
  split_ifs <;> rfl

/-- Percentages of one total are equal only if the parts are. -/
theorem percent_inj {a a' b : ℕ} (hb : b ≠ 0) : percent a b = percent a' b ↔ a = a' := by
  rw [percent_of_pos a hb, percent_of_pos a' hb]
  have hb' : (b : ℚ) ≠ 0 := by exact_mod_cast hb
  constructor
  · intro h
    have h' : (a : ℚ) / b * 100 = (a' : ℚ) / b * 100 := by simpa using h
    have h'' : (a : ℚ) = a' := by
      field_simp at h'
      exact h'
    exact_mod_cast h''
  · rintro rfl; rfl

end Double

/-- A JSON tree. -/
inductive Json where
  | null
  | bool (b : Bool)
  | int (n : ℤ)
  | double (d : Double)
  | str (s : String)
  | arr (items : List Json)
  | obj (fields : List (String × Json))

namespace Json

mutual
/-- The tree has finite numbers only, and the keys of each object are distinct. -/
def Encodable : Json → Prop
  | .null => True
  | .bool _ => True
  | .int _ => True
  | .double d => d.isFinite = true
  | .str _ => True
  | .arr items => EncodableItems items
  | .obj fields => (fields.map Prod.fst).Nodup ∧ EncodableFields fields

/-- Every item is encodable. -/
def EncodableItems : List Json → Prop
  | [] => True
  | j :: js => j.Encodable ∧ EncodableItems js

/-- Every value of a field is encodable. -/
def EncodableFields : List (String × Json) → Prop
  | [] => True
  | (_, j) :: fs => j.Encodable ∧ EncodableFields fs
end

mutual
/-- The doubles of the tree. -/
def doubles : Json → List Double
  | .null => []
  | .bool _ => []
  | .int _ => []
  | .double d => [d]
  | .str _ => []
  | .arr items => doublesItems items
  | .obj fields => doublesFields fields

/-- The doubles of the items. -/
def doublesItems : List Json → List Double
  | [] => []
  | j :: js => j.doubles ++ doublesItems js

/-- The doubles of the values of the fields. -/
def doublesFields : List (String × Json) → List Double
  | [] => []
  | (_, j) :: fs => j.doubles ++ doublesFields fs
end

mutual
theorem isFinite_of_encodable : ∀ j : Json, j.Encodable → ∀ d ∈ j.doubles, d.isFinite = true
  | .null, _, d, hd => by simp [doubles] at hd
  | .bool _, _, d, hd => by simp [doubles] at hd
  | .int _, _, d, hd => by simp [doubles] at hd
  | .double d', h, d, hd => by
    simp only [doubles, List.mem_singleton] at hd
    subst hd
    exact h
  | .str _, _, d, hd => by simp [doubles] at hd
  | .arr items, h, d, hd => isFinite_of_encodableItems items h d hd
  | .obj fields, h, d, hd => isFinite_of_encodableFields fields h.2 d hd

theorem isFinite_of_encodableItems : ∀ js : List Json, EncodableItems js →
    ∀ d ∈ doublesItems js, d.isFinite = true
  | [], _, d, hd => by simp [doublesItems] at hd
  | j :: js, h, d, hd => by
    rcases List.mem_append.mp hd with hd | hd
    · exact isFinite_of_encodable j h.1 d hd
    · exact isFinite_of_encodableItems js h.2 d hd

theorem isFinite_of_encodableFields : ∀ fs : List (String × Json), EncodableFields fs →
    ∀ d ∈ doublesFields fs, d.isFinite = true
  | [], _, d, hd => by simp [doublesFields] at hd
  | (_, j) :: fs, h, d, hd => by
    rcases List.mem_append.mp hd with hd | hd
    · exact isFinite_of_encodable j h.1 d hd
    · exact isFinite_of_encodableFields fs h.2 d hd
end

theorem doubles_sub_items {js : List Json} {j : Json} (hj : j ∈ js) {d : Double}
    (hd : d ∈ j.doubles) : d ∈ doublesItems js := by
  induction js with
  | nil => simp at hj
  | cons j' js ih =>
    rcases List.mem_cons.mp hj with rfl | hj
    · exact List.mem_append_left _ hd
    · exact List.mem_append_right _ (ih hj)

theorem doubles_sub_fields {fs : List (String × Json)} {f : String × Json} (hf : f ∈ fs)
    {d : Double} (hd : d ∈ f.2.doubles) : d ∈ doublesFields fs := by
  induction fs with
  | nil => simp at hf
  | cons f' fs ih =>
    rcases List.mem_cons.mp hf with rfl | hf
    · exact List.mem_append_left _ hd
    · exact List.mem_append_right _ (ih hf)

theorem encodableItems_iff {js : List Json} : EncodableItems js ↔ ∀ j ∈ js, j.Encodable := by
  induction js with
  | nil => simp [EncodableItems]
  | cons j js ih => simp [EncodableItems, ih]

theorem encodableFields_iff {fs : List (String × Json)} :
    EncodableFields fs ↔ ∀ f ∈ fs, f.2.Encodable := by
  induction fs with
  | nil => simp [EncodableFields]
  | cons f fs ih => obtain ⟨k, j⟩ := f; simp [EncodableFields, ih]

@[simp] theorem encodable_null : Encodable .null := by simp [Encodable]

@[simp] theorem encodable_str (s : String) : Encodable (.str s) := by simp [Encodable]

theorem encodable_double {d : Double} : Encodable (.double d) ↔ d.isFinite = true := by
  simp [Encodable]

theorem encodable_arr {js : List Json} : Encodable (.arr js) ↔ ∀ j ∈ js, j.Encodable := by
  rw [Encodable, encodableItems_iff]

theorem encodable_obj {fs : List (String × Json)} :
    Encodable (.obj fs) ↔ (fs.map Prod.fst).Nodup ∧ ∀ f ∈ fs, f.2.Encodable := by
  rw [Encodable, encodableFields_iff]

/-- The string in a tree that is a string. -/
def str? : Json → Option String
  | .str s => some s
  | _ => none

/-- The items of a tree that is an array. -/
def arr? : Json → Option (List Json)
  | .arr js => some js
  | _ => none

/-- The fields of a tree that is an object. -/
def obj? : Json → Option (List (String × Json))
  | .obj fs => some fs
  | _ => none

/-- The double in a tree that is one; an integer is none. -/
def double? : Json → Option Double
  | .double d => some d
  | _ => none

/-- Reading back a list whose items are read back. -/
theorem mapM_map {α β : Type*} (f : α → β) (g : β → Option α) (h : ∀ x, g (f x) = some x)
    (xs : List α) : (xs.map f).mapM g = some xs := by
  induction xs with
  | nil => rfl
  | cons x xs ih => rw [List.map_cons, List.mapM_cons, h, ih]; rfl

/-- A list cannot be read if one of its items cannot. -/
theorem mapM_eq_none_iff {α β : Type*} {g : α → Option β} {xs : List α} :
    xs.mapM g = none ↔ ∃ x ∈ xs, g x = none := by
  induction xs with
  | nil => exact iff_of_false (Option.some_ne_none _) (by simp)
  | cons x xs ih =>
    rw [List.mapM_cons, List.exists_mem_cons_iff, ← ih]
    rcases g x with _ | y
    · exact iff_of_true rfl (Or.inl rfl)
    · rcases xs.mapM g with _ | ys
      · exact iff_of_true rfl (Or.inr rfl)
      · exact iff_of_false (Option.some_ne_none _) (by simp)

end Json

end KamuSinavi.Lib
