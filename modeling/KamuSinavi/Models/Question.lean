import KamuSinavi.Lib.Dart

/-! # Questions

`Question` and its two conversions (`models/question.dart`). `fromJson` fills in a missing text,
answer or list of options and throws on a field of another type; `fromJson_toJson` says that it
undoes `toJson`.

A `Question` object is compared by identity, also as the key of a map: two documents with the same
content give two objects. `QuestionObj` is an object, its `ref` standing for its identity. -/

namespace KamuSinavi.Models

open KamuSinavi.Lib KamuSinavi.Lib.Dart

structure Question where
  question : String
  options : List String
  answer : String
  imagePath : Option String
  deriving DecidableEq

/-- A question object. -/
structure QuestionObj extends Question where
  ref : ℕ
  deriving DecidableEq

namespace Question

/-- A string or `null`. -/
def nullable (s : Option String) : Json := s.elim .null .str

def toJson (q : Question) : Json :=
  .obj [("question", .str q.question), ("options", .arr (q.options.map .str)),
    ("answer", .str q.answer), ("imagePath", nullable q.imagePath)]

/-- `json[key] ?? ''`, as a string. -/
def stringOr (fields : List (String × Json)) (key : String) : Option String :=
  match fields.lookup key with
  | none | some .null => some ""
  | some j => j.str?

/-- `List<String>.from(json['options'] ?? [])`. -/
def stringsOr (fields : List (String × Json)) (key : String) : Option (List String) :=
  match fields.lookup key with
  | none | some .null => some []
  | some j => j.arr?.bind fun js => js.mapM Json.str?

/-- `json['imagePath']`, as a nullable string. -/
def stringOrNull (fields : List (String × Json)) (key : String) : Option (Option String) :=
  match fields.lookup key with
  | none | some .null => some none
  | some j => j.str?.map some

/-- The factory constructor; it throws (`none`) on a field of another type. -/
def fromJson (json : Json) : Option Question :=
  json.obj?.bind fun fields =>
    (stringOr fields "question").bind fun question =>
      (stringsOr fields "options").bind fun options =>
        (stringOr fields "answer").bind fun answer =>
          (stringOrNull fields "imagePath").map fun imagePath =>
            { question, options, answer, imagePath }

/-- **Decoding undoes encoding.** -/
theorem fromJson_toJson (q : Question) : fromJson (toJson q) = some q := by
  obtain ⟨question, options, answer, imagePath⟩ := q
  have h₁ : stringOr [("question", .str question), ("options", .arr (options.map .str)),
      ("answer", .str answer), ("imagePath", nullable imagePath)] "question" = some question := rfl
  have h₂ : stringsOr [("question", .str question), ("options", .arr (options.map .str)),
      ("answer", .str answer), ("imagePath", nullable imagePath)] "options" = some options :=
    Json.mapM_map Json.str Json.str? (fun _ => rfl) options
  have h₃ : stringOr [("question", .str question), ("options", .arr (options.map .str)),
      ("answer", .str answer), ("imagePath", nullable imagePath)] "answer" = some answer := rfl
  have h₄ : stringOrNull [("question", .str question), ("options", .arr (options.map .str)),
      ("answer", .str answer), ("imagePath", nullable imagePath)] "imagePath" = some imagePath := by
    rcases imagePath with _ | p <;> rfl
  simp only [fromJson, toJson, Json.obj?, Option.bind_some, h₁, h₂, h₃, h₄, Option.map_some]

theorem encodable_toJson (q : Question) : (toJson q).Encodable := by
  rw [toJson, Json.encodable_obj]
  refine ⟨by simp, fun f hf => ?_⟩
  simp only [List.mem_cons, List.not_mem_nil, or_false] at hf
  rcases hf with rfl | rfl | rfl | rfl
  · exact Json.encodable_str _
  · rw [Json.encodable_arr]
    intro j hj
    obtain ⟨s, -, rfl⟩ := List.mem_map.mp hj
    exact Json.encodable_str s
  · exact Json.encodable_str _
  · rcases q.imagePath with _ | p
    · exact Json.encodable_null
    · exact Json.encodable_str p

/-- `jsonEncode(question.toJson())`, the name of a question in a stored result. No number occurs in
a question, so encoding it does not throw. -/
def key (C : Convert) (q : Question) : String := (C.jsonEncode q.toJson).getD ""

theorem jsonEncode_toJson (C : Convert) (q : Question) :
    C.jsonEncode q.toJson = some (q.key C) := by
  obtain ⟨s, hs⟩ := C.encode_isSome (encodable_toJson q)
  rw [key, hs]; rfl

/-- **The name of a question determines its content.** -/
theorem key_inj (C : Convert) {q q' : Question} : q.key C = q'.key C ↔ q = q' := by
  refine ⟨fun h => ?_, fun h => h ▸ rfl⟩
  have hj : toJson q = toJson q' := C.encode_inj (encodable_toJson q) (encodable_toJson q') (by
    rw [jsonEncode_toJson, jsonEncode_toJson, h])
  have := fromJson_toJson q
  rw [hj, fromJson_toJson] at this
  exact (Option.some.inj this).symm

end Question

end KamuSinavi.Models
