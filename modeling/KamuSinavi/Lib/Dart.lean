import KamuSinavi.Lib.JsonText
import Mathlib.Data.List.Lex

/-! # The conversions of the Dart core libraries

`trim` is `String.trim` and `compareTo` is `String.compareTo`, a total order because UTF-16 is a prefix
code. A `DateTime` is a local calendar time; its fields are bounded, so that its ISO 8601 text has
fields of fixed width.

The conversions to and from text are used through `Convert`: functions `jsonEncode`, `jsonDecode`,
`toIso8601String` and `parse` with the laws the documentation gives. `jsonDecode` undoes `jsonEncode`
on encodable trees, `jsonEncode` throws on numbers that are not finite, and `parse` undoes
`toIso8601String`. `compact` is an instance: the compact JSON text of `JsonText` and the ISO text
with six digits of a second. -/

namespace KamuSinavi.Lib.Dart

open KamuSinavi.Lib

/-! ### Strings -/

/-- The white space `trim` removes: Unicode's, and the byte order mark. -/
def isWhitespace (c : Char) : Bool :=
  (9 ≤ c.toNat && c.toNat ≤ 13) || c.toNat == 0x20 || c.toNat == 0x85 || c.toNat == 0xA0 ||
    c.toNat == 0x1680 || (0x2000 ≤ c.toNat && c.toNat ≤ 0x200A) || c.toNat == 0x2028 ||
    c.toNat == 0x2029 || c.toNat == 0x202F || c.toNat == 0x205F || c.toNat == 0x3000 ||
    c.toNat == 0xFEFF

/-- A list of characters without the white space at its ends. -/
def trimChars (cs : List Char) : List Char :=
  ((cs.dropWhile isWhitespace).reverse.dropWhile isWhitespace).reverse

/-- `String.trim`. -/
def trim (s : String) : String := String.ofList (trimChars s.toList)

/-- The UTF-16 code units of a character. -/
def utf16 (c : Char) : List ℕ :=
  if c.toNat < 0x10000 then [c.toNat]
  else [0xD800 + (c.toNat - 0x10000) / 0x400, 0xDC00 + (c.toNat - 0x10000) % 0x400]

/-- `String.codeUnits`. -/
def codeUnits (s : String) : List ℕ := s.toList.flatMap utf16

/-- `String.compareTo`: the lexicographic order of the code units. -/
def compareTo (s t : String) : Ordering := compareOfLessAndEq (codeUnits s) (codeUnits t)

/-- The words of a prefix code, one after the other, can be told apart. -/
theorem flatMap_inj {α β : Type*} {f : α → List β} (hne : ∀ a, f a ≠ [])
    (hf : ∀ a b us vs, f a ++ us = f b ++ vs → a = b ∧ us = vs) :
    ∀ as bs : List α, as.flatMap f = bs.flatMap f → as = bs
  | [], [], _ => rfl
  | [], b :: bs, h => absurd (List.append_eq_nil_iff.mp h.symm).1 (hne b)
  | a :: as, [], h => absurd (List.append_eq_nil_iff.mp h).1 (hne a)
  | a :: as, b :: bs, h => by
    obtain ⟨rfl, hrest⟩ := hf a b _ _ h
    rw [flatMap_inj hne hf as bs hrest]

theorem utf16_ne_nil (c : Char) : utf16 c ≠ [] := by
  unfold utf16
  split_ifs <;> exact List.cons_ne_nil _ _

/-- **UTF-16 is a prefix code.** -/
theorem utf16_append_inj (c d : Char) (us vs : List ℕ) (h : utf16 c ++ us = utf16 d ++ vs) :
    c = d ∧ us = vs := by
  have hc : c.toNat < 0xD800 ∨ 0xDFFF < c.toNat ∧ c.toNat < 0x110000 := c.valid
  have hd : d.toNat < 0xD800 ∨ 0xDFFF < d.toNat ∧ d.toNat < 0x110000 := d.valid
  rw [← Char.toNat_inj]
  unfold utf16 at h
  split_ifs at h with hcs hds hds
  · simp only [List.cons_append, List.nil_append, List.cons.injEq] at h
    exact h
  -- the first unit of a pair is no character
  · simp only [List.cons_append, List.nil_append, List.cons.injEq] at h
    omega
  · simp only [List.cons_append, List.nil_append, List.cons.injEq] at h
    omega
  · simp only [List.cons_append, List.nil_append, List.cons.injEq] at h
    obtain ⟨hhigh, hlow, h⟩ := h
    exact ⟨by omega, h⟩

/-- **A text is given by its code units.** -/
theorem codeUnits_injective : Function.Injective codeUnits := fun _ _ h =>
  String.toList_inj.mp (flatMap_inj utf16_ne_nil utf16_append_inj _ _ h)

/-- **Of two different texts exactly one comes first.** -/
theorem compareTo_eq_lt_iff {s t : String} (h : s ≠ t) :
    compareTo s t = .lt ↔ ¬ compareTo t s = .lt := by
  have hne : codeUnits s ≠ codeUnits t := fun he => h (codeUnits_injective he)
  rw [compareTo, compareTo, compareOfLessAndEq_eq_lt, compareOfLessAndEq_eq_lt, not_lt]
  exact hne.le_iff_lt.symm

/-- `r` in the place of every occurrence of `p`, from left to right; `skip` characters belong to the
last occurrence. -/
def replaceChars (p r : List Char) : ℕ → List Char → List Char
  | _, [] => if p = [] then r else []
  | skip + 1, _ :: cs => replaceChars p r skip cs
  | 0, c :: cs =>
    if p = [] then r ++ c :: replaceChars p r 0 cs
    else if p.isPrefixOf (c :: cs) then r ++ replaceChars p r (p.length - 1) cs
    else c :: replaceChars p r 0 cs

/-- `String.replaceAll`. -/
def replaceAll (s p r : String) : String :=
  String.ofList (replaceChars p.toList r.toList 0 s.toList)

/-- A text without the first character of the pattern is left alone, up to what follows it. -/
theorem replaceChars_append {p₀ : Char} {p r cs : List Char} (hcs : p₀ ∉ cs) (ds : List Char) :
    replaceChars (p₀ :: p) r 0 (cs ++ ds) = cs ++ replaceChars (p₀ :: p) r 0 ds := by
  induction cs with
  | nil => rfl
  | cons c cs ih =>
    rw [List.mem_cons, not_or] at hcs
    have hno : (p₀ :: p).isPrefixOf (c :: (cs ++ ds)) = false := by
      rw [List.isPrefixOf_cons_cons, beq_eq_false_iff_ne.mpr hcs.1, Bool.false_and]
    rw [List.cons_append, replaceChars, if_neg (List.cons_ne_nil _ _), hno, if_neg Bool.false_ne_true,
      ih hcs.2, List.cons_append]

theorem replaceChars_skip (p r cs ds : List Char) :
    replaceChars p r cs.length (cs ++ ds) = replaceChars p r 0 ds := by
  induction cs with
  | nil => rfl
  | cons c cs ih => rw [List.cons_append, List.length_cons, replaceChars, ih]

/-- A text without the first character of the pattern is left alone. -/
theorem replaceChars_eq_self {p₀ : Char} {p r cs : List Char} (hcs : p₀ ∉ cs) :
    replaceChars (p₀ :: p) r 0 cs = cs := by
  have h := replaceChars_append (p := p) (r := r) hcs []
  rwa [List.append_nil, replaceChars, if_neg (List.cons_ne_nil _ _), List.append_nil] at h

/-- **An occurrence is replaced.** -/
theorem replaceChars_pattern (p₀ : Char) (p r ds : List Char) :
    replaceChars (p₀ :: p) r 0 ((p₀ :: p) ++ ds) = r ++ replaceChars (p₀ :: p) r 0 ds := by
  have hyes : (p₀ :: p).isPrefixOf (p₀ :: (p ++ ds)) = true := by
    rw [← List.cons_append]
    exact List.isPrefixOf_iff_prefix.mpr (List.prefix_append _ _)
  rw [List.cons_append, replaceChars, if_neg (List.cons_ne_nil _ _), if_pos hyes]
  exact congrArg (r ++ ·) (replaceChars_skip _ _ p ds)

/-- `String.split` at a character. -/
def split (s : String) (c : Char) : List String := (s.toList.splitOn c).map String.ofList

/-- A decimal numeral, with a sign or without, in front of a text. -/
def readSigned : List Char → Option (ℤ × List Char)
  | [] => none
  | c :: r =>
    if c = '+' then (JsonText.readNat r).map fun (p : ℕ × List Char) => ((p.1 : ℤ), p.2)
    else JsonText.readInt (c :: r)

/-- `int.parse` of a decimal numeral. -/
def parseInt (s : String) : Option ℤ :=
  match readSigned (trimChars s.toList) with
  | some (z, []) => some z
  | _ => none

theorem isWhitespace_of_isDigit {c : Char} (h : c.isDigit = true) : isWhitespace c = false := by
  simp only [Char.isDigit, Bool.and_eq_true, decide_eq_true_eq] at h
  have h₁ : 48 ≤ c.toNat := h.1
  have h₂ : c.toNat ≤ 57 := h.2
  simp only [isWhitespace, Bool.or_eq_false_iff, Bool.and_eq_false_iff, beq_eq_false_iff_ne,
    decide_eq_false_iff_not]
  omega

theorem isWhitespace_of_isUpper {c : Char} (h : c.isUpper = true) : isWhitespace c = false := by
  obtain ⟨hlower, hupper⟩ : 'A' ≤ c ∧ c ≤ 'Z' := of_decide_eq_true h
  have h₁ : 65 ≤ c.toNat := hlower
  have h₂ : c.toNat ≤ 90 := hupper
  simp only [isWhitespace, Bool.or_eq_false_iff, Bool.and_eq_false_iff, beq_eq_false_iff_ne,
    decide_eq_false_iff_not]
  omega

/-- A text without white space is not trimmed. -/
theorem trimChars_eq_self {cs : List Char} (h : ∀ c ∈ cs, isWhitespace c = false) :
    trimChars cs = cs := by
  have hdrop : ∀ ds : List Char, (∀ c ∈ ds, isWhitespace c = false) →
      ds.dropWhile isWhitespace = ds := by
    intro ds hds
    cases ds with
    | nil => rfl
    | cons c ds => rw [List.dropWhile_cons_of_neg (by simp [hds c])]
  rw [trimChars, hdrop cs h, hdrop _ fun c hc => h c (List.mem_reverse.mp hc), List.reverse_reverse]

/-- Leaving out characters at the front that have not the property loses none that has it. -/
theorem any_dropWhile {p w : Char → Bool} (hp : ∀ c, p c = true → w c = false) (cs : List Char) :
    (cs.dropWhile w).any p = cs.any p := by
  induction cs with
  | nil => rfl
  | cons c cs ih =>
    rcases hw : w c with _ | _
    · rw [List.dropWhile_cons_of_neg (by simp [hw])]
    · have hc : p c = false := by
        rw [← Bool.not_eq_true]
        exact fun h => Bool.noConfusion (hw.symm.trans (hp c h))
      rw [List.dropWhile_cons_of_pos hw, ih, List.any_cons, hc, Bool.false_or]

/-- **Trimming keeps every character that is not white space.** -/
theorem any_trim {p : Char → Bool} (hp : ∀ c, p c = true → isWhitespace c = false) (s : String) :
    (trim s).toList.any p = s.toList.any p := by
  rw [trim, String.toList_ofList, trimChars, List.any_reverse, any_dropWhile hp, List.any_reverse,
    any_dropWhile hp]

/-- **The numeral of a number is parsed to the number.** -/
theorem parseInt_toString (n : ℕ) : parseInt (toString n) = some (n : ℤ) := by
  have hdigit : ∀ c ∈ Nat.toDigits 10 n, c.isDigit = true := fun c hc =>
    Nat.isDigit_of_mem_toDigits (by norm_num) (by norm_num) hc
  have htext : (toString n).toList = Nat.toDigits 10 n := String.toList_ofList
  have htrim : trimChars (Nat.toDigits 10 n) = Nat.toDigits 10 n :=
    trimChars_eq_self fun c hc => isWhitespace_of_isDigit (hdigit c hc)
  have hread : JsonText.readInt (Nat.toDigits 10 n) = some ((n : ℤ), []) := by
    have h := JsonText.readInt_writeInt (n : ℤ) (r := []) (by simp)
    rw [List.append_nil, JsonText.writeInt, if_neg (by omega), Int.natAbs_natCast] at h
    exact h
  obtain ⟨c, ds, hds⟩ := List.exists_cons_of_ne_nil (Nat.toDigits_ne_nil (n := n) (b := 10))
  have hplus : c ≠ '+' := by
    rintro rfl
    exact absurd (hdigit '+' (by rw [hds]; exact List.mem_cons_self ..)) (by decide)
  have hsigned : readSigned (Nat.toDigits 10 n) = some ((n : ℤ), []) := by
    rw [hds] at hread ⊢
    rw [readSigned, if_neg hplus, hread]
  rw [parseInt, htext, htrim, hsigned]

theorem toString_injective : Function.Injective (toString : ℕ → String) := fun m n h => by
  have hm := parseInt_toString m
  rw [h, parseInt_toString n, Option.some.injEq, Nat.cast_inj] at hm
  exact hm.symm

/-! ### Times -/

/-- A calendar time. -/
structure DateTime where
  year : Fin 10000
  month : Fin 100
  day : Fin 100
  hour : Fin 100
  minute : Fin 100
  second : Fin 100
  microsecond : Fin 1000000
  deriving DecidableEq

/-- Noon of some day. -/
def DateTime.noon : DateTime :=
  { year := 2025, month := 5, day := 1, hour := 12, minute := 0, second := 0, microsecond := 0 }

/-- The decimal digits of `n` in `w` places. -/
def padded : ℕ → ℕ → List Char
  | 0, _ => []
  | w + 1, n => padded w (n / 10) ++ [Nat.digitChar (n % 10)]

/-- The number `w` digits stand for. -/
def readPadded (w : ℕ) (cs : List Char) : ℕ × List Char :=
  (Nat.ofDigitChars 10 (cs.take w) 0, cs.drop w)

theorem length_padded (w n : ℕ) : (padded w n).length = w := by
  induction w generalizing n with
  | zero => rfl
  | succ w ih => simp [padded, ih]

theorem ofDigitChars_padded (w n : ℕ) (h : n < 10 ^ w) : Nat.ofDigitChars 10 (padded w n) 0 = n := by
  induction w generalizing n with
  | zero => simp at h; subst h; rfl
  | succ w ih =>
    have hd : n / 10 < 10 ^ w := by rw [pow_succ] at h; omega
    rw [padded, Nat.ofDigitChars_append, ih _ hd,
      Nat.ofDigitChars_cons_digitChar_of_lt_ten (Nat.mod_lt _ (by norm_num)), Nat.ofDigitChars_nil]
    omega

theorem readPadded_padded {w n : ℕ} (h : n < 10 ^ w) (r : List Char) :
    readPadded w (padded w n ++ r) = (n, r) := by
  have ht : (padded w n ++ r).take w = padded w n := by
    rw [List.take_append_of_le_length (by rw [length_padded]),
      List.take_of_length_le (by rw [length_padded])]
  have hd : (padded w n ++ r).drop w = r := by
    rw [List.drop_append_of_le_length (by rw [length_padded]),
      List.drop_of_length_le (by rw [length_padded]), List.nil_append]
  rw [readPadded, ht, hd, ofDigitChars_padded w n h]

/-- The digits after the point: the milliseconds, and the rest in microseconds if there is one. -/
def fraction (n : ℕ) : List Char :=
  padded 3 (n / 1000) ++ if n % 1000 = 0 then [] else padded 3 (n % 1000)

def readFraction (cs : List Char) : ℕ :=
  let ms := readPadded 3 cs
  ms.1 * 1000 + (readPadded 3 ms.2).1

theorem readFraction_fraction {n : ℕ} (h : n < 1000000) : readFraction (fraction n) = n := by
  have hms : n / 1000 < 10 ^ 3 := by norm_num; omega
  have hus : n % 1000 < 10 ^ 3 := by norm_num; omega
  unfold readFraction fraction
  rw [readPadded_padded hms]
  simp only
  split_ifs with hzero
  · have hnil : (readPadded 3 []).1 = 0 := rfl
    rw [hnil]
    omega
  · have hread : (readPadded 3 (padded 3 (n % 1000))).1 = n % 1000 := by
      have := readPadded_padded hus []
      rw [List.append_nil] at this
      rw [this]
    rw [hread]
    omega

/-- `yyyy-mm-ddThh:mm:ss.mmm`, followed by the microseconds if they are not zero. -/
def isoChars (d : DateTime) : List Char :=
  padded 4 d.year ++ '-' :: (padded 2 d.month ++ '-' :: (padded 2 d.day ++ 'T' ::
    (padded 2 d.hour ++ ':' :: (padded 2 d.minute ++ ':' :: (padded 2 d.second ++ '.' ::
      fraction d.microsecond)))))

/-- The time an ISO text stands for. -/
def readIso (cs : List Char) : Option DateTime :=
  let y := readPadded 4 cs
  let mo := readPadded 2 (y.2.drop 1)
  let da := readPadded 2 (mo.2.drop 1)
  let h := readPadded 2 (da.2.drop 1)
  let mi := readPadded 2 (h.2.drop 1)
  let s := readPadded 2 (mi.2.drop 1)
  let us := readFraction (s.2.drop 1)
  if hy : y.1 < 10000 ∧ mo.1 < 100 ∧ da.1 < 100 ∧ h.1 < 100 ∧ mi.1 < 100 ∧ s.1 < 100 ∧
      us < 1000000 then
    some ⟨⟨y.1, hy.1⟩, ⟨mo.1, hy.2.1⟩, ⟨da.1, hy.2.2.1⟩, ⟨h.1, hy.2.2.2.1⟩, ⟨mi.1, hy.2.2.2.2.1⟩,
      ⟨s.1, hy.2.2.2.2.2.1⟩, ⟨us, hy.2.2.2.2.2.2⟩⟩
  else none

theorem readIso_isoChars (d : DateTime) : readIso (isoChars d) = some d := by
  obtain ⟨⟨y, hy⟩, ⟨mo, hmo⟩, ⟨da, hda⟩, ⟨h, hh⟩, ⟨mi, hmi⟩, ⟨s, hs⟩, ⟨us, hus⟩⟩ := d
  have h2 : ∀ {n : ℕ}, n < 100 → ∀ r, readPadded 2 (padded 2 n ++ r) = (n, r) := fun hn r =>
    readPadded_padded (by simpa using hn) r
  have h4 : ∀ r, readPadded 4 (padded 4 y ++ r) = (y, r) := fun r =>
    readPadded_padded (by simpa using hy) r
  simp only [readIso, isoChars, h4, List.drop_one, List.tail_cons, h2 hmo, h2 hda, h2 hh, h2 hmi,
    h2 hs, readFraction_fraction hus]
  rw [dif_pos ⟨hy, hmo, hda, hh, hmi, hs, hus⟩]

/-! ### Conversions -/

/-- **The conversions between values and texts**, with their documented laws; `none` stands for a
thrown error. -/
structure Convert where
  jsonEncode : Json → Option String
  jsonDecode : String → Option Json
  toIso8601String : DateTime → String
  parse : String → Option DateTime
  decode_encode : ∀ j : Json, j.Encodable → ∃ s, jsonEncode j = some s ∧ jsonDecode s = some j
  encode_not_finite : ∀ (j : Json) (d : Double), d ∈ j.doubles → d.isFinite = false →
    jsonEncode j = none
  parse_iso : ∀ d, parse (toIso8601String d) = some d

/-- The compact JSON text and the ISO text. -/
def compact : Convert where
  jsonEncode j := if j.doubles.all Double.isFinite then some (String.ofList (JsonText.write j)) else none
  jsonDecode s := JsonText.read s.toList
  toIso8601String d := String.ofList (isoChars d)
  parse s := readIso s.toList
  decode_encode j hj := by
    refine ⟨String.ofList (JsonText.write j), if_pos ?_, ?_⟩
    · exact List.all_eq_true.mpr (Json.isFinite_of_encodable j hj)
    · rw [String.toList_ofList]; exact JsonText.read_write hj
  encode_not_finite j d hd hf := by
    refine if_neg fun h => ?_
    rw [List.all_eq_true.mp h d hd] at hf
    exact Bool.noConfusion hf
  parse_iso d := by rw [String.toList_ofList]; exact readIso_isoChars d

namespace Convert

variable (C : Convert)

theorem encode_isSome {j : Json} (hj : j.Encodable) : ∃ s, C.jsonEncode j = some s := by
  obtain ⟨s, hs, -⟩ := C.decode_encode j hj
  exact ⟨s, hs⟩

theorem decode_of_encode {j : Json} (hj : j.Encodable) {s : String} (h : C.jsonEncode j = some s) :
    C.jsonDecode s = some j := by
  obtain ⟨s', hs, hd⟩ := C.decode_encode j hj
  rw [hs] at h
  exact Option.some.inj h ▸ hd

/-- Encodable trees with one text are equal. -/
theorem encode_inj {j j' : Json} (hj : j.Encodable) (hj' : j'.Encodable)
    (h : C.jsonEncode j = C.jsonEncode j') : j = j' := by
  obtain ⟨s, hs⟩ := C.encode_isSome hj
  have h₁ := C.decode_of_encode hj hs
  have h₂ := C.decode_of_encode hj' (h ▸ hs)
  rw [h₁] at h₂
  exact Option.some.inj h₂

end Convert

end KamuSinavi.Lib.Dart
