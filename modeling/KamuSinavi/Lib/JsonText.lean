import KamuSinavi.Lib.Json
import Mathlib.Tactic.IntervalCases
import Mathlib.Tactic.NormNum

/-! # The compact text of a JSON tree

`write` gives the text of a tree without white space: strings with `"`, `\` and the control characters
escaped, an integral double with the fraction `.0`, any other rational as a fraction of integers.
`read` reads such a text back. `read_write`: reading what was written gives the tree, provided the
tree is encodable.

The reader takes fuel, one unit for each nested call; the length of the text is enough of it. -/

namespace KamuSinavi.Lib.JsonText

open KamuSinavi.Lib.Json

/-! ### Strings -/

/-- The character `"`. -/
def quote : Char := Char.ofNat 0x22

/-- The character `\`. -/
def backslash : Char := Char.ofNat 0x5c

/-- The hexadecimal digit of a number below 16. -/
def hexDigit (n : ℕ) : Char := if n < 10 then Char.ofNat (48 + n) else Char.ofNat (87 + n)

/-- The value of a hexadecimal digit. -/
def hexVal (c : Char) : ℕ := if c.toNat < 58 then c.toNat - 48 else c.toNat - 87

/-- One character of a string, escaped if it has to be. -/
def escape (c : Char) : List Char :=
  if c = quote then [backslash, quote]
  else if c = backslash then [backslash, backslash]
  else if c = Char.ofNat 8 then [backslash, 'b']
  else if c = Char.ofNat 9 then [backslash, 't']
  else if c = Char.ofNat 10 then [backslash, 'n']
  else if c = Char.ofNat 12 then [backslash, 'f']
  else if c = Char.ofNat 13 then [backslash, 'r']
  else if c.toNat < 32 then
    [backslash, 'u', '0', '0', hexDigit (c.toNat / 16), hexDigit (c.toNat % 16)]
  else [c]

/-- The character a letter after `\` stands for. -/
def unescape (c : Char) : Char :=
  if c = 'b' then Char.ofNat 8
  else if c = 't' then Char.ofNat 9
  else if c = 'n' then Char.ofNat 10
  else if c = 'f' then Char.ofNat 12
  else if c = 'r' then Char.ofNat 13
  else c

/-- The characters up to the closing `"`, and what follows it. -/
def readChars : List Char → Option (List Char × List Char)
  | [] => none
  | c :: r =>
    if c = quote then some ([], r)
    else if c = backslash then
      match r with
      | [] => none
      | e :: r =>
        if e = 'u' then
          match r with
          | d₃ :: d₂ :: d₁ :: d₀ :: r =>
            (readChars r).map fun p => (Char.ofNat
              (4096 * hexVal d₃ + 256 * hexVal d₂ + 16 * hexVal d₁ + hexVal d₀) :: p.1, p.2)
          | _ => none
        else (readChars r).map fun p => (unescape e :: p.1, p.2)
    else (readChars r).map fun p => (c :: p.1, p.2)

/-- The text of a string, with its closing `"` and without the opening one. -/
def writeChars (cs : List Char) : List Char := cs.flatMap escape ++ [quote]

theorem readChars_quote (r : List Char) : readChars (quote :: r) = some ([], r) := by
  rw [readChars.eq_def]; exact if_pos rfl

theorem readChars_plain {c : Char} (hq : c ≠ quote) (hb : c ≠ backslash) (r : List Char) :
    readChars (c :: r) = (readChars r).map fun p => (c :: p.1, p.2) := by
  rw [readChars.eq_def]; simp only [if_neg hq, if_neg hb]

theorem readChars_letter {e : Char} (he : e ≠ 'u') (r : List Char) :
    readChars (backslash :: e :: r) = (readChars r).map fun p => (unescape e :: p.1, p.2) := by
  rw [readChars.eq_def]
  simp only [if_neg (show backslash ≠ quote by decide), if_true, if_neg he]

theorem readChars_hex (d₃ d₂ d₁ d₀ : Char) (r : List Char) :
    readChars (backslash :: 'u' :: d₃ :: d₂ :: d₁ :: d₀ :: r) =
      (readChars r).map fun p => (Char.ofNat
        (4096 * hexVal d₃ + 256 * hexVal d₂ + 16 * hexVal d₁ + hexVal d₀) :: p.1, p.2) := by
  rw [readChars.eq_def]
  simp only [if_neg (show backslash ≠ quote by decide), if_true]

theorem control_char : ∀ n < 32,
    4096 * hexVal '0' + 256 * hexVal '0' + 16 * hexVal (hexDigit (n / 16)) +
      hexVal (hexDigit (n % 16)) = n := by
  decide

theorem readChars_escape (c : Char) (r : List Char) :
    readChars (escape c ++ r) = (readChars r).map fun p => (c :: p.1, p.2) := by
  unfold escape
  split_ifs with h₁ h₂ h₃ h₄ h₅ h₆ h₇ h₈
  · subst h₁; exact readChars_letter (by decide) r
  · subst h₂; exact readChars_letter (by decide) r
  · subst h₃; exact readChars_letter (by decide) r
  · subst h₄; exact readChars_letter (by decide) r
  · subst h₅; exact readChars_letter (by decide) r
  · subst h₆; exact readChars_letter (by decide) r
  · subst h₇; exact readChars_letter (by decide) r
  · have key := readChars_hex '0' '0' (hexDigit (c.toNat / 16)) (hexDigit (c.toNat % 16)) r
    rwa [control_char c.toNat h₈, Char.ofNat_toNat] at key
  · exact readChars_plain h₁ h₂ r

/-- **Strings read back.** -/
theorem readChars_writeChars (cs r : List Char) :
    readChars (writeChars cs ++ r) = some (cs, r) := by
  induction cs with
  | nil => exact readChars_quote r
  | cons c cs ih =>
    have : writeChars (c :: cs) ++ r = escape c ++ (writeChars cs ++ r) := by simp [writeChars]
    rw [this, readChars_escape, ih]; rfl

/-! ### Numbers -/

/-- What may follow a number: no digit and none of the signs that continue one. -/
def Stop (r : List Char) : Prop := ∀ c ∈ r.head?, c.isDigit = false ∧ c ≠ '.' ∧ c ≠ '/'

theorem stop_nil : Stop [] := by simp [Stop]

theorem stop_cons {c : Char} {r : List Char} (h : c = ',' ∨ c = ']' ∨ c = '}') : Stop (c :: r) := by
  intro c' hc'
  obtain rfl : c = c' := by simpa using hc'
  rcases h with rfl | rfl | rfl <;> decide

/-- The digits in front, as a number. -/
def readNat (cs : List Char) : Option (ℕ × List Char) :=
  if cs.takeWhile Char.isDigit = [] then none
  else some (Nat.ofDigitChars 10 (cs.takeWhile Char.isDigit) 0, cs.dropWhile Char.isDigit)

theorem readNat_toDigits (n : ℕ) {r : List Char} (hr : ∀ c ∈ r.head?, c.isDigit = false) :
    readNat (Nat.toDigits 10 n ++ r) = some (n, r) := by
  have hd : ∀ c ∈ Nat.toDigits 10 n, c.isDigit = true := fun c hc =>
    Nat.isDigit_of_mem_toDigits (by norm_num) (by norm_num) hc
  have ht : r.takeWhile Char.isDigit = [] := by
    rcases r with _ | ⟨c, r⟩
    · rfl
    · rw [List.takeWhile_cons, hr c rfl]; rfl
  have hdr : r.dropWhile Char.isDigit = r := by
    rcases r with _ | ⟨c, r⟩
    · rfl
    · rw [List.dropWhile_cons, hr c rfl]; rfl
  unfold readNat
  rw [List.takeWhile_append_of_pos hd, List.dropWhile_append_of_pos hd, ht, hdr, List.append_nil,
    if_neg Nat.toDigits_ne_nil, Nat.ofDigitChars_ten_toDigits]

/-- The text of an integer. -/
def writeInt (z : ℤ) : List Char :=
  if z < 0 then '-' :: Nat.toDigits 10 z.natAbs else Nat.toDigits 10 z.natAbs

/-- An integer in front of a text. -/
def readInt : List Char → Option (ℤ × List Char)
  | [] => none
  | c :: r =>
    if c = '-' then (readNat r).map fun p => (-(p.1 : ℤ), p.2)
    else (readNat (c :: r)).map fun p => ((p.1 : ℤ), p.2)

theorem readInt_writeInt (z : ℤ) {r : List Char} (hr : ∀ c ∈ r.head?, c.isDigit = false) :
    readInt (writeInt z ++ r) = some (z, r) := by
  unfold writeInt
  split_ifs with h
  · rw [List.cons_append, readInt, if_pos rfl, readNat_toDigits _ hr]
    simp only [Option.map_some, Option.some.injEq, Prod.mk.injEq, and_true]
    omega
  · have hz : (z.natAbs : ℤ) = z := by omega
    obtain ⟨c, ds, hds⟩ := List.exists_cons_of_ne_nil (Nat.toDigits_ne_nil (n := z.natAbs) (b := 10))
    have hc : c ≠ '-' := by
      have : c.isDigit = true := Nat.isDigit_of_mem_toDigits (b := 10) (n := z.natAbs)
        (by norm_num) (by norm_num) (by rw [hds]; simp)
      rintro rfl
      exact absurd this (by decide)
    have key := readNat_toDigits z.natAbs hr
    rw [hds] at key ⊢
    rw [List.cons_append] at key ⊢
    rw [readInt, if_neg hc, key]
    simp [hz]

/-- The text of a finite double. -/
def writeDouble : Double → List Char
  | .finite q =>
    if q.den = 1 then writeInt q.num ++ ['.', '0'] else writeInt q.num ++ '/' :: Nat.toDigits 10 q.den
  | _ => []

/-- A number in front of a text: an integer, or a double if a fraction follows. -/
def readNumber (cs : List Char) : Option (Json × List Char) :=
  match readInt cs with
  | none => none
  | some (z, r) => match r with
    | [] => some (.int z, [])
    | c :: r' =>
      if c = '.' then (readNat r').map fun p => (.double (.finite z), p.2)
      else if c = '/' then (readNat r').map fun p => (.double (.finite (mkRat z p.1)), p.2)
      else some (.int z, c :: r')

theorem readNumber_int (z : ℤ) {r : List Char} (hr : Stop r) :
    readNumber (writeInt z ++ r) = some (.int z, r) := by
  unfold readNumber
  rw [readInt_writeInt z fun c hc => (hr c hc).1]
  rcases r with _ | ⟨c, r⟩
  · rfl
  · obtain ⟨-, hdot, hslash⟩ := hr c rfl
    simp only [if_neg hdot, if_neg hslash]

theorem readNumber_double (q : ℚ) {r : List Char} (hr : Stop r) :
    readNumber (writeDouble (.finite q) ++ r) = some (.double (.finite q), r) := by
  have hdig : ∀ c ∈ r.head?, c.isDigit = false := fun c hc => (hr c hc).1
  simp only [writeDouble, readNumber]
  split_ifs with h
  · rw [List.append_assoc, readInt_writeInt q.num (by simp)]
    have h0 : readNat ('0' :: r) = some (0, r) := readNat_toDigits 0 hdig
    have hq : (q.num : ℚ) = q := Rat.coe_int_num_of_den_eq_one h
    simp only [List.cons_append, List.nil_append, if_true, h0, Option.map_some, hq]
  · rw [List.append_assoc, List.cons_append, readInt_writeInt q.num (by simp)]
    simp only [readNat_toDigits q.den hdig, Option.map_some, Rat.mkRat_self]
    rw [if_neg (by decide), if_pos trivial]

/-! ### Values -/

/-- The comma between two items, none before the first one. -/
def comma (first : Bool) : List Char := if first then [] else [',']

mutual
/-- **The text of a tree.** -/
def write : Json → List Char
  | .null => ['n', 'u', 'l', 'l']
  | .bool true => ['t', 'r', 'u', 'e']
  | .bool false => ['f', 'a', 'l', 's', 'e']
  | .int z => writeInt z
  | .double d => writeDouble d
  | .str s => quote :: writeChars s.toList
  | .arr js => '[' :: writeItems true js
  | .obj fs => '{' :: writeFields true fs

/-- The items of an array and the closing bracket. -/
def writeItems : Bool → List Json → List Char
  | _, [] => [']']
  | first, j :: js => comma first ++ (write j ++ writeItems false js)

/-- The fields of an object and the closing brace. -/
def writeFields : Bool → List (String × Json) → List Char
  | _, [] => ['}']
  | first, (k, j) :: fs =>
    comma first ++ (quote :: (writeChars k.toList ++ ':' :: (write j ++ writeFields false fs)))
end

/-- What follows `p` in a text that starts with it. -/
def expect (p cs : List Char) : Option (List Char) :=
  if p.isPrefixOf cs then some (cs.drop p.length) else none

mutual
/-- **A value in front of a text**, and what follows it. -/
def readValue : ℕ → List Char → Option (Json × List Char)
  | 0, _ => none
  | _ + 1, [] => none
  | n + 1, c :: r =>
    if c = 'n' then (expect ['u', 'l', 'l'] r).map fun r => (.null, r)
    else if c = 't' then (expect ['r', 'u', 'e'] r).map fun r => (.bool true, r)
    else if c = 'f' then (expect ['a', 'l', 's', 'e'] r).map fun r => (.bool false, r)
    else if c = quote then (readChars r).map fun p => (.str (String.ofList p.1), p.2)
    else if c = '[' then (readItems n true r).map fun p => (.arr p.1, p.2)
    else if c = '{' then (readFields n true r).map fun p => (.obj p.1, p.2)
    else readNumber (c :: r)

/-- The items up to the closing bracket. -/
def readItems : ℕ → Bool → List Char → Option (List Json × List Char)
  | 0, _, _ => none
  | n + 1, first, cs =>
    match expect [']'] cs with
    | some r => some ([], r)
    | none => (expect (comma first) cs).bind fun r =>
      (readValue n r).bind fun p =>
        (readItems n false p.2).map fun q => (p.1 :: q.1, q.2)

/-- The fields up to the closing brace. -/
def readFields : ℕ → Bool → List Char → Option (List (String × Json) × List Char)
  | 0, _, _ => none
  | n + 1, first, cs =>
    match expect ['}'] cs with
    | some r => some ([], r)
    | none => (expect (comma first ++ [quote]) cs).bind fun r =>
      (readChars r).bind fun k =>
        (expect [':'] k.2).bind fun r =>
          (readValue n r).bind fun p =>
            (readFields n false p.2).map fun q => ((String.ofList k.1, p.1) :: q.1, q.2)
end

/-! ### Reading what was written -/

theorem expect_append (p cs : List Char) : expect p (p ++ cs) = some cs := by
  rw [expect, if_pos (List.isPrefixOf_iff_prefix.mpr (List.prefix_append p cs)), List.drop_left]

theorem expect_cons_of_ne {p c : Char} (h : p ≠ c) (ps cs : List Char) :
    expect (p :: ps) (c :: cs) = none := by
  simp [expect, h]

theorem writeInt_head (z : ℤ) : ∃ c r, writeInt z = c :: r ∧ (c = '-' ∨ c.isDigit = true) := by
  obtain ⟨c, ds, hds⟩ := List.exists_cons_of_ne_nil (Nat.toDigits_ne_nil (n := z.natAbs) (b := 10))
  unfold writeInt
  split_ifs with h
  · exact ⟨'-', _, rfl, Or.inl rfl⟩
  · exact ⟨c, ds, hds, Or.inr (Nat.isDigit_of_mem_toDigits (b := 10) (n := z.natAbs)
      (by norm_num) (by norm_num) (by rw [hds]; simp))⟩

theorem writeDouble_head (q : ℚ) :
    ∃ c r, writeDouble (.finite q) = c :: r ∧ (c = '-' ∨ c.isDigit = true) := by
  obtain ⟨c, r, h, hc⟩ := writeInt_head q.num
  simp only [writeDouble, h]
  split_ifs
  · exact ⟨c, _, rfl, hc⟩
  · exact ⟨c, _, rfl, hc⟩

/-- The characters a value that is no number starts with. -/
theorem ne_of_number {c : Char} (h : c = '-' ∨ c.isDigit = true) :
    c ≠ 'n' ∧ c ≠ 't' ∧ c ≠ 'f' ∧ c ≠ quote ∧ c ≠ '[' ∧ c ≠ '{' ∧ c ≠ ']' := by
  refine ⟨?_, ?_, ?_, ?_, ?_, ?_, ?_⟩ <;>
    · rintro rfl
      exact absurd h (by decide)

theorem readValue_number {c : Char} (h : c = '-' ∨ c.isDigit = true) (n : ℕ) (r : List Char) :
    readValue (n + 1) (c :: r) = readNumber (c :: r) := by
  obtain ⟨h₁, h₂, h₃, h₄, h₅, h₆, -⟩ := ne_of_number h
  rw [readValue, if_neg h₁, if_neg h₂, if_neg h₃, if_neg h₄, if_neg h₅, if_neg h₆]

/-- No value starts with a closing bracket. -/
theorem write_head : ∀ j : Json, j.Encodable → ∃ c r, write j = c :: r ∧ c ≠ ']'
  | .null, _ => ⟨_, _, by rw [write], by decide⟩
  | .bool true, _ => ⟨_, _, by rw [write], by decide⟩
  | .bool false, _ => ⟨_, _, by rw [write], by decide⟩
  | .int z, _ => by
    obtain ⟨c, r, h, hc⟩ := writeInt_head z
    exact ⟨c, r, by rw [write, h], (ne_of_number hc).2.2.2.2.2.2⟩
  | .double (.finite q), _ => by
    obtain ⟨c, r, h, hc⟩ := writeDouble_head q
    exact ⟨c, r, by rw [write, h], (ne_of_number hc).2.2.2.2.2.2⟩
  | .double .nan, h => by simp [Json.Encodable, Double.isFinite] at h
  | .double .infinity, h => by simp [Json.Encodable, Double.isFinite] at h
  | .str _, _ => ⟨_, _, by rw [write], by decide⟩
  | .arr _, _ => ⟨_, _, by rw [write], by decide⟩
  | .obj _, _ => ⟨_, _, by rw [write], by decide⟩

theorem stop_writeItems (js : List Json) (r : List Char) : Stop (writeItems false js ++ r) := by
  rcases js with _ | ⟨j, js⟩
  · rw [writeItems]; exact stop_cons (by simp)
  · rw [writeItems]; exact stop_cons (by simp)

theorem stop_writeFields (fs : List (String × Json)) (r : List Char) :
    Stop (writeFields false fs ++ r) := by
  rcases fs with _ | ⟨⟨k, j⟩, fs⟩
  · rw [writeFields]; exact stop_cons (by simp)
  · rw [writeFields]; exact stop_cons (by simp)

mutual
/-- **A value is read back**, with fuel for each of its characters. -/
theorem readValue_write : ∀ (j : Json) (n : ℕ) (r : List Char), j.Encodable →
    (write j).length ≤ n → Stop r → readValue n (write j ++ r) = some (j, r)
  | .null, 0, r, _, hn, _ => by simp [write] at hn
  | .null, n + 1, r, _, _, _ => by
    simp only [write, List.cons_append, List.nil_append, readValue, if_true]
    rw [show 'u' :: 'l' :: 'l' :: r = ['u', 'l', 'l'] ++ r from rfl, expect_append]; rfl
  | .bool true, 0, r, _, hn, _ => by simp [write] at hn
  | .bool true, n + 1, r, _, _, _ => by
    simp only [write, List.cons_append, List.nil_append, readValue, if_true]
    rw [if_neg (by decide),
      show 'r' :: 'u' :: 'e' :: r = ['r', 'u', 'e'] ++ r from rfl, expect_append]; rfl
  | .bool false, 0, r, _, hn, _ => by simp [write] at hn
  | .bool false, n + 1, r, _, _, _ => by
    simp only [write, List.cons_append, List.nil_append, readValue, if_true]
    rw [if_neg (by decide), if_neg (by decide),
      show 'a' :: 'l' :: 's' :: 'e' :: r = ['a', 'l', 's', 'e'] ++ r from rfl, expect_append]; rfl
  | .int z, n, r, _, hn, hr => by
    obtain ⟨c, t, h, hc⟩ := writeInt_head z
    have key := readNumber_int z hr
    rw [write, h] at hn ⊢
    rw [h] at key
    obtain ⟨m, rfl⟩ : ∃ m, n = m + 1 := ⟨n - 1, by simp at hn; omega⟩
    rw [List.cons_append, readValue_number hc]; exact key
  | .double (.finite q), n, r, _, hn, hr => by
    obtain ⟨c, t, h, hc⟩ := writeDouble_head q
    have key := readNumber_double q hr
    rw [write, h] at hn ⊢
    rw [h] at key
    obtain ⟨m, rfl⟩ : ∃ m, n = m + 1 := ⟨n - 1, by simp at hn; omega⟩
    rw [List.cons_append, readValue_number hc]; exact key
  | .double .nan, _, _, h, _, _ => by simp [Json.Encodable, Double.isFinite] at h
  | .double .infinity, _, _, h, _, _ => by simp [Json.Encodable, Double.isFinite] at h
  | .str s, 0, r, _, hn, _ => by simp [write] at hn
  | .str s, n + 1, r, _, _, _ => by
    simp only [write, List.cons_append, readValue, if_true]
    rw [if_neg (by decide), if_neg (by decide), if_neg (by decide), readChars_writeChars]
    simp
  | .arr js, 0, r, _, hn, _ => by simp [write] at hn
  | .arr js, n + 1, r, he, hn, _ => by
    rw [Json.Encodable] at he
    rw [write, List.length_cons] at hn
    simp only [write, List.cons_append, readValue, if_true]
    rw [if_neg (by decide), if_neg (by decide), if_neg (by decide), if_neg (by decide),
      readItems_writeItems js n true r he (by omega)]
    rfl
  | .obj fs, 0, r, _, hn, _ => by simp [write] at hn
  | .obj fs, n + 1, r, he, hn, _ => by
    rw [Json.Encodable] at he
    rw [write, List.length_cons] at hn
    simp only [write, List.cons_append, readValue, if_true]
    rw [if_neg (by decide), if_neg (by decide), if_neg (by decide), if_neg (by decide),
      if_neg (by decide), readFields_writeFields fs n true r he.2 (by omega)]
    rfl

theorem readItems_writeItems : ∀ (js : List Json) (n : ℕ) (first : Bool) (r : List Char),
    EncodableItems js → (writeItems first js).length ≤ n →
      readItems n first (writeItems first js ++ r) = some (js, r)
  | [], 0, first, r, _, hn => by simp [writeItems] at hn
  | [], n + 1, first, r, _, _ => by
    rw [writeItems, readItems, expect_append]
  | j :: js, 0, first, r, he, hn => by
    obtain ⟨c, t, hw, -⟩ := write_head j he.1
    simp [writeItems, hw] at hn
  | j :: js, n + 1, first, r, he, hn => by
    obtain ⟨c, t, hw, hc⟩ := write_head j he.1
    rw [writeItems] at hn ⊢
    simp only [List.length_append] at hn
    have hlen : 1 ≤ (write j).length := by rw [hw]; simp
    have hlen' : 1 ≤ (writeItems false js).length := by
      rcases js with _ | ⟨_, _⟩ <;> simp [writeItems, comma]
    have hclose : expect [']'] (comma first ++ (write j ++ writeItems false js) ++ r) = none := by
      cases first
      · exact expect_cons_of_ne (by decide) _ _
      · rw [hw]; exact expect_cons_of_ne (fun e => hc e.symm) _ _
    rw [readItems, hclose, List.append_assoc]
    simp only
    rw [expect_append, Option.bind_some, List.append_assoc,
      readValue_write j n _ he.1 (by omega) (stop_writeItems js r), Option.bind_some,
      readItems_writeItems js n false r he.2 (by omega)]
    rfl

theorem readFields_writeFields : ∀ (fs : List (String × Json)) (n : ℕ) (first : Bool)
    (r : List Char), EncodableFields fs → (writeFields first fs).length ≤ n →
      readFields n first (writeFields first fs ++ r) = some (fs, r)
  | [], 0, first, r, _, hn => by simp [writeFields] at hn
  | [], n + 1, first, r, _, _ => by
    rw [writeFields, readFields, expect_append]
  | (k, j) :: fs, 0, first, r, he, hn => by simp [writeFields] at hn
  | (k, j) :: fs, n + 1, first, r, he, hn => by
    rw [writeFields] at hn ⊢
    simp only [List.length_append, List.length_cons] at hn
    have hclose : expect ['}'] (comma first ++ (quote :: (writeChars k.toList ++ ':' ::
        (write j ++ writeFields false fs))) ++ r) = none := by
      cases first
      · exact expect_cons_of_ne (by decide) _ _
      · exact expect_cons_of_ne (by decide) _ _
    have hopen : comma first ++ (quote :: (writeChars k.toList ++ ':' ::
        (write j ++ writeFields false fs))) ++ r = (comma first ++ [quote]) ++
          (writeChars k.toList ++ ([':'] ++ (write j ++ (writeFields false fs ++ r)))) := by simp
    rw [readFields, hclose, hopen]
    simp only
    rw [expect_append, Option.bind_some, readChars_writeChars, Option.bind_some, expect_append,
      Option.bind_some, readValue_write j n _ he.1 (by omega) (stop_writeFields fs r),
      Option.bind_some, readFields_writeFields fs n false r he.2 (by omega)]
    simp
end

/-- The tree a whole text stands for. -/
def read (cs : List Char) : Option Json :=
  match readValue cs.length cs with
  | some (j, []) => some j
  | _ => none

/-- **Reading what was written gives the tree.** -/
theorem read_write {j : Json} (hj : j.Encodable) : read (write j) = some j := by
  have h := readValue_write j (write j).length [] hj le_rfl stop_nil
  rw [List.append_nil] at h
  rw [read, h]

end KamuSinavi.Lib.JsonText
