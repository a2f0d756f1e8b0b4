import Aniani.Query.FloatOps
import Mathlib.Data.List.DropRight
import Mathlib.Data.String.Basic

/-!
# Text

The functions on strings and the printing of attributes that the query languages share. A text that
is parsed is a list of characters. `trim` and `split_whitespace` go by the Unicode property
`White_Space`.

## Main definitions

* `Text.isWhitespace`, `Text.trimStart`, `Text.trim`, `splitWhitespace`, `splitOnce`, `strContains`
* `Alphanumeric` — the letters and digits of Unicode
* `JsonValue` — what `serde_json` parses to
* `attributeText` — an attribute value as text
-/

namespace Aniani

/-! ### Characters -/

namespace Text

/-- `char::is_whitespace`. -/
def isWhitespace (c : Char) : Bool :=
  decide (9 ≤ c.toNat ∧ c.toNat ≤ 13 ∨ 0x2000 ≤ c.toNat ∧ c.toNat ≤ 0x200A ∨
    c.toNat ∈ [0x20, 0x85, 0xA0, 0x1680, 0x2028, 0x2029, 0x202F, 0x205F, 0x3000])

/-- `str::trim_start`. -/
def trimStart (s : List Char) : List Char := s.dropWhile isWhitespace

/-- `str::trim_end`. -/
def trimEnd (s : List Char) : List Char := s.rdropWhile isWhitespace

/-- `str::trim`. -/
def trim (s : List Char) : List Char := trimEnd (trimStart s)

end Text

/-- `str::trim` of a string. -/
def strTrim (s : String) : String := String.ofList (Text.trim s.toList)

/-- `str::split_whitespace`. -/
def splitWhitespace (s : String) : List String :=
  ((s.toList.splitOnP Text.isWhitespace).filter fun part => !part.isEmpty).map String.ofList

/-- `str::split_once` at a character. -/
def splitOnce (c : Char) (s : String) : Option (String × String) :=
  match s.toList.dropWhile (· ≠ c) with
  | [] => none
  | _ :: rest => some (String.ofList (s.toList.takeWhile (· ≠ c)), String.ofList rest)

/-- `str::contains`. -/
def strContains (s pattern : String) : Bool := decide (pattern.toList <:+: s.toList)

/-- `char::is_alphanumeric`, by tables of which the ASCII part is known. -/
class Alphanumeric where
  isAlphanumeric : Char → Bool
  isAlphanumeric_of_ascii {c : Char} (h : c.toNat < 128) : isAlphanumeric c = c.isAlphanum

/-- Tables that know no other letters or digits. -/
abbrev Alphanumeric.ascii : Alphanumeric := ⟨Char.isAlphanum, fun _ => rfl⟩

/-! ### JSON -/

/-- `serde_json::Value`. An integer is kept as one, by its sign, and any other number is a `f64`; an
object is listed in the order it is walked in. -/
inductive JsonValue (F64 : Type) where
  | null
  | bool (b : Bool)
  | posInt (n : ℕ)
  | negInt (i : ℤ)
  | float (f : F64)
  | string (s : String)
  | array (values : List (JsonValue F64))
  | object (entries : List (String × JsonValue F64))

/-- What the `serde_json` crate does with a text. -/
structure JsonCrate (F64 : Type) where
  /-- `from_str`. -/
  fromStr : String → Option (JsonValue F64)
  /-- `Value::to_string`. -/
  display : JsonValue F64 → String

/-! ### Numbers -/

theorem toString_injective {m n : ℕ} (h : toString m = toString n) : m = n := by
  have hdigits : Nat.toDigits 10 m = Nat.toDigits 10 n := String.ofList_injective h
  rw [← Nat.ofDigitChars_ten_toDigits (n := m), hdigits, Nat.ofDigitChars_ten_toDigits]

theorem toString_ne_minus_append (n : ℕ) (s : String) : toString n ≠ "-" ++ s := by
  intro h
  have hlist : Nat.toDigits 10 n = '-' :: s.toList := by
    have htoList := congrArg String.toList h
    simpa using htoList
  have hdigit := Nat.isDigit_of_mem_toDigits (b := 10) (n := n) (c := '-') (by decide) (by decide)
    (hlist ▸ List.mem_cons_self)
  exact absurd hdigit (by decide)

/-- A number can be read off its text. -/
theorem intToString_injective {i j : ℤ} (h : toString i = toString j) : i = j := by
  rw [Int.toString_eq_repr, Int.toString_eq_repr, Int.repr_eq_if, Int.repr_eq_if] at h
  split_ifs at h with hi hj hj
  · have hnat := toString_injective h
    omega
  · exact absurd h (toString_ne_minus_append _ _)
  · exact absurd h.symm (toString_ne_minus_append _ _)
  · have hnat := toString_injective ((String.append_right_inj _).mp h)
    omega

/-! ### Attributes -/

section Attributes

variable {Rodeo Spur F64 : Type} [Interner Rodeo Spur] [Float64 F64] (interner : Rodeo)

/-- Bytes, each in two lowercase hexadecimal digits. -/
def hexText (bytes : List UInt8) : String :=
  String.ofList (bytes.flatMap fun b => [Nat.digitChar (b.toNat / 16), Nat.digitChar (b.toNat % 16)])

theorem digitChar_injective : ∀ m < 16, ∀ n < 16, Nat.digitChar m = Nat.digitChar n → m = n := by
  decide

/-- The digits of bytes tell the bytes. -/
theorem hexText_injective : Function.Injective hexText := by
  intro as bs h
  have hdigits := congrArg String.toList h
  rw [hexText, hexText, String.toList_ofList, String.toList_ofList] at hdigits
  clear h
  induction as generalizing bs with
  | nil =>
    cases bs with
    | nil => rfl
    | cons b bs => cases hdigits
  | cons a as ih =>
    cases bs with
    | nil => cases hdigits
    | cons b bs =>
      rw [List.flatMap_cons, List.flatMap_cons] at hdigits
      obtain ⟨hhigh, hdigits⟩ := List.cons.inj hdigits
      have hlow := (List.cons.inj hdigits).1
      have hsize (c : UInt8) : c.toNat / 16 < 16 := Nat.div_lt_of_lt_mul c.toNat_lt
      have hhigh := digitChar_injective _ (hsize a) _ (hsize b) hhigh
      have hlow := digitChar_injective _ (Nat.mod_lt _ (by omega)) _ (Nat.mod_lt _ (by omega)) hlow
      obtain rfl : a = b := UInt8.toNat_inj.mp (by omega)
      rw [ih (List.cons.inj hdigits).2]

mutual

/-- `resolve_attribute_value`, of any store. -/
def attributeText : AttributeValue Spur F64 → String
  | .string v => Interner.resolve interner v
  | .int i => toString i
  | .float f => Float64.display f
  | .bool b => toString b
  | .array items => "[" ++ ", ".intercalate (attributeTexts items) ++ "]"
  | .bytes b => "0x" ++ hexText b
  | .keyValueList pairs => "\x7b" ++ ", ".intercalate (pairTexts pairs) ++ "\x7d"

/-- The elements of an array. -/
def attributeTexts : List (AttributeValue Spur F64) → List String
  | [] => []
  | item :: items => attributeText item :: attributeTexts items

/-- The entries of a key-value list. -/
def pairTexts : List (Spur × AttributeValue Spur F64) → List String
  | [] => []
  | (k, v) :: pairs => (Interner.resolve interner k ++ "=" ++ attributeText v) :: pairTexts pairs

end

end Attributes

end Aniani
