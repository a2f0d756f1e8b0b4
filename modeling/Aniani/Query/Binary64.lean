import Aniani.ForMathlib.RoundEven
import Aniani.Query.Timestamps

/-!
# The arithmetic of `f64`

What the duration parsers compute with: a literal is read as the nearest `f64`, and an operation
gives the nearest one to its exact result. The exact value of an `f64` is a rational number, unless
it is infinite or `NaN`.

## Main definitions

* `decimal` — the number a literal stands for
* `Binary64` — the operations on `f64`, by their exact values
* `Double` — an implementation, to evaluate with

## Main results

* `Binary64.value_maxU64` — the greatest `u64` is rounded to `2 ^ 64`
-/

namespace Aniani

/-- The format of an `f64`. -/
def binary64 : BinaryFormat := ⟨53, -1074, 1024⟩

/-! ### Literals -/

/-- Digits with a decimal point among them or without one. -/
def significand (s : List Char) : Option ℚ :=
  let whole := s.takeWhile Char.isDigit
  match s.dropWhile Char.isDigit with
  | [] => (parseDigits whole).map fun n => (n : ℚ)
  | '.' :: fraction => (parseDigits (whole ++ fraction)).map fun n => n / 10 ^ fraction.length
  | _ => none

/-- The exponent of a literal, which may be left out. -/
def exponent : List Char → Option ℤ
  | [] => some 0
  | _ :: '-' :: digits => (parseDigits digits).map fun n => -(n : ℤ)
  | _ :: '+' :: digits => (parseDigits digits).map fun n => (n : ℤ)
  | _ :: digits => (parseDigits digits).map fun n => (n : ℤ)

/-- A literal without a sign. -/
def unsignedDecimal (s : List Char) : Option ℚ := do
  let value ← significand (s.takeWhile fun c => c != 'e' && c != 'E')
  let exp ← exponent (s.dropWhile fun c => c != 'e' && c != 'E')
  return value * 10 ^ exp

/-- The number a literal stands for, if it is of the form that `str::parse::<f64>` reads as a
number. -/
def decimal : List Char → Option ℚ
  | '-' :: s => (unsignedDecimal s).map fun q => -q
  | '+' :: s => unsignedDecimal s
  | s => unsignedDecimal s

/-- Digits are read as the whole number they stand for. -/
theorem decimal_of_parseDigits {s : List Char} {n : ℕ} (h : parseDigits s = some n) :
    decimal s = some (n : ℚ) := by
  have hdigits := all_isDigit_of_parseDigits h
  have hne : s ≠ [] := by
    rintro rfl
    exact absurd h (by simp [parseDigits])
  have hexponent : ∀ c ∈ s, (c != 'e' && c != 'E') = true := by
    intro c hc
    have hdigit := hdigits c hc
    by_contra hletter
    have hcases : c = 'e' ∨ c = 'E' := by
      by_contra hnot
      simp [not_or.mp hnot] at hletter
    obtain rfl | rfl := hcases <;> exact absurd hdigit (by decide)
  have hunsigned : unsignedDecimal s = some (n : ℚ) := by
    have hall : s.takeWhile Char.isDigit = s := List.takeWhile_eq_self_iff.mpr hdigits
    have hnil : s.dropWhile Char.isDigit = [] := List.dropWhile_eq_nil_iff.mpr hdigits
    rw [unsignedDecimal, List.takeWhile_eq_self_iff.mpr hexponent,
      List.dropWhile_eq_nil_iff.mpr hexponent, significand, hall, hnil, h]
    simp [exponent]
  obtain ⟨c, rest, rfl⟩ := List.exists_cons_of_ne_nil hne
  have hhead := hdigits c List.mem_cons_self
  rw [decimal]
  · exact hunsigned
  all_goals
    rintro rest heq
    obtain rfl := (List.cons.inj heq).1
    exact absurd hhead (by decide)

/-! ### Operations -/

/-- **The operations on `f64`**, by the exact value of a finite one. -/
class Binary64 (F64 : Type) [FloatOps F64] where
  /-- The exact value of a finite number. -/
  value : F64 → Option ℚ
  round_value : ∀ {a : F64} {x : ℚ}, value a = some x → binary64.round x = some x
  isFinite_eq : ∀ a : F64, FloatOps.isFinite a = (value a).isSome
  lt_eq : ∀ {a b : F64} {x y : ℚ}, value a = some x → value b = some y →
    FloatOps.lt a b = decide (x < y)
  value_zero : value (Float64.zero : F64) = some 0
  value_ofU64 : ∀ {n : ℕ}, n < 2 ^ 64 → value (Float64.ofU64 n : F64) = binary64.round n
  value_ofI64 : ∀ {i : ℤ}, i ∈ Set.Icc i64Min i64Max →
    value (Float64.ofI64 i : F64) = binary64.round i
  value_add : ∀ {a b : F64} {x y : ℚ}, value a = some x → value b = some y →
    value (FloatOps.add a b) = binary64.round (x + y)
  value_mul : ∀ {a b : F64} {x y : ℚ}, value a = some x → value b = some y →
    value (FloatOps.mul a b) = binary64.round (x * y)
  value_div : ∀ {a b : F64} {x y : ℚ}, value a = some x → value b = some y → y ≠ 0 →
    value (FloatOps.div a b) = binary64.round (x / y)
  /-- Neither infinity nor `NaN` becomes finite by a factor. -/
  value_mul_none : ∀ {a : F64} (b : F64), value a = none → value (FloatOps.mul a b) = none
  /-- Nor by a divisor that is finite. -/
  value_div_none : ∀ {a b : F64} {y : ℚ}, value a = none → value b = some y →
    value (FloatOps.div a b) = none
  /-- A literal is read as the nearest number, or as infinity. -/
  parse_decimal : ∀ {s : String} {x : ℚ}, decimal s.toList = some x →
    ∃ a : F64, FloatOps.parse s = some a ∧ value a = binary64.round x
  /-- What is read of other texts is not finite. -/
  parse_other : ∀ {s : String} {a : F64}, decimal s.toList = none → FloatOps.parse s = some a →
    value a = none
  /-- `Duration::from_secs_f64` panics unless the number is one of seconds that a `u64` counts; to
  the nanosecond, it is rounded to the nearest. -/
  fromSecsF64_eq : ∀ a : F64, FloatOps.fromSecsF64 a = (value a).bind fun x =>
    if 0 ≤ x ∧ x < 2 ^ 64 then some (roundEven (x * 10 ^ 9)).toNat else none

namespace Binary64

/-- A whole number of at most 53 bits is a `f64`. -/
theorem round_intCast {i : ℤ} (h : |i| ≤ 2 ^ 53) : binary64.round i = some (i : ℚ) := by
  refine BinaryFormat.round_of_represents (by decide) ⟨i, 0, by simp, h, by decide⟩ ?_
  have hcast : |(i : ℚ)| ≤ 2 ^ 53 := by exact_mod_cast h
  refine hcast.trans_lt ?_
  show (2 : ℚ) ^ 53 < 2 ^ (1024 : ℤ)
  exact zpow_lt_zpow_right₀ (by norm_num) (show (53 : ℤ) < 1024 by decide)

/-- What is rounded to `2 ^ 64`. -/
theorem round_eq_two_pow_64_iff {q : ℚ} :
    binary64.round q = some (2 ^ 64) ↔ 2 ^ 64 - 1024 ≤ q ∧ q ≤ 2 ^ 64 + 2048 := by
  have h := BinaryFormat.round_eq_some_two_zpow_iff (f := binary64) (q := q) (k := 11) (by decide)
    (by decide) (by decide)
  have hpow : (2 : ℚ) ^ ((11 : ℤ) + (binary64.precision : ℤ)) = 2 ^ 64 := by
    show (2 : ℚ) ^ ((64 : ℕ) : ℤ) = _
    rw [zpow_natCast]
  rw [hpow] at h
  rw [h]
  norm_num

variable {F64 : Type} [FloatOps F64] [Binary64 F64]

/-- The greatest `u64` is rounded to `2 ^ 64`. -/
theorem value_maxU64 : value (Float64.ofU64 (2 ^ 64 - 1) : F64) = some (2 ^ 64) := by
  rw [value_ofU64 (by norm_num), round_eq_two_pow_64_iff]
  norm_num

theorem value_ofI64_small {i : ℤ} (h : |i| ≤ 2 ^ 53) :
    value (Float64.ofI64 i : F64) = some (i : ℚ) := by
  rw [value_ofI64, round_intCast h]
  obtain ⟨hlo, hhi⟩ := abs_le.mp h
  exact ⟨(show i64Min ≤ -2 ^ 53 by decide).trans hlo, hhi.trans (by decide)⟩

theorem value_ofU64_small {n : ℕ} (h : n ≤ 2 ^ 53) :
    value (Float64.ofU64 n : F64) = some (n : ℚ) := by
  have hround := round_intCast (i := n) (by rw [Nat.abs_cast]; exact_mod_cast h)
  rw [value_ofU64 (by omega)]
  exact_mod_cast hround

end Binary64

/-! ### To evaluate with -/

/-- A number in binary64. The sign of zero is left out. -/
inductive Double where
  | finite (q : ℚ) (representable : binary64.round q = some q)
  | infinite (negative : Bool)
  | nan

namespace Double

/-- The nearest number. -/
def ofRat (q : ℚ) : Double :=
  match h : binary64.round q with
  | some v => finite v (BinaryFormat.round_of_round_eq_some (by decide) h)
  | none => infinite (decide (q < 0))

/-- The exact value of a finite number. -/
def value : Double → Option ℚ
  | finite q _ => some q
  | _ => none

theorem value_ofRat (q : ℚ) : (ofRat q).value = binary64.round q := by
  delta ofRat
  split
  · next h => exact h.symm
  · next h => exact h.symm

/-- The sign of a number. -/
def isNegative : Double → Bool
  | finite q _ => decide (q < 0)
  | infinite negative => negative
  | nan => false

/-- `+`. -/
def add : Double → Double → Double
  | finite x _, finite y _ => ofRat (x + y)
  | infinite s, infinite t => if s = t then infinite s else nan
  | infinite s, finite _ _ | finite _ _, infinite s => infinite s
  | nan, _ | _, nan => nan

/-- `-`, of one number. -/
def neg : Double → Double
  | finite x _ => ofRat (-x)
  | infinite s => infinite (!s)
  | nan => nan

/-- `*`. -/
def mul : Double → Double → Double
  | finite x _, finite y _ => ofRat (x * y)
  | infinite s, finite y _ | finite y _, infinite s =>
    if y = 0 then nan else infinite (xor s (decide (y < 0)))
  | infinite s, infinite t => infinite (xor s t)
  | nan, _ | _, nan => nan

/-- `/`. -/
def div : Double → Double → Double
  | finite x _, finite y _ =>
    if y = 0 then (if x = 0 then nan else infinite (decide (x < 0))) else ofRat (x / y)
  | infinite s, finite y _ => infinite (xor s (decide (y < 0)))
  | finite _ _, infinite _ => ofRat 0
  | _, _ => nan

/-- `<`. -/
def lt : Double → Double → Bool
  | finite x _, finite y _ => decide (x < y)
  | finite _ _, infinite s => !s
  | infinite s, finite _ _ => s
  | infinite s, infinite t => s && !t
  | _, _ => false

/-- `==`. -/
def beq (a b : Double) : Bool :=
  match a, b with
  | nan, _ | _, nan => false
  | a, b => !lt a b && !lt b a

/-- `f64 as i64`. -/
def toI64 : Double → Set.Icc i64Min i64Max
  | finite q _ => Set.projIcc i64Min i64Max i64Min_le_i64Max (if 0 ≤ q then ⌊q⌋ else ⌈q⌉)
  | infinite negative => Set.projIcc i64Min i64Max i64Min_le_i64Max (if negative then i64Min else i64Max)
  | nan => Set.projIcc i64Min i64Max i64Min_le_i64Max 0

/-- `f64 as usize`. -/
def toUsize : Double → ℕ
  | finite q _ => min ⌊q⌋.toNat (2 ^ 64 - 1)
  | infinite negative => if negative then 0 else 2 ^ 64 - 1
  | nan => 0

/-- `f64::ceil`. -/
def ceil : Double → Double
  | finite x _ => ofRat ⌈x⌉
  | a => a

/-- `f64::floor`. -/
def floor : Double → Double
  | finite x _ => ofRat ⌊x⌋
  | a => a

/-- The words that are read as infinity and `NaN`, in small letters or capitals. -/
def ofWord (negative : Bool) (word : List Char) : Option Double :=
  let word := String.ofList (word.map Char.toLower)
  if word = "nan" then some nan
  else if word = "inf" ∨ word = "infinity" then some (infinite negative)
  else none

/-- `str::parse::<f64>`. -/
def parse (s : String) : Option Double :=
  match decimal s.toList, s.toList with
  | some q, _ => some (ofRat q)
  | none, '-' :: word => ofWord true word
  | none, '+' :: word => ofWord false word
  | none, word => ofWord false word

/-- `Duration::from_secs_f64`. -/
def fromSecs (a : Double) : Option ℕ :=
  a.value.bind fun x => if 0 ≤ x ∧ x < 2 ^ 64 then some (roundEven (x * 10 ^ 9)).toNat else none

end Double

/-- The arithmetic that durations and their quantiles need; the functions of which nothing is
evaluated give `NaN`. -/
instance : FloatOps Double where
  zero := .ofRat 0
  ofU64 n := .ofRat n
  ofI64 i := .ofRat i
  display _ := "NaN"
  add := Double.add
  sub a b := a.add b.neg
  mul := Double.mul
  div := Double.div
  rem _ _ := .nan
  neg := Double.neg
  abs a := if a.isNegative then a.neg else a
  ceil := Double.ceil
  floor := Double.floor
  round _ := .nan
  sqrt _ := .nan
  exp _ := .nan
  ln _ := .nan
  log2 _ := .nan
  log10 _ := .nan
  powi _ _ := .nan
  powf _ _ := .nan
  min a b := if a.lt b then a else b
  max a b := if a.lt b then b else a
  sum l := l.foldl Double.add (.ofRat 0)
  eq := Double.beq
  lt := Double.lt
  le a b := a.lt b || a.beq b
  isNan a := match a with
    | .nan => true
    | _ => false
  isFinite a := a.value.isSome
  isInfinite a := match a with
    | .infinite _ => true
    | _ => false
  nan := .nan
  infinity := .infinite false
  negInfinity := .infinite true
  epsilon := .ofRat (2 ^ (-52 : ℤ))
  toUsize := Double.toUsize
  toI64 := Double.toI64
  fromSecsF64 := Double.fromSecs
  parse := Double.parse

namespace Double

theorem exists_of_value_eq_some {a : Double} {x : ℚ} (h : a.value = some x) :
    ∃ hx, a = finite x hx := by
  cases a with
  | finite q hq =>
    obtain rfl := Option.some.inj h
    exact ⟨hq, rfl⟩
  | infinite s => exact absurd h (by simp [value])
  | nan => exact absurd h (by simp [value])

instance : Binary64 Double where
  value := value
  round_value ha := by
    obtain ⟨hx, rfl⟩ := exists_of_value_eq_some ha
    exact hx
  isFinite_eq _ := rfl
  lt_eq ha hb := by
    obtain ⟨-, rfl⟩ := exists_of_value_eq_some ha
    obtain ⟨-, rfl⟩ := exists_of_value_eq_some hb
    rfl
  value_zero := by
    have hround := Binary64.round_intCast (i := 0) (by decide)
    rw [Int.cast_zero] at hround
    exact (value_ofRat 0).trans hround
  value_ofU64 _ := value_ofRat _
  value_ofI64 _ := value_ofRat _
  value_add ha hb := by
    obtain ⟨-, rfl⟩ := exists_of_value_eq_some ha
    obtain ⟨-, rfl⟩ := exists_of_value_eq_some hb
    exact value_ofRat _
  value_mul ha hb := by
    obtain ⟨-, rfl⟩ := exists_of_value_eq_some ha
    obtain ⟨-, rfl⟩ := exists_of_value_eq_some hb
    exact value_ofRat _
  value_div ha hb hy := by
    obtain ⟨-, rfl⟩ := exists_of_value_eq_some ha
    obtain ⟨-, rfl⟩ := exists_of_value_eq_some hb
    show (if _ = (0 : ℚ) then _ else _ : Double).value = _
    rw [if_neg hy]
    exact value_ofRat _
  value_mul_none {a} b h := by
    cases a with
    | finite x hx => exact absurd h (by simp [value])
    | nan => cases b <;> rfl
    | infinite s =>
      cases b with
      | finite y hy =>
        show (if y = 0 then nan else infinite _ : Double).value = none
        split <;> rfl
      | infinite t => rfl
      | nan => rfl
  value_div_none {a _ _} ha hb := by
    obtain ⟨-, rfl⟩ := exists_of_value_eq_some hb
    cases a with
    | finite x hx => exact absurd ha (by simp [value])
    | infinite s => rfl
    | nan => rfl
  parse_decimal h := by
    refine ⟨ofRat _, ?_, value_ofRat _⟩
    show Double.parse _ = _
    rw [Double.parse, h]
  parse_other {s a} hnone ha := by
    obtain ⟨negative, word, hword⟩ : ∃ negative word, ofWord negative word = some a := by
      have hparse : Double.parse s = some a := ha
      rw [Double.parse, hnone] at hparse
      split at hparse
      · next h => exact absurd h (by simp)
      all_goals exact ⟨_, _, hparse⟩
    rw [ofWord] at hword
    split_ifs at hword <;> exact Option.some.inj hword ▸ rfl
  fromSecsF64_eq _ := rfl

theorem beq_of_lt {a b : Double} (h : lt b a = true) : beq a b = false := by
  cases a <;> cases b <;> simp_all [lt, beq]

theorem zero_eq : ∃ h, (Float64.zero : Double) = .finite 0 h := by
  have hvalue : Binary64.value (Float64.zero : Double) = some 0 := Binary64.value_zero
  exact exists_of_value_eq_some hvalue

theorem ofRat_cases (q : ℚ) :
    (∃ h, ofRat q = .finite (binary64.nearest q) h) ∨ ofRat q = .infinite (decide (q < 0)) := by
  delta ofRat
  split
  · next v hround =>
    obtain ⟨rfl, _⟩ := BinaryFormat.round_eq_some_iff_nearest.mp hround
    exact .inl ⟨BinaryFormat.round_of_round_eq_some (by decide) hround, rfl⟩
  · exact .inr rfl

/-- A number that is not less than a power of two of the format is rounded to one that is
positive. -/
theorem zero_lt_ofRat {q : ℚ} {e : ℤ} (he : -1074 ≤ e) (h : 2 ^ e ≤ q) :
    lt Float64.zero (ofRat q) = true := by
  obtain ⟨_, hzero⟩ := zero_eq
  have hpos : (0 : ℚ) < 2 ^ e := zpow_pos (by norm_num) e
  rw [hzero]
  rcases ofRat_cases q with ⟨_, hq⟩ | hq
  · rw [hq]
    exact decide_eq_true
      (hpos.trans_le (BinaryFormat.two_zpow_le_nearest (f := binary64) (by decide) he h))
  · rw [hq, decide_eq_false (not_lt.mpr (hpos.le.trans h))]
    rfl

/-- A number equal to zero is zero. -/
theorem of_beq_zero {a : Double} (h : beq a Float64.zero = true) :
    ∃ hzero, a = .finite 0 hzero := by
  obtain ⟨_, hzero⟩ := zero_eq
  rw [hzero] at h
  cases a with
  | nan => exact absurd h (by simp [beq])
  | infinite s => cases s <;> exact absurd h (by simp [beq, lt])
  | finite x hx =>
    have hx0 : x = 0 := by
      simp only [beq, lt, Bool.and_eq_true, Bool.not_eq_true', decide_eq_false_iff_not,
        not_lt] at h
      exact le_antisymm h.2 h.1
    subst hx0
    exact ⟨hx, rfl⟩

end Double

end Aniani
