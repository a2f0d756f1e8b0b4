import Aniani.Ingest.Otlp
import Mathlib.Data.Int.Sqrt
import Mathlib.Data.List.Sort
import Mathlib.Order.Interval.Set.ProjIcc

/-!
# Arithmetic on samples

The operations on `f64` that the query engines call. They are a class without laws: whatever is
said about a query holds for any choice of them, rounding and `NaN` included.

## Main definitions

* `FloatOps` — the operations
* `FloatOps.sorted` — `sort_by` with `partial_cmp`
-/

namespace Aniani

/-- What the query engines do with a `f64`. -/
class FloatOps (F64 : Type) extends Float64 F64 where
  add : F64 → F64 → F64
  sub : F64 → F64 → F64
  mul : F64 → F64 → F64
  div : F64 → F64 → F64
  /-- `%`. -/
  rem : F64 → F64 → F64
  neg : F64 → F64
  abs : F64 → F64
  ceil : F64 → F64
  floor : F64 → F64
  round : F64 → F64
  sqrt : F64 → F64
  exp : F64 → F64
  ln : F64 → F64
  log2 : F64 → F64
  log10 : F64 → F64
  powi : F64 → ℤ → F64
  powf : F64 → F64 → F64
  /-- `f64::min`. -/
  min : F64 → F64 → F64
  /-- `f64::max`. -/
  max : F64 → F64 → F64
  /-- `Iterator::sum`. -/
  sum : List F64 → F64
  /-- `==`. -/
  eq : F64 → F64 → Bool
  /-- `<`. -/
  lt : F64 → F64 → Bool
  /-- `<=`. -/
  le : F64 → F64 → Bool
  isNan : F64 → Bool
  isFinite : F64 → Bool
  isInfinite : F64 → Bool
  /-- `f64::NAN`. -/
  nan : F64
  /-- `f64::INFINITY`. -/
  infinity : F64
  /-- `f64::NEG_INFINITY`. -/
  negInfinity : F64
  /-- `f64::EPSILON`. -/
  epsilon : F64
  /-- `f64 as usize`. -/
  toUsize : F64 → ℕ
  /-- `f64 as i64`. -/
  toI64 : F64 → Set.Icc i64Min i64Max
  /-- `Duration::from_secs_f64` in nanoseconds, nothing where it panics. -/
  fromSecsF64 : F64 → Option ℕ
  /-- `str::parse::<f64>`. -/
  parse : String → Option F64

namespace FloatOps

variable {F64 α : Type} [FloatOps F64]

/-- `1.0`. -/
def one : F64 := Float64.ofI64 1

/-- `sort_by` with `partial_cmp` of a key, where numbers that do not compare count as equal. -/
def sortedBy (key : α → F64) (l : List α) : List α :=
  l.insertionSort fun a b => lt (key b) (key a) = false

/-- `sort_by` with `partial_cmp`. -/
def sorted (values : List F64) : List F64 := sortedBy id values

/-- `sort_by` with `partial_cmp` of a key, the greatest first. -/
def sortedByDesc (key : α → F64) (l : List α) : List α :=
  l.insertionSort fun a b => lt (key a) (key b) = false

end FloatOps

/-- The whole numbers among the `f64`s, to evaluate with. A result that is no whole number is cut to
one, or is zero; infinity is the first power of two too large for a `f64`, and two numbers less than
epsilon apart are equal. -/
instance : FloatOps ℤ where
  add a b := a + b
  sub a b := a - b
  mul a b := a * b
  div a b := a.tdiv b
  rem a b := a.tmod b
  neg a := -a
  abs a := |a|
  ceil a := a
  floor a := a
  round a := a
  sqrt a := Int.sqrt a
  exp _ := 0
  ln _ := 0
  log2 _ := 0
  log10 _ := 0
  powi a n := a ^ n.toNat
  powf a b := a ^ b.toNat
  min a b := if a ≤ b then a else b
  max a b := if a ≤ b then b else a
  sum := List.sum
  eq a b := a == b
  lt a b := decide (a < b)
  le a b := decide (a ≤ b)
  isNan _ := false
  isFinite a := decide (|a| < 2 ^ 1024)
  isInfinite a := a == 2 ^ 1024
  nan := 0
  infinity := 2 ^ 1024
  negInfinity := -2 ^ 1024
  epsilon := 1
  toUsize a := a.toNat
  toI64 := Set.projIcc i64Min i64Max i64Min_le_i64Max
  fromSecsF64 a := if 0 ≤ a ∧ a < 2 ^ 64 then some (a.toNat * 1000000000) else none
  parse s := s.toInt?

end Aniani
