import Aniani.Query.FloatOrder

/-!
# Exact arithmetic, and division by zero

Two kinds of numbers to run the query engines with. The first are the rational numbers with the
infinities and `NaN`: nothing is rounded. The second are those of another kind, as long as nothing
has been divided by zero; after that there is no number left. What comes out a number was computed
without a division by zero.

## Main definitions

* `Exact` — rational numbers, infinities and `NaN`
* `Checked` — numbers that no division by zero has gone into
-/

namespace Aniani

/-! ### Rational numbers -/

/-- The values of a `f64`, and all the rational numbers between them. -/
inductive Exact where
  | finite (q : ℚ)
  | infinite (negative : Bool)
  | nan
  deriving DecidableEq

namespace Exact

/-- `+`. -/
def add : Exact → Exact → Exact
  | finite x, finite y => finite (x + y)
  | infinite s, infinite t => if s = t then infinite s else nan
  | infinite s, finite _ | finite _, infinite s => infinite s
  | nan, _ | _, nan => nan

/-- `-`, of one number. -/
def neg : Exact → Exact
  | finite x => finite (-x)
  | infinite s => infinite (!s)
  | nan => nan

/-- `*`. -/
def mul : Exact → Exact → Exact
  | finite x, finite y => finite (x * y)
  | infinite s, finite y | finite y, infinite s =>
    if y = 0 then nan else infinite (xor s (decide (y < 0)))
  | infinite s, infinite t => infinite (xor s t)
  | nan, _ | _, nan => nan

/-- `/`. -/
def div : Exact → Exact → Exact
  | finite x, finite y =>
    if y = 0 then (if x = 0 then nan else infinite (decide (x < 0))) else finite (x / y)
  | infinite s, finite y => infinite (xor s (decide (y < 0)))
  | finite _, infinite _ => finite 0
  | _, _ => nan

/-- `<`. -/
def lt : Exact → Exact → Bool
  | finite x, finite y => decide (x < y)
  | finite _, infinite s => !s
  | infinite s, finite _ => s
  | infinite s, infinite t => s && !t
  | _, _ => false

/-- `==`. -/
def beq (a b : Exact) : Bool :=
  match a, b with
  | nan, _ | _, nan => false
  | a, b => !lt a b && !lt b a

/-- A function of the rational numbers that leaves the others as they are. -/
def map (f : ℚ → ℚ) : Exact → Exact
  | finite q => finite (f q)
  | other => other

/-- The rational number, if it is one. -/
def toRat : Exact → ℚ
  | finite q => q
  | _ => 0

/-- `f64 as usize`; no index is too large for one. -/
def toUsize : Exact → ℕ
  | finite q => ⌊q⌋.toNat
  | infinite negative => if negative then 0 else 2 ^ 64 - 1
  | nan => 0

/-- `f64 as i64`. -/
def toI64 : Exact → Set.Icc i64Min i64Max
  | finite q => Set.projIcc i64Min i64Max i64Min_le_i64Max (if 0 ≤ q then ⌊q⌋ else ⌈q⌉)
  | infinite negative => Set.projIcc i64Min i64Max i64Min_le_i64Max (if negative then i64Min else i64Max)
  | nan => Set.projIcc i64Min i64Max i64Min_le_i64Max 0

end Exact

/-- The functions whose values need not be rational give `NaN`. -/
instance : FloatOps Exact where
  zero := .finite 0
  ofU64 n := .finite n
  ofI64 i := .finite i
  display _ := "NaN"
  add := Exact.add
  sub a b := a.add b.neg
  mul := Exact.mul
  div := Exact.div
  rem _ _ := .nan
  neg := Exact.neg
  abs := Exact.map fun q => |q|
  ceil := Exact.map fun q => (⌈q⌉ : ℤ)
  floor := Exact.map fun q => (⌊q⌋ : ℤ)
  round := Exact.map fun q => (round q : ℤ)
  sqrt _ := .nan
  exp _ := .nan
  ln _ := .nan
  log2 _ := .nan
  log10 _ := .nan
  powi a n := a.map fun q => q ^ n
  powf _ _ := .nan
  min a b := if a.lt b then a else b
  max a b := if a.lt b then b else a
  sum l := l.foldl Exact.add (.finite 0)
  eq := Exact.beq
  lt := Exact.lt
  le a b := a.lt b || a.beq b
  isNan a := match a with
    | .nan => true
    | _ => false
  isFinite a := match a with
    | .finite _ => true
    | _ => false
  isInfinite a := match a with
    | .infinite _ => true
    | _ => false
  nan := .nan
  infinity := .infinite false
  negInfinity := .infinite true
  epsilon := .finite (2 ^ (-52 : ℤ))
  toUsize := Exact.toUsize
  toI64 := Exact.toI64
  fromSecsF64 a := match a with
    | .finite q => if 0 ≤ q ∧ q < 2 ^ 64 then some (roundEven (q * 10 ^ 9)).toNat else none
    | _ => none
  parse s := match decimal s.toList with
    | some q => some (.finite q)
    | none => none

namespace Exact

open FloatOps

@[simp] theorem toRat_finite (q : ℚ) : toRat (finite q) = q := rfl

@[simp] theorem zero_eq : (Float64.zero : Exact) = finite 0 := rfl

@[simp] theorem one_eq : (FloatOps.one : Exact) = finite 1 := by
  rw [FloatOps.one]
  exact congrArg finite Int.cast_one

@[simp] theorem ofU64_eq (n : ℕ) : (Float64.ofU64 n : Exact) = finite n := rfl

@[simp] theorem ofI64_eq (i : ℤ) : (Float64.ofI64 i : Exact) = finite i := rfl

@[simp] theorem infinity_eq : (infinity : Exact) = infinite false := rfl

@[simp] theorem nan_eq : (FloatOps.nan : Exact) = nan := rfl

@[simp] theorem add_finite (x y : ℚ) : FloatOps.add (finite x) (finite y) = finite (x + y) := rfl

@[simp] theorem sub_finite (x y : ℚ) : FloatOps.sub (finite x) (finite y) = finite (x - y) :=
  congrArg finite (sub_eq_add_neg x y).symm

@[simp] theorem mul_finite (x y : ℚ) : FloatOps.mul (finite x) (finite y) = finite (x * y) := rfl

theorem div_finite (x : ℚ) {y : ℚ} (hy : y ≠ 0) :
    FloatOps.div (finite x) (finite y) = finite (x / y) := if_neg hy

@[simp] theorem floor_finite (x : ℚ) : FloatOps.floor (finite x) = finite (⌊x⌋ : ℤ) := rfl

@[simp] theorem ceil_finite (x : ℚ) : FloatOps.ceil (finite x) = finite (⌈x⌉ : ℤ) := rfl

@[simp] theorem toUsize_finite (x : ℚ) : FloatOps.toUsize (finite x) = ⌊x⌋.toNat := rfl

@[simp] theorem isNan_finite (x : ℚ) : isNan (finite x) = false := rfl

@[simp] theorem isInfinite_finite (x : ℚ) : isInfinite (finite x) = false := rfl

@[simp] theorem lt_finite (x y : ℚ) : FloatOps.lt (finite x) (finite y) = decide (x < y) := rfl

@[simp] theorem eq_finite (x y : ℚ) : FloatOps.eq (finite x) (finite y) = decide (x = y) := by
  show (!decide (x < y) && !decide (y < x)) = decide (x = y)
  rcases lt_trichotomy x y with h | rfl | h
  · simp [h, h.ne]
  · simp
  · simp [h, h.ne']

@[simp] theorem le_finite (x y : ℚ) : FloatOps.le (finite x) (finite y) = decide (x ≤ y) := by
  show (FloatOps.lt (finite x) (finite y) || FloatOps.eq (finite x) (finite y)) = _
  rw [lt_finite, eq_finite, Bool.eq_iff_iff]
  simp [le_iff_lt_or_eq]

end Exact

instance : FloatOps.ExtendedOrder Exact where
  place a := match a with
    | .finite q => ((q : ℚ) : WithTop ℚ)
    | .infinite true => ⊥
    | .infinite false => (⊤ : WithTop ℚ)
    | .nan => ⊥
  lt_eq_true_iff {a b} ha hb := by
    cases a with
    | nan => exact absurd ha (by simp [FloatOps.isNan])
    | finite x =>
      cases b with
      | nan => exact absurd hb (by simp [FloatOps.isNan])
      | finite y =>
        rw [WithBot.coe_lt_coe, WithTop.coe_lt_coe]
        exact decide_eq_true_iff
      | infinite t =>
        cases t with
        | true => simp [FloatOps.lt, Exact.lt]
        | false => exact iff_of_true rfl (WithBot.coe_lt_coe.mpr (WithTop.coe_lt_top x))
    | infinite s =>
      cases b with
      | nan => exact absurd hb (by simp [FloatOps.isNan])
      | finite y => cases s <;> simp [FloatOps.lt, Exact.lt]
      | infinite t => cases s <;> cases t <;> simp [FloatOps.lt, Exact.lt]

namespace Exact

open FloatOps

theorem eq_of_not_nan {a b : Exact} (ha : isNan a = false) (hb : isNan b = false) :
    FloatOps.eq a b = (!FloatOps.lt a b && !FloatOps.lt b a) := by
  cases a with
  | nan => exact absurd ha (by simp [isNan])
  | finite x => cases b <;> first | rfl | exact absurd hb (by simp [isNan])
  | infinite s => cases b <;> first | rfl | exact absurd hb (by simp [isNan])

/-- `<=` compares the places of numbers other than `NaN`. -/
theorem le_eq_true_iff {a b : Exact} : FloatOps.le a b = true ↔
    isNan a = false ∧ isNan b = false ∧ ExtendedOrder.place a ≤ ExtendedOrder.place b := by
  have hle : FloatOps.le a b = (FloatOps.lt a b || FloatOps.eq a b) := rfl
  cases ha : isNan a with
  | true =>
    cases a with
    | nan => simp [hle, FloatOps.lt, FloatOps.eq, Exact.lt, Exact.beq]
    | finite x => exact absurd ha (by simp)
    | infinite s => exact absurd ha (by simp [isNan])
  | false =>
    cases hb : isNan b with
    | true =>
      cases b with
      | nan => cases a <;> simp [hle, FloatOps.lt, FloatOps.eq, Exact.lt, Exact.beq]
      | finite x => exact absurd hb (by simp)
      | infinite s => exact absurd hb (by simp [isNan])
    | false =>
      rw [hle, eq_of_not_nan ha hb]
      simp only [true_and, Bool.or_eq_true, Bool.and_eq_true, Bool.not_eq_true',
        ← Bool.not_eq_true, ExtendedOrder.lt_eq_true_iff ha hb, ExtendedOrder.lt_eq_true_iff hb ha,
        not_lt]
      exact ⟨fun h => h.elim le_of_lt And.right,
        fun h => h.lt_or_eq.imp_right fun heq => ⟨heq.ge, heq.le⟩⟩

theorem le_trans {a b c : Exact} (hab : FloatOps.le a b = true) (hbc : FloatOps.le b c = true) :
    FloatOps.le a c = true := by
  rw [le_eq_true_iff] at *
  exact ⟨hab.1, hbc.2.1, hab.2.2.trans hbc.2.2⟩

theorem le_refl_left {a b : Exact} (h : FloatOps.le a b = true) : FloatOps.le a a = true := by
  rw [le_eq_true_iff] at h ⊢
  exact ⟨h.1, h.1, le_rfl⟩

theorem le_refl_right {a b : Exact} (h : FloatOps.le a b = true) : FloatOps.le b b = true := by
  rw [le_eq_true_iff] at h ⊢
  exact ⟨h.2.1, h.2.1, le_rfl⟩

end Exact

/-! ### Division by zero -/

/-- A number that no division by zero has gone into, if there is one. -/
def Checked (F64 : Type) : Type := Option F64

namespace Checked

variable {F64 : Type}

/-- A number from before the computation. -/
def lift (a : F64) : Checked F64 := some a

/-- An operation on two numbers. -/
def map₂ (f : F64 → F64 → F64) : Checked F64 → Checked F64 → Checked F64
  | some a, some b => some (f a b)
  | _, _ => none

/-- An operation on one number. -/
def map (f : F64 → F64) : Checked F64 → Checked F64
  | some a => some (f a)
  | none => none

/-- A test of a number, which without one fails. -/
def test (p : F64 → Bool) : Checked F64 → Bool
  | some a => p a
  | none => false

/-- A test of two numbers, which without them fails. -/
def test₂ (p : F64 → F64 → Bool) : Checked F64 → Checked F64 → Bool
  | some a, some b => p a b
  | _, _ => false

end Checked

section Checked

open Checked

variable {F64 : Type} [FloatOps F64]

instance : FloatOps (Checked F64) where
  zero := lift Float64.zero
  ofU64 n := lift (Float64.ofU64 n)
  ofI64 i := lift (Float64.ofI64 i)
  display a := match a with
    | some a => Float64.display a
    | none => "NaN"
  add := map₂ FloatOps.add
  sub := map₂ FloatOps.sub
  mul := map₂ FloatOps.mul
  div a b := match a, b with
    | some a, some b => if FloatOps.eq b Float64.zero then none else some (FloatOps.div a b)
    | _, _ => none
  rem := map₂ FloatOps.rem
  neg := map FloatOps.neg
  abs := map FloatOps.abs
  ceil := map FloatOps.ceil
  floor := map FloatOps.floor
  round := map FloatOps.round
  sqrt := map FloatOps.sqrt
  exp := map FloatOps.exp
  ln := map FloatOps.ln
  log2 := map FloatOps.log2
  log10 := map FloatOps.log10
  powi a n := map (FloatOps.powi · n) a
  powf := map₂ FloatOps.powf
  min := map₂ FloatOps.min
  max := map₂ FloatOps.max
  sum l := Option.map FloatOps.sum (l.mapM id)
  eq := test₂ FloatOps.eq
  lt := test₂ FloatOps.lt
  le := test₂ FloatOps.le
  isNan := test FloatOps.isNan
  isFinite := test FloatOps.isFinite
  isInfinite := test FloatOps.isInfinite
  nan := lift FloatOps.nan
  infinity := lift FloatOps.infinity
  negInfinity := lift FloatOps.negInfinity
  epsilon := lift FloatOps.epsilon
  toUsize a := match a with
    | some a => FloatOps.toUsize a
    | none => 0
  toI64 a := match a with
    | some a => FloatOps.toI64 a
    | none => Set.projIcc i64Min i64Max i64Min_le_i64Max 0
  fromSecsF64 a := match a with
    | some a => FloatOps.fromSecsF64 a
    | none => none
  parse s := Option.map lift (FloatOps.parse s)

namespace Checked

@[simp] theorem zero_eq : (Float64.zero : Checked F64) = lift Float64.zero := rfl

@[simp] theorem ofI64_eq (i : ℤ) : (Float64.ofI64 i : Checked F64) = lift (Float64.ofI64 i) := rfl

@[simp] theorem ofU64_eq (n : ℕ) : (Float64.ofU64 n : Checked F64) = lift (Float64.ofU64 n) := rfl

@[simp] theorem epsilon_eq : (FloatOps.epsilon : Checked F64) = lift FloatOps.epsilon := rfl

@[simp] theorem abs_lift (a : F64) : FloatOps.abs (lift a) = lift (FloatOps.abs a) := rfl

@[simp] theorem add_lift (a b : F64) : FloatOps.add (lift a) (lift b) = lift (FloatOps.add a b) := rfl

@[simp] theorem sub_lift (a b : F64) : FloatOps.sub (lift a) (lift b) = lift (FloatOps.sub a b) := rfl

@[simp] theorem mul_lift (a b : F64) : FloatOps.mul (lift a) (lift b) = lift (FloatOps.mul a b) := rfl

@[simp] theorem eq_lift (a b : F64) : FloatOps.eq (lift a) (lift b) = FloatOps.eq a b := rfl

@[simp] theorem lt_lift (a b : F64) : FloatOps.lt (lift a) (lift b) = FloatOps.lt a b := rfl

@[simp] theorem le_lift (a b : F64) : FloatOps.le (lift a) (lift b) = FloatOps.le a b := rfl

@[simp] theorem isInfinite_lift (a : F64) : FloatOps.isInfinite (lift a) = FloatOps.isInfinite a := rfl

/-- **A division** by a number that is not zero. -/
theorem div_lift (a : F64) {b : F64} (hb : FloatOps.eq b Float64.zero = false) :
    FloatOps.div (lift a) (lift b) = lift (FloatOps.div a b) :=
  if_neg (by rw [hb]; exact Bool.false_ne_true)

end Checked

end Checked

end Aniani
