import Mathlib.Algebra.Order.Floor.Ring
import Mathlib.Data.Int.ConditionallyCompleteOrder
import Mathlib.Data.Int.Log
import Mathlib.Data.Rat.Floor
import Mathlib.Tactic.FieldSimp
import Mathlib.Tactic.Linarith
import Mathlib.Tactic.NormNum
import Mathlib.Tactic.Positivity
import Mathlib.Tactic.Ring

/-!
# Rounding to the nearest number of a binary format

A number is rounded to the nearest one of a format, and to the one with an even significand if there
are two. The numbers of a format are the multiples of a power of two that depends on their size: a
significand of `precision` bits, times a power that is not less than `2 ^ minExp`. A number that is
rounded to `2 ^ maxExp` or more overflows.

## Main definitions

* `roundEven` — the nearest integer
* `BinaryFormat.round` — the nearest number of a format

## Main results

* `BinaryFormat.round_intCast_mul` — a number of the format is its own nearest
* `BinaryFormat.round_eq_some_iff` — the numbers that are rounded to one between two powers of two
* `BinaryFormat.round_eq_some_two_zpow_iff` — the numbers that are rounded to a power of two
-/

/-! ### Integers -/

/-- The nearest integer, the even one if there are two. -/
def roundEven (q : ℚ) : ℤ :=
  if (⌊q + 1 / 2⌋ : ℚ) = q + 1 / 2 ∧ ¬ Even ⌊q + 1 / 2⌋ then ⌊q + 1 / 2⌋ - 1 else ⌊q + 1 / 2⌋

/-- The numbers that are rounded to an integer: those within one half of it, and if it is even those
one half away. -/
theorem roundEven_eq_iff {q : ℚ} {m : ℤ} :
    roundEven q = m ↔ (m - 1 / 2 < q ∧ q < m + 1 / 2) ∨
      (Even m ∧ m - 1 / 2 ≤ q ∧ q ≤ m + 1 / 2) := by
  have hlo := Int.floor_le (q + 1 / 2)
  have hhi := Int.lt_floor_add_one (q + 1 / 2)
  rw [roundEven]
  split_ifs with htie
  · obtain ⟨heq, hodd⟩ := htie
    have heven : Even (⌊q + 1 / 2⌋ - 1) := (Int.not_even_iff_odd.mp hodd).sub_odd odd_one
    constructor
    · rintro rfl
      refine Or.inr ⟨heven, ?_, ?_⟩ <;> push_cast <;> linarith
    · rintro (⟨hlt, hgt⟩ | ⟨hm, hle, hge⟩)
      · have h1 : (m : ℚ) < ⌊q + 1 / 2⌋ := by linarith
        have h2 : (⌊q + 1 / 2⌋ : ℚ) < m + 1 := by linarith
        norm_cast at h1 h2
        omega
      · have h1 : (m : ℚ) ≤ ⌊q + 1 / 2⌋ := by linarith
        have h2 : (⌊q + 1 / 2⌋ : ℚ) ≤ m + 1 := by linarith
        norm_cast at h1 h2
        have h3 : ⌊q + 1 / 2⌋ ≠ m := by
          rintro rfl
          exact hodd hm
        omega
  · constructor
    · rintro rfl
      by_cases heq : (⌊q + 1 / 2⌋ : ℚ) = q + 1 / 2
      · refine Or.inr ⟨not_not.mp fun hodd => htie ⟨heq, hodd⟩, ?_, ?_⟩ <;> linarith
      · have hlt := lt_of_le_of_ne hlo heq
        refine Or.inl ⟨?_, ?_⟩ <;> linarith
    · rintro (⟨hlt, hgt⟩ | ⟨hm, hle, hge⟩)
      · have h1 : (m : ℚ) < ⌊q + 1 / 2⌋ + 1 := by linarith
        have h2 : (⌊q + 1 / 2⌋ : ℚ) < m + 1 := by linarith
        norm_cast at h1 h2
        omega
      · have h1 : (m : ℚ) < ⌊q + 1 / 2⌋ + 1 := by linarith
        have h2 : (⌊q + 1 / 2⌋ : ℚ) ≤ m + 1 := by linarith
        norm_cast at h1 h2
        have h3 : ⌊q + 1 / 2⌋ ≠ m + 1 := by
          intro h
          have heq : (⌊q + 1 / 2⌋ : ℚ) = q + 1 / 2 := by
            have hcast : ((⌊q + 1 / 2⌋ : ℤ) : ℚ) = m + 1 := by rw [h]; push_cast; ring
            linarith
          refine htie ⟨heq, ?_⟩
          rw [h]
          exact Int.not_even_iff_odd.mpr hm.add_one
        omega

/-- A rounded number is off by at most one half. -/
theorem roundEven_bounds (q : ℚ) : roundEven q - 1 / 2 ≤ q ∧ q ≤ roundEven q + 1 / 2 := by
  obtain ⟨hlt, hgt⟩ | ⟨-, h⟩ := roundEven_eq_iff.mp (rfl : roundEven q = _)
  · exact ⟨hlt.le, hgt.le⟩
  · exact h

theorem roundEven_intCast (m : ℤ) : roundEven (m : ℚ) = m :=
  roundEven_eq_iff.mpr (Or.inl ⟨by linarith, by linarith⟩)

theorem le_roundEven {m : ℤ} {q : ℚ} (h : (m : ℚ) ≤ q) : m ≤ roundEven q := by
  have hhi := (roundEven_bounds q).2
  have hlt : (m : ℚ) < roundEven q + 1 := by linarith
  norm_cast at hlt
  omega

theorem roundEven_le {m : ℤ} {q : ℚ} (h : q ≤ m) : roundEven q ≤ m := by
  have hlo := (roundEven_bounds q).1
  have hlt : (roundEven q : ℚ) < m + 1 := by linarith
  norm_cast at hlt
  omega

theorem roundEven_neg (q : ℚ) : roundEven (-q) = -roundEven q := by
  refine roundEven_eq_iff.mpr ?_
  obtain ⟨hlt, hgt⟩ | ⟨heven, hle, hge⟩ := roundEven_eq_iff.mp (rfl : roundEven q = _)
  · refine Or.inl ⟨?_, ?_⟩ <;> push_cast <;> linarith
  · refine Or.inr ⟨heven.neg, ?_, ?_⟩ <;> push_cast <;> linarith

/-! ### Powers of two -/

private theorem two_zpow_pos (e : ℤ) : (0 : ℚ) < 2 ^ e := zpow_pos (by norm_num) e

private theorem two_zpow_add (a b : ℤ) : (2 : ℚ) ^ (a + b) = 2 ^ a * 2 ^ b :=
  zpow_add₀ (by norm_num) a b

private theorem two_zpow_le {a b : ℤ} (h : a ≤ b) : (2 : ℚ) ^ a ≤ 2 ^ b :=
  zpow_le_zpow_right₀ (by norm_num) h

private theorem lt_of_two_zpow_lt {a b : ℤ} (h : (2 : ℚ) ^ a < 2 ^ b) : a < b :=
  (zpow_lt_zpow_iff_right₀ (by norm_num)).mp h

private theorem two_zpow_add_one (k : ℤ) : (2 : ℚ) ^ (k + 1) = 2 * 2 ^ k := by
  rw [two_zpow_add, zpow_one, mul_comm]

private theorem two_zpow_sub_one (k : ℤ) : (2 : ℚ) ^ (k - 1) = 2 ^ k / 2 := by
  rw [sub_eq_add_neg, two_zpow_add, zpow_neg_one]
  rfl

private theorem two_zpow_add_nat (k : ℤ) (n : ℕ) :
    (2 : ℚ) ^ (k + n) = ((2 ^ n : ℤ) : ℚ) * 2 ^ k := by
  rw [two_zpow_add, zpow_natCast, mul_comm]
  push_cast
  rfl

/-- The power of two that a number is at or above. -/
theorem Int.log_two_eq_iff {q : ℚ} (hq : 0 < q) {e : ℤ} :
    Int.log 2 q = e ↔ 2 ^ e ≤ q ∧ q < 2 ^ (e + 1) := by
  have hle := Int.zpow_le_iff_le_log (R := ℚ) (b := 2) (by norm_num) (x := e) hq
  have hlt := Int.lt_zpow_iff_log_lt (R := ℚ) (b := 2) (by norm_num) (x := e + 1) hq
  push_cast at hle hlt
  rw [hle, hlt]
  omega

/-! ### Formats -/

/-- A format of binary numbers. -/
structure BinaryFormat where
  /-- The bits of a significand. -/
  precision : ℕ
  /-- The least exponent of a significand that is a whole number. -/
  minExp : ℤ
  /-- The exponent of the least power of two that is too large. -/
  maxExp : ℤ

namespace BinaryFormat

variable (f : BinaryFormat)

/-- The exponent of the last bit of the numbers as large as this one. -/
def lastBit (q : ℚ) : ℤ := max (Int.log 2 |q| + 1 - f.precision) f.minExp

/-- The nearest number, without a limit on its size. -/
def nearest (q : ℚ) : ℚ := roundEven (q / 2 ^ f.lastBit q) * 2 ^ f.lastBit q

/-- The nearest number of the format, nothing where it is too large. -/
def round (q : ℚ) : Option ℚ :=
  if |f.nearest q| < 2 ^ f.maxExp then some (f.nearest q) else none

variable {f}

theorem round_eq_some_iff_nearest {q v : ℚ} :
    f.round q = some v ↔ f.nearest q = v ∧ |v| < 2 ^ f.maxExp := by
  rw [round]
  constructor
  · intro h
    split_ifs at h with hlt
    obtain rfl := Option.some.inj h
    exact ⟨rfl, hlt⟩
  · rintro ⟨rfl, hlt⟩
    exact if_pos hlt

/-- With the exponent of the last bit known, the number is rounded to a multiple of it. -/
theorem nearest_eq_iff {q : ℚ} {k m : ℤ} (hk : f.lastBit q = k) :
    f.nearest q = m * 2 ^ k ↔ roundEven (q / 2 ^ k) = m := by
  rw [nearest, hk, mul_left_inj' (two_zpow_pos k).ne', Int.cast_inj]

theorem lastBit_of_mem {q : ℚ} {e : ℤ} (hlo : 2 ^ e ≤ q) (hhi : q < 2 ^ (e + 1)) :
    f.lastBit q = max (e + 1 - f.precision) f.minExp := by
  have hq : 0 < q := (two_zpow_pos e).trans_le hlo
  rw [lastBit, abs_of_pos hq, (Int.log_two_eq_iff hq).mpr ⟨hlo, hhi⟩]

theorem nearest_neg (q : ℚ) : f.nearest (-q) = -f.nearest q := by
  have hbit : f.lastBit (-q) = f.lastBit q := by rw [lastBit, lastBit, abs_neg]
  rw [nearest, nearest, hbit, neg_div, roundEven_neg, Int.cast_neg, neg_mul]

theorem nearest_zero : f.nearest 0 = 0 := by
  have hround : roundEven 0 = 0 := by exact_mod_cast roundEven_intCast 0
  rw [nearest, zero_div, hround, Int.cast_zero, zero_mul]

/-- **A number between two powers of two is rounded to one between them.** -/
theorem nearest_mem_Icc {q : ℚ} {e : ℤ} (he : f.minExp ≤ e) (hp : 0 < f.precision) (hlo : 2 ^ e ≤ q)
    (hhi : q < 2 ^ (e + 1)) : 2 ^ e ≤ f.nearest q ∧ f.nearest q ≤ 2 ^ (e + 1) := by
  have hbit := lastBit_of_mem (f := f) hlo hhi
  set k := f.lastBit q with hk
  have hke : k ≤ e := by omega
  have hpow : ∀ {b : ℤ}, k ≤ b → (2 : ℚ) ^ b = ((2 ^ (b - k).toNat : ℤ) : ℚ) * 2 ^ k := by
    intro b hb
    rw [← two_zpow_add_nat, Int.toNat_of_nonneg (by omega), add_sub_cancel]
  rw [nearest, ← hk, hpow hke, hpow (b := e + 1) (by omega)]
  rw [hpow hke, ← le_div_iff₀ (two_zpow_pos k)] at hlo
  rw [hpow (b := e + 1) (by omega), ← div_lt_iff₀ (two_zpow_pos k)] at hhi
  constructor
  · exact mul_le_mul_of_nonneg_right (Int.cast_le.mpr (le_roundEven hlo)) (two_zpow_pos k).le
  · exact mul_le_mul_of_nonneg_right (Int.cast_le.mpr (roundEven_le hhi.le)) (two_zpow_pos k).le

theorem nearest_nonpos {q : ℚ} (hq : q ≤ 0) : f.nearest q ≤ 0 := by
  have hdiv : q / 2 ^ f.lastBit q ≤ ((0 : ℤ) : ℚ) := by
    rw [Int.cast_zero]
    exact div_nonpos_of_nonpos_of_nonneg hq (two_zpow_pos _).le
  exact mul_nonpos_of_nonpos_of_nonneg (Int.cast_nonpos.mpr (roundEven_le hdiv)) (two_zpow_pos _).le

theorem nearest_nonneg {q : ℚ} (hq : 0 ≤ q) : 0 ≤ f.nearest q := by
  have h := nearest_nonpos (f := f) (neg_nonpos.mpr hq)
  rwa [nearest_neg, neg_nonpos] at h

/-- A number is rounded by at most half of its last bit. -/
theorem abs_nearest_sub_le (q : ℚ) : |f.nearest q - q| ≤ 2 ^ f.lastBit q / 2 := by
  set k := f.lastBit q with hk
  obtain ⟨hlo, hhi⟩ := roundEven_bounds (q / 2 ^ k)
  have hq : q / 2 ^ k * 2 ^ k = q := div_mul_cancel₀ q (two_zpow_pos k).ne'
  have hlo' := mul_le_mul_of_nonneg_right hlo (two_zpow_pos k).le
  have hhi' := mul_le_mul_of_nonneg_right hhi (two_zpow_pos k).le
  rw [hq] at hlo' hhi'
  rw [nearest, ← hk, abs_le]
  constructor <;> linarith

/-- The last bit of a number that is less than a power of two. -/
theorem lastBit_le {q : ℚ} {e : ℤ} (hq : q ≠ 0) (h : |q| < 2 ^ e)
    (he : f.minExp ≤ e - f.precision) : f.lastBit q ≤ e - f.precision := by
  have hlog := (Int.lt_zpow_iff_log_lt (R := ℚ) (b := 2) (by norm_num) (abs_pos.mpr hq)).mp
    (by exact_mod_cast h)
  exact max_le (by omega) he

/-- **The error of rounding**, for a number that is less than a power of two. -/
theorem abs_nearest_sub_le_of_lt {q : ℚ} {e : ℤ} (h : |q| < 2 ^ e)
    (he : f.minExp ≤ e - f.precision) : |f.nearest q - q| ≤ 2 ^ (e - f.precision) / 2 := by
  rcases eq_or_ne q 0 with rfl | hq
  · rw [nearest_zero, sub_zero, abs_zero]
    exact div_nonneg (two_zpow_pos _).le zero_le_two
  · refine (abs_nearest_sub_le q).trans ?_
    exact div_le_div_of_nonneg_right (two_zpow_le (lastBit_le hq h he)) zero_le_two

/-- The significand of a rounded number has at most one bit more than the format has. -/
theorem abs_roundEven_le (q : ℚ) : |roundEven (q / 2 ^ f.lastBit q)| ≤ 2 ^ f.precision := by
  set k := f.lastBit q with hk
  have hlt : |q| < 2 ^ (k + f.precision) := by
    have hlog := Int.lt_zpow_succ_log_self (R := ℚ) (b := 2) (by norm_num) |q|
    push_cast at hlog
    refine hlog.trans_le (two_zpow_le ?_)
    have : Int.log 2 |q| + 1 - f.precision ≤ k := le_max_left _ _
    omega
  have habs : |q / 2 ^ k| = |q| / 2 ^ k := by rw [abs_div, abs_of_pos (two_zpow_pos k)]
  rw [two_zpow_add_nat, ← div_lt_iff₀ (two_zpow_pos k), ← habs] at hlt
  obtain ⟨hlo, hhi⟩ := abs_lt.mp hlt
  refine abs_le.mpr ⟨le_roundEven ?_, roundEven_le hhi.le⟩
  rw [Int.cast_neg]
  exact hlo.le

/-! ### The numbers of the format -/

variable (f) in
/-- The numbers of a format, but for the limit on their size. -/
def Represents (v : ℚ) : Prop :=
  ∃ m k : ℤ, v = m * 2 ^ k ∧ |m| ≤ 2 ^ f.precision ∧ f.minExp ≤ k

theorem represents_nearest (q : ℚ) : f.Represents (f.nearest q) :=
  ⟨_, f.lastBit q, rfl, abs_roundEven_le q, le_max_right _ _⟩

/-- A multiple of its last bit is not rounded. -/
theorem nearest_of_lastBit_le {m k : ℤ} (h : f.lastBit (m * 2 ^ k) ≤ k) :
    f.nearest (m * 2 ^ k) = m * 2 ^ k := by
  set j := f.lastBit (m * 2 ^ k) with hj
  have hpow : (2 : ℚ) ^ k = ((2 ^ (k - j).toNat : ℤ) : ℚ) * 2 ^ j := by
    rw [← two_zpow_add_nat, Int.toNat_of_nonneg (by omega), add_sub_cancel]
  have hquotient : (m * 2 ^ k : ℚ) / 2 ^ j = ((m * 2 ^ (k - j).toNat : ℤ) : ℚ) := by
    rw [hpow, ← mul_assoc, mul_div_cancel_right₀ _ (two_zpow_pos j).ne', Int.cast_mul]
  rw [nearest, ← hj, hquotient, roundEven_intCast, Int.cast_mul, mul_assoc, ← hpow]

/-- **A number of the format is its own nearest.** -/
theorem nearest_of_represents {v : ℚ} (hp : 0 < f.precision) (h : f.Represents v) :
    f.nearest v = v := by
  obtain ⟨m, k, rfl, hm, hk⟩ := h
  -- a significand of one bit more is a power of two, and half of it with the next exponent
  have hsmall : ∀ {m k : ℤ}, |m| < 2 ^ f.precision → f.minExp ≤ k →
      f.nearest (m * 2 ^ k) = m * 2 ^ k := by
    intro m k hm hk
    rcases eq_or_ne m 0 with rfl | hne
    · rw [Int.cast_zero, zero_mul, nearest_zero]
    refine nearest_of_lastBit_le (max_le ?_ hk)
    have habs : |(m * 2 ^ k : ℚ)| < 2 ^ (k + f.precision) := by
      rw [two_zpow_add_nat, abs_mul, abs_of_pos (two_zpow_pos k), ← Int.cast_abs]
      exact mul_lt_mul_of_pos_right (Int.cast_lt.mpr hm) (two_zpow_pos k)
    have hpos : 0 < |(m * 2 ^ k : ℚ)| :=
      abs_pos.mpr (mul_ne_zero (Int.cast_ne_zero.mpr hne) (two_zpow_pos k).ne')
    have hlog := Int.lt_zpow_iff_log_lt (R := ℚ) (b := 2) (by norm_num) (x := k + f.precision) hpos
    push_cast at hlog
    have := hlog.mp habs
    omega
  rcases lt_or_eq_of_le hm with hlt | heq
  · exact hsmall hlt hk
  obtain ⟨p, hpsucc⟩ := Nat.exists_eq_succ_of_ne_zero hp.ne'
  have hdouble : ∃ n : ℤ, m = 2 * n ∧ |n| < 2 ^ f.precision := by
    rw [hpsucc, pow_succ] at heq ⊢
    have hpos : (0 : ℤ) < 2 ^ p := by positivity
    rcases abs_choice m with h | h
    · exact ⟨2 ^ p, by omega, by rw [abs_of_pos hpos]; omega⟩
    · exact ⟨-2 ^ p, by omega, by rw [abs_neg, abs_of_pos hpos]; omega⟩
  obtain ⟨n, rfl, hn⟩ := hdouble
  have hshift : ((2 * n : ℤ) : ℚ) * 2 ^ k = n * 2 ^ (k + 1) := by
    rw [two_zpow_add, zpow_one]
    push_cast
    ring
  rw [hshift]
  exact hsmall hn (by omega)

/-- A number of the format that is not too large is not rounded. -/
theorem round_of_represents {v : ℚ} (hp : 0 < f.precision) (h : f.Represents v)
    (hmax : |v| < 2 ^ f.maxExp) : f.round v = some v :=
  round_eq_some_iff_nearest.mpr ⟨nearest_of_represents hp h, hmax⟩

/-- Rounding twice is rounding once. -/
theorem round_of_round_eq_some {q v : ℚ} (hp : 0 < f.precision) (h : f.round q = some v) :
    f.round v = some v := by
  obtain ⟨rfl, hmax⟩ := round_eq_some_iff_nearest.mp h
  exact round_of_represents hp (represents_nearest q) hmax

/-! ### What is rounded to a number -/

/-- Rounding does not cross a power of two. -/
theorem nearest_le_two_zpow {q : ℚ} {e : ℤ} (hp : 0 < f.precision) (he : f.minExp ≤ e)
    (h : q < 2 ^ e) : f.nearest q ≤ 2 ^ e := by
  rcases le_or_gt q 0 with hneg | hq
  · exact (nearest_nonpos hneg).trans (two_zpow_pos e).le
  obtain ⟨hlo, hhi⟩ := (Int.log_two_eq_iff hq).mp rfl
  have hlog := lt_of_two_zpow_lt (hlo.trans_lt h)
  rcases le_or_gt f.minExp (Int.log 2 q) with hnormal | hsub
  · exact (nearest_mem_Icc hnormal hp hlo hhi).2.trans (two_zpow_le (by omega))
  · have hbit : f.lastBit q = f.minExp := by
      rw [lastBit_of_mem hlo hhi]
      omega
    have hquotient : q / 2 ^ f.minExp ≤ ((1 : ℤ) : ℚ) := by
      rw [div_le_iff₀ (two_zpow_pos _), Int.cast_one, one_mul]
      exact hhi.le.trans (two_zpow_le (by omega))
    rw [nearest, hbit]
    calc (roundEven (q / 2 ^ f.minExp) : ℚ) * 2 ^ f.minExp
        ≤ ((1 : ℤ) : ℚ) * 2 ^ f.minExp :=
          mul_le_mul_of_nonneg_right (Int.cast_le.mpr (roundEven_le hquotient)) (two_zpow_pos _).le
      _ ≤ 2 ^ e := by
          rw [Int.cast_one, one_mul]
          exact two_zpow_le he

theorem two_zpow_le_nearest {q : ℚ} {e : ℤ} (hp : 0 < f.precision) (he : f.minExp ≤ e)
    (h : 2 ^ e ≤ q) : 2 ^ e ≤ f.nearest q := by
  have hq : 0 < q := (two_zpow_pos e).trans_le h
  obtain ⟨hlo, hhi⟩ := (Int.log_two_eq_iff hq).mp rfl
  have hlog : e ≤ Int.log 2 q := Int.lt_add_one_iff.mp (lt_of_two_zpow_lt (h.trans_lt hhi))
  exact (two_zpow_le hlog).trans (nearest_mem_Icc (he.trans hlog) hp hlo hhi).1

theorem pos_of_nearest_pos {q : ℚ} (h : 0 < f.nearest q) : 0 < q := by
  by_contra hq
  exact absurd (nearest_nonpos (f := f) (not_lt.mp hq)) (not_le.mpr h)

/-- The last bit of a number that is rounded to one between two powers of two. -/
theorem lastBit_of_nearest_eq {q : ℚ} {m k : ℤ} (hp : 0 < f.precision)
    (hlo : 2 ^ f.precision < 2 * m) (hhi : m < 2 ^ f.precision) (hk : f.minExp ≤ k)
    (h : f.nearest q = m * 2 ^ k) : f.lastBit q = k := by
  have hm : 0 < m := by
    have : (0 : ℤ) < 2 ^ f.precision := by positivity
    omega
  have hq : 0 < q := pos_of_nearest_pos (f := f)
    (h ▸ mul_pos (Int.cast_pos.mpr hm) (two_zpow_pos k))
  obtain ⟨hqlo, hqhi⟩ := (Int.log_two_eq_iff hq).mp rfl
  have hbit := lastBit_of_mem (f := f) hqlo hqhi
  set e := Int.log 2 q
  -- it is not before the last bit of the rounded number, which has too many bits for that
  have hle : k ≤ f.lastBit q := by
    have hnearest : f.nearest q ≤ 2 ^ (f.lastBit q + f.precision) := by
      rw [two_zpow_add_nat]
      exact mul_le_mul_of_nonneg_right
        (Int.cast_le.mpr (abs_le.mp (abs_roundEven_le q)).2) (two_zpow_pos _).le
    have hlarge : (2 : ℚ) ^ (k + f.precision) < 2 ^ (f.lastBit q + f.precision + 1) := by
      rw [two_zpow_add_nat, two_zpow_add _ 1, zpow_one]
      have hcast : ((2 ^ f.precision : ℤ) : ℚ) < 2 * m := by exact_mod_cast hlo
      have := mul_lt_mul_of_pos_right hcast (two_zpow_pos k)
      rw [h] at hnearest
      linarith
    have := lt_of_two_zpow_lt hlarge
    omega
  -- nor after it, which would make the rounded number at least the next power of two
  have hge : f.lastBit q ≤ k := by
    rw [hbit]
    refine max_le ?_ hk
    by_contra hlt
    have hmem := nearest_mem_Icc (f := f) (by omega) hp hqlo hqhi
    have hsmall : (2 : ℚ) ^ e < 2 ^ (k + f.precision) := by
      refine hmem.1.trans_lt ?_
      rw [h, two_zpow_add_nat]
      exact mul_lt_mul_of_pos_right (Int.cast_lt.mpr hhi) (two_zpow_pos k)
    have := lt_of_two_zpow_lt hsmall
    omega
  omega

/-- **The numbers that are rounded to one between two powers of two**: those whose significand
is. -/
theorem round_eq_some_iff {q : ℚ} {m k : ℤ} (hp : 0 < f.precision)
    (hlo : 2 ^ f.precision < 2 * m) (hhi : m < 2 ^ f.precision) (hk : f.minExp ≤ k)
    (hmax : k + f.precision ≤ f.maxExp) :
    f.round q = some ((m : ℚ) * 2 ^ k) ↔ roundEven (q / 2 ^ k) = m := by
  have hpow : (0 : ℤ) < 2 ^ f.precision := by positivity
  rw [round_eq_some_iff_nearest]
  constructor
  · rintro ⟨h, -⟩
    exact (nearest_eq_iff (lastBit_of_nearest_eq hp hlo hhi hk h)).mp h
  · intro h
    obtain ⟨hmin, hmaj⟩ := roundEven_bounds (q / 2 ^ k)
    rw [h] at hmin hmaj
    have hqlo : (2 : ℚ) ^ (k + f.precision - 1) ≤ q := by
      rw [two_zpow_sub_one, two_zpow_add_nat, mul_div_right_comm, ← le_div_iff₀ (two_zpow_pos k)]
      have hcast : ((2 ^ f.precision : ℤ) : ℚ) + 1 ≤ 2 * m := by exact_mod_cast hlo
      linarith
    have hqhi : q < (2 : ℚ) ^ (k + f.precision) := by
      rw [two_zpow_add_nat, ← div_lt_iff₀ (two_zpow_pos k)]
      have hcast : (m : ℚ) + 1 ≤ ((2 ^ f.precision : ℤ) : ℚ) := by exact_mod_cast hhi
      linarith
    have hbit : f.lastBit q = k := by
      rw [lastBit_of_mem hqlo (by rwa [sub_add_cancel])]
      omega
    refine ⟨(nearest_eq_iff hbit).mpr h, ?_⟩
    have hm : (0 : ℚ) < m * 2 ^ k := mul_pos (Int.cast_pos.mpr (by omega)) (two_zpow_pos k)
    rw [abs_of_pos hm]
    refine lt_of_lt_of_le ?_ (two_zpow_le hmax)
    rw [two_zpow_add_nat]
    exact mul_lt_mul_of_pos_right (Int.cast_lt.mpr hhi) (two_zpow_pos k)

/-- In the binade above a power of two. -/
theorem nearest_eq_two_zpow_iff_of_le {q : ℚ} {k : ℤ} (hp : 2 ≤ f.precision) (hk : f.minExp ≤ k)
    (hlo : 2 ^ (k + f.precision) ≤ q) (hhi : q < 2 * 2 ^ (k + f.precision)) :
    f.nearest q = 2 ^ (k + f.precision) ↔ q ≤ 2 ^ (k + f.precision) + (2 : ℚ) ^ k := by
  obtain ⟨p, hprec⟩ := Nat.exists_eq_add_of_le' hp
  have hupper : (2 : ℚ) ^ (k + f.precision) = ((2 ^ (p + 1) : ℤ) : ℚ) * 2 ^ (k + 1) := by
    rw [← two_zpow_add_nat, hprec]
    congr 1
    push_cast
    ring
  have hbit : f.lastBit q = k + 1 := by
    rw [lastBit_of_mem hlo (by rwa [two_zpow_add_one])]
    omega
  have hquotient : q / 2 ^ (k + 1) ≤ ((2 ^ (p + 1) : ℤ) : ℚ) + 1 / 2 ↔
      q ≤ 2 ^ (k + f.precision) + 2 ^ k := by
    rw [div_le_iff₀ (two_zpow_pos _), add_mul, ← hupper, two_zpow_add_one]
    constructor <;> intro h <;> linarith
  have hge : ((2 ^ (p + 1) : ℤ) : ℚ) ≤ q / 2 ^ (k + 1) := by
    rw [le_div_iff₀ (two_zpow_pos _), ← hupper]
    exact hlo
  have heven : Even (2 ^ (p + 1) : ℤ) := Even.pow_of_ne_zero even_two (Nat.succ_ne_zero p)
  rw [hupper, nearest_eq_iff hbit, roundEven_eq_iff, ← hupper, ← hquotient]
  constructor
  · rintro (⟨-, h⟩ | ⟨-, -, h⟩)
    · exact h.le
    · exact h
  · intro h
    exact Or.inr ⟨heven, by linarith, h⟩

/-- In the binade below a power of two. -/
theorem nearest_eq_two_zpow_iff_of_lt {q : ℚ} {k : ℤ} (hp : 0 < f.precision) (hk : f.minExp ≤ k)
    (hlo : 2 ^ (k + f.precision) ≤ 2 * q) (hhi : q < 2 ^ (k + f.precision)) :
    f.nearest q = 2 ^ (k + f.precision) ↔ 2 ^ (k + f.precision) - (2 : ℚ) ^ k / 2 ≤ q := by
  have hlower : (2 : ℚ) ^ (k + f.precision) = ((2 ^ f.precision : ℤ) : ℚ) * 2 ^ k :=
    two_zpow_add_nat k f.precision
  have hbit : f.lastBit q = k := by
    have hhalf : (2 : ℚ) ^ (k + f.precision - 1) ≤ q := by
      rw [two_zpow_sub_one]
      linarith
    rw [lastBit_of_mem hhalf (by rwa [sub_add_cancel])]
    omega
  have hquotient : ((2 ^ f.precision : ℤ) : ℚ) - 1 / 2 ≤ q / 2 ^ k ↔
      2 ^ (k + f.precision) - 2 ^ k / 2 ≤ q := by
    rw [le_div_iff₀ (two_zpow_pos k), sub_mul, ← hlower]
    constructor <;> intro h <;> linarith
  have hle : q / 2 ^ k < ((2 ^ f.precision : ℤ) : ℚ) := by
    rw [div_lt_iff₀ (two_zpow_pos k), ← hlower]
    exact hhi
  have heven : Even (2 ^ f.precision : ℤ) := Even.pow_of_ne_zero even_two (by omega)
  rw [hlower, nearest_eq_iff hbit, roundEven_eq_iff, ← hlower, ← hquotient]
  constructor
  · rintro (⟨h, -⟩ | ⟨-, h, -⟩)
    · exact h.le
    · exact h
  · intro h
    exact Or.inr ⟨heven, h, by linarith⟩

/-- A power of two, far above the last bit. -/
private theorem four_mul_two_zpow_le {k : ℤ} (hp : 2 ≤ f.precision) :
    (4 : ℚ) * 2 ^ k ≤ 2 ^ (k + f.precision) := by
  rw [two_zpow_add_nat]
  refine mul_le_mul_of_nonneg_right ?_ (two_zpow_pos k).le
  push_cast
  calc (4 : ℚ) = 2 ^ 2 := by norm_num
    _ ≤ 2 ^ f.precision := pow_le_pow_right₀ (by norm_num) hp

/-- **The numbers that are rounded to a power of two**: on each side, those up to halfway to the
next number, which is twice as far above as it is below. -/
theorem round_eq_some_two_zpow_iff {q : ℚ} {k : ℤ} (hp : 2 ≤ f.precision) (hk : f.minExp ≤ k)
    (hmax : k + f.precision < f.maxExp) :
    f.round q = some (2 ^ (k + f.precision)) ↔
      2 ^ (k + f.precision) - 2 ^ k / 2 ≤ q ∧ q ≤ 2 ^ (k + f.precision) + (2 : ℚ) ^ k := by
  have hsize := four_mul_two_zpow_le (k := k) hp
  have hpos := two_zpow_pos k
  have hlimit : |(2 : ℚ) ^ (k + f.precision)| < 2 ^ f.maxExp := by
    rw [abs_of_pos (two_zpow_pos _)]
    exact zpow_lt_zpow_right₀ (by norm_num) hmax
  rw [round_eq_some_iff_nearest, and_iff_left hlimit]
  rcases lt_or_ge q (2 ^ (k + f.precision)) with hlt | hge
  · rcases le_or_gt (2 ^ (k + f.precision)) (2 * q) with hhalf | hsmall
    · rw [nearest_eq_two_zpow_iff_of_lt (by omega) hk hhalf hlt]
      constructor
      · exact fun h => ⟨h, by linarith⟩
      · exact fun h => h.1
    · -- less than half of the power
      have hle := nearest_le_two_zpow (f := f) (q := q) (e := k + f.precision - 1) (by omega)
        (by omega) (by rw [two_zpow_sub_one]; linarith)
      rw [two_zpow_sub_one] at hle
      constructor
      · intro h
        linarith
      · rintro ⟨h, -⟩
        linarith
  · rcases lt_or_ge q (2 * 2 ^ (k + f.precision)) with hnear | hfar
    · rw [nearest_eq_two_zpow_iff_of_le hp hk hge hnear]
      constructor
      · exact fun h => ⟨by linarith, h⟩
      · exact fun h => h.2
    · -- at least its double
      have hle := two_zpow_le_nearest (f := f) (q := q) (e := k + f.precision + 1) (by omega)
        (by omega) (by rw [two_zpow_add_one]; exact hfar)
      rw [two_zpow_add_one] at hle
      constructor
      · intro h
        linarith
      · rintro ⟨-, h⟩
        linarith

end BinaryFormat
