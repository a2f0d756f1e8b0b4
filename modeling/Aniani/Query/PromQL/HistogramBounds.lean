import Aniani.ForMathlib.Pieces
import Aniani.Query.Exact
import Aniani.Query.PromQL.Functions

/-!
# The bounds of histogram quantiles

`histogram_quantile` reads a value off the line between the bound of the bucket before and that of
the bucket the rank is in. In exact arithmetic the value lies between the two and rises with the
quantile. Before the first bucket the line starts at zero, whatever the bound of the bucket: below
zero the value leaves the bucket at the top, and falls.

## Main definitions

* `CumulativeBuckets` — sorted buckets with their counts, the last without a bound
* `CumulativeBuckets.StartsInOrder` — no line goes down from zero

## Main results

* `CumulativeBuckets.quantiles_iff` — **when each value lies in its bucket**
-/

namespace Aniani

namespace PromQL

open FloatOps
open Exact (finite infinite)

/-! ### A bucket -/

section Value

variable {F64 : Type} [FloatOps F64]

/-- What `eval_histogram_quantile` gives for a target in a bucket, from the count and the bound of
the bucket before it. -/
def valueInBucket (target prevCount prevBound bound count : F64) : F64 :=
  if isInfinite bound then prevBound
  else if eq count prevCount then bound
  else add prevBound (mul (div (sub target prevCount) (sub count prevCount)) (sub bound prevBound))

theorem bucketLoop_cons (target prevCount prevBound bound count : F64)
    (buckets : List (F64 × F64)) :
    bucketLoop target prevCount prevBound ((bound, count) :: buckets) =
      if le target count then some (valueInBucket target prevCount prevBound bound count)
      else bucketLoop target count bound buckets := rfl

theorem bucketQuantile_of_getLast? {buckets : List (F64 × F64)} {bound total : F64} (quantile : F64)
    (hlast : buckets.getLast? = some (bound, total)) (htotal : eq total Float64.zero = false) :
    bucketQuantile quantile buckets =
      some ((bucketLoop (mul quantile total) Float64.zero Float64.zero buckets).getD bound) := by
  rw [bucketQuantile, hlast]
  simp only [htotal, Bool.false_eq_true, if_false]

end Value

/-- A bucket and one after it: neither the bound nor the count is less. -/
def Rises (a b : Exact × ℚ) : Prop := FloatOps.le a.1 b.1 = true ∧ a.2 ≤ b.2

/-- The counts as numbers of the engine. -/
def engineBuckets (buckets : List (Exact × ℚ)) : List (Exact × Exact) :=
  buckets.map fun bucket => (bucket.1, finite bucket.2)

@[simp] theorem engineBuckets_cons (bucket : Exact × ℚ) (buckets : List (Exact × ℚ)) :
    engineBuckets (bucket :: buckets) = (bucket.1, finite bucket.2) :: engineBuckets buckets := rfl

variable {p b : Exact} {c n t t' : ℚ}

theorem valueInBucket_of_isInfinite (h : isInfinite b = true) (t c n : ℚ) :
    valueInBucket (finite t) (finite c) p b (finite n) = p := if_pos h

theorem valueInBucket_of_eq (h : isInfinite b = false) (t c : ℚ) :
    valueInBucket (finite t) (finite c) p b (finite c) = b := by
  rw [valueInBucket, if_neg (by rw [h]; exact Bool.false_ne_true), if_pos (by simp)]

theorem valueInBucket_finite (h : n ≠ c) (t x y : ℚ) :
    valueInBucket (finite t) (finite c) (finite x) (finite y) (finite n) =
      finite (x + (t - c) / (n - c) * (y - x)) := by
  rw [valueInBucket, if_neg (by simp), if_neg (by simpa using h), Exact.sub_finite, Exact.sub_finite,
    Exact.sub_finite, Exact.div_finite _ (sub_ne_zero.mpr h), Exact.mul_finite, Exact.add_finite]

/-- A bound that is not below all numbers, with one that is finite after it. -/
theorem exists_finite_of_le (hp : p ≠ infinite true) {y : ℚ}
    (h : FloatOps.le p (finite y) = true) : ∃ x, p = finite x ∧ x ≤ y := by
  cases p with
  | finite x => exact ⟨x, rfl, by simpa using h⟩
  | infinite s =>
    cases s with
    | true => exact absurd rfl hp
    | false => exact absurd h (by simp [FloatOps.le, Exact.lt, Exact.beq])
  | nan => exact absurd h (by simp [FloatOps.le, Exact.lt, Exact.beq])

theorem ne_negInfinity_of_le (hp : p ≠ infinite true) (h : FloatOps.le p b = true) :
    b ≠ infinite true := by
  rintro rfl
  cases p with
  | finite x => exact absurd h (by simp [FloatOps.le, Exact.lt, Exact.beq])
  | infinite s =>
    cases s with
    | true => exact hp rfl
    | false => exact absurd h (by simp [FloatOps.le, Exact.lt, Exact.beq])
  | nan => exact absurd h (by simp [FloatOps.le, Exact.lt, Exact.beq])

/-- The weight of a target in a bucket. -/
theorem weight_mem_Icc (hne : n ≠ c) (hc : c ≤ t) (hn : t ≤ n) :
    (t - c) / (n - c) ∈ Set.Icc (0 : ℚ) 1 := by
  have hpos : 0 < n - c := sub_pos.mpr ((hc.trans hn).lt_of_ne hne.symm)
  exact ⟨div_nonneg (sub_nonneg.mpr hc) hpos.le,
    (div_le_one hpos).mpr (sub_le_sub_right hn c)⟩

/-- **The value in a bucket** lies between the bounds. -/
theorem valueInBucket_mem (hp : p ≠ infinite true) (hb : FloatOps.le p b = true) (hc : c ≤ t)
    (hn : t ≤ n) :
    FloatOps.le p (valueInBucket (finite t) (finite c) p b (finite n)) = true ∧
      FloatOps.le (valueInBucket (finite t) (finite c) p b (finite n)) b = true := by
  cases b with
  | nan => exact absurd (Exact.le_eq_true_iff.mp hb).2.1 (by simp [isNan])
  | infinite s =>
    rw [valueInBucket_of_isInfinite rfl]
    exact ⟨Exact.le_refl_left hb, hb⟩
  | finite y =>
    obtain ⟨x, rfl, hxy⟩ := exists_finite_of_le hp hb
    rcases eq_or_ne n c with rfl | hne
    · rw [valueInBucket_of_eq rfl]
      exact ⟨hb, Exact.le_refl_right hb⟩
    · have hmem := weighted_mem_Icc hxy (weight_mem_Icc hne hc hn)
      rw [valueInBucket_finite hne, Exact.le_finite, Exact.le_finite]
      exact ⟨decide_eq_true hmem.1, decide_eq_true hmem.2⟩

/-- **The value in a bucket** rises with the target. -/
theorem valueInBucket_mono (hp : p ≠ infinite true) (hb : FloatOps.le p b = true) (hc : c ≤ t)
    (htt : t ≤ t') (hn : t' ≤ n) :
    FloatOps.le (valueInBucket (finite t) (finite c) p b (finite n))
      (valueInBucket (finite t') (finite c) p b (finite n)) = true := by
  cases b with
  | nan => exact absurd (Exact.le_eq_true_iff.mp hb).2.1 (by simp [isNan])
  | infinite s =>
    rw [valueInBucket_of_isInfinite rfl, valueInBucket_of_isInfinite rfl]
    exact Exact.le_refl_left hb
  | finite y =>
    obtain ⟨x, rfl, hxy⟩ := exists_finite_of_le hp hb
    rcases eq_or_ne n c with rfl | hne
    · rw [valueInBucket_of_eq rfl, valueInBucket_of_eq rfl]
      exact Exact.le_refl_right hb
    · have hpos : 0 < n - c := sub_pos.mpr ((hc.trans (htt.trans hn)).lt_of_ne hne.symm)
      rw [valueInBucket_finite hne, valueInBucket_finite hne, Exact.le_finite]
      exact decide_eq_true (weighted_mono hxy (div_le_div_of_nonneg_right
        (sub_le_sub_right htt c) hpos.le))

/-! ### All buckets -/

variable {buckets : List (Exact × ℚ)}

/-- **The value of the loop** is one of the first bucket that reaches the target. -/
theorem bucketLoop_mem (hp : p ≠ infinite true) (h : ((p, c) :: buckets).IsChain Rises) (hc : c ≤ t)
    (ht : ∃ bucket ∈ buckets, t ≤ bucket.2) :
    ∃ pre bucket post value, buckets = pre ++ bucket :: post ∧ (∀ b ∈ pre, b.2 < t) ∧
      t ≤ bucket.2 ∧
      bucketLoop (finite t) (finite c) p (engineBuckets buckets) = some value ∧
      FloatOps.le value bucket.1 = true ∧
      (∀ prev ∈ pre.getLast?, FloatOps.le prev.1 value = true) ∧ FloatOps.le p value = true := by
  induction buckets generalizing p c with
  | nil => obtain ⟨bucket, hmem, _⟩ := ht; exact absurd hmem List.not_mem_nil
  | cons first buckets ih =>
    obtain ⟨b, n⟩ := first
    rw [List.isChain_cons_cons] at h
    rw [engineBuckets_cons, bucketLoop_cons, Exact.le_finite]
    by_cases hn : t ≤ n
    · have hvalue := valueInBucket_mem hp h.1.1 hc hn
      rw [if_pos (decide_eq_true hn)]
      exact ⟨[], (b, n), buckets, _, rfl, by simp, hn, rfl, hvalue.2, by simp, hvalue.1⟩
    · rw [if_neg (by simpa using hn)]
      have hnt : n < t := lt_of_not_ge hn
      have hrest : ∃ bucket ∈ buckets, t ≤ bucket.2 := by
        obtain ⟨bucket, hmem, hle⟩ := ht
        rcases List.mem_cons.mp hmem with rfl | hmem
        · exact absurd hle hn
        · exact ⟨bucket, hmem, hle⟩
      obtain ⟨pre, bucket, post, value, rfl, hpre, hle, hloop, hhi, hprev, hlo⟩ :=
        ih (ne_negInfinity_of_le hp h.1.1) h.2 hnt.le hrest
      refine ⟨(b, n) :: pre, bucket, post, value, rfl, ?_, hle, hloop, hhi, ?_,
        Exact.le_trans h.1.1 hlo⟩
      · exact List.forall_mem_cons.mpr ⟨hnt, hpre⟩
      · intro prev hmem
        rw [List.getLast?_cons] at hmem
        cases hlast : pre.getLast? with
        | none => rw [hlast] at hmem; cases hmem; exact hlo
        | some last => rw [hlast] at hmem; cases hmem; exact hprev _ hlast

/-- **The value of the loop** rises with the target. -/
theorem bucketLoop_mono (hp : p ≠ infinite true) (h : ((p, c) :: buckets).IsChain Rises)
    (hc : c ≤ t) (htt : t ≤ t') (ht : ∃ bucket ∈ buckets, t' ≤ bucket.2) :
    ∃ value ∈ bucketLoop (finite t) (finite c) p (engineBuckets buckets),
      ∃ value' ∈ bucketLoop (finite t') (finite c) p (engineBuckets buckets),
        FloatOps.le value value' = true := by
  induction buckets generalizing p c with
  | nil => obtain ⟨bucket, hmem, _⟩ := ht; exact absurd hmem List.not_mem_nil
  | cons first buckets ih =>
    obtain ⟨b, n⟩ := first
    rw [List.isChain_cons_cons] at h
    simp only [engineBuckets_cons, bucketLoop_cons, Exact.le_finite]
    have hrest (hn : n < t') : ∃ bucket ∈ buckets, t' ≤ bucket.2 := by
      obtain ⟨bucket, hmem, hle⟩ := ht
      rcases List.mem_cons.mp hmem with rfl | hmem
      · exact absurd hle (not_le.mpr hn)
      · exact ⟨bucket, hmem, hle⟩
    rcases le_or_gt t' n with hn | hn
    · -- both targets are in this bucket
      rw [if_pos (decide_eq_true (htt.trans hn)), if_pos (decide_eq_true hn)]
      exact ⟨_, rfl, _, rfl, valueInBucket_mono hp h.1.1 hc htt hn⟩
    · rw [if_neg (c := decide (t' ≤ n) = true) (by simpa using hn)]
      rcases le_or_gt t n with hnt | hnt
      · rw [if_pos (decide_eq_true hnt)]
        obtain ⟨_, _, _, value, _, _, _, hloop, _, _, hlo⟩ :=
          bucketLoop_mem (ne_negInfinity_of_le hp h.1.1) h.2 hn.le (hrest hn)
        exact ⟨_, rfl, value, hloop, Exact.le_trans (valueInBucket_mem hp h.1.1 hc hnt).2 hlo⟩
      · rw [if_neg (by simpa using hnt)]
        exact ih (ne_negInfinity_of_le hp h.1.1) h.2 hnt.le (hrest hn)

/-- No division in the loop is by zero. -/
theorem bucketLoop_lift (t : ℚ) (c : ℚ) (p : Exact) (buckets : List (Exact × ℚ)) :
    bucketLoop (Checked.lift (finite t)) (Checked.lift (finite c)) (Checked.lift p)
        ((engineBuckets buckets).map (Prod.map Checked.lift Checked.lift)) =
      (bucketLoop (finite t) (finite c) p (engineBuckets buckets)).map Checked.lift := by
  induction buckets generalizing p c with
  | nil => rfl
  | cons first buckets ih =>
    obtain ⟨b, n⟩ := first
    have hvalue : valueInBucket (Checked.lift (finite t)) (Checked.lift (finite c)) (Checked.lift p)
        (Checked.lift b) (Checked.lift (finite n)) =
          Checked.lift (valueInBucket (finite t) (finite c) p b (finite n)) := by
      rw [valueInBucket, valueInBucket, Checked.isInfinite_lift, Checked.eq_lift, Exact.eq_finite]
      split_ifs with hinf heq
      · rfl
      · rfl
      · have hne : n - c ≠ 0 := sub_ne_zero.mpr fun h => heq (decide_eq_true h)
        rw [Checked.sub_lift, Checked.sub_lift, Checked.sub_lift,
          Checked.div_lift _ (by simpa using hne), Checked.mul_lift, Checked.add_lift]
    rw [engineBuckets_cons, List.map_cons, Prod.map_apply, bucketLoop_cons, bucketLoop_cons,
      Checked.le_lift, hvalue, ih]
    split_ifs
    · rfl
    · rfl

/-- Buckets in the order of their bounds, each with the count of what is not above its bound. The
last has no bound, and its count is not zero. -/
structure CumulativeBuckets where
  buckets : List (Exact × ℚ)
  total : ℚ
  rises : buckets.IsChain Rises
  nonneg : ∀ bucket ∈ buckets, 0 ≤ bucket.2
  last_eq : buckets.getLast? = some (infinite false, total)
  total_pos : 0 < total

namespace CumulativeBuckets

variable (h : CumulativeBuckets)

/-- The value of `histogram_quantile`. -/
def quantile (q : ℚ) : Option Exact := bucketQuantile (finite q) (engineBuckets h.buckets)

/-- Every quantile lies in the bucket that has its rank. -/
def Bounded : Prop := ∀ q ∈ Set.Icc (0 : ℚ) 1, ∃ pre bucket post value,
  h.buckets = pre ++ bucket :: post ∧ (∀ b ∈ pre, b.2 < q * h.total) ∧ q * h.total ≤ bucket.2 ∧
    h.quantile q = some value ∧ FloatOps.le value bucket.1 = true ∧
    ∀ prev ∈ pre.getLast?, FloatOps.le prev.1 value = true

/-- Quantiles rise with the rank. -/
def Monotone : Prop := ∀ q ∈ Set.Icc (0 : ℚ) 1, ∀ q' ∈ Set.Icc (0 : ℚ) 1, q ≤ q' →
  ∃ value ∈ h.quantile q, ∃ value' ∈ h.quantile q', FloatOps.le value value' = true

/-- Nothing is divided by zero. -/
def NoZeroDivision : Prop := ∀ q ∈ Set.Icc (0 : ℚ) 1,
  bucketQuantile (Checked.lift (finite q))
      ((engineBuckets h.buckets).map (Prod.map Checked.lift Checked.lift)) =
    (h.quantile q).map Checked.lift

/-- **No line goes down from zero**: the first bound is not below zero, or it is a number and nothing
is in its bucket. -/
def StartsInOrder : Prop := ∀ first ∈ h.buckets.head?,
  FloatOps.le (finite 0) first.1 = true ∨ first.1 ≠ infinite true ∧ first.2 = 0

theorem getLast?_engineBuckets :
    (engineBuckets h.buckets).getLast? = some (infinite false, finite h.total) := by
  rw [engineBuckets, List.getLast?_map, h.last_eq]
  rfl

theorem eq_total_zero : eq (finite h.total) (Float64.zero : Exact) = false := by
  rw [Exact.zero_eq, Exact.eq_finite]
  exact decide_eq_false h.total_pos.ne'

theorem quantile_eq (q : ℚ) : h.quantile q = some ((bucketLoop (finite (q * h.total)) (finite 0)
    (finite 0) (engineBuckets h.buckets)).getD (infinite false)) :=
  bucketQuantile_of_getLast? _ h.getLast?_engineBuckets h.eq_total_zero

theorem noZeroDivision : h.NoZeroDivision := by
  intro q _
  have hlast : ((engineBuckets h.buckets).map (Prod.map Checked.lift Checked.lift)).getLast? =
      some (Checked.lift (infinite false), Checked.lift (finite h.total)) := by
    rw [List.getLast?_map, h.getLast?_engineBuckets]
    rfl
  have hloop := bucketLoop_lift (q * h.total) 0 (finite 0) h.buckets
  rw [bucketQuantile_of_getLast? _ hlast h.eq_total_zero, h.quantile_eq]
  simp only [Checked.mul_lift, Exact.mul_finite, Checked.zero_eq, Exact.zero_eq, hloop]
  cases bucketLoop (finite (q * h.total)) (finite 0) (finite 0) (engineBuckets h.buckets) <;> rfl

theorem exists_reaches {q : ℚ} (hq : q ≤ 1) : ∃ bucket ∈ h.buckets, q * h.total ≤ bucket.2 :=
  ⟨_, List.mem_of_getLast? h.last_eq, mul_le_of_le_one_left h.total_pos.le hq⟩

theorem exists_first : ∃ first rest, h.buckets = first :: rest := by
  refine List.exists_cons_of_ne_nil fun hnil => ?_
  have hlast := h.last_eq
  rw [hnil] at hlast
  exact absurd hlast (by simp)

/-- The bound of the first bucket is not `NaN`. -/
theorem le_first {first : Exact × ℚ} {rest : List (Exact × ℚ)} (heq : h.buckets = first :: rest) :
    FloatOps.le first.1 first.1 = true := by
  cases rest with
  | nil =>
    have hlast := h.last_eq
    rw [heq, List.getLast?_singleton, Option.some.injEq] at hlast
    rw [hlast]
    rfl
  | cons second rest =>
    have hrises := h.rises
    rw [heq, List.isChain_cons_cons] at hrises
    exact Exact.le_refl_left hrises.1.1

/-- Where the first line starts: at zero, or at a bound below it with an empty bucket. -/
theorem exists_start (hstart : h.StartsInOrder) :
    ∃ p : Exact, p ≠ infinite true ∧ ((p, (0 : ℚ)) :: h.buckets).IsChain Rises ∧
      ∀ t, bucketLoop (finite t) (finite 0) (finite 0) (engineBuckets h.buckets) =
        bucketLoop (finite t) (finite 0) p (engineBuckets h.buckets) := by
  obtain ⟨⟨bound, count⟩, rest, heq⟩ := h.exists_first
  have hnonneg : 0 ≤ count := h.nonneg (bound, count) (heq ▸ List.mem_cons_self)
  have hchain (p : Exact) (hle : FloatOps.le p bound = true) :
      ((p, (0 : ℚ)) :: h.buckets).IsChain Rises := by
    rw [heq, List.isChain_cons_cons, ← heq]
    exact ⟨⟨hle, hnonneg⟩, h.rises⟩
  by_cases hzero : FloatOps.le (finite 0) bound = true
  · exact ⟨finite 0, nofun, hchain _ hzero, fun t => rfl⟩
  · have hfirst := (hstart (bound, count) (by rw [heq]; rfl)).resolve_left hzero
    refine ⟨bound, hfirst.1, hchain _ (h.le_first heq), fun t => ?_⟩
    have hfinite : isInfinite bound = false := by
      cases bound with
      | finite y => rfl
      | nan => rfl
      | infinite s =>
        cases s with
        | true => exact absurd rfl hfirst.1
        | false => exact absurd rfl hzero
    obtain rfl : count = 0 := hfirst.2
    rw [heq, engineBuckets_cons, bucketLoop_cons, bucketLoop_cons, valueInBucket_of_eq hfinite,
      valueInBucket_of_eq hfinite]

theorem bounded_of_startsInOrder (hstart : h.StartsInOrder) : h.Bounded := by
  intro q hq
  obtain ⟨p, hp, hchain, hloop⟩ := h.exists_start hstart
  obtain ⟨pre, bucket, post, value, heq, hpre, hle, hvalue, hhi, hprev, _⟩ :=
    bucketLoop_mem hp hchain (mul_nonneg hq.1 h.total_pos.le) (h.exists_reaches hq.2)
  refine ⟨pre, bucket, post, value, heq, hpre, hle, ?_, hhi, hprev⟩
  rw [h.quantile_eq, hloop, hvalue]
  rfl

theorem monotone_of_startsInOrder (hstart : h.StartsInOrder) : h.Monotone := by
  intro q hq q' hq' hqq
  obtain ⟨p, hp, hchain, hloop⟩ := h.exists_start hstart
  obtain ⟨value, hvalue, value', hvalue', hle⟩ :=
    bucketLoop_mono hp hchain (mul_nonneg hq.1 h.total_pos.le)
      (mul_le_mul_of_nonneg_right hqq h.total_pos.le) (h.exists_reaches hq'.2)
  rw [h.quantile_eq, h.quantile_eq, hloop, hloop, hvalue, hvalue']
  exact ⟨value, rfl, value', rfl, hle⟩

/-- The least quantile is zero when the first line goes down from zero. -/
theorem quantile_zero_of_not_startsInOrder {first : Exact × ℚ} {rest : List (Exact × ℚ)}
    (heq : h.buckets = first :: rest) (hcount : first.1 ≠ infinite true → first.2 ≠ 0) :
    h.quantile 0 = some (finite 0) := by
  obtain ⟨bound, count⟩ := first
  have hnonneg : 0 ≤ count := h.nonneg (bound, count) (heq ▸ List.mem_cons_self)
  have hvalue : valueInBucket (finite 0) (finite 0) (finite 0) bound (finite count) = finite 0 := by
    cases bound with
    | infinite s => rfl
    | finite y =>
      rw [valueInBucket_finite (hcount nofun), sub_zero, zero_div, zero_mul, add_zero]
    | nan => exact absurd (h.le_first heq) (by simp [FloatOps.le, Exact.lt, Exact.beq])
  rw [h.quantile_eq, zero_mul, heq, engineBuckets_cons, bucketLoop_cons, Exact.le_finite,
    if_pos (decide_eq_true hnonneg), hvalue]
  rfl

theorem startsInOrder_of_bounded (hbounded : h.Bounded) : h.StartsInOrder := by
  obtain ⟨first, rest, heq⟩ := h.exists_first
  rw [StartsInOrder, heq]
  rintro _ ⟨⟩
  by_contra hnot
  rw [not_or, not_and] at hnot
  obtain ⟨pre, bucket, post, value, hsplit, hpre, _, hvalue, hhi, _⟩ :=
    hbounded 0 ⟨le_rfl, zero_le_one⟩
  rw [h.quantile_zero_of_not_startsInOrder heq hnot.2] at hvalue
  cases hvalue
  cases pre with
  | nil =>
    rw [hsplit, List.nil_append, List.cons.injEq] at heq
    exact hnot.1 (heq.1 ▸ hhi)
  | cons b pre =>
    have hneg := hpre b List.mem_cons_self
    rw [zero_mul] at hneg
    exact absurd hneg (not_lt.mpr (h.nonneg b (hsplit ▸ List.mem_cons_self)))

/-- **When every quantile lies in its bucket.** It is so, and the quantiles rise, just when the line
in the first bucket does not go down from zero. -/
theorem quantiles_iff : h.Bounded ∧ h.Monotone ∧ h.NoZeroDivision ↔ h.StartsInOrder :=
  ⟨fun hall => h.startsInOrder_of_bounded hall.1, fun hstart =>
    ⟨h.bounded_of_startsInOrder hstart, h.monotone_of_startsInOrder hstart, h.noZeroDivision⟩⟩

end CumulativeBuckets

/-- No sample is below `-10`, and half of them are at most `20`. -/
def aroundZero : CumulativeBuckets where
  buckets := [(finite (-10), 0), (finite 20, 5), (infinite false, 10)]
  total := 10
  rises := .cons_cons ⟨rfl, by norm_num⟩ (.cons_cons ⟨rfl, by norm_num⟩ (.singleton _))
  nonneg := by simp
  last_eq := rfl
  total_pos := by norm_num

-- the empty bucket below zero does not count, and the line starts at its bound
example : aroundZero.StartsInOrder ∧ aroundZero.quantile (1 / 4) = some (finite 5) := by
  refine ⟨fun _ hfirst => Option.mem_some_iff.mp hfirst ▸ .inr ⟨nofun, rfl⟩, ?_⟩
  decide +kernel

/-- Half the samples are at most `-10`. -/
def belowZero : CumulativeBuckets where
  buckets := [(finite (-10), 5), (infinite false, 10)]
  total := 10
  rises := .cons_cons ⟨rfl, by norm_num⟩ (.singleton _)
  nonneg := by simp
  last_eq := rfl
  total_pos := by norm_num

theorem quantile_belowZero {q : ℚ} (hhalf : q ≤ 1 / 2) :
    belowZero.quantile q = some (finite (-20 * q)) := by
  have hle : q * 10 ≤ 5 := by linarith
  have hbuckets : engineBuckets belowZero.buckets =
      [(finite (-10), finite 5), (infinite false, finite 10)] := rfl
  have htotal : belowZero.total = 10 := rfl
  rw [belowZero.quantile_eq, hbuckets, htotal, bucketLoop_cons, Exact.le_finite,
    if_pos (decide_eq_true hle), valueInBucket_finite (by norm_num),
    Option.getD_some]
  congr 2
  ring

/-- The first quartile is `-5`, above the bound of its bucket, and below the least quantile. -/
theorem not_bounded_belowZero :
    belowZero.quantile (1 / 4) = some (finite (-5)) ∧
      ¬ (belowZero.Bounded ∧ belowZero.Monotone ∧ belowZero.NoZeroDivision) ∧
      ¬ belowZero.Monotone := by
  have hquartile : belowZero.quantile (1 / 4) = some (finite (-5)) := by
    rw [quantile_belowZero (by norm_num)]
    norm_num
  have hleast : belowZero.quantile 0 = some (finite 0) := by
    rw [quantile_belowZero (by norm_num), mul_zero]
  have hmono : ¬ belowZero.Monotone := by
    intro hmono
    obtain ⟨value, hvalue, value', hvalue', hle⟩ :=
      hmono 0 ⟨le_rfl, zero_le_one⟩ (1 / 4) ⟨by norm_num, by norm_num⟩ (by norm_num)
    rw [hleast] at hvalue
    rw [hquartile] at hvalue'
    cases hvalue
    cases hvalue'
    exact absurd hle (by rw [Exact.le_finite, decide_eq_true_iff]; norm_num)
  refine ⟨hquartile, fun hall => ?_, hmono⟩
  have hstart := belowZero.startsInOrder_of_bounded hall.1 _ rfl
  rw [Exact.le_finite, decide_eq_true_iff] at hstart
  norm_num at hstart

end PromQL

end Aniani
