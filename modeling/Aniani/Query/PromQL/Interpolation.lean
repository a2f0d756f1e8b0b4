import Aniani.ForMathlib.Pieces
import Aniani.Query.Exact
import Aniani.Query.PromQL.Selectors
import Mathlib.Algebra.Order.Floor.Ring
import Mathlib.Data.List.GetD
import Mathlib.Data.Rat.Floor

/-!
# Quantiles between the samples

A quantile of sorted values stands at a rank, a place among their indexes that need not be whole.
Its value is read off the line between the values at the indexes around it. In exact arithmetic
that is a weighted mean of two neighbours, so it lies between them, and the lines of one pair of
neighbours after the other make one monotone function.

## Main definitions

* `interpolated` — the value, as a rational number

## Main results

* `interpolateQuantile_finite` — what `interpolateQuantile` computes
* `interpolateQuantile_monotoneOn` — within bounds, and monotone
* `quantileOverTime_monotoneOn` — the same of `quantile_over_time`
-/

namespace Aniani

namespace PromQL

open FloatOps

section Indexes

variable {F64 : Type} [FloatOps F64]

theorem interpolateQuantile_of_one_lt {values : List F64} (h : 1 < values.length) (q : F64) :
    interpolateQuantile values q =
      if lowerIndex values.length q = upperIndex values.length q then
        values.getD (lowerIndex values.length q) nan
      else
        let fraction := sub (quantileRank values.length q)
          (Float64.ofU64 (lowerIndex values.length q))
        add (mul (values.getD (lowerIndex values.length q) nan) (sub one fraction))
          (mul (values.getD (upperIndex values.length q) nan) fraction) :=
  match values, h with
  | _ :: _ :: _, _ => rfl

end Indexes

/-! ### Rational numbers -/

/-- The value at an index, the last one at those beyond it. -/
def valueAt (values : List ℚ) (i : ℕ) : ℚ := values.getD (min i (values.length - 1)) 0

/-- The value at a rank, on the line between the two values around it. -/
def interpolated (values : List ℚ) (q : ℚ) : ℚ :=
  let rank := q * (values.length - 1 : ℕ)
  valueAt values ⌊rank⌋₊ +
    Int.fract rank * (valueAt values (⌊rank⌋₊ + 1) - valueAt values ⌊rank⌋₊)

variable {values : List ℚ} {q : ℚ} {n i : ℕ}

theorem valueAt_of_lt (h : i < values.length) : valueAt values i = values[i] := by
  rw [valueAt, min_eq_left (Nat.le_sub_one_of_lt h), List.getD_eq_getElem _ _ h]

theorem valueAt_monotone (h : values.SortedLE) : Monotone (valueAt values) := by
  intro i j hij
  rcases Nat.eq_zero_or_pos values.length with hzero | hpos
  · simp [valueAt, List.eq_nil_of_length_eq_zero hzero]
  · have hlt (k : ℕ) : min k (values.length - 1) < values.length :=
      (min_le_right k _).trans_lt (Nat.sub_one_lt_of_lt hpos)
    rw [valueAt, valueAt, List.getD_eq_getElem _ _ (hlt i), List.getD_eq_getElem _ _ (hlt j)]
    change values.get ⟨_, hlt i⟩ ≤ values.get ⟨_, hlt j⟩
    exact h.monotone_get (min_le_min_right _ hij)

theorem valueAt_mem_Icc (hne : values ≠ []) (h : values.SortedLE) (i : ℕ) :
    valueAt values i ∈ Set.Icc (values.head hne) (values.getLast hne) := by
  have hpos : 0 < values.length := List.length_pos_iff.mpr hne
  have hhead : valueAt values 0 = values.head hne := by
    rw [valueAt_of_lt hpos, List.head_eq_getElem]
  have hlast : valueAt values (max i (values.length - 1)) = values.getLast hne := by
    rw [valueAt, min_eq_right (le_max_right _ _), List.getLast_eq_getElem,
      List.getD_eq_getElem _ _ (Nat.sub_one_lt_of_lt hpos)]
  exact ⟨hhead ▸ valueAt_monotone h i.zero_le, hlast ▸ valueAt_monotone h (le_max_left _ _)⟩

theorem interpolated_mem_pieces (h : values.SortedLE) (q : ℚ) :
    let i := ⌊q * (values.length - 1 : ℕ)⌋₊
    interpolated values q ∈ Set.Icc (valueAt values i) (valueAt values (i + 1)) :=
  weighted_mem_Icc (valueAt_monotone h (Nat.le_succ _)) ⟨Int.fract_nonneg _, (Int.fract_lt_one _).le⟩

theorem interpolated_monotoneOn (h : values.SortedLE) :
    MonotoneOn (interpolated values) (Set.Icc 0 1) := by
  have hrank {x y : ℚ} (hxy : x ≤ y) :
      x * (values.length - 1 : ℕ) ≤ y * (values.length - 1 : ℕ) :=
    mul_le_mul_of_nonneg_right hxy (Nat.cast_nonneg _)
  have hnonneg {x : ℚ} (hx : 0 ≤ x) : 0 ≤ x * (values.length - 1 : ℕ) :=
    mul_nonneg hx (Nat.cast_nonneg _)
  refine monotoneOn_of_pieces (fun q => ⌊q * (values.length - 1 : ℕ)⌋₊) (valueAt values)
    (fun i => valueAt values (i + 1)) (fun x _ y _ hxy => Nat.floor_mono (hrank hxy))
    (fun q _ => (interpolated_mem_pieces h q).1) (fun q _ => (interpolated_mem_pieces h q).2)
    (fun x _ y _ hlt => valueAt_monotone h hlt) fun x hx y hy hxy hpiece => ?_
  -- in one piece the weights are in the order of the ranks
  have hfract : Int.fract (x * (values.length - 1 : ℕ)) ≤ Int.fract (y * (values.length - 1 : ℕ)) := by
    rw [Int.fract, Int.fract, ← natCast_floor_eq_intCast_floor (hnonneg hx.1),
      ← natCast_floor_eq_intCast_floor (hnonneg hy.1), hpiece]
    exact sub_le_sub_right (hrank hxy) _
  simp only [interpolated, hpiece]
  exact weighted_mono (valueAt_monotone h (Nat.le_succ _)) hfract

/-! ### What the program computes -/

theorem quantileRank_finite (n : ℕ) (q : ℚ) :
    quantileRank n (Exact.finite q) = .finite (q * (n - 1 : ℕ)) := rfl

theorem lowerIndex_finite (n : ℕ) (q : ℚ) :
    lowerIndex n (Exact.finite q) = ⌊q * (n - 1 : ℕ)⌋₊ := by
  rw [lowerIndex, quantileRank_finite, Exact.floor_finite, Exact.toUsize_finite, Int.floor_intCast,
    Int.floor_toNat]

theorem upperIndex_finite (n : ℕ) (q : ℚ) :
    upperIndex n (Exact.finite q) = ⌈q * (n - 1 : ℕ)⌉₊ := by
  rw [upperIndex, quantileRank_finite, Exact.ceil_finite, Exact.toUsize_finite, Int.floor_intCast,
    Int.ceil_toNat]

/-- **The indexes are in bounds.** -/
theorem upperIndex_lt (hn : 0 < n) (hq : q ≤ 1) : upperIndex n (Exact.finite q) < n := by
  rw [upperIndex_finite]
  refine (Nat.ceil_le.mpr ?_).trans_lt (Nat.sub_one_lt_of_lt hn)
  exact mul_le_of_le_one_left (Nat.cast_nonneg _) hq

theorem lowerIndex_le_upperIndex (n : ℕ) (q : ℚ) :
    lowerIndex n (Exact.finite q) ≤ upperIndex n (Exact.finite q) := by
  rw [lowerIndex_finite, upperIndex_finite]
  exact Nat.floor_le_ceil _

theorem getD_map_finite (values : List ℚ) (h : i < values.length) :
    (values.map Exact.finite).getD i nan = .finite (valueAt values i) := by
  rw [valueAt_of_lt h, List.getD_eq_getElem _ _ (by rwa [List.length_map]), List.getElem_map]

/-- A whole rank is an index. -/
theorem interpolated_of_floor_eq_ceil (hq : 0 ≤ q * (values.length - 1 : ℕ))
    (h : ⌊q * (values.length - 1 : ℕ)⌋₊ = ⌈q * (values.length - 1 : ℕ)⌉₊) :
    interpolated values q = valueAt values ⌊q * (values.length - 1 : ℕ)⌋₊ := by
  have hwhole : q * (values.length - 1 : ℕ) = (⌊q * (values.length - 1 : ℕ)⌋₊ : ℚ) :=
    le_antisymm ((Nat.le_ceil _).trans (by rw [h])) (Nat.floor_le hq)
  have hfract : Int.fract (q * (values.length - 1 : ℕ)) = 0 := by
    rw [hwhole]
    exact Int.fract_natCast _
  rw [interpolated, hfract, zero_mul, add_zero]

/-- Between two indexes the value is a weighted mean. -/
theorem interpolated_of_floor_ne_ceil (hq : 0 ≤ q * (values.length - 1 : ℕ))
    (h : ⌊q * (values.length - 1 : ℕ)⌋₊ ≠ ⌈q * (values.length - 1 : ℕ)⌉₊) :
    let rank := q * (values.length - 1 : ℕ)
    interpolated values q = valueAt values ⌊rank⌋₊ * (1 - (rank - ⌊rank⌋₊)) +
      valueAt values ⌈rank⌉₊ * (rank - ⌊rank⌋₊) := by
  intro rank
  have hstep : ⌈rank⌉₊ = ⌊rank⌋₊ + 1 := le_antisymm (Nat.ceil_le_floor_add_one _)
    (Nat.succ_le_of_lt (lt_of_le_of_ne (Nat.floor_le_ceil _) h))
  have hfract : Int.fract rank = rank - ⌊rank⌋₊ := by
    rw [Int.fract, natCast_floor_eq_intCast_floor hq]
  rw [interpolated, hstep]
  change valueAt values ⌊rank⌋₊ + Int.fract rank *
    (valueAt values (⌊rank⌋₊ + 1) - valueAt values ⌊rank⌋₊) = _
  rw [hfract]
  ring

/-- **What `interpolate_quantile` computes.** -/
theorem interpolateQuantile_finite (hne : values ≠ []) (hq : q ∈ Set.Icc 0 1) :
    interpolateQuantile (values.map Exact.finite) (.finite q) = .finite (interpolated values q) := by
  have hpos : 0 < values.length := List.length_pos_iff.mpr hne
  have hupper := upperIndex_lt hpos hq.2
  have hlower := (lowerIndex_le_upperIndex values.length q).trans_lt hupper
  have hnonneg : 0 ≤ q * (values.length - 1 : ℕ) := mul_nonneg hq.1 (Nat.cast_nonneg _)
  rcases Nat.lt_or_ge 1 values.length with hlong | hshort
  · rw [interpolateQuantile_of_one_lt (by rwa [List.length_map]), List.length_map,
      getD_map_finite values hlower, getD_map_finite values hupper, lowerIndex_finite,
      upperIndex_finite]
    split_ifs with heq
    · rw [interpolated_of_floor_eq_ceil hnonneg heq]
    · simp only [interpolated_of_floor_ne_ceil hnonneg heq, quantileRank_finite, Exact.ofU64_eq,
        Exact.one_eq, Exact.sub_finite, Exact.mul_finite, Exact.add_finite]
  · obtain ⟨value, rfl⟩ := List.length_eq_one_iff.mp (le_antisymm hshort hpos)
    simp [interpolateQuantile, interpolated, valueAt]

/-- **Quantiles lie between the values** around their rank, and rise with it. -/
theorem interpolateQuantile_monotoneOn (hne : values ≠ []) (hsorted : values.SortedLE) :
    ∃ value : ℚ → ℚ, MonotoneOn value (Set.Icc 0 1) ∧ ∀ q ∈ Set.Icc 0 1,
      interpolateQuantile (values.map Exact.finite) (.finite q) = .finite (value q) ∧
        lowerIndex values.length (Exact.finite q) < values.length ∧
        upperIndex values.length (Exact.finite q) < values.length ∧
        value q ∈ Set.Icc (values.head hne) (values.getLast hne) := by
  refine ⟨interpolated values, interpolated_monotoneOn hsorted, fun q hq => ?_⟩
  have hupper := upperIndex_lt (List.length_pos_iff.mpr hne) hq.2
  have hpiece := interpolated_mem_pieces hsorted q
  exact ⟨interpolateQuantile_finite hne hq, (lowerIndex_le_upperIndex _ q).trans_lt hupper, hupper,
    (valueAt_mem_Icc hne hsorted _).1.trans hpiece.1,
    hpiece.2.trans (valueAt_mem_Icc hne hsorted _).2⟩

/-- The median of two latencies. -/
theorem interpolateQuantile_monotoneOn_latencies :
    ∃ value : ℚ → ℚ, MonotoneOn value (Set.Icc 0 1) ∧ ∀ q ∈ Set.Icc 0 1,
      interpolateQuantile ([1 / 5, 7].map Exact.finite) (.finite q) = .finite (value q) ∧
        lowerIndex 2 (Exact.finite q) < 2 ∧ upperIndex 2 (Exact.finite q) < 2 ∧
        value q ∈ Set.Icc (1 / 5) 7 :=
  interpolateQuantile_monotoneOn (List.cons_ne_nil _ _)
    (List.sortedLE_iff_isChain.mpr (.cons_cons (by norm_num) (.singleton _)))

/-! ### The quantile functions -/

theorem sorted_map_finite (values : List ℚ) :
    FloatOps.sorted (values.map Exact.finite) =
      (values.insertionSort (· ≤ ·)).map Exact.finite := by
  refine (List.map_insertionSort (· ≤ ·) (fun a b => FloatOps.lt (id b) (id a) = false)
    Exact.finite values fun a _ b _ => ?_).symm
  rw [id, id, Exact.lt_finite, decide_eq_false_iff_not, not_lt]

/-- **`quantile_over_time`** of numbers lies between the least and the greatest of them, and rises
with the quantile. -/
theorem quantileOverTime_monotoneOn {samples : List (Sample Exact)} (hne : samples ≠ [])
    (hfinite : samples.map Sample.value = values.map Exact.finite) :
    ∃ value : ℚ → ℚ, MonotoneOn value (Set.Icc 0 1) ∧ ∀ q ∈ Set.Icc 0 1,
      quantileOverTime (.finite q) samples = some (.finite (value q)) ∧
        ∃ least ∈ values, ∃ greatest ∈ values, value q ∈ Set.Icc least greatest := by
  have hvalues : values.insertionSort (· ≤ ·) ≠ [] := by
    rw [← List.length_pos_iff, List.length_insertionSort, ← List.length_map Exact.finite, ← hfinite,
      List.length_map]
    exact List.length_pos_iff.mpr hne
  obtain ⟨value, hmono, hvalue⟩ :=
    interpolateQuantile_monotoneOn hvalues (List.sortedLE_insertionSort)
  refine ⟨value, hmono, fun q hq => ?_⟩
  obtain ⟨heq, _, _, hmem⟩ := hvalue q hq
  refine ⟨?_, _, (List.mem_insertionSort _).mp (List.head_mem hvalues), _,
    (List.mem_insertionSort _).mp (List.getLast_mem hvalues), hmem⟩
  have hunit : inUnitInterval (Exact.finite q) = true := by
    rw [inUnitInterval, Exact.zero_eq, Exact.one_eq, Exact.le_finite, Exact.le_finite]
    simpa using hq
  rw [quantileOverTime, hfinite, sorted_map_finite, heq, hunit]
  simp [hne]

end PromQL

end Aniani
