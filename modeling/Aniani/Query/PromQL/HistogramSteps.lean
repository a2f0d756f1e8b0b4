import Aniani.ForMathlib.KeyedPerm
import Aniani.Query.FloatOrder
import Aniani.Query.PromQL.Stepwise

/-!
# `histogram_quantile`, step by step

`histogram_quantile` puts the buckets of a histogram in the order of their bounds and takes the times
from the first of them. In an instant query every bucket has its one value at the one time, so any of
them will do. In a range query the first bucket may have no value at a step where others have one, and
then the histogram is not reported there.

## Main definitions

* `BucketEntry`, `bucketEntries` — the buckets of some series
* `rangeQuantile`, `instantQuantile` — what the two queries report of a group at a time
* `GroupSettled`, `BucketsSettled` — the condition

## Main results

* `seriesAt_quantileSeries`, `evalHistogramQuantile_seriesAt` — the two queries, group by group
* `evalHistogramQuantile_agree_iff` — the function on some series
* `evaluateRange_histogramQuantile_iff` — **when the two agree**
-/

namespace Aniani

namespace PromQL

open FloatOps Signal

variable {F64 : Type}

/-! ### Buckets -/

/-- A bucket: the labels without `le`, the bound and the samples. -/
abbrev BucketEntry (F64 : Type) := SeriesLabelSet × F64 × List (ℤ × F64)

/-- The bound and the value of a bucket at a time, if it has one. -/
def countAt (t : ℤ) (bucket : BucketEntry F64) : Option (F64 × F64) :=
  (bucket.2.2.find? fun s => s.1 == t).map fun s => (bucket.2.1, s.2)

/-- The bucket has a value at a time. -/
def presentAt (t : ℤ) (bucket : BucketEntry F64) : Bool := (countAt t bucket).isSome

/-- A bucket at a time. -/
def cutAt (t : ℤ) (bucket : BucketEntry F64) : BucketEntry F64 :=
  (bucket.1, bucket.2.1, bucket.2.2.filter fun s => s.1 == t)

/-- The times of the first of some buckets. -/
def firstTimes (buckets : List (BucketEntry F64)) : List ℤ :=
  (buckets.head?.map fun bucket => bucket.2.2.map Prod.fst).getD []

theorem countAt_cutAt (t : ℤ) (bucket : BucketEntry F64) :
    countAt t (cutAt t bucket) = countAt t bucket := by
  have hfind : (bucket.2.2.filter fun s => s.1 == t).find? (fun s => s.1 == t) =
      bucket.2.2.find? fun s => s.1 == t := by
    rw [← List.head?_filter, ← List.head?_filter, List.filter_filter]
    simp only [Bool.and_self]
  rw [countAt, countAt, cutAt, hfind]

theorem presentAt_iff {t : ℤ} {bucket : BucketEntry F64} :
    presentAt t bucket = true ↔ t ∈ bucket.2.2.map Prod.fst := by
  rw [presentAt, countAt, Option.isSome_map, List.find?_isSome, List.mem_map]
  simp only [beq_iff_eq]

/-- The times of a bucket that has one sample for each. -/
theorem map_fst_cutAt {t : ℤ} {bucket : BucketEntry F64} (hn : (bucket.2.2.map Prod.fst).Nodup)
    (ht : presentAt t bucket = true) : (cutAt t bucket).2.2.map Prod.fst = [t] := by
  have hpoint : (bucket.2.2.map Prod.fst).filter (fun t' => t' == t) = [t] := by
    rw [List.filter_beq, List.count_eq_one_of_mem hn (presentAt_iff.mp ht)]
    rfl
  rw [← hpoint, List.filter_map]
  rfl

section Quantile

variable [FloatOps F64]

/-- The buckets of some series; a series without `le` is none. -/
def bucketEntries (series : List (SeriesResult F64)) : List (BucketEntry F64) :=
  series.filterMap fun sr => (bucketBound sr.labels : Option F64).map fun bound =>
    (sr.labels.filter fun label => label.1 != "le", bound, sr.samples)

/-- Buckets in the order of their bounds. -/
def byBound (buckets : List (BucketEntry F64)) : List (BucketEntry F64) :=
  sortedBy (fun bucket => bucket.2.1) buckets

/-- The quantile at a time, from the buckets that have a value there. -/
def quantileAt (quantile : F64) (sorted : List (BucketEntry F64)) (t : ℤ) : Option F64 :=
  bucketQuantile quantile (sorted.filterMap (countAt t))

/-- The series of a group. -/
def quantileSeries (quantile : F64) (group : SeriesLabelSet × List (BucketEntry F64)) :
    Option (SeriesResult F64) :=
  seriesOf group.1 (sample (firstTimes (byBound group.2)) (quantileAt quantile (byBound group.2)))

theorem evalHistogramQuantile_eq (quantile : F64) (series : List (SeriesResult F64)) :
    evalHistogramQuantile quantile (.instantVector series) =
      .ok (.instantVector ((groupBy Prod.fst (bucketEntries series)).filterMap
        (quantileSeries quantile))) := rfl

/-- What a range query reports of a group at a time. -/
def rangeQuantile (quantile : F64) (t : ℤ) (group : List (BucketEntry F64)) : Option F64 :=
  if t ∈ firstTimes (byBound group) then quantileAt quantile (byBound group) t else none

/-- What an instant query reports of it. -/
def instantQuantile (quantile : F64) (t : ℤ) (group : List (BucketEntry F64)) : Option F64 :=
  quantileAt quantile (byBound (group.filter (presentAt t))) t

omit [FloatOps F64] in
theorem mem_firstTimes {t : ℤ} {buckets : List (BucketEntry F64)} :
    t ∈ firstTimes buckets ↔ ∃ first ∈ buckets.head?, presentAt t first = true := by
  rw [firstTimes]
  cases buckets with
  | nil => simp
  | cons first buckets => simp [presentAt_iff]

theorem quantileAt_map_cutAt (quantile : F64) (t : ℤ) (buckets : List (BucketEntry F64)) :
    quantileAt quantile (buckets.map (cutAt t)) t = quantileAt quantile buckets t := by
  rw [quantileAt, quantileAt, List.filterMap_map]
  have hcount : countAt t ∘ cutAt t = (countAt t : BucketEntry F64 → Option (F64 × F64)) := by
    funext bucket
    exact countAt_cutAt t bucket
  rw [hcount]

theorem mem_byBound {bucket : BucketEntry F64} {buckets : List (BucketEntry F64)} :
    bucket ∈ byBound buckets ↔ bucket ∈ buckets := mem_sortedBy

/-! ### Group by group -/

/-- Each time of a bucket is the time of one sample. -/
def TimesNodup (buckets : List (BucketEntry F64)) : Prop :=
  ∀ bucket ∈ buckets, (bucket.2.2.map Prod.fst).Nodup

theorem TimesNodup.firstTimes {buckets : List (BucketEntry F64)} (h : TimesNodup buckets) :
    (firstTimes (byBound buckets)).Nodup := by
  rw [PromQL.firstTimes]
  cases hsorted : byBound buckets with
  | nil => exact List.nodup_nil
  | cons first rest =>
    exact h first (mem_byBound.mp (hsorted ▸ List.mem_cons_self))

/-- **A range query at a time**, group by group. -/
theorem seriesAt_quantileSeries (quantile : F64) (t : ℤ)
    {groups : List (SeriesLabelSet × List (BucketEntry F64))}
    (h : ∀ group ∈ groups, TimesNodup group.2) :
    seriesAt t (groups.filterMap (quantileSeries quantile)) =
      groups.filterMap fun group =>
        (rangeQuantile quantile t group.2).map fun v => ⟨group.1, [(t, v)]⟩ := by
  rw [seriesAt, List.filterMap_filterMap]
  refine List.filterMap_congr fun group hgroup => ?_
  rw [quantileSeries, seriesOf_bind_self _ _ rfl, sample_filter_eq (h group hgroup).firstTimes]
  exact seriesOf_singleton _ _ _

/-- The series of a group in an instant query. -/
theorem quantileSeries_cutAt (quantile : F64) (t : ℤ)
    {group : SeriesLabelSet × List (BucketEntry F64)} (h : TimesNodup group.2) :
    quantileSeries quantile (group.1, (group.2.filter (presentAt t)).map (cutAt t)) =
      (instantQuantile quantile t group.2).map fun v => ⟨group.1, [(t, v)]⟩ := by
  have hsorted : byBound ((group.2.filter (presentAt t)).map (cutAt t)) =
      (byBound (group.2.filter (presentAt t))).map (cutAt t) :=
    (map_sortedBy (fun bucket : BucketEntry F64 => bucket.2.1) (cutAt t) _).symm
  rw [quantileSeries, hsorted, instantQuantile, ← seriesOf_singleton group.1 t]
  cases hbuckets : byBound (group.2.filter (presentAt t)) with
  | nil => rfl
  | cons first rest =>
    have hfirst : first ∈ group.2.filter (presentAt t) :=
      mem_byBound.mp (hbuckets ▸ List.mem_cons_self)
    obtain ⟨hmem, hpresent⟩ := List.mem_filter.mp hfirst
    have htimes : firstTimes ((first :: rest).map (cutAt t)) = [t] :=
      map_fst_cutAt (h first hmem) hpresent
    rw [htimes, ← quantileAt_map_cutAt]
    rfl

/-! ### The buckets that are there at a time -/

omit [FloatOps F64] in
theorem presentAt_eq (t : ℤ) (bucket : BucketEntry F64) :
    presentAt t bucket = !(bucket.2.2.filter fun s => s.1 == t).isEmpty := by
  rw [presentAt, countAt, Option.isSome_map, ← List.head?_filter]
  cases bucket.2.2.filter fun s => s.1 == t <;> rfl

theorem bucketEntries_seriesAt (t : ℤ) (series : List (SeriesResult F64)) :
    bucketEntries (seriesAt t series) =
      ((bucketEntries series).filter (presentAt t)).map (cutAt t) := by
  rw [bucketEntries, bucketEntries, seriesAt, List.filterMap_filterMap, List.filter_filterMap,
    List.map_filterMap]
  refine List.filterMap_congr fun sr _ => ?_
  rw [seriesOf]
  cases hbound : (bucketBound sr.labels : Option F64) with
  | none => split <;> simp [hbound]
  | some bound =>
    rw [Option.map_some, Option.filter_some, presentAt_eq]
    cases hempty : (sr.samples.filter fun s => s.1 == t).isEmpty with
    | true => rfl
    | false =>
      show (bucketBound sr.labels : Option F64).map _ = _
      rw [hbound]
      rfl

/-- The groups of the buckets that are there. -/
theorem groupBy_seriesAt (t : ℤ) (series : List (SeriesResult F64)) :
    groupBy Prod.fst (bucketEntries (seriesAt t series)) =
      (((groupBy Prod.fst (bucketEntries series)).map fun group =>
        (group.1, group.2.filter (presentAt t))).filter fun group => !group.2.isEmpty).map
          fun group => (group.1, group.2.map (cutAt t)) := by
  rw [bucketEntries_seriesAt, groupBy, List.sortedGroups_map]
  congr 1
  exact List.sortedGroups_filter labelsOrder_injective (presentAt t)

/-- **An instant query**, group by group, from the series of the range query. -/
theorem evalHistogramQuantile_seriesAt (quantile : F64) (t : ℤ) {series : List (SeriesResult F64)}
    (h : ∀ group ∈ groupBy Prod.fst (bucketEntries series), TimesNodup group.2) :
    evalHistogramQuantile quantile (.instantVector (seriesAt t series)) =
      .ok (.instantVector ((groupBy Prod.fst (bucketEntries series)).filterMap fun group =>
        (instantQuantile quantile t group.2).map fun v => ⟨group.1, [(t, v)]⟩)) := by
  rw [evalHistogramQuantile_eq, groupBy_seriesAt, List.filterMap_map, List.filterMap_filter,
    List.filterMap_map]
  congr 2
  refine List.filterMap_congr fun group hgroup => ?_
  rw [← quantileSeries_cutAt quantile t (h group hgroup)]
  show (if (!(group.2.filter (presentAt t)).isEmpty) = true then
    quantileSeries quantile (group.1, (group.2.filter (presentAt t)).map (cutAt t)) else none) = _
  cases group.2.filter (presentAt t) <;> rfl

omit [FloatOps F64] in
theorem agree_groups_iff {t : ℤ} {groups : List (SeriesLabelSet × List (BucketEntry F64))}
    (hn : (groups.map Prod.fst).Nodup) {f g : List (BucketEntry F64) → Option F64} :
    (groups.filterMap fun group => (f group.2).map fun v =>
        (⟨group.1, [(t, v)]⟩ : SeriesResult F64)).Perm
      (groups.filterMap fun group => (g group.2).map fun v => ⟨group.1, [(t, v)]⟩) ↔
    ∀ group ∈ groups, f group.2 = g group.2 := by
  have hf (labels : SeriesLabelSet) :
      Function.Injective fun v : F64 => (⟨labels, [(t, v)]⟩ : SeriesResult F64) := by
    intro v v' h
    simpa using h
  have hkey (labels : SeriesLabelSet) (v : F64) :
      SeriesResult.labels (⟨labels, [(t, v)]⟩ : SeriesResult F64) = labels := rfl
  refine (List.perm_keyed_iff hf hkey).trans (List.sameValues_iff ?_)
  intro group hgroup group' hgroup' _ _ heq
  exact List.inj_on_of_nodup_map hn hgroup hgroup' heq

/-! ### The condition -/

/-- **The condition on a group**: the bucket of the least bound, of those that have a value at some
step, has one at the time; or no bucket has one there, or the last that has counts zero. Where a
bound is `NaN` the comparison the buckets are sorted by is no order, and `sort_by` promises none:
which of them comes first depends on which are there, in no way that can be read off the bounds, so
there it is only said that both orders have to give the same. -/
def GroupSettled (quantile : F64) (t : ℤ) (group : List (BucketEntry F64)) : Prop :=
  if group.any fun bucket => isNan bucket.2.1 then
    rangeQuantile quantile t group = instantQuantile quantile t group
  else
    (∃ first ∈ (byBound group).head?, presentAt t first = true) ∨
      ∀ last ∈ ((byBound group).filterMap (countAt t)).getLast?, eq last.2 Float64.zero = true

theorem bucketQuantile_eq_none_iff {quantile : F64} {buckets : List (F64 × F64)} :
    bucketQuantile quantile buckets = none ↔
      ∀ last ∈ buckets.getLast?, eq last.2 Float64.zero = true := by
  rw [bucketQuantile]
  cases buckets.getLast? with
  | none => simp
  | some last =>
    show (if eq last.2 Float64.zero = true then none else some _) = none ↔ _
    cases hzero : eq last.2 Float64.zero <;> simp [hzero]

/-- Without `NaN`, the buckets that are there come in the order they have among all. -/
theorem instantQuantile_eq [ExtendedOrder F64] {group : List (BucketEntry F64)}
    (h : ∀ bucket ∈ group, isNan bucket.2.1 = false) (quantile : F64) (t : ℤ) :
    instantQuantile quantile t group = quantileAt quantile (byBound group) t := by
  rw [instantQuantile, byBound, ← filter_sortedBy h, quantileAt, quantileAt, List.filterMap_filter]
  congr 1
  refine List.filterMap_congr fun bucket _ => ?_
  cases hcount : countAt t bucket with
  | none => simp [presentAt, hcount]
  | some count => simp [presentAt, hcount]

theorem rangeQuantile_eq_iff [ExtendedOrder F64] (quantile : F64) (t : ℤ)
    (group : List (BucketEntry F64)) :
    rangeQuantile quantile t group = instantQuantile quantile t group ↔
      GroupSettled quantile t group := by
  rw [GroupSettled]
  split
  · exact Iff.rfl
  · next h =>
    have hnan : ∀ bucket ∈ group, isNan bucket.2.1 = false := by simpa using h
    rw [instantQuantile_eq hnan, rangeQuantile, ← mem_firstTimes, ← bucketQuantile_eq_none_iff]
    by_cases ht : t ∈ firstTimes (byBound group)
    · rw [if_pos ht]
      exact iff_of_true rfl (.inl ht)
    · rw [if_neg ht, eq_comm]
      exact (or_iff_right ht).symm

theorem timesNodup_groups {series : List (SeriesResult F64)}
    (h : ∀ sr ∈ series, (sr.samples.map Prod.fst).Nodup) :
    ∀ group ∈ groupBy Prod.fst (bucketEntries series), TimesNodup group.2 := by
  intro group hgroup bucket hbucket
  obtain ⟨k, -, rfl⟩ := List.mem_map.mp hgroup
  obtain ⟨sr, hsr, hentry⟩ := List.mem_filterMap.mp (List.mem_of_mem_filter hbucket)
  obtain ⟨bound, -, rfl⟩ := Option.map_eq_some_iff.mp hentry
  exact h sr hsr

/-- **The quantiles of some series at a time** are the quantiles of what they are at the time exactly
when all groups meet the condition. -/
theorem evalHistogramQuantile_agree_iff [ExtendedOrder F64] (quantile : F64) (t : ℤ)
    {series : List (SeriesResult F64)} (h : ∀ sr ∈ series, (sr.samples.map Prod.fst).Nodup) :
    Agree ((evalHistogramQuantile quantile (.instantVector series)).map (PromQLResult.atTime t))
        (evalHistogramQuantile quantile (.instantVector (seriesAt t series))) ↔
      ∀ group ∈ groupBy Prod.fst (bucketEntries series), GroupSettled quantile t group.2 := by
  have hnodup := timesNodup_groups h
  have hkeys : ((groupBy Prod.fst (bucketEntries series)).map Prod.fst).Nodup := by
    rw [groupBy, List.sortedGroups, List.map_map]
    exact (List.map_id _).symm ▸ List.sortedKeys_nodup
  rw [evalHistogramQuantile_seriesAt quantile t hnodup, evalHistogramQuantile_eq]
  show (seriesAt t (List.filterMap _ _)).Perm _ ↔ _
  rw [seriesAt_quantileSeries quantile t hnodup, agree_groups_iff hkeys]
  exact forall₂_congr fun group _ => rangeQuantile_eq_iff quantile t group.2

end Quantile

/-! ### Expressions -/

section Expressions

variable [FloatOps F64] {Rodeo Spur : Type} [LinearOrder Spur] [Interner Rodeo Spur]
  (env : Env Rodeo Spur F64) (startMs endMs stepMs t : ℤ)

/-- **The condition**: every group of the buckets that a range query works on meets it. -/
def BucketsSettled (quantile buckets : Expr F64) : Prop := ∀ q series,
  evalExpr env (Times.ofRange startMs endMs stepMs) quantile = .ok (.scalar q) →
    evalExpr env (Times.ofRange startMs endMs stepMs) buckets = .ok (.instantVector series) →
      ∀ group ∈ groupBy Prod.fst (bucketEntries series), GroupSettled q t group.2

variable {env startMs endMs stepMs t}

omit [FloatOps F64] in
theorem evalScalarArg_eq_ok {result : Outcome F64} {error : String} {q : F64} :
    evalScalarArg result error = .ok q ↔ result = .ok (.scalar q) := by
  match result with
  | .ok (.scalar v) => simp [evalScalarArg]
  | .ok (.instantVector _) | .ok (.rangeVector _) | .error _ => simp [evalScalarArg]

/-- A reading has one sample for each time. -/
theorem Stepwise.nodup_times {e : Expr F64} (h : Stepwise env e) {times : Times}
    {series : List (SeriesResult F64)} (heval : evalExpr env times e = .ok (.instantVector series)) :
    ∀ sr ∈ series, (sr.samples.map Prod.fst).Nodup := by
  obtain ⟨reading, hreading⟩ := h
  have hresult := (hreading times).symm.trans heval
  match reading, hresult with
  | .ok (.vector rows), hresult =>
    obtain rfl := PromQLResult.instantVector.inj (Except.ok.inj hresult)
    intro sr hsr
    obtain ⟨row, -, hseries⟩ := List.mem_filterMap.mp hsr
    rw [Row.series, seriesOf] at hseries
    split at hseries
    · exact absurd hseries (by simp)
    · obtain rfl := Option.some.inj hseries
      rw [map_fst_sample]
      exact (times.points_sorted.imp ne_of_lt).filter _

/-- **A range query of `histogram_quantile`** reports at a step what the instant query gives there
exactly when every group of buckets meets the condition. -/
theorem evaluateRange_histogramQuantile_iff [ExtendedOrder F64]
    (parse : String → Except String (Expr F64)) {query : String} {quantile buckets : Expr F64}
    {args : List (Expr F64)}
    (hparse : parse query = .ok (.call .histogramQuantile (quantile :: buckets :: args)))
    (hquantile : Pointwise quantile) (hbuckets : Pointwise buckets) (hstep : 0 < stepMs)
    (hend : endMs ≤ i64Max) (n : ℕ) (ht : startMs + n * stepMs ≤ endMs) :
    Agree ((evaluateRange parse query env startMs endMs stepMs).map
        (PromQLResult.atTime (startMs + n * stepMs)))
        (evaluateInstant parse query env (startMs + n * stepMs)) ↔
      BucketsSettled env startMs endMs stepMs (startMs + n * stepMs) quantile buckets := by
  have hmem := (mem_stepTimes hstep hend).mpr ⟨n, rfl, ht⟩
  generalize startMs + n * stepMs = t at ht hmem ⊢
  have hquantile : Stepwise env quantile := hquantile.stepwise
  have hbuckets : Stepwise env buckets := hbuckets.stepwise
  have hatTime := hbuckets.atTime hstep hmem
  obtain ⟨q, hq⟩ := hquantile.scalarArg "first arg to histogram_quantile must be scalar"
  rw [evaluateRange, evaluateInstant, hparse]
  show Agree (Except.map _ ((evalScalarArg (evalExpr _ _ quantile) _).bind fun q =>
    (evalExpr _ _ buckets).bind (evalHistogramQuantile q)))
      ((evalScalarArg (evalExpr _ _ quantile) _).bind fun q =>
        (evalExpr _ _ buckets).bind (evalHistogramQuantile q)) ↔ _
  have hscalar := hq (Times.ofRange startMs endMs stepMs)
  rw [hscalar, hq, ← hatTime]
  cases q with
  | error e =>
    refine iff_of_true (Agree.of_eq rfl) fun q series heval _ => ?_
    rw [heval] at hscalar
    exact absurd hscalar (by simp [evalScalarArg])
  | ok q =>
    have hrange := evalScalarArg_eq_ok.mp hscalar
    cases heval : evalExpr env (Times.ofRange startMs endMs stepMs) buckets with
    | error e =>
      refine iff_of_true (Agree.of_eq rfl) fun q series _ hseries => ?_
      exact absurd (heval.symm.trans hseries) (by simp)
    | ok result =>
      cases result with
      | instantVector series =>
        refine (evalHistogramQuantile_agree_iff q t (hbuckets.nodup_times heval)).trans ?_
        constructor
        · intro h q' series' hq' hseries'
          obtain rfl := PromQLResult.scalar.inj (Except.ok.inj (hrange.symm.trans hq'))
          obtain rfl := PromQLResult.instantVector.inj (Except.ok.inj (heval.symm.trans hseries'))
          exact h
        · intro h
          exact h q series hrange heval
      | rangeVector series =>
        refine iff_of_true (Agree.of_eq rfl) fun q series _ hseries => ?_
        exact absurd (Except.ok.inj (heval.symm.trans hseries)) (by simp)
      | scalar v =>
        refine iff_of_true (Agree.of_eq rfl) fun q series _ hseries => ?_
        exact absurd (Except.ok.inj (heval.symm.trans hseries)) (by simp)

end Expressions

/-! ### A bucket that stops -/

/-- The number of series of an outcome. -/
def seriesCount : Outcome F64 → ℕ
  | .ok (.instantVector series) | .ok (.rangeVector series) => series.length
  | _ => 0

theorem Agree.seriesCount_eq {a b : Outcome F64} (h : Agree a b) : seriesCount a = seriesCount b := by
  unfold Agree at h
  split at h
  · exact h.length_eq
  · exact h.length_eq
  · rw [h]

/-- `rate(latency_bucket[1m])`. -/
def latencyRates : Expr Double :=
  .call (.rateLike .rate) [.matrixSelector ⟨some "latency_bucket", [], none, none⟩ 60000000000]

/-- `histogram_quantile(0.5, rate(latency_bucket[1m]))`. -/
def latencyQuantile : Expr Double :=
  .call .histogramQuantile [.numberLiteral (.ofRat (1 / 2)), latencyRates]

/-- Scrapes of a bucket, by time and count. -/
def bucketScrapes (le : String) (counts : List (ℤ × ℤ)) : MetricOp Double :=
  .ingestSamples "latency_bucket" [("le", le)]
    (counts.map fun count => ⟨count.1, Float64.ofI64 count.2, 0⟩)

/-- Three buckets; the least one is not scraped after the first minute. -/
def latencyEnv : Env VecRodeo ℕ Double where
  store := Run.exec MetricStore.apply MetricStore.new
    [bucketScrapes "1" [(10000, 0), (50000, 40)],
      bucketScrapes "2" [(10000, 0), (50000, 80), (70000, 120), (110000, 200)],
      bucketScrapes "+Inf" [(10000, 0), (50000, 160), (70000, 240), (110000, 400)]]
  it := .ascending ℕ
  itValues := .ascending ℕ
  regexNew _ := none
  debugStr s := s

/-- No number of a vector is `NaN`, and every group has its least bound at `t`. -/
def settledAt (t : ℤ) : Outcome Double → Bool
  | .ok (.instantVector series) => (groupBy Prod.fst (bucketEntries series)).all fun group =>
      !(group.2.any fun bucket => isNan bucket.2.1) && decide (t ∈ firstTimes (byBound group.2))
  | _ => false

/-- At the first step all three are there. -/
theorem evaluateRange_histogramQuantile_iff_latency :
    Agree ((evaluateRange (fun _ => .ok latencyQuantile) "" latencyEnv 60000 120000 60000).map
        (PromQLResult.atTime (60000 + (0 : ℕ) * 60000)))
      (evaluateInstant (fun _ => .ok latencyQuantile) "" latencyEnv (60000 + (0 : ℕ) * 60000)) := by
  have hgroups : settledAt (60000 + (0 : ℕ) * 60000)
      (evalExpr latencyEnv (Times.ofRange 60000 120000 60000) latencyRates) = true := by
    decide +kernel
  refine (evaluateRange_histogramQuantile_iff (fun _ => .ok latencyQuantile) rfl (.numberLiteral _)
    (.rateLike .rate _ _ []) (by decide) (by decide) 0 (by decide)).mpr ?_
  intro q series _ hseries group hgroup
  rw [show evalExpr _ _ latencyRates = _ from hseries] at hgroups
  have hgroup := List.all_eq_true.mp hgroups group hgroup
  rw [Bool.and_eq_true, Bool.not_eq_true', decide_eq_true_eq] at hgroup
  rw [GroupSettled, if_neg (by rw [hgroup.1]; exact Bool.false_ne_true)]
  exact .inl (mem_firstTimes.mp hgroup.2)

/-- At the second the instant query still gives the quantile, and the range query reports nothing. -/
theorem not_agree_latency :
    ¬ Agree ((evaluateRange (fun _ => .ok latencyQuantile) "" latencyEnv 60000 120000 60000).map
        (PromQLResult.atTime 120000))
      (evaluateInstant (fun _ => .ok latencyQuantile) "" latencyEnv 120000) := by
  intro h
  exact absurd h.seriesCount_eq (by decide +kernel)

end PromQL

end Aniani
