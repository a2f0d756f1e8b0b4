import Aniani.Query.PromQL.Selectors

/-!
# PromQL aggregation

An aggregation files the series under the labels its modifier keeps, in a `BTreeMap`, and makes one
series of each group: for every time some series of the group has, the aggregate of the values at
that time. `topk` and `bottomk` keep whole series, ranked by their last samples.

## Main definitions

* `computeGroupLabels`, `AggregateFunc.apply`
* `aggregateGroup`, `quantileGroup`
* `evalAggregation`
-/

namespace Aniani

namespace PromQL

variable {F64 : Type}

/-- `compute_group_labels`. -/
def computeGroupLabels (modifier : Option LabelModifier) (labels : SeriesLabelSet) :
    SeriesLabelSet :=
  match modifier with
  | some (.include names) => labels.filter fun label => names.contains label.1
  | some (.exclude names) => labels.filter fun label => !names.contains label.1
  | none => []

/-- The value at a time, the last one if there are several. -/
def sampleLookup (samples : List (ℤ × F64)) (t : ℤ) : Option F64 :=
  (samples.reverse.find? fun s => s.1 == t).map Prod.snd

/-- The times of the series of a group, each once and in order. -/
def sampleTimes (series : List (SeriesResult F64)) : List ℤ :=
  (series.flatMap fun sr => sr.samples.map Prod.fst).dedup.sortByKey id

/-- The values of the series of a group at a time. -/
def valuesAt (series : List (SeriesResult F64)) (t : ℤ) : List F64 :=
  series.filterMap fun sr => sampleLookup sr.samples t

/-- The values of the series of a group at each of their times, through a function. -/
def groupSamples (f : List F64 → F64) (series : List (SeriesResult F64)) : List (ℤ × F64) :=
  (sampleTimes series).filterMap fun t =>
    let values := valuesAt series t
    if values.isEmpty then none else some (t, f values)

section Functions

variable [FloatOps F64]

/-- `usize::MAX`. -/
def usizeMax : ℕ := 2 ^ 64 - 1

/-- `scalar_to_count`. -/
def scalarToCount (value : F64) : ℕ :=
  if !FloatOps.isFinite value || FloatOps.le value Float64.zero then 0
  else if FloatOps.le (Float64.ofU64 usizeMax) value then usizeMax
  else FloatOps.toUsize value

/-- The value of the last sample, for ranking. -/
def rankValue (sr : SeriesResult F64) : F64 :=
  (sr.samples.getLast?.map Prod.snd).getD FloatOps.nan

/-- What an aggregation makes of the values at one time. -/
def AggregateFunc.apply (f : AggregateFunc) (values : List F64) : F64 :=
  match f with
  | .sum => FloatOps.sum values
  | .avg => mean values
  | .max => values.foldl FloatOps.max FloatOps.negInfinity
  | .min => values.foldl FloatOps.min FloatOps.infinity
  | .count => Float64.ofU64 values.length
  | .group => FloatOps.one
  | .stddev => FloatOps.sqrt (variance values)
  | .stdvar => variance values

/-- `aggregate_group`. -/
def aggregateGroup (f : AggregateFunc) (series : List (SeriesResult F64)) : List (ℤ × F64) :=
  if series.isEmpty then [] else groupSamples f.apply series

/-- `quantile_group`. -/
def quantileGroup (q : F64) (series : List (SeriesResult F64)) : List (ℤ × F64) :=
  if series.isEmpty || !inUnitInterval q then []
  else groupSamples (fun values => interpolateQuantile (FloatOps.sorted values) q) series

/-- The series filed under their group labels. -/
def groupSeries (modifier : Option LabelModifier) (series : List (SeriesResult F64)) :
    List (SeriesLabelSet × List (SeriesResult F64)) :=
  groupBy (fun sr => computeGroupLabels modifier sr.labels) series

/-- `eval_quantile_aggregation`. -/
def evalQuantileAggregation (q : F64) (series : List (SeriesResult F64))
    (modifier : Option LabelModifier) : PromQLResult F64 :=
  .instantVector ((groupSeries modifier series).filterMap fun group =>
    seriesOf group.1 (quantileGroup q group.2))

/-- The branch `topk`. -/
def topk (k : ℕ) (series : List (SeriesResult F64)) : List (SeriesResult F64) :=
  (FloatOps.sortedByDesc rankValue series).take k

/-- The branch `bottomk`. -/
def bottomk (k : ℕ) (series : List (SeriesResult F64)) : List (SeriesResult F64) :=
  (FloatOps.sortedBy rankValue series).take k

/-- The parameter of `topk` and `bottomk`. -/
def rankParam : Option (PromQLResult F64) → Except PromQLError ℕ
  | some (.scalar v) => .ok (scalarToCount v)
  | some _ => .error (.eval "topk/bottomk parameter must be a scalar")
  | none => .error (.eval "topk/bottomk requires a parameter k")

/-- The parameter of `quantile`. -/
def quantileParam : Option (PromQLResult F64) → Except PromQLError F64
  | some (.scalar v) => .ok v
  | some _ => .error (.eval "quantile parameter must be a scalar")
  | none => .error (.eval "quantile requires a parameter φ")

/-- `eval_aggregation` on series. -/
def aggregateSeries (op : AggregateOp) (modifier : Option LabelModifier)
    (series : List (SeriesResult F64)) (param : Option (PromQLResult F64)) : Outcome F64 :=
  match op with
  | .topk => (rankParam param).map fun k => .instantVector (topk k series)
  | .bottomk => (rankParam param).map fun k => .instantVector (bottomk k series)
  | .countValues => .error (.unsupported "count_values aggregation")
  | .quantile => (quantileParam param).map fun q => evalQuantileAggregation q series modifier
  | .func f => .ok (.instantVector ((groupSeries modifier series).map fun group =>
      ⟨group.1, aggregateGroup f group.2⟩))
  | .other name => .error (.unsupported ("aggregation: " ++ name))

/-- `eval_aggregation`. -/
def evalAggregation (op : AggregateOp) (modifier : Option LabelModifier)
    (inner : PromQLResult F64) (param : Option (PromQLResult F64)) : Outcome F64 :=
  match inner with
  | .instantVector series => aggregateSeries op modifier series param
  | .rangeVector series => aggregateSeries op modifier series param
  | .scalar v => .ok (.scalar v)

end Functions

end PromQL

end Aniani
