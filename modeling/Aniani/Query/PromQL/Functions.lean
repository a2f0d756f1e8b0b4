import Aniani.ForMathlib.SortedGroups
import Aniani.Query.PromQL.Syntax
import Mathlib.Data.List.Lex
import Mathlib.Data.Prod.Lex
import Mathlib.Data.String.Basic

/-!
# PromQL functions on results

The functions that work on a result and do not read the store. Most change the value of each sample
or the labels of each series and nothing else. `histogram_quantile` regroups the series by their
labels without `le`.

## Main definitions

* `mapValues`, `mapLabels` — what such a function does to a result
* `applyScalarFunc`, `applyMathFunc`, `applyClamp`, `applyUnaryMinus`, `applyTimestamp`
* `evalLabelReplace`, `evalLabelJoin`
* `interpolateQuantile`, `evalHistogramQuantile`
-/

namespace Aniani

namespace PromQL

open FloatOps

variable {F64 : Type}

/-! ### Values -/

/-- Change the value of each sample of a vector, or a scalar; a range vector stays. -/
def mapValues (g : F64 → F64) : PromQLResult F64 → PromQLResult F64
  | .instantVector series => .instantVector (series.map fun sr =>
      { sr with samples := sr.samples.map fun s => (s.1, g s.2) })
  | .scalar v => .scalar (g v)
  | other => other

section Values

variable [FloatOps F64]

/-- `apply_unary_minus`. -/
def applyUnaryMinus (result : PromQLResult F64) : PromQLResult F64 := mapValues neg result

/-- What `apply_scalar_func` does to a value. -/
def ScalarFunc.apply : ScalarFunc → F64 → F64
  | .abs => FloatOps.abs
  | .ceil => FloatOps.ceil
  | .floor => FloatOps.floor
  | .round => FloatOps.round

/-- `apply_scalar_func`. -/
def applyScalarFunc (f : ScalarFunc) (result : PromQLResult F64) : PromQLResult F64 :=
  mapValues f.apply result

/-- What `apply_math_func` does to a value. -/
def MathFunc.apply : MathFunc → F64 → F64
  | .ln => FloatOps.ln
  | .log2 => FloatOps.log2
  | .log10 => FloatOps.log10
  | .exp => FloatOps.exp
  | .sqrt => FloatOps.sqrt
  | .sgn => fun v =>
    if isNan v then nan
    else if lt Float64.zero v then one
    else if lt v Float64.zero then neg one
    else Float64.zero

/-- `apply_math_func`. -/
def applyMathFunc (f : MathFunc) (result : PromQLResult F64) : PromQLResult F64 :=
  mapValues f.apply result

/-- What `apply_clamp` does to a value: the least first. -/
def clampValue (minVal maxVal : Option F64) (v : F64) : F64 :=
  let v := match minVal with
    | some least => if lt v least then least else v
    | none => v
  match maxVal with
  | some greatest => if lt greatest v then greatest else v
  | none => v

/-- `apply_clamp`. -/
def applyClamp (minVal maxVal : Option F64) (result : PromQLResult F64) : PromQLResult F64 :=
  mapValues (clampValue minVal maxVal) result

/-- A time in milliseconds as seconds. -/
def seconds (ms : ℤ) : F64 := div (Float64.ofI64 ms) (Float64.ofI64 1000)

/-- `apply_timestamp`. -/
def applyTimestamp : PromQLResult F64 → PromQLResult F64
  | .instantVector series => .instantVector (series.map fun sr =>
      { sr with samples := sr.samples.map fun s => (s.1, seconds s.1) })
  | other => other

end Values

/-! ### Labels -/

/-- Change the labels of each series of a vector. -/
def mapLabels (g : SeriesLabelSet → SeriesLabelSet) : PromQLResult F64 → PromQLResult F64
  | .instantVector series => .instantVector (series.map fun sr => { sr with labels := g sr.labels })
  | .rangeVector series => .instantVector (series.map fun sr => { sr with labels := g sr.labels })
  | other => other

/-- The value of the first label of a name. -/
def labelValue (labels : SeriesLabelSet) (name : String) : Option String :=
  (labels.find? fun label => label.1 == name).map Prod.snd

/-- Overwrite the first label of a name, or add one at the end. -/
def assignLabel (labels : SeriesLabelSet) (name value : String) : SeriesLabelSet :=
  match labels with
  | [] => [(name, value)]
  | (k, v) :: labels =>
    if k = name then (k, value) :: labels else (k, v) :: assignLabel labels name value

/-- Sort labels by name, ties in the order they came. -/
def sortLabels (labels : SeriesLabelSet) : SeriesLabelSet := labels.sortByKey Prod.fst

/-- Set a label: remove it when the value is empty, overwrite it in place when there is one, and
sort when it is new. -/
def setLabel (name value : String) (labels : SeriesLabelSet) : SeriesLabelSet :=
  if value = "" then labels.filter fun label => label.1 != name
  else if (labelValue labels name).isSome then assignLabel labels name value
  else sortLabels (labels ++ [(name, value)])

/-- `extract_string_arg`. -/
def extractStringArg : Expr F64 → Except PromQLError String
  | .stringLiteral val => .ok val
  | _ => .error (.eval "expected string literal argument")

/-- Put the groups of a match into the replacement, from the last group to the first. The list has
the groups from the `n`-th on. -/
def expandGroups (replacement : String) : ℕ → List (Option String) → String
  | _, [] => replacement
  | n, group :: groups =>
    (expandGroups replacement (n + 1) groups).replace ("$" ++ toString n) (group.getD "")

/-- What `eval_label_replace` does to a label set. -/
def replaceLabel (re : String → Option (List (Option String))) (dstLabel replacement srcLabel : String)
    (labels : SeriesLabelSet) : SeriesLabelSet :=
  match re ((labelValue labels srcLabel).getD "") with
  | some groups => setLabel dstLabel (expandGroups replacement 1 groups) labels
  | none => labels

/-- `eval_label_replace`, with the arguments of the call. -/
def evalLabelReplace (regexNew : String → Option (String → Option (List (Option String))))
    (args : List (Expr F64)) (inner : PromQLResult F64) :
    Except PromQLError (PromQLResult F64) :=
  match args with
  | _ :: dst :: replacement :: src :: regex :: _ => do
    let dstLabel ← extractStringArg dst
    let replacement ← extractStringArg replacement
    let srcLabel ← extractStringArg src
    let regexStr ← extractStringArg regex
    match regexNew ("^(?:" ++ regexStr ++ ")$") with
    | none => .error (.eval ("invalid regex: " ++ regexStr))
    | some re => .ok (mapLabels (replaceLabel re dstLabel replacement srcLabel) inner)
  | _ => .error (.eval "label_replace requires 5 arguments")

/-- What `eval_label_join` does to a label set. -/
def joinLabel (dstLabel separator : String) (srcLabels : List String) (labels : SeriesLabelSet) :
    SeriesLabelSet :=
  setLabel dstLabel
    (separator.intercalate (srcLabels.map fun src => (labelValue labels src).getD "")) labels

/-- `eval_label_join`, with the arguments of the call. -/
def evalLabelJoin (args : List (Expr F64)) (inner : PromQLResult F64) :
    Except PromQLError (PromQLResult F64) :=
  match args with
  | _ :: dst :: separator :: src :: srcs => do
    let dstLabel ← extractStringArg dst
    let separator ← extractStringArg separator
    let srcLabels ← (src :: srcs).mapM extractStringArg
    .ok (mapLabels (joinLabel dstLabel separator srcLabels) inner)
  | _ => .error (.eval "label_join requires at least 4 arguments")

/-! ### Groups -/

/-- Label sets in the order of a `BTreeMap`: pair by pair, name before value. -/
def labelsOrder (labels : SeriesLabelSet) : List (String ×ₗ String) := labels.map toLex

/-- What is filed under the keys of a `BTreeMap`, key by key: each key once, in order, with what has
it, in the order it came. -/
def groupBy {α : Type} (key : α → SeriesLabelSet) (l : List α) : List (SeriesLabelSet × List α) :=
  l.sortedGroups labelsOrder key

/-! ### Quantiles -/

section Quantile

variable [FloatOps F64]

/-- The range `0.0..=1.0` has the number. -/
def inUnitInterval (q : F64) : Bool := le Float64.zero q && le q one

/-- The rank of a quantile among `n` values. -/
def quantileRank (n : ℕ) (q : F64) : F64 := mul q (Float64.ofU64 (n - 1))

/-- The index that `interpolate_quantile` reads below the rank. -/
def lowerIndex (n : ℕ) (q : F64) : ℕ := toUsize (FloatOps.floor (quantileRank n q))

/-- The index that `interpolate_quantile` reads above the rank. -/
def upperIndex (n : ℕ) (q : F64) : ℕ := toUsize (FloatOps.ceil (quantileRank n q))

/-- `interpolate_quantile`. An index out of range, where the program would panic, gives `NaN`. -/
def interpolateQuantile (sortedValues : List F64) (q : F64) : F64 :=
  match sortedValues with
  | [] => nan
  | [value] => value
  | values =>
    let lower := lowerIndex values.length q
    let upper := upperIndex values.length q
    if lower = upper then values.getD lower nan
    else
      let fraction := sub (quantileRank values.length q) (Float64.ofU64 lower)
      add (mul (values.getD lower nan) (sub one fraction)) (mul (values.getD upper nan) fraction)

/-- The loop of `eval_histogram_quantile` over the buckets of one time, as pairs of bound and count:
the value, if a bucket reaches the target. -/
def bucketLoop (target : F64) : F64 → F64 → List (F64 × F64) → Option F64
  | _, _, [] => none
  | prevCount, prevBound, (bound, count) :: buckets =>
    if le target count then
      some (if isInfinite bound then prevBound
        else if eq count prevCount then bound
        else add prevBound (mul (div (sub target prevCount) (sub count prevCount))
          (sub bound prevBound)))
    else bucketLoop target count bound buckets

/-- The quantile at one time, from its buckets as pairs of bound and count. -/
def bucketQuantile (quantile : F64) (buckets : List (F64 × F64)) : Option F64 :=
  match buckets.getLast? with
  | none => none
  | some (lastBound, total) =>
    if eq total Float64.zero then none
    else some ((bucketLoop (mul quantile total) Float64.zero Float64.zero buckets).getD lastBound)

/-- The bound of a bucket, by its label `le`. -/
def bucketBound (labels : SeriesLabelSet) : Option F64 :=
  (labelValue labels "le").map fun v =>
    if v = "+Inf" then infinity else (FloatOps.parse v).getD infinity

/-- `eval_histogram_quantile`: the times are those of the first bucket of a group. -/
def evalHistogramQuantile (quantile : F64) : PromQLResult F64 → Outcome F64
  | .instantVector series =>
    let buckets := series.filterMap fun sr =>
      (bucketBound sr.labels : Option F64).map fun bound =>
        (sr.labels.filter fun label => label.1 != "le", bound, sr.samples)
    .ok (.instantVector ((groupBy Prod.fst buckets).filterMap fun group =>
      let sorted := sortedBy (fun bucket => bucket.2.1) group.2
      let timestamps := (sorted.head?.map fun bucket => bucket.2.2.map Prod.fst).getD []
      seriesOf group.1 (timestamps.filterMap fun t =>
        (bucketQuantile quantile (sorted.filterMap fun bucket =>
          (bucket.2.2.find? fun s => s.1 == t).map fun s => (bucket.2.1, s.2))).map fun v => (t, v))))
  | _ => .error (.eval "histogram_quantile requires instant vector")

end Quantile

end PromQL

end Aniani
