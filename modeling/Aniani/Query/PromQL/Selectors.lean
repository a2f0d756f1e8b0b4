import Aniani.Query.PromQL.Functions
import Aniani.Query.Window

/-!
# PromQL selectors

A selector picks series by its matchers and reads each in a window that ends at the time of
evaluation less the offset. An instant query and a range query are two branches of each function of
the evaluator. The functions on a matrix selector differ in what they make of the samples of a
window and in nothing else; `evalWindows` is their common body. It evaluates at the times of the
query whatever `@` modifier the selector carries.

## Main definitions

* `Env.selectSeries`, `Env.samples`, `Env.labels` — what is read of the store
* `evalVectorSelector`, `evalMatrixSelector`
* `computeRateLike`, `computeOverTime`, `quantileOverTime`, `countChangesOrResets`
* `evalRateLike`, `evalOverTime`, `evalQuantileOverTime`, `evalChangesOrResets`,
  `evalAbsentOverTime`

## Main results

* `Env.samples_of_sorted` — a read is the filter of the series
* `evalWindows_eq`, `evalAbsent_eq` — the two branches as one
-/

namespace Aniani

namespace PromQL

variable {Rodeo Spur F64 : Type} [LinearOrder Spur] [Interner Rodeo Spur]

/-! ### Reading the store -/

namespace Env

variable (env : Env Rodeo Spur F64)

/-- `select_series`; a matcher asks of a pattern only whether it matches. -/
def selectSeries (matchers : List LabelMatcher) : List ℕ :=
  env.store.selectSeries (fun pattern => (env.regexNew pattern).map fun re s => (re s).isSome)
    env.it env.itValues matchers

/-- `get_samples`. A read that would panic gives nothing, but no window here ends before it starts,
see `windowSamples_of_sorted`. -/
def samples (sid : ℕ) (startMs endMs : ℤ) : List (Sample F64) :=
  (env.store.getSamples sid startMs endMs).getD []

/-- `get_series_labels`. -/
def labels (sid : ℕ) : SeriesLabelSet := (env.store.getStreamLabels sid).getD []

end Env

/-! ### Times and matchers -/

/-- `i64::saturating_add`. -/
def i64SaturatingAdd (a b : ℤ) : ℤ := max i64Min (min i64Max (a + b))

/-- `i64::saturating_neg`. -/
def i64SaturatingNeg (a : ℤ) : ℤ := i64SaturatingSub 0 a

/-- `duration_to_i64_ms`. -/
def durationToI64Ms (duration : ℕ) : ℤ := min ((duration / 1000000 : ℕ) : ℤ) i64Max

/-- `offset_to_ms`. -/
def offsetToMs : Option Offset → ℤ
  | some (.pos duration) => durationToI64Ms duration
  | some (.neg duration) => i64SaturatingNeg (durationToI64Ms duration)
  | none => 0

/-- `at_to_ms`. -/
def atToMs (atModifier : Option AtModifier) (startMs endMs : ℤ) : Option ℤ :=
  match atModifier with
  | some .start => some startMs
  | some .finish => some endMs
  | some (.time t) => some (durationToI64Ms t.toNat)
  | none => none

/-- `convert_matchers`. -/
def convertMatchers (matchers : List Matcher) : List LabelMatcher :=
  matchers.map fun m => ⟨m.name, match m.op with
    | .equal => .eq
    | .notEqual => .neq
    | .re => .regex
    | .notRe => .notRegex, m.value⟩

/-- `vs_matchers`: the matchers, and one for the name unless there is one. -/
def vsMatchers (vs : VectorSelector) : List LabelMatcher :=
  let matchers := convertMatchers vs.matchers
  match vs.name with
  | some name =>
    if matchers.any fun m => m.name == "__name__" then matchers
    else matchers ++ [⟨"__name__", .eq, name⟩]
  | none => matchers

/-- `lookback_ms`. -/
def lookbackMs : ℤ := 5 * 60 * 1000

/-- `forward_buffer_ms`. -/
def forwardBufferMs : ℤ := 1000

/-- An instant query or one without a step. -/
def Times.isInstant (times : Times) : Bool := times.instant || times.stepMs == 0

/-- The times of the loop of a range query. -/
def Times.steps (times : Times) : List ℤ := stepTimes times.startMs times.endMs times.stepMs

/-! ### Selectors -/

section Selectors

variable (env : Env Rodeo Spur F64) (times : Times) (vs : VectorSelector)

/-- The last value of a window. -/
def lastValue (samples : List (Sample F64)) : Option F64 := samples.getLast?.map Sample.value

/-- `eval_vector_selector`. -/
def evalVectorSelector : PromQLResult F64 :=
  let seriesIds := env.selectSeries (vsMatchers vs)
  let offsetMs := offsetToMs vs.offset
  let atMs := atToMs vs.atModifier times.startMs times.endMs
  if times.isInstant then
    let effectiveEnd := i64SaturatingSub (atMs.getD times.endMs) offsetMs
    .instantVector (seriesIds.filterMap fun sid =>
      (lastValue (env.samples sid (i64SaturatingSub effectiveEnd lookbackMs)
        (i64SaturatingAdd effectiveEnd forwardBufferMs))).map fun last =>
          ⟨env.labels sid, [(times.endMs, last)]⟩)
  else
    .instantVector (seriesIds.filterMap fun sid =>
      seriesOf (env.labels sid) (times.steps.filterMap fun t =>
        let effectiveT := i64SaturatingSub (atMs.getD t) offsetMs
        (lastValue (env.samples sid (i64SaturatingSub effectiveT lookbackMs) effectiveT)).map
          fun last => (t, last)))

/-- `eval_matrix_selector`. -/
def evalMatrixSelector (range : ℕ) : PromQLResult F64 :=
  let seriesIds := env.selectSeries (vsMatchers vs)
  let rangeMs := durationToI64Ms range
  let evalTime := (atToMs vs.atModifier times.startMs times.endMs).getD times.endMs
  let effectiveEnd := i64SaturatingSub evalTime (offsetToMs vs.offset)
  .rangeVector (seriesIds.filterMap fun sid =>
    seriesOf (env.labels sid)
      ((env.samples sid (i64SaturatingSub effectiveEnd rangeMs) effectiveEnd).map fun s =>
        (s.timestampMs, s.value)))

/-- The window of a function on a matrix selector at a time. -/
def windowSamples (rangeMs : ℤ) (sid : ℕ) (t : ℤ) : List (Sample F64) :=
  let effectiveT := i64SaturatingSub t (offsetToMs vs.offset)
  env.samples sid (i64SaturatingSub effectiveT rangeMs) effectiveT

/-- The body of `eval_rate_like`, `eval_over_time`, `eval_quantile_over_time` and
`eval_changes_or_resets`, for a function of the samples in a window. -/
def evalWindows (rangeMs : ℤ) (f : List (Sample F64) → Option F64) : PromQLResult F64 :=
  let seriesIds := env.selectSeries (vsMatchers vs)
  if times.isInstant then
    .instantVector (seriesIds.filterMap fun sid =>
      (f (windowSamples env vs rangeMs sid times.endMs)).map fun v =>
        ⟨env.labels sid, [(times.endMs, v)]⟩)
  else
    .instantVector (seriesIds.filterMap fun sid =>
      seriesOf (env.labels sid) (times.steps.filterMap fun t =>
        (f (windowSamples env vs rangeMs sid t)).map fun v => (t, v)))

/-- Some series has a sample in the window. -/
def anyPresent (rangeMs : ℤ) (t : ℤ) : Bool :=
  (env.selectSeries (vsMatchers vs)).any fun sid => !(windowSamples env vs rangeMs sid t).isEmpty

/-- The body of `eval_absent_over_time`. -/
def evalAbsent [FloatOps F64] (rangeMs : ℤ) : PromQLResult F64 :=
  if times.isInstant then
    .instantVector (if anyPresent env vs rangeMs times.endMs then []
      else [⟨[], [(times.endMs, FloatOps.one)]⟩])
  else
    .instantVector (seriesOf [] (times.steps.filterMap fun t =>
      if anyPresent env vs rangeMs t then none else some (t, FloatOps.one))).toList

end Selectors

/-! ### The two branches as one -/

theorem seriesOf_singleton (labels : SeriesLabelSet) (t : ℤ) (v : Option F64) :
    seriesOf labels ([t].filterMap fun t => v.map fun v => (t, v)) =
      v.map fun v => ⟨labels, [(t, v)]⟩ := by
  cases v <;> rfl

theorem Times.points_of_isInstant {times : Times} (h : times.isInstant = true) :
    times.points = [times.endMs] := if_pos h

theorem Times.points_of_not_isInstant {times : Times} (h : ¬ times.isInstant = true) :
    times.points = times.steps := if_neg h

section Branches

variable (env : Env Rodeo Spur F64) (times : Times) (vs : VectorSelector) (rangeMs : ℤ)

theorem evalWindows_eq (f : List (Sample F64) → Option F64) :
    evalWindows env times vs rangeMs f = .instantVector
      ((env.selectSeries (vsMatchers vs)).filterMap fun sid =>
        seriesOf (env.labels sid) (times.points.filterMap fun t =>
          (f (windowSamples env vs rangeMs sid t)).map fun v => (t, v))) := by
  rw [evalWindows]
  split
  · next h =>
    rw [Times.points_of_isInstant h]
    congr 2
    funext sid
    exact (seriesOf_singleton _ _ _).symm
  · next h => rw [Times.points_of_not_isInstant h]

theorem evalAbsent_eq [FloatOps F64] :
    evalAbsent env times vs rangeMs = .instantVector
      (seriesOf [] (times.points.filterMap fun t =>
        if anyPresent env vs rangeMs t then none else some (t, FloatOps.one))).toList := by
  rw [evalAbsent]
  split
  · next h =>
    rw [Times.points_of_isInstant h]
    cases hp : anyPresent env vs rangeMs times.endMs <;> simp [hp, seriesOf]
  · next h => rw [Times.points_of_not_isInstant h]

end Branches

/-! ### Reads of sorted stores -/

theorem durationToI64Ms_mem (duration : ℕ) : durationToI64Ms duration ∈ Set.Icc 0 i64Max := by
  have hmax : 0 ≤ i64Max := by decide
  exact ⟨le_min (Int.natCast_nonneg _) hmax, min_le_right _ _⟩

omit [LinearOrder Spur] [Interner Rodeo Spur] in
/-- **A read is the filter of the series** where its samples are sorted, as they are in every store
that can be reached. -/
theorem Env.samples_of_sorted {env : Env Rodeo Spur F64} (h : env.store.Sorted) (sid : ℕ)
    {startMs endMs : ℤ} (hle : startMs ≤ endMs) :
    env.samples sid startMs endMs = env.store.window sid startMs endMs := by
  rw [Env.samples]
  exact congrArg (·.getD []) (LabelStore.getRange_of_le h sid hle)

omit [LinearOrder Spur] [Interner Rodeo Spur] in
/-- **No window ends before it starts**, when its end is a number of the program. -/
theorem windowSamples_of_sorted {env : Env Rodeo Spur F64} (h : env.store.Sorted)
    (vs : VectorSelector) (range sid : ℕ) (t : ℤ) :
    windowSamples env vs (durationToI64Ms range) sid t =
      env.store.window sid
        (i64SaturatingSub (i64SaturatingSub t (offsetToMs vs.offset)) (durationToI64Ms range))
        (i64SaturatingSub t (offsetToMs vs.offset)) := by
  refine Env.samples_of_sorted h sid ?_
  obtain ⟨hpos, -⟩ := durationToI64Ms_mem range
  generalize durationToI64Ms range = rangeMs at hpos
  unfold i64SaturatingSub i64Min i64Max
  omega

/-! ### Functions of a window -/

section Compute

open FloatOps

variable [FloatOps F64]

/-- How much a counter grew from one sample to the next. -/
def counterIncrease (prev curr : Sample F64) : F64 :=
  let delta := sub curr.value prev.value
  if le Float64.zero delta then delta else curr.value

/-- The loop of `compute_rate_like` over a counter: how much it grew in all. -/
def totalIncrease (samples : List (Sample F64)) : F64 :=
  (windows2 samples).foldl (fun total pair => add total (counterIncrease pair.1 pair.2))
    Float64.zero

/-- `compute_rate_like`. -/
def computeRateLike (f : RateFunc) (rangeMs : ℤ) (samples : List (Sample F64)) : Option F64 :=
  if samples.length < 2 then none
  else
    match samples.head?, samples.getLast? with
    | some first, some last =>
      let sampleDurationS := seconds (last.timestampMs - first.timestampMs)
      match f with
      | .rate =>
        if le sampleDurationS Float64.zero then none
        else some (div (totalIncrease samples) sampleDurationS)
      | .increase =>
        if le sampleDurationS Float64.zero then none
        else some (div (mul (totalIncrease samples) (seconds rangeMs)) sampleDurationS)
      | .delta => some (sub last.value first.value)
      | .deriv =>
        let n := Float64.ofU64 samples.length
        let xMean := div (FloatOps.sum (samples.map fun s => seconds s.timestampMs)) n
        let yMean := div (FloatOps.sum (samples.map Sample.value)) n
        let dx (s : Sample F64) : F64 := sub (seconds s.timestampMs) xMean
        let num := samples.foldl (fun num s => add num (mul (dx s) (sub s.value yMean)))
          Float64.zero
        let den := samples.foldl (fun den s => add den (mul (dx s) (dx s))) Float64.zero
        if lt (FloatOps.abs den) epsilon then none else some (div num den)
      | .irate =>
        match (windows2 samples).getLast? with
        | some (prev, curr) =>
          let dt : F64 := seconds (curr.timestampMs - prev.timestampMs)
          if lt Float64.zero dt then some (div (counterIncrease prev curr) dt) else none
        | none => none
    | _, _ => none

/-- The mean of some values. -/
def mean (values : List F64) : F64 := div (FloatOps.sum values) (Float64.ofU64 values.length)

/-- The variance of some values. -/
def variance (values : List F64) : F64 :=
  div (FloatOps.sum (values.map fun v => powi (sub v (mean values)) 2))
    (Float64.ofU64 values.length)

/-- `compute_over_time`. -/
def computeOverTime (f : OverTimeFunc) (samples : List (Sample F64)) : Option F64 :=
  if samples.isEmpty then none
  else
    let values := samples.map Sample.value
    match f with
    | .avg => some (mean values)
    | .min => some (values.foldl FloatOps.min infinity)
    | .max => some (values.foldl FloatOps.max negInfinity)
    | .sum => some (FloatOps.sum values)
    | .count => some (Float64.ofU64 values.length)
    | .last => values.getLast?
    | .present => some one
    | .stddev => some (sqrt (variance values))
    | .stdvar => some (variance values)

/-- `quantile_over_time`. -/
def quantileOverTime (quantile : F64) (samples : List (Sample F64)) : Option F64 :=
  if samples.isEmpty || !inUnitInterval quantile then none
  else some (interpolateQuantile (FloatOps.sorted (samples.map Sample.value)) quantile)

/-- `count_changes_or_resets`. -/
def countChangesOrResets (f : CountFunc) (samples : List (Sample F64)) : F64 :=
  (windows2 samples).foldl (fun count pair =>
    if (match f with
      | .changes => !eq pair.2.value pair.1.value
      | .resets => lt pair.2.value pair.1.value) then add count one else count) Float64.zero

/-- What `eval_changes_or_resets` makes of a window. -/
def computeChangesOrResets (f : CountFunc) (samples : List (Sample F64)) : Option F64 :=
  if samples.isEmpty then none else some (countChangesOrResets f samples)

end Compute

/-! ### Functions of a matrix selector -/

/-- The name of a function. -/
def OverTimeFunc.name : OverTimeFunc → String
  | .avg => "avg_over_time"
  | .min => "min_over_time"
  | .max => "max_over_time"
  | .sum => "sum_over_time"
  | .count => "count_over_time"
  | .last => "last_over_time"
  | .present => "present_over_time"
  | .stddev => "stddev_over_time"
  | .stdvar => "stdvar_over_time"

@[inherit_doc OverTimeFunc.name]
def CountFunc.name : CountFunc → String
  | .changes => "changes"
  | .resets => "resets"

@[inherit_doc OverTimeFunc.name]
def RateFunc.name : RateFunc → String
  | .rate => "rate"
  | .increase => "increase"
  | .irate => "irate"
  | .delta => "delta"
  | .deriv => "deriv"

/-- What a function says when its argument is missing or no matrix selector. -/
def requiresRangeVector (funcName : String) : PromQLError :=
  .eval (funcName ++ " requires a range vector argument")

section Functions

variable [FloatOps F64] (env : Env Rodeo Spur F64) (times : Times)

/-- `eval_rate_like`. -/
def evalRateLike (f : RateFunc) : Expr F64 → Outcome F64
  | .matrixSelector vs range =>
    .ok (evalWindows env times vs (durationToI64Ms range)
      (computeRateLike f (durationToI64Ms range)))
  | _ => .error (.eval "rate/increase requires matrix selector")

/-- `eval_over_time`. -/
def evalOverTime (f : OverTimeFunc) : Expr F64 → Outcome F64
  | .matrixSelector vs range =>
    .ok (evalWindows env times vs (durationToI64Ms range) (computeOverTime f))
  | _ => .error (requiresRangeVector f.name)

/-- `eval_quantile_over_time`. -/
def evalQuantileOverTime (quantile : F64) : Expr F64 → Outcome F64
  | .matrixSelector vs range =>
    .ok (evalWindows env times vs (durationToI64Ms range) (quantileOverTime quantile))
  | _ => .error (requiresRangeVector "quantile_over_time")

/-- `eval_changes_or_resets`. -/
def evalChangesOrResets (f : CountFunc) : Expr F64 → Outcome F64
  | .matrixSelector vs range =>
    .ok (evalWindows env times vs (durationToI64Ms range) (computeChangesOrResets f))
  | _ => .error (requiresRangeVector f.name)

/-- `eval_absent_over_time`. -/
def evalAbsentOverTime : Expr F64 → Outcome F64
  | .matrixSelector vs range => .ok (evalAbsent env times vs (durationToI64Ms range))
  | _ => .error (requiresRangeVector "absent_over_time")

end Functions

end PromQL

end Aniani
