import Aniani.ForMathlib.Signal
import Aniani.Query.PromQL.Eval

/-!
# Range queries, step by step

For a large part of the language the result of a range query at a step is the result of the instant
query at that time. The reason is that there is something neither has: a `Reading`, a list of label
sets, each with its value at every time whatever. A query reads it at its own times, an instant
query at one and a range query at many, and drops the rows that come out empty. Each operator is an
operation on readings (`Stepwise`), and what a reading shows at one of several times is what it
shows at that time alone.

## Main definitions

* `Row`, `Reading`, `Reading.result`
* `Stepwise` — the expression has a reading
* `Pointwise` — the expressions for which that is proved

## Main results

* `Reading.atTime_result` — a reading at one of its times
* `Stepwise.aggregate`, `Stepwise.binary` — groups and joins of readings
* `evaluateRange_atTime` — **a range query is the instant query at each step**
-/

namespace Aniani

namespace PromQL

open Signal

variable {F64 : Type}

/-! ### Readings -/

/-- A label set and its value at every time. -/
structure Row (F64 : Type) where
  labels : SeriesLabelSet
  value : ℤ → Option F64

/-- What an expression stands for, before the times of the query are known. -/
inductive Reading (F64 : Type) where
  | vector (rows : List (Row F64))
  | scalar (v : F64)

/-- The series of a row at some times. -/
def Row.series (points : List ℤ) (row : Row F64) : Option (SeriesResult F64) :=
  seriesOf row.labels (sample points row.value)

/-- The series of some rows at some times. -/
def render (points : List ℤ) (rows : List (Row F64)) : List (SeriesResult F64) :=
  rows.filterMap (Row.series points)

/-- A reading at some times. -/
def Reading.result (points : List ℤ) : Reading F64 → PromQLResult F64
  | .vector rows => .instantVector (render points rows)
  | .scalar v => .scalar v

/-! ### Series without samples -/

theorem seriesOf_bind (labels labels' : SeriesLabelSet) (samples : List (ℤ × F64))
    {k : List (ℤ × F64) → List (ℤ × F64)} (hk : k [] = []) :
    (seriesOf labels samples).bind (fun sr => seriesOf labels' (k sr.samples)) =
      seriesOf labels' (k samples) := by
  cases samples with
  | nil => rw [hk]; rfl
  | cons s samples => rfl

theorem seriesOf_map (labels : SeriesLabelSet) (samples : List (ℤ × F64))
    (g : SeriesLabelSet → SeriesLabelSet) (k : ℤ × F64 → ℤ × F64) :
    (seriesOf labels samples).map (fun sr => ⟨g sr.labels, sr.samples.map k⟩) =
      seriesOf (g labels) (samples.map k) := by
  cases samples with
  | nil => rfl
  | cons s samples => rfl

theorem seriesOf_labels {labels : SeriesLabelSet} {samples : List (ℤ × F64)} {sr : SeriesResult F64}
    (h : seriesOf labels samples = some sr) : sr.labels = labels := by
  rw [seriesOf] at h
  split at h
  · exact absurd h (by simp)
  · rw [← Option.some.inj h]

theorem seriesOf_bind_self (labels : SeriesLabelSet) (samples : List (ℤ × F64))
    {k : List (ℤ × F64) → List (ℤ × F64)} (hk : k [] = []) :
    (seriesOf labels samples).bind (fun sr => seriesOf sr.labels (k sr.samples)) =
      seriesOf labels (k samples) := by
  rw [← seriesOf_bind labels labels samples hk]
  exact Option.bind_congr fun sr hsr => by rw [seriesOf_labels hsr]

theorem Row.series_labels {points : List ℤ} {row : Row F64} {sr : SeriesResult F64}
    (h : row.series points = some sr) : sr.labels = row.labels := seriesOf_labels h

/-! ### A reading at one of its times -/

theorem Row.seriesAt {points : List ℤ} (hnodup : points.Nodup) {t : ℤ} (ht : t ∈ points)
    (row : Row F64) :
    (row.series points).bind (fun sr =>
      seriesOf sr.labels (sr.samples.filter fun s => s.1 == t)) = row.series [t] := by
  rw [Row.series, seriesOf_bind_self _ _ rfl, sample_filter hnodup ht]
  rfl

theorem seriesAt_render {points : List ℤ} (hnodup : points.Nodup) {t : ℤ} (ht : t ∈ points)
    (rows : List (Row F64)) : seriesAt t (render points rows) = render [t] rows := by
  rw [seriesAt, render, List.filterMap_filterMap]
  exact List.filterMap_congr fun row _ => row.seriesAt hnodup ht

/-- **A reading at one of its times.** -/
theorem Reading.atTime_result {points : List ℤ} (hnodup : points.Nodup) {t : ℤ} (ht : t ∈ points)
    (reading : Reading F64) :
    (reading.result points).atTime t = reading.result [t] := by
  cases reading with
  | vector rows => exact congrArg PromQLResult.instantVector (seriesAt_render hnodup ht rows)
  | scalar v => rfl

/-! ### Values and labels -/

/-- Change the values of a reading. -/
def Reading.mapValues (g : F64 → F64) : Reading F64 → Reading F64
  | .vector rows => .vector (rows.map fun row => ⟨row.labels, fun t => (row.value t).map g⟩)
  | .scalar v => .scalar (g v)

/-- Change the labels of a reading. -/
def Reading.mapLabels (g : SeriesLabelSet → SeriesLabelSet) : Reading F64 → Reading F64
  | .vector rows => .vector (rows.map fun row => ⟨g row.labels, row.value⟩)
  | .scalar v => .scalar v

theorem mapValues_result (points : List ℤ) (g : F64 → F64) (reading : Reading F64) :
    mapValues g (reading.result points) = (reading.mapValues g).result points := by
  cases reading with
  | scalar v => rfl
  | vector rows =>
    show PromQLResult.instantVector _ = .instantVector _
    rw [render, render, List.filterMap_map, List.map_filterMap]
    congr 1
    refine List.filterMap_congr fun row _ => ?_
    show (row.series points).map _ = seriesOf row.labels (sample points fun t => (row.value t).map g)
    rw [← sample_map points row.value fun _ => g]
    exact seriesOf_map _ _ id _

theorem mapLabels_result (points : List ℤ) (g : SeriesLabelSet → SeriesLabelSet)
    (reading : Reading F64) :
    mapLabels g (reading.result points) = (reading.mapLabels g).result points := by
  cases reading with
  | scalar v => rfl
  | vector rows =>
    show PromQLResult.instantVector _ = .instantVector _
    rw [render, render, List.filterMap_map, List.map_filterMap]
    congr 1
    refine List.filterMap_congr fun row _ => ?_
    have hmap := seriesOf_map row.labels (sample points row.value) g id
    simp only [List.map_id] at hmap
    exact hmap

/-! ### Joins -/

section Joins

variable [FloatOps F64] (op : BinaryOp) (returnBool : Bool)

/-- The value of `comparison_sample`. -/
def comparedValue (lhsValue result : F64) : Option F64 :=
  (comparisonSample op 0 lhsValue result returnBool).map Prod.snd

theorem comparisonSample_eq (t : ℤ) (lhsValue result : F64) :
    comparisonSample op t lhsValue result returnBool =
      (comparedValue op returnBool lhsValue result).map fun v => (t, v) := by
  unfold comparedValue comparisonSample
  split
  · split
    · rfl
    · split <;> rfl
  · rfl

/-- A row against a scalar. -/
def Row.withScalar (isLhsScalar : Bool) (scalar : F64) (row : Row F64) : Row F64 :=
  ⟨row.labels, fun t => (row.value t).bind fun v => comparedValue op returnBool v
    (if isLhsScalar then applyBinaryOp op scalar v else applyBinaryOp op v scalar)⟩

/-- A left row against a right row. -/
def Row.join (lhs rhs : Row F64) : Row F64 :=
  ⟨labelsWithoutMetricName lhs.labels, fun t => (lhs.value t).bind fun lv =>
    (rhs.value t).bind fun rv => comparedValue op returnBool lv (applyBinaryOp op lv rv)⟩

/-- The join of `JoinMode::Plain` on readings. -/
def joinRows (mode : MatchMode) (lhs rhs : List (Row F64)) : List (Row F64) :=
  lhs.flatMap fun l => (rhs.filter fun r => mode.matchKey r.labels == mode.matchKey l.labels).map
    fun r => Row.join op returnBool l r

theorem scalarSamples_sample (isLhsScalar : Bool) (scalar : F64) (points : List ℤ) (row : Row F64) :
    scalarSamples op returnBool isLhsScalar scalar (sample points row.value) =
      sample points (row.withScalar op returnBool isLhsScalar scalar).value := by
  rw [scalarSamples]
  simp only [comparisonSample_eq]
  exact sample_filterMap points row.value fun _ v => comparedValue op returnBool v
    (if isLhsScalar then applyBinaryOp op scalar v else applyBinaryOp op v scalar)

theorem scalar_render (isLhsScalar : Bool) (scalar : F64) (points : List ℤ)
    (rows : List (Row F64)) :
    ((render points rows).filterMap fun sr => seriesOf sr.labels
      (scalarSamples op returnBool isLhsScalar scalar sr.samples)) =
      render points (rows.map (Row.withScalar op returnBool isLhsScalar scalar)) := by
  rw [render, render, List.filterMap_filterMap, List.filterMap_map]
  refine List.filterMap_congr fun row _ => ?_
  rw [Row.series, seriesOf_bind_self _ _ rfl, scalarSamples_sample]
  rfl

omit [FloatOps F64] in
theorem sampleLookup_sample {points : List ℤ} {t : ℤ} (ht : t ∈ points) (g : ℤ → Option F64) :
    sampleLookup (sample points g) t = g t := by
  have hreverse : (sample points g).reverse = sample points.reverse g :=
    List.filterMap_reverse.symm
  rw [sampleLookup, hreverse, find?_sample (List.mem_reverse.mpr ht), Option.map_map]
  exact Option.map_id'

theorem joinSamples_sample (points : List ℤ) (lhs rhs : Row F64) :
    joinSamples op returnBool (sample points lhs.value) (sample points rhs.value) =
      sample points (Row.join op returnBool lhs rhs).value := by
  refine Eq.trans ?_ (sample_filterMap points lhs.value fun t lv =>
    (rhs.value t).bind fun rv => comparedValue op returnBool lv (applyBinaryOp op lv rv))
  refine List.filterMap_congr fun s hs => ?_
  rw [sampleLookup_sample (mem_sample.mp hs).1, Option.map_bind]
  refine Option.bind_congr fun rv _ => ?_
  rw [comparisonSample_eq]
  rfl

theorem joinSamples_nil_right (lhs : List (ℤ × F64)) : joinSamples op returnBool lhs [] = [] := by
  rw [joinSamples, List.filterMap_eq_nil_iff]
  intro s _
  rfl

omit [FloatOps F64] in
theorem rhsMatches_render (mode : MatchMode) (points : List ℤ) (rows : List (Row F64))
    (key : SeriesLabelSet) :
    rhsMatches mode (render points rows) key =
      render points (rows.filter fun row => mode.matchKey row.labels == key) := by
  rw [rhsMatches, render, render, List.filter_filterMap, List.filterMap_filter]
  refine List.filterMap_congr fun row _ => ?_
  cases h : row.series points with
  | none => simp
  | some sr => rw [Option.filter_some, Row.series_labels h]

omit [FloatOps F64] in
theorem flatMap_render {β : Type} (points : List ℤ) (rows : List (Row F64))
    {f : SeriesResult F64 → List β} (hnil : ∀ labels, f ⟨labels, []⟩ = []) :
    (render points rows).flatMap f =
      rows.flatMap fun row => f ⟨row.labels, sample points row.value⟩ := by
  induction rows with
  | nil => rfl
  | cons row rows ih =>
    rw [List.flatMap_cons, ← ih, render, List.filterMap_cons, Row.series, seriesOf]
    cases hs : sample points row.value with
    | nil => rw [hnil]; rfl
    | cons s samples => rfl

theorem join_render (mode : MatchMode) (points : List ℤ) (l : Row F64) (rhs : List (Row F64)) :
    ((rhsMatches mode (render points rhs) (mode.matchKey l.labels)).filterMap fun rs =>
      seriesOf (labelsWithoutMetricName l.labels)
        (joinSamples op returnBool (sample points l.value) rs.samples)) =
      render points ((rhs.filter fun r => mode.matchKey r.labels == mode.matchKey l.labels).map
        fun r => Row.join op returnBool l r) := by
  rw [rhsMatches_render, render, render, List.filterMap_filterMap, List.filterMap_map]
  refine List.filterMap_congr fun r _ => ?_
  rw [Row.series, seriesOf_bind _ _ _ (joinSamples_nil_right op returnBool _), joinSamples_sample]
  rfl

/-- **The join of readings.** -/
theorem evalPlain_render (mode : MatchMode) (points : List ℤ) (lhs rhs : List (Row F64)) :
    evalPlain op returnBool mode (render points lhs) (render points rhs) =
      render points (joinRows op returnBool mode lhs rhs) := by
  have hnil (labels : SeriesLabelSet) :
      ((rhsMatches mode (render points rhs) (mode.matchKey labels)).filterMap fun rs =>
        seriesOf (labelsWithoutMetricName labels) (joinSamples op returnBool [] rs.samples)) = [] :=
    List.filterMap_eq_nil_iff.mpr fun rs _ => rfl
  rw [evalPlain, flatMap_render points lhs hnil, joinRows]
  simp only [join_render]
  exact List.filterMap_flatMap.symm

end Joins

/-! ### Groups -/

section Groups

/-- The value of a group at every time, through a function. -/
def groupSignal (f : List F64 → F64) (rows : List (Row F64)) (t : ℤ) : Option F64 :=
  let values := rows.filterMap fun row => row.value t
  if values.isEmpty then none else some (f values)

theorem groupSignal_isSome {f : List F64 → F64} {rows : List (Row F64)} {t : ℤ} :
    (groupSignal f rows t).isSome ↔ ∃ row ∈ rows, (row.value t).isSome := by
  have hvalues : (rows.filterMap fun row => row.value t) = [] ↔ ∀ row ∈ rows, row.value t = none :=
    List.filterMap_eq_nil_iff
  rw [groupSignal]
  split
  · next h =>
    refine iff_of_false (by simp) ?_
    rintro ⟨row, hrow, hsome⟩
    rw [hvalues.mp (List.isEmpty_iff.mp h) row hrow] at hsome
    exact absurd hsome (by simp)
  · next h =>
    refine iff_of_true rfl ?_
    by_contra hnone
    refine h (List.isEmpty_iff.mpr (hvalues.mpr fun row hrow => ?_))
    exact Option.not_isSome_iff_eq_none.mp fun hsome => hnone ⟨row, hrow, hsome⟩

theorem valuesAt_render {points : List ℤ} {t : ℤ} (ht : t ∈ points) (rows : List (Row F64)) :
    valuesAt (render points rows) t = rows.filterMap fun row => row.value t := by
  rw [valuesAt, render, List.filterMap_filterMap]
  refine List.filterMap_congr fun row _ => ?_
  have hlookup := sampleLookup_sample ht row.value
  rw [Row.series, seriesOf]
  split
  · next h =>
    rw [List.isEmpty_iff.mp h] at hlookup
    exact hlookup
  · exact hlookup

theorem mem_sampleTimes_render {points : List ℤ} {t : ℤ} {rows : List (Row F64)} :
    t ∈ sampleTimes (render points rows) ↔ t ∈ points ∧ ∃ row ∈ rows, (row.value t).isSome := by
  rw [sampleTimes, List.mem_sortByKey, List.mem_dedup, List.mem_flatMap]
  constructor
  · rintro ⟨sr, hsr, ht⟩
    obtain ⟨row, hrow, hseries⟩ := List.mem_filterMap.mp hsr
    obtain ⟨s, hs, rfl⟩ := List.mem_map.mp ht
    have hsamples : sr.samples = sample points row.value := by
      rw [Row.series, seriesOf] at hseries
      split at hseries
      · exact absurd hseries (by simp)
      · rw [← Option.some.inj hseries]
    rw [hsamples] at hs
    obtain ⟨hmem, hv⟩ := mem_sample.mp hs
    exact ⟨hmem, row, hrow, by rw [hv]; rfl⟩
  · rintro ⟨ht, row, hrow, hsome⟩
    obtain ⟨v, hv⟩ := Option.isSome_iff_exists.mp hsome
    have hs : (t, v) ∈ sample points row.value := mem_sample.mpr ⟨ht, hv⟩
    have hseries : row.series points = some ⟨row.labels, sample points row.value⟩ :=
      if_neg fun h => absurd (List.isEmpty_iff.mp h ▸ hs) List.not_mem_nil
    exact ⟨_, List.mem_filterMap.mpr ⟨row, hrow, hseries⟩, List.mem_map.mpr ⟨_, hs, rfl⟩⟩

theorem sampleTimes_render {points : List ℤ} (hsorted : points.Pairwise (· < ·))
    (f : List F64 → F64) (rows : List (Row F64)) :
    sampleTimes (render points rows) = points.filter fun t => (groupSignal f rows t).isSome := by
  refine List.SortedBy.eq_of_mem_iff Function.injective_id
    (List.sortedBy_sortByKey _ _) ?_ (List.nodup_sortByKey.mpr (List.nodup_dedup _)) ?_ fun t => ?_
  · exact (hsorted.imp le_of_lt).sublist List.filter_sublist
  · exact (hsorted.imp ne_of_lt).filter _
  · rw [mem_sampleTimes_render, List.mem_filter, groupSignal_isSome]

/-- **The samples of a group.** -/
theorem groupSamples_render {points : List ℤ} (hsorted : points.Pairwise (· < ·))
    (f : List F64 → F64) (rows : List (Row F64)) :
    groupSamples f (render points rows) = sample points (groupSignal f rows) := by
  rw [groupSamples, sampleTimes_render hsorted f, List.filterMap_filter, sample]
  refine List.filterMap_congr fun t ht => ?_
  rw [valuesAt_render ht]
  unfold groupSignal
  cases hvalues : rows.filterMap fun row => row.value t with
  | nil => rfl
  | cons v values => rfl

variable [FloatOps F64]

/-- An aggregation on readings. -/
def aggregateRows (f : AggregateFunc) (modifier : Option LabelModifier) (rows : List (Row F64)) :
    List (Row F64) :=
  (rows.sortedGroups labelsOrder fun row => computeGroupLabels modifier row.labels).map
    fun group => ⟨group.1, groupSignal f.apply group.2⟩

theorem aggregateGroup_eq (f : AggregateFunc) (series : List (SeriesResult F64)) :
    aggregateGroup f series = groupSamples f.apply series := by
  cases series with
  | nil => rfl
  | cons sr series => rfl

theorem labelsOrder_injective : Function.Injective labelsOrder :=
  List.map_injective_iff.mpr toLex.injective

omit [FloatOps F64] in
theorem render_eq_nil {points : List ℤ} {f : List F64 → F64} {rows : List (Row F64)} :
    render points rows = [] ↔ sample points (groupSignal f rows) = [] := by
  rw [render, List.filterMap_eq_nil_iff, sample_eq_nil]
  have hrow (row : Row F64) : row.series points = none ↔ ∀ t ∈ points, row.value t = none := by
    rw [← sample_eq_nil, Row.series, seriesOf]
    split
    · next h => exact iff_of_true rfl (List.isEmpty_iff.mp h)
    · next h => exact iff_of_false (by simp) fun h' => h (List.isEmpty_iff.mpr h')
  constructor
  · intro h t ht
    rw [← Option.not_isSome_iff_eq_none, groupSignal_isSome]
    rintro ⟨row, hmem, hsome⟩
    rw [(hrow row).mp (h row hmem) t ht] at hsome
    exact absurd hsome (by simp)
  · intro h row hmem
    refine (hrow row).mpr fun t ht => Option.not_isSome_iff_eq_none.mp fun hsome => ?_
    have hgroup : (groupSignal f rows t).isSome := groupSignal_isSome.mpr ⟨row, hmem, hsome⟩
    rw [h t ht] at hgroup
    exact absurd hgroup (by simp)

omit [FloatOps F64] in
theorem groupSeries_render (modifier : Option LabelModifier) (points : List ℤ)
    (rows : List (Row F64)) :
    groupSeries modifier (render points rows) =
      ((rows.sortedGroups labelsOrder fun row => computeGroupLabels modifier row.labels).map
        fun group => (group.1, render points group.2)).filter fun group => !group.2.isEmpty :=
  List.sortedGroups_filterMap labelsOrder_injective fun h => by rw [Row.series_labels h]

/-- **The groups of readings.** -/
theorem aggregate_render {points : List ℤ} (hsorted : points.Pairwise (· < ·)) (f : AggregateFunc)
    (modifier : Option LabelModifier) (rows : List (Row F64)) :
    (groupSeries modifier (render points rows)).map
        (fun group => (⟨group.1, aggregateGroup f group.2⟩ : SeriesResult F64)) =
      render points (aggregateRows f modifier rows) := by
  rw [groupSeries_render, aggregateRows, render, List.filterMap_map, List.filter_map, List.map_map,
    ← List.filterMap_eq_map', List.filterMap_filter]
  refine List.filterMap_congr fun group _ => ?_
  show (if (!(render points group.2).isEmpty) = true then
    some ⟨group.1, aggregateGroup f (render points group.2)⟩ else none) =
      seriesOf group.1 (sample points (groupSignal f.apply group.2))
  have hempty : (render points group.2).isEmpty =
      (sample points (groupSignal f.apply group.2)).isEmpty := by
    rw [Bool.eq_iff_iff, List.isEmpty_iff, List.isEmpty_iff]
    exact render_eq_nil
  rw [aggregateGroup_eq, groupSamples_render hsorted, hempty, seriesOf]
  cases (sample points (groupSignal f.apply group.2)).isEmpty <;> rfl

end Groups

/-! ### Expressions with a reading -/

theorem Times.points_sorted (times : Times) : times.points.Pairwise (· < ·) := by
  unfold Times.points
  split
  · exact List.pairwise_singleton _ _
  · exact stepTimes_sorted _ _ _

section Stepwise

variable [FloatOps F64] {Rodeo Spur : Type} [LinearOrder Spur] [Interner Rodeo Spur]
  (env : Env Rodeo Spur F64)

/-- The expression has a reading: every query shows it at its own times, or fails alike. -/
def Stepwise (e : Expr F64) : Prop :=
  ∃ reading : Except PromQLError (Reading F64), ∀ times : Times,
    evalExpr env times e = reading.map (Reading.result times.points)

variable {env}

theorem evalArgs_cons (times : Times) (arg : Expr F64) (args : List (Expr F64)) :
    evalArgs env times (arg :: args) = (arg, evalExpr env times arg) :: evalArgs env times args :=
  rfl

theorem map_fst_evalArgs (times : Times) (args : List (Expr F64)) :
    (evalArgs env times args).map Prod.fst = args := by
  induction args with
  | nil => rfl
  | cons arg args ih => rw [evalArgs_cons, List.map_cons, ih]

theorem Stepwise.numberLiteral (v : F64) : Stepwise env (.numberLiteral v) :=
  ⟨.ok (.scalar v), fun _ => rfl⟩

omit [FloatOps F64] in
/-- A function of the windows of a selector. -/
theorem evalWindows_result (vs : VectorSelector) (rangeMs : ℤ)
    (f : List (Sample F64) → Option F64) (times : Times) :
    evalWindows env times vs rangeMs f = Reading.result times.points
      (.vector ((env.selectSeries (vsMatchers vs)).map fun sid =>
        ⟨env.labels sid, fun t => f (windowSamples env vs rangeMs sid t)⟩)) := by
  rw [evalWindows_eq]
  show _ = PromQLResult.instantVector _
  rw [render, List.filterMap_map]
  rfl

theorem evalAbsent_result (vs : VectorSelector) (rangeMs : ℤ) (times : Times) :
    evalAbsent env times vs rangeMs = Reading.result times.points
      (.vector [⟨[], fun t => if anyPresent env vs rangeMs t then none else some FloatOps.one⟩]) := by
  rw [evalAbsent_eq]
  show _ = PromQLResult.instantVector (render _ _)
  have hsample : (times.points.filterMap fun t =>
      if anyPresent env vs rangeMs t then none else some (t, (FloatOps.one : F64))) =
      sample times.points fun t => if anyPresent env vs rangeMs t then none else some FloatOps.one :=
    List.filterMap_congr fun t _ => by cases h : anyPresent env vs rangeMs t <;> simp [h]
  rw [hsample, render, List.filterMap_cons, Row.series]
  cases seriesOf ([] : SeriesLabelSet) (sample times.points fun t =>
    if anyPresent env vs rangeMs t then none else some (FloatOps.one : F64)) <;> rfl

theorem Stepwise.rateLike (f : RateFunc) (vs : VectorSelector) (range : ℕ)
    (args : List (Expr F64)) :
    Stepwise env (.call (.rateLike f) (.matrixSelector vs range :: args)) :=
  ⟨.ok _, fun times => congrArg Except.ok (evalWindows_result vs _ _ times)⟩

theorem Stepwise.overTime (f : OverTimeFunc) (vs : VectorSelector) (range : ℕ)
    (args : List (Expr F64)) :
    Stepwise env (.call (.overTime f) (.matrixSelector vs range :: args)) :=
  ⟨.ok _, fun times => congrArg Except.ok (evalWindows_result vs _ _ times)⟩

theorem Stepwise.changesOrResets (f : CountFunc) (vs : VectorSelector) (range : ℕ)
    (args : List (Expr F64)) :
    Stepwise env (.call (.changesOrResets f) (.matrixSelector vs range :: args)) :=
  ⟨.ok _, fun times => congrArg Except.ok (evalWindows_result vs _ _ times)⟩

theorem Stepwise.absentOverTime (vs : VectorSelector) (range : ℕ) (args : List (Expr F64)) :
    Stepwise env (.call .absentOverTime (.matrixSelector vs range :: args)) :=
  ⟨.ok _, fun times => congrArg Except.ok (evalAbsent_result vs _ times)⟩

/-- The scalar a reading is, if it is one. -/
def Reading.scalarArg (reading : Except PromQLError (Reading F64)) (error : String) :
    Except PromQLError F64 :=
  match reading with
  | .ok (.scalar v) => .ok v
  | .ok (.vector _) => .error (.eval error)
  | .error e => .error e

omit [FloatOps F64] in
theorem evalScalarArg_result (reading : Except PromQLError (Reading F64)) (error : String)
    (points : List ℤ) :
    evalScalarArg (reading.map (Reading.result points)) error = Reading.scalarArg reading error := by
  match reading with
  | .ok (.scalar v) => rfl
  | .ok (.vector rows) => rfl
  | .error e => rfl

theorem Stepwise.scalarArg {e : Expr F64} (h : Stepwise env e) (error : String) :
    ∃ v : Except PromQLError F64, ∀ times, evalScalarArg (evalExpr env times e) error = v := by
  obtain ⟨reading, hreading⟩ := h
  exact ⟨_, fun times => by rw [hreading, evalScalarArg_result]⟩

theorem Stepwise.quantileOverTime {quantile : Expr F64} (h : Stepwise env quantile)
    (vs : VectorSelector) (range : ℕ) (args : List (Expr F64)) :
    Stepwise env (.call .quantileOverTime (quantile :: .matrixSelector vs range :: args)) := by
  obtain ⟨v, hv⟩ := h.scalarArg "first arg to quantile_over_time must be scalar"
  refine ⟨v.map fun quantile => .vector ((env.selectSeries (vsMatchers vs)).map fun sid =>
    ⟨env.labels sid, fun t =>
      PromQL.quantileOverTime quantile (windowSamples env vs (durationToI64Ms range) sid t)⟩),
    fun times => ?_⟩
  show (evalScalarArg (evalExpr env times quantile) _).bind _ = _
  rw [hv]
  cases v with
  | error e => rfl
  | ok v => exact congrArg Except.ok (evalWindows_result vs _ _ times)

theorem Stepwise.paren {e : Expr F64} (h : Stepwise env e) : Stepwise env (.paren e) := h

/-- An operation on results that is one on readings. -/
theorem Stepwise.map {e e' : Expr F64} (h : Stepwise env e)
    {f : PromQLResult F64 → PromQLResult F64} {g : Reading F64 → Reading F64}
    (he' : ∀ times, evalExpr env times e' = (evalExpr env times e).map f)
    (hfg : ∀ points reading, f (Reading.result points reading) = (g reading).result points) :
    Stepwise env e' := by
  obtain ⟨reading, hreading⟩ := h
  refine ⟨reading.map g, fun times => ?_⟩
  rw [he', hreading]
  cases reading with
  | error e => rfl
  | ok reading => exact congrArg Except.ok (hfg _ _)

theorem Stepwise.unary {e : Expr F64} (h : Stepwise env e) : Stepwise env (.unary e) :=
  h.map (fun _ => rfl) fun points reading => mapValues_result points _ reading

theorem Stepwise.scalarFunc {e : Expr F64} (h : Stepwise env e) (f : ScalarFunc)
    (args : List (Expr F64)) : Stepwise env (.call (.scalarFunc f) (e :: args)) :=
  h.map (fun _ => rfl) fun points reading => mapValues_result points _ reading

theorem Stepwise.mathFunc {e : Expr F64} (h : Stepwise env e) (f : MathFunc)
    (args : List (Expr F64)) : Stepwise env (.call (.mathFunc f) (e :: args)) :=
  h.map (fun _ => rfl) fun points reading => mapValues_result points _ reading

/-- A function that clamps. -/
theorem Stepwise.clampWith {e e' : Expr F64} (h : Stepwise env e)
    (bounds : Except PromQLError (Option F64 × Option F64))
    (he' : ∀ times, evalExpr env times e' = (evalExpr env times e).bind fun inner =>
      bounds.map fun bounds => applyClamp bounds.1 bounds.2 inner) : Stepwise env e' := by
  obtain ⟨reading, hreading⟩ := h
  refine ⟨reading.bind fun reading => bounds.map fun bounds =>
    reading.mapValues (clampValue bounds.1 bounds.2), fun times => ?_⟩
  rw [he', hreading]
  cases reading with
  | error e => rfl
  | ok reading =>
    cases bounds with
    | error e => rfl
    | ok bounds => exact congrArg Except.ok (mapValues_result _ _ reading)

theorem Stepwise.clamp {e least greatest : Expr F64} (h : Stepwise env e)
    (hleast : Stepwise env least) (hgreatest : Stepwise env greatest) (args : List (Expr F64)) :
    Stepwise env (.call .clamp (e :: least :: greatest :: args)) := by
  obtain ⟨l, hl⟩ := hleast.scalarArg "clamp min argument must be a scalar"
  obtain ⟨g, hg⟩ := hgreatest.scalarArg "clamp max argument must be a scalar"
  refine h.clampWith (l.bind fun l => g.map fun g => (some l, some g)) fun times => ?_
  show (evalExpr env times e).bind (fun inner => (evalScalarArg _ _).bind fun _ =>
    (evalScalarArg _ _).map _) = _
  rw [hl, hg]
  cases l with
  | error e => rfl
  | ok l => cases g <;> rfl

theorem Stepwise.clampMin {e least : Expr F64} (h : Stepwise env e) (hleast : Stepwise env least)
    (args : List (Expr F64)) : Stepwise env (.call .clampMin (e :: least :: args)) := by
  obtain ⟨l, hl⟩ := hleast.scalarArg "clamp_min argument must be a scalar"
  refine h.clampWith (l.map fun l => (some l, none)) fun times => ?_
  show (evalExpr env times e).bind (fun inner => (evalScalarArg _ _).map _) = _
  rw [hl]
  cases l <;> rfl

theorem Stepwise.clampMax {e greatest : Expr F64} (h : Stepwise env e)
    (hgreatest : Stepwise env greatest) (args : List (Expr F64)) :
    Stepwise env (.call .clampMax (e :: greatest :: args)) := by
  obtain ⟨g, hg⟩ := hgreatest.scalarArg "clamp_max argument must be a scalar"
  refine h.clampWith (g.map fun g => (none, some g)) fun times => ?_
  show (evalExpr env times e).bind (fun inner => (evalScalarArg _ _).map _) = _
  rw [hg]
  cases g <;> rfl

/-- A function that changes labels, or fails whatever the vector. -/
theorem Stepwise.relabel {e e' : Expr F64} (h : Stepwise env e)
    (relabelling : Except PromQLError (SeriesLabelSet → SeriesLabelSet))
    (he' : ∀ times, evalExpr env times e' = (evalExpr env times e).bind fun inner =>
      relabelling.map fun g => PromQL.mapLabels g inner) : Stepwise env e' := by
  obtain ⟨reading, hreading⟩ := h
  refine ⟨reading.bind fun reading => relabelling.map fun g => reading.mapLabels g,
    fun times => ?_⟩
  rw [he', hreading]
  cases reading with
  | error e => rfl
  | ok reading =>
    cases relabelling with
    | error e => rfl
    | ok g => exact congrArg Except.ok (mapLabels_result _ g reading)

omit [FloatOps F64] in
theorem evalLabelReplace_eq
    (regexNew : String → Option (String → Option (List (Option String)))) (args : List (Expr F64)) :
    ∃ relabelling : Except PromQLError (SeriesLabelSet → SeriesLabelSet), ∀ inner,
      evalLabelReplace regexNew args inner =
        relabelling.map fun g => PromQL.mapLabels g inner := by
  match args with
  | [] | [_] | [_, _] | [_, _, _] | [_, _, _, _] => exact ⟨.error _, fun _ => rfl⟩
  | _ :: dst :: replacement :: src :: regex :: _ =>
    simp only [evalLabelReplace]
    cases extractStringArg dst with
    | error e => exact ⟨.error e, fun _ => rfl⟩
    | ok dst =>
    cases extractStringArg replacement with
    | error e => exact ⟨.error e, fun _ => rfl⟩
    | ok replacement =>
    cases extractStringArg src with
    | error e => exact ⟨.error e, fun _ => rfl⟩
    | ok src =>
    cases extractStringArg regex with
    | error e => exact ⟨.error e, fun _ => rfl⟩
    | ok regex =>
    cases hre : regexNew ("^(?:" ++ regex ++ ")$") with
    | none => exact ⟨.error _, fun _ => by simp only [bind, Except.bind, hre]; rfl⟩
    | some re =>
      exact ⟨.ok (replaceLabel re dst replacement src), fun _ => by
        simp only [bind, Except.bind, hre]; rfl⟩

omit [FloatOps F64] in
theorem evalLabelJoin_eq (args : List (Expr F64)) :
    ∃ relabelling : Except PromQLError (SeriesLabelSet → SeriesLabelSet), ∀ inner,
      evalLabelJoin args inner = relabelling.map fun g => PromQL.mapLabels g inner := by
  match args with
  | [] | [_] | [_, _] | [_, _, _] => exact ⟨.error _, fun _ => rfl⟩
  | _ :: dst :: separator :: src :: srcs =>
    simp only [evalLabelJoin]
    cases extractStringArg dst with
    | error e => exact ⟨.error e, fun _ => rfl⟩
    | ok dst =>
    cases extractStringArg separator with
    | error e => exact ⟨.error e, fun _ => rfl⟩
    | ok separator =>
    cases (src :: srcs).mapM extractStringArg with
    | error e => exact ⟨.error e, fun _ => rfl⟩
    | ok srcs => exact ⟨.ok (joinLabel dst separator srcs), fun _ => rfl⟩

theorem Stepwise.labelReplace {e : Expr F64} (h : Stepwise env e) (args : List (Expr F64)) :
    Stepwise env (.call .labelReplace (e :: args)) := by
  obtain ⟨relabelling, hrelabelling⟩ := evalLabelReplace_eq env.regexNew (e :: args)
  refine h.relabel relabelling fun times => ?_
  show (evalExpr env times e).bind (evalLabelReplace env.regexNew
    ((evalArgs env times (e :: args)).map Prod.fst)) = _
  rw [map_fst_evalArgs]
  exact congrArg _ (funext hrelabelling)

theorem Stepwise.labelJoin {e : Expr F64} (h : Stepwise env e) (args : List (Expr F64)) :
    Stepwise env (.call .labelJoin (e :: args)) := by
  obtain ⟨relabelling, hrelabelling⟩ := evalLabelJoin_eq (e :: args)
  refine h.relabel relabelling fun times => ?_
  show (evalExpr env times e).bind
    (evalLabelJoin ((evalArgs env times (e :: args)).map Prod.fst)) = _
  rw [map_fst_evalArgs]
  exact congrArg _ (funext hrelabelling)

/-- **An aggregation.** -/
theorem Stepwise.aggregate {e : Expr F64} (h : Stepwise env e) (f : AggregateFunc)
    (modifier : Option LabelModifier) : Stepwise env (.aggregate (.func f) e none modifier) := by
  obtain ⟨reading, hreading⟩ := h
  refine ⟨reading.map fun reading => match reading with
    | .vector rows => .vector (aggregateRows f modifier rows)
    | .scalar v => .scalar v, fun times => ?_⟩
  show (evalExpr env times e).bind (fun inner =>
    evalAggregation (.func f) modifier inner none) = _
  rw [hreading]
  match reading with
  | .error e => rfl
  | .ok (.scalar v) => rfl
  | .ok (.vector rows) =>
    exact congrArg (fun series => Except.ok (PromQLResult.instantVector series))
      (aggregate_render times.points_sorted f modifier rows)

/-- **A binary operator** that is no set operator and joins one series with one. -/
theorem Stepwise.binary {lhs rhs : Expr F64} (hl : Stepwise env lhs) (hr : Stepwise env rhs)
    {op : BinaryOp} (hop : op.isSetOp = false) {modifier : Option BinModifier}
    (hcard : JoinMode.fromCardinality (modifier.getD BinModifier.default).card = .plain) :
    Stepwise env (.binary op lhs rhs modifier) := by
  obtain ⟨l, hl⟩ := hl
  obtain ⟨r, hr⟩ := hr
  let modRef := modifier.getD BinModifier.default
  refine ⟨l.bind fun l => r.bind fun r => .ok (match l, r with
    | .scalar l, .scalar r => .scalar (applyBinaryOp op l r)
    | .vector rows, .scalar v => .vector (rows.map (Row.withScalar op modRef.returnBool false v))
    | .scalar v, .vector rows => .vector (rows.map (Row.withScalar op modRef.returnBool true v))
    | .vector l, .vector r => .vector (joinRows op modRef.returnBool
        (MatchMode.fromModifier modRef.matching) l r)), fun times => ?_⟩
  show (evalExpr env times lhs).bind (fun lhs => (evalExpr env times rhs).bind fun rhs =>
    evalBinaryResult env.debugStr op modifier lhs rhs) = _
  rw [hl, hr]
  match l, r with
  | .error e, _ => rfl
  | .ok _, .error e => rfl
  | .ok (.scalar l), .ok (.scalar r) => rfl
  | .ok (.vector rows), .ok (.scalar v) =>
    exact congrArg (fun series => Except.ok (PromQLResult.instantVector series))
      (scalar_render op modRef.returnBool false v times.points rows)
  | .ok (.scalar v), .ok (.vector rows) =>
    exact congrArg (fun series => Except.ok (PromQLResult.instantVector series))
      (scalar_render op modRef.returnBool true v times.points rows)
  | .ok (.vector l), .ok (.vector r) =>
    show evalBinaryResult env.debugStr op modifier (.instantVector (render times.points l))
      (.instantVector (render times.points r)) = _
    rw [evalBinaryResult, hop, hcard]
    exact congrArg (fun series => Except.ok (PromQLResult.instantVector series))
      (evalPlain_render op modRef.returnBool _ times.points l r)

/-- The expressions whose parts are evaluated time by time. A selector in a function of a range
vector may carry any offset. -/
inductive Pointwise : Expr F64 → Prop
  | numberLiteral (v : F64) : Pointwise (.numberLiteral v)
  | rateLike (f : RateFunc) (vs : VectorSelector) (range : ℕ) (args : List (Expr F64)) :
    Pointwise (.call (.rateLike f) (.matrixSelector vs range :: args))
  | overTime (f : OverTimeFunc) (vs : VectorSelector) (range : ℕ) (args : List (Expr F64)) :
    Pointwise (.call (.overTime f) (.matrixSelector vs range :: args))
  | changesOrResets (f : CountFunc) (vs : VectorSelector) (range : ℕ) (args : List (Expr F64)) :
    Pointwise (.call (.changesOrResets f) (.matrixSelector vs range :: args))
  | absentOverTime (vs : VectorSelector) (range : ℕ) (args : List (Expr F64)) :
    Pointwise (.call .absentOverTime (.matrixSelector vs range :: args))
  | quantileOverTime {quantile : Expr F64} (h : Pointwise quantile) (vs : VectorSelector)
    (range : ℕ) (args : List (Expr F64)) :
    Pointwise (.call .quantileOverTime (quantile :: .matrixSelector vs range :: args))
  | paren {e : Expr F64} (h : Pointwise e) : Pointwise (.paren e)
  | unary {e : Expr F64} (h : Pointwise e) : Pointwise (.unary e)
  | scalarFunc {e : Expr F64} (h : Pointwise e) (f : ScalarFunc) (args : List (Expr F64)) :
    Pointwise (.call (.scalarFunc f) (e :: args))
  | mathFunc {e : Expr F64} (h : Pointwise e) (f : MathFunc) (args : List (Expr F64)) :
    Pointwise (.call (.mathFunc f) (e :: args))
  | clamp {e least greatest : Expr F64} (h : Pointwise e) (hleast : Pointwise least)
    (hgreatest : Pointwise greatest) (args : List (Expr F64)) :
    Pointwise (.call .clamp (e :: least :: greatest :: args))
  | clampMin {e least : Expr F64} (h : Pointwise e) (hleast : Pointwise least)
    (args : List (Expr F64)) : Pointwise (.call .clampMin (e :: least :: args))
  | clampMax {e greatest : Expr F64} (h : Pointwise e) (hgreatest : Pointwise greatest)
    (args : List (Expr F64)) : Pointwise (.call .clampMax (e :: greatest :: args))
  | labelReplace {e : Expr F64} (h : Pointwise e) (args : List (Expr F64)) :
    Pointwise (.call .labelReplace (e :: args))
  | labelJoin {e : Expr F64} (h : Pointwise e) (args : List (Expr F64)) :
    Pointwise (.call .labelJoin (e :: args))
  | aggregate {e : Expr F64} (h : Pointwise e) (f : AggregateFunc)
    (modifier : Option LabelModifier) : Pointwise (.aggregate (.func f) e none modifier)
  | binary {lhs rhs : Expr F64} (hl : Pointwise lhs) (hr : Pointwise rhs) {op : BinaryOp}
    (hop : op.isSetOp = false) {modifier : Option BinModifier}
    (hcard : JoinMode.fromCardinality (modifier.getD BinModifier.default).card = .plain) :
    Pointwise (.binary op lhs rhs modifier)

/-- Each of them has a reading, in every store. -/
theorem Pointwise.stepwise {e : Expr F64} (h : Pointwise e) : Stepwise env e := by
  induction h with
  | numberLiteral v => exact Stepwise.numberLiteral v
  | rateLike f vs range args => exact Stepwise.rateLike f vs range args
  | overTime f vs range args => exact Stepwise.overTime f vs range args
  | changesOrResets f vs range args => exact Stepwise.changesOrResets f vs range args
  | absentOverTime vs range args => exact Stepwise.absentOverTime vs range args
  | quantileOverTime _ vs range args ih => exact ih.quantileOverTime vs range args
  | paren _ ih => exact ih.paren
  | unary _ ih => exact ih.unary
  | scalarFunc _ f args ih => exact ih.scalarFunc f args
  | mathFunc _ f args ih => exact ih.mathFunc f args
  | clamp _ _ _ args ih ihl ihg => exact ih.clamp ihl ihg args
  | clampMin _ _ args ih ihl => exact ih.clampMin ihl args
  | clampMax _ _ args ih ihg => exact ih.clampMax ihg args
  | labelReplace _ args ih => exact ih.labelReplace args
  | labelJoin _ args ih => exact ih.labelJoin args
  | aggregate _ f modifier ih => exact ih.aggregate f modifier
  | binary _ _ hop hcard ihl ihr => exact ihl.binary ihr hop hcard

/-- **An expression with a reading is reported at a step** as it is at that instant. -/
theorem Stepwise.atTime {e : Expr F64} (h : Stepwise env e) {startMs endMs stepMs t : ℤ}
    (hstep : 0 < stepMs) (ht : t ∈ stepTimes startMs endMs stepMs) :
    (evalExpr env (Times.ofRange startMs endMs stepMs) e).map (PromQLResult.atTime t) =
      evalExpr env (Times.ofInstant t) e := by
  obtain ⟨reading, hreading⟩ := h
  rw [hreading, hreading, Times.points_ofRange hstep, Times.points_ofInstant]
  cases reading with
  | error e => rfl
  | ok reading =>
    exact congrArg Except.ok
      (Reading.atTime_result ((stepTimes_sorted _ _ _).imp ne_of_lt) ht reading)

/-- **A range query is the instant query at each step**, series by series and in the same order. -/
theorem evaluateRange_atTime (parse : String → Except String (Expr F64)) {query : String}
    (env : Env Rodeo Spur F64) {e : Expr F64} (hparse : parse query = .ok e) (he : Pointwise e)
    {startMs endMs stepMs : ℤ} (hstep : 0 < stepMs) (hend : endMs ≤ i64Max) (n : ℕ)
    (ht : startMs + n * stepMs ≤ endMs) :
    (evaluateRange parse query env startMs endMs stepMs).map
        (PromQLResult.atTime (startMs + n * stepMs)) =
      evaluateInstant parse query env (startMs + n * stepMs) := by
  rw [evaluateRange, evaluateInstant, hparse]
  exact he.stepwise.atTime hstep ((mem_stepTimes hstep hend).mpr ⟨n, rfl, ht⟩)

end Stepwise

/-- The newest values of two series within a minute, by job; one of them has none at the first
step. -/
def lastByJob : Expr ℤ :=
  .aggregate (.func .sum) (.call (.overTime .last)
    [.matrixSelector ⟨some "c", [], none, none⟩ 60000000000]) none (some (.include ["job"]))

@[inherit_doc lastByJob]
def lastByJobEnv : Env VecRodeo ℕ ℤ := Env.ofOps
  [.ingestSamples "c" [("job", "a")] [⟨1000, 1, 0⟩, ⟨61000, 5, 0⟩],
    .ingestSamples "c" [("job", "b")] [⟨61000, 7, 0⟩]]

/-- The second step of a query over three of them. -/
theorem evaluateRange_atTime_lastByJob :
    (evaluateRange (fun _ => .ok lastByJob) "" lastByJobEnv 2000 122000 60000).map
        (PromQLResult.atTime (2000 + (1 : ℕ) * 60000)) =
      evaluateInstant (fun _ => .ok lastByJob) "" lastByJobEnv (2000 + (1 : ℕ) * 60000) ∧
    evaluateInstant (fun _ => .ok lastByJob) "" lastByJobEnv 62000 = .ok (.instantVector
      [⟨[("job", "a")], [(62000, 5)]⟩, ⟨[("job", "b")], [(62000, 7)]⟩]) :=
  ⟨evaluateRange_atTime (fun _ => .ok lastByJob) lastByJobEnv rfl
    (.aggregate (.overTime .last _ _ []) .sum _) (by decide) (by decide) 1 (by decide), rfl⟩

end PromQL

end Aniani
