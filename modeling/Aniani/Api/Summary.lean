import Aniani.ForMathlib.Leads
import Aniani.Query.Text
import Aniani.Server.Activity

/-!
# The metrics of a service summary

The summary endpoint lists the last sample of each notable series of a service, the newest first.
The times are texts when they are sorted, and texts are compared character by character. Where that
is not the order of the numbers, an old sample can take the place of a newer one.

## Main definitions

* `MetricStore.notable` — the series a summary may list
* `MetricStore.summaryMetrics` — `summarize_metrics`

## Main results

* `MetricStore.newestFirst_iff` — **when the newest are listed**
-/

namespace Aniani

/-- `MAX_METRIC_ITEMS`. -/
def maxMetricItems : ℕ := 20

/-- `MetricType::as_str`. -/
def MetricType.asStr : MetricType → String
  | .counter => "counter"
  | .gauge => "gauge"
  | .histogram => "histogram"
  | .summary => "summary"
  | .unknown => "unknown"

/-- What a summary says of a series. -/
structure MetricSummary (F64 : Type) where
  name : String
  type : Option String
  timestampMs : String
  value : F64
  labels : List (String × String)
  deriving DecidableEq

/-- A series with a notable name, and its last sample. -/
structure NotableSeries (Spur F64 : Type) where
  nameValue : Spur
  labels : LabelPairs Spur
  sample : Sample F64

namespace NotableSeries

variable {Spur F64 : Type}

/-- The time of the last sample. -/
def timestampMs (series : NotableSeries Spur F64) : ℤ := series.sample.timestampMs

/-- The time as it is listed. -/
def timeText (series : NotableSeries Spur F64) : String := toString series.timestampMs

end NotableSeries

namespace MetricStore

variable {Rodeo Spur F64 : Type} [LinearOrder Spur] [Interner Rodeo Spur]
  (s : MetricStore Rodeo Spur F64)

/-- `get_metric_type`. -/
def getMetricType (nameSpur : Spur) : Option MetricType :=
  (s.metricMetadata.lookup nameSpur).bind MetricMetadata.metricType

/-- What the loop over the series of a service finds of one. -/
def notableOf (nameKey : Spur) (id : ℕ) : Option (NotableSeries Spur F64) := do
  let series ← s.streams.lookup id
  let nameValue ← nameOf nameKey series.labels
  guard (isNotable (Interner.resolve s.interner nameValue))
  let sample ← series.entries.getLast?
  return ⟨nameValue, series.labels, sample⟩

/-- The notable series of a service with a sample, in the order of their ids. -/
def notable (service : String) : List (NotableSeries Spur F64) :=
  match Interner.get s.interner "service", Interner.get s.interner service,
    Interner.get s.interner "__name__" with
  | some serviceKey, some serviceValue, some nameKey =>
    match s.labelIndex.lookup (serviceKey, serviceValue) with
    | some serviceSeries => serviceSeries.ids.filterMap (s.notableOf nameKey)
    | none => []
  | _, _, _ => []

/-- What is listed of a series. -/
def metricSummary (series : NotableSeries Spur F64) : MetricSummary F64 where
  name := Interner.resolve s.interner series.nameValue
  type := (s.getMetricType series.nameValue).map MetricType.asStr
  timestampMs := series.timeText
  value := series.sample.value
  labels := s.resolveLabels (series.labels.filter fun label =>
    decide (Interner.get s.interner "__name__" ≠ some label.1))

/-- `summarize_metrics`. -/
def summaryMetrics (service : String) : List (MetricSummary F64) :=
  (((s.notable service).map s.metricSummary).sortByKey fun metric =>
    OrderDual.toDual metric.timestampMs).take maxMetricItems

/-- The series listed are the newest, as many as there is room for, the newest first. -/
def NewestFirst (service : String) : Prop :=
  ∃ listed omitted : List (NotableSeries Spur F64), (listed ++ omitted).Perm (s.notable service) ∧
    s.summaryMetrics service = listed.map s.metricSummary ∧
    listed.length = min maxMetricItems (s.notable service).length ∧
    List.Leads NotableSeries.timestampMs listed omitted

/-- A series whose time comes later as a text, with fewer than the limit above it, is not older. -/
def TextsInOrder (service : String) : Prop :=
  ∀ x ∈ s.notable service, ∀ y ∈ s.notable service, y.timeText < x.timeText →
    (s.notable service).countP (fun a => decide (x.timeText < a.timeText)) < maxMetricItems →
      y.timestampMs ≤ x.timestampMs

/-- The notable series in the order of the texts. -/
def byText (service : String) : List (NotableSeries Spur F64) :=
  (s.notable service).sortByKey fun series => OrderDual.toDual series.timeText

theorem summaryMetrics_eq (service : String) :
    s.summaryMetrics service = ((s.byText service).take maxMetricItems).map s.metricSummary := by
  rw [summaryMetrics, List.sortByKey_map, ← List.map_take]
  rfl

theorem leads_byText_iff (service : String) :
    List.Leads NotableSeries.timestampMs ((s.byText service).take maxMetricItems)
      ((s.byText service).drop maxMetricItems) ↔ s.TextsInOrder service := by
  have hsorted : List.SortedByDesc NotableSeries.timeText (s.byText service) :=
    List.sortedByDesc_sortByKey _ _
  have hperm : (s.byText service).Perm (s.notable service) := List.sortByKey_perm _ _
  rw [List.leads_take_drop_iff hsorted fun a _ b _ h => intToString_injective h, TextsInOrder]
  simp only [hperm.mem_iff, hperm.countP_eq]

/-- Series that are listed alike have the same times. -/
theorem map_timestampMs_of_map_metricSummary {a b : List (NotableSeries Spur F64)}
    (h : a.map s.metricSummary = b.map s.metricSummary) :
    a.map NotableSeries.timestampMs = b.map NotableSeries.timestampMs := by
  have htext := congrArg (List.map MetricSummary.timestampMs) h
  rw [List.map_map, List.map_map] at htext
  have hinj : Function.Injective fun i : ℤ => toString i := fun _ _ => intToString_injective
  refine List.map_injective_iff.mpr hinj ?_
  rw [List.map_map, List.map_map]
  exact htext

theorem newestFirst_of_textsInOrder {service : String} (h : s.TextsInOrder service) :
    s.NewestFirst service := by
  have hperm : (s.byText service).Perm (s.notable service) := List.sortByKey_perm _ _
  refine ⟨_, _, ?_, s.summaryMetrics_eq service, ?_, (s.leads_byText_iff service).mpr h⟩
  · rwa [List.take_append_drop]
  · rw [List.length_take, hperm.length_eq]

theorem textsInOrder_of_newestFirst {service : String} (h : s.NewestFirst service) :
    s.TextsInOrder service := by
  obtain ⟨listed, omitted, hall, heq, _, hleads⟩ := h
  rw [summaryMetrics_eq] at heq
  have htimes := s.map_timestampMs_of_map_metricSummary heq
  -- what is left out of the one list has the times of what is left out of the other
  have hrest : ((s.byText service).drop maxMetricItems |>.map NotableSeries.timestampMs).Perm
      (omitted.map NotableSeries.timestampMs) := by
    have hperm : (s.byText service).Perm (s.notable service) := List.sortByKey_perm _ _
    rw [← List.take_append_drop maxMetricItems (s.byText service)] at hperm
    have hmap := (hperm.trans hall.symm).map NotableSeries.timestampMs
    rw [List.map_append, List.map_append, htimes] at hmap
    exact (List.perm_append_left_iff _).mp hmap
  have hid := (List.leads_map (v := id) (f := NotableSeries.timestampMs)).mpr hleads
  rw [← htimes, ← List.leads_congr_right hrest] at hid
  exact (s.leads_byText_iff service).mp ((List.leads_map (v := id)).mp hid)

/-- **When the newest are listed**: just when the order of the texts is right about every pair of
series whose first is listed. -/
theorem newestFirst_iff (service : String) : s.NewestFirst service ↔ s.TextsInOrder service :=
  ⟨s.textsInOrder_of_newestFirst, s.newestFirst_of_textsInOrder⟩

/-- Two series of errors, whose last samples are a millisecond apart. -/
def errorSeries : MetricStore VecRodeo ℕ ℤ :=
  Run.exec MetricStore.apply MetricStore.new
    [.ingestSamples "errors" [("service", "api"), ("code", "500")] [⟨999, 1, 0⟩],
      .ingestSamples "errors" [("service", "api"), ("code", "502")] [⟨1000, 1, 1⟩]]

/-- The older one is listed first. -/
theorem not_newestFirst_errorSeries :
    (errorSeries.summaryMetrics "api").map MetricSummary.timestampMs = ["999", "1000"] ∧
      ¬ errorSeries.NewestFirst "api" := by
  refine ⟨by decide +kernel, fun h => ?_⟩
  have htexts : ¬ errorSeries.TextsInOrder "api" := by
    rw [TextsInOrder]
    decide +kernel
  exact htexts (errorSeries.textsInOrder_of_newestFirst h)

end MetricStore

end Aniani
