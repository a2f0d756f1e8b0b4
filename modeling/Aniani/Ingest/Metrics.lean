import Aniani.Ingest.Otlp
import Aniani.Store.MetricStore

/-!
# Metric ingest

An OTLP metrics request and a Prometheus remote-write request both end up as a list of items: a
visible name, the source name it was made from, labels and samples. The items are committed under
one lock by the same four loops: check every name against the store, register every name, ingest
the samples, register the metadata. The first two loops stop at the first collision.

Every sample takes a number from the global counter while the items are prepared. Other requests
may take numbers in between, so the `n`-th number a request is given is an argument, `seqs n`.

## Main definitions

* `metricItems`, `requestItems` — what an OTLP request is made of
* `remoteItems` — what a remote-write request is made of
* `MetricStore.commitItems` — the four loops
* `MetricStore.ingestMetrics`, `MetricStore.remoteWrite`
* `MetricsEvent`, `MetricStore.handle` — requests and evictions as data
-/

namespace Aniani

/-- One item of a request before its samples are numbered: a series to add points to. -/
structure MetricItem (F64 : Type) where
  name : String
  sourceName : String
  labels : List (String × String)
  /-- Time in milliseconds, and value. -/
  points : List (ℤ × F64)

/-- One item of a request, ready to be ingested. -/
structure PreparedItem (F64 : Type) where
  name : String
  sourceName : String
  labels : List (String × String)
  samples : List (Sample F64)

/-- Metadata collected from a request: name, type, help and unit. -/
structure PreparedMeta where
  name : String
  metricType : MetricType
  help : Option String
  unit : Option String

/-- Number the samples of the items in order, starting with the `n`-th number of the request. -/
def numberItems {F64 : Type} (seqs : ℕ → ℕ) : ℕ → List (MetricItem F64) → List (PreparedItem F64)
  | _, [] => []
  | n, item :: items =>
    { name := item.name
      sourceName := item.sourceName
      labels := item.labels
      samples := item.points.mapIdx fun i p => ⟨p.1, p.2, seqs (n + i)⟩ } ::
    numberItems seqs (n + item.points.length) items

/-! ### OTLP -/

section Otlp

variable {F64 : Type} [Float64 F64]

/-- `name.replace('.', "_")`. -/
def normalizeName (name : String) : String :=
  String.ofList (name.toList.map fun c => if c = '.' then '_' else c)

/-- `u64_to_i64_saturating(time_unix_nano) / 1_000_000`. -/
def unixNanoToMs (timeUnixNano : ℕ) : ℤ := u64ToI64Saturating timeUnixNano / 1000000

/-- `build_dp_labels`. -/
def buildDpLabels (resourceLabels : List (String × String)) (attrs : List (KeyValue F64)) :
    List (String × String) :=
  resourceLabels ++ extractKeyValues attrs

/-- `extract_number_value`. -/
def extractNumberValue (dp : NumberDataPoint F64) : F64 :=
  match dp.value with
  | some (.asDouble d) => d
  | some (.asInt i) => Float64.ofI64 i
  | none => Float64.zero

/-- The item of one data point of a gauge or a sum. -/
def numberItem (resourceLabels : List (String × String)) (metricName : String)
    (dp : NumberDataPoint F64) : MetricItem F64 where
  name := normalizeName metricName
  sourceName := metricName
  labels := buildDpLabels resourceLabels dp.attributes
  points := [(unixNanoToMs dp.timeUnixNano, extractNumberValue dp)]

/-- An item of a component of a metric: its names are those of the metric with a suffix. -/
def componentItem (metricName suffix : String) (labels : List (String × String)) (ms : ℤ)
    (value : F64) : MetricItem F64 where
  name := normalizeName metricName ++ suffix
  sourceName := metricName ++ suffix
  labels := labels
  points := [(ms, value)]

/-- The bucket items of a histogram data point. The running total is a `u64` and wraps; a bucket
without an upper bound is the one of `+Inf`. -/
def bucketItems (metricName : String) (baseLabels : List (String × String)) (ms : ℤ) :
    ℕ → List ℕ → List F64 → List (MetricItem F64)
  | _, [], _ => []
  | total, count :: counts, [] =>
    let total := (total + count) % 2 ^ 64
    componentItem metricName "_bucket" (baseLabels ++ [("le", "+Inf")]) ms (Float64.ofU64 total) ::
      bucketItems metricName baseLabels ms total counts []
  | total, count :: counts, bound :: bounds =>
    let total := (total + count) % 2 ^ 64
    componentItem metricName "_bucket" (baseLabels ++ [("le", Float64.display bound)]) ms
        (Float64.ofU64 total) ::
      bucketItems metricName baseLabels ms total counts bounds

/-- The items of one data point of a histogram. -/
def histogramItems (resourceLabels : List (String × String)) (metricName : String)
    (dp : HistogramDataPoint F64) : List (MetricItem F64) :=
  let baseLabels := buildDpLabels resourceLabels dp.attributes
  let ms := unixNanoToMs dp.timeUnixNano
  bucketItems metricName baseLabels ms 0 dp.bucketCounts dp.explicitBounds ++
    [componentItem metricName "_sum" baseLabels ms (dp.sum.getD Float64.zero),
      componentItem metricName "_count" baseLabels ms (Float64.ofU64 dp.count)]

/-- The items of one data point of a summary. The quantile series have the name of the metric. -/
def summaryItems (resourceLabels : List (String × String)) (metricName : String)
    (dp : SummaryDataPoint F64) : List (MetricItem F64) :=
  let baseLabels := buildDpLabels resourceLabels dp.attributes
  let ms := unixNanoToMs dp.timeUnixNano
  (dp.quantileValues.map fun qv =>
    componentItem metricName "" (baseLabels ++ [("quantile", Float64.display qv.1)]) ms qv.2) ++
    [componentItem metricName "_sum" baseLabels ms dp.sum,
      componentItem metricName "_count" baseLabels ms (Float64.ofU64 dp.count)]

/-- The items of one metric. -/
def metricItems (resourceLabels : List (String × String)) (metric : Metric F64) :
    List (MetricItem F64) :=
  match metric.data with
  | some (.gauge dataPoints) => dataPoints.map (numberItem resourceLabels metric.name)
  | some (.sum _ dataPoints) => dataPoints.map (numberItem resourceLabels metric.name)
  | some (.histogram dataPoints) => dataPoints.flatMap (histogramItems resourceLabels metric.name)
  | some (.summary dataPoints) => dataPoints.flatMap (summaryItems resourceLabels metric.name)
  | some .exponentialHistogram | none => []

/-- The type a metric is recorded with, if it is stored at all. -/
def recordedType (data : Option (MetricData F64)) : Option MetricType :=
  match data with
  | some (.gauge _) => some .gauge
  | some (.sum isMonotonic _) => some (if isMonotonic then .counter else .gauge)
  | some (.histogram _) => some .histogram
  | some (.summary _) => some .summary
  | some .exponentialHistogram | none => none

/-- An empty string is no text. -/
def nonEmpty (s : String) : Option String := if s = "" then none else some s

/-- The metadata of one metric. -/
def metricMeta (metric : Metric F64) : Option PreparedMeta :=
  (recordedType metric.data).map fun metricType =>
    { name := normalizeName metric.name
      metricType := metricType
      help := nonEmpty metric.description
      unit := nonEmpty metric.unit }

/-- The labels every series of a resource gets. -/
def resourceLabels (rm : ResourceMetrics F64) : List (String × String) :=
  promoteServiceName (extractResourceLabels rm.resource)

/-- The items of a request. -/
def requestItems (request : ExportMetricsServiceRequest F64) : List (MetricItem F64) :=
  request.flatMap fun rm =>
    rm.scopeMetrics.flatten.flatMap fun metric => metricItems (resourceLabels rm) metric

/-- The metadata of a request. -/
def requestMeta (request : ExportMetricsServiceRequest F64) : List PreparedMeta :=
  request.flatMap fun rm => rm.scopeMetrics.flatten.filterMap metricMeta

end Otlp

/-! ### Remote write -/

/-- `TimeSeries`: labels and samples, a sample being a time and a value. -/
structure TimeSeries (F64 : Type) where
  labels : List (String × String)
  samples : List (ℤ × F64)

/-- `WriteRequest`. -/
abbrev WriteRequest (F64 : Type) := List (TimeSeries F64)

/-- `str::ends_with`. -/
def endsWith (s suffix : String) : Bool := suffix.toList.isSuffixOf s.toList

/-- `infer_metric_type`. -/
def inferMetricType (name : String) : MetricType :=
  if endsWith name "_bucket" then .histogram
  else if endsWith name "_sum" || endsWith name "_count" then .histogram
  else if endsWith name "_total" then .counter
  else .unknown

/-- The name of a time series: the value of its last label `__name__`. -/
def remoteName (labels : List (String × String)) : String :=
  labels.foldl (fun name label => if label.1 = "__name__" then label.2 else name) ""

/-- The items of a write request: a series without a name is skipped, and a name is its own
source. -/
def remoteItems {F64 : Type} (request : WriteRequest F64) : List (MetricItem F64) :=
  request.filterMap fun ts =>
    if remoteName ts.labels = "" then none
    else some
      { name := remoteName ts.labels
        sourceName := remoteName ts.labels
        labels := ts.labels.filter fun label => decide (label.1 ≠ "__name__")
        points := ts.samples }

/-- The metadata of a write request: each name once, with the type its suffix suggests. -/
def remoteMeta {F64 : Type} (request : WriteRequest F64) : List PreparedMeta :=
  ((remoteItems request).map MetricItem.name).eraseDups.map fun name =>
    { name := name, metricType := inferMetricType name, help := none, unit := none }

/-! ### The commit -/

namespace MetricStore

variable {Rodeo Spur F64 : Type} [LinearOrder Spur] [Interner Rodeo Spur]

/-- The first loop: check every name against the store. -/
def checkItems (s : MetricStore Rodeo Spur F64) :
    List (PreparedItem F64) → Except MetricStoreError Unit
  | [] => .ok ()
  | item :: items =>
    match s.checkMetricNameCollision item.name item.sourceName with
    | .error e => .error e
    | .ok () => checkItems s items

/-- The second loop: register every name. -/
def registerItems (s : MetricStore Rodeo Spur F64) :
    List (PreparedItem F64) → MetricStore Rodeo Spur F64 × Except MetricStoreError Unit
  | [] => (s, .ok ())
  | item :: items =>
    match s.registerMetricName item.name item.sourceName with
    | (s', .error e) => (s', .error e)
    | (s', .ok ()) => registerItems s' items

/-- The third loop: ingest the samples. -/
def ingestItems (s : MetricStore Rodeo Spur F64) (items : List (PreparedItem F64)) :
    MetricStore Rodeo Spur F64 :=
  items.foldl (fun s item => s.ingestSamples item.name item.labels item.samples) s

/-- The fourth loop: register the metadata. -/
def registerMetas (s : MetricStore Rodeo Spur F64) (metas : List PreparedMeta) :
    MetricStore Rodeo Spur F64 :=
  metas.foldl (fun s m => s.registerMetricMetadata m.name (some m.metricType) m.help m.unit) s

/-- The four loops, under one write lock. -/
def commitItems (s : MetricStore Rodeo Spur F64) (items : List (PreparedItem F64))
    (metas : List PreparedMeta) : MetricStore Rodeo Spur F64 × Except MetricStoreError Unit :=
  match s.checkItems items with
  | .error e => (s, .error e)
  | .ok () =>
    match s.registerItems items with
    | (s', .error e) => (s', .error e)
    | (s', .ok ()) => ((s'.ingestItems items).registerMetas metas, .ok ())

/-- `MetricsAccepted`. -/
structure Accepted where
  series : ℕ
  samples : ℕ
  deriving DecidableEq

/-- `ingest_metrics`. -/
def ingestMetrics [Float64 F64] (s : MetricStore Rodeo Spur F64) (seqs : ℕ → ℕ)
    (request : ExportMetricsServiceRequest F64) :
    MetricStore Rodeo Spur F64 × Except MetricStoreError Accepted :=
  let items := numberItems seqs 0 (requestItems request)
  let committed := s.commitItems items (requestMeta request)
  (committed.1, committed.2.map fun () =>
    { series := items.length, samples := (items.map fun item => item.samples.length).sum })

/-- `remote_write_handler`, from the decoded request on; an error is a bad request. -/
def remoteWrite (s : MetricStore Rodeo Spur F64) (seqs : ℕ → ℕ) (request : WriteRequest F64) :
    MetricStore Rodeo Spur F64 × Except MetricStoreError Unit :=
  s.commitItems (numberItems seqs 0 (remoteItems request)) (remoteMeta request)

end MetricStore

/-! ### Requests and evictions -/

/-- What happens to a metric store in operation. -/
inductive MetricsEvent (F64 : Type) where
  | otlp (seqs : ℕ → ℕ) (request : ExportMetricsServiceRequest F64)
  | remoteWrite (seqs : ℕ → ℕ) (request : WriteRequest F64)
  | evictBefore (it : IterOrder ℕ) (cutoffMs : ℤ)
  | evictToMax (it : IterOrder ℕ) (maxSeries : ℕ)
  | clear
  | clearService (it : IterOrder ℕ) (service : String)

/-- The store after an event, whether or not a request is accepted. -/
def MetricStore.handle {Rodeo Spur F64 : Type} [LinearOrder Spur] [Interner Rodeo Spur]
    [Float64 F64] (s : MetricStore Rodeo Spur F64) : MetricsEvent F64 → MetricStore Rodeo Spur F64
  | .otlp seqs request => (s.ingestMetrics seqs request).1
  | .remoteWrite seqs request => (s.remoteWrite seqs request).1
  | .evictBefore it cutoffMs => s.evictBefore it cutoffMs
  | .evictToMax it maxSeries => s.evictToMax it maxSeries
  | .clear => s.clear
  | .clearService it service => s.clearService it service

end Aniani
