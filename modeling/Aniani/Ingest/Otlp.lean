import Aniani.Store.Attribute
import Aniani.Store.LabelStore

/-!
# OTLP messages and their labels

The part of the OTLP protobuf messages that ingest reads, and the labels it makes of attributes. A
`f64` is a value of a type `F64`; what the program does with one is a class.

## Main definitions

* `Float64` — conversions to `f64` and its display
* `AnyValue`, `KeyValue`, `Resource` — the common messages
* `Metric`, `MetricData`, `ResourceMetrics` — the metrics messages
* `LogRecord`, `ResourceLogs` — the logs messages
* `OtlpSpan`, `ResourceSpans` — the traces messages
* `nonZeroId` — ids of a fixed length
* `extractKeyValues`, `promoteServiceName` — the `label` module
-/

namespace Aniani

/-- What ingest does with a `f64`. -/
class Float64 (F64 : Type) where
  /-- `0.0`. -/
  zero : F64
  /-- `u64 as f64`. -/
  ofU64 : ℕ → F64
  /-- `i64 as f64`. -/
  ofI64 : ℤ → F64
  /-- `f64::to_string`. -/
  display : F64 → String

/-- The whole numbers among the `f64`s, to evaluate with. -/
instance : Float64 ℤ where
  zero := 0
  ofU64 n := n
  ofI64 i := i
  display := toString

/-- `AnyValue`: a value of one of the kinds, or none set. -/
inductive AnyValue (F64 : Type) where
  | unset
  | stringValue (s : String)
  | boolValue (b : Bool)
  | intValue (i : ℤ)
  | doubleValue (d : F64)
  | arrayValue (values : List (AnyValue F64))
  | kvlistValue (values : List (String × Option (AnyValue F64)))
  | bytesValue (b : List UInt8)

/-- `KeyValue`. -/
structure KeyValue (F64 : Type) where
  key : String
  value : Option (AnyValue F64)

/-- `Resource`. -/
structure Resource (F64 : Type) where
  attributes : List (KeyValue F64)

/-! ### Metrics -/

/-- `number_data_point::Value`. -/
inductive NumberValue (F64 : Type) where
  | asDouble (d : F64)
  | asInt (i : ℤ)

/-- `NumberDataPoint`. -/
structure NumberDataPoint (F64 : Type) where
  attributes : List (KeyValue F64)
  timeUnixNano : ℕ
  value : Option (NumberValue F64)

/-- `HistogramDataPoint`. -/
structure HistogramDataPoint (F64 : Type) where
  attributes : List (KeyValue F64)
  timeUnixNano : ℕ
  count : ℕ
  sum : Option F64
  bucketCounts : List ℕ
  explicitBounds : List F64

/-- `SummaryDataPoint`, with its quantile values as pairs of quantile and value. -/
structure SummaryDataPoint (F64 : Type) where
  attributes : List (KeyValue F64)
  timeUnixNano : ℕ
  count : ℕ
  sum : F64
  quantileValues : List (F64 × F64)

/-- `metric::Data`. -/
inductive MetricData (F64 : Type) where
  | gauge (dataPoints : List (NumberDataPoint F64))
  | sum (isMonotonic : Bool) (dataPoints : List (NumberDataPoint F64))
  | histogram (dataPoints : List (HistogramDataPoint F64))
  | exponentialHistogram
  | summary (dataPoints : List (SummaryDataPoint F64))

/-- `Metric`. -/
structure Metric (F64 : Type) where
  name : String
  description : String
  unit : String
  data : Option (MetricData F64)

/-- `ResourceMetrics`: a resource and, scope by scope, its metrics. -/
structure ResourceMetrics (F64 : Type) where
  resource : Option (Resource F64)
  scopeMetrics : List (List (Metric F64))

/-- `ExportMetricsServiceRequest`. -/
abbrev ExportMetricsServiceRequest (F64 : Type) := List (ResourceMetrics F64)

/-! ### Logs -/

/-- `LogRecord`. -/
structure LogRecord (F64 : Type) where
  timeUnixNano : ℕ
  severityNumber : ℤ
  severityText : String
  body : Option (AnyValue F64)
  attributes : List (KeyValue F64)
  traceId : List UInt8
  spanId : List UInt8

/-- `ResourceLogs`: a resource and, scope by scope, its records. -/
structure ResourceLogs (F64 : Type) where
  resource : Option (Resource F64)
  scopeLogs : List (List (LogRecord F64))

/-- `ExportLogsServiceRequest`. -/
abbrev ExportLogsServiceRequest (F64 : Type) := List (ResourceLogs F64)

/-! ### Traces -/

/-- `InstrumentationScope`. -/
structure InstrumentationScope (F64 : Type) where
  name : String
  version : String
  attributes : List (KeyValue F64)

/-- `span::Event`. -/
structure OtlpEvent (F64 : Type) where
  timeUnixNano : ℕ
  name : String
  attributes : List (KeyValue F64)

/-- `span::Link`. -/
structure OtlpLink (F64 : Type) where
  traceId : List UInt8
  spanId : List UInt8
  traceState : String
  attributes : List (KeyValue F64)
  flags : ℕ

/-- `Span`, with its status as a pair of message and code. -/
structure OtlpSpan (F64 : Type) where
  traceId : List UInt8
  spanId : List UInt8
  parentSpanId : List UInt8
  name : String
  kind : ℤ
  startTimeUnixNano : ℕ
  endTimeUnixNano : ℕ
  attributes : List (KeyValue F64)
  events : List (OtlpEvent F64)
  links : List (OtlpLink F64)
  status : Option (String × ℤ)

/-- `ScopeSpans`. -/
structure ScopeSpans (F64 : Type) where
  scope : Option (InstrumentationScope F64)
  spans : List (OtlpSpan F64)

/-- `ResourceSpans`. -/
structure ResourceSpans (F64 : Type) where
  resource : Option (Resource F64)
  scopeSpans : List (ScopeSpans F64)

/-- `ExportTraceServiceRequest`. -/
abbrev ExportTraceServiceRequest (F64 : Type) := List (ResourceSpans F64)

/-! ### Ids and times -/

/-- `try_into` of a slice to `[u8; n]`. -/
def tryInto (n : ℕ) (bytes : List UInt8) : Option (Vector UInt8 n) :=
  if h : bytes.length = n then some ⟨bytes.toArray, by simpa using h⟩ else none

/-- All bytes are zero, as OTLP writes an id that is absent. -/
def allZero (bytes : List UInt8) : Bool := bytes.all (· == 0)

/-- An id of the right length that is not zero. -/
def nonZeroId (n : ℕ) (bytes : List UInt8) : Option (Vector UInt8 n) :=
  if allZero bytes then none else tryInto n bytes

/-- `u64_to_i64_saturating`. -/
def u64ToI64Saturating (value : ℕ) : ℤ := min (value : ℤ) i64Max

/-! ### The `label` module -/

section Label

variable {F64 : Type} [Float64 F64]

/-- `any_value_to_string`: the scalars only. -/
def anyValueToString : AnyValue F64 → Option String
  | .stringValue s => some s
  | .intValue i => some (toString i)
  | .doubleValue d => some (Float64.display d)
  | .boolValue b => some (toString b)
  | _ => none

/-- `extract_key_values`. -/
def extractKeyValues (attrs : List (KeyValue F64)) : List (String × String) :=
  attrs.filterMap fun kv => (kv.value.bind anyValueToString).map fun s => (kv.key, s)

/-- `extract_resource_labels`. -/
def extractResourceLabels (resource : Option (Resource F64)) : List (String × String) :=
  match resource with
  | some r => extractKeyValues r.attributes
  | none => []

/-- Overwrite the value of the first label `service`, if there is one. -/
def replaceService (value : String) : List (String × String) → Option (List (String × String))
  | [] => none
  | (k, v) :: labels =>
    if k = "service" then some ((k, value) :: labels)
    else (replaceService value labels).map fun labels => (k, v) :: labels

/-- `promote_service_name`: the first `service.name` becomes the label `service`. -/
def promoteServiceName (labels : List (String × String)) : List (String × String) :=
  match labels.find? fun label => label.1 == "service.name" with
  | none => labels
  | some (_, value) =>
    let rest := labels.eraseP fun label => label.1 == "service.name"
    (replaceService value rest).getD (rest ++ [("service", value)])

end Label

end Aniani
