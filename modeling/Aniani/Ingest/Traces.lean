import Aniani.Ingest.Otlp
import Aniani.Query.Window
import Aniani.Store.TraceStore

/-!
# Trace ingest

An OTLP traces request is prepared outside the lock, resource by resource and scope by scope. The
attributes of a resource are interned once for all its spans, and those of a scope once for the
spans of the scope; every span then gets both in front of its own.

A span whose trace id or span id is not an id is skipped, and takes no number.

## Main definitions

* `PreparedAttributeValue`, `PreparedSpan`, `PreparedResource`
* `prepareSpan`, `preparedResources` — of an OTLP request
* `TraceStore.ingestResource`, `TraceStore.ingestTraces` — the part under the lock
-/

namespace Aniani

/-- `PreparedAttributeValue`. -/
inductive PreparedAttributeValue (F64 : Type) where
  | string (s : String)
  | int (i : ℤ)
  | float (f : F64)
  | bool (b : Bool)
  | array (items : List (PreparedAttributeValue F64))
  | bytes (b : List UInt8)
  | keyValueList (pairs : List (String × PreparedAttributeValue F64))

/-- `PreparedAttrs`: attribute pairs before interning. -/
abbrev PreparedAttrs (F64 : Type) := List (String × PreparedAttributeValue F64)

/-- `PreparedEvent`. -/
structure PreparedEvent (F64 : Type) where
  name : String
  timeNs : ℤ
  attributes : PreparedAttrs F64

/-- `PreparedLink`. -/
structure PreparedLink (F64 : Type) where
  traceId : TraceId
  spanId : SpanId
  traceState : Option String
  attributes : PreparedAttrs F64
  flags : ℕ

/-- `PreparedSpan`. -/
structure PreparedSpan (F64 : Type) where
  traceId : TraceId
  spanId : SpanId
  parentSpanId : Option SpanId
  name : String
  serviceName : String
  startTimeNs : ℤ
  durationNs : ℤ
  status : SpanStatus
  statusMessage : Option String
  kind : SpanKind
  attributes : PreparedAttrs F64
  events : List (PreparedEvent F64)
  links : List (PreparedLink F64)
  ingestSeq : ℕ

/-- `PreparedScopeGroup`: the attributes of a scope and its spans. -/
abbrev PreparedScopeGroup (F64 : Type) := PreparedAttrs F64 × List (PreparedSpan F64)

/-- The attributes of a resource and its scopes. -/
abbrev PreparedResource (F64 : Type) := PreparedAttrs F64 × List (PreparedScopeGroup F64)

/-! ### Preparing -/

section Prepare

variable {F64 : Type}

mutual

/-- `convert_any_value` of the trace handler: nested values too. -/
def convertAnyValue : AnyValue F64 → Option (PreparedAttributeValue F64)
  | .stringValue s => some (.string s)
  | .intValue i => some (.int i)
  | .doubleValue d => some (.float d)
  | .boolValue b => some (.bool b)
  | .bytesValue b => some (.bytes b)
  | .arrayValue values => some (.array (convertAnyValues values))
  | .kvlistValue values => some (.keyValueList (convertKeyValues values))
  | .unset => none

/-- The elements of an array that have a value. -/
def convertAnyValues : List (AnyValue F64) → List (PreparedAttributeValue F64)
  | [] => []
  | value :: values => (convertAnyValue value).toList ++ convertAnyValues values

/-- The entries of a key-value list that have a value. -/
def convertKeyValues : List (String × Option (AnyValue F64)) → PreparedAttrs F64
  | [] => []
  | (_, none) :: values => convertKeyValues values
  | (key, some value) :: values =>
    ((convertAnyValue value).map fun v => (key, v)).toList ++ convertKeyValues values

end

/-- The attributes that have a value, under a prefix. -/
def prepareAttrs (before : String) (attrs : List (KeyValue F64)) : PreparedAttrs F64 :=
  attrs.filterMap fun attr =>
    (attr.value.bind convertAnyValue).map fun value => (before ++ attr.key, value)

/-- `prepare_scope_attrs`. -/
def prepareScopeAttrs (scope : Option (InstrumentationScope F64)) : PreparedAttrs F64 :=
  match scope with
  | none => []
  | some scope =>
    (if scope.name = "" then [] else [("scope.name", .string scope.name)]) ++
      (if scope.version = "" then [] else [("scope.version", .string scope.version)]) ++
      prepareAttrs "scope." scope.attributes

/-- The status a code stands for. -/
def spanStatus (status : Option (String × ℤ)) : SpanStatus :=
  match status with
  | some (_, 1) => .ok
  | some (_, 2) => .error
  | _ => .unset

/-- `SpanKind::from_otlp`. -/
def SpanKind.fromOtlp (kind : ℤ) : SpanKind :=
  match kind with
  | 1 => .internal
  | 2 => .server
  | 3 => .client
  | 4 => .producer
  | 5 => .consumer
  | _ => .unspecified

/-- An event, its attribute keys as they are. -/
def prepareEvent (event : OtlpEvent F64) : PreparedEvent F64 where
  name := event.name
  timeNs := u64ToI64Saturating event.timeUnixNano
  attributes := prepareAttrs "" event.attributes

/-- A link, if both its ids are ids. -/
def prepareLink (link : OtlpLink F64) : Option (PreparedLink F64) :=
  match nonZeroId 16 link.traceId, nonZeroId 8 link.spanId with
  | some traceId, some spanId => some
    { traceId := traceId
      spanId := spanId
      traceState := if link.traceState = "" then none else some link.traceState
      attributes := prepareAttrs "" link.attributes
      flags := link.flags }
  | _, _ => none

/-- The two ids of a span, if they are ids. -/
def spanIds (span : OtlpSpan F64) : Option (TraceId × SpanId) :=
  match nonZeroId 16 span.traceId, nonZeroId 8 span.spanId with
  | some traceId, some spanId => some (traceId, spanId)
  | _, _ => none

/-- The spans that are not skipped, with their ids. -/
def validSpans (spans : List (OtlpSpan F64)) : List ((TraceId × SpanId) × OtlpSpan F64) :=
  spans.filterMap fun span => (spanIds span).map fun ids => (ids, span)

/-- One span of a service. -/
def prepareSpan (serviceName : String) (seq : ℕ) (ids : TraceId × SpanId) (span : OtlpSpan F64) :
    PreparedSpan F64 where
  traceId := ids.1
  spanId := ids.2
  parentSpanId := nonZeroId 8 span.parentSpanId
  name := span.name
  serviceName := serviceName
  startTimeNs := u64ToI64Saturating span.startTimeUnixNano
  durationNs := i64SaturatingSub (u64ToI64Saturating span.endTimeUnixNano)
    (u64ToI64Saturating span.startTimeUnixNano)
  status := spanStatus span.status
  statusMessage := (span.status.map Prod.fst).filter fun message => decide (message ≠ "")
  kind := SpanKind.fromOtlp span.kind
  attributes := prepareAttrs "span." span.attributes
  events := span.events.map prepareEvent
  links := span.links.filterMap prepareLink
  ingestSeq := seq

/-- The scopes of a resource, their spans numbered from the `n`-th number of the request on. -/
def scopeGroups (seqs : ℕ → ℕ) (serviceName : String) :
    ℕ → List (ScopeSpans F64) → List (PreparedScopeGroup F64)
  | _, [] => []
  | n, scopeSpans :: scopes =>
    (prepareScopeAttrs scopeSpans.scope,
      (validSpans scopeSpans.spans).mapIdx fun i span =>
        prepareSpan serviceName (seqs (n + i)) span.1 span.2) ::
    scopeGroups seqs serviceName (n + (validSpans scopeSpans.spans).length) scopes

/-- The number of spans of a resource that are not skipped. -/
def spanCount (scopes : List (ScopeSpans F64)) : ℕ :=
  (scopes.map fun scopeSpans => (validSpans scopeSpans.spans).length).sum

variable [Float64 F64]

/-- The service of a resource. -/
def resourceService (resource : Option (Resource F64)) : String :=
  (((extractResourceLabels resource).find? fun label => label.1 == "service.name").map
    Prod.snd).getD "unknown"

/-- The attributes of a resource: those with a scalar value, as strings. -/
def prepareResourceAttrs (resource : Option (Resource F64)) : PreparedAttrs F64 :=
  (extractResourceLabels resource).map fun label => ("resource." ++ label.1, .string label.2)

/-- The resources of a request, from the `n`-th number of the request on. -/
def preparedResources (seqs : ℕ → ℕ) : ℕ → ExportTraceServiceRequest F64 →
    List (PreparedResource F64)
  | _, [] => []
  | n, resourceSpans :: request =>
    (prepareResourceAttrs resourceSpans.resource,
      scopeGroups seqs (resourceService resourceSpans.resource) n resourceSpans.scopeSpans) ::
    preparedResources seqs (n + spanCount resourceSpans.scopeSpans) request

end Prepare

/-! ### Under the lock -/

section Intern

variable {Rodeo Spur F64 : Type} [LinearOrder Spur] [Interner Rodeo Spur]

mutual

/-- `intern_value`. -/
def internValue (r : Rodeo) : PreparedAttributeValue F64 → AttributeValue Spur F64 × Rodeo
  | .string s => (.string (Interner.getOrIntern r s).1, (Interner.getOrIntern r s).2)
  | .int i => (.int i, r)
  | .float f => (.float f, r)
  | .bool b => (.bool b, r)
  | .bytes b => (.bytes b, r)
  | .array items =>
    let items' := internValues r items
    (.array items'.1, items'.2)
  | .keyValueList pairs =>
    let pairs' := internPairValues r pairs
    (.keyValueList pairs'.1, pairs'.2)

/-- The elements of an array, one after another. -/
def internValues (r : Rodeo) :
    List (PreparedAttributeValue F64) → List (AttributeValue Spur F64) × Rodeo
  | [] => ([], r)
  | item :: items =>
    let item' := internValue r item
    let rest := internValues item'.2 items
    (item'.1 :: rest.1, rest.2)

/-- The entries of a key-value list, each key before its value. -/
def internPairValues (r : Rodeo) :
    List (String × PreparedAttributeValue F64) → Attributes Spur F64 × Rodeo
  | [] => ([], r)
  | (key, value) :: pairs =>
    let key' := Interner.getOrIntern r key
    let value' := internValue key'.2 value
    let rest := internPairValues value'.2 pairs
    ((key'.1, value'.1) :: rest.1, rest.2)

end

/-- `intern_attribute`. -/
def internAttribute (r : Rodeo) (attr : String × PreparedAttributeValue F64) :
    (Spur × AttributeValue Spur F64) × Rodeo :=
  let key := Interner.getOrIntern r attr.1
  let value := internValue key.2 attr.2
  ((key.1, value.1), value.2)

/-- Intern an event, its name before its attributes. -/
def internEvent (r : Rodeo) (event : PreparedEvent F64) : SpanEvent Spur F64 × Rodeo :=
  let name := Interner.getOrIntern r event.name
  let attributes := internEach internAttribute name.2 event.attributes
  ({ name := name.1, timeNs := event.timeNs, attributes := attributes.1 }, attributes.2)

/-- Intern a link, its state before its attributes. -/
def internLink (r : Rodeo) (link : PreparedLink F64) : SpanLink Spur F64 × Rodeo :=
  let traceState := internOption r link.traceState
  let attributes := internEach internAttribute traceState.2 link.attributes
  ({ traceId := link.traceId
     spanId := link.spanId
     traceState := traceState.1
     attributes := attributes.1
     flags := link.flags }, attributes.2)

/-- `intern_prepared_span`, given the attributes of the resource and the scope. -/
def internPreparedSpan (shared : Attributes Spur F64) (r : Rodeo) (prepared : PreparedSpan F64) :
    Span Spur F64 × Rodeo :=
  let name := Interner.getOrIntern r prepared.name
  let serviceName := Interner.getOrIntern name.2 prepared.serviceName
  let attributes := internEach internAttribute serviceName.2 prepared.attributes
  let events := internEach internEvent attributes.2 prepared.events
  let links := internEach internLink events.2 prepared.links
  let statusMessage := internOption links.2 prepared.statusMessage
  ({ traceId := prepared.traceId
     spanId := prepared.spanId
     parentSpanId := prepared.parentSpanId
     name := name.1
     serviceName := serviceName.1
     startTimeNs := prepared.startTimeNs
     durationNs := prepared.durationNs
     status := prepared.status
     statusMessage := statusMessage.1
     kind := prepared.kind
     attributes := shared ++ attributes.1
     events := events.1
     links := links.1
     ingestSeq := prepared.ingestSeq }, statusMessage.2)

namespace TraceStore

/-- The spans of a scope: intern its attributes, then its spans, and ingest these. -/
def ingestScope (resource : Attributes Spur F64) (s : TraceStore Rodeo Spur F64)
    (group : PreparedScopeGroup F64) : TraceStore Rodeo Spur F64 :=
  let scope := internEach internAttribute s.interner group.1
  let spans := internEach (internPreparedSpan (resource ++ scope.1)) scope.2 group.2
  ingestSpans { s with interner := spans.2 } spans.1

/-- One turn of the loop under the lock: intern the attributes of a resource, then its scopes. -/
def ingestResource (s : TraceStore Rodeo Spur F64) (prepared : PreparedResource F64) :
    TraceStore Rodeo Spur F64 :=
  let resource := internEach internAttribute s.interner prepared.1
  prepared.2.foldl (ingestScope resource.1) { s with interner := resource.2 }

/-- `ingest_traces`. -/
def ingestTraces [Float64 F64] (s : TraceStore Rodeo Spur F64) (seqs : ℕ → ℕ)
    (request : ExportTraceServiceRequest F64) : TraceStore Rodeo Spur F64 :=
  (preparedResources seqs 0 request).foldl ingestResource s

end TraceStore

end Intern

end Aniani
