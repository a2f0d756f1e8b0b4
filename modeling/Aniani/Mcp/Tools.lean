import Aniani.Api.Catalog
import Aniani.ForMathlib.Steps
import Aniani.Mcp.Logs
import Aniani.Mcp.Protocol
import Aniani.Mcp.Queries
import Aniani.Mcp.TraceTree
import Aniani.Query.HexIds
import Aniani.Query.StepCap
import Aniani.Query.TraceQL.Search
import Aniani.Query.TraceQL.Structural

/-!
# The tools

Each tool is named once, with the arguments it declares, what is said of it, and its handler. The
list of the tools and the calls to them are both read off that table.

A handler takes the lock of one store after another, and between two of them the stores may change.
So it is a program of atomic steps: each of its reads finds one store as it is at that moment. All
but one of the handlers answer from what they read and leave the stores alone; `reset` clears them,
one after another.

## Main definitions

* `Outside` — what the tools read of the outside
* `Handling` — what a handler does, lock by lock
* `ToolResult` — what comes of a call
* `Tool`, `tools` — the table
* `list`, `call` — the two methods that read it
-/

namespace Aniani

namespace Mcp

open Combinator (Combinators Err)

variable {Rodeo Spur F64 : Type}

/-! ### Arguments -/

/-- The spellings of `ResetScope`. -/
def resetScopes : List String := ["all", "service"]

/-- The spellings of `Detail`. -/
def details : List String := ["concise", "detailed"]

/-- `ResetArgs`. -/
def resetArgs : ToolArgs where
  tool := "reset"
  fields := [⟨"scope", .strEnum resetScopes⟩, ⟨"service", .option .string⟩]
  nodup := by decide

/-- `MarkCheckpointArgs`. -/
def markCheckpointArgs : ToolArgs := ⟨"mark_checkpoint", [], by decide⟩

/-- `SummarizeActivityArgs`. -/
def summarizeActivityArgs : ToolArgs where
  tool := "summarize_activity"
  fields := [⟨"service", .string⟩, ⟨"since", .option .u64⟩, ⟨"detail", .option (.strEnum details)⟩]
  nodup := by decide

/-- `CheckHealthArgs`. -/
def checkHealthArgs : ToolArgs := ⟨"check_health", [], by decide⟩

/-- `QueryLogsArgs`, as they are declared. -/
def queryLogsArgs : ToolArgs where
  tool := "query_logs"
  fields := [⟨"service", .option .string⟩, ⟨"level", .option .string⟩,
    ⟨"contains", .option .string⟩, ⟨"limit", .option .u64⟩, ⟨"logql", .option .string⟩]
  nodup := by decide

/-- `QueryMetricsArgs`, as they are declared. -/
def queryMetricsArgs : ToolArgs where
  tool := "query_metrics"
  fields := [⟨"promql", .string⟩, ⟨"start", .option .string⟩, ⟨"end", .option .string⟩,
    ⟨"step", .option .string⟩]
  nodup := by decide

/-- `GetTraceArgs`. -/
def getTraceArgs : ToolArgs where
  tool := "get_trace"
  fields := [⟨"trace_id", .string⟩, ⟨"detail", .option (.strEnum details)⟩]
  nodup := by decide

/-- `ListServicesArgs`. -/
def listServicesArgs : ToolArgs := ⟨"list_services", [], by decide⟩

/-- `DescribeServiceArgs`. -/
def describeServiceArgs : ToolArgs := ⟨"describe_service", [⟨"service", .string⟩], by decide⟩

/-- `wants_extras`. -/
def wantsExtras (detail : Option {text : String // text ∈ details}) : Bool :=
  detail.any fun text => text.1 == "detailed"

/-- The status of a spelling. -/
def TraceStatus.ofText (text : String) : TraceStatus :=
  if text = "error" then .error else if text = "ok" then .ok else .unset

/-! ### Results -/

/-- A trace in a list of traces. -/
structure TraceItem (F64 : Type) where
  traceId : String
  rootSpanName : String
  durationMs : F64
  errorSpanCount : ℕ

/-- What a reset clears. -/
inductive ResetScope where
  | all
  | service (name : String)
  deriving DecidableEq

/-- The structured content of a result. -/
inductive Structured (F64 : Type) where
  | reset (scope : ResetScope) (checkpoint : ℕ)
  | checkpoint (checkpoint : ℕ)
  | activity (activity : ServiceActivity F64) (notable : List (TraceItem F64))
      (tracesTruncated : Bool)
  | health (services : List (ServiceHealth F64))
  | logs (response : QueryLogsResponse)
  | traces (traces : List (TraceItem F64)) (shown totalCount : ℕ) (truncated : Bool)
  | scalar (value : F64)
  | series (series : List (PromQL.SeriesResult F64))
  | tree (tree : TraceTree F64)
  | services (services : List ListedService)
  | catalog (catalog : ServiceCatalog)

/-- The result of a call: `tool_ok` or `tool_err`. -/
inductive ToolResult (F64 : Type) where
  | ok (structured : Structured F64) (text : String)
  | err (message : String)

/-! ### Locks -/

/-- The stores. -/
inductive StoreKind where
  | logs | metrics | traces
  deriving DecidableEq

/-- What a handler does: it takes one lock after another, to read a store or to remove from it. -/
abbrev Handling (Rodeo Spur F64 : Type) : Type → Type :=
  Steps (AppState Rodeo Spur F64) (StoreKind × Removal)

/-- `log_store.read()`. -/
def readLogs : Handling Rodeo Spur F64 (LogStore Rodeo Spur F64) :=
  .look fun s => .done s.logStore

/-- `metric_store.read()`. -/
def readMetrics : Handling Rodeo Spur F64 (MetricStore Rodeo Spur F64) :=
  .look fun s => .done s.metricStore

/-- `trace_store.read()`. -/
def readTraces : Handling Rodeo Spur F64 (TraceStore Rodeo Spur F64) :=
  .look fun s => .done s.traceStore

/-- `ingest_seq.load`. -/
def loadSeq : Handling Rodeo Spur F64 ℕ := .look fun s => .done s.ingestSeq

/-- `write()` of a store, to remove from it. -/
def remove (kind : StoreKind) (r : Removal) : Handling Rodeo Spur F64 Unit :=
  .ask (kind, r) (.done ())

@[simp] theorem readLogs_bind {α : Type} (f : LogStore Rodeo Spur F64 → Handling Rodeo Spur F64 α) :
    readLogs.bind f = .look fun s => f s.logStore := rfl

@[simp] theorem readMetrics_bind {α : Type}
    (f : MetricStore Rodeo Spur F64 → Handling Rodeo Spur F64 α) :
    readMetrics.bind f = .look fun s => f s.metricStore := rfl

@[simp] theorem readTraces_bind {α : Type}
    (f : TraceStore Rodeo Spur F64 → Handling Rodeo Spur F64 α) :
    readTraces.bind f = .look fun s => f s.traceStore := rfl

@[simp] theorem loadSeq_bind {α : Type} (f : ℕ → Handling Rodeo Spur F64 α) :
    loadSeq.bind f = .look fun s => f s.ingestSeq := rfl

@[simp] theorem remove_bind {α : Type} (kind : StoreKind) (r : Removal)
    (f : Unit → Handling Rodeo Spur F64 α) : (remove kind r).bind f = .ask (kind, r) (f ()) := rfl

/-- The removal of a reset. -/
def ResetScope.removal : ResetScope → Removal
  | .all => .clear
  | .service name => .clearService name

/-- The removals of a reset, in order. -/
def ResetScope.plan (scope : ResetScope) : List (StoreKind × Removal) :=
  [(.logs, scope.removal), (.metrics, scope.removal), (.traces, scope.removal)]

/-! ### Handlers -/

/-- What the tools read of the outside: what the crates and the standard library do, the clock, and
the orders maps and sets are walked in. -/
structure Outside (Spur F64 : Type) where
  /-- `Value::to_string`. -/
  display : JsonValue F64 → String
  /-- How an error of the TraceQL parser is displayed. -/
  displayErr : Err Char → String
  /-- A number without a fraction, and one as it is. -/
  rounded : F64 → String
  plain : F64 → String
  parsePromql : String → Except String (PromQL.Expr F64)
  /-- `Regex::new`, with `is_match` and with `captures`. -/
  regexNew : String → Option (String → Bool)
  regexCaptures : String → Option (String → Option (List (Option String)))
  logqlRegex : String → Option LogQL.Regex
  json : JsonCrate F64
  debugStr : String → String
  heap : MinHeap LogQL.HeapItem
  clock : ℕ
  streams : IterOrder ℕ
  streamValues : IterOrder Spur
  series : IterOrder ℕ
  seriesValues : IterOrder Spur
  traces : IterOrder TraceId
  known : IterOrder Spur
  activity : ActivityWalks Spur
  health : HealthWalks Spur
  listing : ListingWalks Spur
  describe : DescribeWalks Spur

section Handlers

/-- The answer of `handle_reset`. -/
def resetDone (scope : ResetScope) (checkpoint : ℕ) : ToolResult F64 :=
  .ok (.reset scope checkpoint) ("reset complete; checkpoint=" ++ toString checkpoint)

/-- The arms of `handle_reset`, and its answer. -/
def clearStores (scope : ResetScope) : Handling Rodeo Spur F64 (ToolResult F64) := do
  remove .logs scope.removal
  remove .metrics scope.removal
  remove .traces scope.removal
  let checkpoint ← loadSeq
  return resetDone scope checkpoint

/-- `handle_reset`. -/
def handleReset (scope : {text : String // text ∈ resetScopes}) (service : Option String) :
    Handling Rodeo Spur F64 (ToolResult F64) :=
  if scope.1 = "all" then clearStores .all
  else
    match service.filter fun s => s ≠ "" with
    | some s => clearStores (.service s)
    | none => return .err "scope='service' requires a non-empty `service`"

/-- `handle_mark_checkpoint`. -/
def handleMarkCheckpoint : Handling Rodeo Spur F64 (ToolResult F64) := do
  let checkpoint ← loadSeq
  return .ok (.checkpoint checkpoint) ("checkpoint=" ++ toString checkpoint ++
    " — pass as `since` to scope a later summary")

variable [LinearOrder Spur] [Interner Rodeo Spur] [FloatOps F64] (out : Outside Spur F64)

omit [FloatOps F64] in
/-- `require_known_service`: why the service is refused. An empty name is refused unread. -/
def requireKnownService (service : String) : Handling Rodeo Spur F64 (Option String) :=
  if service = "" then return some "`service` must not be empty"
  else do
    let logs ← readLogs
    let metrics ← readMetrics
    let traces ← readTraces
    let s : Stores Rodeo Spur F64 := ⟨logs, metrics, traces⟩
    return s.requireKnownService out.known service

/-- `trace_item`, with the number of error spans given. -/
def traceItem (store : TraceStore Rodeo Spur F64) (traceId : TraceId) (errorSpanCount : ℕ) :
    Option (TraceItem F64) :=
  (store.traceResult traceId).map fun r => {
    traceId := hexText traceId.toList
    rootSpanName := r.rootSpanName
    durationMs := FloatOps.div (Float64.ofI64 r.durationNs) (Float64.ofI64 1000000)
    errorSpanCount := errorSpanCount }

/-- `trace_items`. -/
def traceItems (store : TraceStore Rodeo Spur F64) (traceIds : List TraceId) :
    List (TraceItem F64) :=
  traceIds.filterMap fun t => (store.getTrace t).bind fun spans =>
    traceItem store t (countErrorSpans (spans.map Span.status))

/-- The notable traces of a summary: those with an error in the window, the slowest first. -/
def notableTraces (it : IterOrder TraceId) (store : TraceStore Rodeo Spur F64) (service : String)
    (since : Option ℕ) : List (TraceItem F64) :=
  FloatOps.sortedByDesc TraceItem.durationMs
    ((store.keptTraces it service since).filterMap fun trace =>
      let errs := countErrorSpans (trace.2.map Span.status)
      if errs = 0 then none else traceItem store trace.1 errs)

/-- The one line of a summary. -/
def activityText (activity : ServiceActivity F64) : String :=
  toString activity.logs.errorCount ++ " error log(s), " ++
    toString activity.traces.errorTraceCount ++ " failing trace(s), health " ++
      out.rounded activity.healthScore

/-- `handle_summarize_activity`. -/
def handleSummarizeActivity (service : String) (since : Option ℕ) (detailed : Bool) :
    Handling Rodeo Spur F64 (Option (ToolResult F64)) := do
  match ← requireKnownService out service with
  | some message => return some (.err message)
  | none =>
    let observedThrough ← loadSeq
    let logs ← readLogs
    let traces ← readTraces
    let metrics ← readMetrics
    let s : AppState Rodeo Spur F64 := ⟨⟨logs, metrics, traces⟩, observedThrough⟩
    return (summarizeActivity out.activity s service since detailed).map fun activity =>
      let notable := notableTraces out.activity.traces traces service since
      .ok (.activity activity (notable.take (topN detailed))
        (decide (topN detailed < notable.length))) (activityText out activity)

/-- `handle_check_health`. -/
def handleCheckHealth : Handling Rodeo Spur F64 (ToolResult F64) := do
  let logs ← readLogs
  let traces ← readTraces
  let metrics ← readMetrics
  let s : Stores Rodeo Spur F64 := ⟨logs, metrics, traces⟩
  let services := checkHealth out.health s
  return .ok (.health services) (match services.head? with
    | some worst => toString services.length ++ " service(s) ranked worst-first; worst: " ++
        worst.service ++ " (health " ++ out.rounded worst.healthScore ++ ", " ++
          worst.topIssue ++ ")"
    | none => "no services reporting telemetry yet")

omit [FloatOps F64] in
/-- `handle_list_services`. -/
def handleListServices : Handling Rodeo Spur F64 (ToolResult F64) := do
  let logs ← readLogs
  let metrics ← readMetrics
  let traces ← readTraces
  let s : Stores Rodeo Spur F64 := ⟨logs, metrics, traces⟩
  let services := s.listServices out.listing
  return .ok (.services services) (toString services.length ++ " service(s)")

omit [FloatOps F64] in
/-- `handle_describe_service`. -/
def handleDescribeService (service : String) : Handling Rodeo Spur F64 (ToolResult F64) := do
  match ← requireKnownService out service with
  | some message => return .err message
  | none =>
    let metrics ← readMetrics
    let logs ← readLogs
    let traces ← readTraces
    let s : Stores Rodeo Spur F64 := ⟨logs, metrics, traces⟩
    let cat := s.describeService out.describe service
    return .ok (.catalog cat) (toString cat.metrics.length ++ " metric(s), " ++
      toString cat.logLabels.length ++ " log label key(s), " ++
        toString cat.spanAttributes.length ++ " span attr key(s)")

/-- The `[u8; 16]` that bytes are written to, one after another. -/
def traceIdOf (bytes : List UInt8) : TraceId := Vector.ofFn fun i => bytes.getD i 0

/-- `handle_get_trace`. -/
def handleGetTrace (hex : String) (detailed : Bool) : Handling Rodeo Spur F64 (ToolResult F64) :=
  match parseTraceArg hex.toList with
  | .error message => return .err message
  | .ok bytes => do
    let store ← readTraces
    match buildTraceTree store (traceIdOf bytes) detailed with
    | some tree => return .ok (.tree tree) ("trace " ++ tree.traceId ++ " with " ++
        toString tree.roots.length ++ " root span(s)")
    | none => return .err ("trace " ++ hex ++ " not found")

/-- How a `PromQLError` is displayed. -/
def displayPromQLError : PromQL.PromQLError → String
  | .parse text => "parse error: " ++ text
  | .unsupported text => "unsupported expression: " ++ text
  | .eval text => "evaluation error: " ++ text

/-- `handle_query_metrics`. An empty query is refused before the lock is taken, which shows in
nothing. -/
def handleQueryMetrics (args : QueryMetricsArgs) :
    Handling Rodeo Spur F64 (Option (ToolResult F64)) := do
  let store ← readMetrics
  return match queryMetrics out.clock out.parsePromql
    ⟨store, out.series, out.seriesValues, out.regexCaptures, out.debugStr⟩ args with
  | .error (.error text) => some (.err text)
  | .error .panicked => none
  | .ok (.error e) => some (.err ("PromQL error: " ++ displayPromQLError e ++
      ". Example: rate(http_requests_total[5m])"))
  | .ok (.ok (.scalar v)) => some (.ok (.scalar v) ("scalar " ++ out.plain v))
  | .ok (.ok (.instantVector series)) | .ok (.ok (.rangeVector series)) =>
    some (.ok (.series series) (toString series.length ++ " series"))

variable [Combinators Char] [Alphanumeric]

/-- `handle_query_logs`, as a tool. The query is parsed before the lock is taken, which shows in
nothing. -/
def queryLogsTool (args : QueryLogsArgs) : Handling Rodeo Spur F64 (Option (ToolResult F64)) := do
  let store ← readLogs
  let env : LogQL.Env Rodeo Spur F64 :=
    ⟨store, out.streams, out.streamValues, out.logqlRegex, out.json⟩
  return (handleQueryLogs out.logqlRegex out.heap env args).map fun
    | .error message => .err message
    | .ok response => .ok (.logs response) response.text

/-- `handle_query_traces`. The traces are found under one lock and listed under another: those that
are gone by then are left out. -/
def handleQueryTraces (args : QueryTracesArgs) :
    Handling Rodeo Spur F64 (Option (ToolResult F64)) :=
  match tracesExpr out.displayErr args with
  | none => return none
  | some (.error message) => return some (.err message)
  | some (.ok expr) => do
    let store ← readTraces
    let traceIds := (store.evaluateTraceql out.regexNew out.traces expr).map TraceResult.traceId
    let limit := queryLimit args.limit
    let store ← readTraces
    let shown := traceItems store (traceIds.take limit)
    return some (.ok
      (.traces shown shown.length traceIds.length (decide (limit < traceIds.length)))
      (if limit < traceIds.length then
        "showing " ++ toString shown.length ++ " of " ++ toString traceIds.length ++
          " trace(s) — narrow filters or raise `limit`"
      else toString shown.length ++ " trace(s)"))

end Handlers

/-! ### The table -/

/-- What a tool is said to do. -/
structure Annotations where
  title : String
  readOnlyHint : Bool
  destructiveHint : Option Bool
  idempotentHint : Bool
  openWorldHint : Bool

/-- `read_only`. -/
def readOnly (title : String) : Annotations := ⟨title, true, none, true, false⟩

/-- The schema of a value of some type. -/
def typed (ty : String) : JsonValue F64 := .object [("type", .string ty)]

/-- The schema of an array of objects. -/
def objects : JsonValue F64 := .object [("items", typed "object"), ("type", .string "array")]

/-- An `outputSchema`, of an object. -/
def outputSchema (properties : List (String × JsonValue F64)) (required : List String) :
    JsonValue F64 :=
  .object ([("properties", .object (mapFromIter properties))] ++
    (if required.isEmpty then [] else [("required", .array (required.map .string))]) ++
    [("type", .string "object")])

/-- The `outputSchema` of a list of so many items of how many. -/
def pageSchema (items : String) : JsonValue F64 :=
  outputSchema [(items, objects), ("shown", typed "integer"), ("total_count", typed "integer"),
    ("truncated", typed "boolean")] [items, "shown", "total_count", "truncated"]

/-- An entry of the table. -/
structure Tool (Rodeo Spur F64 : Type) where
  name : String
  args : ToolArgs
  handler : Outside Spur F64 → Struct args.fields →
    Handling Rodeo Spur F64 (Option (ToolResult F64))
  title : String
  description : String
  outputSchema : JsonValue F64
  annotations : Annotations

section Table

/-- A handler that does not panic. -/
def answering (handling : Handling Rodeo Spur F64 (ToolResult F64)) :
    Handling Rodeo Spur F64 (Option (ToolResult F64)) :=
  handling.bind fun result => .done (some result)

variable [LinearOrder Spur] [Interner Rodeo Spur] [FloatOps F64] [Combinators Char] [Alphanumeric]

/-- The table of the tools. -/
def tools : List (Tool Rodeo Spur F64) := [
  { name := "reset"
    args := resetArgs
    handler := fun _ (scope, service, _) => answering (handleReset scope service)
    title := "Reset Telemetry Store"
    description := "Clear telemetry. scope='all' wipes everything; scope='service' clears one " ++
      "service (requires `service`). The only write tool. Returns a fresh checkpoint token."
    outputSchema := outputSchema [("scope", typed "string"), ("service", typed "string"),
      ("checkpoint", typed "integer")] ["scope", "checkpoint"]
    annotations := ⟨"Reset Telemetry Store", false, some true, true, false⟩ },
  { name := "mark_checkpoint"
    args := markCheckpointArgs
    handler := fun _ _ => answering handleMarkCheckpoint
    title := "Mark Checkpoint"
    description := "Return an opaque monotonic checkpoint token for 'now'. Pass it later as " ++
      "`since` to scope a summary to telemetry ingested after this point. Not a wall-clock time."
    outputSchema := outputSchema [("checkpoint", typed "integer")] ["checkpoint"]
    annotations := readOnly "Mark Checkpoint" },
  { name := "summarize_activity"
    args := summarizeActivityArgs
    handler := fun out (service, since, detail, _) =>
      handleSummarizeActivity out service (since.map Subtype.val) (wantsExtras detail)
    title := "Summarize Service Activity"
    description := "Triage one service: error logs, failing/slow traces, error metrics, health " ++
      "score, one-line summary. Use after a run to see what it produced. Pass `since` (a " ++
      "checkpoint token) to scope to the latest run. Use this BEFORE drilling in with query_* " ++
      "tools."
    outputSchema := outputSchema [("service", typed "string"),
      ("since", .object [("type", .array [.string "integer", .string "null"])]),
      ("observed_through", typed "integer"), ("health_score", typed "number"),
      ("summary", typed "string"), ("logs", typed "object"), ("traces", typed "object"),
      ("metrics", typed "object"), ("truncated", typed "object")]
      ["service", "health_score", "summary"]
    annotations := readOnly "Summarize Service Activity" },
  { name := "check_health"
    args := checkHealthArgs
    handler := fun out _ => answering (handleCheckHealth out)
    title := "Check Global Health"
    description := "Rank every known service by health, worst first. Use when you don't yet " ++
      "know which service is in trouble."
    outputSchema := outputSchema [("services", objects)] ["services"]
    annotations := readOnly "Check Global Health" },
  { name := "query_logs"
    args := queryLogsArgs
    handler := fun out (service, level, contains, limit, logql, _) =>
      queryLogsTool out ⟨service, level, contains, limit.map Subtype.val, logql⟩
    title := "Query Logs"
    description := "Fetch log lines. Provide structured filters (service, level, contains) OR a " ++
      "raw `logql` string (e.g. \x7bservice=\"api\"\x7d |= \"error\"). If `logql` is set, " ++
      "structured filters are ignored. To scope to a run, reset first, then query; " ++
      "summarize_activity is the checkpoint-accurate run summary."
    outputSchema := pageSchema "logs"
    annotations := readOnly "Query Logs" },
  { name := "query_traces"
    args := queryTracesArgs
    handler := fun out (service, name, status, minDuration, limit, traceql, _) =>
      handleQueryTraces out ⟨service, name, status.map fun text => .ofText text.1, minDuration,
        limit.map Subtype.val, traceql⟩
    title := "Query Traces"
    description := "Find traces. Provide structured filters (service, name, status, " ++
      "min_duration) OR a raw `traceql` string. If `traceql` is set, structured filters are " ++
      "ignored."
    outputSchema := pageSchema "traces"
    annotations := readOnly "Query Traces" },
  { name := "query_metrics"
    args := queryMetricsArgs
    handler := fun out (promql, start, finish, step, _) =>
      handleQueryMetrics out ⟨promql, start, finish, step⟩
    title := "Query Metrics"
    description := "Run a raw PromQL query (e.g. rate(http_requests_total[5m])). For a range " ++
      "query pass all of start/end (unix seconds, or ms/ns) and step (a duration like 15s or " ++
      "1m); omit all three for an instant query at now."
    outputSchema := outputSchema [("series", objects), ("scalar", typed "number")] []
    annotations := readOnly "Query Metrics" },
  { name := "get_trace"
    args := getTraceArgs
    handler := fun _ (traceId, detail, _) =>
      answering (handleGetTrace traceId (wantsExtras detail))
    title := "Get Trace Tree"
    description := "Return one trace as a parent/child span tree. `trace_id` is 32 hex chars. " ++
      "Use `detail=detailed` to include span attributes."
    outputSchema := outputSchema [("trace_id", typed "string"), ("roots", objects)]
      ["trace_id", "roots"]
    annotations := readOnly "Get Trace Tree" },
  { name := "list_services"
    args := listServicesArgs
    handler := fun out _ => answering (handleListServices out)
    title := "List Services"
    description := "List every service reporting telemetry and which signals " ++
      "(logs/metrics/traces) each has."
    outputSchema := outputSchema [("services", objects)] ["services"]
    annotations := readOnly "List Services" },
  { name := "describe_service"
    args := describeServiceArgs
    handler := fun out (service, _) => answering (handleDescribeService out service)
    title := "Describe Service"
    description := "Catalog a service's queryable surface: metric names, log label keys + " ++
      "values, span attribute keys. Call this before writing a raw logql/promql/traceql query."
    outputSchema := outputSchema [("service", typed "string"), ("metrics", typed "array"),
      ("log_labels", typed "array"), ("span_attributes", typed "array")] ["service"]
    annotations := readOnly "Describe Service" }]

/-- A tool as it is listed. -/
structure Descriptor (F64 : Type) where
  name : String
  inputSchema : JsonValue F64
  title : String
  description : String
  outputSchema : JsonValue F64
  annotations : Annotations

variable (Rodeo Spur F64) in
/-- `list`. -/
def list : List (Descriptor F64) :=
  (tools : List (Tool Rodeo Spur F64)).map fun tool => {
    name := tool.name
    inputSchema := tool.args.schema
    title := tool.title
    description := tool.description
    outputSchema := tool.outputSchema
    annotations := tool.annotations }

omit [FloatOps F64] [Combinators Char] [Alphanumeric] [LinearOrder Spur] [Interner Rodeo Spur] in
/-- The `arguments` of a call. A literal `null` is taken for none. -/
def argumentsOf (params : Value F64) : Except String (JsonObject F64) :=
  match (params.get "arguments").bind Value.deserializeOption with
  | none => .ok ⟨[], List.nodup_nil⟩
  | some v =>
    match v.asObject with
    | some given => .ok given
    | none => .error "`arguments` must be an object"

variable [SerdeJson F64] (out : Outside Spur F64)

omit [LinearOrder Spur] [Interner Rodeo Spur] [Combinators Char] [Alphanumeric] in
/-- `with_args`. -/
def withArgs (tool : Tool Rodeo Spur F64) (given : JsonObject F64) :
    Handling Rodeo Spur F64 (Option (ToolResult F64)) :=
  match parse out.display tool.args given with
  | .ok parsed => tool.handler out parsed
  | .error problem => return some (.err problem)

variable (Rodeo) in
/-- `call`: the message of an `INVALID_PARAMS` error, or what the tool does. -/
def call (params : Value F64) :
    Except String (Handling Rodeo Spur F64 (Option (ToolResult F64))) :=
  match (params.get "name").bind Value.asStr with
  | none => .error "missing tool name"
  | some name => (argumentsOf params).bind fun given =>
    match tools.find? fun tool => tool.name = name with
    | some tool => .ok (withArgs out tool given)
    | none => .error "unknown tool"

end Table

end Mcp

end Aniani
