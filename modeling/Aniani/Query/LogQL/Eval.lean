import Aniani.ForMathlib.SortedGroups
import Aniani.ForMathlib.TopK
import Aniani.Query.LogQL.Syntax
import Aniani.Query.Window

/-!
# Evaluating LogQL

A stream query reads the window of every selected stream and runs the pipeline stages on each line.
Without a limit it reports the streams one after another as they are stored. With one it keeps the
newest entries in a heap, over all streams together, and files what is left under the streams.

A read of a window fails where the store slices out of range, and then the query does.

The numbers that stamp the entries in the heap are natural numbers, since they count what is in
memory; no two are the same, so of the tuples in the heap only the times and these are compared.

## Main definitions

* `applyStagesWithExtract`, `applyStages` — the pipeline
* `evaluateMetricQuery`
* `evaluateUnlimitedStreamQuery`, `evaluateLimitedStreamQuery`
* `evaluateLogqlLimited`, `evaluateLogql`
-/

namespace Aniani

namespace LogQL

variable {Rodeo Spur F64 : Type} [LinearOrder Spur] [Interner Rodeo Spur] [FloatOps F64]

/-! ### Selectors -/

/-- `extract_selector_and_stages`. -/
def extractSelectorAndStages : LogQLExpr F64 → List LogQLMatcher × List (PipelineStage F64)
  | .streamSelector matchers => (matchers, [])
  | .pipeline selector stages =>
    ((extractSelectorAndStages selector).1, (extractSelectorAndStages selector).2 ++ stages)
  | .metricQuery _ _ _ => ([], [])

/-- `convert_matchers`. -/
def convertMatchers (matchers : List LogQLMatcher) : List LabelMatcher :=
  matchers.map fun m => ⟨m.name, match m.op with
    | .eq => .eq
    | .neq => .neq
    | .regex => .regex
    | .notRegex => .notRegex, m.value⟩

/-- `query_streams` for the matchers of a selector. -/
def Env.queryStreams (env : Env Rodeo Spur F64) (matchers : List LogQLMatcher) : List ℕ :=
  env.store.queryStreams (fun pattern => (env.regexNew pattern).map Regex.isMatch) env.it
    env.itValues (convertMatchers matchers)

/-- `get_stream_labels`, empty for a stream that is not there. -/
def Env.streamLabels (env : Env Rodeo Spur F64) (sid : ℕ) : List (String × String) :=
  (env.store.getStreamLabels sid).getD []

/-! ### The pipeline -/

/-- The labels a line is filtered by, on the way through the stages. -/
abbrev Extracted := FxHashMap String String

/-- The stream's own labels. -/
def seedLabels (labels : List (String × String)) : Extracted :=
  labels.foldl (fun extracted label => extracted.insert label.1 label.2) ∅

/-- The value of a pair of `logfmt`, without the quotes around it. -/
def unquote (val : String) : String :=
  match val.toList with
  | '"' :: rest => if rest.getLast? = some '"' then String.ofList rest.dropLast else val
  | _ => val

/-- `| logfmt`. -/
def logfmtExtract (line : String) (extracted : Extracted) : Extracted :=
  (splitWhitespace line).foldl (fun extracted pair =>
    match splitOnce '=' pair with
    | some (key, val) => if key.isEmpty then extracted else extracted.insert key (unquote val)
    | none => extracted) extracted

/-- `| json`: a line that is no JSON object extracts nothing. -/
def jsonExtract (json : JsonCrate F64) (line : String) (extracted : Extracted) : Extracted :=
  match json.fromStr line with
  | some (.object entries) => entries.foldl (fun extracted entry =>
      extracted.insert entry.1 (match entry.2 with
        | .string s => s
        | other => json.display other)) extracted
  | _ => extracted

/-- `| regexp`: the named groups that took part in the match. -/
def regexpExtract (re : Regex) (line : String) (extracted : Extracted) : Extracted :=
  match re.captures line with
  | some caps => (re.captureNames.reduceOption).foldl (fun extracted name =>
      match caps name with
      | some text => extracted.insert name text
      | none => extracted) extracted
  | none => extracted

/-- A numeric comparison. -/
def compareNumber (num : F64) (op : CompareOp) (value : F64) : Bool :=
  match op with
  | .gt => FloatOps.lt value num
  | .gte => FloatOps.le value num
  | .lt => FloatOps.lt num value
  | .lte => FloatOps.le num value

/-- A string comparison; a pattern that was not compiled matches nothing. -/
def matchLabel (labelVal : String) (op : MatchOp) (value : String)
    (compiledRegex : Option Regex) : Bool :=
  match op with
  | .eq => labelVal == value
  | .neq => labelVal != value
  | .regex => (compiledRegex.map fun re => re.isMatch labelVal).getD false
  | .notRegex => (compiledRegex.map fun re => !re.isMatch labelVal).getD false

/-- One stage: nothing when it filters the line out. -/
def applyStage (json : JsonCrate F64) (line : String) (extracted : Extracted) :
    PipelineStage F64 → Option Extracted
  | .lineContains pattern => if strContains line pattern then some extracted else none
  | .lineNotContains pattern => if strContains line pattern then none else some extracted
  | .lineRegex _ re => if re.isMatch line then some extracted else none
  | .lineNotRegex _ re => if re.isMatch line then none else some extracted
  | .logfmtExtract => some (logfmtExtract line extracted)
  | .jsonExtract => some (jsonExtract json line extracted)
  | .unwrap _ => some extracted
  | .regexpExtract _ re => some (regexpExtract re line extracted)
  | .compareFilter key op value => do
    let labelVal ← extracted.lookup key
    let num ← FloatOps.parse (strTrim labelVal)
    if compareNumber num op value then some extracted else none
  | .labelFilter key op value compiledRegex => do
    let labelVal ← extracted.lookup key
    if matchLabel labelVal op value compiledRegex then some extracted else none

/-- `apply_stages_with_extract`. -/
def applyStagesWithExtract (json : JsonCrate F64) (line : String) (stages : List (PipelineStage F64))
    (labels : List (String × String)) : Option Extracted :=
  stages.foldlM (applyStage json line) (seedLabels labels)

/-- `apply_stages`. -/
def applyStages (json : JsonCrate F64) (line : String) (stages : List (PipelineStage F64))
    (labels : List (String × String)) : Bool :=
  (applyStagesWithExtract json line stages labels).isSome

/-! ### Metric queries -/

/-- What is counted over the entries of one window. -/
structure WindowCounts (F64 : Type) where
  count : ℕ
  byteSum : ℕ
  numericCount : ℕ
  numericSum : F64
  numericMin : F64
  numericMax : F64

/-- The field of the first `unwrap` stage. -/
def unwrapField : List (PipelineStage F64) → Option String
  | [] => none
  | .unwrap field :: _ => some field
  | _ :: stages => unwrapField stages

/-- One entry of a window. -/
def countEntry (json : JsonCrate F64) (stages : List (PipelineStage F64))
    (labels : List (String × String)) (counts : WindowCounts F64) (entry : LogEntry Spur F64) :
    WindowCounts F64 :=
  match applyStagesWithExtract json entry.line stages labels with
  | none => counts
  | some extracted =>
    let counted := { counts with
      count := counts.count + 1
      byteSum := counts.byteSum + entry.line.utf8ByteSize }
    let numericVal := match unwrapField stages with
      | some field => (extracted.lookup field).bind fun v => FloatOps.parse (strTrim v)
      | none => FloatOps.parse (strTrim entry.line)
    match numericVal with
    | none => counted
    | some value => { counted with
        numericCount := counts.numericCount + 1
        numericSum := FloatOps.add counts.numericSum value
        numericMin := FloatOps.min counts.numericMin value
        numericMax := FloatOps.max counts.numericMax value }

/-- The value of a window, nothing where the step is skipped. -/
def metricValue (function : MetricFunc) (rangeNs : ℤ) (counts : WindowCounts F64) : Option F64 :=
  match function with
  | .countOverTime => some (Float64.ofU64 counts.count)
  | .rate => some (if 0 < rangeNs then
      FloatOps.div (Float64.ofU64 counts.count)
        (FloatOps.div (Float64.ofI64 rangeNs) (Float64.ofI64 1000000000))
    else Float64.zero)
  | .bytesOverTime => some (Float64.ofU64 counts.byteSum)
  | .sumOverTime => some counts.numericSum
  | .avgOverTime => some (if counts.numericCount = 0 then Float64.zero
    else FloatOps.div counts.numericSum (Float64.ofU64 counts.numericCount))
  | .minOverTime => if counts.numericCount = 0 then none else some counts.numericMin
  | .maxOverTime => if counts.numericCount = 0 then none else some counts.numericMax

/-- One step of a series: its sample, if it has one. -/
def metricStep (env : Env Rodeo Spur F64) (function : MetricFunc)
    (stages : List (PipelineStage F64)) (rangeNs : ℤ) (sid : ℕ) (t : ℤ) :
    Option (Option (ℤ × F64)) := do
  let entries ← env.store.getEntries sid (i64SaturatingSub t rangeNs) t
  let counts := entries.foldl (countEntry env.json stages (env.streamLabels sid))
    ⟨0, 0, 0, Float64.zero, FloatOps.infinity, FloatOps.negInfinity⟩
  return (metricValue function rangeNs counts).map fun value => (t, value)

/-- `duration_to_i64_ns`. -/
def durationToI64Ns (duration : ℕ) : ℤ := min duration i64Max

/-- `evaluate_metric_query`, nothing where a read fails. -/
def evaluateMetricQuery (env : Env Rodeo Spur F64) (function : MetricFunc) (inner : LogQLExpr F64)
    (range : ℕ) (startNs endNs stepNs : ℤ) : Option (LogQLResult F64) := do
  let selected := extractSelectorAndStages inner
  let results ← (env.queryStreams selected.1).mapM fun sid => do
    let samples ← (PromQL.stepTimes startNs endNs stepNs).mapM
      (metricStep env function selected.2 (durationToI64Ns range) sid)
    return (⟨env.streamLabels sid, samples.reduceOption⟩ : MetricResult F64)
  return .matrix (results.filter fun result => !result.samples.isEmpty)

/-! ### Stream queries -/

/-- An entry as it is reported. -/
def Env.resolveEntry (env : Env Rodeo Spur F64) (e : LogEntry Spur F64) : ResolvedEntry where
  timestampNs := e.timestampNs
  line := e.line
  traceId := e.traceId.map fun id => hexText id.toList
  spanId := e.spanId.map fun id => hexText id.toList
  attributes :=
    (e.attributes.map fun attr => (Interner.resolve env.store.interner attr.1,
      attributeText env.store.interner attr.2)) ++
    (if e.severityNumber = 0 then [] else [("severity_number", toString e.severityNumber)]) ++
    (e.severityText.map fun text =>
      ("severity_text", Interner.resolve env.store.interner text)).toList

/-- `evaluate_unlimited_stream_query`. -/
def evaluateUnlimitedStreamQuery (env : Env Rodeo Spur F64) (streamIds : List ℕ)
    (stages : List (PipelineStage F64)) (startNs endNs : ℤ) : Option (List StreamResult) := do
  let results ← streamIds.mapM fun sid => do
    let entries ← env.store.getEntries sid startNs endNs
    let labels := env.streamLabels sid
    let passing := entries.filter fun e => applyStages env.json e.line stages labels
    return (⟨labels, passing.map env.resolveEntry⟩ : StreamResult)
  return results.filter fun result => !result.entries.isEmpty

/-- An element of the heap: the time, the sequence number, the stream and the report of an entry. -/
structure HeapItem where
  timestampNs : ℤ
  sequence : ℕ
  sid : ℕ
  entry : ResolvedEntry

/-- What the heap is ordered by. -/
def HeapItem.key (item : HeapItem) : ℤ ×ₗ ℕ := toLex (item.timestampNs, item.sequence)

/-- One entry of the scan. -/
def offerEntry (H : MinHeap HeapItem) (env : Env Rodeo Spur F64) (stages : List (PipelineStage F64))
    (limit sid : ℕ) (acc : H.Heap × ℕ) (e : LogEntry Spur F64) : H.Heap × ℕ :=
  if applyStages env.json e.line stages (env.streamLabels sid) then
    let len := (H.toList acc.1).length
    let shouldInsert := decide (len < limit) ||
      (((H.peek acc.1).map fun oldest => decide (oldest.timestampNs < e.timestampNs)).getD false)
    if shouldInsert then
      let newest := if len = limit then H.pop acc.1 else acc.1
      (H.push newest ⟨e.timestampNs, acc.2, sid, env.resolveEntry e⟩, acc.2 + 1)
    else acc
  else acc

/-- `evaluate_limited_stream_query`. -/
def evaluateLimitedStreamQuery (H : MinHeap HeapItem) (env : Env Rodeo Spur F64)
    (streamIds : List ℕ) (stages : List (PipelineStage F64)) (startNs endNs : ℤ) (limit : ℕ) :
    Option (List StreamResult) := do
  let newest ← streamIds.foldlM (fun acc sid => do
    let entries ← env.store.getEntries sid startNs endNs
    return entries.foldl (offerEntry H env stages limit sid) acc) (H.empty, 0)
  let grouped := List.sortedGroups id HeapItem.sid (H.toList newest.1)
  return grouped.map fun group =>
    ⟨env.streamLabels group.1,
      (group.2.map HeapItem.entry).sortByKey ResolvedEntry.timestampNs⟩

/-- `evaluate_stream_query`. -/
def evaluateStreamQuery (H : MinHeap HeapItem) (env : Env Rodeo Spur F64)
    (matchers : List LogQLMatcher) (stages : List (PipelineStage F64)) (startNs endNs : ℤ) :
    Option ℕ → Option (List StreamResult)
  | some 0 => some []
  | some limit =>
    evaluateLimitedStreamQuery H env (env.queryStreams matchers) stages startNs endNs limit
  | none => evaluateUnlimitedStreamQuery env (env.queryStreams matchers) stages startNs endNs

/-- `evaluate_logql_limited`, nothing where a read fails. -/
def evaluateLogqlLimited (H : MinHeap HeapItem) (env : Env Rodeo Spur F64) (expr : LogQLExpr F64)
    (startNs endNs : ℤ) (stepNs : Option ℤ) (streamLimit : Option ℕ) :
    Option (LogQLResult F64) :=
  match expr with
  | .streamSelector matchers =>
    (evaluateStreamQuery H env matchers [] startNs endNs streamLimit).map .streams
  | .pipeline selector stages =>
    let selected := extractSelectorAndStages selector
    (evaluateStreamQuery H env selected.1 (selected.2 ++ stages) startNs endNs streamLimit).map
      .streams
  | .metricQuery function inner range =>
    evaluateMetricQuery env function inner range startNs endNs
      (stepNs.getD (durationToI64Ns range))

/-- `evaluate_logql`. -/
def evaluateLogql (H : MinHeap HeapItem) (env : Env Rodeo Spur F64) (expr : LogQLExpr F64)
    (startNs endNs : ℤ) (stepNs : Option ℤ) : Option (LogQLResult F64) :=
  evaluateLogqlLimited H env expr startNs endNs stepNs none

/-! ### To evaluate with -/

/-- A store filled by operations, with nothing from outside. -/
def Env.ofOps (ops : List (LogOp ℕ ℤ)) : Env VecRodeo ℕ ℤ where
  store := Run.exec LogStore.apply LogStore.new ops
  it := IterOrder.ascending ℕ
  itValues := IterOrder.ascending ℕ
  regexNew _ := none
  json := ⟨fun _ => none, fun _ => ""⟩

/-- A log entry without anything but a time and a line. -/
def plainEntry (timestampNs : ℤ) (line : String) : LogEntry ℕ ℤ :=
  ⟨timestampNs, line, 0, none, none, 0, none, []⟩

end LogQL

end Aniani
