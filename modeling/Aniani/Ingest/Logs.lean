import Aniani.Ingest.Otlp
import Aniani.Store.LogStore

/-!
# Log ingest

Log records come in by OTLP or by a Loki push. Both are prepared outside the lock, as batches of
entries under one label set, each entry with the strings it still has to intern; then, under the
lock, the strings of a batch are interned and the batch is ingested. OTLP groups the records of a
request by their label set, in the order the sets are first seen; a Loki push comes grouped.

Every entry takes a number from the global counter while it is prepared; the `n`-th number a request
is given is an argument, `seqs n`.

A Loki push is taken after its JSON has been read: labels and metadata as strings, the time stamp
and the two ids parsed. A nested OTLP value in a log body is written as JSON, which is a parameter.

## Main definitions

* `PreparedLogEntry`, `LogBatch`
* `logBatches` — of an OTLP request
* `lokiBatches` — of a Loki push
* `LogStore.ingestBatch`, `LogStore.ingestBatches` — the part under the lock
-/

namespace Aniani

/-- `PreparedLogAttr`. -/
inductive PreparedLogAttr (F64 : Type) where
  | string (s : String)
  | int (i : ℤ)
  | float (f : F64)
  | bool (b : Bool)

/-- A log entry with the strings that are not interned yet. -/
structure PreparedLogEntry (F64 : Type) where
  timestampNs : ℤ
  line : String
  ingestSeq : ℕ
  traceId : Option TraceId
  spanId : Option SpanId
  severityNumber : ℤ
  severityText : Option String
  attributes : List (String × PreparedLogAttr F64)

/-- `LogBatch`: entries under one label set. -/
structure LogBatch (F64 : Type) where
  labels : List (String × String)
  entries : List (PreparedLogEntry F64)

/-! ### OTLP -/

/-- `serde_json::to_string` of a nested value. -/
class SerdeJson (F64 : Type) where
  array : List (AnyValue F64) → Option String
  kvlist : List (String × Option (AnyValue F64)) → Option String

/-- Fails on every nested value, to evaluate requests without one. -/
instance : SerdeJson ℤ where
  array _ := none
  kvlist _ := none

section Otlp

variable {F64 : Type} [Float64 F64] [SerdeJson F64]

/-- `any_value_to_string` of the log handler: nested values too. -/
def logBodyToString : AnyValue F64 → String
  | .stringValue s => s
  | .intValue i => toString i
  | .doubleValue d => Float64.display d
  | .boolValue b => toString b
  | .bytesValue bytes => "<bytes len=" ++ toString bytes.length ++ ">"
  | .arrayValue values => (SerdeJson.array values).getD "<array>"
  | .kvlistValue values => (SerdeJson.kvlist values).getD "<kvlist>"
  | .unset => ""

omit [Float64 F64] [SerdeJson F64] in
/-- `convert_any_value` of the log handler: the scalars only. -/
def convertLogAttr (value : Option (AnyValue F64)) : Option (PreparedLogAttr F64) :=
  match value with
  | some (.stringValue s) => some (.string s)
  | some (.intValue i) => some (.int i)
  | some (.doubleValue d) => some (.float d)
  | some (.boolValue b) => some (.bool b)
  | _ => none

/-- `severity_to_level`. -/
def severityToLevel (severityNumber : ℤ) : String :=
  if 1 ≤ severityNumber ∧ severityNumber ≤ 4 then "trace"
  else if 5 ≤ severityNumber ∧ severityNumber ≤ 8 then "debug"
  else if 9 ≤ severityNumber ∧ severityNumber ≤ 12 then "info"
  else if 13 ≤ severityNumber ∧ severityNumber ≤ 16 then "warn"
  else if 17 ≤ severityNumber ∧ severityNumber ≤ 20 then "error"
  else if 21 ≤ severityNumber ∧ severityNumber ≤ 24 then "fatal"
  else "unknown"

/-- The entry of one record. `clockNs` is the time since the epoch, which a record without a time
is stamped with. -/
def logEntry (seq clockNs : ℕ) (record : LogRecord F64) : PreparedLogEntry F64 where
  timestampNs :=
    if record.timeUnixNano = 0 then u64ToI64Saturating clockNs
    else u64ToI64Saturating record.timeUnixNano
  line := (record.body.map logBodyToString).getD ""
  ingestSeq := seq
  traceId := nonZeroId 16 record.traceId
  spanId := nonZeroId 8 record.spanId
  severityNumber := record.severityNumber
  severityText := if record.severityText = "" then none else some record.severityText
  attributes := record.attributes.filterMap fun kv =>
    (convertLogAttr kv.value).map fun v => (kv.key, v)

/-- The records of a request, each with its label set. -/
def logRecords (request : ExportLogsServiceRequest F64) :
    List (List (String × String) × LogRecord F64) :=
  request.flatMap fun rl =>
    rl.scopeLogs.flatten.map fun record =>
      (promoteServiceName (extractResourceLabels rl.resource) ++
        [("level", severityToLevel record.severityNumber)], record)

omit [Float64 F64] [SerdeJson F64] in
/-- Add an entry to the batch with its label set, or open a new one behind the others. -/
def pushEntry (labels : List (String × String)) (entry : PreparedLogEntry F64) :
    List (LogBatch F64) → List (LogBatch F64)
  | [] => [⟨labels, [entry]⟩]
  | batch :: batches =>
    if batch.labels = labels then { batch with entries := batch.entries ++ [entry] } :: batches
    else batch :: pushEntry labels entry batches

/-- The batches of an OTLP request. The `n`-th record reads the clock at `clockNs n`. -/
def logBatches (seqs clockNs : ℕ → ℕ) (request : ExportLogsServiceRequest F64) :
    List (LogBatch F64) :=
  ((logRecords request).mapIdx fun n r => (r.1, logEntry (seqs n) (clockNs n) r.2)).foldl
    (fun batches r => pushEntry r.1 r.2 batches) []

end Otlp

/-! ### Loki -/

/-- `LokiValue`, read: what `parse_timestamp_ns` and `parse_loki_metadata` make of it. -/
structure LokiValue where
  timestampNs : ℤ
  /-- The time was parsed as an `i64`. -/
  timestampNs_mem : timestampNs ∈ Set.Icc i64Min i64Max
  line : String
  traceId : Option TraceId
  spanId : Option SpanId
  metadata : List (String × String)

/-- `LokiStream`, read. A value without a time has been dropped. -/
structure LokiStream where
  labels : List (String × String)
  /-- The labels were the members of a JSON map. -/
  labels_nodup : (labels.map Prod.fst).Nodup
  values : List LokiValue

/-- `LokiPushRequest`, read. -/
abbrev LokiPushRequest := List LokiStream

/-- The entry of one value. -/
def lokiEntry {F64 : Type} (seq : ℕ) (value : LokiValue) : PreparedLogEntry F64 where
  timestampNs := value.timestampNs
  line := value.line
  ingestSeq := seq
  traceId := value.traceId
  spanId := value.spanId
  severityNumber := 0
  severityText := none
  attributes := value.metadata.map fun kv => (kv.1, .string kv.2)

/-- The batches of a Loki push, numbered from the `n`-th number of the request on. -/
def lokiBatches {F64 : Type} (seqs : ℕ → ℕ) : ℕ → LokiPushRequest → List (LogBatch F64)
  | _, [] => []
  | n, stream :: streams =>
    { labels := stream.labels
      entries := stream.values.mapIdx fun i value => lokiEntry (seqs (n + i)) value } ::
    lokiBatches seqs (n + stream.values.length) streams

/-! ### Under the lock -/

section Intern

variable {Rodeo Spur F64 : Type} [LinearOrder Spur] [Interner Rodeo Spur]

/-- Intern one attribute, the key before the value. -/
def internLogAttr (r : Rodeo) (attr : String × PreparedLogAttr F64) :
    (Spur × AttributeValue Spur F64) × Rodeo :=
  let key := Interner.getOrIntern r attr.1
  match attr.2 with
  | .string s =>
    let value := Interner.getOrIntern key.2 s
    ((key.1, .string value.1), value.2)
  | .int i => ((key.1, .int i), key.2)
  | .float f => ((key.1, .float f), key.2)
  | .bool b => ((key.1, .bool b), key.2)

/-- The stored entry: attributes first, then the text of the severity. -/
def internLogEntry (r : Rodeo) (e : PreparedLogEntry F64) : LogEntry Spur F64 × Rodeo :=
  let attributes := internEach internLogAttr r e.attributes
  let severityText := internOption attributes.2 e.severityText
  ({ timestampNs := e.timestampNs
     line := e.line
     ingestSeq := e.ingestSeq
     traceId := e.traceId
     spanId := e.spanId
     severityNumber := e.severityNumber
     severityText := severityText.1
     attributes := attributes.1 }, severityText.2)

namespace LogStore

/-- The store with the strings of a batch interned. -/
def internBatch (s : LogStore Rodeo Spur F64) (batch : LogBatch F64) : LogStore Rodeo Spur F64 :=
  { s with interner := (internEach internLogEntry s.interner batch.entries).2 }

/-- One turn of the loop under the lock: intern a batch and ingest it. -/
def ingestBatch (s : LogStore Rodeo Spur F64) (batch : LogBatch F64) : LogStore Rodeo Spur F64 :=
  (s.internBatch batch).ingestStream batch.labels (internEach internLogEntry s.interner batch.entries).1

/-- The part of a log ingest under the lock. -/
def ingestBatches (s : LogStore Rodeo Spur F64) (batches : List (LogBatch F64)) :
    LogStore Rodeo Spur F64 :=
  batches.foldl ingestBatch s

/-- `ingest_logs`. -/
def ingestLogs [Float64 F64] [SerdeJson F64] (s : LogStore Rodeo Spur F64) (seqs clockNs : ℕ → ℕ)
    (request : ExportLogsServiceRequest F64) : LogStore Rodeo Spur F64 :=
  s.ingestBatches (logBatches seqs clockNs request)

/-- `ingest_loki_push`. -/
def ingestLokiPush (s : LogStore Rodeo Spur F64) (seqs : ℕ → ℕ) (request : LokiPushRequest) :
    LogStore Rodeo Spur F64 :=
  s.ingestBatches (lokiBatches seqs 0 request)

end LogStore

end Intern

end Aniani
