import Aniani.ForMathlib.InvertedIndex
import Aniani.ForMathlib.IterOrder
import Aniani.ForMathlib.SortedList
import Aniani.Store.Attribute
import Aniani.Store.Interner
import Aniani.Store.LabelStore

/-!
# The trace store

`TraceStore` keeps the spans of each trace in the order they came, with four indexes from a
property of a span to the traces that have such a span: its service, its name, its status, and its
string attributes, the last in two levels, by key and by value.

Three removal strategies meet here. `evict_to_max` takes whole traces, empties index entries and
sweeps them at the end; `evict_before` and `clear_service` take some spans of a trace and reconcile
its entries against the spans that are left; the attribute index is rebuilt by all three.

## Main definitions

* `Span`, `TraceStore` — the state
* `TraceStore.ingestSpans`, `evictToMax`, `evictBefore`, `clear`, `clearService`
* `TraceOp`, `TraceStore.apply` — the operations as data
-/

namespace Aniani

/-- Status of a span. -/
inductive SpanStatus where
  | unset | ok | error
  deriving DecidableEq

/-- The role a span plays in a trace. -/
inductive SpanKind where
  | unspecified | internal | server | client | producer | consumer
  deriving DecidableEq

/-- A timestamped event recorded on a span. -/
structure SpanEvent (Spur F64 : Type) where
  name : Spur
  timeNs : ℤ
  attributes : Attributes Spur F64

/-- A cross-trace reference. -/
structure SpanLink (Spur F64 : Type) where
  traceId : TraceId
  spanId : SpanId
  traceState : Option Spur
  attributes : Attributes Spur F64
  flags : ℕ

/-- A trace span. -/
structure Span (Spur F64 : Type) where
  traceId : TraceId
  spanId : SpanId
  parentSpanId : Option SpanId
  name : Spur
  serviceName : Spur
  startTimeNs : ℤ
  durationNs : ℤ
  status : SpanStatus
  statusMessage : Option Spur
  kind : SpanKind
  attributes : Attributes Spur F64
  events : List (SpanEvent Spur F64)
  links : List (SpanLink Spur F64)
  /-- Global ingest sequence. -/
  ingestSeq : ℕ

/-- The pairs of a span that the attribute index knows: those with a string value. -/
def Span.stringAttributes {Spur F64 : Type} (span : Span Spur F64) : List (Spur × Spur) :=
  span.attributes.filterMap fun attr =>
    match attr.2 with
    | .string v => some (attr.1, v)
    | _ => none

/-- In-memory trace storage. -/
structure TraceStore (Rodeo Spur F64 : Type) where
  traces : FxHashMap TraceId (List (Span Spur F64))
  /-- Service name to the traces with a span of the service. -/
  serviceIndex : FxHashMap Spur (FxHashSet TraceId)
  /-- Span name to the traces with a span of the name. -/
  nameIndex : FxHashMap Spur (FxHashSet TraceId)
  statusIndex : FxHashMap SpanStatus (FxHashSet TraceId)
  /-- Attribute key, then string value, to the traces with a span that has the pair. -/
  attrIndex : FxHashMap Spur (FxHashMap Spur (FxHashSet TraceId))
  interner : Rodeo
  totalSpans : ℕ

/-- `SpanIndexKeys`: name, status and service of the spans of a trace. -/
abbrev SpanIndexKeys (Spur : Type) := List (Spur × SpanStatus × Spur)

namespace TraceStore

variable {Rodeo Spur F64 : Type} [LinearOrder Spur]

/-! ### Ingest -/

/-- Create a new empty trace store. -/
def new [Interner Rodeo Spur] : TraceStore Rodeo Spur F64 where
  traces := ∅
  serviceIndex := ∅
  nameIndex := ∅
  statusIndex := ∅
  attrIndex := ∅
  interner := Interner.empty
  totalSpans := 0

/-- File a trace under one attribute pair. -/
def addAttr (traceId : TraceId) (index : FxHashMap Spur (FxHashMap Spur (FxHashSet TraceId)))
    (pair : Spur × Spur) : FxHashMap Spur (FxHashMap Spur (FxHashSet TraceId)) :=
  index.insert pair.1
    (InvertedIndex.add ((index.lookup pair.1).getD ∅) pair.2 traceId)

/-- File a trace under the string attributes of a span. -/
def indexAttributes (index : FxHashMap Spur (FxHashMap Spur (FxHashSet TraceId)))
    (traceId : TraceId) (span : Span Spur F64) :
    FxHashMap Spur (FxHashMap Spur (FxHashSet TraceId)) :=
  span.stringAttributes.foldl (addAttr traceId) index

/-- One turn of the loop of `ingest_spans`. -/
def ingestSpan (s : TraceStore Rodeo Spur F64) (span : Span Spur F64) :
    TraceStore Rodeo Spur F64 :=
  { s with
    serviceIndex := InvertedIndex.add s.serviceIndex span.serviceName span.traceId
    nameIndex := InvertedIndex.add s.nameIndex span.name span.traceId
    statusIndex := InvertedIndex.add s.statusIndex span.status span.traceId
    attrIndex := indexAttributes s.attrIndex span.traceId span
    traces := s.traces.insert span.traceId (((s.traces.lookup span.traceId).getD []) ++ [span])
    totalSpans := s.totalSpans + 1 }

/-- `ingest_spans`. -/
def ingestSpans (s : TraceStore Rodeo Spur F64) (spans : List (Span Spur F64)) :
    TraceStore Rodeo Spur F64 :=
  spans.foldl ingestSpan s

/-- `interner.get_or_intern`, as the ingest handler calls it. -/
def intern [Interner Rodeo Spur] (s : TraceStore Rodeo Spur F64) (string : String) :
    TraceStore Rodeo Spur F64 :=
  { s with interner := (Interner.getOrIntern s.interner string).2 }

/-! ### Maintaining the indexes -/

/-- `rebuild_attr_index`. -/
def rebuildAttrIndex (it : IterOrder TraceId) (s : TraceStore Rodeo Spur F64) :
    TraceStore Rodeo Spur F64 :=
  { s with
    attrIndex := (it.keys s.traces).foldl (fun index traceId =>
      ((s.traces.lookup traceId).getD []).foldl (fun index span =>
        indexAttributes index traceId span) index) ∅ }

/-- Take a trace out from under a key, and the key with it when that was the last one there. -/
def unfile {K : Type} [DecidableEq K] (index : FxHashMap K (FxHashSet TraceId)) (k : K)
    (traceId : TraceId) : FxHashMap K (FxHashSet TraceId) :=
  match index.lookup k with
  | none => index
  | some set =>
    if traceId ∈ set ∧ set.erase traceId = ∅ then index.erase k
    else index.insert k (set.erase traceId)

/-- The keys a span is indexed under. -/
def indexKeys (span : Span Spur F64) : Spur × SpanStatus × Spur :=
  (span.name, span.status, span.serviceName)

/-- One turn of the loop of `reconcile_trace_indexes`: each key goes that no surviving span has. -/
def reconcileKeys (traceId : TraceId) (survivors : List (Span Spur F64))
    (s : TraceStore Rodeo Spur F64) (keys : Spur × SpanStatus × Spur) :
    TraceStore Rodeo Spur F64 :=
  { s with
    nameIndex :=
      if keys.1 ∈ survivors.map Span.name then s.nameIndex
      else unfile s.nameIndex keys.1 traceId
    statusIndex :=
      if keys.2.1 ∈ survivors.map Span.status then s.statusIndex
      else unfile s.statusIndex keys.2.1 traceId
    serviceIndex :=
      if keys.2.2 ∈ survivors.map Span.serviceName then s.serviceIndex
      else unfile s.serviceIndex keys.2.2 traceId }

/-- `reconcile_trace_indexes`. -/
def reconcileTraceIndexes (s : TraceStore Rodeo Spur F64) (traceId : TraceId)
    (before : SpanIndexKeys Spur) : TraceStore Rodeo Spur F64 :=
  before.foldl (reconcileKeys traceId ((s.traces.lookup traceId).getD [])) s

/-! ### Removal -/

/-- The eviction key of a trace: its earliest span, last of all when it has none. -/
def earliestStart (s : TraceStore Rodeo Spur F64) (traceId : TraceId) : ℤ :=
  ((((s.traces.lookup traceId).getD []).map Span.startTimeNs).min?).getD i64Max

/-- Take a trace out from under the keys of one span, leaving empty entries. -/
def unindexSpan (traceId : TraceId) (s : TraceStore Rodeo Spur F64) (span : Span Spur F64) :
    TraceStore Rodeo Spur F64 :=
  { s with
    serviceIndex := InvertedIndex.discard s.serviceIndex span.serviceName traceId
    nameIndex := InvertedIndex.discard s.nameIndex span.name traceId
    statusIndex := InvertedIndex.discard s.statusIndex span.status traceId }

/-- One turn of the loop of `evict_to_max`. -/
def evictTrace (maxSpans : ℕ) (s : TraceStore Rodeo Spur F64) (traceId : TraceId) :
    TraceStore Rodeo Spur F64 :=
  if s.totalSpans ≤ maxSpans then s
  else
    match s.traces.lookup traceId with
    | none => s
    | some spans =>
      spans.foldl (unindexSpan traceId) { s with
        traces := s.traces.erase traceId
        totalSpans := s.totalSpans - spans.length }

/-- Drop the empty entries of the three indexes. -/
def sweepIndexes (s : TraceStore Rodeo Spur F64) : TraceStore Rodeo Spur F64 :=
  { s with
    serviceIndex := InvertedIndex.sweep s.serviceIndex
    nameIndex := InvertedIndex.sweep s.nameIndex
    statusIndex := InvertedIndex.sweep s.statusIndex }

/-- `evict_to_max`. -/
def evictToMax (it : IterOrder TraceId) (s : TraceStore Rodeo Spur F64) (maxSpans : ℕ) :
    TraceStore Rodeo Spur F64 :=
  if s.totalSpans ≤ maxSpans then s
  else
    rebuildAttrIndex it (sweepIndexes
      (((it.keys s.traces).sortByKey s.earliestStart).foldl (evictTrace maxSpans) s))

/-- What the first loop of `evict_before` carries: the store, the traces left empty, and the
traces changed with the keys they had before. -/
structure Draining (Rodeo Spur F64 : Type) where
  store : TraceStore Rodeo Spur F64
  emptyTraces : List TraceId
  changed : List (TraceId × SpanIndexKeys Spur)

/-- One turn of the first loop of `evict_before`. -/
def drainTrace (cutoffNs : ℤ) (acc : Draining Rodeo Spur F64) (traceId : TraceId) :
    Draining Rodeo Spur F64 :=
  match acc.store.traces.lookup traceId with
  | none => acc
  | some spans =>
    if spans.any fun span => decide (span.startTimeNs < cutoffNs) then
      let kept := spans.filter fun span => decide (cutoffNs ≤ span.startTimeNs)
      { store := { acc.store with
          traces := acc.store.traces.insert traceId kept
          totalSpans := acc.store.totalSpans - (spans.length - kept.length) }
        emptyTraces := if kept.isEmpty then acc.emptyTraces ++ [traceId] else acc.emptyTraces
        changed := acc.changed ++ [(traceId, spans.map indexKeys)] }
    else acc

/-- Remove a list of traces, and nothing else. -/
def removeTraces (s : TraceStore Rodeo Spur F64) (traceIds : List TraceId) :
    TraceStore Rodeo Spur F64 :=
  { s with traces := traceIds.foldl (fun traces traceId => traces.erase traceId) s.traces }

/-- `evict_before`. -/
def evictBefore (it : IterOrder TraceId) (s : TraceStore Rodeo Spur F64) (cutoffNs : ℤ) :
    TraceStore Rodeo Spur F64 :=
  let drained := (it.keys s.traces).foldl (drainTrace cutoffNs) ⟨s, [], []⟩
  rebuildAttrIndex it
    (drained.changed.foldl (fun s change => s.reconcileTraceIndexes change.1 change.2)
      (drained.store.removeTraces drained.emptyTraces))

/-- `clear`. -/
def clear [Interner Rodeo Spur] (_ : TraceStore Rodeo Spur F64) : TraceStore Rodeo Spur F64 := new

/-- One turn of the loop of `clear_service`. -/
def clearServiceTrace (service : Spur) (s : TraceStore Rodeo Spur F64) (traceId : TraceId) :
    TraceStore Rodeo Spur F64 :=
  match s.traces.lookup traceId with
  | none => s
  | some spans =>
    let kept := spans.filter fun span => decide (span.serviceName ≠ service)
    reconcileTraceIndexes { s with
      traces := if kept.isEmpty then s.traces.erase traceId else s.traces.insert traceId kept
      totalSpans := s.totalSpans - (spans.length - kept.length) } traceId (spans.map indexKeys)

/-- `clear_service`. -/
def clearService [Interner Rodeo Spur] (it : IterOrder TraceId) (s : TraceStore Rodeo Spur F64)
    (service : String) : TraceStore Rodeo Spur F64 :=
  match Interner.get s.interner service with
  | none => s
  | some serviceSpur =>
    match s.serviceIndex.lookup serviceSpur with
    | none => s
    | some traceIds =>
      rebuildAttrIndex it ((it.order traceIds).foldl (clearServiceTrace serviceSpur) s)

/-! ### Reading -/

/-- `get_trace`. -/
def getTrace (s : TraceStore Rodeo Spur F64) (traceId : TraceId) : Option (List (Span Spur F64)) :=
  s.traces.lookup traceId

/-- `traces_for_service`. -/
def tracesForService [Interner Rodeo Spur] (it : IterOrder TraceId) (s : TraceStore Rodeo Spur F64)
    (service : String) : List TraceId :=
  match Interner.get s.interner service with
  | none => []
  | some spur => ((s.serviceIndex.lookup spur).map it.order).getD []

end TraceStore

/-! ### Runs -/

/-- The operations of a trace store. -/
inductive TraceOp (Spur F64 : Type) where
  | ingestSpans (spans : List (Span Spur F64))
  | intern (string : String)
  | evictBefore (it : IterOrder TraceId) (cutoffNs : ℤ)
  | evictToMax (it : IterOrder TraceId) (maxSpans : ℕ)
  | clear
  | clearService (it : IterOrder TraceId) (service : String)

/-- One operation. -/
def TraceStore.apply {Rodeo Spur F64 : Type} [LinearOrder Spur] [Interner Rodeo Spur]
    (s : TraceStore Rodeo Spur F64) : TraceOp Spur F64 → TraceStore Rodeo Spur F64
  | .ingestSpans spans => s.ingestSpans spans
  | .intern string => s.intern string
  | .evictBefore it cutoffNs => s.evictBefore it cutoffNs
  | .evictToMax it maxSpans => s.evictToMax it maxSpans
  | .clear => s.clear
  | .clearService it service => s.clearService it service

end Aniani
