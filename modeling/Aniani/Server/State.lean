import Aniani.Ingest.Stamped

/-!
# The server

Three stores, each behind its own lock, and one counter. A request takes its numbers from the
counter one by one while it is prepared, without a lock, and is committed later under the lock of
its store. The background task and the resets remove from one store after another. Between any two
of these steps other requests take theirs, so they are the events of the server.

## Main definitions

* `Entry` — a log entry, a sample or a span
* `Stores`, `AppState`
* `maxIngestSeq`, `AppState.seeded`
* `IngestRequest`, `Removal`
* `Event`, `Server.step`

## Main results

* `Stores.holds_ingest`, `Stores.holds_remove`
* `Stores.le_maxIngestSeq`, `Stores.maxIngestSeq_eq`
-/

namespace Aniani

/-! ### The stores -/

/-- What carries a number of the counter. -/
inductive Entry (Spur F64 : Type) where
  | log (e : LogEntry Spur F64)
  | sample (e : Sample F64)
  | span (e : Span Spur F64)

/-- The number. -/
def Entry.ingestSeq {Spur F64 : Type} : Entry Spur F64 → ℕ
  | .log e => e.ingestSeq
  | .sample e => e.ingestSeq
  | .span e => e.ingestSeq

/-- The three stores: what the locks of `AppState` protect, and what a `Snapshot` is made of. -/
structure Stores (Rodeo Spur F64 : Type) where
  logStore : LogStore Rodeo Spur F64
  metricStore : MetricStore Rodeo Spur F64
  traceStore : TraceStore Rodeo Spur F64

/-- `AppState`. -/
structure AppState (Rodeo Spur F64 : Type) extends Stores Rodeo Spur F64 where
  /-- Stamped onto every ingested entry, sample and span. -/
  ingestSeq : ℕ

/-- `max_ingest_seq`, zero if nothing is stored. -/
def maxIngestSeq {Rodeo Spur F64 : Type} (logs : LogStore Rodeo Spur F64)
    (metrics : MetricStore Rodeo Spur F64) (traces : TraceStore Rodeo Spur F64) : ℕ :=
  let l := (logs.streams.flatValues fun s => s.entries.map LogEntry.ingestSeq).sup
  let m := (metrics.streams.flatValues fun s => s.entries.map Sample.ingestSeq).sup
  let t := (traces.traces.flatValues fun v => v.map Span.ingestSeq).sup
  max (max l m) t

namespace Stores

variable {Rodeo Spur F64 : Type}

/-- An entry is in its store. -/
def Holds (s : Stores Rodeo Spur F64) : Entry Spur F64 → Prop
  | .log e => s.logStore.Holds e
  | .sample e => s.metricStore.Holds e
  | .span e => s.traceStore.Holds e

/-- The highest number in the stores. -/
def maxSeq (s : Stores Rodeo Spur F64) : ℕ := maxIngestSeq s.logStore s.metricStore s.traceStore

/-- Every stored number is one of the numbers found in one of the stores. -/
theorem exists_holds_iff (s : Stores Rodeo Spur F64) (n : ℕ) :
    (∃ e, s.Holds e ∧ e.ingestSeq = n) ↔
      n ∈ s.logStore.streams.flatValues (fun s => s.entries.map LogEntry.ingestSeq) ∨
      n ∈ s.metricStore.streams.flatValues (fun s => s.entries.map Sample.ingestSeq) ∨
      n ∈ s.traceStore.traces.flatValues (fun v => v.map Span.ingestSeq) := by
  simp only [Finmap.mem_flatValues, List.mem_map]
  constructor
  · rintro ⟨e, he, rfl⟩
    cases e with
    | log e =>
      obtain ⟨id, stream, hst, he⟩ := he
      exact .inl ⟨id, stream, hst, e, he, rfl⟩
    | sample e =>
      obtain ⟨id, series, hst, he⟩ := he
      exact .inr (.inl ⟨id, series, hst, e, he, rfl⟩)
    | span e =>
      obtain ⟨t, ht⟩ := he
      rw [TraceStore.spansOf] at ht
      cases hst : s.traceStore.traces.lookup t with
      | none => simp [hst] at ht
      | some spans => exact .inr (.inr ⟨t, spans, hst, e, by simpa [hst] using ht, rfl⟩)
  · rintro (⟨id, stream, hst, e, he, rfl⟩ | ⟨id, series, hst, e, he, rfl⟩ |
      ⟨t, spans, hst, e, he, rfl⟩)
    · exact ⟨.log e, ⟨id, stream, hst, he⟩, rfl⟩
    · exact ⟨.sample e, ⟨id, series, hst, he⟩, rfl⟩
    · exact ⟨.span e, ⟨t, by rwa [TraceStore.spansOf, hst]⟩, rfl⟩

theorem le_maxIngestSeq {s : Stores Rodeo Spur F64} {e : Entry Spur F64} (h : s.Holds e) :
    e.ingestSeq ≤ s.maxSeq := by
  show _ ≤ max (max _ _) _
  rcases (s.exists_holds_iff e.ingestSeq).mp ⟨e, h, rfl⟩ with hmem | hmem | hmem
  · exact (Multiset.le_sup hmem).trans ((le_max_left _ _).trans (le_max_left _ _))
  · exact (Multiset.le_sup hmem).trans ((le_max_right _ _).trans (le_max_left _ _))
  · exact (Multiset.le_sup hmem).trans (le_max_right _ _)

/-- **The maximum is the number of a stored entry**, or zero. -/
theorem maxIngestSeq_eq (s : Stores Rodeo Spur F64) :
    s.maxSeq = 0 ∨ ∃ e, s.Holds e ∧ e.ingestSeq = s.maxSeq := by
  have key : ∀ {l m t : ℕ}, max (max l m) t = l ∨ max (max l m) t = m ∨ max (max l m) t = t := by
    intro l m t
    omega
  rw [exists_holds_iff, maxSeq, maxIngestSeq]
  rcases key with heq | heq | heq <;> rw [heq]
  · exact (Multiset.sup_mem_or_eq_zero _).symm.imp_right .inl
  · exact (Multiset.sup_mem_or_eq_zero _).symm.imp_right fun h => .inr (.inl h)
  · exact (Multiset.sup_mem_or_eq_zero _).symm.imp_right fun h => .inr (.inr h)

end Stores

/-- The state a process starts with, its counter seeded from what it restored. -/
def AppState.seeded {Rodeo Spur F64 : Type} (s : Stores Rodeo Spur F64) :
    AppState Rodeo Spur F64 where
  toStores := s
  ingestSeq := u64SaturatingSucc s.maxSeq

/-! ### Requests -/

/-- The ingest requests. -/
inductive IngestRequest (F64 : Type) where
  | otlpLogs (clockNs : ℕ → ℕ) (request : ExportLogsServiceRequest F64)
  | lokiPush (request : LokiPushRequest)
  | otlpMetrics (request : ExportMetricsServiceRequest F64)
  | remoteWrite (request : WriteRequest F64)
  | otlpTraces (request : ExportTraceServiceRequest F64)

/-- How many numbers a request takes. -/
def IngestRequest.count {F64 : Type} [Float64 F64] [SerdeJson F64] : IngestRequest F64 → ℕ
  | .otlpLogs _ request => (logRecords request).length
  | .lokiPush request => lokiCount request
  | .otlpMetrics request => pointCount (requestItems request)
  | .remoteWrite request => pointCount (remoteItems request)
  | .otlpTraces request => traceCount request

/-- The removals: by the background task, and by a reset. -/
inductive Removal where
  | evictBefore (cutoff : ℤ)
  | evictToMax (max : ℕ)
  | clear
  | clearService (service : String)

namespace Removal

/-- As an operation of a log store. -/
def logOp {Spur F64 : Type} (it : IterOrder ℕ) : Removal → LogOp Spur F64
  | .evictBefore cutoff => .evictBefore it cutoff
  | .evictToMax max => .evictToMax it max
  | .clear => .clear
  | .clearService service => .clearService service

/-- As an operation of a metric store. -/
def metricOp {F64 : Type} (it : IterOrder ℕ) : Removal → MetricOp F64
  | .evictBefore cutoff => .evictBefore it cutoff
  | .evictToMax max => .evictToMax it max
  | .clear => .clear
  | .clearService service => .clearService it service

/-- As an operation of a trace store. -/
def traceOp {Spur F64 : Type} (it : IterOrder TraceId) : Removal → TraceOp Spur F64
  | .evictBefore cutoff => .evictBefore it cutoff
  | .evictToMax max => .evictToMax it max
  | .clear => .clear
  | .clearService service => .clearService it service

end Removal

namespace Stores

variable {Rodeo Spur F64 : Type} [LinearOrder Spur] [Interner Rodeo Spur]

/-- The part of a request under the lock, given its numbers. -/
def ingest [Float64 F64] [SerdeJson F64] (s : Stores Rodeo Spur F64) (seqs : ℕ → ℕ) :
    IngestRequest F64 → Stores Rodeo Spur F64
  | .otlpLogs clockNs request =>
    { s with logStore := s.logStore.ingestLogs seqs clockNs request }
  | .lokiPush request => { s with logStore := s.logStore.ingestLokiPush seqs request }
  | .otlpMetrics request =>
    { s with metricStore := (s.metricStore.ingestMetrics seqs request).1 }
  | .remoteWrite request => { s with metricStore := (s.metricStore.remoteWrite seqs request).1 }
  | .otlpTraces request => { s with traceStore := s.traceStore.ingestTraces seqs request }

/-- A removal from the log store. -/
def removeLogs (it : IterOrder ℕ) (s : Stores Rodeo Spur F64) (r : Removal) :
    Stores Rodeo Spur F64 :=
  { s with logStore := s.logStore.apply (r.logOp it) }

/-- A removal from the metric store. -/
def removeMetrics (it : IterOrder ℕ) (s : Stores Rodeo Spur F64) (r : Removal) :
    Stores Rodeo Spur F64 :=
  { s with metricStore := s.metricStore.apply (r.metricOp it) }

/-- A removal from the trace store. -/
def removeTraces (it : IterOrder TraceId) (s : Stores Rodeo Spur F64) (r : Removal) :
    Stores Rodeo Spur F64 :=
  { s with traceStore := s.traceStore.apply (r.traceOp it) }

/-- Empty stores. -/
def new : Stores Rodeo Spur F64 := ⟨LogStore.new, MetricStore.new, TraceStore.new⟩

end Stores

/-! ### Events -/

/-- A request that has arrived and is not committed yet, with the numbers it has taken. -/
structure InFlight (F64 : Type) where
  request : IngestRequest F64
  numbers : List ℕ

/-- A running process. -/
structure Server (Rodeo Spur F64 : Type) where
  state : AppState Rodeo Spur F64
  inFlight : List (InFlight F64)

/-- The events of a running process. A request in flight is named by its place. -/
inductive Event (F64 : Type) where
  | arrive (request : IngestRequest F64)
  /-- One `fetch_add` of the `i`-th request. -/
  | stamp (i : ℕ)
  /-- The `i`-th request takes the lock. -/
  | commit (i : ℕ)
  | removeLogs (it : IterOrder ℕ) (r : Removal)
  | removeMetrics (it : IterOrder ℕ) (r : Removal)
  | removeTraces (it : IterOrder TraceId) (r : Removal)

namespace Server

variable {Rodeo Spur F64 : Type} [LinearOrder Spur] [Interner Rodeo Spur] [Float64 F64]
  [SerdeJson F64]

/-- A fresh process. -/
def start : Server Rodeo Spur F64 := ⟨AppState.seeded Stores.new, []⟩

omit [LinearOrder Spur] [Interner Rodeo Spur] in
/-- The request at a place, if it still has a number to take. -/
def stamping (s : Server Rodeo Spur F64) (i : ℕ) : Option (InFlight F64) :=
  s.inFlight[i]?.filter fun r => decide (r.numbers.length < r.request.count)

omit [LinearOrder Spur] [Interner Rodeo Spur] in
/-- The request at a place, if it has all its numbers. -/
def ready (s : Server Rodeo Spur F64) (i : ℕ) : Option (InFlight F64) :=
  s.inFlight[i]?.filter fun r => decide (r.numbers.length = r.request.count)

/-- Change the stores, and nothing else. -/
def setStores (s : Server Rodeo Spur F64) (stores : Stores Rodeo Spur F64) :
    Server Rodeo Spur F64 :=
  { s with state := { s.state with toStores := stores } }

/-- One event. -/
def step (s : Server Rodeo Spur F64) : Event F64 → Server Rodeo Spur F64
  | .arrive request => { s with inFlight := s.inFlight ++ [⟨request, []⟩] }
  | .stamp i =>
    match s.stamping i with
    | none => s
    | some r =>
      { state := { s.state with ingestSeq := (s.state.ingestSeq + 1) % 2 ^ 64 }
        inFlight := s.inFlight.set i { r with numbers := r.numbers ++ [s.state.ingestSeq] } }
  | .commit i =>
    match s.ready i with
    | none => s
    | some r =>
      { s.setStores (s.state.ingest (fun n => r.numbers.getD n 0) r.request) with
        inFlight := s.inFlight.eraseIdx i }
  | .removeLogs it r => s.setStores (s.state.removeLogs it r)
  | .removeMetrics it r => s.setStores (s.state.removeMetrics it r)
  | .removeTraces it r => s.setStores (s.state.removeTraces it r)

omit [LinearOrder Spur] [Interner Rodeo Spur] [Float64 F64] [SerdeJson F64] in
/-- `mark_checkpoint`. -/
def markCheckpoint (s : Server Rodeo Spur F64) : ℕ := s.state.ingestSeq

end Server

/-! ### What the events store -/

namespace Stores

variable {Rodeo Spur F64 : Type} [LinearOrder Spur] [Interner Rodeo Spur]

omit [LinearOrder Spur] in
theorem not_holds_new (e : Entry Spur F64) : ¬ (new : Stores Rodeo Spur F64).Holds e := by
  cases e with
  | log e => exact LabelStore.not_holds_new e
  | sample e => exact LabelStore.not_holds_new e
  | span e => exact TraceStore.not_holds_new e

/-- **A commit stores what carries one of its numbers**, and nothing else. -/
theorem holds_ingest [Float64 F64] [SerdeJson F64] {s : Stores Rodeo Spur F64} {seqs : ℕ → ℕ}
    {r : IngestRequest F64} {e : Entry Spur F64} (h : (s.ingest seqs r).Holds e) :
    s.Holds e ∨ ∃ n < r.count, e.ingestSeq = seqs n := by
  cases r with
  | otlpLogs clockNs request =>
    cases e with
    | log e => exact (LogStore.holds_ingestLogs h).imp_right And.left
    | sample e => exact .inl h
    | span e => exact .inl h
  | lokiPush request =>
    cases e with
    | log e => exact (LogStore.holds_ingestLokiPush h).imp_right And.left
    | sample e => exact .inl h
    | span e => exact .inl h
  | otlpMetrics request =>
    cases e with
    | log e => exact .inl h
    | sample e => exact MetricStore.holds_ingestMetrics h
    | span e => exact .inl h
  | remoteWrite request =>
    cases e with
    | log e => exact .inl h
    | sample e => exact MetricStore.holds_remoteWrite h
    | span e => exact .inl h
  | otlpTraces request =>
    cases e with
    | log e => exact .inl h
    | sample e => exact .inl h
    | span e => exact TraceStore.holds_ingestTraces h

/-- **A removal stores nothing.** -/
theorem holds_removeLogs {it : IterOrder ℕ} {s : Stores Rodeo Spur F64} {r : Removal}
    {e : Entry Spur F64} (h : (s.removeLogs it r).Holds e) : s.Holds e := by
  have hnone : (r.logOp it : LogOp Spur F64).entries = [] := by cases r <;> rfl
  cases e with
  | log e =>
    rcases LogStore.holds_apply h with h | h
    · exact h
    · simp [hnone] at h
  | sample e => exact h
  | span e => exact h

theorem holds_removeMetrics {it : IterOrder ℕ} {s : Stores Rodeo Spur F64} {r : Removal}
    {e : Entry Spur F64} (h : (s.removeMetrics it r).Holds e) : s.Holds e := by
  have hnone : (r.metricOp it : MetricOp F64).samples = [] := by cases r <;> rfl
  cases e with
  | log e => exact h
  | sample e =>
    rcases MetricStore.holds_apply h with h | h
    · exact h
    · simp [hnone] at h
  | span e => exact h

theorem holds_removeTraces {it : IterOrder TraceId} {s : Stores Rodeo Spur F64} {r : Removal}
    {e : Entry Spur F64} (h : (s.removeTraces it r).Holds e) : s.Holds e := by
  have hnone : (r.traceOp it : TraceOp Spur F64).spans = [] := by cases r <;> rfl
  cases e with
  | log e => exact h
  | sample e => exact h
  | span e =>
    rcases TraceStore.holds_apply h with h | h
    · exact h
    · simp [hnone] at h

end Stores

end Aniani
