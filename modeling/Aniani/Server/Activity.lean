import Aniani.Query.Window
import Aniani.Server.State
import Aniani.Store.Select

/-!
# Activity of a service

`summarize_activity` reads the three stores one after another, and counts what was ingested at or
after a token: log entries in the streams labelled with the service, traces with a span of the
service, and the last sample of each notable series.

## Main definitions

* `keep` — at or after the token
* `LogStore.summarizeLogs`, `TraceStore.summarizeTraces`, `MetricStore.summarizeMetrics`
* `Stores.Counts` — an entry is counted

## Main results

* `Stores.Fits.counts` — every entry kept is counted
-/

namespace Aniani

/-- Ingested at or after the token, if there is one. -/
def keep (since : Option ℕ) (seq : ℕ) : Bool := (since.map fun s => decide (s ≤ seq)).getD true

/-- A service matcher. -/
def serviceMatcher (service : String) : LabelMatcher := ⟨"service", .eq, service⟩

/-- `svc_error_matchers`. -/
def svcErrorMatchers (service : String) : List LabelMatcher :=
  [serviceMatcher service, ⟨"level", .eq, "error"⟩]

/-! ### Logs -/

/-- `LogsBlock`, and whether it was truncated. -/
structure LogsBlock where
  errorCount : ℕ
  total : ℕ
  /-- Time in milliseconds, and line. -/
  top : List (String × String)
  truncated : Bool

namespace LogStore

variable {Rodeo Spur F64 : Type} [LinearOrder Spur] [Interner Rodeo Spur]

/-- The entries kept of the streams a query selects, nothing where a read fails. -/
def keptEntries (regexNew : String → Option (String → Bool)) (it : IterOrder ℕ)
    (itValues : IterOrder Spur) (s : LogStore Rodeo Spur F64) (since : Option ℕ)
    (matchers : List LabelMatcher) : Option (List (LogEntry Spur F64)) :=
  ((s.queryStreams regexNew it itValues matchers).mapM fun id =>
    s.getEntries id i64Min i64Max).map fun reads =>
      reads.flatten.filter fun e => keep since e.ingestSeq

/-- The log part. -/
def summarizeLogs (regexNew : String → Option (String → Bool)) (it : IterOrder ℕ)
    (itValues : IterOrder Spur) (s : LogStore Rodeo Spur F64) (service : String)
    (since : Option ℕ) (topN : ℕ) : Option LogsBlock := do
  let all ← s.keptEntries regexNew it itValues since [serviceMatcher service]
  let items ← s.keptEntries regexNew it itValues since (svcErrorMatchers service)
  let newestFirst := items.mergeSort fun a b => decide (b.timestampNs ≤ a.timestampNs)
  return {
    errorCount := items.length
    total := all.length
    top := (newestFirst.take topN).map fun e => (toString (e.timestampNs.tdiv 1000000), e.line)
    truncated := decide (topN < items.length) }

end LogStore

/-! ### Traces -/

/-- The counts of a `TracesBlock`, with the spans behind them. -/
structure TracesBlock where
  errorTraceCount : ℕ
  total : ℕ
  totalSpans : ℕ
  errorSpans : ℕ

namespace TraceStore

variable {Rodeo Spur F64 : Type} [LinearOrder Spur] [Interner Rodeo Spur]

/-- The traces of a service with a span that is kept, each with those of its spans. -/
def keptTraces (it : IterOrder TraceId) (s : TraceStore Rodeo Spur F64) (service : String)
    (since : Option ℕ) : List (TraceId × List (Span Spur F64)) :=
  (s.tracesForService it service).filterMap fun t =>
    match s.getTrace t with
    | none => none
    | some spans =>
      let inWindow := spans.filter fun span => keep since span.ingestSeq
      if inWindow.isEmpty then none else some (t, inWindow)

/-- The trace part. A trace with a stored span has a summary, so a trace with an error is notable. -/
def summarizeTraces (it : IterOrder TraceId) (s : TraceStore Rodeo Spur F64) (service : String)
    (since : Option ℕ) : TracesBlock :=
  let kept := s.keptTraces it service since
  let errs := kept.map fun trace => trace.2.countP fun span => decide (span.status = .error)
  { errorTraceCount := errs.countP fun n => decide (0 < n)
    total := kept.length
    totalSpans := (kept.map fun trace => trace.2.length).sum
    errorSpans := errs.sum }

end TraceStore

/-! ### Metrics -/

/-- `MetricItem` of the summary. -/
structure ActivityMetric (F64 : Type) where
  name : String
  value : F64
  labels : List (String × String)

/-- A name that tells of errors or of latency. -/
def isNotable (name : String) : Bool :=
  let lower := (name.toList.map Char.toLower)
  ["error", "fail", "duration", "latency"].any fun word => decide (word.toList <:+: lower)

namespace MetricStore

variable {Rodeo Spur F64 : Type} [LinearOrder Spur] [Interner Rodeo Spur]

/-- What the summary says of one series: the last sample kept, if its name is notable. -/
def notableSeries (s : MetricStore Rodeo Spur F64) (since : Option ℕ) (id : ℕ) :
    Option (ActivityMetric F64) := do
  let series ← s.streams.lookup id
  let nameKey ← Interner.get s.interner "__name__"
  let name ← (nameOf nameKey series.labels).map (Interner.resolve s.interner)
  guard (isNotable name)
  let sample ← series.entries.reverse.find? fun sample => keep since sample.ingestSeq
  return {
    name := name
    value := sample.value
    labels := s.resolveLabels (series.labels.filter fun l => decide (l.1 ≠ nameKey)) }

/-- The metric part, and whether it was truncated. -/
def summarizeMetrics (regexNew : String → Option (String → Bool)) (it : IterOrder ℕ)
    (itValues : IterOrder Spur) (s : MetricStore Rodeo Spur F64) (service : String)
    (since : Option ℕ) (topN : ℕ) : List (ActivityMetric F64) × Bool :=
  let items := (s.selectSeries regexNew it itValues [serviceMatcher service]).filterMap
    (s.notableSeries since)
  (items.take topN, decide (topN < items.length))

end MetricStore

/-! ### Stores that fit -/

/-- The stores fit together, each in itself, and the log times are `i64`s. -/
structure Stores.Fits {Rodeo Spur F64 : Type} [LinearOrder Spur] [Interner Rodeo Spur]
    (s : Stores Rodeo Spur F64) : Prop where
  logs : s.logStore.Invariant
  times : ∀ {e}, s.logStore.Holds e → e.timestampNs ∈ Set.Icc i64Min i64Max
  metrics : s.metricStore.Sound
  traces : s.traceStore.Invariant
  services : s.traceStore.ServicesInterned

/-! ### What is counted -/

section Counted

variable {Rodeo Spur F64 : Type} [LinearOrder Spur] [Interner Rodeo Spur]
  {regexNew : String → Option (String → Bool)} {it : IterOrder ℕ} {itValues : IterOrder Spur}

omit [LinearOrder Spur] [Interner Rodeo Spur] in
theorem compiles_of_eq {name value : String} :
    LabelMatcher.Compiles regexNew ⟨name, .eq, value⟩ := fun h => by simp at h

/-- **A query over all times reads the streams whole**, and keeps what is at or after the token. -/
theorem LogStore.mem_keptEntries (regexNew : String → Option (String → Bool))
    (it : IterOrder ℕ) (itValues : IterOrder Spur) {s : LogStore Rodeo Spur F64} (h : s.Invariant)
    (htimes : ∀ {e}, s.Holds e → e.timestampNs ∈ Set.Icc i64Min i64Max) (since : Option ℕ)
    {matchers : List LabelMatcher} (hm : ∀ m ∈ matchers, m.Compiles regexNew) :
    ∃ es, s.keptEntries regexNew it itValues since matchers = some es ∧
      ∀ e, e ∈ es ↔ keep since e.ingestSeq ∧ ∃ id stream,
        s.streams.lookup id = some stream ∧ e ∈ stream.entries ∧
        ∀ m ∈ matchers, m.passes regexNew (s.resolveLabels stream.labels) := by
  have hread : (fun id => s.getEntries id i64Min i64Max) =
      fun id => some (s.window id i64Min i64Max) := by
    funext id
    exact LabelStore.getRange_of_le (fun id stream hst => h.sorted hst) id (by decide)
  refine ⟨(((s.queryStreams regexNew it itValues matchers).map fun id =>
    s.window id i64Min i64Max).flatten).filter fun e => keep since e.ingestSeq, ?_, fun e => ?_⟩
  · rw [keptEntries, hread]
    exact congr_arg (Option.map _) List.mapM_pure
  · rw [List.mem_filter, List.mem_flatten, and_comm]
    refine and_congr_right fun _ => ?_
    constructor
    · rintro ⟨_, hread, he⟩
      obtain ⟨id, hid, rfl⟩ := List.mem_map.mp hread
      obtain ⟨stream, hst, hpass⟩ := (h.toIndexed.mem_select it itValues hm id).mp hid
      rw [LabelStore.window, LabelStore.entriesOf, hst] at he
      exact ⟨id, stream, hst, (List.mem_filter.mp he).1, hpass⟩
    · rintro ⟨id, stream, hst, he, hpass⟩
      refine ⟨_, List.mem_map_of_mem ((h.toIndexed.mem_select it itValues hm id).mpr
        ⟨stream, hst, hpass⟩), ?_⟩
      rw [LabelStore.window, LabelStore.entriesOf, hst]
      exact List.mem_filter.mpr ⟨he, decide_eq_true (htimes ⟨id, stream, hst, he⟩)⟩

/-- The traces of a service are those with a span of it. -/
theorem TraceStore.mem_tracesForService {it : IterOrder TraceId} {s : TraceStore Rodeo Spur F64}
    (h : s.Invariant) (hserv : s.ServicesInterned) {service : String} {t : TraceId} :
    t ∈ s.tracesForService it service ↔
      ∃ span ∈ spansOf s.traces t, Interner.resolve s.interner span.serviceName = service := by
  have hindex : ∀ spur, t ∈ ((s.serviceIndex.lookup spur).map it.order).getD [] ↔
      ∃ span ∈ spansOf s.traces t, span.serviceName = spur := by
    intro spur
    have hiff := (h.index SpanIndex.service).holds_iff spur t
    refine Iff.trans ?_ hiff
    show _ ↔ ∃ c, s.serviceIndex.lookup spur = some c ∧ t ∈ c
    cases s.serviceIndex.lookup spur <;> simp [it.mem_order]
  rw [tracesForService]
  cases hget : Interner.get s.interner service with
  | none =>
    refine ⟨fun hmem => by simp at hmem, ?_⟩
    rintro ⟨span, hspan, hres⟩
    have hvalid := (hserv ⟨t, hspan⟩).get_resolve
    rw [hres, hget] at hvalid
    simp at hvalid
  | some spur =>
    refine (hindex spur).trans (exists_congr fun span => and_congr_right fun hspan => ?_)
    constructor
    · rintro rfl
      exact Interner.resolve_of_get hget
    · rintro rfl
      exact Option.some.inj ((hserv ⟨t, hspan⟩).get_resolve.symm.trans hget)

/-- A span that is kept is in its trace, in the summary of its service. -/
theorem TraceStore.exists_mem_keptTraces {it : IterOrder TraceId} {s : TraceStore Rodeo Spur F64}
    (h : s.Invariant) (hserv : s.ServicesInterned) {since : Option ℕ} {t : TraceId}
    {span : Span Spur F64} (hspan : span ∈ spansOf s.traces t) (hkeep : keep since span.ingestSeq) :
    ∃ spans, (t, spans) ∈
      s.keptTraces it (Interner.resolve s.interner span.serviceName) since ∧ span ∈ spans := by
  have hmem : span ∈ (spansOf s.traces t).filter fun span => keep since span.ingestSeq :=
    List.mem_filter.mpr ⟨hspan, hkeep⟩
  refine ⟨_, List.mem_filterMap.mpr
    ⟨t, (mem_tracesForService h hserv).mpr ⟨span, hspan, rfl⟩, ?_⟩, hmem⟩
  rw [getTrace, h.lookup_eq, if_neg (List.ne_nil_of_mem hspan)]
  exact if_neg (by simpa using List.ne_nil_of_mem hmem)

/-- A notable series of a service with a sample that is kept is in the summary. -/
theorem MetricStore.exists_notableSeries {s : MetricStore Rodeo Spur F64} {since : Option ℕ}
    {id : ℕ} {series : Stream Spur (Sample F64)} {nameKey name : Spur} {sample : Sample F64}
    (hst : s.streams.lookup id = some series)
    (hkey : Interner.get s.interner "__name__" = some nameKey)
    (hname : nameOf nameKey series.labels = some name)
    (hnotable : isNotable (Interner.resolve s.interner name))
    (hmem : sample ∈ series.entries) (hkeep : keep since sample.ingestSeq) :
    ∃ item, s.notableSeries since id = some item ∧
      item.name = Interner.resolve s.interner name := by
  cases hfind : series.entries.reverse.find? (fun sample => keep since sample.ingestSeq) with
  | none => exact absurd hkeep (List.find?_eq_none.mp hfind sample (List.mem_reverse.mpr hmem))
  | some last =>
    refine ⟨⟨Interner.resolve s.interner name, last.value,
      s.resolveLabels (series.labels.filter fun l => decide (l.1 ≠ nameKey))⟩, ?_, rfl⟩
    simp only [notableSeries, hst, hkey, hname, hfind, hnotable, Option.map_some, guard,
      if_true, Option.bind_eq_bind, Option.bind_some, Option.pure_def]

end Counted

/-- **An entry is counted** by the summary of its service: a log entry in the total, a span in its
trace, and a sample, if the name of its series is notable, by way of the last sample of the series
that is kept. -/
def Stores.Counts {Rodeo Spur F64 : Type} [LinearOrder Spur] [Interner Rodeo Spur]
    (regexNew : String → Option (String → Bool)) (it : IterOrder ℕ) (itValues : IterOrder Spur)
    (itTraces : IterOrder TraceId) (s : Stores Rodeo Spur F64) (since : Option ℕ) :
    Entry Spur F64 → Prop
  | .log e => ∀ id stream service, s.logStore.streams.lookup id = some stream →
    e ∈ stream.entries → ("service", service) ∈ s.logStore.resolveLabels stream.labels →
    ∀ topN, ∃ es, s.logStore.keptEntries regexNew it itValues since [serviceMatcher service] =
      some es ∧ e ∈ es ∧ ∃ block,
        s.logStore.summarizeLogs regexNew it itValues service since topN = some block ∧
        block.total = es.length
  | .span span => ∀ t, span ∈ TraceStore.spansOf s.traceStore.traces t →
    ∃ spans, (t, spans) ∈ s.traceStore.keptTraces itTraces
      (Interner.resolve s.traceStore.interner span.serviceName) since ∧ span ∈ spans
  | .sample sample => ∀ id series service nameKey name,
    s.metricStore.streams.lookup id = some series → sample ∈ series.entries →
    ("service", service) ∈ s.metricStore.resolveLabels series.labels →
    Interner.get s.metricStore.interner "__name__" = some nameKey →
    MetricStore.nameOf nameKey series.labels = some name →
    isNotable (Interner.resolve s.metricStore.interner name) →
    id ∈ s.metricStore.selectSeries regexNew it itValues [serviceMatcher service] ∧
      ∃ item, s.metricStore.notableSeries since id = some item ∧
        item.name = Interner.resolve s.metricStore.interner name

/-- **Everything kept is counted.** -/
theorem Stores.Fits.counts {Rodeo Spur F64 : Type} [LinearOrder Spur] [Interner Rodeo Spur]
    {regexNew : String → Option (String → Bool)} {it : IterOrder ℕ} {itValues : IterOrder Spur}
    {itTraces : IterOrder TraceId} {s : Stores Rodeo Spur F64} (h : s.Fits) {since : Option ℕ}
    {e : Entry Spur F64} (hkeep : keep since e.ingestSeq) :
    s.Counts regexNew it itValues itTraces since e := by
  cases e with
  | log e =>
    intro id stream service hst he hservice topN
    have hall : ∀ m ∈ [serviceMatcher service], m.Compiles regexNew := fun m hm =>
      List.mem_singleton.mp hm ▸ compiles_of_eq
    have herror : ∀ m ∈ svcErrorMatchers service, m.Compiles regexNew := fun m hm => by
      rcases List.mem_pair.mp hm with rfl | rfl <;> exact compiles_of_eq
    obtain ⟨es, hes, hmem⟩ :=
      LogStore.mem_keptEntries regexNew it itValues h.logs h.times since hall
    obtain ⟨items, hitems, -⟩ :=
      LogStore.mem_keptEntries regexNew it itValues h.logs h.times since herror
    refine ⟨es, hes, (hmem e).mpr ⟨hkeep, id, stream, hst, he, fun m hm => ?_⟩, ?_⟩
    · obtain rfl := List.mem_singleton.mp hm
      exact hservice
    · rw [LogStore.summarizeLogs, hes, hitems]
      exact ⟨_, rfl, rfl⟩
  | sample sample =>
    intro id series service nameKey name hst hmem hservice hkey hname hnotable
    refine ⟨(h.metrics.invariant.toIndexed.mem_select it itValues (fun m hm =>
      List.mem_singleton.mp hm ▸ compiles_of_eq) id).mpr ⟨series, hst, fun m hm => ?_⟩,
      MetricStore.exists_notableSeries hst hkey hname hnotable hmem hkeep⟩
    obtain rfl := List.mem_singleton.mp hm
    exact hservice
  | span span =>
    intro t hspan
    exact TraceStore.exists_mem_keptTraces h.traces h.services hspan hkeep

end Aniani
