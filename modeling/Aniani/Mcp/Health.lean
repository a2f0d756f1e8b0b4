import Aniani.ForMathlib.Tally
import Aniani.Query.Text
import Aniani.Server.Checkpoint
import Mathlib.Algebra.Order.BigOperators.Group.Finset

/-!
# Health

`check_health` scores every service in one pass over each store, and says that its formula mirrors
`summarize_activity`. The formula is the same; what goes into it is counted in two ways. A trace
counts for every service with a span in it, in both. A stream counts for the first of its `service`
labels in the one, and for each of them in the other.

## Main definitions

* `healthScore`, `topIssueText` — the formula, and the issue that is named
* `checkHealth`, `summarizeActivity` — the two tools
* `CreditsFirst` — the streams with errors of a service are credited to it

## Main results

* `checkHealth_agrees_iff` — when the two agree, in every reachable state
* `not_checkHealth_agrees` — a stream with two `service` labels
-/

namespace Aniani

namespace Mcp

variable {Rodeo Spur F64 : Type} [LinearOrder Spur] [Interner Rodeo Spur]

/-! ### The score -/

section Score

open FloatOps

variable [FloatOps F64]

/-- `f64::clamp`. -/
def clamp (x lo hi : F64) : F64 := if lt x lo then lo else if lt hi x then hi else x

/-- The health score, from 0 to 100. -/
def healthScore (errorCount totalSpans errorSpans : ℕ) : F64 :=
  let spanErrorRatio : F64 :=
    if 0 < totalSpans then div (Float64.ofU64 errorSpans) (Float64.ofU64 totalSpans)
    else Float64.zero
  let health := sub (Float64.ofI64 100)
    (FloatOps.min (mul spanErrorRatio (Float64.ofI64 30)) (Float64.ofI64 30))
  let health := if 0 < errorCount then
    sub health (FloatOps.min (Float64.ofU64 errorCount) (Float64.ofI64 40)) else health
  clamp health Float64.zero (Float64.ofI64 100)

end Score

/-- The issue that is named: the error logs, or the failing traces if there are none. -/
def topIssueText (errorCount errorTraceCount : ℕ) : String :=
  if 0 < errorCount then toString errorCount ++ " error log(s)"
  else if 0 < errorTraceCount then toString errorTraceCount ++ " failing trace(s)"
  else "No issues detected"

/-! ### One pass over each store -/

/-- The service a stream is credited to: that of the first `service` label. -/
def creditedService (s : LogStore Rodeo Spur F64) (labels : LabelPairs Spur) : Option String :=
  (Interner.get s.interner "service").bind fun serviceKey =>
    (labels.find? fun pair => pair.1 == serviceKey).map fun pair =>
      Interner.resolve s.interner pair.2

/-- A stream of the level `error`. -/
def isErrorStream (s : LogStore Rodeo Spur F64) (labels : LabelPairs Spur) : Bool :=
  (Interner.get s.interner "level").any fun levelKey =>
    labels.any fun pair =>
      pair.1 == levelKey && decide (some pair.2 = Interner.get s.interner "error")

/-- What a stream counts for, and how much. -/
def streamErrors (s : LogStore Rodeo Spur F64) (id : ℕ) : List (String × ℕ) :=
  match s.streams.lookup id with
  | none => []
  | some stream =>
    if isErrorStream s stream.labels then
      ((creditedService s stream.labels).map fun service => (service, stream.entries.length)).toList
    else []

/-- `log_errors`: the error log entries of each service. -/
def logErrors (it : IterOrder ℕ) (s : LogStore Rodeo Spur F64) : FxHashMap String ℕ :=
  Finmap.tally ((it.keys s.streams).flatMap (streamErrors s))

/-- The spans of a trace, those with an error, and whether there is one. -/
def spanStats (spans : List (Span Spur F64)) : ℕ × ℕ × ℕ :=
  let errs := spans.countP fun span => decide (span.status = .error)
  (spans.length, errs, if 0 < errs then 1 else 0)

/-- What a trace counts for, and how much. -/
def traceErrors (itSpurs : IterOrder Spur) (s : TraceStore Rodeo Spur F64) (t : TraceId) :
    List (String × ℕ × ℕ × ℕ) :=
  let spans := TraceStore.spansOf s.traces t
  (itSpurs.order (spans.map Span.serviceName).toFinset).map fun spur =>
    (Interner.resolve s.interner spur, spanStats spans)

/-- `trace_stats`: the spans, error spans and error traces of each service. -/
def traceStats (it : IterOrder TraceId) (itSpurs : IterOrder Spur) (s : TraceStore Rodeo Spur F64) :
    FxHashMap String (ℕ × ℕ × ℕ) :=
  Finmap.tally ((it.keys s.traces).flatMap (traceErrors itSpurs s))

/-- `service_names`. -/
def serviceNames (itSpurs : IterOrder Spur) (s : TraceStore Rodeo Spur F64) : List String :=
  (itSpurs.keys s.serviceIndex).map (Interner.resolve s.interner)

/-- The services any store knows. -/
def knownServices (itSpurs : IterOrder Spur) (s : Stores Rodeo Spur F64) : FxHashSet String :=
  (s.logStore.getLabelValues itSpurs "service" ++ serviceNames itSpurs s.traceStore ++
    s.metricStore.getLabelValues itSpurs "service").toFinset

section Tools

variable [FloatOps F64]

/-- `ServiceHealth`. -/
structure ServiceHealth (F64 : Type) where
  service : String
  healthScore : F64
  topIssue : String

/-- The report of a service, by the two tallies. -/
def serviceHealth (logErrors : FxHashMap String ℕ) (traceStats : FxHashMap String (ℕ × ℕ × ℕ))
    (service : String) : ServiceHealth F64 :=
  let errorCount := (logErrors.lookup service).getD 0
  let stats := (traceStats.lookup service).getD 0
  ⟨service, healthScore errorCount stats.1 stats.2.1, topIssueText errorCount stats.2.2⟩

/-- The orders `check_health` walks maps and sets in. -/
structure HealthWalks (Spur : Type) where
  streams : IterOrder ℕ
  traces : IterOrder TraceId
  spurs : IterOrder Spur
  names : IterOrder String

/-- `check_health`. -/
def checkHealth (walks : HealthWalks Spur) (s : Stores Rodeo Spur F64) : List (ServiceHealth F64) :=
  FloatOps.sortedBy ServiceHealth.healthScore
    ((walks.names.order (knownServices walks.spurs s)).map
      (serviceHealth (logErrors walks.streams s.logStore)
        (traceStats walks.traces walks.spurs s.traceStore)))

/-- `ServiceActivity`. -/
structure ServiceActivity (F64 : Type) where
  service : String
  since : Option ℕ
  observedThrough : ℕ
  healthScore : F64
  logs : LogsBlock
  traces : TracesBlock
  metrics : List (ActivityMetric F64)
  metricsTruncated : Bool

/-- The cap on the items of a block: `DETAILED_TOP` or `DEFAULT_TOP`. -/
def topN (detailed : Bool) : ℕ := if detailed then 100 else 20

/-- What `summarize_activity` reads of the outside: the orders it walks maps and sets in, and the
patterns it compiles. -/
structure ActivityWalks (Spur : Type) where
  regexNew : String → Option (String → Bool)
  streams : IterOrder ℕ
  values : IterOrder Spur
  traces : IterOrder TraceId

/-- `summarize_activity`, nothing where a read fails. -/
def summarizeActivity (walks : ActivityWalks Spur) (s : AppState Rodeo Spur F64) (service : String)
    (since : Option ℕ) (detailed : Bool) : Option (ServiceActivity F64) := do
  let logs ← s.logStore.summarizeLogs walks.regexNew walks.streams walks.values service since
    (topN detailed)
  let traces := s.traceStore.summarizeTraces walks.traces service since
  let metrics := s.metricStore.summarizeMetrics walks.regexNew walks.streams walks.values service
    since (topN detailed)
  return {
    service := service
    since := since
    observedThrough := s.ingestSeq
    healthScore := healthScore logs.errorCount traces.totalSpans traces.errorSpans
    logs := logs
    traces := traces
    metrics := metrics.1
    metricsTruncated := metrics.2 }

end Tools

/-! ### The labels of a stream -/

section Labels

open Interner

omit [LinearOrder Spur] in
theorem resolve_eq_iff {r : Rodeo} {k : Spur} (h : Valid r k) (name : String) :
    resolve r k = name ↔ get r name = some k :=
  ⟨fun heq => heq ▸ h.get_resolve, resolve_of_get⟩

theorem find?_congr_of_mem {α : Type} {p q : α → Bool} {l : List α} (h : ∀ a ∈ l, p a = q a) :
    l.find? p = l.find? q := by
  induction l with
  | nil => rfl
  | cons a l ih =>
    rw [List.find?_cons, List.find?_cons, h a List.mem_cons_self,
      ih fun b hb => h b (List.mem_cons_of_mem _ hb)]

variable {s : LogStore Rodeo Spur F64} {labels : LabelPairs Spur}

/-- The service a stream is credited to, by its labels. -/
theorem creditedService_eq (h : ∀ pair ∈ labels, Valid s.interner pair.1 ∧ Valid s.interner pair.2) :
    creditedService s labels =
      ((s.resolveLabels labels).find? fun l => decide (l.1 = "service")).map Prod.snd := by
  rw [creditedService, LabelStore.resolveLabels, List.find?_map, Option.map_map]
  cases hkey : get s.interner "service" with
  | none =>
    have hnone : labels.find? ((fun l : String × String => decide (l.1 = "service")) ∘
        fun pair => (resolve s.interner pair.1, resolve s.interner pair.2)) = none := by
      refine List.find?_eq_none.mpr fun pair hpair hname => ?_
      have hget := (resolve_eq_iff (h pair hpair).1 _).mp (of_decide_eq_true hname)
      rw [hkey] at hget
      exact absurd hget (by simp)
    rw [hnone]
    rfl
  | some serviceKey =>
    have hfind : labels.find? (fun pair => pair.1 == serviceKey) =
        labels.find? ((fun l : String × String => decide (l.1 = "service")) ∘
          fun pair => (resolve s.interner pair.1, resolve s.interner pair.2)) := by
      refine find?_congr_of_mem fun pair hpair => ?_
      have hiff := resolve_eq_iff (h pair hpair).1 "service"
      rw [hkey, Option.some.injEq] at hiff
      rw [Bool.eq_iff_iff, beq_iff_eq, Function.comp_apply, decide_eq_true_iff]
      exact (hiff.trans eq_comm).symm
    rw [Option.bind_some, hfind]
    rfl

/-- A stream of the level `error`, by its labels. -/
theorem isErrorStream_iff (h : ∀ pair ∈ labels, Valid s.interner pair.1 ∧ Valid s.interner pair.2) :
    isErrorStream s labels = true ↔ ("level", "error") ∈ s.resolveLabels labels := by
  have hpair : ∀ pair ∈ labels, (resolve s.interner pair.1, resolve s.interner pair.2) =
      ("level", "error") ↔ get s.interner "level" = some pair.1 ∧
        get s.interner "error" = some pair.2 := fun pair hpair => by
    rw [Prod.mk.injEq, resolve_eq_iff (h pair hpair).1, resolve_eq_iff (h pair hpair).2]
  rw [isErrorStream, LabelStore.resolveLabels, List.mem_map]
  cases hlevel : get s.interner "level" with
  | none =>
    refine iff_of_false (by simp) ?_
    rintro ⟨pair, hmem, heq⟩
    have hget := ((hpair pair hmem).mp heq).1
    rw [hlevel] at hget
    exact absurd hget (by simp)
  | some levelKey =>
    rw [Option.any_some, List.any_eq_true]
    refine exists_congr fun pair => and_congr_right fun hmem => ?_
    rw [hpair pair hmem, hlevel, Option.some.injEq, Bool.and_eq_true, beq_iff_eq, decide_eq_true_iff]
    exact and_congr eq_comm eq_comm

end Labels

/-! ### Error logs -/

section Logs

variable {s : LogStore Rodeo Spur F64}

/-- A stream with errors of a service. -/
def ErrorsOf (s : LogStore Rodeo Spur F64) (service : String) (id : ℕ) : Prop :=
  ∃ stream, s.streams.lookup id = some stream ∧
    ("service", service) ∈ s.resolveLabels stream.labels ∧
    ("level", "error") ∈ s.resolveLabels stream.labels

/-- A stream with errors whose first `service` label is that of a service. -/
def ErrorsCreditedTo (s : LogStore Rodeo Spur F64) (service : String) (id : ℕ) : Prop :=
  ∃ stream, s.streams.lookup id = some stream ∧
    ((s.resolveLabels stream.labels).find? fun l => decide (l.1 = "service")) =
      some ("service", service) ∧
    ("level", "error") ∈ s.resolveLabels stream.labels

omit [LinearOrder Spur] in
theorem ErrorsCreditedTo.errorsOf {service : String} {id : ℕ}
    (h : ErrorsCreditedTo s service id) : ErrorsOf s service id := by
  obtain ⟨stream, hst, hfind, hlevel⟩ := h
  exact ⟨stream, hst, List.mem_of_find?_eq_some hfind, hlevel⟩

open Classical in
/-- What `check_health` counts. -/
theorem lookup_logErrors (h : s.Indexed) (it : IterOrder ℕ) (service : String) :
    ((logErrors it s).lookup service).getD 0 = ∑ id ∈ s.streams.keys,
      if ErrorsCreditedTo s service id then (s.entriesOf id).length else 0 := by
  rw [logErrors, Finmap.lookup_tally_flatMap, IterOrder.sum_map_keys]
  refine Finset.sum_congr rfl fun id _ => ?_
  rw [streamErrors]
  cases hst : s.streams.lookup id with
  | none => simp [ErrorsCreditedTo, hst]
  | some stream =>
    have hvalid := h.interned hst
    have hentries : s.entriesOf id = stream.entries := by simp [LabelStore.entriesOf, hst]
    have hcredited : ErrorsCreditedTo s service id ↔
        creditedService s stream.labels = some service ∧ isErrorStream s stream.labels = true := by
      rw [creditedService_eq hvalid, isErrorStream_iff hvalid, ErrorsCreditedTo, hst]
      simp only [Option.some.injEq, exists_eq_left']
      refine and_congr_left fun _ => ⟨fun hfind => by rw [hfind]; rfl, fun hfind => ?_⟩
      obtain ⟨l, hl, rfl⟩ := Option.map_eq_some_iff.mp hfind
      have hname : l.1 = "service" := by simpa using List.find?_some hl
      rw [hl, ← hname]
    rw [hentries]
    cases herror : isErrorStream s stream.labels with
    | false => simp [hcredited, herror]
    | true =>
      cases hservice : creditedService s stream.labels with
      | none => simp [hcredited, hservice]
      | some service' => by_cases heq : service' = service <;> simp [hcredited, herror, hservice, heq]

/-- A query over all times reads the streams whole. -/
theorem keptEntries_all (regexNew : String → Option (String → Bool)) (it : IterOrder ℕ)
    (itValues : IterOrder Spur) (h : s.Invariant)
    (htimes : ∀ {e}, s.Holds e → e.timestampNs ∈ Set.Icc i64Min i64Max)
    (matchers : List LabelMatcher) :
    s.keptEntries regexNew it itValues none matchers =
      some ((s.queryStreams regexNew it itValues matchers).flatMap s.entriesOf) := by
  have hread : (fun id => s.getEntries id i64Min i64Max) = fun id => some (s.entriesOf id) := by
    funext id
    have hwindow : s.window id i64Min i64Max = s.entriesOf id := by
      refine List.filter_eq_self.mpr fun e he => decide_eq_true ?_
      rw [LabelStore.entriesOf] at he
      cases hst : s.streams.lookup id with
      | none => simp [hst] at he
      | some stream => exact htimes ⟨id, stream, hst, by simpa [hst] using he⟩
    rw [← hwindow]
    exact LabelStore.getRange_of_le (fun id stream hst => h.sorted hst) id (by decide)
  rw [LogStore.keptEntries, hread]
  refine (congrArg (Option.map _) List.mapM_pure).trans (congrArg some ?_)
  exact List.filter_eq_self.mpr fun _ _ => rfl

open Classical in
/-- What `summarize_activity` counts. -/
theorem errorCount_eq (regexNew : String → Option (String → Bool)) (it : IterOrder ℕ)
    (itValues : IterOrder Spur) (h : s.Invariant)
    (htimes : ∀ {e}, s.Holds e → e.timestampNs ∈ Set.Icc i64Min i64Max) (service : String)
    (topN : ℕ) :
    ∃ block, s.summarizeLogs regexNew it itValues service none topN = some block ∧
      block.errorCount = ∑ id ∈ s.streams.keys,
        if ErrorsOf s service id then (s.entriesOf id).length else 0 := by
  have hcompiles : ∀ m ∈ svcErrorMatchers service, m.Compiles regexNew := fun m hm => by
    rcases List.mem_pair.mp hm with rfl | rfl <;> exact compiles_of_eq
  have hselected : ∀ id, id ∈ s.queryStreams regexNew it itValues (svcErrorMatchers service) ↔
      ErrorsOf s service id := by
    intro id
    rw [ErrorsOf, LogStore.queryStreams, h.toIndexed.mem_select it itValues hcompiles id]
    simp [svcErrorMatchers, serviceMatcher, LabelMatcher.passes]
  rw [LogStore.summarizeLogs, keptEntries_all regexNew it itValues h htimes,
    keptEntries_all regexNew it itValues h htimes]
  refine ⟨_, rfl, ?_⟩
  show ((s.queryStreams regexNew it itValues (svcErrorMatchers service)).flatMap
    s.entriesOf).length = _
  have hnodup : (s.queryStreams regexNew it itValues (svcErrorMatchers service)).Nodup :=
    LabelStore.nodup_select _ _ _ _
  rw [List.length_flatMap, ← List.sum_toFinset _ hnodup, ← Finset.sum_filter]
  congr 1
  ext id
  rw [List.mem_toFinset, hselected, Finset.mem_filter, Finmap.mem_keys, Finmap.mem_iff, and_iff_right_of_imp]
  rintro ⟨stream, hst, -⟩
  exact ⟨stream, hst⟩

/-- **The errors of a service are credited to it**, stream by stream. -/
def CreditsFirst (s : LogStore Rodeo Spur F64) (service : String) : Prop :=
  ∀ id stream, s.streams.lookup id = some stream → stream.entries ≠ [] →
    ("level", "error") ∈ s.resolveLabels stream.labels →
    ("service", service) ∈ s.resolveLabels stream.labels →
      ((s.resolveLabels stream.labels).find? fun l => decide (l.1 = "service")) =
        some ("service", service)

omit [LinearOrder Spur] in
open Classical in
theorem errorCounts_eq_iff (s : LogStore Rodeo Spur F64) (service : String) :
    (∑ id ∈ s.streams.keys, if ErrorsCreditedTo s service id then (s.entriesOf id).length else 0) =
        (∑ id ∈ s.streams.keys, if ErrorsOf s service id then (s.entriesOf id).length else 0) ↔
      CreditsFirst s service := by
  rw [Finset.sum_eq_sum_iff_of_le fun id _ => ?_]
  · constructor
    · intro heq id stream hst hne hlevel hservice
      have hid := heq id (Finmap.mem_keys.mpr (Finmap.mem_of_lookup_eq_some hst))
      have hlen : (s.entriesOf id).length ≠ 0 := by
        simpa [LabelStore.entriesOf, hst] using hne
      have herrors : ErrorsOf s service id := ⟨stream, hst, hservice, hlevel⟩
      rw [if_pos herrors] at hid
      split at hid
      · next hcredited =>
        obtain ⟨stream', hst', hfind, -⟩ := hcredited
        obtain rfl := Option.some.inj (hst.symm.trans hst')
        exact hfind
      · exact absurd hid.symm hlen
    · intro hcredits id _
      by_cases herrors : ErrorsOf s service id
      · obtain ⟨stream, hst, hservice, hlevel⟩ := herrors
        by_cases hne : stream.entries = []
        · simp [LabelStore.entriesOf, hst, hne]
        · have hfind := hcredits id stream hst hne hlevel hservice
          rw [if_pos ⟨stream, hst, hfind, hlevel⟩, if_pos ⟨stream, hst, hservice, hlevel⟩]
      · rw [if_neg herrors, if_neg fun hcredited => herrors hcredited.errorsOf]
  · split
    · next hcredited => rw [if_pos hcredited.errorsOf]
    · exact Nat.zero_le _

end Logs

/-! ### Failing traces -/

section Traces

variable {s : TraceStore Rodeo Spur F64}

/-- A trace with a span of a service. -/
def HasService (s : TraceStore Rodeo Spur F64) (service : String) (t : TraceId) : Prop :=
  ∃ span ∈ TraceStore.spansOf s.traces t, Interner.resolve s.interner span.serviceName = service

omit [LinearOrder Spur] [Interner Rodeo Spur] in
theorem sum_spanStats (traces : List (List (Span Spur F64))) :
    (traces.map spanStats).sum =
      ((traces.map List.length).sum,
        (traces.map fun spans => spans.countP fun span => decide (span.status = .error)).sum,
        (traces.map fun spans => spans.countP fun span => decide (span.status = .error)).countP
          fun n => decide (0 < n)) := by
  induction traces with
  | nil => rfl
  | cons spans traces ih =>
    simp only [List.map_cons, List.sum_cons, ih, spanStats, Prod.mk_add_mk, List.countP_cons,
      decide_eq_true_iff]
    rw [Nat.add_comm (ite _ _ _)]

/-- A trace is found once under each of its services. -/
theorem sum_traceErrors (hserv : s.ServicesInterned) (itSpurs : IterOrder Spur) (service : String)
    (t : TraceId) [Decidable (HasService s service t)] :
    (((traceErrors itSpurs s t).filter fun p => decide (p.1 = service)).map Prod.snd).sum =
      if HasService s service t then spanStats (TraceStore.spansOf s.traces t) else 0 := by
  set spans := TraceStore.spansOf s.traces t with hspans
  set spurs := itSpurs.order (spans.map Span.serviceName).toFinset with hspurs
  have hmem : ∀ {spur}, spur ∈ spurs ↔ ∃ span ∈ spans, span.serviceName = spur := by
    intro spur
    rw [hspurs, itSpurs.mem_order, List.mem_toFinset, List.mem_map]
  have hvalid : ∀ spur ∈ spurs, Interner.Valid s.interner spur := by
    intro spur hspur
    obtain ⟨span, hspan, rfl⟩ := hmem.mp hspur
    exact hserv ⟨t, hspan⟩
  have hfilter : ((traceErrors itSpurs s t).filter fun p => decide (p.1 = service)).map Prod.snd =
      (spurs.filter fun spur => decide (Interner.resolve s.interner spur = service)).map
        fun _ => spanStats spans := by
    rw [traceErrors, List.filter_map, List.map_map]
    rfl
  rw [hfilter]
  by_cases hservice : HasService s service t
  · obtain ⟨span, hspan, hresolve⟩ := hservice
    have hspur : span.serviceName ∈ spurs := hmem.mpr ⟨span, hspan, rfl⟩
    have hone : (spurs.filter fun spur => decide (Interner.resolve s.interner spur = service)) =
        [span.serviceName] := by
      have hcongr : (spurs.filter fun spur => decide (Interner.resolve s.interner spur = service)) =
          spurs.filter (· = span.serviceName) := by
        refine List.filter_congr fun spur hmem' => decide_eq_decide.mpr ?_
        have hget := (resolve_eq_iff (hvalid _ hspur) service).mp hresolve
        rw [resolve_eq_iff (hvalid spur hmem'), hget, Option.some.injEq, eq_comm]
      rw [hcongr, List.filter_eq, (itSpurs.nodup _).count, if_pos hspur]
      rfl
    rw [hone, if_pos ⟨span, hspan, hresolve⟩]
    simp
  · have hnone : (spurs.filter fun spur => decide (Interner.resolve s.interner spur = service)) =
        [] := by
      refine List.filter_eq_nil_iff.mpr fun spur hspur hresolve => ?_
      obtain ⟨span, hspan, rfl⟩ := hmem.mp hspur
      exact hservice ⟨span, hspan, of_decide_eq_true hresolve⟩
    rw [hnone, if_neg hservice]
    rfl

open Classical in
/-- What `check_health` counts. -/
theorem lookup_traceStats (hserv : s.ServicesInterned) (it : IterOrder TraceId)
    (itSpurs : IterOrder Spur) (service : String) :
    ((traceStats it itSpurs s).lookup service).getD 0 = ∑ t ∈ s.traces.keys,
      if HasService s service t then spanStats (TraceStore.spansOf s.traces t) else 0 := by
  rw [traceStats, Finmap.lookup_tally_flatMap, IterOrder.sum_map_keys]
  exact Finset.sum_congr rfl fun t _ => sum_traceErrors hserv itSpurs service t

theorem nodup_tracesForService (it : IterOrder TraceId) (service : String) :
    (s.tracesForService it service).Nodup := by
  rw [TraceStore.tracesForService]
  cases Interner.get s.interner service with
  | none => exact List.nodup_nil
  | some spur =>
    cases hset : s.serviceIndex.lookup spur with
    | none => simp [hset]
    | some set => simpa [hset] using it.nodup set

open Classical in
/-- What `summarize_activity` counts. -/
theorem summarizeTraces_eq (h : s.Invariant) (hserv : s.ServicesInterned) (it : IterOrder TraceId)
    (service : String) :
    ((s.summarizeTraces it service none).totalSpans, (s.summarizeTraces it service none).errorSpans,
        (s.summarizeTraces it service none).errorTraceCount) =
      ∑ t ∈ s.traces.keys,
        if HasService s service t then spanStats (TraceStore.spansOf s.traces t) else 0 := by
  have hmem : ∀ t, t ∈ s.tracesForService it service ↔ HasService s service t := fun _ =>
    TraceStore.mem_tracesForService h hserv
  have hkept : s.keptTraces it service none =
      (s.tracesForService it service).map fun t => (t, TraceStore.spansOf s.traces t) := by
    rw [TraceStore.keptTraces, ← List.filterMap_eq_map]
    refine List.filterMap_congr fun t ht => ?_
    obtain ⟨span, hspan, -⟩ := (hmem t).mp ht
    have hne := List.ne_nil_of_mem hspan
    rw [TraceStore.getTrace, h.lookup_eq, if_neg hne]
    simp [keep, hne]
  have hsum : ((s.summarizeTraces it service none).totalSpans,
      (s.summarizeTraces it service none).errorSpans,
      (s.summarizeTraces it service none).errorTraceCount) =
        (((s.tracesForService it service).map (TraceStore.spansOf s.traces)).map spanStats).sum := by
    rw [sum_spanStats, TraceStore.summarizeTraces, hkept]
    simp only [List.map_map, Function.comp_def]
  rw [hsum, List.map_map, ← List.sum_toFinset _ (nodup_tracesForService it service),
    ← Finset.sum_filter]
  refine Finset.sum_congr ?_ fun _ _ => rfl
  ext t
  rw [List.mem_toFinset, hmem, Finset.mem_filter, Finmap.mem_keys, and_iff_right_of_imp]
  rintro ⟨span, hspan, -⟩
  rw [Finmap.mem_iff, h.lookup_eq, if_neg (List.ne_nil_of_mem hspan)]
  exact ⟨_, rfl⟩

end Traces

/-! ### The two tools -/

section Agreement

/-- How the text of an issue ends. -/
theorem reverse_topIssueText (errorCount errorTraceCount : ℕ) :
    (topIssueText errorCount errorTraceCount).toList.reverse.take 4 =
      if 0 < errorCount then [')', 's', '(', 'g']
      else if 0 < errorTraceCount then [')', 's', '(', 'e'] else ['d', 'e', 't', 'c'] := by
  rw [topIssueText]
  split_ifs
  · rw [String.toList_append, List.reverse_append]
    rfl
  · rw [String.toList_append, List.reverse_append]
    rfl
  · rfl

/-- The text of an issue tells the number of error logs. -/
theorem eq_of_topIssueText_eq {m n errorTraceCount : ℕ}
    (h : topIssueText m errorTraceCount = topIssueText n errorTraceCount) : m = n := by
  have htail := reverse_topIssueText m errorTraceCount
  rw [h, reverse_topIssueText] at htail
  rw [topIssueText, topIssueText] at h
  split_ifs at htail h
  all_goals first
    | exact absurd htail (by decide)
    | omega
    | exact toString_injective (String.append_left_inj _ |>.mp h)

variable [FloatOps F64]

/-- **The two tools agree**: one score, and the issue that is named counts what is summarized. -/
def Agrees (health : ServiceHealth F64) (activity : ServiceActivity F64) : Prop :=
  health.healthScore = activity.healthScore ∧
    health.topIssue = topIssueText activity.logs.errorCount activity.traces.errorTraceCount

/-- The report of a service against its summary, in stores that fit. -/
theorem serviceHealth_agrees_iff {s : AppState Rodeo Spur F64} (h : s.Fits)
    (walks : HealthWalks Spur) (summary : ActivityWalks Spur) (service : String) (detailed : Bool) :
    ∃ activity, summarizeActivity summary s service none detailed = some activity ∧
      (Agrees (serviceHealth (logErrors walks.streams s.logStore)
          (traceStats walks.traces walks.spurs s.traceStore) service) activity ↔
        CreditsFirst s.logStore service) := by
  classical
  obtain ⟨block, hblock, hcount⟩ := errorCount_eq summary.regexNew summary.streams summary.values
    h.logs h.times service (topN detailed)
  have hstats := (lookup_traceStats h.services walks.traces walks.spurs service).trans
    (summarizeTraces_eq h.traces h.services summary.traces service).symm
  have hlogs := lookup_logErrors h.logs.toIndexed walks.streams service
  have hiff := errorCounts_eq_iff s.logStore service
  rw [← hlogs, ← hcount] at hiff
  rw [summarizeActivity, hblock]
  refine ⟨_, rfl, Iff.trans ?_ hiff⟩
  simp only [Agrees, serviceHealth]
  rw [hstats]
  constructor
  · exact fun hagrees => eq_of_topIssueText_eq hagrees.2
  · intro heq
    rw [heq]
    exact ⟨rfl, rfl⟩

omit [FloatOps F64] in
/-- Every known service is reported, and nothing else. -/
theorem mem_checkHealth [FloatOps F64] (walks : HealthWalks Spur) (s : Stores Rodeo Spur F64)
    (health : ServiceHealth F64) :
    health ∈ checkHealth walks s ↔ ∃ service ∈ knownServices walks.spurs s,
      serviceHealth (logErrors walks.streams s.logStore)
        (traceStats walks.traces walks.spurs s.traceStore) service = health := by
  rw [checkHealth, FloatOps.sortedBy, List.mem_insertionSort, List.mem_map]
  simp only [walks.names.mem_order]

/-- **`check_health` and `summarize_activity` agree on a service exactly when every stream with
errors of the service has it as its first `service` label**, in every state reached by ingests,
evictions and resets, as long as there were ids left on the way. -/
theorem checkHealth_agrees_iff [Aniani.SerdeJson F64] (events : List (Event F64))
    (hevents : Run.Along Server.step Server.HasIds (Server.start : Server Rodeo Spur F64) events)
    (walks : HealthWalks Spur) (summary : ActivityWalks Spur) (detailed : Bool) :
    let s : AppState Rodeo Spur F64 :=
      (Run.exec Server.step (Server.start : Server Rodeo Spur F64) events).state
    ∀ service ∈ knownServices walks.spurs s.toStores,
      ∃ health ∈ checkHealth walks s.toStores, health.service = service ∧
        ∃ activity, summarizeActivity summary s service none detailed = some activity ∧
          (Agrees health activity ↔ CreditsFirst s.logStore service) := by
  intro s service hservice
  have hfits : s.Fits := Server.fits_exec hevents
  exact ⟨_, (mem_checkHealth walks s.toStores _).mpr ⟨service, hservice, rfl⟩, rfl,
    serviceHealth_agrees_iff hfits walks summary service detailed⟩

end Agreement

/-! ### A stream with two services -/

section TwoServices

/-- One error record of a resource with two attributes called `service`. -/
def twoServices : IngestRequest ℤ :=
  .otlpLogs (fun _ => 0) [⟨some ⟨[⟨"service", some (.stringValue "a")⟩,
    ⟨"service", some (.stringValue "b")⟩]⟩, [[⟨0, 17, "", none, [], [], []⟩]]⟩]

/-- The record is ingested. -/
def ingestTwoServices : List (Event ℤ) := [.arrive twoServices, .stamp 0, .commit 0]

/-- The state afterwards. -/
def afterTwoServices : AppState VecRodeo ℕ ℤ :=
  (Run.exec Server.step (Server.start : Server VecRodeo ℕ ℤ) ingestTwoServices).state

theorem hasIds_ingestTwoServices :
    Run.Along Server.step Server.HasIds (Server.start : Server VecRodeo ℕ ℤ) ingestTwoServices := by
  refine ⟨trivial, trivial, fun r hr => ?_, trivial⟩
  obtain rfl := Option.some.inj hr
  show 0 + 1 ≤ u64Max
  decide

example : (afterTwoServices.logStore.streams.lookup 0).map (fun stream =>
    afterTwoServices.logStore.resolveLabels stream.labels) =
      some [("service", "a"), ("service", "b"), ("level", "error")] := by
  decide

/-- The orders of one run of `check_health`. -/
noncomputable def someHealthWalks : HealthWalks ℕ where
  streams := .ascending ℕ
  traces := ⟨Finset.toList, Finset.nodup_toList, Finset.mem_toList⟩
  spurs := .ascending ℕ
  names := ⟨Finset.toList, Finset.nodup_toList, Finset.mem_toList⟩

/-- The orders of one run of `summarize_activity`. -/
noncomputable def someActivityWalks : ActivityWalks ℕ where
  regexNew _ := none
  streams := .ascending ℕ
  values := .ascending ℕ
  traces := ⟨Finset.toList, Finset.nodup_toList, Finset.mem_toList⟩

theorem mem_knownServices_twoServices :
    "b" ∈ knownServices someHealthWalks.spurs afterTwoServices.toStores := by
  have hmem : "b" ∈ afterTwoServices.logStore.getLabelValues (.ascending ℕ) "service" := by decide
  exact List.mem_toFinset.mpr (List.mem_append_left _ (List.mem_append_left _ hmem))

/-- The condition for the second service. -/
theorem checkHealth_agrees_iff_twoServices :
    ∃ health ∈ checkHealth someHealthWalks afterTwoServices.toStores, health.service = "b" ∧
      ∃ activity, summarizeActivity someActivityWalks afterTwoServices "b" none false =
          some activity ∧
        (Agrees health activity ↔ CreditsFirst afterTwoServices.logStore "b") :=
  checkHealth_agrees_iff ingestTwoServices hasIds_ingestTwoServices someHealthWalks
    someActivityWalks false "b" mem_knownServices_twoServices

/-- **The error of the second service is left out by `check_health`.** -/
theorem not_checkHealth_agrees :
    ∃ health ∈ checkHealth someHealthWalks afterTwoServices.toStores, health.service = "b" ∧
      ∃ activity, summarizeActivity someActivityWalks afterTwoServices "b" none false =
          some activity ∧
        ¬ Agrees health activity := by
  have hfits : afterTwoServices.Fits := Server.fits_exec hasIds_ingestTwoServices
  obtain ⟨activity, hactivity, hiff⟩ :=
    serviceHealth_agrees_iff hfits someHealthWalks someActivityWalks "b" false
  refine ⟨_, (mem_checkHealth _ _ _).mpr ⟨"b", mem_knownServices_twoServices, rfl⟩, rfl, activity,
    hactivity, fun hagrees => ?_⟩
  obtain ⟨stream, hst, hne, hlevel, hservice, hfirst⟩ :
      ∃ stream, afterTwoServices.logStore.streams.lookup 0 = some stream ∧ stream.entries ≠ [] ∧
        ("level", "error") ∈ afterTwoServices.logStore.resolveLabels stream.labels ∧
        ("service", "b") ∈ afterTwoServices.logStore.resolveLabels stream.labels ∧
        ((afterTwoServices.logStore.resolveLabels stream.labels).find?
          fun l => decide (l.1 = "service")) = some ("service", "a") :=
    ⟨_, rfl, by decide, by decide, by decide, by decide⟩
  have hsecond := hiff.mp hagrees 0 stream hst hne hlevel hservice
  rw [hfirst] at hsecond
  exact absurd hsecond (by decide)

end TwoServices

end Mcp

end Aniani
