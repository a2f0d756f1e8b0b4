import Aniani.ForMathlib.Leads
import Aniani.Query.PromQL.Selectors
import Aniani.Query.Timestamps
import Aniani.Query.TraceQL.StructuralResults
import Mathlib.Data.Prod.Lex

/-!
# The search for traces

`GET /api/search` lists the newest traces. Without a query a trace meets the window of time if its
extent does, from its first start to its last end. With one it is among the results of the query, and
one of the spans that matched has to meet the window: another span of the trace does not count.

## Main definitions

* `TraceStore.traceResult`, `TraceStore.recentTraces` — summaries of stored traces
* `TraceStore.search` — the handler
* `TraceStore.Candidate` — the traces that the limit is applied to

## Main results

* `TraceStore.search_newest` — the newest candidates are listed, and fewer of them for a lower limit
* `TraceStore.not_search_newest_unmatched` — a newer trace that matches and meets the window is left out
-/

namespace Aniani

open Combinator Combinators TraceQL
open PromQL (i64SaturatingAdd)

/-! ### Windows -/

/-- A window of time, which may be open. -/
structure TimeWindow where
  startNs : Option ℤ
  endNs : Option ℤ

/-- A time from a start on meets the window. -/
def TimeWindow.meets (window : TimeWindow) (startNs durationNs : ℤ) : Bool :=
  (window.startNs.all fun st => decide (st ≤ i64SaturatingAdd startNs durationNs)) &&
    window.endNs.all fun en => decide (startNs ≤ en)

/-- Whether the window was asked for. -/
def TimeWindow.isSome (window : TimeWindow) : Bool := window.startNs.isSome || window.endNs.isSome

/-- A time from a start on meets the window: it does not end before the window starts, and does not
start after the window ends. -/
structure TimeWindow.Meets (window : TimeWindow) (startNs durationNs : ℤ) : Prop where
  start_le : ∀ st ∈ window.startNs, st ≤ i64SaturatingAdd startNs durationNs
  le_end : ∀ en ∈ window.endNs, startNs ≤ en

theorem TimeWindow.meets_iff {window : TimeWindow} {startNs durationNs : ℤ} :
    window.meets startNs durationNs = true ↔ window.Meets startNs durationNs := by
  rw [meets, Bool.and_eq_true, Option.all_eq_true, Option.all_eq_true]
  simp only [decide_eq_true_eq]
  exact ⟨fun h => ⟨h.1, h.2⟩, fun h => ⟨h.start_le, h.le_end⟩⟩

theorem TimeWindow.meets_of_isSome_eq_false {window : TimeWindow} (h : window.isSome = false)
    (startNs durationNs : ℤ) : window.meets startNs durationNs = true := by
  obtain ⟨_ | st, _ | en⟩ := window
  · rfl
  all_goals cases h

/-! ### Summaries of traces -/

/-- `count_error_spans`. -/
def countErrorSpans (statuses : List SpanStatus) : ℕ :=
  statuses.countP fun status => status == .error

/-- `TraceResult` of the store: the summary of a trace. -/
structure TraceSummary where
  traceId : TraceId
  rootServiceName : String
  rootSpanName : String
  startTimeNs : ℤ
  durationNs : ℤ
  spanCount : ℕ
  errorCount : ℕ

namespace TraceStore

variable {Rodeo Spur F64 : Type} [Interner Rodeo Spur]

/-- `trace_result`. -/
def traceResult (s : TraceStore Rodeo Spur F64) (traceId : TraceId) : Option TraceSummary := do
  let spans ← s.traces.lookup traceId
  if spans.isEmpty then none
  else
    let root ← (spans.find? fun span => span.parentSpanId.isNone).or
      -- the first of the earliest spans
      (spans.sortByKey Span.startTimeNs).head?
    let start := (spans.map Span.startTimeNs).min?.getD 0
    let lastEnd :=
      (spans.map fun span => i64SaturatingAdd span.startTimeNs span.durationNs).max?.getD 0
    return {
      traceId := traceId
      rootServiceName := s.resolve root.serviceName
      rootSpanName := s.resolve root.name
      startTimeNs := start
      durationNs := i64SaturatingSub lastEnd start
      spanCount := spans.length
      errorCount := countErrorSpans (spans.map Span.status) }

/-- The summaries of all traces, the newest first: `recent_traces` before it truncates. -/
def summaries (it : IterOrder TraceId) (s : TraceStore Rodeo Spur F64) : List TraceSummary :=
  ((it.keys s.traces).filterMap s.traceResult).sortByKey fun tr => OrderDual.toDual tr.startTimeNs

/-- `recent_traces`. -/
def recentTraces (it : IterOrder TraceId) (s : TraceStore Rodeo Spur F64) (limit : ℕ) :
    List TraceSummary :=
  (s.summaries it).take limit

end TraceStore

/-! ### The handler -/

/-- The parameters of a search. -/
structure SearchParams where
  q : Option String
  start : Option ℕ
  stop : Option ℕ
  limit : Option ℕ

/-- The window that is asked for, from `start` to `end`. -/
def SearchParams.window (params : SearchParams) : TimeWindow :=
  ⟨params.start.map paramToNs, params.stop.map paramToNs⟩

/-- A matched span in the answer. -/
structure SpanItem where
  spanID : String
  name : String
  serviceName : String
  startTimeUnixNano : String
  durationNanos : String
  status : String

/-- The spans of a trace in the answer. -/
structure SpanSet where
  spans : List SpanItem
  matched : ℕ

/-- A trace in the answer. -/
structure TraceItem where
  traceID : String
  rootServiceName : String
  rootTraceName : String
  startTimeUnixNano : String
  durationMs : ℤ
  errorCount : ℕ
  spanSets : List SpanSet

/-- The answer: the traces, or an error and a hint. -/
inductive SearchResponse where
  | ok (traces : List TraceItem)
  | badRequest (error hint : String)

/-- `TRACEQL_HINT`. -/
def traceqlHint : String := "Example: \x7b resource.service.name = \"myapp\" && status = error \x7d"

/-- `DEFAULT_RECENT_TRACES_LIMIT`. -/
def defaultRecentTracesLimit : ℕ := 20

/-- `MAX_TRACE_SEARCH_LIMIT`. -/
def maxTraceSearchLimit : ℕ := 1000

namespace TraceStore

/-- `bounded_limit`. -/
def boundedLimit (limit : Option ℕ) (default : ℕ) : ℕ := min (limit.getD default) maxTraceSearchLimit

/-- The text of a trace id. -/
def traceIdText (traceId : TraceId) : String := hexText traceId.toList

/-- A trace that was not searched for by a query. -/
def recentItem (tr : TraceSummary) : TraceItem where
  traceID := traceIdText tr.traceId
  rootServiceName := tr.rootServiceName
  rootTraceName := tr.rootSpanName
  startTimeUnixNano := toString tr.startTimeNs
  durationMs := tr.durationNs.tdiv 1000000
  errorCount := tr.errorCount
  spanSets := []

/-- A matched span in the answer. -/
def spanItem (span : MatchedSpan) : SpanItem where
  spanID := hexText span.spanId.toList
  name := span.name
  serviceName := span.serviceName
  startTimeUnixNano := toString span.startTimeNs
  durationNanos := toString span.durationNs
  status := statusWord span.status

variable {Rodeo Spur F64 : Type} [Interner Rodeo Spur]

/-- A result of a query: the root is that of the stored trace, or else the first matched span. -/
def matchedItem (s : TraceStore Rodeo Spur F64) (r : TraceResult) : TraceItem :=
  let spanSets := [⟨r.matchedSpans.map spanItem, r.matchedSpans.length⟩]
  match s.traceResult r.traceId with
  | some tr => { recentItem tr with traceID := traceIdText r.traceId, spanSets := spanSets }
  | none =>
    let first := r.matchedSpans.head?
    { traceID := traceIdText r.traceId
      rootServiceName := (first.map MatchedSpan.serviceName).getD ""
      rootTraceName := (first.map MatchedSpan.name).getD ""
      startTimeUnixNano := toString ((first.map MatchedSpan.startTimeNs).getD 0)
      durationMs := ((first.map MatchedSpan.durationNs).getD 0).tdiv 1000000
      errorCount := countErrorSpans (r.matchedSpans.map MatchedSpan.status)
      spanSets := spanSets }

/-- The traces that are listed without a query. -/
def searchRecent (it : IterOrder TraceId) (s : TraceStore Rodeo Spur F64) (window : TimeWindow)
    (limit : ℕ) : List TraceSummary :=
  let recent :=
    if window.isSome then s.recentTraces it s.traces.keys.card else s.recentTraces it limit
  let recent :=
    if window.isSome then recent.filter fun tr => window.meets tr.startTimeNs tr.durationNs
    else recent
  recent.take limit

/-- One of the matched spans meets the window. -/
def matchMeets (window : TimeWindow) (r : TraceResult) : Bool :=
  r.matchedSpans.any fun span => window.meets span.startTimeNs span.durationNs

/-- The order of the results: by the start of the trace, the newest first, then by its id. -/
def searchKey (s : TraceStore Rodeo Spur F64) (r : TraceResult) : ℤᵒᵈ ×ₗ List ℕ :=
  let start := (((s.traceResult r.traceId).map TraceSummary.startTimeNs).or
    (r.matchedSpans.head?.map MatchedSpan.startTimeNs)).getD 0
  toLex (OrderDual.toDual start, byTraceId r)

/-- The results that are listed for a query. -/
def searchMatched (s : TraceStore Rodeo Spur F64) (results : List TraceResult)
    (window : TimeWindow) (limit : ℕ) : List TraceResult :=
  ((results.filter (matchMeets window)).sortByKey s.searchKey).take limit

section Handler

variable [DecidableEq Spur] [Combinators Char] [Alphanumeric] [FloatOps F64]

/-- `search`, nothing where parsing the query panics or never returns. -/
def search (display : Err Char → String) (regexNew : String → Option (String → Bool))
    (it : IterOrder TraceId) (s : TraceStore Rodeo Spur F64) (params : SearchParams) :
    Option SearchResponse :=
  let q := params.q.getD ""
  if q.isEmpty then
    let limit := boundedLimit params.limit defaultRecentTracesLimit
    some (.ok ((s.searchRecent it params.window limit).map recentItem))
  else
    (parseTraceql display q).map fun
      | .error e => .badRequest ("parse error: " ++ e) traceqlHint
      | .ok (expr : TraceQLExpr F64) =>
        let limit := boundedLimit params.limit maxTraceSearchLimit
        .ok ((s.searchMatched (s.evaluateTraceql regexNew it expr) params.window limit).map
          s.matchedItem)

end Handler

/-! ### Which traces there are -/

/-- When a trace starts. -/
def traceStart (s : TraceStore Rodeo Spur F64) (t : TraceId) : ℤ :=
  ((s.traceResult t).map TraceSummary.startTimeNs).getD 0

/-- The trace is stored, and its extent meets the window. -/
def ExtentMeets (s : TraceStore Rodeo Spur F64) (window : TimeWindow) (t : TraceId) : Prop :=
  ∃ tr, s.traceResult t = some tr ∧ window.Meets tr.startTimeNs tr.durationNs

theorem traceId_of_traceResult {s : TraceStore Rodeo Spur F64} {t : TraceId} {tr : TraceSummary}
    (h : s.traceResult t = some tr) : tr.traceId = t := by
  obtain ⟨spans, -, h⟩ := Option.bind_eq_some_iff.mp h
  split at h
  · cases h
  · obtain ⟨root, -, h⟩ := Option.bind_eq_some_iff.mp h
    cases h
    rfl

/-- A stored trace with a span has a summary. -/
theorem isSome_traceResult {s : TraceStore Rodeo Spur F64} {t : TraceId}
    {span : Span Spur F64} (h : span ∈ spansOf s.traces t) : (s.traceResult t).isSome = true := by
  rw [spansOf] at h
  cases hspans : s.traces.lookup t with
  | none => simp [hspans] at h
  | some spans =>
    rw [hspans, Option.getD_some] at h
    have hsorted : spans.sortByKey Span.startTimeNs ≠ [] :=
      List.ne_nil_of_mem (List.mem_sortByKey.mpr h)
    obtain ⟨first, rest, hfirst⟩ := List.exists_cons_of_ne_nil hsorted
    obtain ⟨root, hroot⟩ : ∃ root, ((spans.find? fun span => span.parentSpanId.isNone).or
        (spans.sortByKey Span.startTimeNs).head?) = some root := by
      rw [hfirst]
      cases spans.find? fun span => span.parentSpanId.isNone with
      | none => exact ⟨first, rfl⟩
      | some root => exact ⟨root, rfl⟩
    have hne : spans ≠ [] := List.ne_nil_of_mem h
    simp [traceResult, hspans, hne, hroot]

/-! ### Without a query -/

section Recent

variable (it : IterOrder TraceId) (s : TraceStore Rodeo Spur F64)

theorem mem_summaries {tr : TraceSummary} : tr ∈ s.summaries it ↔ s.traceResult tr.traceId = some tr := by
  rw [summaries, List.mem_sortByKey, List.mem_filterMap]
  constructor
  · rintro ⟨t, -, h⟩
    rwa [traceId_of_traceResult h]
  · intro h
    obtain ⟨spans, hspans, -⟩ := Option.bind_eq_some_iff.mp h
    exact ⟨tr.traceId, IterOrder.mem_keys.mpr (Finmap.mem_iff.mpr ⟨spans, hspans⟩), h⟩

theorem nodup_summaries : ((s.summaries it).map TraceSummary.traceId).Nodup := by
  refine ((List.sortByKey_perm _ _).map _).nodup_iff.mpr (List.pairwise_map.mpr ?_)
  refine List.pairwise_filterMap.mpr ((it.nodup_keys s.traces).imp fun hne tr htr tr' htr' => ?_)
  rwa [traceId_of_traceResult htr, traceId_of_traceResult htr']

theorem length_summaries_le : (s.summaries it).length ≤ s.traces.keys.card := by
  rw [summaries, List.length_sortByKey, ← it.length_keys]
  exact List.length_filterMap_le _ _

/-- The window is applied before the limit. -/
theorem searchRecent_eq (window : TimeWindow) (limit : ℕ) : s.searchRecent it window limit =
    ((s.summaries it).filter fun tr => window.meets tr.startTimeNs tr.durationNs).take limit := by
  cases hw : window.isSome with
  | false =>
    have hall : ∀ tr ∈ s.summaries it, window.meets tr.startTimeNs tr.durationNs = true :=
      fun tr _ => TimeWindow.meets_of_isSome_eq_false hw _ _
    simp [searchRecent, hw, recentTraces, List.filter_eq_self.mpr hall, List.take_take]
  | true =>
    simp [searchRecent, hw, recentTraces, List.take_of_length_le (length_summaries_le it s)]

theorem isTop_searchRecent (window : TimeWindow) (limit : ℕ) :
    List.IsTop s.traceStart limit (s.ExtentMeets window)
      ((s.searchRecent it window limit).map TraceSummary.traceId) := by
  rw [searchRecent_eq, List.map_take]
  have hsub : ((s.summaries it).filter fun tr => window.meets tr.startTimeNs tr.durationNs).Sublist
    (s.summaries it) := List.filter_sublist
  refine List.isTop_take ((nodup_summaries it s).sublist (hsub.map _)) ?_ (fun t => ?_) limit
  · refine List.pairwise_map.mpr (List.Pairwise.imp_of_mem ?_
      ((List.sortedByDesc_sortByKey TraceSummary.startTimeNs _).sublist hsub))
    intro tr tr' htr htr' hle
    rw [traceStart, traceStart, (mem_summaries it s).mp (hsub.subset htr),
      (mem_summaries it s).mp (hsub.subset htr')]
    exact hle
  · rw [List.mem_map]
    constructor
    · rintro ⟨tr, htr, rfl⟩
      obtain ⟨hmem, hmeets⟩ := List.mem_filter.mp htr
      exact ⟨tr, (mem_summaries it s).mp hmem, TimeWindow.meets_iff.mp hmeets⟩
    · rintro ⟨tr, htr, hmeets⟩
      obtain rfl := traceId_of_traceResult htr
      exact ⟨tr, List.mem_filter.mpr ⟨(mem_summaries it s).mpr htr,
        TimeWindow.meets_iff.mpr hmeets⟩, rfl⟩

end Recent

/-! ### With a query -/

section Matched

variable {s : TraceStore Rodeo Spur F64}

omit [Interner Rodeo Spur] in
/-- The stages of a pipeline leave some of the results. -/
theorem applyPipelineStages_sublist (stages : List PipelineStage) (results : List TraceResult) :
    (stages.foldl applyPipelineStage results).Sublist results := by
  induction stages generalizing results with
  | nil => exact List.Sublist.refl results
  | cons stage stages ih => exact (ih _).trans List.filter_sublist

/-- Every result of a query is of a stored trace with a span. -/
theorem stored_of_mem_evaluateTraceql [LinearOrder Spur] [FloatOps F64]
    {regexNew : String → Option (String → Bool)} {it : IterOrder TraceId} {expr : TraceQLExpr F64}
    {result : TraceResult} (h : result ∈ s.evaluateTraceql regexNew it expr) :
    ∃ span, span ∈ spansOf s.traces result.traceId := by
  induction expr generalizing result with
  | spanSelector selector =>
    obtain ⟨t, -, hscan⟩ := List.mem_filterMap.mp (List.mem_sortByKey.mp h)
    obtain ⟨rfl, span, hspan, -⟩ := exists_match_of_scan hscan
    exact ⟨span, hspan⟩
  | structural op lhs rhs ihl _ =>
    obtain ⟨lhsResult, hlhs, hresult⟩ := List.mem_filterMap.mp h
    rw [traceId_of_structuralOf hresult]
    exact ihl hlhs
  | pipeline inner stages ih =>
    exact ih ((applyPipelineStages_sublist stages _).subset h)

/-- The results are ordered by the starts of their traces. -/
theorem traceStart_le_of_searchKey_le {r r' : TraceResult}
    (hr : (s.traceResult r.traceId).isSome = true) (hr' : (s.traceResult r'.traceId).isSome = true)
    (h : s.searchKey r ≤ s.searchKey r') : s.traceStart r'.traceId ≤ s.traceStart r.traceId := by
  obtain ⟨tr, htr⟩ := Option.isSome_iff_exists.mp hr
  obtain ⟨tr', htr'⟩ := Option.isSome_iff_exists.mp hr'
  have hfst := Prod.Lex.monotone_fst _ _ h
  rw [searchKey, searchKey, htr, htr'] at hfst
  rw [traceStart, traceStart, htr, htr']
  exact hfst

theorem isTop_searchMatched {results : List TraceResult} (hordered : Ordered results)
    (hstored : ∀ r ∈ results, (s.traceResult r.traceId).isSome = true) (window : TimeWindow)
    (limit : ℕ) :
    List.IsTop s.traceStart limit (fun t => ∃ r ∈ results, r.traceId = t ∧
      ∃ span ∈ r.matchedSpans, window.Meets span.startTimeNs span.durationNs)
      ((s.searchMatched results window limit).map TraceResult.traceId) := by
  have hperm := List.sortByKey_perm s.searchKey (results.filter (matchMeets window))
  rw [searchMatched, List.map_take]
  refine List.isTop_take ?_ ?_ (fun t => ?_) limit
  · refine (hperm.map _).nodup_iff.mpr (List.pairwise_map.mpr ?_)
    exact hordered.pairwise_ne.sublist List.filter_sublist
  · have hmem : ∀ r ∈ (results.filter (matchMeets window)).sortByKey s.searchKey,
        (s.traceResult r.traceId).isSome = true := fun r hr =>
      hstored r (List.mem_of_mem_filter (List.mem_sortByKey.mp hr))
    refine List.pairwise_map.mpr (List.Pairwise.imp_of_mem ?_
      (List.sortedBy_sortByKey s.searchKey (results.filter (matchMeets window))))
    intro r r' hr hr' hle
    exact traceStart_le_of_searchKey_le (hmem r hr) (hmem r' hr') hle
  · rw [List.mem_map]
    have hmeets : ∀ r : TraceResult, matchMeets window r = true ↔
        ∃ span ∈ r.matchedSpans, window.Meets span.startTimeNs span.durationNs := by
      intro r
      rw [matchMeets, List.any_eq_true]
      exact exists_congr fun span => and_congr_right fun _ => TimeWindow.meets_iff
    constructor
    · rintro ⟨r, hr, rfl⟩
      obtain ⟨hmem, hr⟩ := List.mem_filter.mp (List.mem_sortByKey.mp hr)
      exact ⟨r, hmem, rfl, (hmeets r).mp hr⟩
    · rintro ⟨r, hmem, rfl, hr⟩
      exact ⟨r, List.mem_sortByKey.mpr (List.mem_filter.mpr ⟨hmem, (hmeets r).mpr hr⟩), rfl⟩

end Matched

/-! ### What is listed -/

/-- The answer lists these traces, with their starts. -/
def Lists (s : TraceStore Rodeo Spur F64) (response : Option SearchResponse)
    (listed : List TraceId) : Prop :=
  ∃ items, response = some (.ok items) ∧
    items.map TraceItem.traceID = listed.map traceIdText ∧
    items.map TraceItem.startTimeUnixNano = listed.map fun t => toString (s.traceStart t)

/-- A list of summaries is listed with their starts. -/
theorem lists_recentItem {s : TraceStore Rodeo Spur F64} {l : List TraceSummary}
    (h : ∀ tr ∈ l, s.traceResult tr.traceId = some tr) :
    s.Lists (some (.ok (l.map recentItem))) (l.map TraceSummary.traceId) := by
  refine ⟨_, rfl, by rw [List.map_map, List.map_map]; rfl, ?_⟩
  rw [List.map_map, List.map_map]
  refine List.map_congr_left fun tr htr => ?_
  show toString tr.startTimeNs = toString (s.traceStart tr.traceId)
  rw [traceStart, h tr htr]
  rfl

/-- A list of results is listed with the starts of their traces. -/
theorem lists_matchedItem {s : TraceStore Rodeo Spur F64} {l : List TraceResult}
    (h : ∀ r ∈ l, (s.traceResult r.traceId).isSome = true) :
    s.Lists (some (.ok (l.map s.matchedItem))) (l.map TraceResult.traceId) := by
  refine ⟨_, rfl, ?_, ?_⟩
  · rw [List.map_map, List.map_map]
    refine List.map_congr_left fun r hr => ?_
    obtain ⟨tr, htr⟩ := Option.isSome_iff_exists.mp (h r hr)
    rw [Function.comp_apply, matchedItem, htr]
    rfl
  · rw [List.map_map, List.map_map]
    refine List.map_congr_left fun r hr => ?_
    obtain ⟨tr, htr⟩ := Option.isSome_iff_exists.mp (h r hr)
    rw [Function.comp_apply, Function.comp_apply, matchedItem, traceStart, htr]
    rfl

/-- The limit, for a query or for none. -/
def searchLimit (limit : Option ℕ) (asked : Option (TraceQLExpr F64)) : ℕ :=
  boundedLimit limit (if asked.isSome then maxTraceSearchLimit else defaultRecentTracesLimit)

section Newest

variable [LinearOrder Spur] [FloatOps F64] (regexNew : String → Option (String → Bool))

/-- A trace that the query reports. Without a query every stored trace with a span is reported. -/
def Matches (it : IterOrder TraceId) (s : TraceStore Rodeo Spur F64) :
    Option (TraceQLExpr F64) → TraceId → Prop
  | none, t => ∃ span, span ∈ spansOf s.traces t
  | some expr, t => ∃ r ∈ s.evaluateTraceql regexNew it expr, r.traceId = t

/-- The traces that the limit is applied to: without a query those whose extent meets the window, with
one those of which a matched span does. -/
def Candidate (it : IterOrder TraceId) (s : TraceStore Rodeo Spur F64) (window : TimeWindow) :
    Option (TraceQLExpr F64) → TraceId → Prop
  | none, t => s.ExtentMeets window t
  | some expr, t => ∃ r ∈ s.evaluateTraceql regexNew it expr, r.traceId = t ∧
      ∃ span ∈ r.matchedSpans, window.Meets span.startTimeNs span.durationNs

variable [Combinators Char] [Alphanumeric] (display : Err Char → String)

/-- The text of no query, or one that is accepted. -/
inductive Accepted : String → Option (TraceQLExpr F64) → Prop where
  | none : Accepted "" none
  | query {q : String} {expr : TraceQLExpr F64} (hne : q ≠ "")
      (h : parseTraceql display q = some (.ok expr)) : Accepted q (some expr)

variable {display} (it : IterOrder TraceId) (s : TraceStore Rodeo Spur F64) (params : SearchParams)

omit [LinearOrder Spur] in
theorem search_of_none [DecidableEq Spur] (h : params.q.getD "" = "") :
    s.search display regexNew it params = some (.ok ((s.searchRecent it params.window
      (boundedLimit params.limit defaultRecentTracesLimit)).map recentItem)) := by
  rw [search, h]
  rfl

omit [LinearOrder Spur] in
theorem search_of_query [DecidableEq Spur] {expr : TraceQLExpr F64} (hne : params.q.getD "" ≠ "")
    (h : parseTraceql display (params.q.getD "") = some (.ok expr)) :
    s.search display regexNew it params = some (.ok ((s.searchMatched
      (s.evaluateTraceql regexNew it expr) params.window
        (boundedLimit params.limit maxTraceSearchLimit)).map s.matchedItem)) := by
  have hempty : (params.q.getD "").isEmpty = false := by
    rw [Bool.eq_false_iff]
    exact mt String.isEmpty_iff.mp hne
  rw [search, hempty, h]
  rfl

/-- The newest candidates are listed. -/
theorem exists_lists {asked : Option (TraceQLExpr F64)}
    (h : Accepted display (params.q.getD "") asked) :
    ∃ listed, s.Lists (s.search display regexNew it params) listed ∧
      listed.IsTop s.traceStart (searchLimit params.limit asked)
        (s.Candidate regexNew it params.window asked) := by
  generalize hq : params.q.getD "" = q at h
  cases h with
  | none =>
    refine ⟨_, ?_, isTop_searchRecent it s params.window _⟩
    rw [search_of_none regexNew it s params hq]
    refine lists_recentItem fun tr htr => (mem_summaries it s).mp ?_
    rw [searchRecent_eq] at htr
    exact List.mem_of_mem_filter (List.mem_of_mem_take htr)
  | @query _ expr hne hparse =>
    subst hq
    have hstored : ∀ r ∈ s.evaluateTraceql regexNew it expr,
        (s.traceResult r.traceId).isSome = true := by
      intro r hr
      obtain ⟨span, hspan⟩ := stored_of_mem_evaluateTraceql hr
      exact isSome_traceResult hspan
    refine ⟨_, ?_, isTop_searchMatched (ordered_evaluateTraceql regexNew it s expr) hstored
      params.window _⟩
    rw [search_of_query regexNew it s params hne hparse]
    refine lists_matchedItem fun r hr => hstored r ?_
    exact List.mem_of_mem_filter (List.mem_sortByKey.mp (List.mem_of_mem_take hr))

/-- For a lower limit the first of them are listed. -/
theorem search_prefix {asked : Option (TraceQLExpr F64)}
    (h : Accepted display (params.q.getD "") asked) {a b : ℕ} (hab : a ≤ b)
    {items items' : List TraceItem}
    (ha : s.search display regexNew it { params with limit := some a } = some (.ok items))
    (hb : s.search display regexNew it { params with limit := some b } = some (.ok items')) :
    items <+: items' := by
  have hbounded (n : ℕ) : boundedLimit (some a) n ≤ boundedLimit (some b) n :=
    min_le_min_right _ hab
  generalize hq : params.q.getD "" = q at h
  cases h with
  | none =>
    rw [search_of_none regexNew it s { params with limit := some a } hq] at ha
    rw [search_of_none regexNew it s { params with limit := some b } hq] at hb
    cases ha
    cases hb
    rw [searchRecent_eq, searchRecent_eq]
    exact (List.take_prefix_take_left (hbounded _)).map recentItem
  | query hne hparse =>
    subst hq
    rw [search_of_query regexNew it s { params with limit := some a } hne hparse] at ha
    rw [search_of_query regexNew it s { params with limit := some b } hne hparse] at hb
    cases ha
    cases hb
    exact (List.take_prefix_take_left (hbounded _)).map s.matchedItem

/-- **The newest candidates** are listed, and for a lower limit the first of them. -/
theorem search_newest {asked : Option (TraceQLExpr F64)}
    (h : Accepted display (params.q.getD "") asked) :
    (∃ listed, s.Lists (s.search display regexNew it params) listed ∧
      listed.IsTop s.traceStart (searchLimit params.limit asked)
        (s.Candidate regexNew it params.window asked)) ∧
    ∀ a b items items', a ≤ b →
      s.search display regexNew it { params with limit := some a } = some (.ok items) →
      s.search display regexNew it { params with limit := some b } = some (.ok items') →
      items <+: items' :=
  ⟨exists_lists regexNew it s params h, fun _ _ _ _ hab => search_prefix regexNew it s params h hab⟩

end Newest

end TraceStore

/-! ### A trace that is left out -/

/-- A store with a trace of two spans, the second of which is late, and an older trace. -/
def lateStore : TraceStore VecRodeo ℕ ℤ :=
  receivedStore [
    { sentSpan (List.replicate 8 1) [] with startTimeUnixNano := 5, endTimeUnixNano := 6 },
    { sentSpan (List.replicate 8 2) (List.replicate 8 1) with
      name := "hit", startTimeUnixNano := 2000000000, endTimeUnixNano := 2000000001 },
    { sentSpan (List.replicate 8 3) [] with
      traceId := List.replicate 16 2, name := "hit", startTimeUnixNano := 1, endTimeUnixNano := 2 }]

/-- A search for spans named `hit`, up to the first second. -/
def hitParams : SearchParams := ⟨some (askedText [.name "hit"]), none, some 1, some 1⟩

/-- The query of `hitParams` is accepted. -/
theorem accepted_hitParams [Combinators Char] [Alphanumeric] :
    TraceStore.Accepted (fun _ => "") (hitParams.q.getD "")
      (some (.spanSelector (askedSelector [.name "hit"]) : TraceQLExpr ℤ)) :=
  .query (by decide) (parseTraceql_selectorText _ _ (by simp))

/-- What is listed for the query, which is the older trace. -/
theorem search_newest_lateStore :
    let _ : Combinators Char := ofLists
    let _ : Alphanumeric := .ascii
    let it : IterOrder TraceId := ⟨Finset.toList, Finset.nodup_toList, Finset.mem_toList⟩
    (∃ listed, lateStore.Lists (lateStore.search (fun _ => "") (fun _ => none) it hitParams)
        listed ∧
      listed.IsTop lateStore.traceStart 1 (lateStore.Candidate (fun _ => none) it hitParams.window
        (some (.spanSelector (askedSelector [.name "hit"]))))) ∧
    ∀ a b items items', a ≤ b →
      lateStore.search (fun _ => "") (fun _ => none) it { hitParams with limit := some a } =
        some (.ok items) →
      lateStore.search (fun _ => "") (fun _ => none) it { hitParams with limit := some b } =
        some (.ok items') →
      items <+: items' := by
  intro _ _ it
  exact TraceStore.search_newest (fun _ => none) it lateStore hitParams accepted_hitParams

theorem TraceStore.traceIdText_injective : Function.Injective TraceStore.traceIdText :=
  fun _ _ h => Vector.toList_inj.mp (hexText_injective h)

/-- The answer tells which traces are listed. -/
theorem TraceStore.Lists.unique {Rodeo Spur F64 : Type} [Interner Rodeo Spur]
    {s : TraceStore Rodeo Spur F64} {response : Option SearchResponse} {listed listed' : List TraceId}
    (h : s.Lists response listed) (h' : s.Lists response listed') : listed = listed' := by
  obtain ⟨items, hitems, hids, -⟩ := h
  obtain ⟨items', hitems', hids', -⟩ := h'
  cases hitems.symm.trans hitems'
  exact List.map_injective_iff.mpr TraceStore.traceIdText_injective (hids.symm.trans hids')

/-- What the query reports of the store. -/
theorem mem_evaluateTraceql_lateStore {it : IterOrder TraceId} {r : TraceResult} :
    r ∈ lateStore.evaluateTraceql (fun _ => none) it
      (.spanSelector (askedSelector [.name "hit"])) ↔
    lateStore.scan (fun _ => none) (askedSelector [.name "hit"]) r.traceId = some r := by
  have hreadable : lateStore.Invariant ∧ lateStore.AllReadable := TraceStore.readable_exec _
  rw [TraceStore.evaluateTraceql, TraceStore.evalSpanSelector_eq hreadable.1 hreadable.2 _ it it,
    ← TraceStore.resultOf_scanAllTraces _ it]
  have hordered := TraceStore.ordered_sortByKey_scan (fun _ => none) lateStore
    (askedSelector [.name "hit"]) (it.nodup_keys lateStore.traces)
  rw [TraceStore.scanAllTraces, hordered.resultOf_eq_some_iff]
  exact (and_iff_left rfl).symm

/-- The newer trace matches, and its extent meets the window. -/
theorem matches_lateStore (it : IterOrder TraceId) :
    lateStore.Matches (fun _ => none) it (some (.spanSelector (askedSelector [.name "hit"])))
      (Vector.replicate 16 1) ∧
    lateStore.ExtentMeets hitParams.window (Vector.replicate 16 1) := by
  constructor
  · obtain ⟨r, hr⟩ : ∃ r, lateStore.scan (fun _ => none) (askedSelector [.name "hit"])
        (Vector.replicate 16 1) = some r := Option.isSome_iff_exists.mp (by decide)
    have hid := (TraceStore.exists_match_of_scan hr).1
    exact ⟨r, mem_evaluateTraceql_lateStore.mpr (hid ▸ hr), hid⟩
  · obtain ⟨tr, htr, hmeets⟩ : ∃ tr, lateStore.traceResult (Vector.replicate 16 1) = some tr ∧
        hitParams.window.meets tr.startTimeNs tr.durationNs = true :=
      (Option.any_eq_true _ _).mp (by decide)
    exact ⟨tr, htr, TimeWindow.meets_iff.mp hmeets⟩

/-- The limit is applied to the older trace alone. -/
theorem eq_of_candidate_lateStore {it : IterOrder TraceId} {t : TraceId}
    (h : lateStore.Candidate (fun _ => none) it hitParams.window
      (some (.spanSelector (askedSelector [.name "hit"]))) t) : t = Vector.replicate 16 2 := by
  obtain ⟨r, hr, rfl, span, hspan, hmeets⟩ := h
  have hscan := mem_evaluateTraceql_lateStore.mp hr
  have hkeys : r.traceId ∈ lateStore.traces.keys := by
    rw [Finmap.mem_keys]
    by_contra hnot
    rw [TraceStore.scan, Finmap.lookup_eq_none.mpr hnot] at hscan
    cases hscan
  have hstored : lateStore.traces.keys = {Vector.replicate 16 1, Vector.replicate 16 2} := by decide
  rw [hstored, Finset.mem_insert, Finset.mem_singleton] at hkeys
  refine hkeys.resolve_left fun hid => ?_
  -- no matched span of the newer trace meets the window
  have hnone : (lateStore.scan (fun _ => none) (askedSelector [.name "hit"])
      (Vector.replicate 16 1)).all (fun r => !TraceStore.matchMeets hitParams.window r) = true := by
    decide
  have hsome : TraceStore.matchMeets hitParams.window r = true :=
    List.any_eq_true.mpr ⟨span, hspan, TimeWindow.meets_iff.mpr hmeets⟩
  rw [← hid, hscan] at hnone
  simp [hsome] at hnone

/-- **A trace that matches and meets the window** is left out for an older one: the span that matches
does not meet the window, another one does. -/
theorem not_search_newest_unmatched :
    let _ : Combinators Char := ofLists
    let _ : Alphanumeric := .ascii
    ¬ ∀ (calls : List (TraceStore.Call ℤ)) (it : IterOrder TraceId) (params : SearchParams)
      (asked : Option (TraceQLExpr ℤ)),
      TraceStore.Accepted (fun _ => "") (params.q.getD "") asked →
      let s := Run.exec TraceStore.call (TraceStore.new : TraceStore VecRodeo ℕ ℤ) calls
      ∃ listed, s.Lists (s.search (fun _ => "") (fun _ => none) it params) listed ∧
        listed.IsTop s.traceStart (TraceStore.searchLimit params.limit asked) fun t =>
          s.Matches (fun _ => none) it asked t ∧ s.ExtentMeets params.window t := by
  intro _ _ hall
  let it : IterOrder TraceId := ⟨Finset.toList, Finset.nodup_toList, Finset.mem_toList⟩
  obtain ⟨listed, hlists, htop⟩ := hall _ it hitParams _ accepted_hitParams
  obtain ⟨listed', hlists', hcandidates⟩ :=
    TraceStore.exists_lists (fun _ => none) it lateStore hitParams accepted_hitParams
  obtain rfl := hlists.unique hlists'
  have hother (t : TraceId) (ht : t ∈ listed) : t = Vector.replicate 16 2 :=
    eq_of_candidate_lateStore (hcandidates.qualifies t ht)
  have hout : Vector.replicate 16 1 ∉ listed := fun hmem => absurd (hother _ hmem) (by decide)
  obtain ⟨hlength, hle⟩ := htop.full (Vector.replicate 16 1) (matches_lateStore it) hout
  obtain ⟨t, ht⟩ : ∃ t, t ∈ listed := List.exists_mem_of_length_pos (by rw [hlength]; decide)
  have hnot : ¬ lateStore.traceStart (Vector.replicate 16 1) ≤
      lateStore.traceStart (Vector.replicate 16 2) := by decide
  exact hnot (hother t ht ▸ hle t ht)

end Aniani
