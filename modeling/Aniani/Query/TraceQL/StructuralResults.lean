import Aniani.Query.TraceQL.Narrowing
import Aniani.Query.TraceQL.Structural

/-!
# What a structural query reports

A structural query works with span ids. Of the stored spans with one id it takes the parent from the
last one, and it reports each id once, with the first span that matches on the right. Where the ids of
a trace are distinct, that is each stored span that matches on the right and stands in the relation to
one that matches on the left; where spans have been sent twice, it is not.

## Main definitions

* `lastParent`, `StandsIn` — the relations of ids
* `SpansRelated`, `Reports` — the relations of stored spans, and what is reported of them

## Main results

* `TraceStore.ordered_evaluateTraceql` — each trace is reported once, in order
* `TraceStore.mem_matchedIn_structural` — the ids that are reported
* `TraceStore.reports_structural` — what is reported when ids are distinct
-/

namespace Aniani

open TraceQL (StructuralOp TraceQLExpr)

/-! ### Relations -/

/-- The bytes of an id, as numbers, say which id it is. -/
theorem byteValues_injective (n : ℕ) :
    Function.Injective fun id : Vector UInt8 n => id.toList.map UInt8.toNat := fun _ _ h =>
  Vector.toList_inj.mp (List.map_injective_iff.mpr (fun _ _ => UInt8.toNat_inj.mp) h)

section Relations

variable {Spur F64 : Type}

/-- The parent of a span id: that of the last stored span with the id. -/
def lastParent (spans : List (Span Spur F64)) (id : SpanId) : Option SpanId :=
  (spans.reverse.find? fun span => decide (span.spanId = id)).bind Span.parentSpanId

/-- An id on the right stands in a relation to one on the left, where ids have parents. -/
def StandsIn (op : StructuralOp) (parent : SpanId → Option SpanId) (lhsId rhsId : SpanId) : Prop :=
  match op with
  | .descendant => lhsId ≠ rhsId ∧
      Relation.TransGen (fun id parentId => parent id = some parentId) rhsId lhsId
  | .child => parent rhsId = some lhsId
  | .sibling => lhsId ≠ rhsId ∧ parent lhsId = parent rhsId

/-- A stored span on the right stands in a relation to one on the left: a descendant through stored
spans, a child, or a sibling. -/
def SpansRelated (op : StructuralOp) (spans : List (Span Spur F64)) (lhs rhs : Span Spur F64) :
    Prop :=
  match op with
  | .descendant => lhs.spanId ≠ rhs.spanId ∧
      Relation.TransGen (fun id parentId => ∃ span ∈ spans, span.spanId = id ∧
        span.parentSpanId = some parentId) rhs.spanId lhs.spanId
  | .child => rhs.parentSpanId = some lhs.spanId
  | .sibling => lhs.spanId ≠ rhs.spanId ∧ lhs.parentSpanId = rhs.parentSpanId

theorem parentIn_spanMap (spans : List (Span Spur F64)) (id : SpanId) :
    parentIn (spanMap spans) id = lastParent spans id := by
  rw [parentIn, spanMap, Finmap.lookup_foldl_insert Span.spanId fun span => span, Option.map_id',
    Finmap.lookup_empty, Option.or_none]
  rfl

/-- **What the evaluator takes for related.** -/
theorem related_iff (op : StructuralOp) (spans : List (Span Spur F64)) (lhsId rhsId : SpanId) :
    related op lhsId rhsId (spanMap spans) = true ↔
      StandsIn op (lastParent spans) lhsId rhsId := by
  cases op with
  | descendant =>
    have hstep : ParentStep (spanMap spans) =
        fun id parentId => lastParent spans id = some parentId := by
      funext id parentId
      rw [ParentStep, parentIn_spanMap]
    rw [related, (isDescendant_spec _ _ _).2, hstep]
    exact Iff.rfl
  | child =>
    rw [related, isChild, parentIn_spanMap, decide_eq_true_eq]
    exact Iff.rfl
  | sibling =>
    rw [related, isSibling, parentIn_spanMap, parentIn_spanMap, StandsIn]
    split
    · next heq => exact iff_of_false (by simp) fun h => h.1 heq
    · next hne => rw [decide_eq_true_eq, and_iff_right hne]

/-- Where ids are distinct, the last span with an id is the span with the id. -/
theorem lastParent_of_nodup {spans : List (Span Spur F64)} (hnodup : (spans.map Span.spanId).Nodup)
    {span : Span Spur F64} (hspan : span ∈ spans) :
    lastParent spans span.spanId = span.parentSpanId := by
  have hne : spans.reverse.Pairwise fun a b => a.spanId ≠ b.spanId :=
    List.pairwise_reverse.mpr ((List.pairwise_map.mp hnodup).imp Ne.symm)
  have hfind := (List.find?_eq_some_iff_of_pairwise hne).mpr ⟨List.mem_reverse.mpr hspan, rfl⟩
  rw [lastParent, hfind, Option.bind_some]

/-- Where ids are distinct, the relations of ids are those of the spans. -/
theorem standsIn_iff_spansRelated {spans : List (Span Spur F64)}
    (hnodup : (spans.map Span.spanId).Nodup) (op : StructuralOp) {lhs rhs : Span Spur F64}
    (hlhs : lhs ∈ spans) (hrhs : rhs ∈ spans) :
    StandsIn op (lastParent spans) lhs.spanId rhs.spanId ↔ SpansRelated op spans lhs rhs := by
  have hstored {id parentId : SpanId} (h : lastParent spans id = some parentId) :
      ∃ span ∈ spans, span.spanId = id ∧ span.parentSpanId = some parentId := by
    obtain ⟨span, hfind, hparent⟩ := Option.bind_eq_some_iff.mp h
    exact ⟨span, List.mem_reverse.mp (List.mem_of_find?_eq_some hfind),
      by simpa using List.find?_some hfind, hparent⟩
  cases op with
  | descendant =>
    have hstep : (fun id parentId => lastParent spans id = some parentId) =
        fun id parentId => ∃ span ∈ spans, span.spanId = id ∧ span.parentSpanId = some parentId := by
      funext id parentId
      refine propext ⟨hstored, ?_⟩
      rintro ⟨span, hspan, rfl, hparent⟩
      rw [lastParent_of_nodup hnodup hspan, hparent]
    rw [StandsIn, SpansRelated, hstep]
  | child => rw [StandsIn, SpansRelated, lastParent_of_nodup hnodup hrhs]
  | sibling =>
    rw [StandsIn, SpansRelated, lastParent_of_nodup hnodup hlhs, lastParent_of_nodup hnodup hrhs]

theorem relatedSpans_nil_right (op : StructuralOp) (m : FxHashMap SpanId (Span Spur F64))
    (lhs : List MatchedSpan) : relatedSpans op m lhs [] = [] :=
  List.flatMap_eq_nil_iff.mpr fun _ _ => rfl

/-- The first of the related spans with an id is the first one on the right with the id. -/
theorem find?_relatedSpans (op : StructuralOp) (m : FxHashMap SpanId (Span Spur F64))
    (lhs rhs : List MatchedSpan) (id : SpanId) (span : MatchedSpan) :
    ((relatedSpans op m lhs rhs).find? fun span => decide (span.spanId = id)) = some span ↔
      (∃ lhsSpan ∈ lhs, related op lhsSpan.spanId id m = true) ∧
        (rhs.find? fun span => decide (span.spanId = id)) = some span := by
  have hone : ∀ lhsSpan : MatchedSpan,
      (rhs.filter fun rhsSpan => related op lhsSpan.spanId rhsSpan.spanId m).find?
        (fun span => decide (span.spanId = id)) =
      if related op lhsSpan.spanId id m then rhs.find? fun span => decide (span.spanId = id)
      else none := by
    intro lhsSpan
    rw [List.find?_filter]
    split
    · next hrelated =>
      refine List.find?_congr fun rhsSpan _ => ?_
      by_cases hid : rhsSpan.spanId = id
      · simp [hid, hrelated]
      · simp [hid]
    · next hrelated =>
      refine List.find?_eq_none.mpr fun rhsSpan _ => ?_
      by_cases hid : rhsSpan.spanId = id
      · simp [hid, hrelated]
      · simp [hid]
  induction lhs with
  | nil => simp [relatedSpans]
  | cons lhsSpan lhs ih =>
    have hcons : relatedSpans op m (lhsSpan :: lhs) rhs =
        (rhs.filter fun rhsSpan => related op lhsSpan.spanId rhsSpan.spanId m) ++
          relatedSpans op m lhs rhs := List.flatMap_cons
    rw [hcons, List.find?_append, hone]
    by_cases hrelated : related op lhsSpan.spanId id m = true
    · rw [if_pos hrelated]
      have hany : ∃ l ∈ lhsSpan :: lhs, related op l.spanId id m = true :=
        ⟨lhsSpan, List.mem_cons_self, hrelated⟩
      rw [and_iff_right hany]
      cases hfind : rhs.find? fun span => decide (span.spanId = id) with
      | some _ => rw [Option.some_or]
      | none =>
        rw [Option.none_or]
        refine iff_of_false (fun hsome => ?_) (by simp)
        exact absurd ((ih.mp hsome).2.symm.trans hfind) (by simp)
    · rw [if_neg hrelated, Option.none_or]
      refine ih.trans (and_congr_left fun _ => ?_)
      simp [hrelated]

/-- **What is kept of the related spans**: of each id on the right that stands in the relation, the
first span. -/
theorem mem_dedupByKey_relatedSpans (op : StructuralOp) (m : FxHashMap SpanId (Span Spur F64))
    (lhs rhs : List MatchedSpan) (span : MatchedSpan) :
    span ∈ ((relatedSpans op m lhs rhs).sortByKey fun span => spanIdKey span.spanId).dedupByKey
        MatchedSpan.spanId ↔
      (∃ lhsSpan ∈ lhs, related op lhsSpan.spanId span.spanId m = true) ∧
        (rhs.find? fun r => decide (r.spanId = span.spanId)) = some span :=
  (List.mem_dedupByKey_sortByKey (byteValues_injective 8)).trans
    (find?_relatedSpans op m lhs rhs span.spanId span)

end Relations

/-! ### Results by trace -/

/-- Each trace occurs once, in order. -/
def Ordered (results : List TraceResult) : Prop :=
  results.Pairwise fun a b => TraceStore.byTraceId a < TraceStore.byTraceId b

/-- What is reported for a trace. -/
def resultOf (results : List TraceResult) (t : TraceId) : Option TraceResult :=
  results.find? fun result => decide (result.traceId = t)

/-- The spans that are reported for a trace. -/
def matchedIn (results : List TraceResult) (t : TraceId) : List MatchedSpan :=
  ((resultOf results t).map TraceResult.matchedSpans).getD []

theorem Ordered.pairwise_ne {results : List TraceResult} (h : Ordered results) :
    results.Pairwise fun a b => a.traceId ≠ b.traceId :=
  h.imp fun hlt heq => hlt.ne (congrArg (fun t : TraceId => t.toList.map UInt8.toNat) heq)

theorem Ordered.resultOf_eq_some_iff {results : List TraceResult} (h : Ordered results)
    {t : TraceId} {result : TraceResult} :
    resultOf results t = some result ↔ result ∈ results ∧ result.traceId = t :=
  List.find?_eq_some_iff_of_pairwise h.pairwise_ne

theorem Ordered.lookup_byTrace {results : List TraceResult} (h : Ordered results) (t : TraceId) :
    (TraceStore.byTrace results).lookup t = resultOf results t := by
  have hrev : results.reverse.Pairwise fun a b => a.traceId ≠ b.traceId :=
    List.pairwise_reverse.mpr (h.pairwise_ne.imp Ne.symm)
  rw [TraceStore.byTrace, Finmap.lookup_foldl_insert TraceResult.traceId fun result => result,
    Option.map_id', Finmap.lookup_empty, Option.or_none]
  refine Option.ext fun result => ?_
  rw [List.find?_eq_some_iff_of_pairwise hrev, h.resultOf_eq_some_iff, List.mem_reverse]

namespace TraceStore

variable {Rodeo Spur F64 : Type}

theorem traceId_of_structuralOf {s : TraceStore Rodeo Spur F64} {op : StructuralOp}
    {rhsByTrace : FxHashMap TraceId TraceResult} {lhsResult result : TraceResult}
    (h : s.structuralOf op rhsByTrace lhsResult = some result) :
    result.traceId = lhsResult.traceId := by
  rw [structuralOf] at h
  split at h
  · dsimp only at h
    split at h
    · exact absurd h (by simp)
    · exact (Option.some.inj h) ▸ rfl
  · exact absurd h (by simp)

theorem ordered_evalStructural {s : TraceStore Rodeo Spur F64} {op : StructuralOp}
    {lhsResults rhsResults : List TraceResult} (h : Ordered lhsResults) :
    Ordered (s.evalStructural op lhsResults rhsResults) := by
  refine List.pairwise_filterMap.mpr (h.imp fun hlt result hresult result' hresult' => ?_)
  rw [byTraceId, byTraceId, traceId_of_structuralOf hresult, traceId_of_structuralOf hresult']
  exact hlt

/-- What a structural query reports for a trace comes from what its operands do. -/
theorem resultOf_evalStructural {s : TraceStore Rodeo Spur F64} {op : StructuralOp}
    {lhsResults rhsResults : List TraceResult} (h : Ordered lhsResults) (t : TraceId) :
    resultOf (s.evalStructural op lhsResults rhsResults) t =
      (resultOf lhsResults t).bind (s.structuralOf op (byTrace rhsResults)) := by
  refine Option.ext fun result => ?_
  rw [(ordered_evalStructural h).resultOf_eq_some_iff, evalStructural, List.mem_filterMap,
    Option.bind_eq_some_iff]
  constructor
  · rintro ⟨⟨lhsResult, hmem, hresult⟩, rfl⟩
    exact ⟨lhsResult, h.resultOf_eq_some_iff.mpr ⟨hmem, (traceId_of_structuralOf hresult).symm⟩,
      hresult⟩
  · rintro ⟨lhsResult, hlhs, hresult⟩
    obtain ⟨hmem, rfl⟩ := h.resultOf_eq_some_iff.mp hlhs
    exact ⟨⟨lhsResult, hmem, hresult⟩, traceId_of_structuralOf hresult⟩

variable [LinearOrder Spur] [Interner Rodeo Spur] [FloatOps F64]

omit [LinearOrder Spur] in
/-- A selector reports each trace once, in order. -/
theorem ordered_sortByKey_scan (regexNew : String → Option (String → Bool))
    (s : TraceStore Rodeo Spur F64) (selector : SpanSelector F64) {ts : List TraceId}
    (hts : ts.Nodup) : Ordered ((ts.filterMap (s.scan regexNew selector)).sortByKey byTraceId) := by
  have hne : (ts.filterMap (s.scan regexNew selector)).Pairwise
      fun a b => a.traceId ≠ b.traceId := by
    refine List.pairwise_filterMap.mpr (hts.imp ?_)
    intro t t' hne result hresult result' hresult'
    rwa [(exists_match_of_scan hresult).1, (exists_match_of_scan hresult').1]
  have hchain := (((List.sortByKey_perm byTraceId _).pairwise_iff fun {_ _} h => h.symm).mpr
    hne).isChain
  have hsorted : List.SortedBy (fun a : TraceResult =>
      (fun id : TraceId => id.toList.map UInt8.toNat) a.traceId)
        ((ts.filterMap (s.scan regexNew selector)).sortByKey byTraceId) :=
    List.sortedBy_sortByKey byTraceId _
  have hlt := hsorted.pairwise_lt (byteValues_injective 16) hchain
  exact hlt

/-- **Every query reports each trace once**, in order. -/
theorem ordered_evaluateTraceql (regexNew : String → Option (String → Bool))
    (it : IterOrder TraceId) (s : TraceStore Rodeo Spur F64) (expr : TraceQLExpr F64) :
    Ordered (s.evaluateTraceql regexNew it expr) := by
  induction expr with
  | spanSelector selector => exact ordered_sortByKey_scan regexNew s selector (nodup_tracesToScan it s _)
  | structural op lhs rhs ihl _ => exact ordered_evalStructural ihl
  | pipeline inner stages ih =>
    rw [evaluateTraceql]
    generalize s.evaluateTraceql regexNew it inner = results at ih ⊢
    induction stages generalizing results with
    | nil => exact ih
    | cons stage stages ih' => exact ih' _ (ih.sublist List.filter_sublist)

/-! ### Selectors -/

/-- A stored span matches a selector. -/
def selects (regexNew : String → Option (String → Bool)) (s : TraceStore Rodeo Spur F64)
    (selector : SpanSelector F64) (span : Span Spur F64) : Bool :=
  s.spanMatchesConditions span selector.conditions selector.logicalOps
    (precompileRegexes regexNew selector.conditions)

omit [LinearOrder Spur] in
/-- What a selector reports for a trace, over all traces. -/
theorem resultOf_scanAllTraces (regexNew : String → Option (String → Bool))
    (it : IterOrder TraceId) (s : TraceStore Rodeo Spur F64) (selector : SpanSelector F64)
    (t : TraceId) :
    resultOf (s.scanAllTraces regexNew it selector) t = s.scan regexNew selector t := by
  refine Option.ext fun result => ?_
  rw [scanAllTraces,
    (ordered_sortByKey_scan regexNew s selector (it.nodup_keys s.traces)).resultOf_eq_some_iff,
    List.mem_sortByKey, List.mem_filterMap]
  constructor
  · rintro ⟨⟨t', -, hscan⟩, rfl⟩
    rwa [(exists_match_of_scan hscan).1]
  · intro hscan
    refine ⟨⟨t, IterOrder.mem_keys.mpr ?_, hscan⟩, (exists_match_of_scan hscan).1⟩
    by_contra ht
    rw [scan, Finmap.lookup_eq_none.mpr ht] at hscan
    exact absurd hscan (by simp)

omit [LinearOrder Spur] in
/-- The spans that a selector reports for a trace. -/
theorem matchedSpans_scan (regexNew : String → Option (String → Bool))
    (s : TraceStore Rodeo Spur F64) (selector : SpanSelector F64) (t : TraceId) :
    ((s.scan regexNew selector t).map TraceResult.matchedSpans).getD [] =
      ((spansOf s.traces t).filter (s.selects regexNew selector)).map s.spanToMatched := by
  rw [scan, spansOf]
  cases s.traces.lookup t with
  | none => rfl
  | some spans =>
    have hfilter : (spans.filter fun span => s.spanMatchesConditions span selector.conditions
        selector.logicalOps (precompileRegexes regexNew selector.conditions)) =
          spans.filter (s.selects regexNew selector) := rfl
    dsimp only
    rw [hfilter, Option.getD_some]
    split
    · next hempty =>
      rw [List.isEmpty_iff.mp hempty]
      rfl
    · rfl

/-! ### Structural queries -/

omit [LinearOrder Spur] [Interner Rodeo Spur] [FloatOps F64] in
/-- **What is reported for a trace**, given what the operands report. -/
theorem matchedIn_evalStructural {s : TraceStore Rodeo Spur F64} {op : StructuralOp}
    {lhsResults rhsResults : List TraceResult} (hlhs : Ordered lhsResults)
    (hrhs : Ordered rhsResults) (hstored : ∀ result ∈ lhsResults, result.traceId ∈ s.traces)
    (t : TraceId) :
    matchedIn (s.evalStructural op lhsResults rhsResults) t =
      ((relatedSpans op (spanMap (spansOf s.traces t)) (matchedIn lhsResults t)
        (matchedIn rhsResults t)).sortByKey fun span => spanIdKey span.spanId).dedupByKey
          MatchedSpan.spanId := by
  rw [matchedIn, resultOf_evalStructural hlhs, matchedIn, matchedIn]
  cases hl : resultOf lhsResults t with
  | none => rfl
  | some lhsResult =>
    obtain ⟨hmem, rfl⟩ := hlhs.resultOf_eq_some_iff.mp hl
    obtain ⟨spans, hspans⟩ := Finmap.mem_iff.mp (hstored lhsResult hmem)
    rw [Option.bind_some, structuralOf, hrhs.lookup_byTrace, spansOf, hspans]
    cases resultOf rhsResults lhsResult.traceId with
    | none =>
      show [] = List.dedupByKey _ (List.sortByKey _ (relatedSpans op _ _ []))
      rw [relatedSpans_nil_right]
      rfl
    | some rhsResult =>
      simp only [Option.map_some, Option.getD_some]
      split
      · next hempty =>
        rw [List.isEmpty_iff.mp hempty]
        rfl
      · rfl

/-- **What a structural query of selectors computes**, in terms of the stored spans of a trace. -/
theorem matchedIn_structural {s : TraceStore Rodeo Spur F64} (h : s.Invariant)
    (hreadable : s.AllReadable) (regexNew : String → Option (String → Bool))
    (it : IterOrder TraceId) (op : StructuralOp) (lhs rhs : SpanSelector F64) (t : TraceId) :
    let matched := fun selector : SpanSelector F64 =>
      ((spansOf s.traces t).filter (s.selects regexNew selector)).map s.spanToMatched
    matchedIn (s.evaluateTraceql regexNew it
        (.structural op (.spanSelector lhs) (.spanSelector rhs))) t =
      ((relatedSpans op (spanMap (spansOf s.traces t)) (matched lhs)
        (matched rhs)).sortByKey fun span => spanIdKey span.spanId).dedupByKey
          MatchedSpan.spanId := by
  intro matched
  have hordered := fun selector => ordered_evaluateTraceql regexNew it s (.spanSelector selector)
  have hresult : ∀ selector t, resultOf (s.evaluateTraceql regexNew it (.spanSelector selector)) t =
      s.scan regexNew selector t := fun selector t => by
    rw [evaluateTraceql, evalSpanSelector_eq h hreadable regexNew it it, resultOf_scanAllTraces]
  have hmatched : ∀ selector,
      matchedIn (s.evaluateTraceql regexNew it (.spanSelector selector)) t = matched selector :=
    fun selector => by rw [matchedIn, hresult, matchedSpans_scan]
  have hstored : ∀ result ∈ s.evaluateTraceql regexNew it (.spanSelector lhs),
      result.traceId ∈ s.traces := by
    intro result hmem
    have hscan := (hordered lhs).resultOf_eq_some_iff.mpr ⟨hmem, rfl⟩
    rw [hresult] at hscan
    by_contra ht
    rw [scan, Finmap.lookup_eq_none.mpr ht] at hscan
    exact absurd hscan (by simp)
  rw [evaluateTraceql, matchedIn_evalStructural (hordered lhs) (hordered rhs) hstored, hmatched,
    hmatched]

/-- **The ids that are reported** of a structural query: those of the spans that match on the right,
if they stand in the relation to one that matches on the left, each with its first span. -/
theorem mem_matchedIn_structural {s : TraceStore Rodeo Spur F64} (h : s.Invariant)
    (hreadable : s.AllReadable) (regexNew : String → Option (String → Bool))
    (it : IterOrder TraceId) (op : StructuralOp) (lhs rhs : SpanSelector F64) (t : TraceId)
    (span : MatchedSpan) :
    span ∈ matchedIn (s.evaluateTraceql regexNew it
        (.structural op (.spanSelector lhs) (.spanSelector rhs))) t ↔
      (∃ lhsSpan ∈ spansOf s.traces t, s.selects regexNew lhs lhsSpan = true ∧
        StandsIn op (lastParent (spansOf s.traces t)) lhsSpan.spanId span.spanId) ∧
      ∃ rhsSpan, (((spansOf s.traces t).filter (s.selects regexNew rhs)).find? fun r =>
        decide (r.spanId = span.spanId)) = some rhsSpan ∧ s.spanToMatched rhsSpan = span := by
  rw [matchedIn_structural h hreadable, mem_dedupByKey_relatedSpans, List.find?_map,
    Option.map_eq_some_iff]
  refine and_congr ?_ Iff.rfl
  simp only [List.mem_map, List.mem_filter, related_iff]
  constructor
  · rintro ⟨_, ⟨lhsSpan, ⟨hmem, hselects⟩, rfl⟩, hstands⟩
    exact ⟨lhsSpan, hmem, hselects, hstands⟩
  · rintro ⟨lhsSpan, hmem, hselects, hstands⟩
    exact ⟨_, ⟨lhsSpan, ⟨hmem, hselects⟩, rfl⟩, hstands⟩

/-- Each id is reported once, in order. -/
theorem pairwise_matchedIn_structural {s : TraceStore Rodeo Spur F64} (h : s.Invariant)
    (hreadable : s.AllReadable) (regexNew : String → Option (String → Bool))
    (it : IterOrder TraceId) (op : StructuralOp) (lhs rhs : SpanSelector F64) (t : TraceId) :
    (matchedIn (s.evaluateTraceql regexNew it
      (.structural op (.spanSelector lhs) (.spanSelector rhs))) t).Pairwise
        fun a b => spanIdKey a.spanId < spanIdKey b.spanId := by
  rw [matchedIn_structural h hreadable]
  exact List.pairwise_lt_dedupByKey (byteValues_injective 8) (List.sortedBy_sortByKey _ _)

omit [LinearOrder Spur] [Interner Rodeo Spur] [FloatOps F64] in
/-- A trace that is reported comes with spans. -/
theorem matchedSpans_ne_nil_of_evalStructural {s : TraceStore Rodeo Spur F64} {op : StructuralOp}
    {lhsResults rhsResults : List TraceResult} {result : TraceResult}
    (h : result ∈ s.evalStructural op lhsResults rhsResults) : result.matchedSpans ≠ [] := by
  obtain ⟨lhsResult, -, hresult⟩ := List.mem_filterMap.mp h
  rw [structuralOf] at hresult
  split at hresult
  · dsimp only at hresult
    split at hresult
    · exact absurd hresult (by simp)
    · next hmatched =>
      obtain rfl := Option.some.inj hresult
      intro hnil
      refine hmatched (List.isEmpty_iff.mpr (List.eq_nil_of_length_eq_zero ?_))
      rw [← List.length_sortByKey fun span => spanIdKey span.spanId, (List.destutter_eq_nil _).mp hnil,
        List.length_nil]
  · exact absurd hresult (by simp)

open Classical in
/-- The stored spans of a trace that match on the right and stand in the relation to one that matches
on the left. -/
noncomputable def relatedOnRight (regexNew : String → Option (String → Bool))
    (s : TraceStore Rodeo Spur F64) (op : StructuralOp) (lhs rhs : SpanSelector F64) (t : TraceId) :
    List (Span Spur F64) :=
  (spansOf s.traces t).filter fun rhsSpan => decide (s.selects regexNew rhs rhsSpan = true ∧
    ∃ lhsSpan ∈ spansOf s.traces t, s.selects regexNew lhs lhsSpan = true ∧
      SpansRelated op (spansOf s.traces t) lhsSpan rhsSpan)

/-- Exactly these spans are reported for the trace, each stored span once. -/
def ReportsExactly (regexNew : String → Option (String → Bool)) (it : IterOrder TraceId)
    (s : TraceStore Rodeo Spur F64) (op : StructuralOp) (lhs rhs : SpanSelector F64)
    (t : TraceId) : Prop :=
  (matchedIn (s.evaluateTraceql regexNew it
    (.structural op (.spanSelector lhs) (.spanSelector rhs))) t).Perm
      ((s.relatedOnRight regexNew op lhs rhs t).map s.spanToMatched)

/-- **Where the ids of a trace are distinct**, exactly the related spans are reported. -/
theorem reportsExactly_of_nodup {s : TraceStore Rodeo Spur F64} (h : s.Invariant)
    (hreadable : s.AllReadable) (regexNew : String → Option (String → Bool))
    (it : IterOrder TraceId) (op : StructuralOp) (lhs rhs : SpanSelector F64) {t : TraceId}
    (hnodup : ((spansOf s.traces t).map Span.spanId).Nodup) :
    s.ReportsExactly regexNew it op lhs rhs t := by
  have hids : ∀ l : List (Span Spur F64), (l.map s.spanToMatched).map MatchedSpan.spanId =
      l.map Span.spanId := fun l => by rw [List.map_map]; rfl
  have hexpected : ((s.relatedOnRight regexNew op lhs rhs t).map s.spanToMatched).Nodup := by
    refine List.Nodup.of_map MatchedSpan.spanId ?_
    rw [hids]
    exact hnodup.sublist (List.filter_sublist.map Span.spanId)
  have hmatched := (pairwise_matchedIn_structural h hreadable regexNew it op lhs rhs t).imp
    fun {a b} hlt (heq : a = b) => hlt.ne (congrArg (fun span => spanIdKey span.spanId) heq)
  refine (List.perm_ext_iff_of_nodup hmatched hexpected).mpr fun span => ?_
  have hne : ((spansOf s.traces t).filter (s.selects regexNew rhs)).Pairwise
      fun a b => a.spanId ≠ b.spanId :=
    (List.pairwise_map.mp hnodup).sublist List.filter_sublist
  rw [mem_matchedIn_structural h hreadable, List.mem_map]
  simp only [List.find?_eq_some_iff_of_pairwise hne, relatedOnRight, List.mem_filter,
    decide_eq_true_eq]
  constructor
  · rintro ⟨⟨lhsSpan, hlhs, hselects, hstands⟩, rhsSpan, ⟨⟨hrhs, hmatch⟩, hid⟩, rfl⟩
    exact ⟨rhsSpan, ⟨hrhs, hmatch, lhsSpan, hlhs, hselects,
      (standsIn_iff_spansRelated hnodup op hlhs hrhs).mp hstands⟩, rfl⟩
  · rintro ⟨rhsSpan, ⟨hrhs, hmatch, lhsSpan, hlhs, hselects, hrelated⟩, rfl⟩
    exact ⟨⟨lhsSpan, hlhs, hselects,
      (standsIn_iff_spansRelated hnodup op hlhs hrhs).mpr hrelated⟩, rhsSpan,
      ⟨⟨hrhs, hmatch⟩, rfl⟩, rfl⟩

/-- **What a structural query reports** in every store reached by ingests and removals. Each trace is
reported at most once, in order, and never without spans. Each span id is reported at most once for a
trace: exactly those of the spans that match on the right which stand in the relation to the id of a
span that matches on the left, with the first span that matches on the right. Where the ids of the
trace are distinct, these are exactly the stored spans that match on the right and stand in the
relation to one that matches on the left, each reported once. -/
theorem evaluateTraceql_structural_exec (calls : List (Call F64))
    (regexNew : String → Option (String → Bool)) (it : IterOrder TraceId) (op : StructuralOp)
    (lhs rhs : SpanSelector F64) :
    let s := Run.exec call (new : TraceStore Rodeo Spur F64) calls
    let results := s.evaluateTraceql regexNew it
      (.structural op (.spanSelector lhs) (.spanSelector rhs))
    Ordered results ∧ (∀ result ∈ results, result.matchedSpans ≠ []) ∧ ∀ t,
      ((matchedIn results t).Pairwise fun a b => spanIdKey a.spanId < spanIdKey b.spanId) ∧
      (∀ span, span ∈ matchedIn results t ↔
        (∃ lhsSpan ∈ spansOf s.traces t, s.selects regexNew lhs lhsSpan = true ∧
          StandsIn op (lastParent (spansOf s.traces t)) lhsSpan.spanId span.spanId) ∧
        ∃ rhsSpan, (((spansOf s.traces t).filter (s.selects regexNew rhs)).find? fun r =>
          decide (r.spanId = span.spanId)) = some rhsSpan ∧ s.spanToMatched rhsSpan = span) ∧
      (((spansOf s.traces t).map Span.spanId).Nodup →
        s.ReportsExactly regexNew it op lhs rhs t) := by
  intro s results
  obtain ⟨h, hreadable⟩ : s.Invariant ∧ s.AllReadable := readable_exec calls
  refine ⟨ordered_evaluateTraceql regexNew it s _,
    fun result hresult => matchedSpans_ne_nil_of_evalStructural hresult, fun t => ⟨?_, ?_, ?_⟩⟩
  · exact pairwise_matchedIn_structural h hreadable regexNew it op lhs rhs t
  · exact mem_matchedIn_structural h hreadable regexNew it op lhs rhs t
  · exact reportsExactly_of_nodup h hreadable regexNew it op lhs rhs

end TraceStore

/-! ### A span that is sent twice -/

/-- A store with a root, a child of it that was sent twice, and one that was sent again without its
parent. -/
def twiceStore : TraceStore VecRodeo ℕ ℤ :=
  let root := sentSpan (List.replicate 8 1) []
  let child := sentSpan (List.replicate 8 2) (List.replicate 8 1)
  let other := sentSpan (List.replicate 8 3)
  receivedStore [root, child, child, other (List.replicate 8 1), other []]

/-- The selector of all spans. -/
def anySpan : SpanSelector ℤ := ⟨[], [], List.length_nil⟩

/-- Three stored spans are children of the root. -/
theorem relatedOnRight_twiceStore :
    (twiceStore.relatedOnRight (fun _ => none) .child anySpan anySpan
      (Vector.replicate 16 1)).map Span.spanId =
        [Vector.replicate 8 2, Vector.replicate 8 2, Vector.replicate 8 3] := by
  have hparents : ∀ span ∈ TraceStore.spansOf twiceStore.traces (Vector.replicate 16 1),
      span.parentSpanId = none ∨ span.parentSpanId = some (Vector.replicate 8 1) := by decide
  have hroot : ∃ span ∈ TraceStore.spansOf twiceStore.traces (Vector.replicate 16 1),
      span.spanId = Vector.replicate 8 1 := by decide
  have hchildren : twiceStore.relatedOnRight (fun _ => none) .child anySpan anySpan
      (Vector.replicate 16 1) =
        (TraceStore.spansOf twiceStore.traces (Vector.replicate 16 1)).filter fun span =>
          decide (span.parentSpanId = some (Vector.replicate 8 1)) := by
    refine List.filter_congr fun span hspan => decide_eq_decide.mpr ⟨?_, ?_⟩
    · rintro ⟨-, lhsSpan, -, -, hrelated⟩
      have hrelated : span.parentSpanId = some lhsSpan.spanId := hrelated
      exact (hparents span hspan).resolve_left fun hnone =>
        absurd (hnone.symm.trans hrelated) (by simp)
    · intro hparent
      obtain ⟨root, hroot, hid⟩ := hroot
      exact ⟨rfl, root, hroot, rfl, hparent.trans (congrArg some hid.symm)⟩
  rw [hchildren]
  decide

/-- One span is reported: the other child has lost its parent. -/
theorem matchedIn_twiceStore (it : IterOrder TraceId) :
    (matchedIn (twiceStore.evaluateTraceql (fun _ => none) it
      (.structural .child (.spanSelector anySpan) (.spanSelector anySpan)))
        (Vector.replicate 16 1)).map MatchedSpan.spanId = [Vector.replicate 8 2] := by
  have hreadable : twiceStore.Invariant ∧ twiceStore.AllReadable := TraceStore.readable_exec _
  rw [TraceStore.matchedIn_structural hreadable.1 hreadable.2]
  decide

/-- **Spans that are sent twice** are not reported as they are stored. -/
theorem not_reportsExactly_sentTwice :
    ¬ ∀ (calls : List (TraceStore.Call ℤ)) (regexNew : String → Option (String → Bool))
      (it : IterOrder TraceId) (op : StructuralOp) (lhs rhs : SpanSelector ℤ) (t : TraceId),
      (Run.exec TraceStore.call (TraceStore.new : TraceStore VecRodeo ℕ ℤ) calls).ReportsExactly
        regexNew it op lhs rhs t := by
  intro hall
  let it : IterOrder TraceId := ⟨Finset.toList, Finset.nodup_toList, Finset.mem_toList⟩
  have hperm : twiceStore.ReportsExactly (fun _ => none) it .child anySpan anySpan
      (Vector.replicate 16 1) := hall _ _ it _ _ _ _
  have hids : List.Perm _ ((twiceStore.relatedOnRight (fun _ => none) .child anySpan anySpan
      (Vector.replicate 16 1)).map Span.spanId) :=
    (hperm.map MatchedSpan.spanId).trans (List.Perm.of_eq List.map_map)
  rw [matchedIn_twiceStore, relatedOnRight_twiceStore] at hids
  exact absurd hids.length_eq (by decide)

end Aniani
