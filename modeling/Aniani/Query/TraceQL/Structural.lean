import Aniani.ForMathlib.DedupByKey
import Aniani.ForMathlib.WhileLoop
import Aniani.Query.TraceQL.Parser
import Mathlib.Logic.Relation

/-!
# Structural queries

A structural query evaluates both of its operands and keeps, trace by trace, the spans on the right
that stand in a relation to a span on the left. The relations are those of span ids, read off a map
from the id of a span to the span. Nothing is known of the parents in the map: the walk to the
ancestors meets spans that are not stored, spans that are their own parents, and cycles.

## Main definitions

* `spanMap`, `parentIn` — the map of a trace
* `isChild`, `isSibling`, `isDescendant` — the relations
* `TraceStore.evalStructural`, `TraceStore.evaluateTraceql`

## Main results

* `isDescendantWithin_spec` — the walk to the ancestors ends, and finds them all
* `isDescendant_iff` — what it says
-/

namespace Aniani

open TraceQL (StructuralOp PipelineStage TraceQLExpr)

section Relations

variable {Spur F64 : Type}

/-- The `span_map` of a trace: of two spans with one id the later one. -/
def spanMap (spans : List (Span Spur F64)) : FxHashMap SpanId (Span Spur F64) :=
  spans.foldl (fun m span => m.insert span.spanId span) ∅

/-- The parent of a stored span. -/
def parentIn (spanMap : FxHashMap SpanId (Span Spur F64)) (id : SpanId) : Option SpanId :=
  (spanMap.lookup id).bind Span.parentSpanId

/-- One step from a stored span to its parent. -/
def ParentStep (spanMap : FxHashMap SpanId (Span Spur F64)) (id parentId : SpanId) : Prop :=
  parentIn spanMap id = some parentId

/-- `is_child`. -/
def isChild (parentId childId : SpanId) (spanMap : FxHashMap SpanId (Span Spur F64)) : Bool :=
  decide (parentIn spanMap childId = some parentId)

/-- `is_sibling`. -/
def isSibling (aId bId : SpanId) (spanMap : FxHashMap SpanId (Span Spur F64)) : Bool :=
  if aId = bId then false else decide (parentIn spanMap aId = parentIn spanMap bId)

/-- The state of the loop of `is_descendant`: the current id and those visited before it. -/
structure Walk where
  currentId : SpanId
  visited : FxHashSet SpanId

/-- The body of the loop of `is_descendant`. -/
def descendantBody (ancestorSpanId : SpanId) (spanMap : FxHashMap SpanId (Span Spur F64))
    (w : Walk) : Walk ⊕ Bool :=
  if w.currentId = ancestorSpanId then .inr false
  else
    match spanMap.lookup w.currentId with
    | none => .inr false
    | some span =>
      match span.parentSpanId with
      | none => .inr false
      | some parentId =>
        if parentId = ancestorSpanId then .inr true
        else if parentId ∈ w.visited then .inr false
        else .inl ⟨parentId, insert w.currentId w.visited⟩

/-- `is_descendant`, for at most so many turns of its loop. -/
def isDescendantWithin (turns : ℕ) (ancestorSpanId descendantSpanId : SpanId)
    (spanMap : FxHashMap SpanId (Span Spur F64)) : Option Bool :=
  Loop.run (descendantBody ancestorSpanId spanMap) turns ⟨descendantSpanId, ∅⟩

/-- `is_descendant`. One turn for each stored span and one more are enough. -/
def isDescendant (ancestorSpanId descendantSpanId : SpanId)
    (spanMap : FxHashMap SpanId (Span Spur F64)) : Bool :=
  (isDescendantWithin (spanMap.keys.card + 1) ancestorSpanId descendantSpanId spanMap).getD false

/-! ### The walk to the ancestors -/

/-- What holds of the loop of `is_descendant`: the ids that were visited lead one to the next up to
the current one, and the ancestor is not among them. -/
structure Walk.Inv (spanMap : FxHashMap SpanId (Span Spur F64)) (a d : SpanId) (w : Walk) :
    Prop where
  starts : d ∈ insert w.currentId w.visited
  goesOn : ∀ v ∈ w.visited, ∃ p ∈ insert w.currentId w.visited, ParentStep spanMap v p
  avoids : ∀ v ∈ w.visited, v ≠ a
  current : w.currentId = a → d = a
  reaches : Relation.ReflTransGen (ParentStep spanMap) d w.currentId

theorem Walk.inv_start (spanMap : FxHashMap SpanId (Span Spur F64)) (a d : SpanId) :
    Walk.Inv spanMap a d ⟨d, ∅⟩ where
  starts := Finset.mem_insert_self d ∅
  goesOn v hv := absurd hv (Finset.notMem_empty v)
  avoids v hv := absurd hv (Finset.notMem_empty v)
  current := id
  reaches := .refl

/-- Where the steps do not lead out of a set, they do not lead to what is not in it. -/
theorem not_transGen_of_closed {α : Type} {r : α → α → Prop} {S : Finset α}
    (hclosed : ∀ v ∈ S, ∀ p, r v p → p ∈ S) {a d : α} (hd : d ∈ S) (ha : a ∉ S) :
    ¬ Relation.TransGen r d a := by
  intro h
  have hstays : ∀ {x}, Relation.TransGen r d x → x ∈ S := by
    intro x hx
    induction hx with
    | single hstep => exact hclosed d hd _ hstep
    | tail _ hstep ih => exact hclosed _ ih _ hstep
  exact ha (hstays h)

/-- When the current span leads to no id that was not visited, the ancestor is out of reach. -/
theorem Walk.Inv.not_transGen {spanMap : FxHashMap SpanId (Span Spur F64)} {a d : SpanId} {w : Walk}
    (h : w.Inv spanMap a d) (hcurrent : w.currentId ≠ a)
    (hend : ∀ p, ParentStep spanMap w.currentId p → p ∈ w.visited) :
    ¬ Relation.TransGen (ParentStep spanMap) d a := by
  refine not_transGen_of_closed (S := insert w.currentId w.visited) ?_ h.starts ?_
  · intro v hv p hstep
    rcases Finset.mem_insert.mp hv with rfl | hv
    · exact Finset.mem_insert_of_mem (hend p hstep)
    · obtain ⟨q, hq, hvq⟩ := h.goesOn v hv
      obtain rfl := Option.some.inj (hvq.symm.trans hstep)
      exact hq
  · intro ha
    rcases Finset.mem_insert.mp ha with heq | hmem
    · exact hcurrent heq.symm
    · exact h.avoids a hmem rfl

/-- The descendant is not the ancestor once the current id is not. -/
theorem Walk.Inv.ne {spanMap : FxHashMap SpanId (Span Spur F64)} {a d : SpanId} {w : Walk}
    (h : w.Inv spanMap a d) (hcurrent : w.currentId ≠ a) : a ≠ d := by
  rcases Finset.mem_insert.mp h.starts with rfl | hd
  · exact hcurrent.symm
  · exact (h.avoids d hd).symm

/-- A turn that does not return takes the step to a parent that is neither the ancestor nor visited
before. -/
theorem step_of_descendantBody {spanMap : FxHashMap SpanId (Span Spur F64)} {a : SpanId}
    {w w' : Walk} (h : descendantBody a spanMap w = .inl w') :
    w.currentId ≠ a ∧ w.currentId ∈ spanMap ∧ ∃ p, ParentStep spanMap w.currentId p ∧ p ≠ a ∧
      p ∉ w.visited ∧ w' = ⟨p, insert w.currentId w.visited⟩ := by
  rw [descendantBody] at h
  split at h
  · exact absurd h (by simp)
  · next hcurrent =>
    split at h
    · exact absurd h (by simp)
    · next span hspan =>
      split at h
      · exact absurd h (by simp)
      · next p hp =>
        split at h
        · exact absurd h (by simp)
        · next hpa =>
          split at h
          · exact absurd h (by simp)
          · next hvisited =>
            refine ⟨hcurrent, Finmap.mem_iff.mpr ⟨span, hspan⟩, p, ?_, hpa, hvisited,
              (Sum.inl.inj h).symm⟩
            rw [ParentStep, parentIn, hspan, Option.bind_some, hp]

/-- What a turn that returns has found. -/
theorem found_of_descendantBody {spanMap : FxHashMap SpanId (Span Spur F64)} {a : SpanId}
    {w : Walk} {b : Bool} (h : descendantBody a spanMap w = .inr b) :
    (w.currentId = a ∧ b = false) ∨
    (w.currentId ≠ a ∧ ParentStep spanMap w.currentId a ∧ b = true) ∨
    (w.currentId ≠ a ∧ (∀ p, ParentStep spanMap w.currentId p → p ∈ w.visited) ∧ b = false) := by
  have hparent : parentIn spanMap w.currentId =
      (spanMap.lookup w.currentId).bind Span.parentSpanId := rfl
  rw [descendantBody] at h
  split at h
  · next hcurrent => exact .inl ⟨hcurrent, (Sum.inr.inj h).symm⟩
  · next hcurrent =>
    refine .inr ?_
    split at h
    · next hspan =>
      rw [hspan, Option.bind_none] at hparent
      exact .inr ⟨hcurrent, fun p hp => absurd (hparent.symm.trans hp) (by simp),
        (Sum.inr.inj h).symm⟩
    · next span hspan =>
      rw [hspan, Option.bind_some] at hparent
      split at h
      · next hp =>
        exact .inr ⟨hcurrent, fun p hp' => absurd (hp.symm.trans (hparent.symm.trans hp')) (by simp),
          (Sum.inr.inj h).symm⟩
      · next p hp =>
        rw [hp] at hparent
        split at h
        · next hpa => exact .inl ⟨hcurrent, hpa ▸ hparent, (Sum.inr.inj h).symm⟩
        · split at h
          · next hvisited =>
            refine .inr ⟨hcurrent, fun p' hp' => ?_, (Sum.inr.inj h).symm⟩
            exact Option.some.inj (hparent.symm.trans hp') ▸ hvisited
          · exact absurd h (by simp)

/-- **A turn** keeps the invariant and visits a stored span that was not visited before. -/
theorem Walk.Inv.step {spanMap : FxHashMap SpanId (Span Spur F64)} {a d : SpanId} {w w' : Walk}
    (h : w.Inv spanMap a d) (hbody : descendantBody a spanMap w = .inl w') :
    w'.Inv spanMap a d ∧
      (spanMap.keys \ w'.visited).card < (spanMap.keys \ w.visited).card := by
  obtain ⟨hcurrent, hstored, p, hstep, hpa, hvisited, rfl⟩ := step_of_descendantBody hbody
  have hnew : w.currentId ∉ w.visited := by
    -- a visited id leads to the current one or to a visited one, and `p` is neither
    intro hmem
    obtain ⟨q, hq, hq'⟩ := h.goesOn _ hmem
    obtain rfl := Option.some.inj (hstep.symm.trans hq')
    rcases Finset.mem_insert.mp hq with rfl | hq
    · exact hvisited hmem
    · exact hvisited hq
  constructor
  · constructor
    · exact Finset.mem_insert_of_mem h.starts
    · intro v hv
      rcases Finset.mem_insert.mp hv with rfl | hv
      · exact ⟨p, Finset.mem_insert_self _ _, hstep⟩
      · obtain ⟨q, hq, hvq⟩ := h.goesOn v hv
        exact ⟨q, Finset.mem_insert_of_mem hq, hvq⟩
    · intro v hv
      rcases Finset.mem_insert.mp hv with rfl | hv
      · exact hcurrent
      · exact h.avoids v hv
    · exact fun heq => absurd heq hpa
    · exact h.reaches.tail hstep
  · refine Finset.card_lt_card ((Finset.ssubset_iff_of_subset ?_).mpr ⟨w.currentId, ?_, ?_⟩)
    · exact Finset.sdiff_subset_sdiff (Finset.Subset.refl _) (Finset.subset_insert _ _)
    · exact Finset.mem_sdiff.mpr ⟨Finmap.mem_keys.mpr hstored, hnew⟩
    · exact fun hmem => (Finset.mem_sdiff.mp hmem).2 (Finset.mem_insert_self _ _)

/-- **A return** says whether the ancestor is another id in reach. -/
theorem Walk.Inv.result {spanMap : FxHashMap SpanId (Span Spur F64)} {a d : SpanId} {w : Walk}
    {b : Bool} (h : w.Inv spanMap a d) (hbody : descendantBody a spanMap w = .inr b) :
    b = true ↔ a ≠ d ∧ Relation.TransGen (ParentStep spanMap) d a := by
  rcases found_of_descendantBody hbody with
    ⟨hcurrent, rfl⟩ | ⟨hcurrent, hstep, rfl⟩ | ⟨hcurrent, hend, rfl⟩
  · exact iff_of_false (by simp) fun hne => hne.1 (h.current hcurrent).symm
  · exact iff_of_true rfl ⟨h.ne hcurrent, .tail' h.reaches hstep⟩
  · exact iff_of_false (by simp) fun hreach => h.not_transGen hcurrent hend hreach.2

/-- **The walk ends** within one turn for each stored span and one more, and finds the ancestors. -/
theorem isDescendantWithin_spec (spanMap : FxHashMap SpanId (Span Spur F64)) (a d : SpanId)
    {turns : ℕ} (hturns : spanMap.keys.card < turns) :
    ∃ b, isDescendantWithin turns a d spanMap = some b ∧
      (b = true ↔ a ≠ d ∧ Relation.TransGen (ParentStep spanMap) d a) := by
  refine Loop.run_spec (I := Walk.Inv spanMap a d)
    (μ := fun w => (spanMap.keys \ w.visited).card) (fun _ _ hw hbody => hw.step hbody)
    (fun _ _ hw hbody => hw.result hbody) (Walk.inv_start spanMap a d) ?_
  rwa [Finset.sdiff_empty]

/-- As many turns as are taken are enough. -/
theorem isDescendant_spec (spanMap : FxHashMap SpanId (Span Spur F64)) (a d : SpanId) :
    isDescendantWithin (spanMap.keys.card + 1) a d spanMap = some (isDescendant a d spanMap) ∧
      (isDescendant a d spanMap = true ↔
        a ≠ d ∧ Relation.TransGen (ParentStep spanMap) d a) := by
  obtain ⟨b, hb, hiff⟩ := isDescendantWithin_spec spanMap a d (Nat.lt_succ_self _)
  have hdef : isDescendant a d spanMap = b := by
    rw [isDescendant, hb]
    rfl
  exact hdef ▸ ⟨hb, hiff⟩

/-- **What `is_descendant` says**, whatever the parents in the map are, and that it comes to say
it. -/
theorem isDescendant_iff (spanMap : FxHashMap SpanId (Span Spur F64)) (a d : SpanId) :
    (∃ n, ∀ turns, n ≤ turns → isDescendantWithin turns a d spanMap =
      some (isDescendant a d spanMap)) ∧
    (isDescendant a d spanMap = true ↔
      a ≠ d ∧ Relation.TransGen (ParentStep spanMap) d a) := by
  obtain ⟨hreturns, hiff⟩ := isDescendant_spec spanMap a d
  exact ⟨⟨spanMap.keys.card + 1, fun turns hle => Loop.run_mono hle hreturns⟩, hiff⟩

end Relations

/-! ### Pipeline stages -/

/-- `compare_u64`. -/
def compareU64 (a : ℕ) (op : CompareOp) (b : ℕ) : Bool := compareOrdered a op b

/-- `compare_duration_ns`. -/
def compareDurationNs (a : ℤ) (op : CompareOp) (b : ℤ) : Bool := compareOrdered a op b

/-- The mean of some durations, cut off at the limits of an `i64`. -/
def avgDurationNs (durations : List ℤ) : ℤ :=
  max i64Min (min i64Max (durations.sum.tdiv durations.length))

/-- Whether a trace passes a pipeline stage. -/
def passesStage (stage : PipelineStage) (result : TraceResult) : Bool :=
  let durations := result.matchedSpans.map MatchedSpan.durationNs
  match stage with
  | .countFilter op value => compareU64 durations.length op value
  | .avgDuration op valueNs =>
    !durations.isEmpty && compareDurationNs (avgDurationNs durations) op valueNs
  | .maxDuration op valueNs =>
    !durations.isEmpty && compareDurationNs (durations.max?.getD 0) op valueNs
  | .minDuration op valueNs =>
    !durations.isEmpty && compareDurationNs (durations.min?.getD 0) op valueNs

/-- `apply_pipeline_stage`. -/
def applyPipelineStage (results : List TraceResult) (stage : PipelineStage) : List TraceResult :=
  results.filter (passesStage stage)

/-! ### Evaluation -/

/-- The order of span ids. -/
def spanIdKey (id : SpanId) : List ℕ := id.toList.map UInt8.toNat

/-- Whether two spans are related. -/
def related {Spur F64 : Type} (op : StructuralOp) (lhsId rhsId : SpanId)
    (spanMap : FxHashMap SpanId (Span Spur F64)) : Bool :=
  match op with
  | .descendant => isDescendant lhsId rhsId spanMap
  | .child => isChild lhsId rhsId spanMap
  | .sibling => isSibling lhsId rhsId spanMap

/-- The spans on the right that are related to one on the left, before they are sorted: a span as
often as it is related to one. -/
def relatedSpans {Spur F64 : Type} (op : StructuralOp)
    (spanMap : FxHashMap SpanId (Span Spur F64)) (lhs rhs : List MatchedSpan) : List MatchedSpan :=
  lhs.flatMap fun lhsSpan => rhs.filter fun rhsSpan =>
    related op lhsSpan.spanId rhsSpan.spanId spanMap

namespace TraceStore

variable {Rodeo Spur F64 : Type} [Interner Rodeo Spur]

/-- `rhs_by_trace`. -/
def byTrace (results : List TraceResult) : FxHashMap TraceId TraceResult :=
  results.foldl (fun m result => m.insert result.traceId result) ∅

/-- One turn of the outer loop of `eval_structural`. -/
def structuralOf (s : TraceStore Rodeo Spur F64) (op : StructuralOp)
    (rhsByTrace : FxHashMap TraceId TraceResult) (lhsResult : TraceResult) : Option TraceResult :=
  match rhsByTrace.lookup lhsResult.traceId, s.traces.lookup lhsResult.traceId with
  | some rhsResult, some traceSpans =>
    let matched := relatedSpans op (spanMap traceSpans) lhsResult.matchedSpans
      rhsResult.matchedSpans
    if matched.isEmpty then none
    else some ⟨lhsResult.traceId, (matched.sortByKey fun span => spanIdKey span.spanId).dedupByKey
      MatchedSpan.spanId⟩
  | _, _ => none

/-- `eval_structural`, given the results of the operands. -/
def evalStructural (s : TraceStore Rodeo Spur F64) (op : StructuralOp)
    (lhsResults rhsResults : List TraceResult) : List TraceResult :=
  lhsResults.filterMap (s.structuralOf op (byTrace rhsResults))

/-- `evaluate_traceql`. -/
def evaluateTraceql [DecidableEq Spur] [FloatOps F64]
    (regexNew : String → Option (String → Bool)) (it : IterOrder TraceId)
    (s : TraceStore Rodeo Spur F64) : TraceQLExpr F64 → List TraceResult
  | .spanSelector selector => s.evalSpanSelector regexNew it selector
  | .structural op lhs rhs =>
    s.evalStructural op (s.evaluateTraceql regexNew it lhs) (s.evaluateTraceql regexNew it rhs)
  | .pipeline inner stages =>
    stages.foldl applyPipelineStage (s.evaluateTraceql regexNew it inner)

end TraceStore

end Aniani
