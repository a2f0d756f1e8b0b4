import Aniani.ForMathlib.RoseTree
import Aniani.Query.Text
import Aniani.Query.TraceQL.Readable
import Mathlib.Data.Fintype.Card

/-!
# The `get_trace` tool

The tool shows one trace as a tree. Each span stands under the spans that have its parent's id, down to
a limit of the depth; a span without a parent in the trace is a root.

The children of a span are found by its id. Where two spans of the tree have the same id, as after a
retried export, the children of that id stand under both, and what is below them is repeated as well.

## Main definitions

* `SpanNode`, `TraceTree`, `buildTraceTree`
* `spanForest` — the tree, with the places of the spans in the trace
* `ReachesRoot` — chains of parents
* `EachSpanOnce`

## Main results

* `buildTraceTree_eq` — the tool shows the spans of `spanForest`
* `eachSpanOnce_iff`
-/

namespace Aniani

namespace Mcp

variable {Rodeo Spur F64 : Type}

/-! ### The tool -/

/-- A span of the tree. -/
structure SpanNode (F64 : Type) where
  spanId : String
  name : String
  service : String
  startTimeNs : ℤ
  durationMs : F64
  status : String
  /-- The description of an error. -/
  statusMessage : Option String
  /-- Attributes, when they are asked for. -/
  attributes : List (String × String)
  children : List (SpanNode F64)

/-- One trace as a tree. -/
structure TraceTree (F64 : Type) where
  traceId : String
  roots : List (SpanNode F64)

/-- The text of a status. -/
def statusText : SpanStatus → String
  | .error => "error"
  | .ok => "ok"
  | .unset => "unset"

/-- `MAX_DEPTH`. -/
def maxDepth : ℕ := 128

/-- `children_of` and `roots`. A span is known by its place in the trace. -/
structure Links (n : ℕ) where
  childrenOf : FxHashMap SpanId (List (Fin n))
  roots : List (Fin n)

section Links

variable (spans : List (Span Spur F64))

/-- The ids of the trace. -/
def present : FxHashSet SpanId := (spans.map Span.spanId).toFinset

/-- One turn of the loop over the spans. -/
def linkSpan (links : Links spans.length) (i : Fin spans.length) : Links spans.length :=
  match spans[i].parentSpanId with
  | some p =>
    if p ∈ present spans then { links with
      childrenOf := links.childrenOf.insert p ((links.childrenOf.lookup p).getD [] ++ [i]) }
    else { links with roots := links.roots ++ [i] }
  | none => { links with roots := links.roots ++ [i] }

/-- The loop over the spans. -/
def linkSpans : Links spans.length :=
  (List.finRange spans.length).foldl (linkSpan spans) ⟨∅, []⟩

end Links

section Nodes

variable [Interner Rodeo Spur] [FloatOps F64]

/-- The node of a span, with the nodes under it. -/
def spanNode (store : TraceStore Rodeo Spur F64) (detailed : Bool) (s : Span Spur F64)
    (children : List (SpanNode F64)) : SpanNode F64 where
  spanId := hexText s.spanId.toList
  name := Interner.resolve store.interner s.name
  service := Interner.resolve store.interner s.serviceName
  startTimeNs := s.startTimeNs
  durationMs := FloatOps.div (Float64.ofI64 s.durationNs) (Float64.ofI64 1000000)
  status := statusText s.status
  statusMessage := s.statusMessage.map (Interner.resolve store.interner)
  attributes :=
    if detailed then s.attributes.map fun attr =>
      (Interner.resolve store.interner attr.1, attributeText store.interner attr.2)
    else []
  children := children

/-- `node`, with so many levels left under it. -/
def node (spans : List (Span Spur F64)) (store : TraceStore Rodeo Spur F64) (detailed : Bool)
    (childrenOf : FxHashMap SpanId (List (Fin spans.length))) :
    ℕ → Fin spans.length → SpanNode F64
  | 0, idx => spanNode store detailed spans[idx] []
  | levels + 1, idx =>
    let kids := (childrenOf.lookup spans[idx].spanId).getD []
    spanNode store detailed spans[idx]
      ((kids.map (node spans store detailed childrenOf levels)).sortByKey SpanNode.startTimeNs)

/-- `build_trace_tree`. -/
def buildTraceTree (store : TraceStore Rodeo Spur F64) (traceId : TraceId) (detailed : Bool) :
    Option (TraceTree F64) :=
  (store.getTrace traceId).map fun spans =>
    let links := linkSpans spans
    let rootNodes := links.roots.map (node spans store detailed links.childrenOf (maxDepth - 1))
    ⟨hexText traceId.toList, rootNodes.sortByKey SpanNode.startTimeNs⟩

end Nodes

/-! ### Parents -/

section Parents

variable (spans : List (Span Spur F64))

/-- A span of the trace has the id of the other one's parent. -/
def IsParent (j i : Fin spans.length) : Prop := spans[i].parentSpanId = some spans[j].spanId

/-- A span without a parent in the trace. -/
def IsRoot (i : Fin spans.length) : Prop := ∀ j, ¬ IsParent spans j i

/-- A chain of so many parents leads from a span to a root. -/
def ReachesRoot : ℕ → Fin spans.length → Prop
  | 0, i => IsRoot spans i
  | k + 1, i => ∃ j, IsParent spans j i ∧ ReachesRoot k j

instance (j i : Fin spans.length) : Decidable (IsParent spans j i) :=
  inferInstanceAs (Decidable (_ = _))

instance (i : Fin spans.length) : Decidable (IsRoot spans i) :=
  inferInstanceAs (Decidable (∀ j, ¬ IsParent spans j i))

variable {spans}

theorem mem_present_iff {p : SpanId} :
    p ∈ present spans ↔ ∃ j : Fin spans.length, spans[j].spanId = p := by
  rw [present, List.mem_toFinset, List.mem_map]
  constructor
  · rintro ⟨span, hspan, rfl⟩
    obtain ⟨j, rfl⟩ := List.mem_iff_get.mp hspan
    exact ⟨j, rfl⟩
  · rintro ⟨j, rfl⟩
    exact ⟨spans[j], List.getElem_mem j.isLt, rfl⟩

theorem linkSpan_of_isParent {j i : Fin spans.length} (h : IsParent spans j i)
    (links : Links spans.length) :
    linkSpan spans links i = { links with
      childrenOf := links.childrenOf.insert spans[j].spanId
        ((links.childrenOf.lookup spans[j].spanId).getD [] ++ [i]) } := by
  have hparent : spans[i].parentSpanId = some spans[j].spanId := h
  have hpresent : spans[j].spanId ∈ present spans := mem_present_iff.mpr ⟨j, rfl⟩
  simp only [linkSpan, hparent, if_pos hpresent]

theorem linkSpan_of_isRoot {i : Fin spans.length} (h : IsRoot spans i)
    (links : Links spans.length) :
    linkSpan spans links i = { links with roots := links.roots ++ [i] } := by
  cases hparent : spans[i].parentSpanId with
  | none => simp only [linkSpan, hparent]
  | some p =>
    have habsent : p ∉ present spans := by
      rw [mem_present_iff]
      rintro ⟨j, rfl⟩
      exact h j hparent
    simp only [linkSpan, hparent, if_neg habsent]

/-- **What the loop over the spans collects**: the roots, and under each id the spans that have it as
their parent's. -/
theorem foldl_linkSpan (l : List (Fin spans.length)) (links : Links spans.length) :
    (l.foldl (linkSpan spans) links).roots = links.roots ++ l.filter (fun i => IsRoot spans i) ∧
      ∀ j : Fin spans.length,
        ((l.foldl (linkSpan spans) links).childrenOf.lookup spans[j].spanId).getD [] =
          (links.childrenOf.lookup spans[j].spanId).getD [] ++
            l.filter fun i => IsParent spans j i := by
  induction l generalizing links with
  | nil => simp
  | cons i l ih =>
    rw [List.foldl_cons]
    obtain ⟨hroots, hchildren⟩ := ih (linkSpan spans links i)
    by_cases hroot : IsRoot spans i
    · rw [linkSpan_of_isRoot hroot] at hroots hchildren ⊢
      refine ⟨?_, fun j => ?_⟩
      · rw [hroots, List.filter_cons_of_pos (by simpa using hroot), List.append_assoc]
        rfl
      · rw [hchildren, List.filter_cons_of_neg (by simpa using hroot j)]
    · obtain ⟨j₀, hparent⟩ := not_forall_not.mp hroot
      rw [linkSpan_of_isParent hparent] at hroots hchildren ⊢
      refine ⟨?_, fun j => ?_⟩
      · rw [hroots, List.filter_cons_of_neg (by simpa using hroot)]
      · rw [hchildren, Finmap.lookup_insert_eq_ite]
        by_cases hid : spans[j].spanId = spans[j₀].spanId
        · have hj : IsParent spans j i := by rw [IsParent, hid]; exact hparent
          rw [if_pos hid, List.filter_cons_of_pos (by simpa using hj), hid, Option.getD_some,
            List.append_assoc]
          rfl
        · have hj : ¬ IsParent spans j i := fun h => hid (Option.some.inj (h.symm.trans hparent))
          rw [if_neg hid, List.filter_cons_of_neg (by simpa using hj)]

/-- The roots are the spans without a parent in the trace. -/
theorem roots_linkSpans :
    (linkSpans spans).roots = (List.finRange spans.length).filter fun i => IsRoot spans i :=
  (foldl_linkSpan _ _).1

/-- The children of a span are those that have its id as their parent's. -/
theorem childrenOf_linkSpans (j : Fin spans.length) :
    ((linkSpans spans).childrenOf.lookup spans[j].spanId).getD [] =
      (List.finRange spans.length).filter fun i => IsParent spans j i := by
  rw [linkSpans, (foldl_linkSpan _ _).2 j, Finmap.lookup_empty]
  rfl

end Parents

/-! ### The tree -/

section Forest

open RoseTree

variable (spans : List (Span Spur F64))

/-- The children of a span, from the first that starts to the last. -/
def sortedChildren (j : Fin spans.length) : List (Fin spans.length) :=
  ((List.finRange spans.length).filter fun i => IsParent spans j i).sortByKey
    fun i => spans[i].startTimeNs

/-- The roots, from the first that starts to the last. -/
def sortedRoots : List (Fin spans.length) :=
  ((List.finRange spans.length).filter fun i => IsRoot spans i).sortByKey
    fun i => spans[i].startTimeNs

/-- The tree, with the places of the spans in the trace. -/
def spanForest : List (RoseTree (Fin spans.length)) :=
  (sortedRoots spans).map (unfold (sortedChildren spans) (maxDepth - 1))

variable {spans}

theorem mem_sortedChildren_iff {j i : Fin spans.length} :
    i ∈ sortedChildren spans j ↔ IsParent spans j i := by
  simp [sortedChildren, List.mem_sortByKey]

theorem mem_sortedRoots_iff {i : Fin spans.length} : i ∈ sortedRoots spans ↔ IsRoot spans i := by
  simp [sortedRoots, List.mem_sortByKey]

theorem nodup_sortedChildren (j : Fin spans.length) : (sortedChildren spans j).Nodup :=
  List.nodup_sortByKey.mpr ((List.nodup_finRange _).filter _)

theorem nodup_sortedRoots : (sortedRoots spans).Nodup :=
  List.nodup_sortByKey.mpr ((List.nodup_finRange _).filter _)

/-- The chains of parents are the walks from the roots. -/
theorem mem_level_iff {k : ℕ} {i : Fin spans.length} :
    i ∈ level (sortedChildren spans) (sortedRoots spans) k ↔ ReachesRoot spans k i := by
  induction k generalizing i with
  | zero => exact mem_sortedRoots_iff
  | succ k ih =>
    rw [level, List.mem_flatMap]
    exact exists_congr fun j => by rw [ih, mem_sortedChildren_iff, and_comm]

section Nodes

variable [Interner Rodeo Spur] [FloatOps F64]

theorem startTimeNs_node (store : TraceStore Rodeo Spur F64) (detailed : Bool)
    (childrenOf : FxHashMap SpanId (List (Fin spans.length))) (levels : ℕ)
    (idx : Fin spans.length) :
    (node spans store detailed childrenOf levels idx).startTimeNs = spans[idx].startTimeNs := by
  cases levels <;> rfl

/-- Sorting the nodes is sorting the spans. -/
theorem sortByKey_map_node (store : TraceStore Rodeo Spur F64) (detailed : Bool)
    (childrenOf : FxHashMap SpanId (List (Fin spans.length))) (levels : ℕ)
    (l : List (Fin spans.length)) :
    (l.map (node spans store detailed childrenOf levels)).sortByKey SpanNode.startTimeNs =
      (l.sortByKey fun i => spans[i].startTimeNs).map
        (node spans store detailed childrenOf levels) := by
  rw [List.sortByKey_map]
  congr 2
  funext idx
  exact startTimeNs_node store detailed childrenOf levels idx

/-- The nodes under a span are those of the walks from it. -/
theorem node_eq_fold (store : TraceStore Rodeo Spur F64) (detailed : Bool) (levels : ℕ)
    (idx : Fin spans.length) :
    node spans store detailed (linkSpans spans).childrenOf levels idx =
      fold (fun i nodes => spanNode store detailed spans[i] nodes)
        (unfold (sortedChildren spans) levels idx) := by
  induction levels generalizing idx with
  | zero => rw [node, unfold, fold_node, List.map_nil]
  | succ levels ih =>
    rw [node, childrenOf_linkSpans, sortByKey_map_node, unfold, fold_node, List.map_map]
    exact congrArg _ (List.map_congr_left fun i _ => ih i)

/-- **The tool shows the spans of the tree.** -/
theorem buildTraceTree_eq {store : TraceStore Rodeo Spur F64} {traceId : TraceId}
    (h : store.getTrace traceId = some spans) (detailed : Bool) :
    buildTraceTree store traceId detailed = some ⟨hexText traceId.toList,
      (spanForest spans).map (fold fun i nodes => spanNode store detailed spans[i] nodes)⟩ := by
  rw [buildTraceTree, h, Option.map_some, spanForest, List.map_map]
  simp only [roots_linkSpans, sortByKey_map_node]
  exact congrArg _ (congrArg _ (List.map_congr_left fun i _ => node_eq_fold store detailed _ i))

end Nodes

/-! ### Repeated spans -/

variable (spans) in
/-- A span stands under its own parent, and as a root if it has none in the trace. -/
def StandsRight : Option (Fin spans.length) × Fin spans.length → Prop
  | (none, i) => IsRoot spans i
  | (some j, i) => IsParent spans j i

variable (spans) in
/-- Every span is in the tree once at most, and those whose parents lead to a root within the limit
are; no node stands for nothing. -/
structure EachSpanOnce (forest : List (RoseTree (Fin spans.length))) : Prop where
  atMostOnce : ∀ i, (labels forest).count i ≤ 1
  underParent : ∀ i, (∃ k < maxDepth, ReachesRoot spans k i) →
    (labels forest).count i = 1 ∧ ∀ place ∈ places forest, place.2 = i → StandsRight spans place
  length_le : (labels forest).length ≤ spans.length

variable (spans) in
/-- Two spans of the tree have the same id, and it is the id of a span's parent. -/
def ParentTwice : Prop :=
  ∃ i j, i ≠ j ∧ spans[i].spanId = spans[j].spanId ∧ (∃ c, IsParent spans i c) ∧
    (∃ k < maxDepth - 1, ReachesRoot spans k i) ∧ ∃ k < maxDepth - 1, ReachesRoot spans k j

theorem standsRight_of_mem_places {place : Option (Fin spans.length) × Fin spans.length}
    (h : place ∈ places (spanForest spans)) : StandsRight spans place := by
  rw [places, spanForest, List.flatMap_map] at h
  obtain ⟨root, hroot, hplace⟩ := List.mem_flatMap.mp h
  obtain rfl | ⟨j, hj, hchild⟩ := eq_or_mem_of_mem_placesUnder_unfold hplace
  · exact mem_sortedRoots_iff.mp hroot
  · obtain ⟨parent, i⟩ := place
    obtain rfl : parent = some j := hj
    exact mem_sortedChildren_iff.mp hchild

/-- No span is in the tree twice exactly when no parent is. -/
theorem nodup_labels_spanForest_iff : (labels (spanForest spans)).Nodup ↔ ¬ ParentTwice spans := by
  have hroots : ∀ j, ∀ i ∈ sortedChildren spans j, i ∉ sortedRoots spans := by
    intro j i hi hroot
    exact mem_sortedRoots_iff.mp hroot j (mem_sortedChildren_iff.mp hi)
  rw [spanForest, nodup_labels_iff nodup_sortedRoots nodup_sortedChildren hroots, Apart]
  simp only [mem_level_iff, mem_sortedChildren_iff]
  constructor
  · rintro hapart ⟨i, j, hne, hid, ⟨c, hc⟩, hi, hj⟩
    have hc' : IsParent spans j c := by rw [IsParent, ← hid]; exact hc
    exact hne (hapart i j hi hj c hc hc')
  · intro hnot i j hi hj c hci hcj
    by_contra hne
    exact hnot ⟨i, j, hne, Option.some.inj (hci.symm.trans hcj), ⟨c, hci⟩, hi, hj⟩

/-- **Each span is in the tree once** exactly when no parent is in it twice. -/
theorem eachSpanOnce_iff : EachSpanOnce spans (spanForest spans) ↔ ¬ ParentTwice spans := by
  rw [← nodup_labels_spanForest_iff]
  constructor
  · exact fun h => List.nodup_iff_count_le_one.mpr h.atMostOnce
  · intro hnodup
    refine ⟨List.nodup_iff_count_le_one.mp hnodup, fun i hi => ?_, ?_⟩
    · refine ⟨List.count_eq_one_of_mem hnodup ?_, fun place hplace _ => standsRight_of_mem_places hplace⟩
      obtain ⟨k, hk, hreaches⟩ := hi
      exact mem_labels_unfold_iff.mpr ⟨k, by rw [maxDepth] at hk ⊢; omega, mem_level_iff.mpr hreaches⟩
    · exact (List.Nodup.length_le_card hnodup).trans (Fintype.card_fin _).le

end Forest

/-- **The tool shows each span of a trace once**, under its own parent, exactly when no parent is in
the tree twice. -/
theorem buildTraceTree_eachSpanOnce_iff [Interner Rodeo Spur] [FloatOps F64]
    {store : TraceStore Rodeo Spur F64} {traceId : TraceId} {spans : List (Span Spur F64)}
    (h : store.getTrace traceId = some spans) (detailed : Bool) :
    buildTraceTree store traceId detailed = some ⟨hexText traceId.toList, (spanForest spans).map
        (RoseTree.fold fun i nodes => spanNode store detailed spans[i] nodes)⟩ ∧
      (EachSpanOnce spans (spanForest spans) ↔ ¬ ParentTwice spans) :=
  ⟨buildTraceTree_eq h detailed, eachSpanOnce_iff⟩

/-- A root and its child. -/
theorem buildTraceTree_eachSpanOnce_iff_child :
    let store := receivedStore [sentSpan (List.replicate 8 1) [],
      sentSpan (List.replicate 8 2) (List.replicate 8 1)]
    let spans := TraceStore.spansOf store.traces (Vector.replicate 16 1)
    store.getTrace (Vector.replicate 16 1) = some spans ∧
      buildTraceTree store (Vector.replicate 16 1) false =
          some ⟨hexText (List.replicate 16 1), (spanForest spans).map
            (RoseTree.fold fun i nodes => spanNode store false spans[i] nodes)⟩ ∧
        (EachSpanOnce spans (spanForest spans) ↔ ¬ ParentTwice spans) := by
  intro store spans
  have hinvariant : store.Invariant := (TraceStore.readable_exec _).1
  have hspans : spans.length ≠ 0 := by decide
  have htrace : store.getTrace (Vector.replicate 16 1) = some spans := by
    rw [TraceStore.getTrace, hinvariant.lookup_eq, if_neg]
    exact List.ne_nil_of_length_pos (Nat.pos_of_ne_zero hspans)
  exact ⟨htrace, buildTraceTree_eachSpanOnce_iff htrace false⟩

/-- **A root that was sent twice** repeats its child: there are four nodes for three spans. -/
theorem not_eachSpanOnce_sentTwice :
    let store := receivedStore [sentSpan (List.replicate 8 1) [], sentSpan (List.replicate 8 1) [],
      sentSpan (List.replicate 8 2) (List.replicate 8 1)]
    let spans := TraceStore.spansOf store.traces (Vector.replicate 16 1)
    spans.length = 3 ∧ (RoseTree.labels (spanForest spans)).length = 4 ∧
      ¬ EachSpanOnce spans (spanForest spans) := by
  intro store spans
  have hspans : spans.length = 3 := by decide
  have hnodes : (RoseTree.labels (spanForest spans)).length = 4 := by decide
  refine ⟨hspans, hnodes, fun honce => ?_⟩
  have hle := honce.length_le
  omega

end Mcp

end Aniani
