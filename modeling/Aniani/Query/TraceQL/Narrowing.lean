import Aniani.Query.TraceQL.Readable

/-!
# Narrowing loses nothing

A trace with a span that meets an indexable condition is in the set that the index gives for it. So
under `&&` alone every trace with a matching span survives the intersection of the sets, and a
selector gives the same results over the narrowed traces as over all of them.

## Main results

* `TraceStore.mem_indexableTraces` — one condition
* `TraceStore.mem_candidateTraceIds` — a conjunction
* `TraceStore.evalSpanSelector_exec` — in every store reached by calls
-/

namespace Aniani

open Interner

namespace TraceStore

variable {Rodeo Spur F64 : Type} [LinearOrder Spur] [Interner Rodeo Spur] [FloatOps F64]

/-! ### One condition -/

omit [LinearOrder Spur] [FloatOps F64] in
/-- The value of a matched string is interned under the key it was matched by. -/
theorem get_of_resolve_eq {s : TraceStore Rodeo Spur F64} {k : Spur} {value : String}
    (hk : Valid s.interner k) (hvalue : s.resolve k = value) :
    get s.interner value = some k :=
  hvalue ▸ hk.get_resolve

omit [FloatOps F64] in
/-- A trace is in the set an index gives for a key that a span of it has. -/
theorem mem_of_lookup {K : Type} [DecidableEq K] {s : TraceStore Rodeo Spur F64}
    (h : s.Invariant) (ix : SpanIndex Rodeo Spur F64 K) {t : TraceId} {span : Span Spur F64}
    (hspan : span ∈ spansOf s.traces t) {set : FxHashSet TraceId}
    (hset : (ix.index s).lookup (ix.key span) = some set) : t ∈ set :=
  ((h.index ix).mem_lookup hset t).mpr ⟨span, hspan, rfl⟩

omit [LinearOrder Spur] in
/-- What a matched `=` on a string says. -/
theorem eq_of_compareAttributeValue {s : TraceStore Rodeo Spur F64}
    {attr : AttributeValue Spur F64} {value : String} {re : Option (String → Bool)}
    (hmatch : s.compareAttributeValue attr .eq (.string value) re = true) :
    ∃ v, attr = .string v ∧ s.resolve v = value := by
  cases attr with
  | string v => exact ⟨v, rfl, of_decide_eq_true hmatch⟩
  | _ => exact absurd hmatch (by simp [compareAttributeValue])

omit [LinearOrder Spur] in
/-- What a matched attribute condition `=` on a string says: which attribute it is. -/
theorem findAttribute_of_match {s : TraceStore Rodeo Spur F64} {span : Span Spur F64}
    {scope : AttrScope} {name value : String} {re : Option (String → Bool)}
    (hmatch : s.spanMatchesCondition span (.attribute scope name .eq (.string value)) re = true) :
    ∃ k v, s.findAttribute span scope name = some (k, .string v) ∧ s.resolve v = value := by
  rw [spanMatchesCondition] at hmatch
  split at hmatch
  · next attr hfind =>
    obtain ⟨v, hv, hvalue⟩ := eq_of_compareAttributeValue hmatch
    obtain ⟨k, attr⟩ := attr
    subst hv
    exact ⟨k, v, hfind, hvalue⟩
  · exact absurd hmatch (by decide)

omit [FloatOps F64] in
/-- A key among the candidates that the attribute index knows puts its traces into the result. -/
theorem mem_foldl_union {K : Type} (sets : K → Option (FxHashSet TraceId)) {t : TraceId}
    {keys : List K} {out : FxHashSet TraceId}
    (h : t ∈ out ∨ ∃ key ∈ keys, ∃ set, sets key = some set ∧ t ∈ set) :
    t ∈ keys.foldl (fun out key => match sets key with | some set => out ∪ set | none => out)
      out := by
  induction keys generalizing out with
  | nil => simpa using h
  | cons key keys ih =>
    refine ih ?_
    dsimp only
    rcases h with hout | ⟨key', hkey', set, hset, hmem⟩
    · left
      split
      · exact Finset.mem_union_left _ hout
      · exact hout
    · rcases List.mem_cons.mp hkey' with rfl | hkey'
      · left
        rw [hset]
        exact Finset.mem_union_right _ hmem
      · exact .inr ⟨key', hkey', set, hset, hmem⟩

/-- **The traces of an attribute condition**: one with a span that matches is among them. -/
theorem mem_indexedAttributeTraces {s : TraceStore Rodeo Spur F64} (h : s.Invariant)
    {span : Span Spur F64} (hr : span.Readable s.interner) {t : TraceId}
    (hspan : span ∈ spansOf s.traces t) {scope : AttrScope} {name value : String}
    {re : Option (String → Bool)}
    (hmatch : s.spanMatchesCondition span (.attribute scope name .eq (.string value)) re = true)
    {set : FxHashSet TraceId} (hset : s.indexedAttributeTraces scope name value = some set) :
    t ∈ set := by
  obtain ⟨k, v, hfind, hvalue⟩ := findAttribute_of_match hmatch
  have hmem := List.mem_of_find?_eq_some hfind
  have hget := get_of_resolve_eq (hr.value _ hmem v rfl) hvalue
  rw [indexedAttributeTraces] at hset
  split at hset
  · next hservice =>
    -- the attribute found is the service of the span
    obtain ⟨rfl, rfl⟩ := hservice
    obtain rfl := hr.service k v hfind
    rw [hget] at hset
    exact mem_of_lookup h SpanIndex.service hspan hset
  · rw [hget] at hset
    dsimp only at hset
    split at hset
    · exact absurd hset (by simp)
    obtain rfl := Option.some.inj hset
    have hkey : s.resolve k ∈ candidateKeys scope name := by
      simpa using List.find?_some hfind
    obtain ⟨c, hc, ht⟩ := ((h.attr k).1.holds_iff v t).mpr
      ⟨span, hspan, mem_stringAttributes.mpr hmem⟩
    refine mem_foldl_union _ (.inr ⟨s.resolve k, hkey, c, ?_, ht⟩)
    rw [get_of_resolve_eq (hr.key _ hmem) rfl]
    cases hvalues : s.attrIndex.lookup k with
    | none => exact absurd hc (by simp [hvalues])
    | some values =>
      rw [hvalues] at hc
      simpa [hvalues] using hc

/-- **The traces of an indexable condition**: one with a span that matches is among them. -/
theorem mem_indexableTraces {s : TraceStore Rodeo Spur F64} (h : s.Invariant)
    {span : Span Spur F64} (hr : span.Readable s.interner) {t : TraceId}
    (hspan : span ∈ spansOf s.traces t) {condition : SpanCondition F64}
    {re : Option (String → Bool)} (hmatch : s.spanMatchesCondition span condition re = true)
    {set : FxHashSet TraceId} (hset : s.indexableTraces condition = some set) : t ∈ set := by
  unfold indexableTraces at hset
  split at hset
  · next value =>
    rw [get_of_resolve_eq hr.name (of_decide_eq_true hmatch)] at hset
    exact mem_of_lookup h SpanIndex.name hspan hset
  · next value =>
    obtain rfl : span.status = value := by
      simpa [spanMatchesCondition, compareEq] using hmatch
    exact mem_of_lookup h SpanIndex.status hspan hset
  · exact mem_indexedAttributeTraces h hr hspan hmatch hset
  · exact absurd hset (by simp)

/-! ### A conjunction -/

omit [Interner Rodeo Spur] [FloatOps F64] [LinearOrder Spur] in
/-- Without `||` every condition has to hold. -/
theorem forall_of_matchGroups {current : Bool} {rest : List (LogicalOp × Bool)}
    (hops : ∀ p ∈ rest, p.1 = .and) (h : matchGroups current rest = true) :
    current = true ∧ ∀ p ∈ rest, p.2 = true := by
  induction rest generalizing current with
  | nil => exact ⟨h, fun p hp => absurd hp List.not_mem_nil⟩
  | cons p rest ih =>
    obtain ⟨op, next⟩ := p
    obtain rfl : op = .and := hops _ List.mem_cons_self
    obtain ⟨hcurrent, hrest⟩ := ih (fun p hp => hops p (List.mem_cons_of_mem _ hp)) h
    rw [Bool.and_eq_true] at hcurrent
    exact ⟨hcurrent.1, List.forall_mem_cons.mpr ⟨hcurrent.2, hrest⟩⟩

omit [LinearOrder Spur] in
/-- **A span that matches a conjunction matches each condition.** -/
theorem forall_of_spanMatchesConditions {s : TraceStore Rodeo Spur F64} {span : Span Spur F64}
    {regexNew : String → Option (String → Bool)} {selector : SpanSelector F64}
    (hops : .or ∉ selector.logicalOps)
    (hmatch : s.spanMatchesConditions span selector.conditions selector.logicalOps
      (precompileRegexes regexNew selector.conditions) = true) :
    ∀ condition ∈ selector.conditions,
      s.spanMatchesCondition span condition (precompileRegex regexNew condition) = true := by
  have hlength := selector.length_logicalOps
  rw [spanMatchesConditions, precompileRegexes, ← List.map_prod_left_eq_zip, List.map_map]
    at hmatch
  cases hconditions : selector.conditions with
  | nil => exact fun condition hcondition => absurd hcondition List.not_mem_nil
  | cons first rest =>
    rw [hconditions] at hmatch hlength
    have hand : ∀ op ∈ selector.logicalOps, op = .and := by
      intro op hop
      cases op with
      | and => rfl
      | or => exact absurd hop hops
    obtain ⟨hfirst, hrest⟩ := forall_of_matchGroups
      (fun p hp => hand p.1 (List.of_mem_zip hp).1) hmatch
    refine List.forall_mem_cons.mpr ⟨hfirst, fun condition hcondition => ?_⟩
    obtain ⟨i, hi, rfl⟩ := List.mem_iff_getElem.mp hcondition
    have hi' : i < selector.logicalOps.length := by simpa [hlength] using hi
    refine hrest (selector.logicalOps[i], s.spanMatchesCondition span rest[i]
      (precompileRegex regexNew rest[i])) (List.mem_iff_getElem.mpr ⟨i, ?_, ?_⟩)
    · simpa using ⟨hi', hi⟩
    · rw [List.getElem_zip, List.getElem_map]
      rfl

/-- **The candidates of a conjunction**: a trace with a span that matches is among them. -/
theorem mem_candidateTraceIds {s : TraceStore Rodeo Spur F64} (h : s.Invariant)
    {span : Span Spur F64} (hr : span.Readable s.interner) {t : TraceId}
    (hspan : span ∈ spansOf s.traces t) {regexNew : String → Option (String → Bool)}
    {selector : SpanSelector F64}
    (hmatch : s.spanMatchesConditions span selector.conditions selector.logicalOps
      (precompileRegexes regexNew selector.conditions) = true) {ids : FxHashSet TraceId}
    (hids : s.candidateTraceIds selector.conditions selector.logicalOps = some ids) :
    t ∈ ids := by
  rw [candidateTraceIds] at hids
  split at hids
  · exact absurd hids (by simp)
  · next hops =>
    have hall := forall_of_spanMatchesConditions hops hmatch
    have hloop : ∀ (conditions : List (SpanCondition F64)) (candidate : Option (FxHashSet TraceId)),
        (∀ condition ∈ conditions, ∀ set, s.indexableTraces condition = some set → t ∈ set) →
          (∀ set, candidate = some set → t ∈ set) →
          ∀ set, conditions.foldl s.narrow candidate = some set → t ∈ set := by
      intro conditions
      induction conditions with
      | nil => exact fun candidate _ hcandidate => hcandidate
      | cons condition conditions ih =>
        intro candidate hconditions hcandidate
        refine ih _ (fun c hc => hconditions c (List.mem_cons_of_mem _ hc)) fun set hset => ?_
        have hone := hconditions condition List.mem_cons_self
        unfold narrow at hset
        split at hset
        · next hsome => exact hone set (hsome.trans hset)
        · next set' cur hsome =>
          obtain rfl := Option.some.inj hset
          exact Finset.mem_inter.mpr ⟨hcandidate cur rfl, hone set' hsome⟩
        · exact hcandidate set hset
    exact hloop selector.conditions none
      (fun condition hcondition set hset =>
        mem_indexableTraces h hr hspan (hall condition hcondition) hset)
      (fun set hset => absurd hset (by simp)) ids hids

/-! ### The results -/

omit [LinearOrder Spur] in
/-- A trace with a result has a span that matches. -/
theorem exists_match_of_scan {s : TraceStore Rodeo Spur F64}
    {regexNew : String → Option (String → Bool)} {selector : SpanSelector F64} {t : TraceId}
    {result : TraceResult} (hscan : s.scan regexNew selector t = some result) :
    result.traceId = t ∧ ∃ span ∈ spansOf s.traces t,
      s.spanMatchesConditions span selector.conditions selector.logicalOps
        (precompileRegexes regexNew selector.conditions) = true := by
  rw [scan] at hscan
  split at hscan
  · exact absurd hscan (by simp)
  · next spans hspans =>
    dsimp only at hscan
    split at hscan
    · exact absurd hscan (by simp)
    · next hmatched =>
      obtain rfl := Option.some.inj hscan
      rw [List.isEmpty_iff, List.map_eq_nil_iff] at hmatched
      obtain ⟨span, hspan⟩ := List.exists_mem_of_ne_nil _ hmatched
      obtain ⟨hspan, hmatch⟩ := List.mem_filter.mp hspan
      refine ⟨rfl, span, ?_, hmatch⟩
      rw [spansOf, hspans]
      exact hspan

omit [LinearOrder Spur] in
/-- The order of the traces looked at does not show in the results. -/
theorem sortByKey_filterMap_scan {s : TraceStore Rodeo Spur F64}
    {regexNew : String → Option (String → Bool)} {selector : SpanSelector F64}
    {ts ts' : List TraceId} (hts : ts.Nodup) (hts' : ts'.Nodup)
    (hsame : ∀ t, s.scan regexNew selector t ≠ none → (t ∈ ts ↔ t ∈ ts')) :
    (ts.filterMap (s.scan regexNew selector)).sortByKey byTraceId =
      (ts'.filterMap (s.scan regexNew selector)).sortByKey byTraceId := by
  have hnodup : ∀ {ts : List TraceId}, ts.Nodup →
      (ts.filterMap (s.scan regexNew selector)).Nodup := fun hts =>
    hts.filterMap fun t t' result ht ht' =>
      (exists_match_of_scan ht).1.symm.trans (exists_match_of_scan ht').1
  have hperm : (ts.filterMap (s.scan regexNew selector)).Perm
      (ts'.filterMap (s.scan regexNew selector)) := by
    refine (List.perm_ext_iff_of_nodup (hnodup hts) (hnodup hts')).mpr fun result => ?_
    rw [List.mem_filterMap, List.mem_filterMap]
    refine exists_congr fun t => and_congr_left fun hscan => hsame t ?_
    rw [hscan]
    exact Option.some_ne_none _
  refine ((List.sortByKey_perm byTraceId _).trans
    (hperm.trans (List.sortByKey_perm byTraceId _).symm)).eq_of_pairwise ?_
    (List.sortedBy_sortByKey byTraceId _) (List.sortedBy_sortByKey byTraceId _)
  -- two results of one trace are one result
  intro a b ha hb hab hba
  obtain ⟨t, -, ht⟩ := List.mem_filterMap.mp (List.mem_sortByKey.mp ha)
  obtain ⟨t', -, ht'⟩ := List.mem_filterMap.mp (List.mem_sortByKey.mp hb)
  have hid : a.traceId = b.traceId := by
    refine Vector.toList_inj.mp (List.map_injective_iff.mpr ?_ (le_antisymm hab hba))
    exact fun x y => UInt8.toNat_inj.mp
  obtain rfl := (exists_match_of_scan ht).1
  obtain rfl := (exists_match_of_scan ht').1
  rw [hid, ht'] at ht
  exact (Option.some.inj ht).symm

omit [FloatOps F64] in
theorem nodup_tracesToScan (it : IterOrder TraceId) (s : TraceStore Rodeo Spur F64)
    (selector : SpanSelector F64) : (s.tracesToScan it selector).Nodup := by
  rw [tracesToScan]
  split
  · exact it.nodup _
  · exact it.nodup_keys _

/-- **Narrowing loses nothing and adds nothing** where the indexes are right and the spans
readable. -/
theorem evalSpanSelector_eq {s : TraceStore Rodeo Spur F64} (h : s.Invariant)
    (hreadable : s.AllReadable) (regexNew : String → Option (String → Bool))
    (it it' : IterOrder TraceId) (selector : SpanSelector F64) :
    s.evalSpanSelector regexNew it selector = s.scanAllTraces regexNew it' selector := by
  refine sortByKey_filterMap_scan (nodup_tracesToScan it s selector) (it'.nodup_keys _)
    fun t hscan => ?_
  obtain ⟨result, hresult⟩ := Option.ne_none_iff_exists'.mp hscan
  obtain ⟨-, span, hspan, hmatch⟩ := exists_match_of_scan hresult
  have hstored : t ∈ s.traces := by
    by_contra ht
    rw [spansOf, Finmap.lookup_eq_none.mpr ht] at hspan
    exact absurd hspan List.not_mem_nil
  refine iff_of_true ?_ (IterOrder.mem_keys.mpr hstored)
  rw [tracesToScan]
  split
  · next ids hids =>
    exact it.mem_order.mpr
      (mem_candidateTraceIds h (hreadable span ⟨t, hspan⟩) hspan hmatch hids)
  · exact IterOrder.mem_keys.mpr hstored

/-- **In every store reached** by ingests and removals, every selector gives the same traces with the
same spans over the narrowed traces as over all of them, in whatever order either is walked. -/
theorem evalSpanSelector_exec (calls : List (Call F64))
    (regexNew : String → Option (String → Bool)) (it it' : IterOrder TraceId)
    (selector : SpanSelector F64) :
    let s := Run.exec call (new : TraceStore Rodeo Spur F64) calls
    s.evalSpanSelector regexNew it selector = s.scanAllTraces regexNew it' selector :=
  evalSpanSelector_eq (readable_exec calls).1 (readable_exec calls).2 regexNew it it' selector

end TraceStore

end Aniani
