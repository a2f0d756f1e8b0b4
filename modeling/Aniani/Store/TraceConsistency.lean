import Aniani.ForMathlib.Run
import Aniani.Store.TraceStore

/-!
# The invariant of the trace store

The indexes of a trace store should say which traces have a span with a given property. Three of
the four are kept by the same code at three properties of a span; `SpanIndex` is what that code is,
and everything about the three is proved of it once. The fourth, of attribute pairs, has two levels.

A removal is described by what it leaves of the spans of each trace, so a trace without spans and
a trace that is gone are the same to the indexes. That none of the first kind is stored is a part
of the invariant of its own.

## Main definitions

* `TraceStore.Files` — a trace has a span with a property
* `SpanIndex` — one of the three indexes, with the code that keeps it
* `TraceStore.Invariant`, `TraceStore.Consistent`

## Main results

* `TraceStore.consistent_traces_exec` — in every reachable store
-/

namespace Aniani

namespace TraceStore

variable {Rodeo Spur F64 : Type}

/-- The spans of a trace, none if there is no such trace. -/
def spansOf (traces : FxHashMap TraceId (List (Span Spur F64))) (t : TraceId) :
    List (Span Spur F64) :=
  (traces.lookup t).getD []

/-- The trace has a span related to `k`. -/
def Files {K : Type} (traces : FxHashMap TraceId (List (Span Spur F64)))
    (P : Span Spur F64 → K → Prop) (k : K) (t : TraceId) : Prop :=
  ∃ span ∈ spansOf traces t, P span k

theorem spansOf_insert (traces : FxHashMap TraceId (List (Span Spur F64))) (t t' : TraceId)
    (spans : List (Span Spur F64)) :
    spansOf (traces.insert t spans) t' = if t' = t then spans else spansOf traces t' := by
  rw [spansOf, Finmap.lookup_insert_eq_ite]
  split
  · rfl
  · rfl

theorem spansOf_erase (traces : FxHashMap TraceId (List (Span Spur F64))) (t t' : TraceId) :
    spansOf (traces.erase t) t' = if t' = t then [] else spansOf traces t' := by
  rw [spansOf, Finmap.lookup_erase_eq_ite]
  split
  · rfl
  · rfl

/-! ### Taking a trace out from under a key -/

section Unfile

variable {K : Type} [DecidableEq K]

/-- In an index without empty entries this is the removal of one value. -/
theorem unfile_eq_remove {index : FxHashMap K (FxHashSet TraceId)} {R : K → TraceId → Prop}
    (h : InvertedIndex.Represents index R) (k : K) (t : TraceId) :
    unfile index k t = InvertedIndex.remove index k t := by
  rw [unfile, InvertedIndex.remove]
  cases hset : index.lookup k with
  | none => rfl
  | some set =>
    have hiff : (t ∈ set ∧ set.erase t = ∅) ↔
        RemovableBag.isEmpty (RemovableBag.remove t set) = true := by
      rw [RemovableBag.isEmpty_iff]
      constructor
      · rintro ⟨-, hempty⟩ v hv
        have : v ∈ set.erase t := hv
        rw [hempty] at this
        exact absurd this (Finset.notMem_empty v)
      · intro hnone
        have hempty : set.erase t = ∅ := Finset.eq_empty_of_forall_notMem hnone
        obtain ⟨v, hv⟩ := h.nonempty k set hset
        refine ⟨?_, hempty⟩
        by_contra ht
        rw [Finset.erase_eq_of_notMem ht] at hempty
        exact absurd hv (hempty ▸ Finset.notMem_empty v)
    dsimp only
    by_cases hc : t ∈ set ∧ set.erase t = ∅
    · rw [if_pos hc, if_pos (hiff.mp hc)]
    · rw [if_neg hc, if_neg (mt hiff.mpr hc)]
      rfl

/-- Reconcile one index: each of the keys goes that does not survive. -/
def reconcileIndex (t : TraceId) (surviving : List K) (index : FxHashMap K (FxHashSet TraceId))
    (keys : List K) : FxHashMap K (FxHashSet TraceId) :=
  keys.foldl (fun index k => if k ∈ surviving then index else unfile index k t) index

theorem represents_reconcileIndex {index : FxHashMap K (FxHashSet TraceId)}
    {R : K → TraceId → Prop} (h : InvertedIndex.Represents index R) (t : TraceId)
    (surviving keys : List K) :
    InvertedIndex.Represents (reconcileIndex t surviving index keys) fun k t' =>
      R k t' ∧ ¬ (t' = t ∧ k ∈ keys ∧ k ∉ surviving) := by
  induction keys generalizing index R with
  | nil => exact h.congr fun k t' => by simp
  | cons k₀ keys ih =>
    rw [reconcileIndex, List.foldl_cons]
    by_cases hsur : k₀ ∈ surviving
    · rw [if_pos hsur]
      refine (ih h).congr fun k t' => and_congr_right fun _ => not_congr ?_
      refine and_congr_right fun _ => ⟨fun hk => ⟨List.mem_cons_of_mem _ hk.1, hk.2⟩, ?_⟩
      rintro ⟨hk, hns⟩
      exact ⟨(List.mem_cons.mp hk).resolve_left fun heq => hns (heq ▸ hsur), hns⟩
    · rw [if_neg hsur, unfile_eq_remove h]
      refine (ih (h.remove k₀ t)).congr fun k t' => ?_
      rw [List.mem_cons]
      constructor
      · rintro ⟨⟨hr, hne⟩, hno⟩
        refine ⟨hr, ?_⟩
        rintro ⟨rfl, rfl | hk, hns⟩
        · exact hne ⟨rfl, rfl⟩
        · exact hno ⟨rfl, hk, hns⟩
      · rintro ⟨hr, hno⟩
        refine ⟨⟨hr, ?_⟩, fun hc => hno ⟨hc.1, Or.inr hc.2.1, hc.2.2⟩⟩
        rintro ⟨rfl, rfl⟩
        exact hno ⟨rfl, Or.inl rfl, hsur⟩

end Unfile

end TraceStore

/-! ### One of the three indexes -/

open TraceStore

/-- An index from a property of a span to the traces that have such a span, with what each part of
the code does to it. -/
structure SpanIndex (Rodeo Spur F64 K : Type) [LinearOrder Spur] [Interner Rodeo Spur]
    [DecidableEq K] where
  index : TraceStore Rodeo Spur F64 → FxHashMap K (FxHashSet TraceId)
  key : Span Spur F64 → K
  /-- The same property, read off the keys of a span. -/
  ofKeys : Spur × SpanStatus × Spur → K
  ofKeys_indexKeys : ∀ span, ofKeys (indexKeys span) = key span
  index_new : index new = ∅
  /-- The index is a field apart from the traces and the total. -/
  index_withTraces : ∀ (s : TraceStore Rodeo Spur F64) traces totalSpans,
    index { s with traces := traces, totalSpans := totalSpans } = index s
  index_withAttr : ∀ (s : TraceStore Rodeo Spur F64) attrIndex,
    index { s with attrIndex := attrIndex } = index s
  index_withInterner : ∀ (s : TraceStore Rodeo Spur F64) interner,
    index { s with interner := interner } = index s
  index_ingestSpan : ∀ s span,
    index (ingestSpan s span) = InvertedIndex.add (index s) (key span) span.traceId
  index_reconcileKeys : ∀ t survivors s keys,
    index (reconcileKeys t survivors s keys) =
      if ofKeys keys ∈ survivors.map key then index s else unfile (index s) (ofKeys keys) t
  index_unindexSpan : ∀ t s span,
    index (unindexSpan t s span) = InvertedIndex.discard (index s) (key span) t
  index_sweepIndexes : ∀ s, index (sweepIndexes s) = InvertedIndex.sweep (index s)

namespace SpanIndex

variable {Rodeo Spur F64 : Type} [LinearOrder Spur] [Interner Rodeo Spur]

/-- `service_index`. -/
def service : SpanIndex Rodeo Spur F64 Spur where
  index := serviceIndex
  key := Span.serviceName
  ofKeys keys := keys.2.2
  ofKeys_indexKeys _ := rfl
  index_new := rfl
  index_withTraces _ _ _ := rfl
  index_withAttr _ _ := rfl
  index_withInterner _ _ := rfl
  index_ingestSpan _ _ := rfl
  index_reconcileKeys _ _ _ _ := rfl
  index_unindexSpan _ _ _ := rfl
  index_sweepIndexes _ := rfl

/-- `name_index`. -/
def name : SpanIndex Rodeo Spur F64 Spur where
  index := nameIndex
  key := Span.name
  ofKeys keys := keys.1
  ofKeys_indexKeys _ := rfl
  index_new := rfl
  index_withTraces _ _ _ := rfl
  index_withAttr _ _ := rfl
  index_withInterner _ _ := rfl
  index_ingestSpan _ _ := rfl
  index_reconcileKeys _ _ _ _ := rfl
  index_unindexSpan _ _ _ := rfl
  index_sweepIndexes _ := rfl

/-- `status_index`. -/
def status : SpanIndex Rodeo Spur F64 SpanStatus where
  index := statusIndex
  key := Span.status
  ofKeys keys := keys.2.1
  ofKeys_indexKeys _ := rfl
  index_new := rfl
  index_withTraces _ _ _ := rfl
  index_withAttr _ _ := rfl
  index_withInterner _ _ := rfl
  index_ingestSpan _ _ := rfl
  index_reconcileKeys _ _ _ _ := rfl
  index_unindexSpan _ _ _ := rfl
  index_sweepIndexes _ := rfl

end SpanIndex

namespace TraceStore

variable {Rodeo Spur F64 K : Type} [LinearOrder Spur] [Interner Rodeo Spur] [DecidableEq K]

/-- The traces with a span whose property is `k`. -/
def FilesKey (ix : SpanIndex Rodeo Spur F64 K) (traces : FxHashMap TraceId (List (Span Spur F64))) :
    K → TraceId → Prop :=
  Files traces fun span k => ix.key span = k

/-! ### Reconciling, on the whole store -/

omit [Interner Rodeo Spur] in
@[simp] theorem reconcileTraceIndexes_traces (s : TraceStore Rodeo Spur F64) (t : TraceId)
    (before : SpanIndexKeys Spur) : (s.reconcileTraceIndexes t before).traces = s.traces := by
  rw [reconcileTraceIndexes]
  generalize (s.traces.lookup t).getD [] = survivors
  induction before generalizing s with
  | nil => rfl
  | cons keys before ih => rw [List.foldl_cons, ih]; rfl

omit [Interner Rodeo Spur] in
@[simp] theorem reconcileTraceIndexes_totalSpans (s : TraceStore Rodeo Spur F64) (t : TraceId)
    (before : SpanIndexKeys Spur) :
    (s.reconcileTraceIndexes t before).totalSpans = s.totalSpans := by
  rw [reconcileTraceIndexes]
  generalize (s.traces.lookup t).getD [] = survivors
  induction before generalizing s with
  | nil => rfl
  | cons keys before ih => rw [List.foldl_cons, ih]; rfl

theorem index_reconcileTraceIndexes (ix : SpanIndex Rodeo Spur F64 K)
    (s : TraceStore Rodeo Spur F64) (t : TraceId) (before : SpanIndexKeys Spur) :
    ix.index (s.reconcileTraceIndexes t before) =
      reconcileIndex t ((spansOf s.traces t).map ix.key) (ix.index s) (before.map ix.ofKeys) := by
  rw [reconcileTraceIndexes, ← spansOf, reconcileIndex]
  generalize spansOf s.traces t = survivors
  induction before generalizing s with
  | nil => rfl
  | cons keys before ih => rw [List.foldl_cons, ih, ix.index_reconcileKeys]; rfl

/-! ### The attribute index -/

/-- The two-level index stands for a relation between keys, values and traces: every inner index
does, and no key is bound to an empty one. -/
def AttrRepresents (index : FxHashMap Spur (FxHashMap Spur (FxHashSet TraceId)))
    (R : Spur → Spur → TraceId → Prop) : Prop :=
  ∀ key, InvertedIndex.Represents ((index.lookup key).getD ∅) (R key) ∧
    index.lookup key ≠ some ∅

theorem AttrRepresents.congr {index : FxHashMap Spur (FxHashMap Spur (FxHashSet TraceId))}
    {R R' : Spur → Spur → TraceId → Prop} (h : AttrRepresents index R)
    (hR : ∀ key v t, R key v t ↔ R' key v t) : AttrRepresents index R' :=
  fun key => ⟨(h key).1.congr (hR key), (h key).2⟩

theorem attrRepresents_empty :
    AttrRepresents (∅ : FxHashMap Spur (FxHashMap Spur (FxHashSet TraceId)))
      fun _ _ _ => False :=
  fun _ => ⟨InvertedIndex.represents_empty, by simp⟩

theorem AttrRepresents.addAttr {index : FxHashMap Spur (FxHashMap Spur (FxHashSet TraceId))}
    {R : Spur → Spur → TraceId → Prop} (h : AttrRepresents index R) (t : TraceId)
    (pair : Spur × Spur) :
    AttrRepresents (addAttr t index pair)
      fun key v t' => (t' = t ∧ (key, v) = pair) ∨ R key v t' := by
  intro key
  rw [TraceStore.addAttr, Finmap.lookup_insert_eq_ite]
  by_cases hkey : key = pair.1
  · subst hkey
    rw [if_pos rfl]
    refine ⟨((h pair.1).1.add pair.2 t).congr fun v t' => or_congr ?_ Iff.rfl, ?_⟩
    · rw [and_comm]
      exact and_congr_right fun _ => ⟨fun hv => Prod.ext rfl hv, fun hp => congrArg Prod.snd hp⟩
    · intro hempty
      have hmem : pair.2 ∈ InvertedIndex.add ((index.lookup pair.1).getD ∅) pair.2 t :=
        ((h pair.1).1.add pair.2 t).mem_iff pair.2 |>.mpr ⟨t, Or.inl ⟨rfl, rfl⟩⟩
      rw [Option.some.inj hempty] at hmem
      exact absurd hmem Finmap.notMem_empty
  · rw [if_neg hkey]
    refine ⟨(h key).1.congr fun v t' => (or_iff_right ?_).symm, (h key).2⟩
    rintro ⟨-, hp⟩
    exact hkey (congrArg Prod.fst hp)

theorem AttrRepresents.indexAttributes
    {index : FxHashMap Spur (FxHashMap Spur (FxHashSet TraceId))}
    {R : Spur → Spur → TraceId → Prop} (h : AttrRepresents index R) (t : TraceId)
    (span : Span Spur F64) :
    AttrRepresents (indexAttributes index t span)
      fun key v t' => (t' = t ∧ (key, v) ∈ span.stringAttributes) ∨ R key v t' := by
  rw [TraceStore.indexAttributes]
  generalize span.stringAttributes = pairs
  induction pairs generalizing index R with
  | nil => exact h.congr fun key v t' => by simp
  | cons pair pairs ih =>
    refine (ih (h.addAttr t pair)).congr fun key v t' => ?_
    rw [List.mem_cons]
    tauto

/-- The traces with a span that has the attribute pair. -/
def FilesAttr (traces : FxHashMap TraceId (List (Span Spur F64))) (key v : Spur) (t : TraceId) :
    Prop :=
  Files traces (fun span pair => pair ∈ span.stringAttributes) (key, v) t

omit [Interner Rodeo Spur] in
/-- **A rebuilt attribute index is right whatever it was before.** -/
theorem attrRepresents_rebuildAttrIndex (it : IterOrder TraceId) (s : TraceStore Rodeo Spur F64) :
    AttrRepresents (s.rebuildAttrIndex it).attrIndex (FilesAttr s.traces) := by
  have hspans : ∀ (t : TraceId) (spans : List (Span Spur F64)) index
      (R : Spur → Spur → TraceId → Prop), AttrRepresents index R →
        AttrRepresents (spans.foldl (fun index span => indexAttributes index t span) index)
          fun key v t' => (t' = t ∧ ∃ span ∈ spans, (key, v) ∈ span.stringAttributes) ∨
            R key v t' := by
    intro t spans
    induction spans with
    | nil => exact fun index R h => h.congr fun key v t' => by simp
    | cons span spans ih =>
      intro index R h
      refine (ih _ _ (h.indexAttributes t span)).congr fun key v t' => ?_
      rw [List.exists_mem_cons_iff, and_or_left, or_left_comm, or_assoc]
  have htraces : ∀ (ts : List TraceId) index (R : Spur → Spur → TraceId → Prop),
      AttrRepresents index R →
        AttrRepresents (ts.foldl (fun index t =>
          (spansOf s.traces t).foldl (fun index span => indexAttributes index t span) index) index)
          fun key v t' => (t' ∈ ts ∧ FilesAttr s.traces key v t') ∨ R key v t' := by
    intro ts
    induction ts with
    | nil => exact fun index R h => h.congr fun key v t' => by simp
    | cons t ts ih =>
      intro index R h
      refine (ih _ _ (hspans t _ index R h)).congr fun key v t' => ?_
      rw [List.mem_cons]
      constructor
      · rintro (⟨hts, hf⟩ | ⟨rfl, hf⟩ | hr)
        · exact Or.inl ⟨Or.inr hts, hf⟩
        · exact Or.inl ⟨Or.inl rfl, hf⟩
        · exact Or.inr hr
      · rintro (⟨rfl | hts, hf⟩ | hr)
        · exact Or.inr (Or.inl ⟨rfl, hf⟩)
        · exact Or.inl ⟨hts, hf⟩
        · exact Or.inr (Or.inr hr)
  refine (htraces (it.keys s.traces) ∅ _ attrRepresents_empty).congr fun key v t => ?_
  rw [or_false]
  refine and_iff_right_of_imp fun hf => ?_
  obtain ⟨span, hspan, -⟩ := hf
  rw [IterOrder.mem_keys]
  by_contra ht
  rw [spansOf, Finmap.lookup_eq_none.mpr ht] at hspan
  exact absurd hspan (by simp)

/-! ### The invariant -/

/-- The three indexes and the total fit the stored spans, and no stored trace is without spans. -/
structure KeyIndexed (s : TraceStore Rodeo Spur F64) : Prop where
  index : ∀ {K : Type} [DecidableEq K] (ix : SpanIndex Rodeo Spur F64 K),
    InvertedIndex.Represents (ix.index s) (FilesKey ix s.traces)
  nonempty : ∀ {t spans}, s.traces.lookup t = some spans → spans ≠ []
  total : s.totalSpans = s.traces.total List.length

/-- All four indexes and the total fit the stored spans. -/
structure Invariant (s : TraceStore Rodeo Spur F64) : Prop extends KeyIndexed s where
  attr : AttrRepresents s.attrIndex (FilesAttr s.traces)

/-- Every removal ends by rebuilding the attribute index. -/
theorem KeyIndexed.rebuildAttrIndex {s : TraceStore Rodeo Spur F64} (h : s.KeyIndexed)
    (it : IterOrder TraceId) : (s.rebuildAttrIndex it).Invariant where
  index ix := by
    rw [TraceStore.rebuildAttrIndex, ix.index_withAttr]
    exact h.index ix
  nonempty := h.nonempty
  total := h.total
  attr := attrRepresents_rebuildAttrIndex it s

theorem invariant_new : Invariant (new : TraceStore Rodeo Spur F64) where
  index ix := by
    rw [ix.index_new]
    exact InvertedIndex.represents_empty.congr fun k t => by simp [FilesKey, Files, spansOf, new]
  attr := attrRepresents_empty.congr fun key v t => by simp [FilesAttr, Files, spansOf, new]
  nonempty h := by simp [new] at h
  total := rfl

/-- A stored trace is one that has spans. -/
theorem Invariant.lookup_eq {s : TraceStore Rodeo Spur F64} (h : s.Invariant) (t : TraceId) :
    s.traces.lookup t = if spansOf s.traces t = [] then none else some (spansOf s.traces t) := by
  rw [spansOf]
  cases hst : s.traces.lookup t with
  | none => simp
  | some spans => simp [h.nonempty hst]

/-- The invariant does not depend on the interner. -/
theorem Invariant.withInterner {s : TraceStore Rodeo Spur F64} (h : s.Invariant)
    (interner : Rodeo) : Invariant { s with interner := interner } :=
  ⟨⟨fun ix => (ix.index_withInterner s interner) ▸ h.index ix, h.nonempty, h.total⟩, h.attr⟩

/-! ### Ingest -/

omit [Interner Rodeo Spur] in
theorem spansOf_ingestSpan (s : TraceStore Rodeo Spur F64) (span : Span Spur F64) (t : TraceId) :
    spansOf (s.ingestSpan span).traces t =
      if t = span.traceId then spansOf s.traces t ++ [span] else spansOf s.traces t := by
  rw [ingestSpan, spansOf_insert]
  split
  · next ht => rw [ht]; rfl
  · rfl

omit [Interner Rodeo Spur] [DecidableEq K] in
theorem files_ingestSpan (s : TraceStore Rodeo Spur F64) (span : Span Spur F64)
    (P : Span Spur F64 → K → Prop) (k : K) (t : TraceId) :
    Files (s.ingestSpan span).traces P k t ↔
      (t = span.traceId ∧ P span k) ∨ Files s.traces P k t := by
  rw [Files, spansOf_ingestSpan]
  by_cases ht : t = span.traceId
  · rw [if_pos ht]
    simp only [List.mem_append, List.mem_singleton, ht, true_and]
    constructor
    · rintro ⟨sp, hsp | rfl, hp⟩
      · exact Or.inr ⟨sp, hsp, hp⟩
      · exact Or.inl hp
    · rintro (hp | ⟨sp, hsp, hp⟩)
      · exact ⟨span, Or.inr rfl, hp⟩
      · exact ⟨sp, Or.inl hsp, hp⟩
  · rw [if_neg ht]
    simp [ht, Files]

theorem Invariant.ingestSpan {s : TraceStore Rodeo Spur F64} (h : s.Invariant)
    (span : Span Spur F64) : (s.ingestSpan span).Invariant where
  index ix := by
    rw [ix.index_ingestSpan]
    refine ((h.index ix).add (ix.key span) span.traceId).congr fun k t => ?_
    have hfiles := files_ingestSpan s span (fun span k => ix.key span = k) k t
    rw [FilesKey, FilesKey, hfiles]
    exact or_congr ⟨fun hk => ⟨hk.2, hk.1.symm⟩, fun hk => ⟨hk.2.symm, hk.1⟩⟩ Iff.rfl
  attr := (h.attr.indexAttributes span.traceId span).congr fun key v t =>
    (files_ingestSpan s span (fun span pair => pair ∈ span.stringAttributes) (key, v) t).symm
  nonempty {t spans} hst := by
    rw [TraceStore.ingestSpan, Finmap.lookup_insert_eq_ite] at hst
    split at hst
    · obtain rfl := Option.some.inj hst
      simp
    · exact h.nonempty hst
  total := by
    show s.totalSpans + 1 = (s.traces.insert _ _).total _
    rw [h.total]
    cases hst : s.traces.lookup span.traceId with
    | none =>
      rw [Finmap.total_insert_of_notMem _ _ (Finmap.lookup_eq_none.mp hst)]
      simp [Nat.add_comm]
    | some spans =>
      have := Finmap.total_insert List.length hst (c := spans ++ [span])
      simp only [Option.getD_some, List.length_append, List.length_singleton] at this ⊢
      omega

theorem Invariant.ingestSpans {s : TraceStore Rodeo Spur F64} (h : s.Invariant)
    (spans : List (Span Spur F64)) : (s.ingestSpans spans).Invariant := by
  rw [TraceStore.ingestSpans]
  induction spans generalizing s with
  | nil => exact h
  | cons span spans ih => exact ih (h.ingestSpan span)

/-! ### Eviction of whole traces -/

/-- What holds between the turns of the loop of `evict_to_max`: the indexes file the right traces,
though an entry may be empty. -/
structure Sweepable (s : TraceStore Rodeo Spur F64) : Prop where
  holds : ∀ {K : Type} [DecidableEq K] (ix : SpanIndex Rodeo Spur F64 K) (k : K) (t : TraceId),
    InvertedIndex.Holds (ix.index s) k t ↔ FilesKey ix s.traces k t
  nonempty : ∀ {t spans}, s.traces.lookup t = some spans → spans ≠ []
  total : s.totalSpans = s.traces.total List.length

omit [Interner Rodeo Spur] in
@[simp] theorem foldl_unindexSpan_frame (t : TraceId) (spans : List (Span Spur F64))
    (s : TraceStore Rodeo Spur F64) :
    (spans.foldl (unindexSpan t) s).traces = s.traces ∧
      (spans.foldl (unindexSpan t) s).totalSpans = s.totalSpans := by
  induction spans generalizing s with
  | nil => exact ⟨rfl, rfl⟩
  | cons span spans ih => exact ih _

/-- Unindexing spans takes the trace out from under their keys. -/
theorem holds_foldl_unindexSpan (ix : SpanIndex Rodeo Spur F64 K) (t : TraceId)
    (spans : List (Span Spur F64)) (s : TraceStore Rodeo Spur F64) (k : K) (t' : TraceId) :
    InvertedIndex.Holds (ix.index (spans.foldl (unindexSpan t) s)) k t' ↔
      InvertedIndex.Holds (ix.index s) k t' ∧ ¬ (t' = t ∧ ∃ span ∈ spans, ix.key span = k) := by
  induction spans generalizing s with
  | nil => simp
  | cons span spans ih =>
    rw [List.foldl_cons, ih, ix.index_unindexSpan, InvertedIndex.holds_discard,
      List.exists_mem_cons_iff, and_assoc]
    refine and_congr_right fun _ => ?_
    constructor
    · rintro ⟨h1, h2⟩ ⟨ht, hk | hex⟩
      · exact h1 ⟨hk.symm, ht⟩
      · exact h2 ⟨ht, hex⟩
    · intro hno
      exact ⟨fun hc => hno ⟨hc.2, Or.inl hc.1.symm⟩, fun hc => hno ⟨hc.1, Or.inr hc.2⟩⟩

theorem Sweepable.evictTrace {s : TraceStore Rodeo Spur F64} (h : s.Sweepable) (maxSpans : ℕ)
    (t : TraceId) : (s.evictTrace maxSpans t).Sweepable := by
  rw [TraceStore.evictTrace]
  split
  · exact h
  split
  · exact h
  next spans hst =>
    obtain ⟨htr, htot⟩ := foldl_unindexSpan_frame t spans { s with
      traces := s.traces.erase t
      totalSpans := s.totalSpans - spans.length }
    refine ⟨fun ix k t' => ?_, fun hst' => ?_, ?_⟩
    · rw [holds_foldl_unindexSpan, ix.index_withTraces, h.holds ix, htr, FilesKey, FilesKey, Files,
        Files, spansOf_erase]
      by_cases ht : t' = t
      · subst ht
        have hspans : spansOf s.traces t' = spans := by rw [spansOf, hst]; rfl
        simp [hspans]
      · simp [ht]
    · rw [htr] at hst'
      dsimp only at hst'
      rw [Finmap.lookup_erase_eq_ite] at hst'
      split at hst'
      · exact absurd hst' (by simp)
      · exact h.nonempty hst'
    · rw [htot, htr]
      have := Finmap.total_erase List.length hst
      have := h.total
      dsimp only
      omega

theorem Invariant.evictToMax {s : TraceStore Rodeo Spur F64} (h : s.Invariant)
    (it : IterOrder TraceId) (maxSpans : ℕ) : (s.evictToMax it maxSpans).Invariant := by
  rw [TraceStore.evictToMax]
  split
  · exact h
  · have hstart : s.Sweepable := ⟨fun ix => (h.index ix).holds_iff, h.nonempty, h.total⟩
    have hloop : ∀ (ts : List TraceId) (s' : TraceStore Rodeo Spur F64), s'.Sweepable →
        (ts.foldl (TraceStore.evictTrace maxSpans) s').Sweepable := by
      intro ts
      induction ts with
      | nil => exact fun s' h' => h'
      | cons t ts ih => exact fun s' h' => ih _ (h'.evictTrace maxSpans t)
    have hswept := hloop ((it.keys s.traces).sortByKey s.earliestStart) s hstart
    have hindexed : (sweepIndexes (((it.keys s.traces).sortByKey s.earliestStart).foldl
        (TraceStore.evictTrace maxSpans) s)).KeyIndexed := by
      refine ⟨fun ix => ?_, hswept.nonempty, hswept.total⟩
      rw [ix.index_sweepIndexes]
      exact InvertedIndex.represents_sweep (hswept.holds ix)
    exact hindexed.rebuildAttrIndex it

/-! ### Removal of some spans -/

/-- **Reconciling the traces that changed.** The traces are already as they are left; each change
names a trace and the keys it had before. -/
theorem represents_foldl_reconcile (ix : SpanIndex Rodeo Spur F64 K)
    (changes : List (TraceId × SpanIndexKeys Spur)) {s : TraceStore Rodeo Spur F64}
    {R : K → TraceId → Prop} (h : InvertedIndex.Represents (ix.index s) R) :
    InvertedIndex.Represents
      (ix.index (changes.foldl (fun s change => s.reconcileTraceIndexes change.1 change.2) s))
      fun k t => R k t ∧ ¬ ∃ change ∈ changes, t = change.1 ∧ k ∈ change.2.map ix.ofKeys ∧
        k ∉ (spansOf s.traces t).map ix.key := by
  induction changes generalizing s R with
  | nil => exact h.congr fun k t => by simp
  | cons change changes ih =>
    have hone : InvertedIndex.Represents (ix.index (s.reconcileTraceIndexes change.1 change.2))
        fun k t => R k t ∧ ¬ (t = change.1 ∧ k ∈ change.2.map ix.ofKeys ∧
          k ∉ (spansOf s.traces change.1).map ix.key) := by
      rw [index_reconcileTraceIndexes]
      exact represents_reconcileIndex h change.1 _ _
    refine (ih hone).congr fun k t => ?_
    rw [reconcileTraceIndexes_traces, List.exists_mem_cons_iff, and_assoc]
    refine and_congr_right fun _ => ?_
    rw [not_or]
    refine and_congr (not_congr (and_congr_right fun ht => ?_)) Iff.rfl
    rw [ht]

/-- The keys of the spans of a trace, read off one index. -/
theorem map_ofKeys_indexKeys (ix : SpanIndex Rodeo Spur F64 K) (spans : List (Span Spur F64)) :
    (spans.map indexKeys).map ix.ofKeys = spans.map ix.key := by
  rw [List.map_map]
  exact List.map_congr_left fun span _ => ix.ofKeys_indexKeys span

/-- **What reconciling achieves**: when the spans left of every trace are among those it had, and
every trace that lost one is reconciled with the keys it had, the index fits what is left. -/
theorem represents_reconciled (ix : SpanIndex Rodeo Spur F64 K)
    {changes : List (TraceId × SpanIndexKeys Spur)} {s : TraceStore Rodeo Spur F64}
    {traces : FxHashMap TraceId (List (Span Spur F64))}
    (h : InvertedIndex.Represents (ix.index s) (FilesKey ix traces))
    (hsub : ∀ t, spansOf s.traces t ⊆ spansOf traces t)
    (hkeys : ∀ change ∈ changes, change.2 = (spansOf traces change.1).map indexKeys)
    (hall : ∀ t, spansOf s.traces t ≠ spansOf traces t → ∃ change ∈ changes, t = change.1) :
    InvertedIndex.Represents
      (ix.index (changes.foldl (fun s change => s.reconcileTraceIndexes change.1 change.2) s))
      (FilesKey ix s.traces) := by
  refine (represents_foldl_reconcile ix changes h).congr fun k t => ?_
  have hfiles : ∀ tr : FxHashMap TraceId (List (Span Spur F64)),
      FilesKey ix tr k t ↔ k ∈ (spansOf tr t).map ix.key := by
    intro tr
    rw [List.mem_map]
    rfl
  rw [hfiles, hfiles]
  constructor
  · rintro ⟨hold, hno⟩
    by_contra hnew
    obtain ⟨change, hc, ht⟩ := hall t fun heq => hnew (heq ▸ hold)
    refine hno ⟨change, hc, ht, ?_, hnew⟩
    rw [hkeys change hc, map_ofKeys_indexKeys, ← ht]
    exact hold
  · intro hnew
    exact ⟨List.map_subset _ (hsub t) hnew, fun ⟨_, _, _, _, hns⟩ => hns hnew⟩

/-- The spans `evict_before` keeps of a trace. -/
def notBefore (cutoffNs : ℤ) (spans : List (Span Spur F64)) : List (Span Spur F64) :=
  spans.filter fun span => decide (cutoffNs ≤ span.startTimeNs)

omit [LinearOrder Spur] in
theorem notBefore_of_not_any {cutoffNs : ℤ} {spans : List (Span Spur F64)}
    (h : ¬ (spans.any fun span => decide (span.startTimeNs < cutoffNs)) = true) :
    notBefore cutoffNs spans = spans := by
  rw [notBefore, List.filter_eq_self]
  intro span hspan
  rw [decide_eq_true_eq]
  by_contra hlt
  exact h (List.any_eq_true.mpr ⟨span, hspan, decide_eq_true (not_le.mp hlt)⟩)

/-- What the first loop of `evict_before` has done to the store `s` once it has visited some of its
traces. -/
structure DrainedUpTo (s : TraceStore Rodeo Spur F64) (cutoffNs : ℤ) (visited : List TraceId)
    (acc : Draining Rodeo Spur F64) : Prop where
  spans : ∀ t, spansOf acc.store.traces t =
    if t ∈ visited then notBefore cutoffNs (spansOf s.traces t) else spansOf s.traces t
  /-- The traces remembered as empty are those stored without spans. -/
  empty : ∀ t, acc.store.traces.lookup t = some [] ↔ t ∈ acc.emptyTraces
  keys : ∀ change ∈ acc.changed, change.2 = (spansOf s.traces change.1).map indexKeys
  /-- Every trace that lost a span is among the changed ones. -/
  all : ∀ t, spansOf acc.store.traces t ≠ spansOf s.traces t → ∃ change ∈ acc.changed, t = change.1
  index : ∀ {K : Type} [DecidableEq K] (ix : SpanIndex Rodeo Spur F64 K),
    ix.index acc.store = ix.index s
  total : acc.store.totalSpans = acc.store.traces.total List.length

theorem DrainedUpTo.step {s : TraceStore Rodeo Spur F64} {cutoffNs : ℤ} {visited : List TraceId}
    {acc : Draining Rodeo Spur F64} (h : DrainedUpTo s cutoffNs visited acc) {t : TraceId}
    (ht : t ∉ visited) : DrainedUpTo s cutoffNs (t :: visited) (drainTrace cutoffNs acc t) := by
  have hspans : spansOf acc.store.traces t = spansOf s.traces t := by rw [h.spans, if_neg ht]
  -- where the trace is left alone, it had nothing to lose
  have hsame : notBefore cutoffNs (spansOf s.traces t) = spansOf s.traces t →
      DrainedUpTo s cutoffNs (t :: visited) acc := by
    refine fun heq => ⟨fun t' => ?_, h.empty, h.keys, h.all, h.index, h.total⟩
    rw [h.spans]
    by_cases htt : t' = t
    · subst htt; simp [ht, heq]
    · simp [htt]
  rw [drainTrace]
  cases hst : acc.store.traces.lookup t with
  | none =>
    refine hsame ?_
    rw [← hspans, spansOf, hst]
    rfl
  | some spans =>
    have hs : spansOf s.traces t = spans := by rw [← hspans, spansOf, hst]; rfl
    dsimp only
    by_cases hold : (spans.any fun span => decide (span.startTimeNs < cutoffNs)) = true
    · rw [if_pos hold]
      have hkept : spans.filter (fun span => decide (cutoffNs ≤ span.startTimeNs)) =
        notBefore cutoffNs spans := rfl
      rw [hkept]
      refine ⟨fun t' => ?_, fun t' => ?_, fun change hc => ?_, fun t' hne => ?_, fun ix => ?_, ?_⟩
      · dsimp only
        rw [spansOf_insert, h.spans]
        by_cases htt : t' = t
        · subst htt; simp [hs]
        · simp [htt]
      · dsimp only
        rw [Finmap.lookup_insert_eq_ite]
        by_cases htt : t' = t
        · subst htt
          have hnot : t' ∉ acc.emptyTraces := by
            rw [← h.empty, hst]
            rintro heq
            obtain rfl := Option.some.inj heq
            exact absurd hold (by simp)
          by_cases hemp : notBefore cutoffNs spans = []
          · simp [hemp]
          · simp [hemp, hnot]
        · rw [if_neg htt, h.empty]
          by_cases hemp : notBefore cutoffNs spans = []
          · simp [hemp, htt]
          · simp [hemp]
      · rcases List.mem_append.mp hc with hc | hc
        · exact h.keys change hc
        · obtain rfl := List.mem_singleton.mp hc
          rw [hs]
      · dsimp only at hne ⊢
        rw [spansOf_insert] at hne
        split at hne
        · next htt => exact ⟨_, List.mem_append_right _ List.mem_cons_self, htt⟩
        · obtain ⟨change, hc, htc⟩ := h.all t' hne
          exact ⟨change, List.mem_append_left _ hc, htc⟩
      · exact (ix.index_withTraces _ _ _).trans (h.index ix)
      · dsimp only
        have hle : (notBefore cutoffNs spans).length ≤ spans.length := List.length_filter_le _ _
        have := Finmap.total_insert List.length hst (c := notBefore cutoffNs spans)
        have := h.total
        omega
    · rw [if_neg hold]
      exact hsame (by rw [hs]; exact notBefore_of_not_any hold)

theorem DrainedUpTo.loop {s : TraceStore Rodeo Spur F64} {cutoffNs : ℤ} {visited : List TraceId}
    {acc : Draining Rodeo Spur F64} (h : DrainedUpTo s cutoffNs visited acc) {ts : List TraceId}
    (hnodup : ts.Nodup) (hdisj : ∀ t ∈ ts, t ∉ visited) :
    DrainedUpTo s cutoffNs (ts.reverse ++ visited) (ts.foldl (drainTrace cutoffNs) acc) := by
  induction ts generalizing visited acc with
  | nil => exact h
  | cons t ts ih =>
    obtain ⟨ht, hnodup⟩ := List.nodup_cons.mp hnodup
    have hstep := h.step (hdisj t List.mem_cons_self)
    have := ih hstep hnodup fun t' ht' hmem => by
      rcases List.mem_cons.mp hmem with rfl | hmem
      · exact ht ht'
      · exact hdisj t' (List.mem_cons_of_mem _ ht') hmem
    rw [List.reverse_cons, List.append_assoc]
    exact this

omit [LinearOrder Spur] [Interner Rodeo Spur] in
theorem lookup_removeTraces (s : TraceStore Rodeo Spur F64) (ts : List TraceId) (t : TraceId) :
    (s.removeTraces ts).traces.lookup t = if t ∈ ts then none else s.traces.lookup t := by
  rw [removeTraces]
  dsimp only
  generalize s.traces = traces
  induction ts generalizing traces with
  | nil => simp
  | cons t' ts ih =>
    rw [List.foldl_cons, ih, Finmap.lookup_erase_eq_ite]
    by_cases ht : t = t' <;> simp [ht]

omit [LinearOrder Spur] in
/-- Removing traces without spans leaves the sum as it is. -/
theorem total_foldl_erase {traces : FxHashMap TraceId (List (Span Spur F64))} {ts : List TraceId}
    (h : ∀ t ∈ ts, ∀ spans, traces.lookup t = some spans → spans = []) :
    (ts.foldl (fun traces t => traces.erase t) traces).total List.length =
      traces.total List.length := by
  induction ts generalizing traces with
  | nil => rfl
  | cons t ts ih =>
    have herase : (traces.erase t).total List.length = traces.total List.length := by
      cases hst : traces.lookup t with
      | none => rw [Finmap.erase_of_notMem (Finmap.lookup_eq_none.mp hst)]
      | some spans =>
        have := Finmap.total_erase List.length hst
        rw [h t List.mem_cons_self spans hst] at this
        exact this
    rw [List.foldl_cons, ih, herase]
    intro t' ht' spans hst
    rw [Finmap.lookup_erase_eq_ite] at hst
    split at hst
    · exact absurd hst (by simp)
    · exact h t' (List.mem_cons_of_mem _ ht') spans hst

omit [Interner Rodeo Spur] in
theorem foldl_reconcile_frame (changes : List (TraceId × SpanIndexKeys Spur))
    (s : TraceStore Rodeo Spur F64) :
    (changes.foldl (fun s change => s.reconcileTraceIndexes change.1 change.2) s).traces =
        s.traces ∧
      (changes.foldl (fun s change => s.reconcileTraceIndexes change.1 change.2) s).totalSpans =
        s.totalSpans := by
  induction changes generalizing s with
  | nil => exact ⟨rfl, rfl⟩
  | cons change changes ih =>
    rw [List.foldl_cons, (ih _).1, (ih _).2, reconcileTraceIndexes_traces,
      reconcileTraceIndexes_totalSpans]
    exact ⟨rfl, rfl⟩

/-- The loop of `evict_before` over the whole store, with the traces left empty removed. -/
theorem drained_evictBefore {s : TraceStore Rodeo Spur F64} (h : s.Invariant)
    (it : IterOrder TraceId) (cutoffNs : ℤ) :
    let drained := (it.keys s.traces).foldl (drainTrace cutoffNs) ⟨s, [], []⟩
    DrainedUpTo s cutoffNs (it.keys s.traces).reverse drained ∧
      ∀ t, (drained.store.removeTraces drained.emptyTraces).traces.lookup t =
        if notBefore cutoffNs (spansOf s.traces t) = [] then none
        else some (notBefore cutoffNs (spansOf s.traces t)) := by
  intro drained
  have hstart : DrainedUpTo s cutoffNs [] (⟨s, [], []⟩ : Draining Rodeo Spur F64) :=
    ⟨fun t => by simp, fun t => by simpa using fun hst => h.nonempty hst rfl, by simp,
      fun t hne => absurd rfl hne, fun ix => rfl, h.total⟩
  have hloop : DrainedUpTo s cutoffNs (it.keys s.traces).reverse drained := by
    have := hstart.loop (it.nodup_keys s.traces) (by simp)
    rwa [List.append_nil] at this
  refine ⟨hloop, fun t => ?_⟩
  have hspans : spansOf drained.store.traces t = notBefore cutoffNs (spansOf s.traces t) := by
    rw [hloop.spans]
    split
    · rfl
    · next hno =>
      -- a trace that is not visited is not stored
      rw [List.mem_reverse, IterOrder.mem_keys] at hno
      rw [spansOf, Finmap.lookup_eq_none.mpr hno]
      rfl
  rw [lookup_removeTraces, ← hspans, spansOf]
  cases hst : drained.store.traces.lookup t with
  | none => simp
  | some spans =>
    by_cases hemp : spans = []
    · rw [if_pos ((hloop.empty t).mp (by rw [hst, hemp]))]
      simp [hemp]
    · rw [if_neg fun hmem => hemp ?_]
      · simp [hemp]
      · rw [(hloop.empty t).mpr hmem] at hst
        exact (Option.some.inj hst).symm

/-- The same, for everything the three indexes have to do with. -/
theorem KeyIndexed.reconciled {s : TraceStore Rodeo Spur F64}
    {changes : List (TraceId × SpanIndexKeys Spur)}
    {traces : FxHashMap TraceId (List (Span Spur F64))}
    (h : ∀ {K : Type} [DecidableEq K] (ix : SpanIndex Rodeo Spur F64 K),
      InvertedIndex.Represents (ix.index s) (FilesKey ix traces))
    (hsub : ∀ t, spansOf s.traces t ⊆ spansOf traces t)
    (hkeys : ∀ change ∈ changes, change.2 = (spansOf traces change.1).map indexKeys)
    (hall : ∀ t, spansOf s.traces t ≠ spansOf traces t → ∃ change ∈ changes, t = change.1)
    (hnonempty : ∀ {t spans}, s.traces.lookup t = some spans → spans ≠ [])
    (htotal : s.totalSpans = s.traces.total List.length) :
    (changes.foldl (fun s change => s.reconcileTraceIndexes change.1 change.2) s).KeyIndexed := by
  obtain ⟨htr, htot⟩ := foldl_reconcile_frame changes s
  refine ⟨fun ix => ?_, fun hst => hnonempty (htr ▸ hst), ?_⟩
  · rw [htr]
    exact represents_reconciled ix (h ix) hsub hkeys hall
  · rw [htot, htr, htotal]

theorem Invariant.evictBefore {s : TraceStore Rodeo Spur F64} (h : s.Invariant)
    (it : IterOrder TraceId) (cutoffNs : ℤ) : (s.evictBefore it cutoffNs).Invariant := by
  obtain ⟨hloop, hlook⟩ := drained_evictBefore h it cutoffNs
  rw [TraceStore.evictBefore]
  generalize (it.keys s.traces).foldl (drainTrace cutoffNs) ⟨s, [], []⟩ = drained at hloop hlook
  generalize hs' : drained.store.removeTraces drained.emptyTraces = s' at hlook
  have hspans : ∀ t, spansOf s'.traces t = notBefore cutoffNs (spansOf s.traces t) := by
    intro t
    rw [spansOf, hlook]
    split
    · next hemp => rw [hemp]; rfl
    · rfl
  have hdrained : ∀ t, spansOf s'.traces t = spansOf drained.store.traces t := by
    intro t
    rw [← hs', spansOf, lookup_removeTraces]
    split
    · next hmem => rw [spansOf, (hloop.empty t).mpr hmem]; rfl
    · rfl
  have hindex : ∀ {K : Type} [DecidableEq K] (ix : SpanIndex Rodeo Spur F64 K),
      InvertedIndex.Represents (ix.index s') (FilesKey ix s.traces) := by
    intro K _ ix
    rw [← hs', removeTraces, ix.index_withTraces _ _ drained.store.totalSpans, hloop.index ix]
    exact h.index ix
  have htotal : s'.totalSpans = s'.traces.total List.length := by
    rw [← hs', removeTraces]
    dsimp only
    rw [total_foldl_erase, hloop.total]
    intro t ht spans hst
    rw [(hloop.empty t).mpr ht] at hst
    exact (Option.some.inj hst).symm
  refine (KeyIndexed.reconciled hindex (fun t => ?_) hloop.keys (fun t hne => ?_)
    (fun {t spans} hst => ?_) htotal).rebuildAttrIndex it
  · rw [hspans]
    exact List.filter_sublist.subset
  · rw [hdrained] at hne
    exact hloop.all t hne
  · rw [hlook] at hst
    split at hst
    · exact absurd hst (by simp)
    · next hne => exact Option.some.inj hst ▸ hne

theorem KeyIndexed.clearServiceTrace {s : TraceStore Rodeo Spur F64} (h : s.KeyIndexed)
    (service : Spur) (t : TraceId) : (s.clearServiceTrace service t).KeyIndexed := by
  rw [TraceStore.clearServiceTrace]
  cases hst : s.traces.lookup t with
  | none => exact h
  | some spans =>
    dsimp only
    generalize hk : spans.filter (fun span => decide (span.serviceName ≠ service)) = kept
    have hs : spansOf s.traces t = spans := by rw [spansOf, hst]; rfl
    have hsub : kept ⊆ spans := hk ▸ List.filter_sublist.subset
    have hlen : kept.length ≤ spans.length := hk ▸ List.length_filter_le _ _
    have hspans : ∀ t', spansOf (if kept.isEmpty then s.traces.erase t
        else s.traces.insert t kept) t' = if t' = t then kept else spansOf s.traces t' := by
      intro t'
      by_cases hemp : kept.isEmpty = true
      · rw [if_pos hemp, spansOf_erase, List.isEmpty_iff.mp hemp]
      · rw [if_neg hemp, spansOf_insert]
    generalize hs' : ({ s with
      traces := if kept.isEmpty then s.traces.erase t else s.traces.insert t kept
      totalSpans := s.totalSpans - (spans.length - kept.length) } : TraceStore Rodeo Spur F64) = s'
    have htr : s'.traces = if kept.isEmpty then s.traces.erase t else s.traces.insert t kept :=
      hs' ▸ rfl
    have hindex : ∀ {K : Type} [DecidableEq K] (ix : SpanIndex Rodeo Spur F64 K),
        InvertedIndex.Represents (ix.index s') (FilesKey ix s.traces) := by
      intro K _ ix
      rw [← hs', ix.index_withTraces]
      exact h.index ix
    show (List.foldl (fun s change => s.reconcileTraceIndexes change.1 change.2) s'
      [(t, spans.map indexKeys)]).KeyIndexed
    refine KeyIndexed.reconciled hindex (fun t' => ?_) (fun change hc => ?_) (fun t' hne => ?_)
      (fun {t' spans'} hst' => ?_) ?_
    · rw [htr]
      rw [hspans]
      split
      · next ht => rw [ht, hs]; exact hsub
      · exact List.Subset.refl _
    · obtain rfl := List.mem_singleton.mp hc
      rw [hs]
    · rw [htr, hspans] at hne
      split at hne
      · next ht => exact ⟨_, List.mem_cons_self, ht⟩
      · exact absurd rfl hne
    · rw [htr] at hst'
      split at hst'
      · rw [Finmap.lookup_erase_eq_ite] at hst'
        split at hst'
        · exact absurd hst' (by simp)
        · exact h.nonempty hst'
      · next hemp =>
        rw [Finmap.lookup_insert_eq_ite] at hst'
        split at hst'
        · obtain rfl := Option.some.inj hst'
          exact fun hnil => hemp (List.isEmpty_iff.mpr hnil)
        · exact h.nonempty hst'
    · have htot : s'.totalSpans = s.totalSpans - (spans.length - kept.length) := hs' ▸ rfl
      have := h.total
      rw [htot, htr]
      split
      · next hemp =>
        have := Finmap.total_erase List.length hst
        have : kept.length = 0 := List.length_eq_zero_iff.mpr (List.isEmpty_iff.mp hemp)
        omega
      · have := Finmap.total_insert List.length hst (c := kept)
        omega

theorem Invariant.clearService {s : TraceStore Rodeo Spur F64} (h : s.Invariant)
    (it : IterOrder TraceId) (service : String) : (s.clearService it service).Invariant := by
  rw [TraceStore.clearService]
  cases Interner.get s.interner service with
  | none => exact h
  | some serviceSpur =>
    have hloop : ∀ (ts : List TraceId) (s' : TraceStore Rodeo Spur F64), s'.KeyIndexed →
        (ts.foldl (TraceStore.clearServiceTrace serviceSpur) s').KeyIndexed := by
      intro ts
      induction ts with
      | nil => exact fun s' h' => h'
      | cons t ts ih => exact fun s' h' => ih _ (h'.clearServiceTrace serviceSpur t)
    dsimp only
    cases s.serviceIndex.lookup serviceSpur with
    | none => exact h
    | some traceIds => exact (hloop _ s h.toKeyIndexed).rebuildAttrIndex it

/-! ### Runs -/

theorem Invariant.apply {s : TraceStore Rodeo Spur F64} (h : s.Invariant) (op : TraceOp Spur F64) :
    (s.apply op).Invariant := by
  cases op with
  | ingestSpans spans => exact h.ingestSpans spans
  | intern string => exact h.withInterner _
  | evictBefore it cutoffNs => exact h.evictBefore it cutoffNs
  | evictToMax it maxSpans => exact h.evictToMax it maxSpans
  | clear => exact invariant_new
  | clearService it service => exact h.clearService it service

/-- Every run keeps the indexes fitting. -/
theorem invariant_exec (ops : List (TraceOp Spur F64)) :
    (Run.exec TraceStore.apply (new : TraceStore Rodeo Spur F64) ops).Invariant :=
  Run.exec_invariant (fun _ op hs => hs.apply op) invariant_new ops

/-! ### The invariant, read out -/

/-- The index binds a key exactly to the traces that hold a stored span with the property, and no
key to an empty set. -/
def ExactIndex {K : Type} [DecidableEq K] (index : FxHashMap K (FxHashSet TraceId))
    (traces : FxHashMap TraceId (List (Span Spur F64))) (P : Span Spur F64 → K → Prop) : Prop :=
  (∀ k t, (∃ set, index.lookup k = some set ∧ t ∈ set) ↔
    ∃ spans, traces.lookup t = some spans ∧ ∃ span ∈ spans, P span k) ∧
  ∀ k set, index.lookup k = some set → set ≠ ∅

/-- **A consistent trace store**: what the invariant says, in terms of the maps themselves. -/
structure Consistent (s : TraceStore Rodeo Spur F64) : Prop where
  service : ExactIndex s.serviceIndex s.traces fun span k => span.serviceName = k
  name : ExactIndex s.nameIndex s.traces fun span k => span.name = k
  status : ExactIndex s.statusIndex s.traces fun span k => span.status = k
  /-- Under each attribute key, an index of the values it has as a string. -/
  attr : ∀ key, ExactIndex ((s.attrIndex.lookup key).getD ∅) s.traces fun span v =>
    (key, AttributeValue.string v) ∈ span.attributes
  attr_ne_empty : ∀ key inner, s.attrIndex.lookup key = some inner → inner ≠ ∅
  spans_ne_nil : ∀ t spans, s.traces.lookup t = some spans → spans ≠ []
  total_eq : s.totalSpans = s.traces.total List.length

omit [LinearOrder Spur] [DecidableEq K] in
theorem files_iff_lookup {traces : FxHashMap TraceId (List (Span Spur F64))}
    {P : Span Spur F64 → K → Prop} {k : K} {t : TraceId} :
    Files traces P k t ↔ ∃ spans, traces.lookup t = some spans ∧ ∃ span ∈ spans, P span k := by
  rw [Files, spansOf]
  cases traces.lookup t with
  | none => simp
  | some spans => simp

omit [LinearOrder Spur] in
theorem exactIndex_of_represents {index : FxHashMap K (FxHashSet TraceId)}
    {traces : FxHashMap TraceId (List (Span Spur F64))} {P : Span Spur F64 → K → Prop}
    (h : InvertedIndex.Represents index (Files traces P)) : ExactIndex index traces P := by
  refine ⟨fun k t => (h.holds_iff k t).trans files_iff_lookup, fun k set hset => ?_⟩
  obtain ⟨t, ht⟩ := h.nonempty k set hset
  exact Finset.ne_empty_of_mem ht

omit [LinearOrder Spur] in
theorem mem_stringAttributes {span : Span Spur F64} {key v : Spur} :
    (key, v) ∈ span.stringAttributes ↔ (key, AttributeValue.string v) ∈ span.attributes := by
  rw [Span.stringAttributes, List.mem_filterMap]
  constructor
  · rintro ⟨⟨key', val⟩, hmem, heq⟩
    cases val with
    | string v' =>
      obtain ⟨rfl, rfl⟩ := Prod.mk.inj (Option.some.inj heq)
      exact hmem
    | _ => exact absurd heq (by simp)
  · exact fun hmem => ⟨_, hmem, rfl⟩

theorem Invariant.consistent {s : TraceStore Rodeo Spur F64} (h : s.Invariant) : s.Consistent where
  service := exactIndex_of_represents (h.index SpanIndex.service)
  name := exactIndex_of_represents (h.index SpanIndex.name)
  status := exactIndex_of_represents (h.index SpanIndex.status)
  attr key := by
    refine exactIndex_of_represents ((h.attr key).1.congr fun v t => ?_)
    rw [FilesAttr, Files, Files]
    simp only [mem_stringAttributes]
  attr_ne_empty key inner hinner hempty := (h.attr key).2 (hempty ▸ hinner)
  spans_ne_nil _ _ := h.nonempty
  total_eq := h.total

/-- **Every reachable trace store is consistent**: the four indexes, and the total. -/
theorem consistent_traces_exec (ops : List (TraceOp Spur F64)) :
    (Run.exec TraceStore.apply (new : TraceStore Rodeo Spur F64) ops).Consistent :=
  (invariant_exec ops).consistent

end TraceStore

end Aniani
