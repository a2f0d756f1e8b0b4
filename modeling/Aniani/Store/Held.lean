import Aniani.Store.LogStore
import Aniani.Store.MetricStore
import Aniani.Store.TraceConsistency

/-!
# What a store holds

A store holds the entries of its streams, or the spans of its traces. An operation adds to it what
it is given to ingest; a removal adds nothing, and neither does anything else. This needs nothing of
the invariant.

## Main definitions

* `LabelStore.Holds`, `TraceStore.Holds`
* `LogOp.entries`, `MetricOp.samples`, `TraceOp.spans` — what an operation is given to ingest

## Main results

* `LogStore.holds_apply`, `MetricStore.holds_apply`, `TraceStore.holds_apply`
-/

namespace Aniani

/-! ### Label stores -/

namespace LabelStore

variable {Rodeo Spur α : Type}

/-- The store holds an entry, in one stream or another. -/
def Holds (s : LabelStore Rodeo Spur α) (e : α) : Prop :=
  ∃ id stream, s.streams.lookup id = some stream ∧ e ∈ stream.entries

/-- What the store holds depends on the streams only. -/
theorem Holds.congr {s s' : LabelStore Rodeo Spur α} {e : α} (h : s.Holds e)
    (hs : s.streams = s'.streams) : s'.Holds e := by
  obtain ⟨id, stream, hst, he⟩ := h
  exact ⟨id, stream, hs ▸ hst, he⟩

theorem Shrinks.holds {s s' : LabelStore Rodeo Spur α} (hs : s.Shrinks s') {e : α}
    (h : s'.Holds e) : s.Holds e := by
  obtain ⟨id, stream', hst', he⟩ := h
  obtain ⟨stream, hst, -, hsub⟩ := hs id stream' hst'
  exact ⟨id, stream, hst, hsub.subset he⟩

theorem not_holds_new [Interner Rodeo Spur] (e : α) :
    ¬ (new : LabelStore Rodeo Spur α).Holds e := by
  rintro ⟨id, stream, hst, -⟩
  simp [new] at hst

variable [LinearOrder Spur] [Interner Rodeo Spur]

/-- Finding the stream of a label set adds no entry. -/
theorem holds_streamFor {s : LabelStore Rodeo Spur α} {labels : List (String × String)} {e : α}
    (h : (s.streamFor labels).1.Holds e) : s.Holds e := by
  rw [streamFor] at h
  split at h
  · exact h
  · obtain ⟨id, stream, hst, he⟩ := h
    rw [createStream, trackLabels, Finmap.lookup_insert_eq_ite] at hst
    split at hst
    · -- the stream that was created is empty
      obtain rfl := Option.some.inj hst
      simp at he
    · exact ⟨id, stream, hst, he⟩

variable [Timestamped α]

omit [LinearOrder Spur] [Interner Rodeo Spur] in
theorem holds_extendStream {s : LabelStore Rodeo Spur α} {id : ℕ} {batch : List α} {e : α}
    (h : (s.extendStream id batch).Holds e) : s.Holds e ∨ e ∈ batch := by
  rw [extendStream] at h
  split at h
  · exact .inl h
  · next stream hid =>
    obtain ⟨i, st, hst, he⟩ := h
    rw [Finmap.lookup_insert_eq_ite] at hst
    split at hst
    · obtain rfl := Option.some.inj hst
      rcases List.mem_append.mp ((appendBatch_perm _ _).subset he) with he | he
      · exact .inl ⟨id, stream, hid, he⟩
      · exact .inr he
    · exact .inl ⟨i, st, hst, he⟩

/-- **An ingest adds its batch**, and nothing else. -/
theorem holds_ingest {s : LabelStore Rodeo Spur α} {labels : List (String × String)}
    {batch : List α} {e : α} (h : (s.ingest labels batch).Holds e) : s.Holds e ∨ e ∈ batch :=
  (holds_extendStream h).imp_left holds_streamFor

end LabelStore

/-! ### Log stores -/

/-- The entries an operation is given to ingest. -/
def LogOp.entries {Spur F64 : Type} : LogOp Spur F64 → List (LogEntry Spur F64)
  | .ingestStream _ entries => entries
  | _ => []

theorem LogStore.holds_apply {Rodeo Spur F64 : Type} [LinearOrder Spur] [Interner Rodeo Spur]
    {s : LogStore Rodeo Spur F64} {op : LogOp Spur F64} {e : LogEntry Spur F64}
    (h : (s.apply op).Holds e) : s.Holds e ∨ e ∈ op.entries := by
  cases op with
  | ingestStream labels entries =>
    rw [apply, toLabelStore_ingestStream] at h
    exact LabelStore.holds_ingest h
  | intern string => exact .inl h
  | evictBefore it cutoffNs =>
    exact .inl ((s.toLabelStore.shrinks_evictBefore it cutoffNs).holds h)
  | evictToMax it maxEntries =>
    rw [apply, evictToMax] at h
    split at h
    · exact .inl h
    · exact .inl ((shrinks_foldl_drainOldest (s.toLabelStore, _) _).holds h)
  | clear => exact absurd h (LabelStore.not_holds_new e)
  | clearService service => exact .inl ((s.toLabelStore.shrinks_clearService service).holds h)
  | rebuildStreamIds it =>
    exact .inl (h.congr (LabelStore.rebuildStreamIds_frame it s.toLabelStore).1)

/-- What a reachable store holds was ingested by some operation of the run. -/
theorem LogStore.holds_exec {Rodeo Spur F64 : Type} [LinearOrder Spur] [Interner Rodeo Spur]
    {ops : List (LogOp Spur F64)} {e : LogEntry Spur F64}
    (h : (Run.exec apply (new : LogStore Rodeo Spur F64) ops).Holds e) :
    ∃ op ∈ ops, e ∈ op.entries := by
  induction ops using List.reverseRecOn with
  | nil => exact absurd h (LabelStore.not_holds_new e)
  | append_singleton ops op ih =>
    rw [Run.exec_append] at h
    obtain h | h := LogStore.holds_apply h
    · obtain ⟨op', hop', he⟩ := ih h
      exact ⟨op', List.mem_append_left _ hop', he⟩
    · exact ⟨op, List.mem_append_right _ List.mem_cons_self, h⟩

/-! ### Metric stores -/

/-- The samples an operation is given to ingest. -/
def MetricOp.samples {F64 : Type} : MetricOp F64 → List (Sample F64)
  | .ingestSamples _ _ samples => samples
  | _ => []

theorem MetricStore.holds_apply {Rodeo Spur F64 : Type} [LinearOrder Spur] [Interner Rodeo Spur]
    {s : MetricStore Rodeo Spur F64} {op : MetricOp F64} {e : Sample F64}
    (h : (s.apply op).Holds e) : s.Holds e ∨ e ∈ op.samples := by
  cases op with
  | ingestSamples name labels samples => exact LabelStore.holds_ingest h
  | intern string => exact .inl h
  | registerMetricName normalizedName sourceName =>
    rw [apply, toLabelStore_registerMetricName] at h
    exact .inl h
  | registerMetricMetadata normalizedName metricType help unit => exact .inl h
  | evictBefore it cutoffMs =>
    rw [apply, toLabelStore_evictBefore] at h
    exact .inl ((s.toLabelStore.shrinks_evictBefore it cutoffMs).holds h)
  | evictToMax it maxSeries =>
    rw [apply, toLabelStore_evictToMax] at h
    exact .inl ((s.toLabelStore.shrinks_foldl_dropStream _).holds h)
  | clear => exact absurd h (LabelStore.not_holds_new e)
  | clearService it service =>
    rw [apply, toLabelStore_clearService] at h
    exact .inl ((s.toLabelStore.shrinks_clearService service).holds h)
  | rebuildSeriesIds it =>
    exact .inl (h.congr (LabelStore.rebuildStreamIds_frame it s.toLabelStore).1)

/-! ### Trace stores -/

/-- The spans an operation is given to ingest. -/
def TraceOp.spans {Spur F64 : Type} : TraceOp Spur F64 → List (Span Spur F64)
  | .ingestSpans spans => spans
  | _ => []

namespace TraceStore

variable {Rodeo Spur F64 : Type}

/-- The store holds a span, in one trace or another. -/
def Holds (s : TraceStore Rodeo Spur F64) (span : Span Spur F64) : Prop :=
  ∃ t, span ∈ spansOf s.traces t

theorem Holds.congr {s s' : TraceStore Rodeo Spur F64} {span : Span Spur F64} (h : s.Holds span)
    (htraces : s.traces = s'.traces) : s'.Holds span := by
  obtain ⟨t, ht⟩ := h
  exact ⟨t, htraces ▸ ht⟩

/-- Every trace of `s'` has some of the spans it has in `s`. -/
def Shrinks (s s' : TraceStore Rodeo Spur F64) : Prop :=
  ∀ t, spansOf s'.traces t ⊆ spansOf s.traces t

theorem Shrinks.refl (s : TraceStore Rodeo Spur F64) : s.Shrinks s :=
  fun _ => List.Subset.refl _

theorem Shrinks.trans {s₁ s₂ s₃ : TraceStore Rodeo Spur F64} (h₁ : s₁.Shrinks s₂)
    (h₂ : s₂.Shrinks s₃) : s₁.Shrinks s₃ := fun t => List.Subset.trans (h₂ t) (h₁ t)

theorem Shrinks.holds {s s' : TraceStore Rodeo Spur F64} (hs : s.Shrinks s')
    {span : Span Spur F64} (h : s'.Holds span) : s.Holds span :=
  h.imp fun t ht => hs t ht

/-- A loop whose turns only remove only removes. -/
theorem shrinks_foldl {ι : Type} {f : TraceStore Rodeo Spur F64 → ι → TraceStore Rodeo Spur F64}
    (hf : ∀ (s : TraceStore Rodeo Spur F64) i, s.Shrinks (f s i)) (s : TraceStore Rodeo Spur F64) (l : List ι) :
    s.Shrinks (l.foldl f s) := by
  induction l generalizing s with
  | nil => exact Shrinks.refl s
  | cons i l ih => exact (hf s i).trans (ih _)

theorem spansOf_erase_subset (traces : FxHashMap TraceId (List (Span Spur F64))) (t t' : TraceId) :
    spansOf (traces.erase t) t' ⊆ spansOf traces t' := by
  rw [spansOf_erase]
  split
  · exact List.nil_subset _
  · exact List.Subset.refl _

theorem spansOf_insert_subset {traces : FxHashMap TraceId (List (Span Spur F64))} {t : TraceId}
    {spans kept : List (Span Spur F64)} (hst : traces.lookup t = some spans) (hk : kept ⊆ spans)
    (t' : TraceId) : spansOf (traces.insert t kept) t' ⊆ spansOf traces t' := by
  rw [spansOf_insert]
  split
  · next ht =>
    rw [ht, spansOf, hst]
    exact hk
  · exact List.Subset.refl _

theorem not_holds_new [Interner Rodeo Spur] (span : Span Spur F64) :
    ¬ (new : TraceStore Rodeo Spur F64).Holds span := by
  rintro ⟨t, ht⟩
  simp [new, spansOf] at ht

theorem shrinks_drainTrace (cutoffNs : ℤ) (acc : Draining Rodeo Spur F64) (t : TraceId) :
    acc.store.Shrinks (drainTrace cutoffNs acc t).store := by
  rw [drainTrace]
  split
  · exact Shrinks.refl _
  · next spans hst =>
    split
    · exact spansOf_insert_subset hst List.filter_sublist.subset
    · exact Shrinks.refl _

theorem shrinks_foldl_drainTrace (cutoffNs : ℤ) (acc : Draining Rodeo Spur F64)
    (ts : List TraceId) : acc.store.Shrinks (ts.foldl (drainTrace cutoffNs) acc).store := by
  induction ts generalizing acc with
  | nil => exact Shrinks.refl _
  | cons t ts ih => exact (shrinks_drainTrace cutoffNs acc t).trans (ih _)

theorem shrinks_removeTraces (s : TraceStore Rodeo Spur F64) (ts : List TraceId) :
    s.Shrinks (s.removeTraces ts) := by
  intro t
  rw [spansOf, lookup_removeTraces]
  split
  · exact List.nil_subset _
  · exact List.Subset.refl _

variable [LinearOrder Spur]

theorem shrinks_evictTrace (maxSpans : ℕ) (s : TraceStore Rodeo Spur F64) (t : TraceId) :
    s.Shrinks (s.evictTrace maxSpans t) := by
  rw [evictTrace]
  split
  · exact Shrinks.refl s
  split
  · exact Shrinks.refl s
  · intro t'
    rw [(foldl_unindexSpan_frame t _ _).1]
    exact spansOf_erase_subset s.traces t t'

theorem shrinks_evictToMax (it : IterOrder TraceId) (s : TraceStore Rodeo Spur F64)
    (maxSpans : ℕ) : s.Shrinks (s.evictToMax it maxSpans) := by
  rw [evictToMax]
  split
  · exact Shrinks.refl s
  · exact shrinks_foldl (shrinks_evictTrace maxSpans) s _

theorem shrinks_evictBefore (it : IterOrder TraceId) (s : TraceStore Rodeo Spur F64)
    (cutoffNs : ℤ) : s.Shrinks (s.evictBefore it cutoffNs) := by
  have hdrain := shrinks_foldl_drainTrace cutoffNs (⟨s, [], []⟩ : Draining Rodeo Spur F64)
    (it.keys s.traces)
  have hremove := hdrain.trans (shrinks_removeTraces _
    ((it.keys s.traces).foldl (drainTrace cutoffNs) ⟨s, [], []⟩).emptyTraces)
  have htraces : (s.evictBefore it cutoffNs).traces = (removeTraces _ _).traces :=
    (foldl_reconcile_frame _ _).1
  intro t
  rw [htraces]
  exact hremove t

theorem shrinks_clearServiceTrace (service : Spur) (s : TraceStore Rodeo Spur F64) (t : TraceId) :
    s.Shrinks (s.clearServiceTrace service t) := by
  rw [clearServiceTrace]
  split
  · exact Shrinks.refl s
  · next spans hst =>
    intro t'
    dsimp only
    rw [reconcileTraceIndexes_traces]
    dsimp only
    split
    · exact spansOf_erase_subset s.traces t t'
    · exact spansOf_insert_subset hst List.filter_sublist.subset t'

/-! ### The interner -/

omit [LinearOrder Spur] in
/-- A loop whose turns leave the interner leaves it. -/
theorem interner_foldl {ι : Type} {f : TraceStore Rodeo Spur F64 → ι → TraceStore Rodeo Spur F64}
    (hf : ∀ (s : TraceStore Rodeo Spur F64) i, (f s i).interner = s.interner)
    (s : TraceStore Rodeo Spur F64) (l : List ι) : (l.foldl f s).interner = s.interner := by
  induction l generalizing s with
  | nil => rfl
  | cons i l ih => exact (ih _).trans (hf s i)

theorem interner_reconcileTraceIndexes (s : TraceStore Rodeo Spur F64) (t : TraceId)
    (before : SpanIndexKeys Spur) : (s.reconcileTraceIndexes t before).interner = s.interner := by
  rw [reconcileTraceIndexes]
  exact interner_foldl (f := reconcileKeys t _) (fun _ _ => rfl) s before

theorem interner_evictToMax (it : IterOrder TraceId) (s : TraceStore Rodeo Spur F64)
    (maxSpans : ℕ) : (s.evictToMax it maxSpans).interner = s.interner := by
  rw [evictToMax]
  split
  · rfl
  · refine interner_foldl (fun s t => ?_) s _
    rw [evictTrace]
    split
    · rfl
    split
    · rfl
    · exact interner_foldl (f := unindexSpan t) (fun _ _ => rfl) _ _

omit [LinearOrder Spur] in
theorem interner_foldl_drainTrace (cutoffNs : ℤ) (acc : Draining Rodeo Spur F64)
    (ts : List TraceId) :
    (ts.foldl (drainTrace cutoffNs) acc).store.interner = acc.store.interner := by
  induction ts generalizing acc with
  | nil => rfl
  | cons t ts ih =>
    rw [List.foldl_cons, ih, drainTrace]
    split
    · rfl
    · split <;> rfl

theorem interner_evictBefore (it : IterOrder TraceId) (s : TraceStore Rodeo Spur F64)
    (cutoffNs : ℤ) : (s.evictBefore it cutoffNs).interner = s.interner := by
  have hreconcile := interner_foldl
    (f := fun (s : TraceStore Rodeo Spur F64) (change : TraceId × SpanIndexKeys Spur) =>
      s.reconcileTraceIndexes change.1 change.2)
    fun s change => interner_reconcileTraceIndexes s change.1 change.2
  exact (hreconcile _ _).trans (interner_foldl_drainTrace cutoffNs ⟨s, [], []⟩ _)

variable [Interner Rodeo Spur]

theorem interner_clearService (it : IterOrder TraceId) (s : TraceStore Rodeo Spur F64)
    (service : String) : (s.clearService it service).interner = s.interner := by
  rw [clearService]
  split
  · rfl
  split
  · rfl
  · refine interner_foldl (fun s t => ?_) s _
    rw [clearServiceTrace]
    split
    · rfl
    · exact interner_reconcileTraceIndexes _ _ _

/-! ### What the operations store -/

theorem shrinks_clearService (it : IterOrder TraceId) (s : TraceStore Rodeo Spur F64)
    (service : String) : s.Shrinks (s.clearService it service) := by
  rw [clearService]
  split
  · exact Shrinks.refl s
  split
  · exact Shrinks.refl s
  · exact shrinks_foldl (shrinks_clearServiceTrace _) s _

omit [Interner Rodeo Spur] in
theorem holds_ingestSpans {s : TraceStore Rodeo Spur F64} {spans : List (Span Spur F64)}
    {span : Span Spur F64} (h : (s.ingestSpans spans).Holds span) :
    s.Holds span ∨ span ∈ spans := by
  rw [ingestSpans] at h
  induction spans generalizing s with
  | nil => exact .inl h
  | cons sp spans ih =>
    rcases ih h with ⟨t, ht⟩ | h
    · rw [spansOf_ingestSpan] at ht
      split at ht
      · rcases List.mem_append.mp ht with ht | ht
        · exact .inl ⟨t, ht⟩
        · exact .inr (List.mem_singleton.mp ht ▸ List.mem_cons_self)
      · exact .inl ⟨t, ht⟩
    · exact .inr (List.mem_cons_of_mem _ h)

theorem holds_apply {s : TraceStore Rodeo Spur F64} {op : TraceOp Spur F64}
    {span : Span Spur F64} (h : (s.apply op).Holds span) : s.Holds span ∨ span ∈ op.spans := by
  cases op with
  | ingestSpans spans => exact holds_ingestSpans h
  | intern string => exact .inl h
  | evictBefore it cutoffNs => exact .inl ((shrinks_evictBefore it s cutoffNs).holds h)
  | evictToMax it maxSpans => exact .inl ((shrinks_evictToMax it s maxSpans).holds h)
  | clear => exact absurd h (not_holds_new span)
  | clearService it service => exact .inl ((shrinks_clearService it s service).holds h)

end TraceStore

end Aniani
