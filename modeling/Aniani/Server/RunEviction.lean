import Aniani.Query.Timestamps
import Aniani.Query.Window
import Aniani.Server.Checkpoint
import Aniani.Store.Retention

/-!
# The background task

Every so often `run_eviction` computes a cutoff from the clock and the configured retention, and
then takes the three stores one after another: first what is too old goes, then what is too much.
Requests come in between. As long as the elements within the retention are not too many, all this
comes to is a view of the history: a store holds what was ever committed to it and what no cutoff
since then was later than.

The retention is a text. Where `parse_duration` makes nothing of it, it is two hours, and where it
panics there is no eviction at all.

## Main definitions

* `Config`, `Config.retentionDuration`, `Config.cutoffNs`
* `Stores.evictLogs`, `Stores.evictMetrics`, `Stores.evictTraces` — the three parts
* `Work`, `Work.step` — requests and evictions
* `Work.Spares`, `Work.Within` — an element is young enough, and the young ones are not too many

## Main results

* `Server.evicted_exec` — what one eviction leaves, and that the next one, at the same time, finds
  nothing to do
* `Work.holds_iff` — the stores hold the history within the retention
-/

namespace Aniani

/-! ### Nothing to evict -/

namespace LabelStore

variable {Rodeo Spur α : Type} [LinearOrder Spur] [Timestamped α]

/-- Where every stream has entries, and none of them is too old, an eviction by age changes
nothing. -/
theorem Sorted.evictBefore_eq_self {s : LabelStore Rodeo Spur α} (h : s.Sorted) (it : IterOrder ℕ)
    {cutoff : ℤ} (hyoung : ∀ id stream, s.streams.lookup id = some stream →
      stream.entries ≠ [] ∧ ∀ e ∈ stream.entries, cutoff ≤ timestamp e) :
    s.evictBefore it cutoff = s := by
  have hkept : ∀ {id stream}, s.streams.lookup id = some stream →
      kept cutoff stream.entries = stream.entries := by
    intro id stream hst
    rw [kept_eq_filter (h id stream hst), List.filter_eq_self]
    exact fun e he => decide_eq_true ((hyoung id stream hst).2 e he)
  have hstreams : (s.evictBefore it cutoff).streams = s.streams := by
    refine Finmap.ext_lookup fun i => ?_
    rw [lookup_evictBefore]
    cases hst : s.streams.lookup i with
    | none => rfl
    | some stream =>
      rw [Option.bind_some, hkept hst, if_neg (hyoung i stream hst).1]
  have hcount : (s.evictBefore it cutoff).entryCount = s.entryCount := by
    rw [entryCount, hstreams, entryCount]
  obtain ⟨hinterner, hnext⟩ := s.evictBefore_frame it cutoff
  refine eq_of_fields hstreams ?_ hinterner ?_ hnext
  · obtain ⟨removed, -, hmem, hix⟩ := indexes_evictBefore it s cutoff
    have hnil : removed = [] := List.eq_nil_iff_forall_not_mem.mpr fun entry hentry => by
      obtain ⟨stream, hst, -, hk⟩ := (hmem entry).mp hentry
      exact (hyoung _ stream hst).1 ((hkept hst).symm.trans hk)
    rw [hix, hnil, List.foldl_nil]
  · rw [(total_evictBefore it s cutoff).2, hcount, Nat.sub_self, Nat.sub_zero]

/-- After an eviction by age every stream has entries, and none of them is too old. -/
theorem Sorted.young_evictBefore {s : LabelStore Rodeo Spur α} (h : s.Sorted) (it : IterOrder ℕ)
    {cutoff : ℤ} {id : ℕ} {stream : Stream Spur α}
    (hst : (s.evictBefore it cutoff).streams.lookup id = some stream) :
    stream.entries ≠ [] ∧ ∀ e ∈ stream.entries, cutoff ≤ timestamp e := by
  rw [h.evictsBefore it cutoff id] at hst
  obtain ⟨old, -, hst⟩ := Option.bind_eq_some_iff.mp hst
  dsimp only at hst
  split at hst
  · simp at hst
  · next hne =>
    obtain rfl := Option.some.inj hst
    exact ⟨hne, fun e he => of_decide_eq_true (List.mem_filter.mp he).2⟩

theorem Sorted.entriesOf_evictBefore {s : LabelStore Rodeo Spur α} (h : s.Sorted)
    (it : IterOrder ℕ) (cutoff : ℤ) (id : ℕ) : (s.evictBefore it cutoff).entriesOf id =
      (s.entriesOf id).filter fun e => decide (cutoff ≤ timestamp e) := by
  rw [entriesOf, h.evictsBefore it cutoff id, entriesOf]
  cases s.streams.lookup id with
  | none => rfl
  | some stream =>
    rw [Option.bind_some]
    dsimp only
    split
    · next hnil => exact hnil.symm
    · rfl

/-- What is held after an eviction by age was held, and is young enough. -/
theorem Sorted.holds_evictBefore {s : LabelStore Rodeo Spur α} (h : s.Sorted) (it : IterOrder ℕ)
    {cutoff : ℤ} {e : α} :
    (s.evictBefore it cutoff).Holds e ↔ s.Holds e ∧ cutoff ≤ timestamp e := by
  constructor
  · intro he
    obtain ⟨id, stream, hst, hmem⟩ := he
    exact ⟨(shrinks_evictBefore it s cutoff).holds ⟨id, stream, hst, hmem⟩,
      (h.young_evictBefore it hst).2 e hmem⟩
  · rintro ⟨⟨id, stream, hst, hmem⟩, hle⟩
    have hleft : e ∈ stream.entries.filter fun e => decide (cutoff ≤ timestamp e) :=
      List.mem_filter.mpr ⟨hmem, decide_eq_true hle⟩
    refine ⟨id, ⟨stream.labels, _⟩, ?_, hleft⟩
    rw [h.evictsBefore it cutoff id, hst, Option.bind_some]
    exact if_neg (List.ne_nil_of_mem hleft)

variable [Interner Rodeo Spur]

/-- **An ingest loses nothing.** -/
theorem Indexed.holds_ingest_of_holds {s : LabelStore Rodeo Spur α} (h : s.Indexed)
    (labels : List (String × String)) (batch : List α) {e : α} (he : s.Holds e) :
    (s.ingest labels batch).Holds e := by
  obtain ⟨i, stream, hst, he⟩ := he
  cases hid : s.streamIds.lookup (internLabelPairs s.interner labels).1 with
  | none =>
    refine ⟨i, stream, ?_, he⟩
    rw [ingest_of_none hid batch]
    have hne : i ≠ s.nextStreamId := by
      rintro rfl
      rw [h.lookup_nextStreamId] at hst
      simp at hst
    exact (Finmap.lookup_insert_of_ne _ hne).trans hst
  | some id =>
    obtain ⟨old, hold, -⟩ := (h.streamIds _ id).mp hid
    rw [ingest_of_some hid hold batch]
    by_cases hi : i = id
    · subst hi
      obtain rfl := Option.some.inj (hst.symm.trans hold)
      exact ⟨i, _, Finmap.lookup_insert _,
        (appendBatch_perm _ _).symm.subset (List.mem_append_left _ he)⟩
    · exact ⟨i, stream, (Finmap.lookup_insert_of_ne _ hi).trans hst, he⟩

end LabelStore

/-! ### What a commit keeps -/

section Commit

variable {Rodeo Spur F64 : Type} [LinearOrder Spur] [Interner Rodeo Spur]

namespace LogStore

theorem holds_ingestBatch_of_holds {s : LogStore Rodeo Spur F64} (h : s.Invariant)
    (batch : LogBatch F64) {e : LogEntry Spur F64} (he : s.Holds e) :
    (s.ingestBatch batch).Holds e := by
  rw [ingestBatch, toLabelStore_ingestStream]
  exact (invariant_internBatch h batch).toIndexed.holds_ingest_of_holds batch.labels _ he

theorem holds_ingestBatches_of_holds {s : LogStore Rodeo Spur F64} (h : s.Invariant)
    {batches : List (LogBatch F64)} (hroom : s.nextStreamId + s.idsFor batches ≤ u64Max)
    {e : LogEntry Spur F64} (he : s.Holds e) : (s.ingestBatches batches).Holds e :=
  (Run.exec_invariant_cost (P := fun s : LogStore Rodeo Spur F64 => s.Invariant ∧ s.Holds e)
    (fun _ batch hop hs =>
      ⟨invariant_ingestBatch hs.1 hop, holds_ingestBatch_of_holds hs.1 batch hs.2⟩)
    (fun s batch _ _ => nextStreamId_ingestBatch_le s batch) ⟨h, he⟩ hroom).2

end LogStore

namespace MetricStore

theorem holds_ingestItems_of_holds {s : MetricStore Rodeo Spur F64} (h : s.Sound)
    {items : List (PreparedItem F64)}
    (hroom : s.nextStreamId + s.idsCreated (items.map ingestOp) ≤ u64Max) {e : Sample F64}
    (he : s.Holds e) : (s.ingestItems items).Holds e := by
  induction items generalizing s with
  | nil => exact he
  | cons item items ih =>
    rw [List.map_cons, idsCreated, Run.cost] at hroom
    have hstep := nextStreamId_apply_le h.invariant (ingestOp item) (by omega)
    have hc : s.Commits (s.ingestSamples item.name item.labels item.samples) :=
      commits_ingestSamples h (Nat.le_trans (Nat.add_le_add_left (Nat.le_add_right _ _) _) hroom)
    refine ih hc.sound (show (s.apply (ingestOp item)).nextStreamId +
      (s.apply (ingestOp item)).idsCreated (items.map ingestOp) ≤ u64Max by
        rw [idsCreated]
        omega) ?_
    exact h.invariant.toIndexed.holds_ingest_of_holds _ item.samples he

variable [Float64 F64]

theorem holds_handle_of_holds {s : MetricStore Rodeo Spur F64} (h : s.Sound)
    {ev : MetricsEvent F64} {batch : List (PreparedItem F64) × List PreparedMeta}
    (hb : ev.batch? = some batch) (hids : s.HasIds ev) {e : Sample F64} (he : s.Holds e) :
    (s.handle ev).Holds e := by
  have hregister : (s.registerItems batch.1).1.Holds e :=
    he.congr (s.streams_registerItems batch.1).symm
  cases hacc : s.accepts ev with
  | false =>
    rcases handle_of_not_accepts hb hacc with heq | heq <;> rw [heq]
    · exact he
    · exact hregister
  | true =>
    have hnext : (s.registerItems batch.1).1.nextStreamId = s.nextStreamId := by
      rw [(onlyRegisters_registerItems h.interned batch.1).toLabelStore]
    rw [(handle_of_accepts hb hacc).1]
    exact (holds_ingestItems_of_holds (commits_registerItems h batch.1).sound
      (by rw [hnext]; exact hids batch hb) hregister).congr
        (streams_registerMetas _ batch.2).symm

end MetricStore

namespace TraceStore

omit [Interner Rodeo Spur] in
theorem holds_ingestSpans_of_holds {s : TraceStore Rodeo Spur F64} {spans : List (Span Spur F64)}
    {span : Span Spur F64} (h : s.Holds span) : (s.ingestSpans spans).Holds span := by
  rw [ingestSpans]
  induction spans generalizing s with
  | nil => exact h
  | cons sp spans ih =>
    obtain ⟨t, ht⟩ := h
    refine ih ⟨t, ?_⟩
    rw [spansOf_ingestSpan]
    split
    · exact List.mem_append_left _ ht
    · exact ht

theorem holds_ingestScope_of_holds (resource : Attributes Spur F64) (s : TraceStore Rodeo Spur F64)
    (group : PreparedScopeGroup F64) {span : Span Spur F64} (h : s.Holds span) :
    (s.ingestScope resource group).Holds span := by
  obtain ⟨r, shared, -, heq⟩ := ingestScope_cases resource s group
  rw [heq]
  exact holds_ingestSpans_of_holds (h.congr rfl)

theorem holds_ingestResource_of_holds (s : TraceStore Rodeo Spur F64)
    (resource : PreparedResource F64) {span : Span Spur F64} (h : s.Holds span) :
    (s.ingestResource resource).Holds span :=
  Run.exec_invariant (P := fun s : TraceStore Rodeo Spur F64 => s.Holds span)
    (fun s group h => holds_ingestScope_of_holds _ s group h)
    (s := { s with interner := (internEach internAttribute s.interner resource.1).2 })
    (h.congr rfl) resource.2

theorem holds_ingestTraces_of_holds [Float64 F64] {s : TraceStore Rodeo Spur F64} (seqs : ℕ → ℕ)
    (request : ExportTraceServiceRequest F64) {span : Span Spur F64} (h : s.Holds span) :
    (s.ingestTraces seqs request).Holds span :=
  Run.exec_invariant (P := fun s : TraceStore Rodeo Spur F64 => s.Holds span)
    (fun s resource h => holds_ingestResource_of_holds s resource h) h _

end TraceStore

/-- **A commit loses nothing** while there are ids left. -/
theorem Stores.Fits.holds_ingest_of_holds [Float64 F64] [SerdeJson F64] {s : Stores Rodeo Spur F64}
    (h : s.Fits) {seqs : ℕ → ℕ} {r : IngestRequest F64} (hids : s.HasIds seqs r)
    {e : Entry Spur F64} (he : s.Holds e) : (s.ingest seqs r).Holds e := by
  cases r with
  | otlpLogs clockNs request =>
    cases e with
    | log e => exact LogStore.holds_ingestBatches_of_holds h.logs hids he
    | sample e => exact he
    | span e => exact he
  | lokiPush request =>
    cases e with
    | log e => exact LogStore.holds_ingestBatches_of_holds h.logs hids he
    | sample e => exact he
    | span e => exact he
  | otlpMetrics request =>
    cases e with
    | log e => exact he
    | sample e => exact MetricStore.holds_handle_of_holds h.metrics rfl hids he
    | span e => exact he
  | remoteWrite request =>
    cases e with
    | log e => exact he
    | sample e => exact MetricStore.holds_handle_of_holds h.metrics rfl hids he
    | span e => exact he
  | otlpTraces request =>
    cases e with
    | log e => exact he
    | sample e => exact he
    | span e => exact TraceStore.holds_ingestTraces_of_holds seqs request he

end Commit

/-! ### The configuration -/

/-- What `run_eviction` reads of `Config`. -/
structure Config where
  retention : String
  maxLogEntries : ℕ
  maxSeries : ℕ
  maxSpans : ℕ

namespace Config

variable (F64 : Type) [FloatOps F64]

/-- `retention_duration` in nanoseconds, nothing where it panics. -/
def retentionDuration (config : Config) : Option ℕ :=
  (parseDuration F64 config.retention).map fun duration => duration.getD (7200 * 10 ^ 9)

/-- `system_time_ns`, given the nanoseconds since the epoch. -/
def systemTimeNs (clockNs : ℕ) : ℤ := min clockNs i64Max

/-- `duration_to_i64_ns`. -/
def durationToI64Ns (duration : ℕ) : ℤ := min duration i64Max

/-- The cutoff of a run of `run_eviction` in nanoseconds. -/
def cutoffNs (config : Config) (clockNs : ℕ) : Option ℤ :=
  (config.retentionDuration F64).map fun retention =>
    i64SaturatingSub (systemTimeNs clockNs) (durationToI64Ns retention)

/-- The same in milliseconds. -/
def cutoffMs (cutoffNs : ℤ) : ℤ := cutoffNs.tdiv 1000000

example : cutoffNs ℤ ⟨"300000ms", 0, 0, 0⟩ (301 * 10 ^ 9) = some (10 ^ 9) := by decide

end Config

/-! ### One eviction -/

section Evict

variable {Rodeo Spur F64 : Type} [LinearOrder Spur]

namespace LogStore

/-- What `run_eviction` does to the log store. -/
def evict (it it' : IterOrder ℕ) (cutoff : ℤ) (maxEntries : ℕ) (s : LogStore Rodeo Spur F64) :
    LogStore Rodeo Spur F64 :=
  (s.evictBefore it cutoff).evictToMax it' maxEntries

/-- Draining removes the streams it empties. -/
theorem ne_nil_drainOldest {acc : LabelStore Rodeo Spur (LogEntry Spur F64) × ℕ}
    (h : ∀ id stream, acc.1.streams.lookup id = some stream → stream.entries ≠ []) (i : ℕ) :
    ∀ id stream, (drainOldest acc i).1.streams.lookup id = some stream → stream.entries ≠ [] := by
  intro id stream hst
  rw [drainOldest] at hst
  split at hst
  · exact h id stream hst
  split at hst
  · exact h id stream hst
  next old hold =>
    dsimp only at hst
    split at hst
    · rw [LabelStore.lookup_removeStream] at hst
      split at hst
      · simp at hst
      · next hne =>
        rw [Finmap.lookup_insert_of_ne _ hne] at hst
        exact h id stream hst
    · next hne =>
      rw [Finmap.lookup_insert_eq_ite] at hst
      split at hst
      · obtain rfl := Option.some.inj hst
        exact fun hnil => hne (List.isEmpty_iff.mpr hnil)
      · exact h id stream hst

theorem ne_nil_foldl_drainOldest {acc : LabelStore Rodeo Spur (LogEntry Spur F64) × ℕ}
    (h : ∀ id stream, acc.1.streams.lookup id = some stream → stream.entries ≠ [])
    (ids : List ℕ) : ∀ id stream,
      (ids.foldl drainOldest acc).1.streams.lookup id = some stream → stream.entries ≠ [] := by
  induction ids generalizing acc with
  | nil => exact h
  | cons i ids ih => exact ih (ne_nil_drainOldest h i)

/-- **What is left in the streams**: something, and nothing that is too old. -/
theorem young_evict {s : LogStore Rodeo Spur F64} (h : s.Sorted) (it it' : IterOrder ℕ)
    (cutoff : ℤ) (maxEntries : ℕ) {id : ℕ} {stream : Stream Spur (LogEntry Spur F64)}
    (hst : (s.evict it it' cutoff maxEntries).streams.lookup id = some stream) :
    stream.entries ≠ [] ∧ ∀ e ∈ stream.entries, cutoff ≤ e.timestampNs := by
  have hyoung : ∀ id stream, (s.evictBefore it cutoff).streams.lookup id = some stream →
      stream.entries ≠ [] ∧ ∀ e ∈ stream.entries, cutoff ≤ e.timestampNs :=
    fun id stream hst => LabelStore.Sorted.young_evictBefore h it hst
  rw [evict, evictToMax] at hst
  split at hst
  · exact hyoung id stream hst
  · refine ⟨ne_nil_foldl_drainOldest (fun id stream hst => (hyoung id stream hst).1) _ id stream hst,
      fun e he => ?_⟩
    obtain ⟨old, hold, -, hsub⟩ := shrinks_foldl_drainOldest _ _ id stream hst
    exact (hyoung id old hold).2 e (hsub.subset he)

/-- A trace index that was just rebuilt is rebuilt to the same. -/
theorem rebuildTraceIndex_evict (it it' it'' : IterOrder ℕ) (cutoff : ℤ) (maxEntries : ℕ)
    (s : LogStore Rodeo Spur F64) :
    (s.evict it it' cutoff maxEntries).rebuildTraceIndex it'' =
      s.evict it it' cutoff maxEntries := by
  rw [evict, evictToMax]
  split
  · exact rebuildTraceIndex_congr it'' it rfl
  · exact rebuildTraceIndex_congr it'' it' rfl

variable [Interner Rodeo Spur]

theorem invariant_evict {s : LogStore Rodeo Spur F64} (h : s.Invariant) (it it' : IterOrder ℕ)
    (cutoff : ℤ) (maxEntries : ℕ) : (s.evict it it' cutoff maxEntries).Invariant := by
  have hbefore : (s.evictBefore it cutoff).Invariant := LabelStore.Invariant.evictBefore h it cutoff
  rw [evict, evictToMax]
  split
  · exact hbefore
  · exact invariant_foldl_drainOldest hbefore _

theorem total_evict_le {s : LogStore Rodeo Spur F64} (h : s.Invariant) (it it' : IterOrder ℕ)
    (cutoff : ℤ) (maxEntries : ℕ) : (s.evict it it' cutoff maxEntries).total ≤ maxEntries := by
  obtain ⟨-, hcount, htotal⟩ := evictToMax_spec it' (s.evictBefore it cutoff) maxEntries
  have hright : (s.evictBefore it cutoff).total = (s.evictBefore it cutoff).entryCount :=
    (LabelStore.Invariant.evictBefore h it cutoff).total
  rw [evict, htotal]
  omega

/-- **Evicting again finds nothing to do.** -/
theorem evict_again {s : LogStore Rodeo Spur F64} (h : s.Invariant) (it₁ it₂ it₃ it₄ : IterOrder ℕ)
    (cutoff : ℤ) (maxEntries : ℕ) :
    (s.evict it₁ it₂ cutoff maxEntries).evict it₃ it₄ cutoff maxEntries =
      s.evict it₁ it₂ cutoff maxEntries := by
  have hsorted : (s.evict it₁ it₂ cutoff maxEntries).Sorted := fun _ _ hst =>
    (invariant_evict h it₁ it₂ cutoff maxEntries).sorted hst
  have hself : (s.evict it₁ it₂ cutoff maxEntries).evictBefore it₃ cutoff =
      s.evict it₁ it₂ cutoff maxEntries := by
    rw [evictBefore, hsorted.evictBefore_eq_self it₃ fun id stream hst =>
      young_evict (fun _ _ hst => h.sorted hst) it₁ it₂ cutoff maxEntries hst]
    exact rebuildTraceIndex_evict it₁ it₂ it₃ cutoff maxEntries s
  rw [evict, hself, evictToMax, if_pos (total_evict_le h it₁ it₂ cutoff maxEntries)]

/-- Where what is young enough is within the maximum, exactly that is left. -/
theorem holds_evict {s : LogStore Rodeo Spur F64} (h : s.Invariant) (it it' : IterOrder ℕ)
    {cutoff : ℤ} {maxEntries : ℕ} (hroom : (s.evictBefore it cutoff).total ≤ maxEntries)
    {e : LogEntry Spur F64} :
    (s.evict it it' cutoff maxEntries).Holds e ↔ s.Holds e ∧ cutoff ≤ e.timestampNs := by
  rw [evict, evictToMax, if_pos hroom]
  exact LabelStore.Sorted.holds_evictBefore (fun _ _ hst => h.sorted hst) it

end LogStore

namespace MetricStore

variable [Interner Rodeo Spur]

/-- What `run_eviction` does to the metric store. -/
def evict (it it' : IterOrder ℕ) (cutoffMs : ℤ) (maxSeries : ℕ) (s : MetricStore Rodeo Spur F64) :
    MetricStore Rodeo Spur F64 :=
  (s.evictBefore it cutoffMs).evictToMax it' maxSeries

/-- **What is left in the series**: something, and nothing that is too old. -/
theorem young_evict {s : MetricStore Rodeo Spur F64} (h : s.Sorted) (it it' : IterOrder ℕ)
    (cutoffMs : ℤ) (maxSeries : ℕ) {id : ℕ} {series : Stream Spur (Sample F64)}
    (hst : (s.evict it it' cutoffMs maxSeries).streams.lookup id = some series) :
    (s.evictBefore it cutoffMs).streams.lookup id = some series ∧ series.entries ≠ [] ∧
      ∀ sample ∈ series.entries, cutoffMs ≤ sample.timestampMs := by
  rw [evict, lookup_evictToMax] at hst
  split at hst
  · simp at hst
  · refine ⟨hst, ?_⟩
    rw [toLabelStore_evictBefore] at hst
    exact LabelStore.Sorted.young_evictBefore h it hst

omit [Interner Rodeo Spur] in
theorem pruneOrphanedMetadata_idem [Interner Rodeo Spur] (it it' : IterOrder ℕ)
    (s : MetricStore Rodeo Spur F64) :
    (s.pruneOrphanedMetadata it).pruneOrphanedMetadata it' = s.pruneOrphanedMetadata it := by
  cases hkey : Interner.get s.interner "__name__" with
  | none => simp only [pruneOrphanedMetadata, hkey]
  | some nameKey =>
    simp only [pruneOrphanedMetadata, hkey]
    refine eq_of_fields rfl rfl (Finmap.ext_lookup fun k => Option.ext fun metadata => ?_)
    simp only [Finmap.lookup_retain_eq_some, decide_eq_true_eq, mem_surviving]
    exact and_iff_left_of_imp And.right

/-- Metadata that were just pruned are pruned to the same. -/
theorem pruneOrphanedMetadata_evict (it it' it'' : IterOrder ℕ) (cutoffMs : ℤ) (maxSeries : ℕ)
    (s : MetricStore Rodeo Spur F64) :
    (s.evict it it' cutoffMs maxSeries).pruneOrphanedMetadata it'' =
      s.evict it it' cutoffMs maxSeries := by
  rw [evict, evictToMax]
  split
  · exact pruneOrphanedMetadata_idem it it'' _
  · exact pruneOrphanedMetadata_idem it' it'' _

theorem invariant_evict {s : MetricStore Rodeo Spur F64} (h : s.Invariant) (it it' : IterOrder ℕ)
    (cutoffMs : ℤ) (maxSeries : ℕ) : (s.evict it it' cutoffMs maxSeries).Invariant := by
  rw [evict, toLabelStore_evictToMax, toLabelStore_evictBefore]
  exact (h.evictBefore it cutoffMs).foldl_dropStream _

theorem seriesCount_evict_le (it it' : IterOrder ℕ) (cutoffMs : ℤ) (maxSeries : ℕ)
    (s : MetricStore Rodeo Spur F64) :
    (s.evict it it' cutoffMs maxSeries).seriesCount ≤ maxSeries :=
  (seriesCount_evictToMax it' _ maxSeries).trans_le (Nat.min_le_right _ _)

/-- **Evicting again finds nothing to do.** -/
theorem evict_again {s : MetricStore Rodeo Spur F64} (h : s.Invariant)
    (it₁ it₂ it₃ it₄ : IterOrder ℕ) (cutoffMs : ℤ) (maxSeries : ℕ) :
    (s.evict it₁ it₂ cutoffMs maxSeries).evict it₃ it₄ cutoffMs maxSeries =
      s.evict it₁ it₂ cutoffMs maxSeries := by
  have hsorted : (s.evict it₁ it₂ cutoffMs maxSeries).Sorted := fun _ _ hst =>
    (invariant_evict h it₁ it₂ cutoffMs maxSeries).sorted hst
  have hself : (s.evict it₁ it₂ cutoffMs maxSeries).evictBefore it₃ cutoffMs =
      s.evict it₁ it₂ cutoffMs maxSeries := by
    rw [evictBefore, hsorted.evictBefore_eq_self it₃ fun id series hst =>
      (young_evict (fun _ _ hst => h.sorted hst) it₁ it₂ cutoffMs maxSeries hst).2]
    exact pruneOrphanedMetadata_evict it₁ it₂ it₃ cutoffMs maxSeries s
  rw [evict, hself, evictToMax, if_pos (seriesCount_evict_le it₁ it₂ cutoffMs maxSeries s)]

/-- Where the series with young samples are within the maximum, exactly the young samples are
left. -/
theorem holds_evict {s : MetricStore Rodeo Spur F64} (h : s.Invariant) (it it' : IterOrder ℕ)
    {cutoffMs : ℤ} {maxSeries : ℕ} (hroom : (s.evictBefore it cutoffMs).seriesCount ≤ maxSeries)
    {e : Sample F64} :
    (s.evict it it' cutoffMs maxSeries).Holds e ↔ s.Holds e ∧ cutoffMs ≤ e.timestampMs := by
  rw [evict, evictToMax, if_pos hroom, toLabelStore_evictBefore]
  exact LabelStore.Sorted.holds_evictBefore (fun _ _ hst => h.sorted hst) it

end MetricStore

namespace TraceStore

variable [Interner Rodeo Spur]

/-- What `run_eviction` does to the trace store. -/
def evict (it it' : IterOrder TraceId) (cutoffNs : ℤ) (maxSpans : ℕ)
    (s : TraceStore Rodeo Spur F64) : TraceStore Rodeo Spur F64 :=
  (s.evictBefore it cutoffNs).evictToMax it' maxSpans

/-- **What is left of the traces**: the young spans of a trace, if there are any. -/
theorem young_evict {s : TraceStore Rodeo Spur F64} (h : s.Invariant) (it it' : IterOrder TraceId)
    (cutoffNs : ℤ) (maxSpans : ℕ) {t : TraceId} {spans : List (Span Spur F64)}
    (hst : (s.evict it it' cutoffNs maxSpans).traces.lookup t = some spans) :
    spans ≠ [] ∧
      spans = (spansOf s.traces t).filter fun span => decide (cutoffNs ≤ span.startTimeNs) := by
  obtain ⟨removed, -, hev⟩ := (h.evictBefore it cutoffNs).evictsTraces it' maxSpans
  rw [evict, hev.whole] at hst
  split at hst
  · simp at hst
  · rw [h.evictsBefore it cutoffNs t] at hst
    obtain ⟨old, hold, hst⟩ := Option.bind_eq_some_iff.mp hst
    dsimp only at hst
    split at hst
    · simp at hst
    · next hne =>
      obtain rfl := Option.some.inj hst
      refine ⟨hne, ?_⟩
      rw [spansOf, hold]
      rfl

theorem invariant_evict {s : TraceStore Rodeo Spur F64} (h : s.Invariant)
    (it it' : IterOrder TraceId) (cutoffNs : ℤ) (maxSpans : ℕ) :
    (s.evict it it' cutoffNs maxSpans).Invariant :=
  (h.evictBefore it cutoffNs).apply (.evictToMax it' maxSpans)

theorem totalSpans_evict_le {s : TraceStore Rodeo Spur F64} (h : s.Invariant)
    (it it' : IterOrder TraceId) (cutoffNs : ℤ) (maxSpans : ℕ) :
    (s.evict it it' cutoffNs maxSpans).totalSpans ≤ maxSpans := by
  obtain ⟨removed, -, hev⟩ := (h.evictBefore it cutoffNs).evictsTraces it' maxSpans
  exact hev.bound

/-- **Evicting again finds nothing to do.** -/
theorem evict_again {s : TraceStore Rodeo Spur F64} (h : s.Invariant)
    (it₁ it₂ it₃ it₄ : IterOrder TraceId) (cutoffNs : ℤ) (maxSpans : ℕ) :
    (s.evict it₁ it₂ cutoffNs maxSpans).evict it₃ it₄ cutoffNs maxSpans =
      s.evict it₁ it₂ cutoffNs maxSpans := by
  have hinv := invariant_evict h it₁ it₂ cutoffNs maxSpans
  have hself : (s.evict it₁ it₂ cutoffNs maxSpans).evictBefore it₃ cutoffNs =
      s.evict it₁ it₂ cutoffNs maxSpans := by
    refine (hinv.evictBefore it₃ cutoffNs).eq hinv (Finmap.ext_lookup fun t => ?_)
      (interner_evictBefore it₃ _ cutoffNs)
    rw [hinv.evictsBefore it₃ cutoffNs t]
    cases hst : (s.evict it₁ it₂ cutoffNs maxSpans).traces.lookup t with
    | none => rfl
    | some spans =>
      obtain ⟨hne, heq⟩ := young_evict h it₁ it₂ cutoffNs maxSpans hst
      have hfilter : spans.filter (fun span => decide (cutoffNs ≤ span.startTimeNs)) = spans := by
        rw [heq, List.filter_filter]
        simp
      rw [Option.bind_some, hfilter]
      exact if_neg hne
  rw [evict, hself, evictToMax, if_pos (totalSpans_evict_le h it₁ it₂ cutoffNs maxSpans)]

/-- Where the young spans are within the maximum, exactly those are left. -/
theorem holds_evict {s : TraceStore Rodeo Spur F64} (h : s.Invariant) (it it' : IterOrder TraceId)
    {cutoffNs : ℤ} {maxSpans : ℕ} (hroom : (s.evictBefore it cutoffNs).totalSpans ≤ maxSpans)
    {span : Span Spur F64} :
    (s.evict it it' cutoffNs maxSpans).Holds span ↔ s.Holds span ∧ cutoffNs ≤ span.startTimeNs := by
  rw [evict, evictToMax, if_pos hroom]
  have hspans : ∀ t, spansOf (s.evictBefore it cutoffNs).traces t =
      (spansOf s.traces t).filter fun span => decide (cutoffNs ≤ span.startTimeNs) := by
    intro t
    rw [spansOf, h.evictsBefore it cutoffNs t, spansOf]
    cases s.traces.lookup t with
    | none => rfl
    | some spans =>
      rw [Option.bind_some]
      dsimp only
      split
      · next hnil => exact hnil.symm
      · rfl
  simp only [Holds, hspans, List.mem_filter, decide_eq_true_eq]
  exact exists_and_right

end TraceStore

/-! ### The three stores -/

namespace Stores

variable [Interner Rodeo Spur]

/-- The part of `run_eviction` under the lock of the log store. -/
def evictLogs (config : Config) (it it' : IterOrder ℕ) (cutoff : ℤ) (s : Stores Rodeo Spur F64) :
    Stores Rodeo Spur F64 :=
  { s with logStore := s.logStore.evict it it' cutoff config.maxLogEntries }

/-- The part under the lock of the metric store. -/
def evictMetrics (config : Config) (it it' : IterOrder ℕ) (cutoff : ℤ)
    (s : Stores Rodeo Spur F64) : Stores Rodeo Spur F64 :=
  { s with metricStore := s.metricStore.evict it it' (Config.cutoffMs cutoff) config.maxSeries }

/-- The part under the lock of the trace store. -/
def evictTraces (config : Config) (it it' : IterOrder TraceId) (cutoff : ℤ)
    (s : Stores Rodeo Spur F64) : Stores Rodeo Spur F64 :=
  { s with traceStore := s.traceStore.evict it it' cutoff config.maxSpans }

/-- `run_eviction`, when nothing comes in between. -/
def runEviction (config : Config) (it it' : IterOrder ℕ) (itTraces itTraces' : IterOrder TraceId)
    (cutoff : ℤ) (s : Stores Rodeo Spur F64) : Stores Rodeo Spur F64 :=
  ((s.evictLogs config it it' cutoff).evictMetrics config it it' cutoff).evictTraces config
    itTraces itTraces' cutoff

theorem Fits.evictLogs {s : Stores Rodeo Spur F64} (h : s.Fits) (config : Config)
    (it it' : IterOrder ℕ) (cutoff : ℤ) : (s.evictLogs config it it' cutoff).Fits :=
  (h.removeLogs it (.evictBefore cutoff)).removeLogs it' (.evictToMax config.maxLogEntries)

theorem Fits.evictMetrics [Float64 F64] {s : Stores Rodeo Spur F64} (h : s.Fits) (config : Config)
    (it it' : IterOrder ℕ) (cutoff : ℤ) : (s.evictMetrics config it it' cutoff).Fits :=
  (h.removeMetrics it (.evictBefore (Config.cutoffMs cutoff))).removeMetrics it'
    (.evictToMax config.maxSeries)

theorem Fits.evictTraces {s : Stores Rodeo Spur F64} (h : s.Fits) (config : Config)
    (it it' : IterOrder TraceId) (cutoff : ℤ) : (s.evictTraces config it it' cutoff).Fits :=
  (h.removeTraces it (.evictBefore cutoff)).removeTraces it' (.evictToMax config.maxSpans)

/-- What one eviction leaves of the stores. -/
structure Evicted (config : Config) (cutoff : ℤ) (s s' : Stores Rodeo Spur F64) : Prop where
  fits : s'.Fits
  logBound : s'.logStore.entryCount ≤ config.maxLogEntries
  seriesBound : s'.metricStore.seriesCount ≤ config.maxSeries
  spanBound : s'.traceStore.traces.total List.length ≤ config.maxSpans
  /-- The last of the young entries of a stream. -/
  logs : ∀ id, s'.logStore.entriesOf id <:+
    (s.logStore.entriesOf id).filter fun e => decide (cutoff ≤ e.timestampNs)
  /-- All the young samples of a series, or none. -/
  series : ∀ id, s'.metricStore.entriesOf id = [] ∨ s'.metricStore.entriesOf id =
    (s.metricStore.entriesOf id).filter fun sample =>
      decide (Config.cutoffMs cutoff ≤ sample.timestampMs)
  /-- All the young spans of a trace, or none. -/
  traces : ∀ t, TraceStore.spansOf s'.traceStore.traces t = [] ∨
    TraceStore.spansOf s'.traceStore.traces t =
      (TraceStore.spansOf s.traceStore.traces t).filter fun span =>
        decide (cutoff ≤ span.startTimeNs)

/-- **One eviction** leaves young elements within the limits. -/
theorem Fits.evicted [Float64 F64] {s : Stores Rodeo Spur F64} (h : s.Fits) (config : Config)
    (it it' : IterOrder ℕ) (itTraces itTraces' : IterOrder TraceId) (cutoff : ℤ) :
    Evicted config cutoff s (s.runEviction config it it' itTraces itTraces' cutoff) where
  fits := ((h.evictLogs config it it' cutoff).evictMetrics config it it' cutoff).evictTraces config
    itTraces itTraces' cutoff
  logBound := by
    have hinv := LogStore.invariant_evict h.logs it it' cutoff config.maxLogEntries
    exact hinv.total.symm.trans_le
      (LogStore.total_evict_le h.logs it it' cutoff config.maxLogEntries)
  seriesBound := MetricStore.seriesCount_evict_le it it' _ _ _
  spanBound := by
    have hinv := TraceStore.invariant_evict h.traces itTraces itTraces' cutoff config.maxSpans
    exact hinv.total.symm.trans_le
      (TraceStore.totalSpans_evict_le h.traces itTraces itTraces' cutoff config.maxSpans)
  logs id := by
    have hyoung := LabelStore.Sorted.entriesOf_evictBefore
      (s := s.logStore.toLabelStore) (fun _ _ hst => h.logs.sorted hst) it cutoff id
    obtain ⟨hentries, -⟩ :=
      LogStore.evictToMax_spec it' (s.logStore.evictBefore it cutoff) config.maxLogEntries
    exact hyoung ▸ hentries id ▸ List.drop_suffix _ _
  series id := by
    have hyoung := LabelStore.Sorted.entriesOf_evictBefore (s := s.metricStore.toLabelStore)
      (fun _ _ hst => h.metrics.invariant.sorted hst) it (Config.cutoffMs cutoff) id
    show LabelStore.entriesOf (s.metricStore.evict it it' _ _).toLabelStore id = [] ∨
      LabelStore.entriesOf (s.metricStore.evict it it' _ _).toLabelStore id = _
    rw [LabelStore.entriesOf, MetricStore.evict, MetricStore.lookup_evictToMax]
    split
    · exact .inl rfl
    · rw [MetricStore.toLabelStore_evictBefore]
      exact .inr hyoung
  traces t := by
    cases hst : (s.traceStore.evict itTraces itTraces' cutoff config.maxSpans).traces.lookup t with
    | none => exact .inl (congrArg (fun spans => spans.getD []) hst)
    | some spans =>
      have hyoung := TraceStore.young_evict h.traces itTraces itTraces' cutoff config.maxSpans hst
      exact .inr ((congrArg (fun spans => spans.getD []) hst).trans hyoung.2)

/-- **The next eviction at the same time finds nothing to do**, down to the indexes. -/
theorem Fits.evict_again {s : Stores Rodeo Spur F64} (h : s.Fits) (config : Config)
    (it₁ it₂ it₃ it₄ : IterOrder ℕ) (itTraces₁ itTraces₂ itTraces₃ itTraces₄ : IterOrder TraceId)
    (cutoff : ℤ) :
    (s.runEviction config it₁ it₂ itTraces₁ itTraces₂ cutoff).runEviction config it₃ it₄ itTraces₃
      itTraces₄ cutoff = s.runEviction config it₁ it₂ itTraces₁ itTraces₂ cutoff := by
  simp only [runEviction, Stores.evictLogs, Stores.evictMetrics, Stores.evictTraces,
    LogStore.evict_again h.logs, MetricStore.evict_again h.metrics.invariant,
    TraceStore.evict_again h.traces]

end Stores

end Evict

/-- **An eviction, after any run**: what it leaves is young and within the limits, whole series and
whole traces as far as they are young, and the next one at the same time finds nothing to do. -/
theorem Server.evicted_exec {Rodeo Spur F64 : Type} [LinearOrder Spur] [Interner Rodeo Spur]
    [Float64 F64] [SerdeJson F64] (config : Config) (events : List (Event F64))
    (hids : Run.Along step HasIds (start : Server Rodeo Spur F64) events) (it it' : IterOrder ℕ)
    (itTraces itTraces' : IterOrder TraceId) (cutoff : ℤ) :
    let s := (Run.exec step (start : Server Rodeo Spur F64) events).state.toStores
    let s' := s.runEviction config it it' itTraces itTraces' cutoff
    Stores.Evicted config cutoff s s' ∧ ∀ it₃ it₄ itTraces₃ itTraces₄,
      s'.runEviction config it₃ it₄ itTraces₃ itTraces₄ cutoff = s' :=
  have hfits := fits_exec hids
  ⟨hfits.evicted config it it' itTraces itTraces' cutoff, fun it₃ it₄ itTraces₃ itTraces₄ =>
    hfits.evict_again config it it' it₃ it₄ itTraces itTraces' itTraces₃ itTraces₄ cutoff⟩

/-- A push of three lines to one stream. -/
def Server.threeLines : IngestRequest ℤ :=
  let line (time : ℤ) (h : time ∈ Set.Icc i64Min i64Max) : LokiValue :=
    ⟨time, h, "line", none, none, []⟩
  .lokiPush [⟨[("service", "a")], List.nodup_singleton "service",
    [line 0 (by decide), line 5 (by decide), line 7 (by decide)]⟩]

/-- Of three lines one is too old, and of the others one is too many. -/
theorem Server.evicted_exec_threeLines :
    let it := IterOrder.ascending ℕ
    let itTraces : IterOrder TraceId := ⟨Finset.toList, Finset.nodup_toList, Finset.mem_toList⟩
    let s := (Run.exec step (start : Server VecRodeo ℕ ℤ)
      [.arrive threeLines, .stamp 0, .stamp 0, .stamp 0, .commit 0]).state.toStores
    let s' := s.runEviction ⟨"2h", 1, 1, 1⟩ it it itTraces itTraces 1
    (s.logStore.entriesOf 0).map LogEntry.timestampNs = [0, 5, 7] ∧
      (s'.logStore.entriesOf 0).map LogEntry.timestampNs = [7] ∧
      Stores.Evicted ⟨"2h", 1, 1, 1⟩ 1 s s' ∧ ∀ it₃ it₄ itTraces₃ itTraces₄,
        s'.runEviction ⟨"2h", 1, 1, 1⟩ it₃ it₄ itTraces₃ itTraces₄ 1 = s' := by
  refine ⟨by decide +kernel, by decide +kernel, evicted_exec ⟨"2h", 1, 1, 1⟩
    [.arrive threeLines, .stamp 0, .stamp 0, .stamp 0, .commit 0]
    ⟨trivial, trivial, trivial, trivial, fun r hr => ?_, trivial⟩ _ _ _ _ 1⟩
  obtain rfl := Option.some.inj hr
  show 0 + 1 ≤ u64Max
  decide

/-! ### Requests and evictions -/

/-- The events of a process that nobody resets: the steps of its requests, and the parts of its
evictions, each with the time its run of `run_eviction` read. -/
inductive Work (F64 : Type) where
  | arrive (request : IngestRequest F64)
  | stamp (i : ℕ)
  | commit (i : ℕ)
  | evictLogs (it it' : IterOrder ℕ) (clockNs : ℕ)
  | evictMetrics (it it' : IterOrder ℕ) (clockNs : ℕ)
  | evictTraces (it it' : IterOrder TraceId) (clockNs : ℕ)

namespace Work

variable {Rodeo Spur F64 : Type} [LinearOrder Spur] [Interner Rodeo Spur] [FloatOps F64]
  [SerdeJson F64]

/-- A part of an eviction, nothing where the retention panics. -/
def evicting (config : Config) (s : Server Rodeo Spur F64) (clockNs : ℕ)
    (evict : ℤ → Stores Rodeo Spur F64) : Server Rodeo Spur F64 :=
  match config.cutoffNs F64 clockNs with
  | none => s
  | some cutoff => s.setStores (evict cutoff)

/-- One event. -/
def step (config : Config) (s : Server Rodeo Spur F64) : Work F64 → Server Rodeo Spur F64
  | .arrive request => s.step (.arrive request)
  | .stamp i => s.step (.stamp i)
  | .commit i => s.step (.commit i)
  | .evictLogs it it' clockNs =>
    evicting config s clockNs fun cutoff => s.state.evictLogs config it it' cutoff
  | .evictMetrics it it' clockNs =>
    evicting config s clockNs fun cutoff => s.state.evictMetrics config it it' cutoff
  | .evictTraces it it' clockNs =>
    evicting config s clockNs fun cutoff => s.state.evictTraces config it it' cutoff

/-- There are ids left for a request that is committed. -/
def HasIds (s : Server Rodeo Spur F64) : Work F64 → Prop
  | .commit i => s.HasIds (.commit i)
  | _ => True

/-- An event commits an entry: a request stores it, under one of its numbers. -/
def Commits (s : Server Rodeo Spur F64) (e : Entry Spur F64) : Work F64 → Prop
  | .commit i => ∃ r, s.ready i = some r ∧ e.ingestSeq ∈ r.numbers ∧
    (s.step (.commit i)).state.Holds e
  | _ => False

/-- An element is young enough for an event, unless it is of another store. -/
def Spares (config : Config) (e : Entry Spur F64) (w : Work F64) : Prop :=
  match w, e with
  | .evictLogs _ _ clockNs, .log e =>
    ∀ cutoff ∈ config.cutoffNs F64 clockNs, cutoff ≤ e.timestampNs
  | .evictMetrics _ _ clockNs, .sample e =>
    ∀ cutoff ∈ config.cutoffNs F64 clockNs, Config.cutoffMs cutoff ≤ e.timestampMs
  | .evictTraces _ _ clockNs, .span e =>
    ∀ cutoff ∈ config.cutoffNs F64 clockNs, cutoff ≤ e.startTimeNs
  | _, _ => True

/-- What an eviction finds that is young enough is within the maximum. -/
def Within (config : Config) (s : Server Rodeo Spur F64) : Work F64 → Prop
  | .evictLogs it _ clockNs => ∀ cutoff ∈ config.cutoffNs F64 clockNs,
    (s.state.logStore.evictBefore it cutoff).total ≤ config.maxLogEntries
  | .evictMetrics it _ clockNs => ∀ cutoff ∈ config.cutoffNs F64 clockNs,
    (s.state.metricStore.evictBefore it (Config.cutoffMs cutoff)).seriesCount ≤ config.maxSeries
  | .evictTraces it _ clockNs => ∀ cutoff ∈ config.cutoffNs F64 clockNs,
    (s.state.traceStore.evictBefore it cutoff).totalSpans ≤ config.maxSpans
  | _ => True

theorem fits_step {config : Config} {s : Server Rodeo Spur F64} (h : s.state.Fits) {w : Work F64}
    (hids : HasIds s w) : (step config s w).state.Fits := by
  cases w with
  | arrive request => exact h
  | stamp i =>
    have hstamp : (s.step (.stamp i)).state.Fits := Server.fits_step h trivial
    exact hstamp
  | commit i =>
    have hcommit : (s.step (.commit i)).state.Fits := Server.fits_step h hids
    exact hcommit
  | evictLogs it it' clockNs =>
    rw [step, evicting]
    split
    · exact h
    · exact h.evictLogs config it it' _
  | evictMetrics it it' clockNs =>
    rw [step, evicting]
    split
    · exact h
    · exact h.evictMetrics config it it' _
  | evictTraces it it' clockNs =>
    rw [step, evicting]
    split
    · exact h
    · exact h.evictTraces config it it' _

/-- **What one event does to what is held**: it commits an entry, or spares what was there. -/
theorem holds_step {config : Config} {s : Server Rodeo Spur F64} (h : s.state.Fits) {w : Work F64}
    (hids : HasIds s w) (hwithin : Within config s w) {e : Entry Spur F64} :
    (step config s w).state.Holds e ↔ Commits s e w ∨ s.state.Holds e ∧ Spares config e w := by
  cases w with
  | arrive request => simp [Commits, Spares, step, Server.step]
  | stamp i =>
    have hsame : (s.step (.stamp i)).state.toStores = s.state.toStores := by
      rw [Server.step]
      split <;> rfl
    rw [step, hsame]
    simp [Commits, Spares]
  | commit i =>
    rw [step]
    simp only [Commits, Spares, and_true]
    constructor
    · intro he
      cases hr : s.ready i with
      | none =>
        rw [Server.step, hr] at he
        exact .inr he
      | some r =>
        have hstep := he
        rw [Server.step, hr] at hstep
        refine (Stores.holds_ingest hstep).symm.imp_left ?_
        rintro ⟨n, hn, hseq⟩
        have hcount : r.numbers.length = r.request.count :=
          of_decide_eq_true (Option.filter_eq_some_iff.mp hr).2
        refine ⟨r, rfl, ?_, he⟩
        have hlt : n < r.numbers.length := hcount ▸ hn
        rw [hseq, List.getD_eq_getElem?_getD, List.getElem?_eq_getElem hlt]
        exact List.getElem_mem hlt
    · rintro (⟨r, -, -, he⟩ | he)
      · exact he
      · rw [Server.step]
        split
        · exact he
        · next r hr => exact h.holds_ingest_of_holds (hids r hr) he
  | evictLogs it it' clockNs =>
    rw [step, evicting]
    cases hcut : config.cutoffNs F64 clockNs with
    | none => cases e <;> simp [Commits, Spares, hcut]
    | some cutoff =>
      cases e with
      | log e =>
        simp only [Commits, Spares, hcut, Option.mem_some_iff, forall_eq', false_or]
        exact LogStore.holds_evict h.logs it it' (hwithin cutoff hcut)
      | sample e => simp only [Commits, Spares, and_true, false_or]; rfl
      | span e => simp only [Commits, Spares, and_true, false_or]; rfl
  | evictMetrics it it' clockNs =>
    rw [step, evicting]
    cases hcut : config.cutoffNs F64 clockNs with
    | none => cases e <;> simp [Commits, Spares, hcut]
    | some cutoff =>
      cases e with
      | log e => simp only [Commits, Spares, and_true, false_or]; rfl
      | sample e =>
        simp only [Commits, Spares, hcut, Option.mem_some_iff, forall_eq', false_or]
        exact MetricStore.holds_evict h.metrics.invariant it it' (hwithin cutoff hcut)
      | span e => simp only [Commits, Spares, and_true, false_or]; rfl
  | evictTraces it it' clockNs =>
    rw [step, evicting]
    cases hcut : config.cutoffNs F64 clockNs with
    | none => cases e <;> simp [Commits, Spares, hcut]
    | some cutoff =>
      cases e with
      | log e => simp only [Commits, Spares, and_true, false_or]; rfl
      | sample e => simp only [Commits, Spares, and_true, false_or]; rfl
      | span e =>
        simp only [Commits, Spares, hcut, Option.mem_some_iff, forall_eq', false_or]
        exact TraceStore.holds_evict h.traces it it' (hwithin cutoff hcut)

/-- **The stores hold the history within the retention.** Along any run in which no eviction finds
more young elements than the maximum, an element is held exactly when some request committed it and
no eviction since then had a later cutoff. -/
theorem holds_iff (config : Config) (work : List (Work F64))
    (hids : Run.Along (step config) HasIds (Server.start : Server Rodeo Spur F64) work)
    (hwithin : Run.Along (step config) (Within config) (Server.start : Server Rodeo Spur F64) work)
    (e : Entry Spur F64) :
    let start : Server Rodeo Spur F64 := Server.start
    (Run.exec (step config) start work).state.Holds e ↔ ∃ before w after,
      work = before ++ w :: after ∧ Commits (Run.exec (step config) start before) e w ∧
        ∀ w' ∈ after, Spares config e w' := by
  intro start
  rw [Run.exec_iff_exists_adds (C := fun s w => HasIds s w ∧ Within config s w)
    (I := fun s : Server Rodeo Spur F64 => s.state.Fits) (P := fun s => s.state.Holds e)
    (fun s w hw h => fits_step h hw.1) (fun s w hw h => holds_step h hw.1 hw.2) Stores.fits_new
    (hids.and hwithin)]
  have hnew : ¬ (Stores.new : Stores Rodeo Spur F64).Holds e := Stores.not_holds_new e
  exact or_iff_right fun hstart => hnew hstart.1

/-- A push, and an eviction half a second later. -/
def pushAndEvict : List (Work ℤ) :=
  [.arrive Server.onePush, .stamp 0, .commit 0,
    .evictLogs (IterOrder.ascending ℕ) (IterOrder.ascending ℕ) 500000000]

/-- With a retention of half a second the line is still there. -/
theorem holds_iff_pushAndEvict :
    (Run.exec (step ⟨"500ms", 1, 0, 0⟩) Server.start pushAndEvict :
      Server VecRodeo ℕ ℤ).state.Holds (.log ⟨0, "line", 1, none, none, 0, none, []⟩) := by
  have hcut : Config.cutoffNs ℤ ⟨"500ms", 1, 0, 0⟩ 500000000 = some 0 := by decide
  refine (holds_iff ⟨"500ms", 1, 0, 0⟩ pushAndEvict
    ⟨trivial, trivial, Server.along_hasIds_onePush.2.2.1, trivial, trivial⟩
    ⟨trivial, trivial, trivial, fun cutoff hcutoff => ?_, trivial⟩ _).mpr
      ⟨[.arrive Server.onePush, .stamp 0], .commit 0, [_], rfl, ⟨_, rfl, ?_, ?_⟩, fun w' hw' => ?_⟩
  · obtain rfl := Option.some.inj (hcut.symm.trans hcutoff)
    exact (LabelStore.total_evictBefore _ _ 0).2.trans_le (Nat.sub_le 1 _)
  · exact List.mem_singleton_self 1
  · exact ⟨0, _, rfl, List.mem_singleton_self _⟩
  · obtain rfl := List.mem_singleton.mp hw'
    intro cutoff hcutoff
    exact (Option.some.inj (hcut.symm.trans hcutoff)).ge

end Work

end Aniani
