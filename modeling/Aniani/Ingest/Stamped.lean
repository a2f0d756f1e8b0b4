import Aniani.Ingest.Commit
import Aniani.Ingest.Logs
import Aniani.Ingest.Traces
import Aniani.Store.Held

/-!
# What a request stores

A request takes a fixed count of numbers while it is prepared, and whatever it stores carries one
of them. Nothing else gets into a store, and the store keeps fitting: a log store and a metric
store as long as there are ids left, a trace store in any case.

## Main definitions

* `pointCount`, `lokiCount`, `traceCount` — how many numbers a request takes
* `LogStore.idsFor` — how many ids a log request creates
* `TraceStore.ServicesInterned` — the spans name their service by a key of the interner

## Main results

* `LogStore.holds_ingestLogs`, `LogStore.holds_ingestLokiPush`
* `MetricStore.holds_ingestMetrics`, `MetricStore.holds_remoteWrite`
* `TraceStore.holds_ingestTraces`
-/

namespace Aniani

open Interner

/-! ### Log entries -/

section PrepareLogs

variable {F64 : Type}

/-- How many numbers a Loki push takes. -/
def lokiCount (request : LokiPushRequest) : ℕ :=
  (request.map fun stream => stream.values.length).sum

/-- A saturated time is an `i64`. -/
theorem u64ToI64Saturating_mem (n : ℕ) : u64ToI64Saturating n ∈ Set.Icc i64Min i64Max := by
  have hmin : i64Min ≤ 0 := by decide
  have hmax : 0 ≤ i64Max := by decide
  exact ⟨hmin.trans (le_min (Int.natCast_nonneg n) hmax), min_le_right _ _⟩

theorem mem_pushEntry {labels : List (String × String)} {entry p : PreparedLogEntry F64}
    {batches : List (LogBatch F64)} {batch : LogBatch F64}
    (hb : batch ∈ pushEntry labels entry batches) (hp : p ∈ batch.entries) :
    p = entry ∨ ∃ batch' ∈ batches, p ∈ batch'.entries := by
  induction batches with
  | nil =>
    obtain rfl := List.mem_singleton.mp hb
    exact .inl (List.mem_singleton.mp hp)
  | cons b batches ih =>
    rw [pushEntry] at hb
    split at hb
    · rcases List.mem_cons.mp hb with rfl | hb
      · rcases List.mem_append.mp hp with hp | hp
        · exact .inr ⟨b, List.mem_cons_self, hp⟩
        · exact .inl (List.mem_singleton.mp hp)
      · exact .inr ⟨batch, List.mem_cons_of_mem _ hb, hp⟩
    · rcases List.mem_cons.mp hb with rfl | hb
      · exact .inr ⟨batch, List.mem_cons_self, hp⟩
      · refine (ih hb).imp_right ?_
        rintro ⟨batch', hmem, hp⟩
        exact ⟨batch', List.mem_cons_of_mem _ hmem, hp⟩

theorem mem_foldl_pushEntry {l : List (List (String × String) × PreparedLogEntry F64)}
    {batches : List (LogBatch F64)} {batch : LogBatch F64} {p : PreparedLogEntry F64}
    (hb : batch ∈ l.foldl (fun batches r => pushEntry r.1 r.2 batches) batches)
    (hp : p ∈ batch.entries) :
    (∃ r ∈ l, p = r.2) ∨ ∃ batch' ∈ batches, p ∈ batch'.entries := by
  induction l generalizing batches with
  | nil => exact .inr ⟨batch, hb, hp⟩
  | cons r l ih =>
    rcases ih hb with ⟨r', hr', rfl⟩ | ⟨batch', hb', hp⟩
    · exact .inl ⟨r', List.mem_cons_of_mem _ hr', rfl⟩
    · exact (mem_pushEntry hb' hp).imp_left fun heq => ⟨r, List.mem_cons_self, heq⟩

/-- Each entry of an OTLP request has one of its numbers, and a time that is an `i64`. -/
theorem mem_logBatches [Float64 F64] [SerdeJson F64] {seqs clockNs : ℕ → ℕ}
    {request : ExportLogsServiceRequest F64} {batch : LogBatch F64} {p : PreparedLogEntry F64}
    (hb : batch ∈ logBatches seqs clockNs request) (hp : p ∈ batch.entries) :
    (∃ n < (logRecords request).length, p.ingestSeq = seqs n) ∧
      p.timestampNs ∈ Set.Icc i64Min i64Max := by
  rcases mem_foldl_pushEntry hb hp with ⟨r, hr, rfl⟩ | ⟨batch', hb', -⟩
  · obtain ⟨n, hn, rfl⟩ := List.mem_mapIdx.mp hr
    refine ⟨⟨n, hn, rfl⟩, ?_⟩
    show (if _ then _ else _) ∈ _
    split <;> exact u64ToI64Saturating_mem _
  · exact absurd hb' (by simp)

/-- Each entry of a Loki push has one of its numbers, and a time that is an `i64`. -/
theorem mem_lokiBatches {seqs : ℕ → ℕ} {m : ℕ} {request : LokiPushRequest} {batch : LogBatch F64}
    {p : PreparedLogEntry F64} (hb : batch ∈ lokiBatches seqs m request)
    (hp : p ∈ batch.entries) :
    (∃ n < m + lokiCount request, p.ingestSeq = seqs n) ∧
      p.timestampNs ∈ Set.Icc i64Min i64Max := by
  induction request generalizing m with
  | nil => simp [lokiBatches] at hb
  | cons stream request ih =>
    rw [lokiCount, List.map_cons, List.sum_cons]
    rcases List.mem_cons.mp hb with rfl | hb
    · obtain ⟨i, hi, rfl⟩ := List.mem_mapIdx.mp hp
      exact ⟨⟨m + i, by omega, rfl⟩, stream.values[i].timestampNs_mem⟩
    · obtain ⟨⟨n, hn, hseq⟩, htime⟩ := ih hb
      rw [lokiCount] at hn
      exact ⟨⟨n, by omega, hseq⟩, htime⟩

end PrepareLogs

namespace LogStore

variable {Rodeo Spur F64 : Type} [LinearOrder Spur] [Interner Rodeo Spur]

omit [LinearOrder Spur] in
theorem extends_internLogAttr (r : Rodeo) (attr : String × PreparedLogAttr F64) :
    Extends r (internLogAttr r attr).2 := by
  rw [internLogAttr]
  dsimp only
  split
  · exact (extends_getOrIntern r _).trans (extends_getOrIntern _ _)
  all_goals exact extends_getOrIntern r _

omit [LinearOrder Spur] in
theorem extends_internLogEntry (r : Rodeo) (e : PreparedLogEntry F64) :
    Extends r (internLogEntry r e).2 :=
  (extends_internEach extends_internLogAttr r _).trans (extends_internOption _ _)

/-- The ids a list of batches creates. -/
def idsFor (s : LogStore Rodeo Spur F64) (batches : List (LogBatch F64)) : ℕ :=
  Run.cost ingestBatch (fun s batch => (s.internBatch batch).toLabelStore.created batch.labels) s
    batches

/-- Interning the strings of a batch keeps the store fitting. -/
theorem invariant_internBatch {s : LogStore Rodeo Spur F64} (h : s.Invariant)
    (batch : LogBatch F64) : (s.internBatch batch).Invariant :=
  have hext := extends_internEach extends_internLogEntry s.interner batch.entries
  ⟨⟨h.labelIndex, h.labelValues, h.streamIds, h.next, h.sorted, fun hst pair hp =>
    ⟨(h.interned hst pair hp).1.mono hext, (h.interned hst pair hp).2.mono hext⟩⟩, h.total⟩

theorem invariant_ingestBatch {s : LogStore Rodeo Spur F64} (h : s.Invariant)
    {batch : LogBatch F64}
    (hroom : s.nextStreamId + (s.internBatch batch).toLabelStore.created batch.labels ≤ u64Max) :
    (s.ingestBatch batch).Invariant := by
  rw [ingestBatch, toLabelStore_ingestStream]
  exact (invariant_internBatch h batch).ingest hroom _

theorem nextStreamId_ingestBatch_le (s : LogStore Rodeo Spur F64) (batch : LogBatch F64) :
    (s.ingestBatch batch).nextStreamId ≤
      s.nextStreamId + (s.internBatch batch).toLabelStore.created batch.labels := by
  rw [ingestBatch, toLabelStore_ingestStream]
  exact LabelStore.nextStreamId_ingest_le _ _ _

/-- **A log ingest keeps the store fitting** while there are ids left. -/
theorem invariant_ingestBatches {s : LogStore Rodeo Spur F64} (h : s.Invariant)
    {batches : List (LogBatch F64)} (hroom : s.nextStreamId + s.idsFor batches ≤ u64Max) :
    (s.ingestBatches batches).Invariant :=
  Run.exec_invariant_cost (P := fun s : LogStore Rodeo Spur F64 => s.Invariant)
    (fun _ _ hop hs => invariant_ingestBatch hs hop)
    (fun s batch _ _ => nextStreamId_ingestBatch_le s batch) h hroom

/-- What a log ingest stores was prepared: its number and its time have not changed. -/
theorem holds_ingestBatches {s : LogStore Rodeo Spur F64} {batches : List (LogBatch F64)}
    {e : LogEntry Spur F64} (h : (s.ingestBatches batches).Holds e) :
    s.Holds e ∨ ∃ batch ∈ batches, ∃ p ∈ batch.entries,
      p.ingestSeq = e.ingestSeq ∧ p.timestampNs = e.timestampNs := by
  rw [ingestBatches] at h
  induction batches generalizing s with
  | nil => exact .inl h
  | cons batch batches ih =>
    rcases ih h with h | ⟨batch', hb, hp⟩
    · rw [ingestBatch, toLabelStore_ingestStream] at h
      refine (LabelStore.holds_ingest h).imp (fun h => h) fun he => ⟨batch, List.mem_cons_self, ?_⟩
      have hkept := map_internEach (f := internLogEntry)
        (g := fun e : LogEntry Spur F64 => (e.ingestSeq, e.timestampNs))
        (h := fun p : PreparedLogEntry F64 => (p.ingestSeq, p.timestampNs)) (fun _ _ => rfl)
        s.interner batch.entries
      obtain ⟨p, hp, heq⟩ := List.mem_map.mp (hkept ▸ List.mem_map_of_mem he)
      exact ⟨p, hp, (Prod.mk.inj heq).1, (Prod.mk.inj heq).2⟩
    · exact .inr ⟨batch', List.mem_cons_of_mem _ hb, hp⟩

theorem holds_ingestLogs [Float64 F64] [SerdeJson F64] {s : LogStore Rodeo Spur F64}
    {seqs clockNs : ℕ → ℕ} {request : ExportLogsServiceRequest F64} {e : LogEntry Spur F64}
    (h : (s.ingestLogs seqs clockNs request).Holds e) :
    s.Holds e ∨ (∃ n < (logRecords request).length, e.ingestSeq = seqs n) ∧
      e.timestampNs ∈ Set.Icc i64Min i64Max := by
  refine (holds_ingestBatches h).imp_right ?_
  rintro ⟨batch, hb, p, hp, hseq, htime⟩
  rw [← hseq, ← htime]
  exact mem_logBatches hb hp

theorem holds_ingestLokiPush {s : LogStore Rodeo Spur F64} {seqs : ℕ → ℕ}
    {request : LokiPushRequest} {e : LogEntry Spur F64}
    (h : (s.ingestLokiPush seqs request).Holds e) :
    s.Holds e ∨ (∃ n < lokiCount request, e.ingestSeq = seqs n) ∧
      e.timestampNs ∈ Set.Icc i64Min i64Max := by
  refine (holds_ingestBatches h).imp_right ?_
  rintro ⟨batch, hb, p, hp, hseq, htime⟩
  rw [← hseq, ← htime, ← Nat.zero_add (lokiCount request)]
  exact mem_lokiBatches hb hp

end LogStore

/-! ### Samples -/

/-- How many numbers the items of a metrics request take. -/
def pointCount {F64 : Type} (items : List (MetricItem F64)) : ℕ :=
  (items.map fun item => item.points.length).sum

/-- Each sample of a metrics request has one of its numbers. -/
theorem mem_numberItems {F64 : Type} {seqs : ℕ → ℕ} {m : ℕ} {items : List (MetricItem F64)}
    {item : PreparedItem F64} {e : Sample F64} (hitem : item ∈ numberItems seqs m items)
    (he : e ∈ item.samples) : ∃ n < m + pointCount items, e.ingestSeq = seqs n := by
  induction items generalizing m with
  | nil => simp [numberItems] at hitem
  | cons item' items ih =>
    rw [pointCount, List.map_cons, List.sum_cons]
    rcases List.mem_cons.mp hitem with rfl | hitem
    · obtain ⟨i, hi, rfl⟩ := List.mem_mapIdx.mp he
      exact ⟨m + i, by omega, rfl⟩
    · obtain ⟨n, hn, hseq⟩ := ih hitem
      rw [pointCount] at hn
      exact ⟨n, by omega, hseq⟩

namespace MetricStore

variable {Rodeo Spur F64 : Type} [LinearOrder Spur] [Interner Rodeo Spur]

theorem streams_registerItems (s : MetricStore Rodeo Spur F64) (items : List (PreparedItem F64)) :
    (s.registerItems items).1.streams = s.streams := by
  induction items generalizing s with
  | nil => rfl
  | cons item items ih =>
    have hone : (s.registerMetricName item.name item.sourceName).1.streams = s.streams := by
      rw [toLabelStore_registerMetricName]
      rfl
    rw [registerItems]
    split
    · next heq => rw [← hone, heq]
    · next heq => rw [ih, ← hone, heq]

theorem streams_registerMetas (s : MetricStore Rodeo Spur F64) (metas : List PreparedMeta) :
    (s.registerMetas metas).streams = s.streams := by
  induction metas generalizing s with
  | nil => rfl
  | cons m metas ih => exact ih (s.registerMetricMetadata m.name (some m.metricType) m.help m.unit)

theorem holds_ingestItems {s : MetricStore Rodeo Spur F64} {items : List (PreparedItem F64)}
    {e : Sample F64} (h : (s.ingestItems items).Holds e) :
    s.Holds e ∨ ∃ item ∈ items, e ∈ item.samples := by
  rw [ingestItems] at h
  induction items generalizing s with
  | nil => exact .inl h
  | cons item items ih =>
    rcases ih h with h | ⟨item', hitem, he⟩
    · exact (LabelStore.holds_ingest h).imp_right fun he => ⟨item, List.mem_cons_self, he⟩
    · exact .inr ⟨item', List.mem_cons_of_mem _ hitem, he⟩

/-- **A commit stores samples of its items**, or none when it is rejected. -/
theorem holds_commitItems {s : MetricStore Rodeo Spur F64} {items : List (PreparedItem F64)}
    {metas : List PreparedMeta} {e : Sample F64} (h : (s.commitItems items metas).1.Holds e) :
    s.Holds e ∨ ∃ item ∈ items, e ∈ item.samples := by
  have hreg := s.streams_registerItems items
  rw [commitItems] at h
  split at h
  · exact .inl h
  split at h
  · next heq =>
    rw [heq] at hreg
    exact .inl (h.congr hreg)
  · next heq =>
    rw [heq] at hreg
    exact (holds_ingestItems (h.congr (streams_registerMetas _ metas))).imp_left fun h =>
      h.congr hreg

theorem holds_ingestMetrics [Float64 F64] {s : MetricStore Rodeo Spur F64} {seqs : ℕ → ℕ}
    {request : ExportMetricsServiceRequest F64} {e : Sample F64}
    (h : (s.ingestMetrics seqs request).1.Holds e) :
    s.Holds e ∨ ∃ n < pointCount (requestItems request), e.ingestSeq = seqs n := by
  refine (holds_commitItems h).imp_right ?_
  rintro ⟨item, hitem, he⟩
  rw [← Nat.zero_add (pointCount _)]
  exact mem_numberItems hitem he

theorem holds_remoteWrite {s : MetricStore Rodeo Spur F64} {seqs : ℕ → ℕ}
    {request : WriteRequest F64} {e : Sample F64} (h : (s.remoteWrite seqs request).1.Holds e) :
    s.Holds e ∨ ∃ n < pointCount (remoteItems request), e.ingestSeq = seqs n := by
  refine (holds_commitItems h).imp_right ?_
  rintro ⟨item, hitem, he⟩
  rw [← Nat.zero_add (pointCount _)]
  exact mem_numberItems hitem he

end MetricStore

/-! ### Spans -/

section PrepareSpans

variable {F64 : Type}

/-- How many numbers a traces request takes. -/
def traceCount (request : ExportTraceServiceRequest F64) : ℕ :=
  (request.map fun resourceSpans => spanCount resourceSpans.scopeSpans).sum

/-- The spans of a request, prepared. -/
def preparedSpans [Float64 F64] (seqs : ℕ → ℕ) (request : ExportTraceServiceRequest F64) :
    List (PreparedSpan F64) :=
  (preparedResources seqs 0 request).flatMap fun resource => resource.2.flatMap Prod.snd

theorem mem_scopeGroups {seqs : ℕ → ℕ} {serviceName : String} {m : ℕ}
    {scopes : List (ScopeSpans F64)} {group : PreparedScopeGroup F64} {p : PreparedSpan F64}
    (hgroup : group ∈ scopeGroups seqs serviceName m scopes) (hp : p ∈ group.2) :
    ∃ n < m + spanCount scopes, p.ingestSeq = seqs n := by
  induction scopes generalizing m with
  | nil => simp [scopeGroups] at hgroup
  | cons scope scopes ih =>
    rw [spanCount, List.map_cons, List.sum_cons]
    rcases List.mem_cons.mp hgroup with rfl | hgroup
    · obtain ⟨i, hi, rfl⟩ := List.mem_mapIdx.mp hp
      exact ⟨m + i, by omega, rfl⟩
    · obtain ⟨n, hn, hseq⟩ := ih hgroup
      rw [spanCount] at hn
      exact ⟨n, by omega, hseq⟩

/-- Each span of a traces request has one of its numbers. -/
theorem mem_preparedResources [Float64 F64] {seqs : ℕ → ℕ} {m : ℕ}
    {request : ExportTraceServiceRequest F64} {resource : PreparedResource F64}
    {group : PreparedScopeGroup F64} {p : PreparedSpan F64}
    (hresource : resource ∈ preparedResources seqs m request) (hgroup : group ∈ resource.2)
    (hp : p ∈ group.2) : ∃ n < m + traceCount request, p.ingestSeq = seqs n := by
  induction request generalizing m with
  | nil => simp [preparedResources] at hresource
  | cons resourceSpans request ih =>
    rw [traceCount, List.map_cons, List.sum_cons]
    rcases List.mem_cons.mp hresource with rfl | hresource
    · obtain ⟨n, hn, hseq⟩ := mem_scopeGroups hgroup hp
      exact ⟨n, by omega, hseq⟩
    · obtain ⟨n, hn, hseq⟩ := ih hresource
      rw [traceCount] at hn
      exact ⟨n, by omega, hseq⟩

end PrepareSpans

section ExtendSpans

variable {Rodeo Spur F64 : Type} [Interner Rodeo Spur]

mutual

theorem extends_internValue (r : Rodeo) :
    ∀ value : PreparedAttributeValue F64, Extends r (internValue r value).2
  | .string s => extends_getOrIntern r s
  | .int _ => Extends.refl r
  | .float _ => Extends.refl r
  | .bool _ => Extends.refl r
  | .bytes _ => Extends.refl r
  | .array items => extends_internValues r items
  | .keyValueList pairs => extends_internPairValues r pairs

theorem extends_internValues (r : Rodeo) :
    ∀ items : List (PreparedAttributeValue F64), Extends r (internValues r items).2
  | [] => Extends.refl r
  | item :: items => (extends_internValue r item).trans (extends_internValues _ items)

theorem extends_internPairValues (r : Rodeo) :
    ∀ pairs : List (String × PreparedAttributeValue F64), Extends r (internPairValues r pairs).2
  | [] => Extends.refl r
  | (key, value) :: pairs =>
    ((extends_getOrIntern r key).trans (extends_internValue _ value)).trans
      (extends_internPairValues _ pairs)

end

theorem extends_internAttribute (r : Rodeo) (attr : String × PreparedAttributeValue F64) :
    Extends r (internAttribute r attr).2 :=
  (extends_getOrIntern r _).trans (extends_internValue _ _)

theorem extends_internEvent (r : Rodeo) (event : PreparedEvent F64) :
    Extends r (internEvent r event).2 :=
  (extends_getOrIntern r _).trans (extends_internEach extends_internAttribute _ _)

theorem extends_internLink (r : Rodeo) (link : PreparedLink F64) :
    Extends r (internLink r link).2 :=
  (extends_internOption r _).trans (extends_internEach extends_internAttribute _ _)

/-- From the name of the service on, interning a span extends the interner. -/
theorem extends_internPreparedSpan_service (shared : Attributes Spur F64) (r : Rodeo)
    (p : PreparedSpan F64) :
    Extends (getOrIntern (getOrIntern r p.name).2 p.serviceName).2
      (internPreparedSpan shared r p).2 :=
  (((extends_internEach extends_internAttribute _ _).trans
    (extends_internEach extends_internEvent _ _)).trans
    (extends_internEach extends_internLink _ _)).trans (extends_internOption _ _)

theorem extends_internPreparedSpan (shared : Attributes Spur F64) (r : Rodeo)
    (p : PreparedSpan F64) : Extends r (internPreparedSpan shared r p).2 :=
  ((extends_getOrIntern r _).trans (extends_getOrIntern _ _)).trans
    (extends_internPreparedSpan_service shared r p)

/-- Interned spans name their services by keys of the interner they leave. -/
theorem valid_serviceName_internEach (shared : Attributes Spur F64) (r : Rodeo)
    (ps : List (PreparedSpan F64)) :
    ∀ span ∈ (internEach (internPreparedSpan shared) r ps).1,
      Valid (internEach (internPreparedSpan shared) r ps).2 span.serviceName := by
  induction ps generalizing r with
  | nil => simp [internEach]
  | cons p ps ih =>
    refine List.forall_mem_cons.mpr ⟨?_, ih _⟩
    exact ((valid_getOrIntern _ _).mono (extends_internPreparedSpan_service shared r p)).mono
      (extends_internEach (extends_internPreparedSpan shared) _ ps)

end ExtendSpans

namespace TraceStore

variable {Rodeo Spur F64 : Type} [LinearOrder Spur] [Interner Rodeo Spur]

/-- The spans of the store name their services by keys of its interner. -/
def ServicesInterned (s : TraceStore Rodeo Spur F64) : Prop :=
  ∀ {span}, s.Holds span → Valid s.interner span.serviceName

omit [LinearOrder Spur] in
theorem ServicesInterned.of_shrinks {s s' : TraceStore Rodeo Spur F64} (h : s.ServicesInterned)
    (hs : s.Shrinks s') (hinterner : s'.interner = s.interner) : s'.ServicesInterned :=
  fun hspan => hinterner ▸ h (hs.holds hspan)

omit [Interner Rodeo Spur] in
theorem ingestSpans_interner (s : TraceStore Rodeo Spur F64) (spans : List (Span Spur F64)) :
    (s.ingestSpans spans).interner = s.interner := by
  rw [ingestSpans]
  induction spans generalizing s with
  | nil => rfl
  | cons span spans ih => exact ih (s.ingestSpan span)

/-- The spans of a scope are ingested into the store with its interner grown. -/
theorem ingestScope_cases (resource : Attributes Spur F64) (s : TraceStore Rodeo Spur F64)
    (group : PreparedScopeGroup F64) : ∃ r shared,
      Extends s.interner r ∧ s.ingestScope resource group =
        ingestSpans { s with interner := (internEach (internPreparedSpan shared) r group.2).2 }
          (internEach (internPreparedSpan shared) r group.2).1 :=
  ⟨_, _, extends_internEach extends_internAttribute _ _, rfl⟩

/-- The three things an ingest of traces keeps track of: what is stored, that the indexes fit, and
that the services are interned. -/
structure Gains (s s' : TraceStore Rodeo Spur F64) (ps : List (PreparedSpan F64)) : Prop where
  holds : ∀ {span}, s'.Holds span → s.Holds span ∨ ∃ p ∈ ps, p.ingestSeq = span.ingestSeq
  invariant : s.Invariant → s'.Invariant
  interned : s.ServicesInterned → s'.ServicesInterned

theorem Gains.refl (s : TraceStore Rodeo Spur F64) : s.Gains s [] :=
  ⟨.inl, id, fun h => h⟩

theorem Gains.trans {s₁ s₂ s₃ : TraceStore Rodeo Spur F64} {ps ps' : List (PreparedSpan F64)}
    (h₁ : s₁.Gains s₂ ps) (h₂ : s₂.Gains s₃ ps') : s₁.Gains s₃ (ps ++ ps') where
  holds hspan := by
    rcases h₂.holds hspan with hspan | ⟨p, hp, hseq⟩
    · refine (h₁.holds hspan).imp_right ?_
      rintro ⟨p, hp, hseq⟩
      exact ⟨p, List.mem_append_left _ hp, hseq⟩
    · exact .inr ⟨p, List.mem_append_right _ hp, hseq⟩
  invariant h := h₂.invariant (h₁.invariant h)
  interned h := h₂.interned (h₁.interned h)

theorem gains_ingestScope (resource : Attributes Spur F64) (s : TraceStore Rodeo Spur F64)
    (group : PreparedScopeGroup F64) : s.Gains (s.ingestScope resource group) group.2 := by
  obtain ⟨r, shared, hext, heq⟩ := ingestScope_cases resource s group
  have hkept := map_internEach (f := internPreparedSpan shared)
    (g := fun span : Span Spur F64 => span.ingestSeq)
    (h := fun p : PreparedSpan F64 => p.ingestSeq) (fun _ _ => rfl) r group.2
  have hvalid := valid_serviceName_internEach shared r group.2
  have hext := hext.trans (extends_internEach (extends_internPreparedSpan shared) r group.2)
  rw [heq]
  generalize internEach (internPreparedSpan shared) r group.2 = spans at hkept hvalid hext
  refine ⟨fun hspan => ?_, fun h => ?_, fun h => ?_⟩
  · refine (holds_ingestSpans hspan).imp (fun h => h) fun hmem => ?_
    obtain ⟨p, hp, hseq⟩ := List.mem_map.mp (hkept ▸ List.mem_map_of_mem hmem)
    exact ⟨p, hp, hseq⟩
  · exact (h.withInterner spans.2).ingestSpans spans.1
  · intro span hspan
    rw [ingestSpans_interner]
    rcases holds_ingestSpans hspan with hold | hmem
    · exact (h hold).mono hext
    · exact hvalid span hmem

/-- Growing the interner stores nothing. -/
theorem gains_withInterner (s : TraceStore Rodeo Spur F64) {r : Rodeo}
    (hext : Extends s.interner r) : s.Gains { s with interner := r } [] where
  holds hspan := .inl (hspan.congr rfl)
  invariant h := h.withInterner r
  interned h := fun hspan => (h (hspan.congr rfl)).mono hext

theorem gains_foldl {ι : Type} {f : TraceStore Rodeo Spur F64 → ι → TraceStore Rodeo Spur F64}
    {ps : ι → List (PreparedSpan F64)}
    (hf : ∀ (s : TraceStore Rodeo Spur F64) i, s.Gains (f s i) (ps i))
    (s : TraceStore Rodeo Spur F64) (l : List ι) : s.Gains (l.foldl f s) (l.flatMap ps) := by
  induction l generalizing s with
  | nil => exact Gains.refl s
  | cons i l ih => exact (hf s i).trans (ih _)

theorem gains_ingestResource (s : TraceStore Rodeo Spur F64) (resource : PreparedResource F64) :
    s.Gains (s.ingestResource resource) (resource.2.flatMap Prod.snd) :=
  (gains_withInterner s (extends_internEach extends_internAttribute _ _)).trans
    (gains_foldl (gains_ingestScope _) _ resource.2)

theorem gains_ingestTraces [Float64 F64] (s : TraceStore Rodeo Spur F64) (seqs : ℕ → ℕ)
    (request : ExportTraceServiceRequest F64) :
    s.Gains (s.ingestTraces seqs request) (preparedSpans seqs request) :=
  gains_foldl gains_ingestResource s _

theorem holds_ingestTraces [Float64 F64] {s : TraceStore Rodeo Spur F64} {seqs : ℕ → ℕ}
    {request : ExportTraceServiceRequest F64} {span : Span Spur F64}
    (h : (s.ingestTraces seqs request).Holds span) :
    s.Holds span ∨ ∃ n < traceCount request, span.ingestSeq = seqs n := by
  refine ((gains_ingestTraces s seqs request).holds h).imp_right ?_
  rintro ⟨p, hp, hseq⟩
  obtain ⟨resource, hresource, hp⟩ := List.mem_flatMap.mp hp
  obtain ⟨group, hgroup, hp⟩ := List.mem_flatMap.mp hp
  rw [← hseq, ← Nat.zero_add (traceCount _)]
  exact mem_preparedResources hresource hgroup hp

end TraceStore

end Aniani
