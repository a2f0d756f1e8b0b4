import Aniani.Ingest.Histogram
import Aniani.Ingest.LabelSources
import Aniani.Server.Checkpoint
import Aniani.Store.Identity

/-!
# The label sets of a request

Every stream and series an ingest stores has the labels of one of the request's label sources, and
they are found again by their labels, sorted by interned names. The names are distinct exactly when
no name comes from two places, and then the order the attributes were listed in is forgotten.

## Main definitions

* `IngestRequest.sources` — the label sources of a request
* `Stores.Lands` — where a label list lands
* `Stores.Gained` — what a request leaves

## Main results

* `Stores.gained_ingest`
* `Stores.distinct_labels_iff`
* `Stores.repeated_level` — an attribute called `level`
-/

namespace Aniani

open Interner

/-! ### The sources of a request -/

section Sources

variable {F64 : Type} [Float64 F64]

/-- Of an OTLP logs request: one for each record. -/
def logSources (request : ExportLogsServiceRequest F64) : List LabelSource :=
  request.flatMap fun rl =>
    rl.scopeLogs.flatten.map fun record =>
      { name := none
        resource := extractResourceLabels rl.resource
        own := []
        added := some (.level, severityToLevel record.severityNumber) }

/-- Of a Loki push: one for each stream. -/
def lokiSources (request : LokiPushRequest) : List LabelSource :=
  request.map fun stream => { name := none, resource := [], own := stream.labels, added := none }

/-- Of one metric: one for each component of each data point. -/
def metricSources (resource : List (String × String)) (metric : Metric F64) : List LabelSource :=
  let name := normalizeName metric.name
  match metric.data with
  | some (.gauge dataPoints) | some (.sum _ dataPoints) =>
    dataPoints.map fun dp => ⟨some name, resource, extractKeyValues dp.attributes, none⟩
  | some (.histogram dataPoints) =>
    dataPoints.flatMap fun dp =>
      let own := extractKeyValues dp.attributes
      (bucketBounds dp.bucketCounts dp.explicitBounds).map (fun le =>
          ⟨some (name ++ "_bucket"), resource, own, some (.le, le)⟩) ++
        [⟨some (name ++ "_sum"), resource, own, none⟩,
          ⟨some (name ++ "_count"), resource, own, none⟩]
  | some (.summary dataPoints) =>
    dataPoints.flatMap fun dp =>
      let own := extractKeyValues dp.attributes
      (dp.quantileValues.map fun qv =>
          ⟨some (name ++ ""), resource, own, some (.quantile, Float64.display qv.1)⟩) ++
        [⟨some (name ++ "_sum"), resource, own, none⟩,
          ⟨some (name ++ "_count"), resource, own, none⟩]
  | some .exponentialHistogram | none => []

/-- Of an OTLP metrics request. -/
def otlpMetricSources (request : ExportMetricsServiceRequest F64) : List LabelSource :=
  request.flatMap fun rm =>
    rm.scopeMetrics.flatten.flatMap fun metric =>
      metricSources (extractResourceLabels rm.resource) metric

omit [Float64 F64] in
/-- Of a remote-write request: one for each series with a name. -/
def remoteSources (request : WriteRequest F64) : List LabelSource :=
  request.filterMap fun ts =>
    if remoteName ts.labels = "" then none
    else some ⟨some (remoteName ts.labels), [],
      ts.labels.filter fun label => decide (label.1 ≠ "__name__"), none⟩

/-- The label sources of a request. Spans have no label set. -/
def IngestRequest.sources : IngestRequest F64 → List LabelSource
  | .otlpLogs _ request => logSources request
  | .lokiPush request => lokiSources request
  | .otlpMetrics request => otlpMetricSources request
  | .remoteWrite request => remoteSources request
  | .otlpTraces _ => []

/-! ### They make the labels -/

theorem map_labels_logSources [SerdeJson F64] (request : ExportLogsServiceRequest F64) :
    (logSources request).map LabelSource.labels = (logRecords request).map Prod.fst := by
  rw [logSources, logRecords, List.map_flatMap, List.map_flatMap]
  refine List.flatMap_congr fun rl _ => ?_
  rw [List.map_map, List.map_map]
  refine List.map_congr_left fun record _ => ?_
  simp [LabelSource.labels, AddedLabel.key]

omit [Float64 F64] in
theorem map_labels_lokiSources (seqs : ℕ → ℕ) (n : ℕ) (request : LokiPushRequest) :
    (lokiSources request).map LabelSource.labels =
      (lokiBatches seqs n request : List (LogBatch F64)).map LogBatch.labels := by
  induction request generalizing n with
  | nil => rfl
  | cons stream request ih =>
    rw [lokiSources, List.map_cons, List.map_cons, lokiBatches, List.map_cons, ← ih]
    simp [LabelSource.labels, promoteServiceName, lokiSources]

/-- The labels an item is ingested with. -/
def MetricItem.allLabels (item : MetricItem F64) : List (String × String) :=
  ("__name__", item.name) :: item.labels

theorem map_allLabels_bucketItems (metricName : String) (resource own : List (String × String))
    (ms : ℤ) (total : ℕ) (counts : List ℕ) (bounds : List F64) :
    (bucketItems metricName (promoteServiceName resource ++ own) ms total counts bounds).map
        MetricItem.allLabels =
      (bucketBounds counts bounds).map fun le => LabelSource.labels
        ⟨some (normalizeName metricName ++ "_bucket"), resource, own, some (.le, le)⟩ := by
  induction counts generalizing total bounds with
  | nil => rfl
  | cons count counts ih =>
    cases bounds with
    | nil =>
      rw [bucketItems, bucketBounds, List.map_cons, List.map_cons, ih]
      rfl
    | cons bound bounds =>
      rw [bucketItems, bucketBounds, List.map_cons, List.map_cons, ih]
      rfl

omit [Float64 F64] in
theorem labels_unadded (name : String) (resource own : List (String × String)) :
    LabelSource.labels ⟨some name, resource, own, none⟩ =
      ("__name__", name) :: (promoteServiceName resource ++ own) := by
  simp [LabelSource.labels]

theorem map_allLabels_metricItems (resource : List (String × String)) (metric : Metric F64) :
    (metricItems (promoteServiceName resource) metric).map MetricItem.allLabels =
      (metricSources resource metric).map LabelSource.labels := by
  have hnumber : ∀ dataPoints : List (NumberDataPoint F64),
      (dataPoints.map (numberItem (promoteServiceName resource) metric.name)).map
          MetricItem.allLabels =
        (dataPoints.map fun dp => (⟨some (normalizeName metric.name), resource,
          extractKeyValues dp.attributes, none⟩ : LabelSource)).map LabelSource.labels := by
    intro dataPoints
    rw [List.map_map, List.map_map]
    exact List.map_congr_left fun dp _ => (labels_unadded _ _ _).symm
  rw [metricItems, metricSources]
  cases metric.data with
  | none => rfl
  | some data =>
    cases data with
    | gauge dataPoints => exact hnumber dataPoints
    | sum isMonotonic dataPoints => exact hnumber dataPoints
    | histogram dataPoints =>
      dsimp only
      rw [List.map_flatMap, List.map_flatMap]
      refine List.flatMap_congr fun dp _ => ?_
      rw [histogramItems, List.map_append, List.map_append]
      dsimp only [buildDpLabels]
      rw [map_allLabels_bucketItems, List.map_map]
      refine congr_arg₂ _ rfl ?_
      simp only [List.map_cons, labels_unadded]
      rfl
    | summary dataPoints =>
      dsimp only
      rw [List.map_flatMap, List.map_flatMap]
      refine List.flatMap_congr fun dp _ => ?_
      rw [summaryItems, List.map_append, List.map_append]
      dsimp only [buildDpLabels]
      rw [List.map_map, List.map_map]
      refine congr_arg₂ _ rfl ?_
      simp only [List.map_cons, labels_unadded]
      rfl
    | exponentialHistogram => rfl

theorem map_allLabels_requestItems (request : ExportMetricsServiceRequest F64) :
    (requestItems request).map MetricItem.allLabels =
      (otlpMetricSources request).map LabelSource.labels := by
  rw [requestItems, otlpMetricSources, List.map_flatMap, List.map_flatMap]
  refine List.flatMap_congr fun rm _ => ?_
  rw [List.map_flatMap, List.map_flatMap]
  exact List.flatMap_congr fun metric _ => map_allLabels_metricItems _ metric

omit [Float64 F64] in
theorem map_allLabels_remoteItems (request : WriteRequest F64) :
    (remoteItems request).map MetricItem.allLabels =
      (remoteSources request).map LabelSource.labels := by
  rw [remoteItems, remoteSources, List.map_filterMap, List.map_filterMap]
  refine List.filterMap_congr fun ts _ => ?_
  split
  · rfl
  · rw [Option.map_some, Option.map_some, labels_unadded]
    rfl

omit [Float64 F64] in
/-- Numbering the samples does not touch the labels. -/
theorem map_labels_numberItems (seqs : ℕ → ℕ) (n : ℕ) (items : List (MetricItem F64)) :
    (numberItems seqs n items).map (fun item => ("__name__", item.name) :: item.labels) =
      items.map MetricItem.allLabels := by
  induction items generalizing n with
  | nil => rfl
  | cons item items ih =>
    rw [numberItems, List.map_cons, List.map_cons, ih]
    rfl

omit [Float64 F64] in
theorem mem_labels_pushEntry {labels l : List (String × String)} {entry : PreparedLogEntry F64}
    {batches : List (LogBatch F64)} :
    l ∈ (pushEntry labels entry batches).map LogBatch.labels ↔
      l = labels ∨ l ∈ batches.map LogBatch.labels := by
  induction batches with
  | nil => simp [pushEntry]
  | cons batch batches ih =>
    rw [pushEntry]
    split
    · next heq =>
      rw [List.map_cons, List.map_cons, List.mem_cons, heq]
      exact or_self_left.symm
    · rw [List.map_cons, List.map_cons, List.mem_cons, List.mem_cons, ih, or_left_comm]

/-- The batches of a request have the labels of its records. -/
theorem mem_labels_logBatches [SerdeJson F64] (seqs clockNs : ℕ → ℕ)
    (request : ExportLogsServiceRequest F64) (l : List (String × String)) :
    l ∈ (logBatches seqs clockNs request).map LogBatch.labels ↔
      l ∈ (logSources request).map LabelSource.labels := by
  have hfold : ∀ (rs : List (List (String × String) × PreparedLogEntry F64))
      (batches : List (LogBatch F64)),
      l ∈ (rs.foldl (fun batches r => pushEntry r.1 r.2 batches) batches).map LogBatch.labels ↔
        l ∈ rs.map Prod.fst ∨ l ∈ batches.map LogBatch.labels := by
    intro rs
    induction rs with
    | nil => simp
    | cons r rs ih =>
      intro batches
      rw [List.foldl_cons, ih, mem_labels_pushEntry, List.map_cons, List.mem_cons, or_left_comm,
        or_assoc]
  have hfst : ((logRecords request).mapIdx fun n r =>
      (r.1, logEntry (seqs n) (clockNs n) r.2)).map Prod.fst = (logRecords request).map Prod.fst := by
    refine List.ext_getElem? fun i => ?_
    rw [List.getElem?_map, List.getElem?_mapIdx, List.getElem?_map]
    cases (logRecords request)[i]? <;> rfl
  rw [map_labels_logSources, logBatches, hfold, hfst]
  simp

end Sources

/-! ### What the stores gain -/

section Gained

variable {Rodeo Spur F64 : Type} [LinearOrder Spur] [Interner Rodeo Spur]

namespace LabelStore

variable {α : Type} [Timestamped α]

/-- Growing the interner gains no stream. -/
theorem labels_withInterner {s s' : LabelStore Rodeo Spur α}
    (h' : s'.Indexed) (hstreams : s'.streams = s.streams) (hext : Extends s.interner s'.interner) :
    s.Labels s' [] where
  indexed := h'
  grows := ⟨fun {id stream} hst => ⟨stream, hstreams ▸ hst, rfl⟩, hext⟩
  lands := by simp
  stored id hid := .inl (hstreams ▸ hid)

end LabelStore

/-- **A log ingest gains the label lists of its batches.** -/
theorem LogStore.labels_ingestBatches {s : LogStore Rodeo Spur F64} (h : s.Invariant)
    {batches : List (LogBatch F64)} (hroom : s.nextStreamId + s.idsFor batches ≤ u64Max) :
    s.toLabelStore.Labels (s.ingestBatches batches).toLabelStore (batches.map LogBatch.labels) := by
  induction batches generalizing s with
  | nil => exact LabelStore.Labels.refl h.toIndexed
  | cons batch batches ih =>
    rw [idsFor, Run.cost] at hroom
    have hintern := invariant_internBatch h batch
    have hop : (s.internBatch batch).nextStreamId +
        (s.internBatch batch).toLabelStore.created batch.labels ≤ u64Max :=
      Nat.le_trans (Nat.add_le_add_left (Nat.le_add_right _ _) _) hroom
    have hnext := (s.internBatch batch).toLabelStore.nextStreamId_ingest_le batch.labels
      (internEach internLogEntry s.interner batch.entries).1
    have hstep := hintern.labels_ingest hop (internEach internLogEntry s.interner batch.entries).1
    have hinv := hintern.ingest hop (internEach internLogEntry s.interner batch.entries).1
    rw [← toLabelStore_ingestStream] at hstep hinv hnext
    have hgrown := (LabelStore.labels_withInterner (s := s.toLabelStore) hintern.toIndexed rfl
      (extends_internEach extends_internLogEntry s.interner batch.entries)).trans hstep
    exact hgrown.trans (ih (s := s.ingestBatch batch) hinv (by
      have hle : (s.ingestBatch batch).nextStreamId ≤
        s.nextStreamId + (s.internBatch batch).toLabelStore.created batch.labels := hnext
      rw [idsFor]
      omega))

namespace MetricStore

/-- The third loop gains the label lists of the items. -/
theorem labels_ingestItems {s : MetricStore Rodeo Spur F64} (h : s.Sound)
    {items : List (PreparedItem F64)}
    (hroom : s.nextStreamId + s.idsCreated (items.map ingestOp) ≤ u64Max) :
    s.toLabelStore.Labels (s.ingestItems items).toLabelStore
      (items.map fun item => ("__name__", item.name) :: item.labels) := by
  induction items generalizing s with
  | nil => exact LabelStore.Labels.refl h.invariant.toIndexed
  | cons item items ih =>
    rw [List.map_cons, idsCreated, Run.cost] at hroom
    have hop : s.nextStreamId + s.created (ingestOp item) ≤ u64Max := by omega
    have hnext := nextStreamId_apply_le h.invariant (ingestOp item) hop
    have hstep := h.invariant.labels_ingest hop item.samples
    exact hstep.trans (ih (s := s.ingestSamples item.name item.labels item.samples)
      (sound_apply h (ingestOp item) hop) (by
        have hle : (s.ingestSamples item.name item.labels item.samples).nextStreamId ≤ _ := hnext
        rw [idsCreated]
        exact (Nat.add_le_add_right hle _).trans (by rwa [Nat.add_assoc])))

/-- **An accepted request gains the label lists of its items.** -/
theorem labels_handle [Float64 F64] {s : MetricStore Rodeo Spur F64} (h : s.Sound)
    {e : MetricsEvent F64} {batch : List (PreparedItem F64) × List PreparedMeta}
    (hb : e.batch? = some batch) (hids : s.HasIds e) (hacc : s.accepts e = true) :
    s.toLabelStore.Labels (s.handle e).toLabelStore
      (batch.1.map fun item => ("__name__", item.name) :: item.labels) := by
  have hreg := commits_registerItems h batch.1
  have hnext : (s.registerItems batch.1).1.nextStreamId = s.nextStreamId := by
    rw [(onlyRegisters_registerItems h.interned batch.1).toLabelStore]
  have hroom : (s.registerItems batch.1).1.nextStreamId +
      (s.registerItems batch.1).1.idsCreated (batch.1.map ingestOp) ≤ u64Max := by
    rw [hnext]
    exact hids batch hb
  have hingest := (commits_ingestItems hreg.sound hroom).1
  have hmetas := commits_registerMetas hingest.sound batch.2
  have hlabels := ((LabelStore.labels_withInterner hreg.sound.invariant.toIndexed
    (streams_registerItems s batch.1) hreg.grows.interner).trans
      (labels_ingestItems hreg.sound hroom)).trans
    (LabelStore.labels_withInterner hmetas.sound.invariant.toIndexed
      (streams_registerMetas _ batch.2) hmetas.grows.interner)
  rw [(handle_of_accepts hb hacc).1]
  simpa using hlabels

end MetricStore

end Gained

/-! ### Requests -/

/-- The stores with label sets, and the one without. -/
inductive Signal where
  | logs | metrics | traces

/-- The store a request goes to. -/
def IngestRequest.signal {F64 : Type} : IngestRequest F64 → Signal
  | .otlpLogs _ _ | .lokiPush _ => .logs
  | .otlpMetrics _ | .remoteWrite _ => .metrics
  | .otlpTraces _ => .traces

namespace Stores

variable {Rodeo Spur F64 : Type} [LinearOrder Spur] [Interner Rodeo Spur]

/-- An ingest of the labels would go to the stream or series `id`. -/
def Lands (s : Stores Rodeo Spur F64) (signal : Signal) (labels : List (String × String))
    (id : ℕ) : Prop :=
  match signal with
  | .logs => s.logStore.Lands labels id
  | .metrics => s.metricStore.Lands labels id
  | .traces => False

/-- The labels of a stream or series. -/
def streamLabels (s : Stores Rodeo Spur F64) (signal : Signal) (id : ℕ) :
    Option (List (String × String)) :=
  match signal with
  | .logs => s.logStore.getStreamLabels id
  | .metrics => s.metricStore.getStreamLabels id
  | .traces => none

/-- A request is not rejected. Only metrics can be. -/
def Accepts [Float64 F64] (s : Stores Rodeo Spur F64) (seqs : ℕ → ℕ) : IngestRequest F64 → Prop
  | .otlpMetrics request => s.metricStore.accepts (.otlp seqs request) = true
  | .remoteWrite request => s.metricStore.accepts (.remoteWrite seqs request) = true
  | _ => True

/-- Every source has a stream or series, and every new one is that of a source. -/
structure Gained (s s' : Stores Rodeo Spur F64) (signal : Signal) (sources : List LabelSource) :
    Prop where
  lands : ∀ a ∈ sources, ∃ id, s'.Lands signal a.labels id
  stored : ∀ id stored, s'.streamLabels signal id = some stored →
    s.streamLabels signal id = some stored ∨ ∃ a ∈ sources, s'.Lands signal a.labels id

/-- What a label store gains. -/
theorem gained_of_labels {α : Type} [Timestamped α] {s s' : LabelStore Rodeo Spur α}
    (h : s.Indexed) {sources : List LabelSource}
    (hl : s.Labels s' (sources.map LabelSource.labels)) :
    (∀ a ∈ sources, ∃ id, s'.Lands a.labels id) ∧
      ∀ id stored, s'.getStreamLabels id = some stored →
        s.getStreamLabels id = some stored ∨ ∃ a ∈ sources, s'.Lands a.labels id := by
  refine ⟨fun a ha => hl.lands _ (List.mem_map_of_mem ha), fun id stored hs => ?_⟩
  obtain ⟨stream, hst, -⟩ := Option.map_eq_some_iff.mp hs
  rcases hl.stored id (Finmap.mem_of_lookup_eq_some hst) with hold | ⟨labels, hmem, hid⟩
  · obtain ⟨old, hold⟩ := Finmap.mem_iff.mp hold
    have hlabels : s.getStreamLabels id = some (s.resolveLabels old.labels) := by
      rw [LabelStore.getStreamLabels, hold, Option.map_some]
    rw [h.getStreamLabels_of_grows hl.grows hlabels] at hs
    exact .inl (hlabels.trans hs)
  · obtain ⟨a, ha, rfl⟩ := List.mem_map.mp hmem
    exact .inr ⟨a, ha, hid⟩

/-- **An accepted request gains its sources.** -/
theorem gained_ingest [Float64 F64] [SerdeJson F64] {s : Stores Rodeo Spur F64} (h : s.Fits)
    {seqs : ℕ → ℕ} {r : IngestRequest F64} (hids : s.HasIds seqs r) (hacc : s.Accepts seqs r) :
    s.Gained (s.ingest seqs r) r.signal r.sources := by
  have hlogs : ∀ {batches : List (LogBatch F64)} {sources : List LabelSource},
      s.logStore.nextStreamId + s.logStore.idsFor batches ≤ u64Max →
      (∀ l, l ∈ batches.map LogBatch.labels ↔ l ∈ sources.map LabelSource.labels) →
      s.Gained { s with logStore := s.logStore.ingestBatches batches } .logs sources := by
    intro batches sources hroom hmem
    obtain ⟨hlands, hstored⟩ := gained_of_labels h.logs.toIndexed
      ((LogStore.labels_ingestBatches h.logs hroom).congr hmem)
    exact ⟨hlands, hstored⟩
  have hmetrics : ∀ {e : MetricsEvent F64} {items : List (MetricItem F64)}
      {metas : List PreparedMeta} {sources : List LabelSource},
      e.batch? = some (numberItems seqs 0 items, metas) → s.metricStore.HasIds e →
      s.metricStore.accepts e = true →
      items.map MetricItem.allLabels = sources.map LabelSource.labels →
      s.Gained { s with metricStore := s.metricStore.handle e } .metrics sources := by
    intro e items metas sources hb hids hacc hmap
    have hlabels := MetricStore.labels_handle h.metrics hb hids hacc
    rw [map_labels_numberItems, hmap] at hlabels
    obtain ⟨hlands, hstored⟩ := gained_of_labels h.metrics.invariant.toIndexed hlabels
    exact ⟨hlands, hstored⟩
  cases r with
  | otlpLogs clockNs request => exact hlogs hids (mem_labels_logBatches seqs clockNs request)
  | lokiPush request =>
    refine hlogs hids fun l => ?_
    rw [← map_labels_lokiSources]
    exact Iff.rfl
  | otlpMetrics request =>
    exact hmetrics (e := .otlp seqs request) rfl hids hacc (map_allLabels_requestItems request)
  | remoteWrite request =>
    exact hmetrics (e := .remoteWrite seqs request) rfl hids hacc (map_allLabels_remoteItems request)
  | otlpTraces request => exact ⟨by simp [IngestRequest.sources], fun id stored hs => .inl hs⟩

/-- A label list lands where it is stored. -/
theorem Fits.streamLabels_of_lands {s : Stores Rodeo Spur F64} (h : s.Fits) {signal : Signal}
    {labels : List (String × String)} {id : ℕ} (hl : s.Lands signal labels id) :
    ∃ stored, s.streamLabels signal id = some stored ∧ stored.Perm labels := by
  cases signal with
  | logs => exact h.logs.toIndexed.getStreamLabels_of_lands hl
  | metrics => exact h.metrics.invariant.toIndexed.getStreamLabels_of_lands hl
  | traces => exact hl.elim

theorem Fits.lands_iff_perm {s : Stores Rodeo Spur F64} (h : s.Fits) {signal : Signal}
    {labels labels' : List (String × String)} {id : ℕ} (hl : s.Lands signal labels id)
    (hn : (labels.map Prod.fst).Nodup) : s.Lands signal labels' id ↔ labels'.Perm labels := by
  cases signal with
  | logs => exact h.logs.toIndexed.lands_iff_perm hl hn
  | metrics => exact h.metrics.invariant.toIndexed.lands_iff_perm hl hn
  | traces => exact hl.elim

/-- **The label sets a request stores.** After an accepted request, every source of it has a stream
or series and no other was added. Its names are distinct exactly when no name of the source comes up
twice; and two such sources with the same sets of attributes have one stream or series exactly when
their `service.name`s are listed alike. -/
theorem distinct_labels_iff [Float64 F64] [SerdeJson F64] (events : List (Event F64))
    (hevents : Run.Along Server.step Server.HasIds (Server.start : Server Rodeo Spur F64) events)
    (seqs : ℕ → ℕ) (r : IngestRequest F64) :
    let s : Stores Rodeo Spur F64 :=
      (Run.exec Server.step (Server.start : Server Rodeo Spur F64) events).state.toStores
    let s' := s.ingest seqs r
    s.HasIds seqs r → s.Accepts seqs r →
      s.Gained s' r.signal r.sources ∧
      (∀ a ∈ r.sources, ∀ id, s'.Lands r.signal a.labels id →
        ∃ stored, s'.streamLabels r.signal id = some stored ∧
          ((stored.map Prod.fst).Nodup ↔ a.Distinct)) ∧
      ∀ signal (a b : LabelSource) id, a.SameSets b → a.Distinct → b.Distinct → s'.Lands signal a.labels id →
        (s'.Lands signal b.labels id ↔
          a.resource.filter isServiceName = b.resource.filter isServiceName) := by
  intro s s' hids hacc
  have hfits : s.Fits := Server.fits_exec hevents
  have hfits' : s'.Fits := hfits.ingest hids
  refine ⟨gained_ingest hfits hids hacc, fun a _ id hl => ?_, fun signal a b id hsets ha hb hl => ?_⟩
  · obtain ⟨stored, hstored, hperm⟩ := hfits'.streamLabels_of_lands hl
    refine ⟨stored, hstored, ?_⟩
    rw [(hperm.map Prod.fst).nodup_iff]
    exact a.nodup_labels_iff
  · rw [hfits'.lands_iff_perm hl (a.nodup_labels_iff.mpr ha)]
    exact LabelSource.perm_labels_iff hsets ha hb

/-! ### Two requests -/

/-- An export of one error record of a resource with two attributes. -/
def placedLogs (first second : String × String) : ExportLogsServiceRequest ℤ :=
  [⟨some ⟨[first, second].map fun a => ⟨a.1, some (.stringValue a.2)⟩⟩,
    [[⟨0, 17, "", none, [], [], []⟩]]⟩]

/-- The source of its labels. -/
def placedSource (first second : String × String) : LabelSource :=
  ⟨none, [first, second], [], some (.level, "error")⟩

/-- The run of one such request. -/
def placedRun : List (Event ℤ) :=
  [.arrive (.otlpLogs (fun _ => 0) (placedLogs ("host", "h") ("zone", "z"))), .stamp 0, .commit 0]

/-- Records whose resources list the same two attributes the other way round have three labels each,
and one stream. -/
theorem distinct_labels_iff_host :
    let first : IngestRequest ℤ := .otlpLogs (fun _ => 0) (placedLogs ("host", "h") ("zone", "z"))
    let second : IngestRequest ℤ := .otlpLogs (fun _ => 0) (placedLogs ("zone", "z") ("host", "h"))
    let s : Stores VecRodeo ℕ ℤ := (Run.exec Server.step Server.start placedRun).state.toStores
    let s' := s.ingest id second
    (∀ b ∈ second.sources, ∀ id, s'.Lands .logs b.labels id →
        ∃ stored, s'.streamLabels .logs id = some stored ∧
          ((stored.map Prod.fst).Nodup ↔ b.Distinct)) ∧
      ∀ a ∈ first.sources, ∀ b ∈ second.sources,
        s'.Lands .logs a.labels 0 ∧ s'.Lands .logs b.labels 0 := by
  intro first second s s'
  have hcommit : (new : Stores VecRodeo ℕ ℤ).logStore.nextStreamId +
      (new : Stores VecRodeo ℕ ℤ).logStore.idsFor (logBatches (fun n => ([0] : List ℕ).getD n 0)
        (fun _ => 0) (placedLogs ("host", "h") ("zone", "z"))) ≤ u64Max := by
    decide +kernel
  have halong : Run.Along Server.step Server.HasIds (Server.start : Server VecRodeo ℕ ℤ)
      placedRun := by
    refine ⟨trivial, trivial, fun r hr => ?_, trivial⟩
    obtain rfl := Option.some.inj hr
    exact hcommit
  have hids : (Run.exec Server.step (Server.start : Server VecRodeo ℕ ℤ)
        placedRun).state.logStore.nextStreamId +
      (Run.exec Server.step (Server.start : Server VecRodeo ℕ ℤ) placedRun).state.logStore.idsFor
        (logBatches id (fun _ => 0) (placedLogs ("zone", "z") ("host", "h"))) ≤ u64Max := by
    decide +kernel
  obtain ⟨-, hstored, hlands⟩ := distinct_labels_iff placedRun halong id second hids trivial
  refine ⟨hstored, fun a ha b hb => ?_⟩
  obtain rfl : a = placedSource ("host", "h") ("zone", "z") := List.mem_singleton.mp ha
  obtain rfl : b = placedSource ("zone", "z") ("host", "h") := List.mem_singleton.mp hb
  have hland : ((Run.exec Server.step (Server.start : Server VecRodeo ℕ ℤ)
      placedRun).state.toStores.ingest id (.otlpLogs (fun _ => 0)
        (placedLogs ("zone", "z") ("host", "h")))).logStore.Lands
          (placedSource ("host", "h") ("zone", "z")).labels 0 := by
    unfold LabelStore.Lands
    decide +kernel
  have hsame : (placedSource ("host", "h") ("zone", "z")).SameSets
      (placedSource ("zone", "z") ("host", "h")) :=
    ⟨rfl, fun l => by simp [placedSource, or_comm], fun _ => Iff.rfl, rfl⟩
  have hdistinct : (placedSource ("host", "h") ("zone", "z")).Distinct :=
    (LabelSource.nodup_labels_iff _).mp (by decide)
  have hdistinct' : (placedSource ("zone", "z") ("host", "h")).Distinct :=
    (LabelSource.nodup_labels_iff _).mp (by decide)
  exact ⟨hland, (hlands .logs _ _ 0 hsame hdistinct hdistinct' hland).mpr rfl⟩

/-! ### An attribute called `level` -/

/-- One error record of a resource with one attribute. -/
def errorRecord (key : String) : IngestRequest ℤ :=
  .otlpLogs (fun _ => 0) [⟨some ⟨[⟨key, some (.stringValue "info")⟩]⟩,
    [[⟨0, 17, "", none, [], [], []⟩]]⟩]

/-- **An attribute called `level`** is stored beside the level of the record. -/
theorem repeated_level :
    let s : Stores VecRodeo ℕ ℤ := new.ingest id (errorRecord "level")
    ∃ stored, s.streamLabels .logs 0 = some stored ∧ ¬ (stored.map Prod.fst).Nodup :=
  ⟨[("level", "info"), ("level", "error")], rfl, by decide⟩

end Stores

end Aniani
