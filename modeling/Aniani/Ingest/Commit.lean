import Aniani.Ingest.Names

/-!
# What requests add and evictions take

A request for which there are ids left only adds: every series that was there stays, with its
labels, and if the request is accepted there is a series for every item. An eviction is a filter:
it takes some series and leaves the others as they are, as far as their labels go.

## Main definitions

* `MetricStore.Sound` — the invariant of the label store, and the tables interned
* `MetricStore.HasName` — a series is stored under a name
* `MetricStore.Commits` — a store that only gains series
* `MetricsEvent.batch?`, `MetricStore.accepts`, `MetricStore.HasIds` — of requests
* `MetricStore.Survives` — the series an eviction leaves

## Main results

* `MetricStore.commits_handle` — a request only adds
* `MetricStore.handle_of_accepts` — an accepted one is its three loops
* `MetricStore.seriesLabels_handle` — an eviction is a filter
-/

namespace Aniani

open Interner

namespace MetricStore

variable {Rodeo Spur F64 : Type} [LinearOrder Spur] [Interner Rodeo Spur]

/-- The store fits together. -/
structure Sound (s : MetricStore Rodeo Spur F64) : Prop where
  invariant : s.Invariant
  interned : s.NamesInterned

theorem sound_new : (new : MetricStore Rodeo Spur F64).Sound :=
  ⟨LabelStore.invariant_new, namesInterned_new⟩

theorem sound_apply {s : MetricStore Rodeo Spur F64} (h : s.Sound) (op : MetricOp F64)
    (hroom : s.nextStreamId + s.created op ≤ u64Max) : (s.apply op).Sound :=
  ⟨invariant_apply h.invariant op hroom, namesInterned_apply h.interned op⟩

/-- A series is stored under the name. -/
def HasName (s : MetricStore Rodeo Spur F64) (name : String) (id : ℕ) : Prop :=
  ∃ labels, s.getStreamLabels id = some labels ∧ ("__name__", name) ∈ labels

/-! ### The names of the series -/

/-- The labels of a series. -/
def seriesLabels (s : MetricStore Rodeo Spur F64) (id : ℕ) : Option (LabelPairs Spur) :=
  (s.streams.lookup id).map Stream.labels

omit [LinearOrder Spur] [Interner Rodeo Spur] in
theorem mem_streams_iff {s : MetricStore Rodeo Spur F64} {id : ℕ} :
    id ∈ s.streams ↔ ∃ labels, s.seriesLabels id = some labels := by
  simp [Finmap.mem_iff, seriesLabels]

omit [LinearOrder Spur] in
theorem getStreamLabels_eq_map (s : MetricStore Rodeo Spur F64) (id : ℕ) :
    s.getStreamLabels id = (s.seriesLabels id).map s.resolveLabels := by
  rw [seriesLabels, LabelStore.getStreamLabels, Option.map_map]
  rfl

/-- A name found by the code is a label of the series. -/
theorem mem_of_nameOf {nameKey k : Spur} {labels : LabelPairs Spur}
    (h : nameOf nameKey labels = some k) : (nameKey, k) ∈ labels := by
  obtain ⟨pair, hfind, rfl⟩ := Option.map_eq_some_iff.mp h
  have hkey : pair.1 = nameKey := by simpa using List.find?_some hfind
  rw [← hkey]
  exact List.mem_of_find?_eq_some hfind

theorem hasName_of_nameOf {s : MetricStore Rodeo Spur F64} (h : s.Sound) {nameKey k : Spur}
    (hkey : get s.interner "__name__" = some nameKey) {id : ℕ} {series : Stream Spur (Sample F64)}
    (hst : s.streams.lookup id = some series) (hname : nameOf nameKey series.labels = some k) :
    s.HasName (resolve s.interner k) id := by
  have hmem := mem_of_nameOf hname
  refine ⟨_, Option.map_eq_some_iff.mpr ⟨series, hst, rfl⟩, ?_⟩
  exact (h.invariant.mem_resolveLabels hst).mpr
    ⟨_, hmem, hkey, (h.invariant.interned hst _ hmem).2.get_resolve⟩

/-- A series with a name makes the label `__name__` known. -/
theorem HasName.get_nameKey {s : MetricStore Rodeo Spur F64} (h : s.Sound) {name : String}
    {id : ℕ} (hname : s.HasName name id) : ∃ nameKey, get s.interner "__name__" = some nameKey := by
  obtain ⟨labels, hl, hmem⟩ := hname
  obtain ⟨series, hst, rfl⟩ := Option.map_eq_some_iff.mp hl
  obtain ⟨pair, -, hkey, -⟩ := (h.invariant.mem_resolveLabels hst).mp hmem
  exact ⟨pair.1, hkey⟩

/-! ### A store that only gains series -/

/-- `s'` is sound, has every series of `s`, and its new series have new ids. -/
structure Commits (s s' : MetricStore Rodeo Spur F64) : Prop where
  sound : s'.Sound
  grows : s.toLabelStore.Grows s'.toLabelStore
  fresh : ∀ {i}, i ∈ s'.streams → i ∈ s.streams ∨ s.nextStreamId ≤ i
  next : s.nextStreamId ≤ s'.nextStreamId

theorem Commits.refl {s : MetricStore Rodeo Spur F64} (h : s.Sound) : s.Commits s :=
  ⟨h, LabelStore.Grows.refl _, Or.inl, le_rfl⟩

theorem Commits.trans {s₁ s₂ s₃ : MetricStore Rodeo Spur F64} (h₁ : s₁.Commits s₂)
    (h₂ : s₂.Commits s₃) : s₁.Commits s₃ where
  sound := h₂.sound
  grows := h₁.grows.trans h₂.grows
  fresh hi := by
    rcases h₂.fresh hi with hi | hi
    · exact h₁.fresh hi
    · exact .inr (h₁.next.trans hi)
  next := h₁.next.trans h₂.next

theorem HasName.commits {s s' : MetricStore Rodeo Spur F64} {name : String} {id : ℕ}
    (h : s.HasName name id) (hs : s.Sound) (hc : s.Commits s') : s'.HasName name id := by
  obtain ⟨labels, hl, hmem⟩ := h
  exact ⟨labels, hs.invariant.getStreamLabels_of_grows hc.grows hl, hmem⟩

/-- Growing the interner and writing to the tables gains no series. -/
theorem commits_of_toLabelStore {s s' : MetricStore Rodeo Spur F64} (h : s.Sound)
    (hstore : s'.toLabelStore = { s.toLabelStore with interner := s'.interner })
    (hext : Extends s.interner s'.interner) (hinterned : s'.NamesInterned) : s.Commits s' where
  sound := by
    refine ⟨?_, hinterned⟩
    have hi := h.invariant
    rw [hstore]
    exact ⟨⟨hi.labelIndex, hi.labelValues, hi.streamIds, hi.next, hi.sorted, fun hst pair hp =>
      ⟨(hi.interned hst pair hp).1.mono hext, (hi.interned hst pair hp).2.mono hext⟩⟩, hi.total⟩
  grows := by
    refine ⟨fun {id stream} hst => ⟨stream, ?_, rfl⟩, hext⟩
    rw [hstore]
    exact hst
  fresh hi := by
    rw [hstore] at hi
    exact .inl hi
  next := by rw [hstore]

theorem commits_registerItems {s : MetricStore Rodeo Spur F64} (h : s.Sound)
    (items : List (PreparedItem F64)) : s.Commits (s.registerItems items).1 :=
  have hreg := onlyRegisters_registerItems h.interned items
  commits_of_toLabelStore h hreg.toLabelStore hreg.interner hreg.interned

theorem commits_ingestSamples {s : MetricStore Rodeo Spur F64} (h : s.Sound) {name : String}
    {labels : List (String × String)} {samples : List (Sample F64)}
    (hroom : s.nextStreamId + s.created (.ingestSamples name labels samples) ≤ u64Max) :
    s.Commits (s.ingestSamples name labels samples) where
  sound := sound_apply h (.ingestSamples name labels samples) hroom
  grows := h.invariant.grows_ingest _ _
  fresh hi := (h.invariant.mem_streams_ingest hi).imp_right Eq.ge
  next := LabelStore.le_nextStreamId_ingest (by omega) _ _

theorem commits_registerMetas {s : MetricStore Rodeo Spur F64} (h : s.Sound)
    (metas : List PreparedMeta) : s.Commits (s.registerMetas metas) := by
  induction metas generalizing s with
  | nil => exact Commits.refl h
  | cons m metas ih =>
    have hstep : s.Commits (s.registerMetricMetadata m.name (some m.metricType) m.help m.unit) :=
      commits_of_toLabelStore h rfl (extends_getOrIntern _ _)
        (namesInterned_registerMetricMetadata h.interned _ _ _ _)
    exact hstep.trans (ih hstep.sound)

/-! ### The samples of a request -/

/-- Ingesting an item, as an operation of the store. -/
def ingestOp (item : PreparedItem F64) : MetricOp F64 :=
  .ingestSamples item.name item.labels item.samples

/-- **There is a series for every item**, and nothing is lost. -/
theorem commits_ingestItems {s : MetricStore Rodeo Spur F64} (h : s.Sound)
    {items : List (PreparedItem F64)}
    (hroom : s.nextStreamId + s.idsCreated (items.map ingestOp) ≤ u64Max) :
    s.Commits (s.ingestItems items) ∧
      ∀ item ∈ items, ∃ id, (s.ingestItems items).HasName item.name id := by
  induction items generalizing s with
  | nil => exact ⟨Commits.refl h, by simp⟩
  | cons item items ih =>
    rw [List.map_cons, idsCreated, Run.cost] at hroom
    have hstep := nextStreamId_apply_le h.invariant (ingestOp item) (by omega)
    have hc : s.Commits (s.ingestSamples item.name item.labels item.samples) :=
      commits_ingestSamples h (Nat.le_trans (Nat.add_le_add_left (Nat.le_add_right _ _) _) hroom)
    obtain ⟨hrest, hnames⟩ := ih hc.sound (show (s.apply (ingestOp item)).nextStreamId +
      (s.apply (ingestOp item)).idsCreated (items.map ingestOp) ≤ u64Max by
        rw [idsCreated]
        omega)
    refine ⟨hc.trans hrest, List.forall_mem_cons.mpr ⟨?_, hnames⟩⟩
    obtain ⟨id, stored, hl, hperm⟩ :=
      h.invariant.getStreamLabels_ingest (("__name__", item.name) :: item.labels) item.samples
    have hname : (s.ingestSamples item.name item.labels item.samples).HasName item.name id :=
      ⟨stored, hl, hperm.mem_iff.mpr (.head _)⟩
    exact ⟨id, hname.commits hc.sound hrest⟩

/-- Ingesting samples does not touch the tables. -/
theorem ingestItems_tables (s : MetricStore Rodeo Spur F64) (items : List (PreparedItem F64)) :
    (s.ingestItems items).normalizedNameSources = s.normalizedNameSources ∧
      (s.ingestItems items).metricMetadata = s.metricMetadata := by
  induction items generalizing s with
  | nil => exact ⟨rfl, rfl⟩
  | cons item items ih =>
    obtain ⟨hsources, hmeta⟩ := ih (s.ingestSamples item.name item.labels item.samples)
    exact ⟨hsources, hmeta⟩

theorem registerMetas_normalizedNameSources (s : MetricStore Rodeo Spur F64)
    (metas : List PreparedMeta) :
    (s.registerMetas metas).normalizedNameSources = s.normalizedNameSources := by
  induction metas generalizing s with
  | nil => rfl
  | cons m metas ih => exact ih (s.registerMetricMetadata m.name (some m.metricType) m.help m.unit)

end MetricStore

/-! ### Requests -/

/-- The items and the metadata of a request, nothing for an eviction. -/
def MetricsEvent.batch? {F64 : Type} [Float64 F64] :
    MetricsEvent F64 → Option (List (PreparedItem F64) × List PreparedMeta)
  | .otlp seqs request => some (numberItems seqs 0 (requestItems request), requestMeta request)
  | .remoteWrite seqs request =>
    some (numberItems seqs 0 (remoteItems request), remoteMeta request)
  | .evictBefore _ _ | .evictToMax _ _ | .clear | .clearService _ _ => none

namespace MetricStore

variable {Rodeo Spur F64 : Type} [LinearOrder Spur] [Interner Rodeo Spur] [Float64 F64]

/-- A request is accepted. -/
def accepts (s : MetricStore Rodeo Spur F64) : MetricsEvent F64 → Bool
  | .otlp seqs request => (s.ingestMetrics seqs request).2.isOk
  | .remoteWrite seqs request => (s.remoteWrite seqs request).2.isOk
  | .evictBefore _ _ | .evictToMax _ _ | .clear | .clearService _ _ => true

/-- There are ids left for the series a request creates. -/
def HasIds (s : MetricStore Rodeo Spur F64) (e : MetricsEvent F64) : Prop :=
  ∀ batch ∈ e.batch?, s.nextStreamId +
    (s.registerItems batch.1).1.idsCreated (batch.1.map ingestOp) ≤ u64Max

theorem handle_of_batch (s : MetricStore Rodeo Spur F64) {e : MetricsEvent F64}
    {batch : List (PreparedItem F64) × List PreparedMeta} (hb : e.batch? = some batch) :
    s.handle e = (s.commitItems batch.1 batch.2).1 ∧
      s.accepts e = (s.commitItems batch.1 batch.2).2.isOk := by
  cases e with
  | otlp seqs request =>
    obtain rfl := Option.some.inj hb
    refine ⟨rfl, ?_⟩
    rw [accepts, ingestMetrics]
    dsimp only
    cases (s.commitItems (numberItems seqs 0 (requestItems request)) (requestMeta request)).2 <;>
      rfl
  | remoteWrite seqs request =>
    obtain rfl := Option.some.inj hb
    exact ⟨rfl, rfl⟩
  | evictBefore it cutoffMs => simp [MetricsEvent.batch?] at hb
  | evictToMax it maxSeries => simp [MetricsEvent.batch?] at hb
  | clear => simp [MetricsEvent.batch?] at hb
  | clearService it service => simp [MetricsEvent.batch?] at hb

/-- **An accepted request** registers its names, ingests its samples and records its metadata. -/
theorem handle_of_accepts {s : MetricStore Rodeo Spur F64} {e : MetricsEvent F64}
    {batch : List (PreparedItem F64) × List PreparedMeta} (hb : e.batch? = some batch)
    (hacc : s.accepts e = true) :
    s.handle e = ((s.registerItems batch.1).1.ingestItems batch.1).registerMetas batch.2 ∧
      (s.registerItems batch.1).2 = .ok () := by
  obtain ⟨hhandle, haccepts⟩ := s.handle_of_batch hb
  rw [hhandle]
  rw [haccepts] at hacc
  rw [commitItems] at hacc ⊢
  cases hcheck : s.checkItems batch.1 with
  | error e =>
    rw [hcheck] at hacc
    simp [Except.isOk, Except.toBool] at hacc
  | ok _ =>
    rw [hcheck] at hacc
    dsimp only at hacc ⊢
    split at hacc
    · simp [Except.isOk, Except.toBool] at hacc
    · next s' heq =>
      rw [heq]
      exact ⟨rfl, rfl⟩

/-- A rejected request registers names at most. -/
theorem handle_of_not_accepts {s : MetricStore Rodeo Spur F64} {e : MetricsEvent F64}
    {batch : List (PreparedItem F64) × List PreparedMeta} (hb : e.batch? = some batch)
    (hacc : s.accepts e = false) :
    s.handle e = s ∨ s.handle e = (s.registerItems batch.1).1 := by
  obtain ⟨hhandle, haccepts⟩ := s.handle_of_batch hb
  rw [hhandle]
  rw [haccepts] at hacc
  rw [commitItems] at hacc ⊢
  cases hcheck : s.checkItems batch.1 with
  | error e => exact .inl rfl
  | ok _ =>
    rw [hcheck] at hacc
    dsimp only at hacc ⊢
    split at hacc
    · next s' e heq =>
      rw [heq]
      exact .inr rfl
    · simp [Except.isOk, Except.toBool] at hacc

/-- **A request only adds**, accepted or not. -/
theorem commits_handle {s : MetricStore Rodeo Spur F64} (h : s.Sound) {e : MetricsEvent F64}
    {batch : List (PreparedItem F64) × List PreparedMeta} (hb : e.batch? = some batch)
    (hids : s.HasIds e) : s.Commits (s.handle e) := by
  have hreg := commits_registerItems h batch.1
  cases hacc : s.accepts e with
  | false =>
    obtain heq | heq := handle_of_not_accepts hb hacc
    · rw [heq]
      exact Commits.refl h
    · rwa [heq]
  | true =>
    obtain ⟨heq, -⟩ := handle_of_accepts hb hacc
    have hnext : (s.registerItems batch.1).1.nextStreamId = s.nextStreamId := by
      rw [(onlyRegisters_registerItems h.interned batch.1).toLabelStore]
    have hingest := (commits_ingestItems hreg.sound (by rw [hnext]; exact hids batch hb)).1
    rw [heq]
    exact (hreg.trans hingest).trans (commits_registerMetas hingest.sound batch.2)

/-! ### Evictions -/

/-- An eviction leaves the series. -/
def Survives (s : MetricStore Rodeo Spur F64) : MetricsEvent F64 → ℕ → Prop
  | .evictBefore _ cutoffMs, id => ∃ series, s.streams.lookup id = some series ∧
    ∃ sample ∈ series.entries, cutoffMs ≤ sample.timestampMs
  | .evictToMax it maxSeries, id => id ∈ s.streams ∧ id ∉ s.evicted it maxSeries
  | .clear, _ => False
  | .clearService _ service, id => ∃ series, s.streams.lookup id = some series ∧
    ("service", service) ∉ s.resolveLabels series.labels
  | .otlp _ _, id | .remoteWrite _ _, id => id ∈ s.streams

theorem sound_handle_of_evicts {s : MetricStore Rodeo Spur F64} (h : s.Sound)
    {e : MetricsEvent F64} (he : e.batch? = none) : (s.handle e).Sound := by
  cases e with
  | otlp seqs request => simp [MetricsEvent.batch?] at he
  | remoteWrite seqs request => simp [MetricsEvent.batch?] at he
  | evictBefore it cutoffMs =>
    refine ⟨?_, namesInterned_apply h.interned (.evictBefore it cutoffMs)⟩
    rw [handle, toLabelStore_evictBefore]
    exact h.invariant.evictBefore it cutoffMs
  | evictToMax it maxSeries =>
    refine ⟨?_, namesInterned_apply h.interned (.evictToMax it maxSeries)⟩
    rw [handle, toLabelStore_evictToMax]
    exact h.invariant.foldl_dropStream _
  | clear => exact sound_new
  | clearService it service =>
    refine ⟨?_, namesInterned_apply h.interned (.clearService it service)⟩
    rw [handle, toLabelStore_clearService]
    exact h.invariant.clearService service

/-- Requests and evictions keep the store sound. -/
theorem sound_handle {s : MetricStore Rodeo Spur F64} (h : s.Sound) {e : MetricsEvent F64}
    (hids : s.HasIds e) : (s.handle e).Sound := by
  cases hb : e.batch? with
  | none => exact sound_handle_of_evicts h hb
  | some batch => exact (commits_handle h hb hids).sound

/-- An eviction other than `clear` leaves the interner and the next id. -/
theorem frame_handle_of_evicts (s : MetricStore Rodeo Spur F64) {e : MetricsEvent F64}
    (he : e.batch? = none) (hclear : e ≠ .clear) :
    (s.handle e).interner = s.interner ∧ (s.handle e).nextStreamId = s.nextStreamId := by
  cases e with
  | otlp seqs request => simp [MetricsEvent.batch?] at he
  | remoteWrite seqs request => simp [MetricsEvent.batch?] at he
  | evictBefore it cutoffMs =>
    rw [handle, toLabelStore_evictBefore]
    exact s.toLabelStore.evictBefore_frame it cutoffMs
  | evictToMax it maxSeries =>
    rw [handle, toLabelStore_evictToMax]
    exact ⟨s.toLabelStore.foldl_dropStream_interner _, s.toLabelStore.foldl_dropStream_nextStreamId _⟩
  | clear => exact absurd rfl hclear
  | clearService it service =>
    rw [handle, toLabelStore_clearService]
    exact ⟨s.toLabelStore.clearService_interner service,
      s.toLabelStore.clearService_nextStreamId service⟩

/-- **An eviction is a filter**: the series it leaves have the labels they had. -/
theorem seriesLabels_handle {s : MetricStore Rodeo Spur F64} (h : s.Sound) {e : MetricsEvent F64}
    (he : e.batch? = none) (id : ℕ) (labels : LabelPairs Spur) :
    (s.handle e).seriesLabels id = some labels ↔
      s.seriesLabels id = some labels ∧ s.Survives e id := by
  rw [seriesLabels, seriesLabels]
  cases e with
  | otlp seqs request => simp [MetricsEvent.batch?] at he
  | remoteWrite seqs request => simp [MetricsEvent.batch?] at he
  | evictBefore it cutoffMs =>
    rw [handle, toLabelStore_evictBefore, Survives, LabelStore.lookup_evictBefore]
    cases hst : s.streams.lookup id with
    | none => simp
    | some series =>
      have hkept : LabelStore.kept cutoffMs series.entries = [] ↔
          ¬ ∃ sample ∈ series.entries, cutoffMs ≤ sample.timestampMs := by
        rw [LabelStore.kept_eq_filter (h.invariant.sorted hst), List.filter_eq_nil_iff]
        simp [timestamp]
      simp only [Option.bind_some, hkept]
      split
      · next hno => simp [hno]
      · next hex => simpa using fun _ => not_not.mp hex
  | evictToMax it maxSeries =>
    rw [handle, toLabelStore_evictToMax, Survives, LabelStore.lookup_foldl_dropStream]
    split
    · next hmem => simp [hmem]
    · next hmem =>
      refine ⟨fun hl => ⟨hl, ?_, hmem⟩, fun hl => hl.1⟩
      obtain ⟨series, hst, -⟩ := Option.map_eq_some_iff.mp hl
      exact Finmap.mem_of_lookup_eq_some hst
  | clear => simp [handle, clear, new, LabelStore.new, Survives]
  | clearService it service =>
    rw [handle, toLabelStore_clearService, Survives, h.invariant.lookup_clearService]
    cases hst : s.streams.lookup id with
    | none => simp
    | some series =>
      by_cases hmem : ("service", service) ∈ s.resolveLabels series.labels
      · simp [hmem, Option.filter]
      · simp [hmem, Option.filter]

theorem mem_streams_handle_iff {s : MetricStore Rodeo Spur F64} (h : s.Sound)
    {e : MetricsEvent F64} (he : e.batch? = none) (id : ℕ) :
    id ∈ (s.handle e).streams ↔ id ∈ s.streams ∧ s.Survives e id := by
  simp only [mem_streams_iff, seriesLabels_handle h he, exists_and_right]

theorem getStreamLabels_handle {s : MetricStore Rodeo Spur F64} (h : s.Sound)
    {e : MetricsEvent F64} (he : e.batch? = none) (id : ℕ) (labels : List (String × String)) :
    (s.handle e).getStreamLabels id = some labels ↔
      s.getStreamLabels id = some labels ∧ s.Survives e id := by
  by_cases hclear : e = .clear
  · subst hclear
    simp [handle, clear, new, LabelStore.new, LabelStore.getStreamLabels, Survives]
  · have hres := LabelStore.resolveLabels_congr (s.frame_handle_of_evicts he hclear).1
    simp only [getStreamLabels_eq_map, Option.map_eq_some_iff, seriesLabels_handle h he, hres]
    constructor
    · rintro ⟨l, ⟨hl, hsurvives⟩, heq⟩
      exact ⟨⟨l, hl, heq⟩, hsurvives⟩
    · rintro ⟨⟨l, hl, heq⟩, hsurvives⟩
      exact ⟨l, ⟨hl, hsurvives⟩, heq⟩

theorem hasName_handle_iff {s : MetricStore Rodeo Spur F64} (h : s.Sound) {e : MetricsEvent F64}
    (he : e.batch? = none) (name : String) (id : ℕ) :
    (s.handle e).HasName name id ↔ s.HasName name id ∧ s.Survives e id := by
  simp only [HasName, getStreamLabels_handle h he]
  constructor
  · rintro ⟨labels, ⟨hl, hsurvives⟩, hmem⟩
    exact ⟨⟨labels, hl, hmem⟩, hsurvives⟩
  · rintro ⟨⟨labels, hl, hmem⟩, hsurvives⟩
    exact ⟨labels, ⟨hl, hsurvives⟩, hmem⟩

end MetricStore

end Aniani
