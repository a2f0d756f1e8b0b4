import Aniani.ForMathlib.Run
import Aniani.Ingest.Commit

/-!
# How long metadata last

The metadata of a metric are filed under its own name, its data under that name or under names made
from it: the series of a histogram are named `_bucket`, `_sum` and `_count`, and none has the name
of the histogram. An eviction keeps the metadata of a name if a series of just that name is left. So
the first eviction takes the metadata of every histogram, however many of its series it leaves.

A run is taken together with what has been recorded for one name so far, `MetricStore.track`, so
that what the store returns can be compared with it.

## Main definitions

* `recorded`, `MetricStore.track` — what has been recorded for a name
* `MetricStore.seriesName` — the name of a series, as the eviction reads it
* `MetricStore.seriesOf` — the series an item is stored in
* `MetricStore.KeepsMetadata` — an eviction leaves a series of the name itself

## Main results

* `metadata_returned_iff` — along every run of requests and evictions, for every metric of a request
* `evictBefore_drops_metadata` — a histogram
-/

namespace Aniani

open Interner

/-- The metadata of a name after a list of metadata. -/
def recorded (name : String) (md : Option MetricMetadata) (metas : List PreparedMeta) :
    Option MetricMetadata :=
  metas.foldl (fun md m => if m.name = name then
    some ((md.getD MetricMetadata.empty).update (some m.metricType) m.help m.unit) else md) md

/-- Once there is something, there is something. -/
theorem isSome_recorded {name : String} {md : Option MetricMetadata} {metas : List PreparedMeta}
    (h : md.isSome ∨ ∃ m ∈ metas, m.name = name) : (recorded name md metas).isSome := by
  induction metas generalizing md with
  | nil => simpa [recorded] using h
  | cons m metas ih =>
    rw [recorded, List.foldl_cons]
    by_cases hm : m.name = name
    · rw [if_pos hm]
      exact ih (.inl rfl)
    · rw [if_neg hm]
      refine ih (h.imp_right ?_)
      rintro ⟨m', hm', hname⟩
      rcases List.mem_cons.mp hm' with rfl | hm'
      · exact absurd hname hm
      · exact ⟨m', hm', hname⟩

namespace MetricStore

variable {Rodeo Spur F64 : Type} [LinearOrder Spur] [Interner Rodeo Spur]

/-! ### Reading the metadata -/

/-- Growing the interner does not change what is returned. -/
theorem NamesInterned.getMetricMetadata_congr {s t : MetricStore Rodeo Spur F64}
    (h : s.NamesInterned) (hext : Extends s.interner t.interner)
    (hmeta : t.metricMetadata = s.metricMetadata) :
    t.getMetricMetadata = s.getMetricMetadata := by
  funext name
  refine Option.ext fun md => ?_
  rw [getMetricMetadata, getMetricMetadata, hmeta, Option.bind_eq_some_iff, Option.bind_eq_some_iff]
  constructor
  · rintro ⟨k, hk, hmd⟩
    have hvalid := h.metadata hmd
    have hname : name = resolve s.interner k := eq_of_get_eq hk (hext _ _ hvalid.get_resolve)
    exact ⟨k, hname ▸ hvalid.get_resolve, hmd⟩
  · rintro ⟨k, hk, hmd⟩
    exact ⟨k, hext _ _ hk, hmd⟩

theorem getMetricMetadata_registerMetricMetadata {s : MetricStore Rodeo Spur F64}
    (h : s.NamesInterned) (m : PreparedMeta) (name : String) :
    (s.registerMetricMetadata m.name (some m.metricType) m.help m.unit).getMetricMetadata name =
      recorded name (s.getMetricMetadata name) [m] := by
  have hkey := get_getOrIntern_self s.interner m.name
  -- what is found under the key of `m.name` is what was recorded for it
  have hold : s.metricMetadata.lookup (getOrIntern s.interner m.name).1 =
      s.getMetricMetadata m.name := by
    rw [← h.getMetricMetadata_congr (extends_getOrIntern s.interner m.name)
      (t := { s with toLabelStore := s.toLabelStore.intern m.name }) rfl, getMetricMetadata]
    show _ = (get (getOrIntern s.interner m.name).2 m.name).bind _
    rw [hkey]
    rfl
  show (get (getOrIntern s.interner m.name).2 name).bind (fun k => (s.metricMetadata.insert _
    _).lookup k) = if m.name = name then _ else _
  by_cases hname : m.name = name
  · subst hname
    rw [hkey, Option.bind_some, Finmap.lookup_insert, hold, if_pos rfl]
  · rw [if_neg hname, get_getOrIntern, if_neg (Ne.symm hname), getMetricMetadata]
    refine Option.bind_congr fun k hk => ?_
    rw [Finmap.lookup_insert_eq_ite, if_neg]
    rintro rfl
    exact hname (eq_of_get_eq hkey (extends_getOrIntern _ _ _ _ hk))

theorem getMetricMetadata_registerMetas {s : MetricStore Rodeo Spur F64} (h : s.NamesInterned)
    (metas : List PreparedMeta) (name : String) :
    (s.registerMetas metas).getMetricMetadata name =
      recorded name (s.getMetricMetadata name) metas := by
  induction metas generalizing s with
  | nil => rfl
  | cons m metas ih =>
    have hstep := namesInterned_registerMetricMetadata h m.name (some m.metricType) m.help m.unit
    refine (ih hstep).trans ?_
    rw [getMetricMetadata_registerMetricMetadata h]
    rfl

/-! ### Pruning -/

/-- The name of a series, as the eviction reads it: its first label `__name__`. -/
def seriesName (s : MetricStore Rodeo Spur F64) (id : ℕ) : Option String := do
  let nameKey ← get s.interner "__name__"
  let labels ← s.seriesLabels id
  let name ← nameOf nameKey labels
  return resolve s.interner name

theorem seriesName_eq_some_iff {s : MetricStore Rodeo Spur F64} {id : ℕ} {name : String} :
    s.seriesName id = some name ↔ ∃ nameKey, get s.interner "__name__" = some nameKey ∧
      ∃ labels, s.seriesLabels id = some labels ∧
        ∃ k, nameOf nameKey labels = some k ∧ resolve s.interner k = name := by
  simp [seriesName, Option.bind_eq_some_iff]

/-- **Pruning** keeps the metadata of a name exactly when there is a series of this name. -/
theorem getMetricMetadata_pruneOrphanedMetadata {s : MetricStore Rodeo Spur F64} (h : s.Sound)
    (it : IterOrder ℕ) {nameKey : Spur} (hkey : get s.interner "__name__" = some nameKey)
    (name : String) (md : MetricMetadata) :
    (s.pruneOrphanedMetadata it).getMetricMetadata name = some md ↔
      s.getMetricMetadata name = some md ∧ ∃ id, s.seriesName id = some name := by
  rw [pruneOrphanedMetadata, hkey, getMetricMetadata, getMetricMetadata]
  simp only [Option.bind_eq_some_iff, Finmap.lookup_retain_eq_some, decide_eq_true_eq,
    mem_surviving]
  constructor
  · rintro ⟨k, hk, hmd, id, series, hst, hname⟩
    refine ⟨⟨k, hk, hmd⟩, id, seriesName_eq_some_iff.mpr ⟨nameKey, hkey, series.labels, ?_, k,
      hname, resolve_of_get hk⟩⟩
    rw [seriesLabels, hst, Option.map_some]
  · rintro ⟨⟨k, hk, hmd⟩, id, hname⟩
    obtain ⟨nameKey', hkey', labels, hl, k', hk', rfl⟩ := seriesName_eq_some_iff.mp hname
    obtain ⟨series, hst, rfl⟩ := Option.map_eq_some_iff.mp hl
    obtain rfl := Option.some.inj (hkey.symm.trans hkey')
    have hvalid := (h.invariant.interned hst _ (mem_of_nameOf hk')).2
    obtain rfl := Option.some.inj (hk.symm.trans hvalid.get_resolve)
    exact ⟨k, hk, hmd, id, series, hst, hk'⟩

/-- Reading the metadata after `clear_service` prunes both tables is the same. -/
theorem getMetricMetadata_pruneNames (it : IterOrder ℕ) (s : MetricStore Rodeo Spur F64) :
    (s.pruneNames it).getMetricMetadata = (s.pruneOrphanedMetadata it).getMetricMetadata := by
  funext name
  rw [pruneNames, pruneOrphanedMetadata]
  cases get s.interner "__name__" <;> rfl

/-- A series makes the label `__name__` known, if it has a name. -/
theorem seriesName_handle {s : MetricStore Rodeo Spur F64} [Float64 F64] (h : s.Sound)
    {e : MetricsEvent F64} (he : e.batch? = none) (hclear : e ≠ .clear) (id : ℕ) (name : String) :
    (s.handle e).seriesName id = some name ↔ s.seriesName id = some name ∧ s.Survives e id := by
  rw [seriesName_eq_some_iff, seriesName_eq_some_iff, (s.frame_handle_of_evicts he hclear).1]
  simp only [seriesLabels_handle h he]
  constructor
  · rintro ⟨nameKey, hkey, labels, ⟨hl, hsurvives⟩, hname⟩
    exact ⟨⟨nameKey, hkey, labels, hl, hname⟩, hsurvives⟩
  · rintro ⟨⟨nameKey, hkey, labels, hl, hname⟩, hsurvives⟩
    exact ⟨nameKey, hkey, labels, ⟨hl, hsurvives⟩, hname⟩

/-! ### One event -/

variable [Float64 F64]

/-- The metadata of a name after an event, going by what is recorded alone. -/
def recordedBy (s : MetricStore Rodeo Spur F64) (name : String) (md : Option MetricMetadata)
    (e : MetricsEvent F64) : Option MetricMetadata :=
  if s.accepts e then recorded name md ((e.batch?.map Prod.snd).getD []) else md

/-- The store, together with what has been recorded for a name. -/
def track (name : String) (sm : MetricStore Rodeo Spur F64 × Option MetricMetadata)
    (e : MetricsEvent F64) : MetricStore Rodeo Spur F64 × Option MetricMetadata :=
  (sm.1.handle e, sm.1.recordedBy name sm.2 e)

theorem recordedBy_of_evicts {s : MetricStore Rodeo Spur F64} {e : MetricsEvent F64}
    (he : e.batch? = none) (name : String) (md : Option MetricMetadata) :
    s.recordedBy name md e = md := by
  rw [recordedBy, he]
  split <;> rfl

theorem isSome_recordedBy (s : MetricStore Rodeo Spur F64) (name : String)
    {md : Option MetricMetadata} (h : md.isSome) (e : MetricsEvent F64) :
    (s.recordedBy name md e).isSome := by
  rw [recordedBy]
  split
  · exact isSome_recorded (.inl h)
  · exact h

/-- **A request** changes the metadata of a name by what it records. -/
theorem getMetricMetadata_handle {s : MetricStore Rodeo Spur F64} (h : s.Sound)
    {e : MetricsEvent F64} {batch : List (PreparedItem F64) × List PreparedMeta}
    (hb : e.batch? = some batch) (hids : s.HasIds e) (name : String) :
    (s.handle e).getMetricMetadata name =
      s.recordedBy name (s.getMetricMetadata name) e := by
  have hreg := onlyRegisters_registerItems h.interned batch.1
  have hmeta := h.interned.getMetricMetadata_congr hreg.interner hreg.metricMetadata
  cases hacc : s.accepts e with
  | false =>
    rw [recordedBy, hacc, if_neg Bool.false_ne_true]
    obtain heq | heq := handle_of_not_accepts hb hacc
    · rw [heq]
    · rw [heq, hmeta]
  | true =>
    obtain ⟨heq, -⟩ := handle_of_accepts hb hacc
    have hnext : (s.registerItems batch.1).1.nextStreamId = s.nextStreamId := by
      rw [hreg.toLabelStore]
    have hingest := (commits_ingestItems (commits_registerItems h batch.1).sound
      (by rw [hnext]; exact hids batch hb)).1
    rw [recordedBy, hacc, if_pos rfl, hb, heq,
      getMetricMetadata_registerMetas hingest.sound.interned,
      hreg.interned.getMetricMetadata_congr hingest.grows.interner (ingestItems_tables _ _).2, hmeta]
    rfl

/-- An eviction gets as far as pruning the metadata. -/
def Prunes (s : MetricStore Rodeo Spur F64) : MetricsEvent F64 → Prop
  | .evictBefore _ _ => True
  | .evictToMax _ maxSeries => maxSeries < s.seriesCount
  | .clearService _ service => s.serviceStreams service ≠ none
  | .otlp _ _ | .remoteWrite _ _ | .clear => False

/-- An eviction that does not prune does nothing. -/
theorem handle_of_not_prunes {s : MetricStore Rodeo Spur F64} {e : MetricsEvent F64}
    (he : e.batch? = none) (hclear : e ≠ .clear) (hno : ¬ s.Prunes e) : s.handle e = s := by
  cases e with
  | otlp seqs request => simp [MetricsEvent.batch?] at he
  | remoteWrite seqs request => simp [MetricsEvent.batch?] at he
  | evictBefore it cutoffMs => exact absurd trivial hno
  | evictToMax it maxSeries => rw [handle, evictToMax, if_pos (not_lt.mp hno)]
  | clear => exact absurd rfl hclear
  | clearService it service =>
    have hnone : s.serviceStreams service = none := by simpa [Prunes] using hno
    rw [handle, clearService, hnone]

/-- **An eviction that prunes** keeps the metadata of a name exactly when it leaves a series of just
this name. -/
theorem getMetricMetadata_handle_of_prunes {s : MetricStore Rodeo Spur F64} (h : s.Sound)
    {e : MetricsEvent F64} (hprunes : s.Prunes e) {nameKey : Spur}
    (hkey : get s.interner "__name__" = some nameKey) (name : String) (md : MetricMetadata) :
    (s.handle e).getMetricMetadata name = some md ↔
      s.getMetricMetadata name = some md ∧ ∃ id, s.seriesName id = some name ∧ s.Survives e id := by
  have hbatch : e.batch? = none := by cases e <;> first | rfl | exact hprunes.elim
  have hclear : e ≠ .clear := by
    rintro rfl
    exact hprunes
  have hsound := sound_handle_of_evicts h hbatch
  simp only [← seriesName_handle h hbatch hclear]
  -- what is pruned is the store `t` with the same tables and the series that are left
  have hpruned : ∀ (t : MetricStore Rodeo Spur F64) (it : IterOrder ℕ),
      t.toLabelStore = (s.handle e).toLabelStore → t.metricMetadata = s.metricMetadata →
      t.NamesInterned →
      (s.handle e).getMetricMetadata = (t.pruneOrphanedMetadata it).getMetricMetadata →
      ((s.handle e).getMetricMetadata name = some md ↔ s.getMetricMetadata name = some md ∧
        ∃ id, (s.handle e).seriesName id = some name) := by
    intro t it hstore hmeta hinterned heq
    have hinterner : t.interner = s.interner := by
      rw [hstore, (s.frame_handle_of_evicts hbatch hclear).1]
    have ht : t.Sound := ⟨hstore ▸ hsound.invariant, hinterned⟩
    have hget : t.getMetricMetadata = s.getMetricMetadata :=
      h.interned.getMetricMetadata_congr (hinterner ▸ Extends.refl _) hmeta
    have hnames : t.seriesName = (s.handle e).seriesName := by
      funext id
      rw [seriesName, seriesName, seriesLabels, seriesLabels, hstore]
    rw [heq, getMetricMetadata_pruneOrphanedMetadata ht it (hinterner ▸ hkey), hget, hnames]
  cases e with
  | otlp seqs request => exact hprunes.elim
  | remoteWrite seqs request => exact hprunes.elim
  | evictBefore it cutoffMs =>
    refine hpruned { s with toLabelStore := s.toLabelStore.evictBefore it cutoffMs } it ?_ rfl ?_ rfl
    · exact (toLabelStore_evictBefore it s cutoffMs).symm
    · refine h.interned.setLabelStore ?_
      rw [(s.toLabelStore.evictBefore_frame it cutoffMs).1]
      exact Extends.refl _
  | evictToMax it maxSeries =>
    refine hpruned { s with toLabelStore :=
      (s.evicted it maxSeries).foldl LabelStore.dropStream s.toLabelStore } it ?_ rfl ?_ ?_
    · exact (toLabelStore_evictToMax it s maxSeries).symm
    · refine h.interned.setLabelStore ?_
      rw [LabelStore.foldl_dropStream_interner]
      exact Extends.refl _
    · rw [handle, evictToMax, if_neg (not_le.mpr hprunes)]
  | clear => exact hprunes.elim
  | clearService it service =>
    obtain ⟨ids, hids⟩ := Option.ne_none_iff_exists'.mp hprunes
    have hstep : s.clearService it service = pruneNames it
        { s with toLabelStore := ids.foldl LabelStore.dropStream s.toLabelStore } := by
      rw [clearService, hids]
    refine hpruned { s with toLabelStore := ids.foldl LabelStore.dropStream s.toLabelStore } it
      ?_ rfl ?_ ?_
    · rw [handle, hstep, toLabelStore_pruneNames]
    · refine h.interned.setLabelStore ?_
      rw [LabelStore.foldl_dropStream_interner]
      exact Extends.refl _
    · rw [handle, hstep, getMetricMetadata_pruneNames]

/-! ### Runs -/

/-- If one of the series is stored, what has been recorded for the name is what is returned. -/
def ReturnsMetadata (name : String) (component : ℕ → Prop)
    (sm : MetricStore Rodeo Spur F64 × Option MetricMetadata) : Prop :=
  (∃ id, component id ∧ id ∈ sm.1.streams) → sm.1.getMetricMetadata name = sm.2

/-- If an eviction prunes and leaves one of the series, it leaves a series of the name itself. -/
def KeepsMetadata (name : String) (component : ℕ → Prop) (s : MetricStore Rodeo Spur F64)
    (e : MetricsEvent F64) : Prop :=
  s.Prunes e → (∃ id, component id ∧ id ∈ s.streams ∧ s.Survives e id) →
    ∃ id, s.seriesName id = some name ∧ s.Survives e id

/-- What holds along a run: the ids of the series have been given out, and what has been recorded
is returned. -/
structure Tracked (name : String) (component : ℕ → Prop)
    (sm : MetricStore Rodeo Spur F64 × Option MetricMetadata) : Prop where
  sound : sm.1.Sound
  isSome : sm.2.isSome
  old : ∀ id, component id → id < sm.1.nextStreamId
  nameKey : ∀ id, component id → ∃ nameKey, get sm.1.interner "__name__" = some nameKey
  returns : ReturnsMetadata name component sm

theorem Tracked.handle_request {name : String} {component : ℕ → Prop}
    {sm : MetricStore Rodeo Spur F64 × Option MetricMetadata} (h : Tracked name component sm)
    {e : MetricsEvent F64} {batch : List (PreparedItem F64) × List PreparedMeta}
    (hb : e.batch? = some batch) (hids : sm.1.HasIds e) :
    Tracked name component (track name sm e) where
  sound := (commits_handle h.sound hb hids).sound
  isSome := sm.1.isSome_recordedBy name h.isSome e
  old id hid := (h.old id hid).trans_le (commits_handle h.sound hb hids).next
  nameKey id hid := by
    obtain ⟨nameKey, hkey⟩ := h.nameKey id hid
    exact ⟨nameKey, (commits_handle h.sound hb hids).grows.interner _ _ hkey⟩
  returns := by
    rintro ⟨id, hid, hlive⟩
    show (sm.1.handle e).getMetricMetadata name = sm.1.recordedBy name sm.2 e
    rw [getMetricMetadata_handle h.sound hb hids]
    -- the series has an old id, so it was there before
    rcases (commits_handle h.sound hb hids).fresh hlive with hold | hnew
    · rw [h.returns ⟨id, hid, hold⟩]
    · exact absurd (h.old id hid) (not_lt.mpr hnew)

/-- **An eviction** returns what was recorded exactly when it keeps it. -/
theorem Tracked.returns_iff {name : String} {component : ℕ → Prop}
    {sm : MetricStore Rodeo Spur F64 × Option MetricMetadata} (h : Tracked name component sm)
    {e : MetricsEvent F64} (he : e.batch? = none) (hclear : e ≠ .clear) :
    ReturnsMetadata name component (track name sm e) ↔ sm.1.KeepsMetadata name component e := by
  obtain ⟨md, hmd⟩ := Option.isSome_iff_exists.mp h.isSome
  rw [ReturnsMetadata, track, recordedBy_of_evicts he, hmd]
  simp only [mem_streams_handle_iff h.sound he]
  by_cases hprunes : sm.1.Prunes e
  · rw [KeepsMetadata, imp_iff_right hprunes]
    refine imp_congr_right ?_
    rintro ⟨id, hid, hlive, -⟩
    obtain ⟨nameKey, hkey⟩ := h.nameKey id hid
    rw [getMetricMetadata_handle_of_prunes h.sound hprunes hkey, h.returns ⟨id, hid, hlive⟩]
    exact and_iff_right hmd
  · refine iff_of_true ?_ (fun hp => absurd hp hprunes)
    rintro ⟨id, hid, hlive, -⟩
    rw [handle_of_not_prunes he hclear hprunes, h.returns ⟨id, hid, hlive⟩, hmd]

/-- **One event** other than `clear`. -/
theorem Tracked.returns_track_iff {name : String} {component : ℕ → Prop}
    {sm : MetricStore Rodeo Spur F64 × Option MetricMetadata} (h : Tracked name component sm)
    {e : MetricsEvent F64} (hclear : e ≠ .clear) (hids : sm.1.HasIds e) :
    ReturnsMetadata name component (track name sm e) ↔ sm.1.KeepsMetadata name component e := by
  cases hb : e.batch? with
  | none => exact h.returns_iff hb hclear
  | some batch =>
    refine iff_of_true (h.handle_request hb hids).returns fun hprunes => ?_
    cases e <;> first | exact hprunes.elim | simp [MetricsEvent.batch?] at hb

theorem Tracked.track {name : String} {component : ℕ → Prop}
    {sm : MetricStore Rodeo Spur F64 × Option MetricMetadata} (h : Tracked name component sm)
    {e : MetricsEvent F64} (hclear : e ≠ .clear) (hids : sm.1.HasIds e)
    (hkeeps : sm.1.KeepsMetadata name component e) :
    Tracked name component (MetricStore.track name sm e) := by
  cases hb : e.batch? with
  | some batch => exact h.handle_request hb hids
  | none =>
    obtain ⟨hinterner, hnext⟩ := sm.1.frame_handle_of_evicts hb hclear
    refine ⟨sound_handle_of_evicts h.sound hb, sm.1.isSome_recordedBy name h.isSome e, ?_, ?_,
      (h.returns_iff hb hclear).mpr hkeeps⟩
    · intro id hid
      show id < (sm.1.handle e).nextStreamId
      rw [hnext]
      exact h.old id hid
    · intro id hid
      show ∃ nameKey, get (sm.1.handle e).interner "__name__" = some nameKey
      rw [hinterner]
      exact h.nameKey id hid

/-! ### The series of a metric -/

omit [Float64 F64] in
/-- The series an item is stored in. -/
def seriesOf (s : MetricStore Rodeo Spur F64) (item : MetricItem F64) : Option ℕ :=
  s.streamIds.lookup (internLabelPairs s.interner (("__name__", item.name) :: item.labels)).1

omit [Float64 F64] in
/-- It is stored, and its first label is known. -/
theorem lt_of_seriesOf {s : MetricStore Rodeo Spur F64} (h : s.Sound) {item : MetricItem F64}
    {id : ℕ} (hid : s.seriesOf item = some id) :
    id < s.nextStreamId ∧ ∃ nameKey, get s.interner "__name__" = some nameKey := by
  obtain ⟨series, hst, hlabels⟩ := (h.invariant.streamIds _ id).mp hid
  refine ⟨h.invariant.next hst, ?_⟩
  set key := (getOrIntern s.interner "__name__").1 with hkeydef
  obtain ⟨v, hv⟩ : ∃ v, (key, v) ∈ series.labels := by
    rw [hlabels, internLabelPairs]
    exact ⟨_, List.mem_sortByKey.mpr (.head _)⟩
  have hvalid := (h.invariant.interned hst _ hv).1
  have hget := extends_getOrIntern s.interner "__name__" _ _ hvalid.get_resolve
  have hname : resolve s.interner key = "__name__" :=
    eq_of_get_eq hget (get_getOrIntern_self s.interner "__name__")
  exact ⟨key, hname ▸ hvalid.get_resolve⟩

omit [Float64 F64] in
/-- A metric that is stored has its metadata in the request. -/
theorem exists_requestMeta {request : ExportMetricsServiceRequest F64} {rm : ResourceMetrics F64}
    (hrm : rm ∈ request) {metric : Metric F64} (hmetric : metric ∈ rm.scopeMetrics.flatten)
    (htype : recordedType metric.data ≠ none) :
    ∃ m ∈ requestMeta request, m.name = normalizeName metric.name := by
  obtain ⟨metricType, hsome⟩ := Option.ne_none_iff_exists'.mp htype
  refine ⟨⟨normalizeName metric.name, metricType, nonEmpty metric.description,
    nonEmpty metric.unit⟩, ?_, rfl⟩
  refine List.mem_flatMap.mpr ⟨rm, hrm, List.mem_filterMap.mpr ⟨metric, hmetric, ?_⟩⟩
  rw [metricMeta, hsome, Option.map_some]

end MetricStore

section Runs

open MetricStore

variable {Rodeo Spur F64 : Type} [LinearOrder Spur] [Interner Rodeo Spur] [Float64 F64]

/-- **The metadata of a metric are returned as long as a series of it is stored, exactly when every
eviction that leaves such a series leaves one of the name of the metric itself.** The store is one
that has just accepted a request with the metric; the run goes on with requests and evictions, with
ids left for each. -/
theorem metadata_returned_iff {before after : List (MetricsEvent F64)} {seqs : ℕ → ℕ}
    {request : ExportMetricsServiceRequest F64} {rm : ResourceMetrics F64} {metric : Metric F64}
    (hbefore : Run.Along handle HasIds (new : MetricStore Rodeo Spur F64)
      (before ++ [.otlp seqs request]))
    (haccepts : (Run.exec handle (new : MetricStore Rodeo Spur F64) before).accepts
      (.otlp seqs request) = true)
    (hrm : rm ∈ request) (hmetric : metric ∈ rm.scopeMetrics.flatten)
    (htype : recordedType metric.data ≠ none)
    (hafter : Run.Along handle (fun s e => e ≠ .clear ∧ s.HasIds e)
      (Run.exec handle (new : MetricStore Rodeo Spur F64) (before ++ [.otlp seqs request])) after) :
    let s₀ := Run.exec handle (new : MetricStore Rodeo Spur F64) before
    let s₁ := Run.exec handle (new : MetricStore Rodeo Spur F64) (before ++ [.otlp seqs request])
    let name := normalizeName metric.name
    let component := fun id => ∃ item ∈ metricItems (resourceLabels rm) metric,
      s₁.seriesOf item = some id
    ∃ md, recorded name (s₀.getMetricMetadata name) (requestMeta request) = some md ∧
      s₁.getMetricMetadata name = some md ∧
      (Run.Along (track name) (fun sm e => ReturnsMetadata name component (track name sm e))
          (s₁, some md) after ↔
        Run.Along (track name) (fun sm e => sm.1.KeepsMetadata name component e)
          (s₁, some md) after) := by
  intro s₀ s₁ name component
  obtain ⟨hfirst, hids, -⟩ := Run.along_append.mp hbefore
  have h₀ : s₀.Sound := Run.exec_invariant_along
    (P := fun s : MetricStore Rodeo Spur F64 => s.Sound)
    (fun _ _ hids hs => sound_handle hs hids) sound_new hfirst
  have hs₁ : s₁ = s₀.handle (.otlp seqs request) := Run.exec_append _ _ _ _
  have h₁ : s₁.Sound := hs₁ ▸ sound_handle h₀ hids
  have hsome : (recorded name (s₀.getMetricMetadata name) (requestMeta request)).isSome :=
    isSome_recorded (.inr (exists_requestMeta hrm hmetric htype))
  obtain ⟨md, hmd⟩ := Option.isSome_iff_exists.mp hsome
  have hget : s₁.getMetricMetadata name = some md := by
    rw [hs₁, getMetricMetadata_handle h₀ rfl hids, recordedBy, haccepts, if_pos rfl]
    exact hmd
  have htracked : Tracked name component (s₁, some md) := by
    refine ⟨h₁, rfl, ?_, ?_, fun _ => hget⟩
    · rintro id ⟨item, -, hid⟩
      exact (lt_of_seriesOf h₁ hid).1
    · rintro id ⟨item, -, hid⟩
      exact (lt_of_seriesOf h₁ hid).2
  have hok : Run.Along (track name) (fun sm e => e ≠ .clear ∧ sm.1.HasIds e) (s₁, some md) after :=
    (Run.along_map (f := Prod.fst) (fun _ _ => rfl)
      (fun (s : MetricStore Rodeo Spur F64) e => e ≠ .clear ∧ s.HasIds e) _ _).mpr hafter
  refine ⟨md, hmd, hget, Run.along_iff_along (P := Tracked name component) ?_ ?_ htracked hok⟩
  · rintro sm e ⟨hclear, hids⟩ h
    exact h.returns_track_iff hclear hids
  · rintro sm e ⟨hclear, hids⟩ hkeeps h
    exact h.track hclear hids hkeeps

/-- A request with one metric and no resource. -/
def requestOf (metric : Metric ℤ) : ExportMetricsServiceRequest ℤ := [⟨none, [[metric]]⟩]

/-- A summary with one quantile. -/
def latencySummary : Metric ℤ :=
  ⟨"latency", "", "", some (.summary [⟨[], 5000000, 1, 2, [(1, 2)]⟩])⟩

/-- A histogram with one bucket. -/
def latencyHistogram : Metric ℤ :=
  ⟨"latency", "", "", some (.histogram [⟨[], 5000000, 1, some 2, [1], []⟩])⟩

/-- The quantile of a summary has the name of the summary, and keeps its metadata. -/
theorem metadata_returned_iff_summary :
    let s₁ := Run.exec handle (new : MetricStore VecRodeo ℕ ℤ)
      ([] ++ [.otlp id (requestOf latencySummary)])
    let component := fun id => ∃ item ∈ metricItems (resourceLabels (⟨none, [[latencySummary]]⟩ :
      ResourceMetrics ℤ)) latencySummary, s₁.seriesOf item = some id
    ∃ md, s₁.getMetricMetadata (normalizeName "latency") = some md ∧
      Run.Along (track (normalizeName "latency"))
        (fun sm e => ReturnsMetadata (normalizeName "latency") component
          (track (normalizeName "latency") sm e))
        (s₁, some md) [.evictBefore (IterOrder.ascending ℕ) 0] := by
  intro s₁ component
  have hbefore : Run.Along handle HasIds (new : MetricStore VecRodeo ℕ ℤ)
      ([] ++ [.otlp id (requestOf latencySummary)]) := by
    refine ⟨fun batch hb => ?_, trivial⟩
    obtain rfl := Option.some.inj hb
    show _ ≤ u64Max
    decide
  have hafter : Run.Along handle (fun s e => e ≠ .clear ∧ s.HasIds e) s₁
      [.evictBefore (IterOrder.ascending ℕ) 0] := by
    refine ⟨⟨by simp, fun batch hb => ?_⟩, trivial⟩
    simp [MetricsEvent.batch?] at hb
  have hrm : (⟨none, [[latencySummary]]⟩ : ResourceMetrics ℤ) ∈ requestOf latencySummary := .head _
  have hmetric : latencySummary ∈
      (⟨none, [[latencySummary]]⟩ : ResourceMetrics ℤ).scopeMetrics.flatten := .head _
  have htype : recordedType latencySummary.data ≠ none := by
    simp [latencySummary, recordedType]
  obtain ⟨md, -, hget, hiff⟩ := metadata_returned_iff hbefore rfl hrm hmetric htype hafter
  refine ⟨md, hget, hiff.mpr ⟨fun _ _ => ?_, trivial⟩⟩
  exact ⟨0, rfl, ⟨[(3, 0), (4, 5)], [⟨5, 2, 0⟩]⟩, rfl, ⟨5, 2, 0⟩, .head _, by decide⟩

/-- An eviction that leaves the bucket of a histogram takes the metadata of the histogram. -/
theorem evictBefore_drops_metadata :
    let s₁ := Run.exec handle (new : MetricStore VecRodeo ℕ ℤ)
      [.otlp id (requestOf latencyHistogram)]
    let s₂ := s₁.handle (.evictBefore (IterOrder.ascending ℕ) 0)
    (new : MetricStore VecRodeo ℕ ℤ).accepts (.otlp id (requestOf latencyHistogram)) = true ∧
      s₁.getMetricMetadata "latency" = some ⟨some .histogram, none, none⟩ ∧
      (∃ item ∈ metricItems [] latencyHistogram, ∃ id, s₁.seriesOf item = some id ∧
        id ∈ s₂.streams) ∧
      s₂.getMetricMetadata "latency" = none := by
  intro s₁ s₂
  refine ⟨rfl, rfl, ⟨_, .head _, 0, ?_, ?_⟩, rfl⟩
  · have hkey : (internLabelPairs s₁.interner
        [("__name__", "latency_bucket"), ("le", "+Inf")]).1 = [(3, 0), (4, 5)] := rfl
    show s₁.streamIds.lookup (internLabelPairs s₁.interner
      [("__name__", "latency_bucket"), ("le", "+Inf")]).1 = some 0
    rw [hkey]
    rfl
  · have hst : s₂.streams.lookup 0 = some ⟨[(3, 0), (4, 5)], [⟨5, 1, 0⟩]⟩ := rfl
    exact Finmap.mem_of_lookup_eq_some hst

end Runs

end Aniani
