import Aniani.ForMathlib.Run
import Aniani.Store.Consistency

/-!
# The metric store

`MetricStore` is a label store of samples, in which the name of a metric is the value of the label
`__name__`, with two more tables keyed by an interned name: the source name a visible name was
registered for, and the metadata of the metric. Neither table refers to the series; both evictions
prune the second by the names of the series that are left, and `clear_service` prunes both.

The fields `series`, `samples` and `series_ids` of the source are the fields `streams`, `entries`
and `streamIds` of the label store.

A run of the store is a list of `MetricOp`s.

## Main definitions

* `Sample`, `MetricType`, `MetricMetadata`, `MetricStoreError`, `MetricStore` — the state
* `MetricStore.checkMetricNameCollision`, `registerMetricName`, `registerMetricMetadata`
* `MetricStore.ingestSamples`, `evictBefore`, `evictToMax`, `clear`, `clearService`
* `MetricOp`, `MetricStore.apply` — the operations as data

## Main results

* `MetricStore.invariant_exec` — the invariant of the label store, along every run with ids left
* `MetricStore.sorted_exec` — the order of the samples, along every run
-/

namespace Aniani

/-- A single metric sample. -/
structure Sample (F64 : Type) where
  timestampMs : ℤ
  value : F64
  /-- Global ingest sequence. -/
  ingestSeq : ℕ

instance {F64 : Type} : Timestamped (Sample F64) := ⟨Sample.timestampMs⟩

/-- Errors of registering a metric name. -/
inductive MetricStoreError where
  | metricNameCollision (normalized existing incoming : String)
  deriving DecidableEq

/-- The text of the error. -/
def MetricStoreError.message : MetricStoreError → String
  | .metricNameCollision normalized existing incoming =>
    "metric name collision: normalized name `" ++ normalized ++ "` maps to both `" ++ existing ++
      "` and `" ++ incoming ++ "`"

/-- The type of a metric. -/
inductive MetricType where
  | counter | gauge | histogram | summary | unknown
  deriving DecidableEq

/-- Metadata for a single metric name. -/
structure MetricMetadata where
  metricType : Option MetricType
  help : Option String
  unit : Option String
  deriving DecidableEq

namespace MetricMetadata

/-- `MetricMetadata::default()`. -/
def empty : MetricMetadata := ⟨none, none, none⟩

/-- The fields that are given overwrite, and an unknown type overwrites only a missing one. -/
def update (entry : MetricMetadata) (metricType : Option MetricType) (help unit : Option String) :
    MetricMetadata where
  metricType :=
    if metricType.any (fun t => decide (t ≠ MetricType.unknown)) || entry.metricType.isNone then
      metricType
    else entry.metricType
  help := if help.isSome then help else entry.help
  unit := if unit.isSome then unit else entry.unit

end MetricMetadata

/-- In-memory metric storage. -/
structure MetricStore (Rodeo Spur F64 : Type) extends LabelStore Rodeo Spur (Sample F64) where
  /-- Visible metric name to the source name it was registered for. -/
  normalizedNameSources : FxHashMap Spur Spur
  /-- Visible metric name to its metadata. -/
  metricMetadata : FxHashMap Spur MetricMetadata

namespace MetricStore

variable {Rodeo Spur F64 : Type} [LinearOrder Spur] [Interner Rodeo Spur]

/-- Create a new empty metric store. -/
def new : MetricStore Rodeo Spur F64 where
  toLabelStore := LabelStore.new
  normalizedNameSources := ∅
  metricMetadata := ∅

/-! ### Names and metadata -/

/-- `check_metric_name_collision`: by the strings, and without a write. -/
def checkMetricNameCollision (s : MetricStore Rodeo Spur F64)
    (normalizedName sourceName : String) : Except MetricStoreError Unit :=
  match Interner.get s.interner normalizedName with
  | none => .ok ()
  | some normalizedSpur =>
    match s.normalizedNameSources.lookup normalizedSpur with
    | some existing =>
      if Interner.resolve s.interner existing ≠ sourceName then
        .error (.metricNameCollision normalizedName (Interner.resolve s.interner existing)
          sourceName)
      else .ok ()
    | none => .ok ()

/-- Intern the two names of a registration. -/
def internNames (s : MetricStore Rodeo Spur F64) (normalizedName sourceName : String) :
    (Spur × Spur) × MetricStore Rodeo Spur F64 :=
  let normalized := Interner.getOrIntern s.interner normalizedName
  let source := Interner.getOrIntern normalized.2 sourceName
  ((normalized.1, source.1), { s with interner := source.2 })

/-- `register_metric_name`: by the interned keys. The names stay interned when it fails. -/
def registerMetricName (s : MetricStore Rodeo Spur F64) (normalizedName sourceName : String) :
    MetricStore Rodeo Spur F64 × Except MetricStoreError Unit :=
  let interned := s.internNames normalizedName sourceName
  match s.normalizedNameSources.lookup interned.1.1 with
  | some existing =>
    if existing ≠ interned.1.2 then
      (interned.2, .error (.metricNameCollision normalizedName
        (Interner.resolve interned.2.interner existing) sourceName))
    else (interned.2, .ok ())
  | none =>
    ({ interned.2 with
      normalizedNameSources := s.normalizedNameSources.insert interned.1.1 interned.1.2 }, .ok ())

/-- `register_metric_metadata`. -/
def registerMetricMetadata (s : MetricStore Rodeo Spur F64) (normalizedName : String)
    (metricType : Option MetricType) (help unit : Option String) : MetricStore Rodeo Spur F64 :=
  let interned := Interner.getOrIntern s.interner normalizedName
  { s with
    interner := interned.2
    metricMetadata := s.metricMetadata.insert interned.1
      (((s.metricMetadata.lookup interned.1).getD MetricMetadata.empty).update metricType help
        unit) }

/-- `get_metric_metadata`. -/
def getMetricMetadata (s : MetricStore Rodeo Spur F64) (name : String) : Option MetricMetadata :=
  (Interner.get s.interner name).bind fun spur => s.metricMetadata.lookup spur

/-- The value of the first label under the key. -/
def nameOf (nameKey : Spur) (labels : LabelPairs Spur) : Option Spur :=
  (labels.find? fun pair => pair.1 == nameKey).map Prod.snd

/-- The names of the series in the store. -/
def surviving (it : IterOrder ℕ) (s : MetricStore Rodeo Spur F64) (nameKey : Spur) :
    FxHashSet Spur :=
  ((it.keys s.streams).filterMap fun id =>
    (s.streams.lookup id).bind fun series => nameOf nameKey series.labels).toFinset

/-- `prune_orphaned_metadata`. -/
def pruneOrphanedMetadata (it : IterOrder ℕ) (s : MetricStore Rodeo Spur F64) :
    MetricStore Rodeo Spur F64 :=
  match Interner.get s.interner "__name__" with
  | none => s
  | some nameKey =>
    { s with
      metricMetadata := s.metricMetadata.retain fun normalized _ =>
        decide (normalized ∈ s.surviving it nameKey) }

/-! ### Ingest and removal -/

/-- `ingest_samples`: the name goes in front of the labels. -/
def ingestSamples (s : MetricStore Rodeo Spur F64) (name : String)
    (labels : List (String × String)) (samples : List (Sample F64)) : MetricStore Rodeo Spur F64 :=
  { s with toLabelStore := s.toLabelStore.ingest (("__name__", name) :: labels) samples }

/-- `interner.get_or_intern`. -/
def intern (s : MetricStore Rodeo Spur F64) (string : String) : MetricStore Rodeo Spur F64 :=
  { s with toLabelStore := s.toLabelStore.intern string }

/-- `evict_before`. -/
def evictBefore (it : IterOrder ℕ) (s : MetricStore Rodeo Spur F64) (cutoffMs : ℤ) :
    MetricStore Rodeo Spur F64 :=
  pruneOrphanedMetadata it { s with toLabelStore := s.toLabelStore.evictBefore it cutoffMs }

/-- The number of series. -/
def seriesCount (s : MetricStore Rodeo Spur F64) : ℕ := s.streams.keys.card

/-- The series `evict_to_max` removes: the oldest ones, as many as there are too many. -/
def evicted (it : IterOrder ℕ) (s : MetricStore Rodeo Spur F64) (maxSeries : ℕ) : List ℕ :=
  (s.evictionOrder it).take (s.seriesCount - maxSeries)

/-- `evict_to_max`. -/
def evictToMax (it : IterOrder ℕ) (s : MetricStore Rodeo Spur F64) (maxSeries : ℕ) :
    MetricStore Rodeo Spur F64 :=
  if s.seriesCount ≤ maxSeries then s
  else
    pruneOrphanedMetadata it { s with
      toLabelStore := (s.evicted it maxSeries).foldl LabelStore.dropStream s.toLabelStore }

/-- `clear`. -/
def clear (_ : MetricStore Rodeo Spur F64) : MetricStore Rodeo Spur F64 := new

/-- The last part of `clear_service`: drop the registrations and the metadata of names that no
series has. -/
def pruneNames (it : IterOrder ℕ) (s : MetricStore Rodeo Spur F64) : MetricStore Rodeo Spur F64 :=
  match Interner.get s.interner "__name__" with
  | none => s
  | some nameKey =>
    { s with
      normalizedNameSources := s.normalizedNameSources.retain fun normalized _ =>
        decide (normalized ∈ s.surviving it nameKey)
      metricMetadata := s.metricMetadata.retain fun normalized _ =>
        decide (normalized ∈ s.surviving it nameKey) }

/-- `clear_service`. -/
def clearService (it : IterOrder ℕ) (s : MetricStore Rodeo Spur F64) (service : String) :
    MetricStore Rodeo Spur F64 :=
  match s.serviceStreams service with
  | none => s
  | some ids =>
    pruneNames it { s with toLabelStore := ids.foldl LabelStore.dropStream s.toLabelStore }

/-- `rebuild_series_ids`. -/
def rebuildSeriesIds (it : IterOrder ℕ) (s : MetricStore Rodeo Spur F64) :
    MetricStore Rodeo Spur F64 :=
  { s with toLabelStore := s.toLabelStore.rebuildStreamIds it }

/-! ### Reading -/

/-- `get_samples`, nothing where the slice would be out of range. -/
def getSamples (s : MetricStore Rodeo Spur F64) (id : ℕ) (startMs endMs : ℤ) :
    Option (List (Sample F64)) :=
  s.getRange id startMs endMs

end MetricStore

/-! ### Runs -/

/-- The operations of a metric store. The walks of a hash map come with the order they are made
in. -/
inductive MetricOp (F64 : Type) where
  | ingestSamples (name : String) (labels : List (String × String)) (samples : List (Sample F64))
  | intern (string : String)
  | registerMetricName (normalizedName sourceName : String)
  | registerMetricMetadata (normalizedName : String) (metricType : Option MetricType)
      (help unit : Option String)
  | evictBefore (it : IterOrder ℕ) (cutoffMs : ℤ)
  | evictToMax (it : IterOrder ℕ) (maxSeries : ℕ)
  | clear
  | clearService (it : IterOrder ℕ) (service : String)
  | rebuildSeriesIds (it : IterOrder ℕ)

namespace MetricStore

variable {Rodeo Spur F64 : Type} [LinearOrder Spur] [Interner Rodeo Spur]

/-- One operation. -/
def apply (s : MetricStore Rodeo Spur F64) : MetricOp F64 → MetricStore Rodeo Spur F64
  | .ingestSamples name labels samples => s.ingestSamples name labels samples
  | .intern string => s.intern string
  | .registerMetricName normalizedName sourceName =>
    (s.registerMetricName normalizedName sourceName).1
  | .registerMetricMetadata normalizedName metricType help unit =>
    s.registerMetricMetadata normalizedName metricType help unit
  | .evictBefore it cutoffMs => s.evictBefore it cutoffMs
  | .evictToMax it maxSeries => s.evictToMax it maxSeries
  | .clear => s.clear
  | .clearService it service => s.clearService it service
  | .rebuildSeriesIds it => s.rebuildSeriesIds it

/-- The ids an operation creates. -/
def created (s : MetricStore Rodeo Spur F64) : MetricOp F64 → ℕ
  | .ingestSamples name labels _ => s.toLabelStore.created (("__name__", name) :: labels)
  | _ => 0

/-- The ids a run creates. -/
def idsCreated (s : MetricStore Rodeo Spur F64) (ops : List (MetricOp F64)) : ℕ :=
  Run.cost apply created s ops

/-! ### The label store underneath -/

/-- Registering a name interns it and its source name, and changes no series. -/
theorem toLabelStore_registerMetricName (s : MetricStore Rodeo Spur F64)
    (normalizedName sourceName : String) :
    (s.registerMetricName normalizedName sourceName).1.toLabelStore =
      (s.toLabelStore.intern normalizedName).intern sourceName := by
  rw [registerMetricName]
  dsimp only
  split
  · split <;> rfl
  · rfl

omit [Interner Rodeo Spur] in
theorem mem_surviving {it : IterOrder ℕ} {s : MetricStore Rodeo Spur F64} {nameKey k : Spur} :
    k ∈ s.surviving it nameKey ↔ ∃ id series, s.streams.lookup id = some series ∧
      nameOf nameKey series.labels = some k := by
  rw [surviving, List.mem_toFinset, List.mem_filterMap]
  constructor
  · rintro ⟨id, -, hid⟩
    obtain ⟨series, hst, hname⟩ := Option.bind_eq_some_iff.mp hid
    exact ⟨id, series, hst, hname⟩
  · rintro ⟨id, series, hst, hname⟩
    exact ⟨id, it.mem_keys.mpr (Finmap.mem_of_lookup_eq_some hst),
      Option.bind_eq_some_iff.mpr ⟨series, hst, hname⟩⟩

theorem toLabelStore_pruneOrphanedMetadata (it : IterOrder ℕ) (s : MetricStore Rodeo Spur F64) :
    (s.pruneOrphanedMetadata it).toLabelStore = s.toLabelStore := by
  rw [pruneOrphanedMetadata]
  split <;> rfl

theorem toLabelStore_pruneNames (it : IterOrder ℕ) (s : MetricStore Rodeo Spur F64) :
    (s.pruneNames it).toLabelStore = s.toLabelStore := by
  rw [pruneNames]
  split <;> rfl

theorem toLabelStore_evictBefore (it : IterOrder ℕ) (s : MetricStore Rodeo Spur F64)
    (cutoffMs : ℤ) :
    (s.evictBefore it cutoffMs).toLabelStore = s.toLabelStore.evictBefore it cutoffMs :=
  toLabelStore_pruneOrphanedMetadata it _

theorem toLabelStore_evictToMax (it : IterOrder ℕ) (s : MetricStore Rodeo Spur F64)
    (maxSeries : ℕ) :
    (s.evictToMax it maxSeries).toLabelStore =
      (s.evicted it maxSeries).foldl LabelStore.dropStream s.toLabelStore := by
  rw [evictToMax]
  split
  · next hle =>
    rw [evicted, Nat.sub_eq_zero_of_le hle]
    rfl
  · exact toLabelStore_pruneOrphanedMetadata it _

theorem toLabelStore_clearService (it : IterOrder ℕ) (s : MetricStore Rodeo Spur F64)
    (service : String) :
    (s.clearService it service).toLabelStore = s.toLabelStore.clearService service := by
  rw [clearService, LabelStore.clearService]
  cases s.serviceStreams service with
  | none => rfl
  | some ids => exact toLabelStore_pruneNames it _

/-! ### Every run -/

theorem invariant_apply {s : MetricStore Rodeo Spur F64} (h : s.Invariant) (op : MetricOp F64)
    (hroom : s.nextStreamId + s.created op ≤ u64Max) : (s.apply op).Invariant := by
  cases op with
  | ingestSamples name labels samples => exact h.ingest hroom samples
  | intern string => exact h.intern string
  | registerMetricName normalizedName sourceName =>
    rw [apply, toLabelStore_registerMetricName]
    exact (h.intern _).intern _
  | registerMetricMetadata normalizedName metricType help unit => exact h.intern normalizedName
  | evictBefore it cutoffMs =>
    rw [apply, toLabelStore_evictBefore]
    exact h.evictBefore it cutoffMs
  | evictToMax it maxSeries =>
    rw [apply, toLabelStore_evictToMax]
    exact h.foldl_dropStream _
  | clear => exact LabelStore.invariant_new
  | clearService it service =>
    rw [apply, toLabelStore_clearService]
    exact h.clearService service
  | rebuildSeriesIds it => exact (h.rebuildStreamIds hroom it).1

theorem nextStreamId_apply_le {s : MetricStore Rodeo Spur F64} (h : s.Invariant)
    (op : MetricOp F64) (hroom : s.nextStreamId + s.created op ≤ u64Max) :
    (s.apply op).nextStreamId ≤ s.nextStreamId + s.created op := by
  cases op with
  | ingestSamples name labels samples =>
    exact s.toLabelStore.nextStreamId_ingest_le (("__name__", name) :: labels) samples
  | intern string => exact le_rfl
  | registerMetricName normalizedName sourceName =>
    rw [apply, toLabelStore_registerMetricName]
    exact le_rfl
  | registerMetricMetadata normalizedName metricType help unit => exact le_rfl
  | evictBefore it cutoffMs =>
    rw [apply, toLabelStore_evictBefore]
    exact (s.toLabelStore.evictBefore_frame it cutoffMs).2.le
  | evictToMax it maxSeries =>
    rw [apply, toLabelStore_evictToMax]
    exact (s.toLabelStore.foldl_dropStream_nextStreamId _).le
  | clear => exact Nat.zero_le _
  | clearService it service =>
    rw [apply, toLabelStore_clearService]
    exact (s.toLabelStore.clearService_nextStreamId service).le
  | rebuildSeriesIds it => exact (h.rebuildStreamIds hroom it).2

/-- **Every run keeps the label store fitting**, as long as it does not run out of ids. -/
theorem invariant_exec {s : MetricStore Rodeo Spur F64} (h : s.Invariant)
    {ops : List (MetricOp F64)} (hroom : s.nextStreamId + s.idsCreated ops ≤ u64Max) :
    (Run.exec apply s ops).Invariant :=
  Run.exec_invariant_cost (P := fun s : MetricStore Rodeo Spur F64 => s.Invariant)
    (fun _ op hop hs => invariant_apply hs op hop)
    (fun _ op hop hs => nextStreamId_apply_le hs op hop) h hroom

/-- A store reached with ids left fits, and leaves the rest of the ids to the rest of the run. -/
theorem room_exec {s : MetricStore Rodeo Spur F64} (h : s.Invariant) {ops ops' : List (MetricOp F64)}
    (hroom : s.nextStreamId + s.idsCreated (ops ++ ops') ≤ u64Max) :
    (Run.exec apply s ops).Invariant ∧
      (Run.exec apply s ops).nextStreamId + (Run.exec apply s ops).idsCreated ops' ≤ u64Max := by
  have hstep : ∀ (s : MetricStore Rodeo Spur F64) (op : MetricOp F64),
      s.nextStreamId + s.created op ≤ u64Max → s.Invariant → (s.apply op).Invariant :=
    fun _ op hop hs => invariant_apply hs op hop
  have hle : ∀ (s : MetricStore Rodeo Spur F64) (op : MetricOp F64), s.nextStreamId + s.created op ≤ u64Max →
      s.Invariant → (s.apply op).nextStreamId ≤ s.nextStreamId + s.created op :=
    fun _ op hop hs => nextStreamId_apply_le hs op hop
  exact Run.exec_invariant_room hstep hle h hroom

theorem everyStream_apply {P : Stream Spur (Sample F64) → Prop}
    (hP : LabelStore.StreamInvariant P) {s : MetricStore Rodeo Spur F64}
    (h : LabelStore.EveryStream P s.toLabelStore) (op : MetricOp F64) :
    LabelStore.EveryStream P (s.apply op).toLabelStore := by
  cases op with
  | ingestSamples name labels samples => exact hP.ingest h _ samples
  | intern string => exact h
  | registerMetricName normalizedName sourceName =>
    rw [apply, toLabelStore_registerMetricName]
    exact h
  | registerMetricMetadata normalizedName metricType help unit => exact h
  | evictBefore it cutoffMs =>
    rw [apply, toLabelStore_evictBefore]
    exact hP.of_shrinks h (s.toLabelStore.shrinks_evictBefore it cutoffMs)
  | evictToMax it maxSeries =>
    rw [apply, toLabelStore_evictToMax]
    exact hP.of_shrinks h (s.toLabelStore.shrinks_foldl_dropStream _)
  | clear => exact LabelStore.everyStream_new
  | clearService it service =>
    rw [apply, toLabelStore_clearService]
    exact hP.of_shrinks h (s.toLabelStore.shrinks_clearService service)
  | rebuildSeriesIds it =>
    intro id series hst
    have hst : (s.toLabelStore.rebuildStreamIds it).streams.lookup id = some series := hst
    rw [(LabelStore.rebuildStreamIds_frame _ _).1] at hst
    exact h id series hst

/-- **What is so of a series from its creation on is so of every series of every run.** -/
theorem everyStream_exec {P : Stream Spur (Sample F64) → Prop}
    (hP : LabelStore.StreamInvariant P) (ops : List (MetricOp F64)) :
    LabelStore.EveryStream P
      (Run.exec apply (new : MetricStore Rodeo Spur F64) ops).toLabelStore :=
  Run.exec_invariant
    (P := fun s : MetricStore Rodeo Spur F64 => LabelStore.EveryStream P s.toLabelStore)
    (fun _ op hs => everyStream_apply hP hs op) LabelStore.everyStream_new ops

/-- **Every run keeps every series in the order of time.** -/
theorem sorted_exec (ops : List (MetricOp F64)) :
    (Run.exec apply (new : MetricStore Rodeo Spur F64) ops).Sorted :=
  everyStream_exec LabelStore.streamInvariant_sorted ops

end MetricStore

end Aniani
