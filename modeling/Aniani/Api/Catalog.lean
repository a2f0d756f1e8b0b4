import Aniani.Api.Services
import Aniani.Api.Summary
import Aniani.Query.TraceQL.Readable

/-!
# What a service has

Two endpoints describe a service: `catalog`, with the names of its metrics, the keys of its log
labels and the keys of its span attributes, and the tool `describe_service`, which adds the types of
the metrics and the values of the labels. They are written apart. One reads a posting list and keeps
sets of interned keys, the other selects by a matcher and keeps ordered sets of texts.

They give the same keys and the same attributes, in the same order. On metrics they differ in one
case: a series that has the label `__name__` twice, as a data point with such an attribute has, is
one metric to the tool and two to the endpoint. And every value the tool gives is one that a query
finds, all of them if the list is not cut.

## Main definitions

* `Stores.catalog`, `Stores.describeService` — the endpoint and the tool
* `MetricStore.NamedOnce` — no series of the service has a second name of its own

## Main results

* `Server.catalogs_agree` — the two agree, in every reachable state
* `Server.describe_exact` — the values of the labels are those a query finds
-/

namespace Aniani

open Interner

/-! ### The endpoint -/

namespace LabelStore

variable {Rodeo Spur α : Type} [LinearOrder Spur] [Interner Rodeo Spur] [Timestamped α]

/-- The streams in the posting list of a service. -/
def listedStreams (s : LabelStore Rodeo Spur α) (service : String) : List (Stream Spur α) :=
  ((s.serviceStreams service).getD []).filterMap s.streams.lookup

/-- The streams a matcher of the service selects. -/
def selectedStreams (regexNew : String → Option (String → Bool)) (it : IterOrder ℕ)
    (itValues : IterOrder Spur) (s : LabelStore Rodeo Spur α) (service : String) :
    List (Stream Spur α) :=
  (s.select regexNew it itValues [serviceMatcher service]).filterMap s.streams.lookup

end LabelStore

/-- Interned keys that have been collected in a set, as sorted texts. -/
def sortedTexts {Rodeo Spur : Type} [LinearOrder Spur] [Interner Rodeo Spur] (r : Rodeo)
    (keys : List Spur) : List String :=
  ((List.firstsBy id [] keys).map (resolve r)).sortByKey id

/-- The metric names of `catalog`: every value of a label `__name__`. -/
def MetricStore.catalogMetrics {Rodeo Spur F64 : Type} [LinearOrder Spur] [Interner Rodeo Spur]
    (s : MetricStore Rodeo Spur F64) (service : String) : List String :=
  match get s.interner "__name__" with
  | none => []
  | some nameKey => sortedTexts s.interner ((s.listedStreams service).flatMap fun series =>
      (series.labels.filter fun label => decide (label.1 = nameKey)).map Prod.snd)

/-- The log label keys of `catalog`. -/
def LogStore.catalogLogLabels {Rodeo Spur F64 : Type} [LinearOrder Spur] [Interner Rodeo Spur]
    (s : LogStore Rodeo Spur F64) (service : String) : List String :=
  sortedTexts s.interner ((s.listedStreams service).flatMap fun stream =>
    stream.labels.map Prod.fst)

namespace TraceStore

variable {Rodeo Spur F64 : Type} [LinearOrder Spur] [Interner Rodeo Spur]

/-- The spans of a service, trace by trace. -/
def serviceSpans (it : IterOrder TraceId) (s : TraceStore Rodeo Spur F64) (service : String) :
    List (Span Spur F64) :=
  match get s.interner service with
  | none => []
  | some spur => (((s.serviceIndex.lookup spur).map it.order).getD []).flatMap fun t =>
      ((s.getTrace t).getD []).filter fun span => decide (span.serviceName = spur)

/-- The span attribute keys of `catalog`. -/
def catalogSpanAttributes (it : IterOrder TraceId) (s : TraceStore Rodeo Spur F64)
    (service : String) : List String :=
  sortedTexts s.interner ((s.serviceSpans it service).flatMap fun span =>
    span.attributes.map Prod.fst)

end TraceStore

/-- The reply of `catalog`. -/
inductive CatalogReply where
  | missingService
  | ok (metrics logLabels spanAttributes : List String)
  deriving DecidableEq

/-- `catalog`. -/
def Stores.catalog {Rodeo Spur F64 : Type} [LinearOrder Spur] [Interner Rodeo Spur]
    (it : IterOrder TraceId) (s : Stores Rodeo Spur F64) : Option String → CatalogReply
  | none => .missingService
  | some service =>
    if service = "" then .missingService
    else .ok (s.metricStore.catalogMetrics service) (s.logStore.catalogLogLabels service)
      (s.traceStore.catalogSpanAttributes it service)

/-! ### The tool -/

/-- `MetricInfo`. -/
structure MetricInfo where
  name : String
  metricType : Option String
  help : Option String
  unit : Option String
  deriving DecidableEq

/-- `LabelInfo`. -/
structure LabelInfo where
  key : String
  values : List String
  truncated : Bool
  deriving DecidableEq

/-- `ServiceCatalog`. -/
structure ServiceCatalog where
  service : String
  metrics : List MetricInfo
  logLabels : List LabelInfo
  spanAttributes : List String
  deriving DecidableEq

/-- `MAX_LABEL_VALUES`. -/
def maxLabelValues : ℕ := 50

namespace MetricStore

variable {Rodeo Spur F64 : Type} [LinearOrder Spur] [Interner Rodeo Spur]

/-- What is said of a metric. -/
def metricInfo (s : MetricStore Rodeo Spur F64) (v : Spur) : MetricInfo where
  name := resolve s.interner v
  metricType := (s.getMetricType v).map MetricType.asStr
  help := (s.metricMetadata.lookup v).bind MetricMetadata.help
  unit := (s.metricMetadata.lookup v).bind MetricMetadata.unit

/-- The metrics of `describe_service`: the first label `__name__` of each series, each text once. -/
def describeMetrics (regexNew : String → Option (String → Bool)) (it : IterOrder ℕ)
    (itValues : IterOrder Spur) (s : MetricStore Rodeo Spur F64) (service : String) :
    List MetricInfo :=
  let names := (s.selectedStreams regexNew it itValues service).filterMap fun series =>
    (get s.interner "__name__").bind fun nameKey => nameOf nameKey series.labels
  (List.firstsBy MetricInfo.name [] (names.map s.metricInfo)).sortByKey MetricInfo.name

end MetricStore

namespace LogStore

variable {Rodeo Spur F64 : Type} [LinearOrder Spur] [Interner Rodeo Spur]

/-- `by_key`: the values of each label of the streams of a service. -/
def valuesByKey (regexNew : String → Option (String → Bool)) (it : IterOrder ℕ)
    (itValues : IterOrder Spur) (s : LogStore Rodeo Spur F64) (service : String) :
    FxHashMap String (FxHashSet String) :=
  InvertedIndex.addAll (∅ : FxHashMap String (FxHashSet String))
    ((s.selectedStreams regexNew it itValues service).flatMap fun stream =>
      s.resolveLabels stream.labels)

/-- The log labels of `describe_service`. -/
def describeLogLabels (regexNew : String → Option (String → Bool)) (it : IterOrder ℕ)
    (itValues : IterOrder Spur) (s : LogStore Rodeo Spur F64) (service : String) :
    List LabelInfo :=
  let byKey := s.valuesByKey regexNew it itValues service
  (sortedSet byKey.keys).map fun key =>
    let values := sortedSet ((byKey.lookup key).getD ∅)
    ⟨key, values.take maxLabelValues, decide (maxLabelValues < values.length)⟩

end LogStore

/-- The span attribute keys of `describe_service`. -/
def TraceStore.describeSpanAttributes {Rodeo Spur F64 : Type} [LinearOrder Spur]
    [Interner Rodeo Spur] (it : IterOrder TraceId) (s : TraceStore Rodeo Spur F64)
    (service : String) : List String :=
  sortedSet ((s.serviceSpans it service).flatMap fun span =>
    span.attributes.map fun attr => resolve s.interner attr.1).toFinset

/-- The orders `describe_service` walks maps and sets in. -/
structure DescribeWalks (Spur : Type) where
  regexNew : String → Option (String → Bool)
  ids : IterOrder ℕ
  values : IterOrder Spur
  traces : IterOrder TraceId

/-- `describe_service`. -/
def Stores.describeService {Rodeo Spur F64 : Type} [LinearOrder Spur] [Interner Rodeo Spur]
    (walks : DescribeWalks Spur) (s : Stores Rodeo Spur F64) (service : String) :
    ServiceCatalog where
  service := service
  metrics := s.metricStore.describeMetrics walks.regexNew walks.ids walks.values service
  logLabels := s.logStore.describeLogLabels walks.regexNew walks.ids walks.values service
  spanAttributes := s.traceStore.describeSpanAttributes walks.traces service

/-! ### Keys and texts -/

theorem sortedTexts_eq {Rodeo Spur : Type} [LinearOrder Spur] [Interner Rodeo Spur] {r : Rodeo}
    {keys : List Spur} (h : ∀ k ∈ keys, Valid r k) :
    sortedTexts r keys = (keys.map (resolve r)).toFinset.sort (· ≤ ·) := by
  have hnodup : ((List.firstsBy id [] keys).map (resolve r)).Nodup := by
    refine (List.nodup_map_iff_inj_on ?_).mpr fun a ha b hb heq => ?_
    · simpa using List.nodup_map_firstsBy id [] keys
    · have hmem : ∀ k ∈ List.firstsBy id [] keys, Valid r k := fun k hk =>
        h k ((List.firstsBy_sublist id [] keys).subset hk)
      exact Option.some.inj
        ((hmem a ha).get_resolve.symm.trans (heq ▸ (hmem b hb).get_resolve))
  rw [sortedTexts, List.sortByKey_id_eq_sort hnodup]
  congr 1
  ext text
  have hkeys : ∀ k, k ∈ List.firstsBy id [] keys ↔ k ∈ keys := fun k => by
    have : k ∈ (List.firstsBy id [] keys).map id ↔ k ∈ keys.map id ∧ k ∉ [] :=
      List.mem_map_firstsBy
    simpa using this
  simp only [List.mem_toFinset, List.mem_map, hkeys]

namespace LabelStore

variable {Rodeo Spur α : Type} [LinearOrder Spur] [Interner Rodeo Spur] [Timestamped α]
  {s : LabelStore Rodeo Spur α}

/-- A stream of a service. -/
def OfService (s : LabelStore Rodeo Spur α) (service : String) (stream : Stream Spur α) : Prop :=
  ∃ id, s.streams.lookup id = some stream ∧
    ("service", service) ∈ s.resolveLabels stream.labels

/-- The posting list has the streams of the service. -/
theorem Indexed.mem_listedStreams (h : s.Indexed) (service : String) (stream : Stream Spur α) :
    stream ∈ s.listedStreams service ↔ s.OfService service stream := by
  have hids : ∀ id, id ∈ (s.serviceStreams service).getD [] ↔ ∃ k v,
      get s.interner "service" = some k ∧ get s.interner service = some v ∧
        s.Carries (k, v) id := by
    intro id
    rw [serviceStreams]
    cases hv : get s.interner service with
    | none => simp
    | some v =>
      cases hk : get s.interner "service" with
      | none => simp
      | some k =>
        have hlist := h.labelIndex.holds_iff (k, v) id
        cases hpl : s.labelIndex.lookup (k, v) with
        | none => simpa [InvertedIndex.Holds, hpl] using hlist
        | some pl => simpa [InvertedIndex.Holds, hpl, PostingList.mem_def] using hlist
  rw [listedStreams, List.mem_filterMap]
  refine exists_congr fun id => ?_
  rw [and_comm, hids]
  refine and_congr_right fun hst => ?_
  rw [resolveLabels, List.mem_map]
  constructor
  · rintro ⟨k, v, hk, hv, stream', hst', hmem⟩
    obtain rfl := Option.some.inj (hst.symm.trans hst')
    exact ⟨(k, v), hmem, Prod.ext (resolve_of_get hk) (resolve_of_get hv)⟩
  · rintro ⟨pair, hmem, heq⟩
    obtain ⟨hk, hv⟩ := Prod.mk.inj heq
    obtain ⟨hvalidk, hvalidv⟩ := h.interned hst pair hmem
    exact ⟨pair.1, pair.2, hk ▸ hvalidk.get_resolve, hv ▸ hvalidv.get_resolve, stream, hst, hmem⟩

/-- So has the selection by a matcher. -/
theorem Indexed.mem_selectedStreams (h : s.Indexed) (regexNew : String → Option (String → Bool))
    (it : IterOrder ℕ) (itValues : IterOrder Spur) (service : String) (stream : Stream Spur α) :
    stream ∈ s.selectedStreams regexNew it itValues service ↔ s.OfService service stream := by
  have hcompiles : ∀ m ∈ [serviceMatcher service], m.Compiles regexNew := fun m hm =>
    List.mem_singleton.mp hm ▸ compiles_of_eq
  rw [selectedStreams, List.mem_filterMap]
  refine exists_congr fun id => ?_
  rw [h.mem_select it itValues hcompiles id, and_comm]
  refine and_congr_right fun hst => ?_
  rw [hst]
  simp only [Option.some.injEq, exists_eq_left', List.forall_mem_singleton]
  rfl

theorem Indexed.valid_of_service (h : s.Indexed) {service : String} {stream : Stream Spur α}
    (hof : s.OfService service stream) :
    ∀ pair ∈ stream.labels, Valid s.interner pair.1 ∧ Valid s.interner pair.2 :=
  hof.elim fun _ hst => h.interned hst.1

/-- A query for a service and a label finds something exactly if a stream of the service has the
label. -/
theorem Indexed.select_pair_ne_nil (h : s.Indexed) (regexNew : String → Option (String → Bool))
    (it : IterOrder ℕ) (itValues : IterOrder Spur) (service key value : String) :
    s.select regexNew it itValues [serviceMatcher service, ⟨key, .eq, value⟩] ≠ [] ↔
      ∃ stream, s.OfService service stream ∧ (key, value) ∈ s.resolveLabels stream.labels := by
  have hcompiles : ∀ m ∈ [serviceMatcher service, ⟨key, .eq, value⟩], m.Compiles regexNew :=
    fun m hm => by rcases List.mem_pair.mp hm with rfl | rfl <;> exact compiles_of_eq
  rw [Ne, List.eq_nil_iff_forall_not_mem, not_forall_not]
  constructor
  · rintro ⟨id, hid⟩
    obtain ⟨stream, hst, hpass⟩ := (h.mem_select it itValues hcompiles id).mp hid
    exact ⟨stream, ⟨id, hst, hpass _ List.mem_cons_self⟩,
      hpass _ (List.mem_cons_of_mem _ List.mem_cons_self)⟩
  · rintro ⟨stream, ⟨id, hst, hservice⟩, hlabel⟩
    refine ⟨id, (h.mem_select it itValues hcompiles id).mpr ⟨stream, hst, fun m hm => ?_⟩⟩
    rcases List.mem_pair.mp hm with rfl | rfl
    · exact hservice
    · exact hlabel

end LabelStore

/-! ### The two agree -/

namespace LogStore

variable {Rodeo Spur F64 : Type} [LinearOrder Spur] [Interner Rodeo Spur]
  {s : LogStore Rodeo Spur F64}

/-- The values of a label are those the streams of the service have. -/
theorem represents_valuesByKey (h : s.Indexed) (regexNew : String → Option (String → Bool))
    (it : IterOrder ℕ) (itValues : IterOrder Spur) (service : String) :
    InvertedIndex.Represents (s.valuesByKey regexNew it itValues service) fun key value =>
      ∃ stream, s.OfService service stream ∧ (key, value) ∈ s.resolveLabels stream.labels := by
  refine (InvertedIndex.represents_empty.addAll _).congr fun key value => ?_
  simp only [or_false, List.mem_flatMap, h.mem_selectedStreams]

theorem map_key_describeLogLabels (regexNew : String → Option (String → Bool))
    (it : IterOrder ℕ) (itValues : IterOrder Spur) (s : LogStore Rodeo Spur F64)
    (service : String) :
    (s.describeLogLabels regexNew it itValues service).map LabelInfo.key =
      (s.valuesByKey regexNew it itValues service).keys.sort (· ≤ ·) := by
  rw [describeLogLabels, List.map_map]
  exact List.map_id _

/-- **The keys of the log labels agree.** -/
theorem catalogLogLabels_eq (h : s.Indexed) (regexNew : String → Option (String → Bool))
    (it : IterOrder ℕ) (itValues : IterOrder Spur) (service : String) :
    s.catalogLogLabels service =
      (s.describeLogLabels regexNew it itValues service).map LabelInfo.key := by
  have hvalid : ∀ k ∈ (s.listedStreams service).flatMap (fun stream => stream.labels.map Prod.fst),
      Valid s.interner k := by
    intro k hk
    obtain ⟨stream, hstream, hk⟩ := List.mem_flatMap.mp hk
    obtain ⟨pair, hpair, rfl⟩ := List.mem_map.mp hk
    exact (h.valid_of_service ((h.mem_listedStreams service stream).mp hstream) pair hpair).1
  rw [catalogLogLabels, sortedTexts_eq hvalid, map_key_describeLogLabels]
  congr 1
  ext key
  rw [List.mem_toFinset, List.map_flatMap, List.mem_flatMap, Finmap.mem_keys,
    (represents_valuesByKey h regexNew it itValues service).mem_iff]
  simp only [h.mem_listedStreams, List.map_map]
  constructor
  · rintro ⟨stream, hof, hkey⟩
    obtain ⟨pair, hpair, rfl⟩ := List.mem_map.mp hkey
    exact ⟨_, stream, hof, List.mem_map_of_mem hpair⟩
  · rintro ⟨value, stream, hof, hlabel⟩
    obtain ⟨pair, hpair, heq⟩ := List.mem_map.mp hlabel
    exact ⟨stream, hof, List.mem_map.mpr ⟨pair, hpair, congrArg Prod.fst heq⟩⟩

/-- **What is said of a key**: the first of its values in the streams of the service, in order, and
whether there are more. -/
theorem exists_values_of_mem (h : s.Indexed) (regexNew : String → Option (String → Bool))
    (it : IterOrder ℕ) (itValues : IterOrder Spur) (service : String) {info : LabelInfo}
    (hinfo : info ∈ s.describeLogLabels regexNew it itValues service) :
    ∃ values : Finset String,
      (∀ v, v ∈ values ↔
        s.queryStreams regexNew it itValues [serviceMatcher service, ⟨info.key, .eq, v⟩] ≠ []) ∧
      info.values = (values.sort (· ≤ ·)).take maxLabelValues ∧
      (info.truncated = true ↔ maxLabelValues < values.card) := by
  obtain ⟨key, hkey, rfl⟩ := List.mem_map.mp hinfo
  obtain ⟨values, hvalues⟩ := Finmap.mem_iff.mp (Finmap.mem_keys.mp ((Finset.mem_sort _).mp hkey))
  have hrep := represents_valuesByKey h regexNew it itValues service
  refine ⟨values, fun v => ?_, ?_, ?_⟩
  · rw [hrep.mem_lookup hvalues]
    exact (h.select_pair_ne_nil regexNew it itValues service key v).symm
  · simp only [hvalues, Option.getD_some]
  · simp only [hvalues, Option.getD_some, Finset.length_sort, decide_eq_true_eq]

end LogStore

namespace MetricStore

variable {Rodeo Spur F64 : Type} [LinearOrder Spur] [Interner Rodeo Spur]
  {s : MetricStore Rodeo Spur F64}

/-- The name of a series, by its labels: the first `__name__`. -/
def firstName (labels : List (String × String)) : Option String :=
  (labels.find? fun label => decide (label.1 = "__name__")).map Prod.snd

/-- Every name a series of the service has is the first name of such a series. -/
def NamedOnce (s : MetricStore Rodeo Spur F64) (service : String) : Prop :=
  ∀ series, s.OfService service series → ∀ name,
    ("__name__", name) ∈ s.resolveLabels series.labels →
      ∃ series', s.OfService service series' ∧
        firstName (s.resolveLabels series'.labels) = some name

/-- The first name, before it is a text. -/
theorem map_nameOf {labels : LabelPairs Spur}
    (h : ∀ pair ∈ labels, Valid s.interner pair.1 ∧ Valid s.interner pair.2) :
    ((get s.interner "__name__").bind fun nameKey => nameOf nameKey labels).map
      (resolve s.interner) = firstName (s.resolveLabels labels) := by
  have hkey : ∀ pair ∈ labels, decide (resolve s.interner pair.1 = "__name__") =
      decide (get s.interner "__name__" = some pair.1) := fun pair hpair =>
    decide_eq_decide.mpr (Mcp.resolve_eq_iff (h pair hpair).1 _)
  rw [firstName, LabelStore.resolveLabels, List.find?_map, Option.map_map,
    Mcp.find?_congr_of_mem (q := fun pair => decide (get s.interner "__name__" = some pair.1)) hkey]
  cases get s.interner "__name__" with
  | none => simp
  | some nameKey =>
    have hfind : labels.find? (fun pair => pair.1 == nameKey) =
        labels.find? fun pair => decide (some nameKey = some pair.1) := by
      congr 1
      funext pair
      rw [Bool.eq_iff_iff, beq_iff_eq, decide_eq_true_iff, Option.some.injEq, eq_comm]
    rw [Option.bind_some, nameOf, hfind, Option.map_map]
    rfl

theorem exists_catalogMetrics (h : s.Indexed) (service : String) :
    ∃ names : Finset String, s.catalogMetrics service = names.sort (· ≤ ·) ∧
      ∀ name, name ∈ names ↔ ∃ series, s.OfService service series ∧
        ("__name__", name) ∈ s.resolveLabels series.labels := by
  rw [catalogMetrics]
  cases hkey : get s.interner "__name__" with
  | none =>
    refine ⟨∅, Finset.sort_empty _ |>.symm, fun name => iff_of_false (Finset.notMem_empty _) ?_⟩
    rintro ⟨series, hof, hmem⟩
    obtain ⟨pair, hpair, heq⟩ := List.mem_map.mp hmem
    have hget := (h.valid_of_service hof pair hpair).1.get_resolve
    rw [(Prod.mk.inj heq).1, hkey] at hget
    exact absurd hget nofun
  | some nameKey =>
    have hmem : ∀ v, (v ∈ (s.listedStreams service).flatMap fun series =>
        (series.labels.filter fun label => decide (label.1 = nameKey)).map Prod.snd) ↔
          ∃ series, s.OfService service series ∧ (nameKey, v) ∈ series.labels := by
      intro v
      simp [List.mem_flatMap, h.mem_listedStreams]
    refine ⟨_, sortedTexts_eq fun v hv => ?_, fun name => ?_⟩
    · obtain ⟨series, hof, hpair⟩ := (hmem v).mp hv
      exact (h.valid_of_service hof _ hpair).2
    · rw [List.mem_toFinset, List.mem_map]
      simp only [hmem]
      constructor
      · rintro ⟨v, ⟨series, hof, hpair⟩, rfl⟩
        exact ⟨series, hof, List.mem_map.mpr ⟨_, hpair, Prod.ext (resolve_of_get hkey) rfl⟩⟩
      · rintro ⟨series, hof, hlabel⟩
        obtain ⟨pair, hpair, heq⟩ := List.mem_map.mp hlabel
        obtain ⟨hname, rfl⟩ := Prod.mk.inj heq
        have hget := (h.valid_of_service hof pair hpair).1.get_resolve
        rw [hname, hkey, Option.some.injEq] at hget
        exact ⟨pair.2, ⟨series, hof, hget ▸ hpair⟩, rfl⟩

theorem exists_describeMetrics (h : s.Indexed) (regexNew : String → Option (String → Bool))
    (it : IterOrder ℕ) (itValues : IterOrder Spur) (service : String) :
    ∃ names : Finset String,
      (s.describeMetrics regexNew it itValues service).map MetricInfo.name =
        names.sort (· ≤ ·) ∧
      ∀ name, name ∈ names ↔ ∃ series, s.OfService service series ∧
        firstName (s.resolveLabels series.labels) = some name := by
  refine ⟨_, List.map_sortByKey_firstsBy MetricInfo.name _, fun name => ?_⟩
  rw [List.mem_toFinset, List.map_map, List.map_filterMap, List.mem_filterMap]
  refine exists_congr fun series => ?_
  rw [h.mem_selectedStreams]
  refine and_congr_right fun hof => ?_
  rw [← map_nameOf (h.valid_of_service hof)]
  rfl

/-- **The names of the metrics agree** exactly if no series of the service has a second name of its
own. -/
theorem catalogMetrics_eq_iff (h : s.Indexed) (regexNew : String → Option (String → Bool))
    (it : IterOrder ℕ) (itValues : IterOrder Spur) (service : String) :
    s.catalogMetrics service =
        (s.describeMetrics regexNew it itValues service).map MetricInfo.name ↔
      s.NamedOnce service := by
  obtain ⟨all, hall, hmemAll⟩ := exists_catalogMetrics h service
  obtain ⟨firsts, hfirsts, hmemFirsts⟩ := exists_describeMetrics h regexNew it itValues service
  -- a first name is a name
  have hsub : firsts ⊆ all := by
    intro name hname
    obtain ⟨series, hof, hfirst⟩ := (hmemFirsts name).mp hname
    obtain ⟨label, hfind, rfl⟩ := Option.map_eq_some_iff.mp hfirst
    have hlabel := List.find?_some hfind
    exact (hmemAll _).mpr ⟨series, hof,
      of_decide_eq_true hlabel ▸ List.mem_of_find?_eq_some hfind⟩
  have hiff : all = firsts ↔ all ⊆ firsts :=
    ⟨fun heq => heq.subset, fun hle => Finset.Subset.antisymm hle hsub⟩
  rw [hall, hfirsts]
  refine Iff.trans (b := all = firsts) ⟨fun heq => ?_, fun heq => by rw [heq]⟩ (hiff.trans ?_)
  · rw [← Finset.sort_toFinset all (· ≤ ·), heq, Finset.sort_toFinset]
  · constructor
    · intro hle series hof name hname
      exact (hmemFirsts name).mp (hle ((hmemAll name).mpr ⟨series, hof, hname⟩))
    · intro hnamed name hname
      obtain ⟨series, hof, hlabel⟩ := (hmemAll name).mp hname
      exact (hmemFirsts name).mpr (hnamed series hof name hlabel)

end MetricStore

/-- **The keys of the span attributes agree**, if they are interned. -/
theorem TraceStore.catalogSpanAttributes_eq {Rodeo Spur F64 : Type} [LinearOrder Spur]
    [Interner Rodeo Spur] {s : TraceStore Rodeo Spur F64}
    (h : ∀ span, s.Holds span → ∀ attr ∈ span.attributes, Valid s.interner attr.1)
    (it : IterOrder TraceId) (service : String) :
    s.catalogSpanAttributes it service = s.describeSpanAttributes it service := by
  have hvalid : ∀ k ∈ (s.serviceSpans it service).flatMap
      (fun span => span.attributes.map Prod.fst), Valid s.interner k := by
    intro k hk
    obtain ⟨span, hspan, hk⟩ := List.mem_flatMap.mp hk
    obtain ⟨attr, hattr, rfl⟩ := List.mem_map.mp hk
    refine h span ?_ attr hattr
    rw [serviceSpans] at hspan
    split at hspan
    · exact absurd hspan List.not_mem_nil
    · obtain ⟨t, -, hspan⟩ := List.mem_flatMap.mp hspan
      exact ⟨t, (List.mem_filter.mp hspan).1⟩
  rw [catalogSpanAttributes, sortedTexts_eq hvalid, describeSpanAttributes, List.map_flatMap]
  simp only [List.map_map]
  rfl

/-! ### Every run -/

namespace Server

variable {Rodeo Spur F64 : Type} [LinearOrder Spur] [Interner Rodeo Spur] [FloatOps F64]
  [SerdeJson F64]

/-- The spans of every reachable state are readable. -/
theorem allReadable_exec (events : List (Event F64)) :
    (Run.exec Server.step (start : Server Rodeo Spur F64) events).state.traceStore.AllReadable := by
  have hingest : ∀ (s : Stores Rodeo Spur F64) (seqs : ℕ → ℕ) (r : IngestRequest F64),
      s.traceStore.AllReadable → (s.ingest seqs r).traceStore.AllReadable := by
    intro s seqs r h
    cases r with
    | otlpTraces request => exact h.ingestTraces seqs request
    | otlpLogs clockNs request => exact h
    | lokiPush request => exact h
    | otlpMetrics request => exact h
    | remoteWrite request => exact h
  refine Run.exec_invariant (P := fun s : Server Rodeo Spur F64 => s.state.traceStore.AllReadable)
    (fun s ev h => ?_) (fun _ hspan => absurd hspan (TraceStore.not_holds_new _)) events
  cases ev with
  | arrive request => exact h
  | stamp i =>
    rw [Server.step]
    cases s.stamping i with
    | none => exact h
    | some r => exact h
  | commit i =>
    rw [Server.step]
    cases s.ready i with
    | none => exact h
    | some r => exact hingest s.state.toStores _ r.request h
  | removeLogs it r => exact h
  | removeMetrics it r => exact h
  | removeTraces it r => exact h.remove it r

/-- **The endpoint and the tool agree**, in every reachable state: on the keys of the log labels and
of the span attributes, and on the metrics exactly if no series of the service has a second name of
its own. -/
theorem catalogs_agree (events : List (Event F64))
    (hids : Run.Along Server.step HasIds (start : Server Rodeo Spur F64) events)
    (walks : DescribeWalks Spur) {service : String} (hservice : service ≠ "") :
    let s : Stores Rodeo Spur F64 :=
      (Run.exec Server.step (start : Server Rodeo Spur F64) events).state.toStores
    let described := s.describeService walks service
    ∃ metrics, s.catalog walks.traces (some service) =
        .ok metrics (described.logLabels.map LabelInfo.key) described.spanAttributes ∧
      (metrics = described.metrics.map MetricInfo.name ↔ s.metricStore.NamedOnce service) := by
  intro s described
  have hfits : s.Fits := fits_exec hids
  refine ⟨s.metricStore.catalogMetrics service, ?_, hfits.metrics.invariant.toIndexed
    |> fun h => MetricStore.catalogMetrics_eq_iff h walks.regexNew walks.ids walks.values service⟩
  rw [Stores.catalog, if_neg hservice,
    LogStore.catalogLogLabels_eq hfits.logs.toIndexed walks.regexNew walks.ids walks.values service,
    TraceStore.catalogSpanAttributes_eq
      (fun span hspan attr hattr => (allReadable_exec events span hspan).key attr hattr)]
  rfl

/-- **What the tool says of a log label is what a query finds**, in every reachable state: the first
values, in order, that a query for the service and the label finds something with, and whether there
are more. A label is left out exactly if no query for it finds anything. -/
theorem describe_exact (events : List (Event F64))
    (hids : Run.Along Server.step HasIds (start : Server Rodeo Spur F64) events)
    (walks : DescribeWalks Spur) (service : String) :
    let s : Stores Rodeo Spur F64 :=
      (Run.exec Server.step (start : Server Rodeo Spur F64) events).state.toStores
    let found := fun key value => s.logStore.queryStreams walks.regexNew walks.ids walks.values
      [serviceMatcher service, ⟨key, .eq, value⟩] ≠ []
    let labels := (s.describeService walks service).logLabels
    (labels.map LabelInfo.key).Pairwise (· < ·) ∧
      (∀ key, key ∈ labels.map LabelInfo.key ↔ ∃ value, found key value) ∧
      ∀ info ∈ labels, ∃ values : Finset String, (∀ value, value ∈ values ↔ found info.key value) ∧
        info.values = (values.sort (· ≤ ·)).take maxLabelValues ∧
        (info.truncated = true ↔ maxLabelValues < values.card) := by
  intro s found labels
  have hfits : s.Fits := fits_exec hids
  have hlabels : labels.map LabelInfo.key =
      (s.logStore.valuesByKey walks.regexNew walks.ids walks.values service).keys.sort (· ≤ ·) :=
    LogStore.map_key_describeLogLabels walks.regexNew walks.ids walks.values s.logStore service
  have hrep := LogStore.represents_valuesByKey hfits.logs.toIndexed walks.regexNew walks.ids
    walks.values service
  refine ⟨?_, fun key => ?_, fun info hinfo => ?_⟩
  · rw [hlabels]
    exact (Finset.sortedLT_sort _).pairwise
  · rw [hlabels, Finset.mem_sort, Finmap.mem_keys, hrep.mem_iff]
    exact exists_congr fun value => (hfits.logs.toIndexed.select_pair_ne_nil walks.regexNew
      walks.ids walks.values service key value).symm
  · exact LogStore.exists_values_of_mem hfits.logs.toIndexed walks.regexNew walks.ids walks.values
      service hinfo

section OnePush

/-- The stores after a push of one line. -/
def afterOnePush : Stores VecRodeo ℕ ℤ :=
  (Run.exec Server.step Server.start [.arrive onePush, .stamp 0, .commit 0]).state.toStores

/-- The orders of one walk. -/
noncomputable def someDescribeWalks : DescribeWalks ℕ where
  regexNew _ := none
  ids := .ascending ℕ
  values := .ascending ℕ
  traces := ⟨Finset.toList, Finset.nodup_toList, Finset.mem_toList⟩

theorem catalogs_agree_onePush :
    let described := afterOnePush.describeService someDescribeWalks "a"
    ∃ metrics, afterOnePush.catalog someDescribeWalks.traces (some "a") =
        .ok metrics (described.logLabels.map LabelInfo.key) described.spanAttributes ∧
      (metrics = described.metrics.map MetricInfo.name ↔
        afterOnePush.metricStore.NamedOnce "a") :=
  catalogs_agree [.arrive onePush, .stamp 0, .commit 0] along_hasIds_onePush someDescribeWalks
    (by decide)

theorem describe_exact_onePush :
    let labels := (afterOnePush.describeService someDescribeWalks "a").logLabels
    "service" ∈ labels.map LabelInfo.key ↔ ∃ value,
      afterOnePush.logStore.queryStreams someDescribeWalks.regexNew someDescribeWalks.ids
        someDescribeWalks.values [serviceMatcher "a", ⟨"service", .eq, value⟩] ≠ [] :=
  (describe_exact [.arrive onePush, .stamp 0, .commit 0] along_hasIds_onePush someDescribeWalks
    "a").2.1 "service"

end OnePush

end Server

end Aniani
