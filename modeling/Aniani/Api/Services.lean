import Aniani.ForMathlib.FirstSeen
import Aniani.Mcp.Health

/-!
# What is listed

Several endpoints list the services: `list_services` under each of the two APIs with the signals a
service reports, `status` counts them, and the tools that take a service refuse one that is not
known. They read the sets of label values and the index of services, not the data.

All of them say the same, and they say what the queries find: a service is listed with a signal
exactly if a query for the service finds something of that signal. That is true of every state a
run reaches. It rests on the indexes: a value whose last stream has gone has gone from the sets too.

## Main definitions

* `Stores.listServices`, `Stores.knownServiceNames`, `Stores.serviceCount`,
  `Stores.requireKnownService`
* `Stores.signalsOf` — the signals in which a query finds the service

## Main results

* `Stores.Fits.listServices_eq` — the listing, by what queries find
* `Server.services_listed` — in every reachable state
-/

namespace Aniani

open Interner

/-! ### The values of a label -/

namespace LabelStore

variable {Rodeo Spur α : Type} [LinearOrder Spur] [Interner Rodeo Spur] [Timestamped α]
  {s : LabelStore Rodeo Spur α}

/-- **The values of a label** are those some stream has. -/
theorem Indexed.mem_getLabelValues (h : s.Indexed) (it : IterOrder Spur) (name value : String) :
    value ∈ s.getLabelValues it name ↔
      ∃ id stream, s.streams.lookup id = some stream ∧
        (name, value) ∈ s.resolveLabels stream.labels := by
  have hpair : ∀ {id stream}, s.streams.lookup id = some stream →
      ((name, value) ∈ s.resolveLabels stream.labels ↔ ∃ k v, get s.interner name = some k ∧
        get s.interner value = some v ∧ (k, v) ∈ stream.labels) := by
    intro id stream hst
    rw [resolveLabels, List.mem_map]
    constructor
    · rintro ⟨pair, hmem, heq⟩
      obtain ⟨rfl, rfl⟩ := Prod.mk.inj heq
      obtain ⟨hk, hv⟩ := h.interned hst pair hmem
      exact ⟨pair.1, pair.2, hk.get_resolve, hv.get_resolve, hmem⟩
    · rintro ⟨k, v, hk, hv, hmem⟩
      exact ⟨(k, v), hmem, Prod.ext (resolve_of_get hk) (resolve_of_get hv)⟩
  constructor
  · intro hvalue
    rw [getLabelValues] at hvalue
    cases hk : get s.interner name with
    | none => simp [hk] at hvalue
    | some k =>
      cases hvs : s.labelValues.lookup k with
      | none => simp [hk, hvs] at hvalue
      | some values =>
        simp only [hk, hvs, List.mem_map, it.mem_order] at hvalue
        obtain ⟨v, hv, rfl⟩ := hvalue
        obtain ⟨id, stream, hst, hmem⟩ := (h.labelValues.mem_lookup hvs v).mp hv
        exact ⟨id, stream, hst, (hpair hst).mpr
          ⟨k, v, hk, (h.interned hst _ hmem).2.get_resolve, hmem⟩⟩
  · rintro ⟨id, stream, hst, hmem⟩
    obtain ⟨k, v, hk, hv, hcarries⟩ := (hpair hst).mp hmem
    obtain ⟨values, hvs, hvalue⟩ := (h.labelValues.holds_iff k v).mpr ⟨id, stream, hst, hcarries⟩
    simp only [getLabelValues, hk, hvs, List.mem_map, it.mem_order]
    exact ⟨v, hvalue, resolve_of_get hv⟩

/-- The value of a label is listed exactly if a query for it selects a stream. -/
theorem Indexed.mem_getLabelValues_iff_select (h : s.Indexed)
    (regexNew : String → Option (String → Bool)) (it : IterOrder ℕ)
    (itValues itSpurs : IterOrder Spur) (name value : String) :
    value ∈ s.getLabelValues itSpurs name ↔
      s.select regexNew it itValues [⟨name, .eq, value⟩] ≠ [] := by
  have hcompiles : ∀ m ∈ [(⟨name, .eq, value⟩ : LabelMatcher)], m.Compiles regexNew := fun m hm =>
    List.mem_singleton.mp hm ▸ compiles_of_eq
  rw [h.mem_getLabelValues, Ne, List.eq_nil_iff_forall_not_mem, not_forall_not]
  refine exists_congr fun id => ?_
  rw [h.mem_select it itValues hcompiles id]
  refine exists_congr fun stream => and_congr_right fun _ => ?_
  rw [List.forall_mem_singleton]
  rfl

end LabelStore

/-! ### The services of the spans -/

namespace TraceStore

variable {Rodeo Spur F64 : Type} [LinearOrder Spur] [Interner Rodeo Spur]
  {s : TraceStore Rodeo Spur F64}

/-- **A service is indexed** exactly if a query for it finds a trace. -/
theorem Invariant.mem_serviceNames (h : s.Invariant) (hserv : s.ServicesInterned)
    (itSpurs : IterOrder Spur) (it : IterOrder TraceId) (service : String) :
    service ∈ Mcp.serviceNames itSpurs s ↔ s.tracesForService it service ≠ [] := by
  have hindexed : ∀ spur, spur ∈ s.serviceIndex ↔ ∃ t, ∃ span ∈ spansOf s.traces t,
      span.serviceName = spur := fun spur => (h.index SpanIndex.service).mem_iff spur
  rw [Mcp.serviceNames, List.mem_map, Ne, List.eq_nil_iff_forall_not_mem, not_forall_not]
  simp only [IterOrder.mem_keys, mem_tracesForService h hserv, hindexed]
  constructor
  · rintro ⟨spur, ⟨t, span, hspan, rfl⟩, rfl⟩
    exact ⟨t, span, hspan, rfl⟩
  · rintro ⟨t, span, hspan, hservice⟩
    exact ⟨span.serviceName, ⟨t, span, hspan, rfl⟩, hservice⟩

end TraceStore

/-! ### The listings -/

/-- The orders the listings walk sets in. -/
structure ListingWalks (Spur : Type) where
  spurs : IterOrder Spur
  names : IterOrder String

/-- What a service reports. -/
structure ListedService where
  name : String
  signals : List String
  deriving DecidableEq

/-- The texts of a set, sorted. -/
abbrev sortedSet (texts : FxHashSet String) : List String := texts.sort (· ≤ ·)

namespace Stores

variable {Rodeo Spur F64 : Type} [LinearOrder Spur] [Interner Rodeo Spur]

/-- The services of each signal, in the order they are read in. -/
def reported (it : IterOrder Spur) (s : Stores Rodeo Spur F64) : List (String × String) :=
  ((s.logStore.getLabelValues it "service").map fun name => (name, "logs")) ++
    ((s.metricStore.getLabelValues it "service").map fun name => (name, "metrics")) ++
      (Mcp.serviceNames it s.traceStore).map fun name => (name, "traces")

/-- `service_signals`. -/
def serviceSignals (it : IterOrder Spur) (s : Stores Rodeo Spur F64) :
    FxHashMap String (FxHashSet String) :=
  InvertedIndex.addAll (∅ : FxHashMap String (FxHashSet String)) (s.reported it)

/-- `list_services`, of the API and of the tools. -/
def listServices (walks : ListingWalks Spur) (s : Stores Rodeo Spur F64) : List ListedService :=
  let signals := s.serviceSignals walks.spurs
  ((walks.names.keys signals).map fun name =>
    ⟨name, sortedSet ((signals.lookup name).getD ∅)⟩).sortByKey ListedService.name

/-- `known_services`. -/
def knownServiceNames (it : IterOrder Spur) (s : Stores Rodeo Spur F64) : List String :=
  sortedSet (Mcp.knownServices it s)

/-- `serviceCount` of `status`. -/
def serviceCount (it : IterOrder Spur) (s : Stores Rodeo Spur F64) : ℕ :=
  (Mcp.knownServices it s).card

/-- `require_known_service`: why a tool refuses a service. -/
def requireKnownService (it : IterOrder Spur) (s : Stores Rodeo Spur F64) (service : String) :
    Option String :=
  if service = "" then some "`service` must not be empty"
  else
    let known := s.knownServiceNames it
    if service ∈ known then none
    else some ("unknown service \"" ++ service ++ "\". Known services: " ++
      if known = [] then "none yet" else ", ".intercalate known)

/-- The signals in which a query for the service finds something. -/
def signalsOf (regexNew : String → Option (String → Bool)) (it : IterOrder ℕ)
    (itValues : IterOrder Spur) (itTraces : IterOrder TraceId) (s : Stores Rodeo Spur F64)
    (service : String) : List String :=
  (if s.logStore.queryStreams regexNew it itValues [serviceMatcher service] = [] then []
    else ["logs"]) ++
  ((if s.metricStore.selectSeries regexNew it itValues [serviceMatcher service] = [] then []
    else ["metrics"]) ++
  (if s.traceStore.tracesForService itTraces service = [] then [] else ["traces"]))

theorem represents_serviceSignals (it : IterOrder Spur) (s : Stores Rodeo Spur F64) :
    InvertedIndex.Represents (s.serviceSignals it) fun name signal =>
      (name, signal) ∈ s.reported it :=
  (InvertedIndex.represents_empty.addAll (s.reported it)).congr fun _ _ =>
    iff_of_eq (or_false _)

theorem mem_knownServices (it : IterOrder Spur) (s : Stores Rodeo Spur F64) (name : String) :
    name ∈ Mcp.knownServices it s ↔ ∃ signal, (name, signal) ∈ s.reported it := by
  simp only [Mcp.knownServices, List.mem_toFinset, reported, List.mem_append, List.mem_map,
    Prod.mk.injEq]
  constructor
  · rintro ((h | h) | h)
    · exact ⟨"logs", .inl (.inl ⟨name, h, rfl, rfl⟩)⟩
    · exact ⟨"traces", .inr ⟨name, h, rfl, rfl⟩⟩
    · exact ⟨"metrics", .inl (.inr ⟨name, h, rfl, rfl⟩)⟩
  · rintro ⟨signal, (⟨_, h, rfl, -⟩ | ⟨_, h, rfl, -⟩) | ⟨_, h, rfl, -⟩⟩
    · exact .inl (.inl h)
    · exact .inr h
    · exact .inl (.inr h)

section Listed

variable {s : Stores Rodeo Spur F64} (regexNew : String → Option (String → Bool))
  (it : IterOrder ℕ) (itValues itSpurs : IterOrder Spur) (itTraces : IterOrder TraceId)

theorem mem_ite_nil {α : Type} {l : List α} {x y : String} :
    x ∈ (if l = [] then [] else [y]) ↔ l ≠ [] ∧ x = y := by
  split <;> simp [*]

/-- A signal reports a service exactly if a query finds the service there. -/
theorem Fits.mem_reported (h : s.Fits) (name signal : String) :
    (name, signal) ∈ s.reported itSpurs ↔
      signal ∈ s.signalsOf regexNew it itValues itTraces name := by
  have hlogs := h.logs.toIndexed.mem_getLabelValues_iff_select regexNew it itValues itSpurs
    "service" name
  have hmetrics := h.metrics.invariant.toIndexed.mem_getLabelValues_iff_select regexNew it itValues
    itSpurs "service" name
  have htraces := h.traces.mem_serviceNames h.services itSpurs itTraces name
  have hmap : ∀ (names : List String) (y : String),
      (name, signal) ∈ names.map (fun name => (name, y)) ↔ name ∈ names ∧ signal = y := by
    intro names y
    simp [eq_comm]
  rw [reported, signalsOf, List.mem_append, List.mem_append, List.mem_append, List.mem_append,
    hmap, hmap, hmap, mem_ite_nil, mem_ite_nil, mem_ite_nil, hlogs, hmetrics, htraces, or_assoc]
  rfl

theorem signalsOf_sublist (s : Stores Rodeo Spur F64) (service : String) :
    (s.signalsOf regexNew it itValues itTraces service).Sublist ["logs", "metrics", "traces"] := by
  have hpart : ∀ {α : Type} (l : List α) (y : String),
      (if l = [] then [] else [y] : List String).Sublist [y] := by
    intro α l y
    split
    · exact List.nil_sublist _
    · exact List.Sublist.refl _
  exact (hpart _ _).append ((hpart _ _).append (hpart _ _))

/-- **A service is known exactly if a query for it finds something.** -/
theorem Fits.mem_knownServices_iff (h : s.Fits) (name : String) :
    name ∈ Mcp.knownServices itSpurs s ↔ s.signalsOf regexNew it itValues itTraces name ≠ [] := by
  rw [mem_knownServices, Ne, List.eq_nil_iff_forall_not_mem, not_forall_not]
  exact exists_congr fun signal => h.mem_reported regexNew it itValues itSpurs itTraces name signal

/-- **The listing**, by what queries find. -/
theorem Fits.listServices_eq (h : s.Fits) (walks : ListingWalks Spur) :
    s.listServices walks = (s.knownServiceNames walks.spurs).map fun name =>
      ⟨name, s.signalsOf regexNew it itValues itTraces name⟩ := by
  have hrep := represents_serviceSignals walks.spurs s
  have hsignals : ∀ name, (((s.serviceSignals walks.spurs).lookup name).getD ∅).sort (· ≤ ·) =
      s.signalsOf regexNew it itValues itTraces name := by
    intro name
    have hsub := signalsOf_sublist regexNew it itValues itTraces s name
    have hnodup := hsub.nodup (by decide : ["logs", "metrics", "traces"].Nodup)
    have hsorted := (by decide : ["logs", "metrics", "traces"].Pairwise (· ≤ ·)).sublist hsub
    rw [← (List.toFinset_sort (· ≤ ·) hnodup).mpr hsorted]
    congr 1
    ext signal
    rw [List.mem_toFinset, ← h.mem_reported regexNew it itValues walks.spurs itTraces,
      ← hrep.holds_iff]
    cases hlook : (s.serviceSignals walks.spurs).lookup name with
    | none => simp [InvertedIndex.Holds, hlook]
    | some signals => simp [InvertedIndex.Holds, hlook]
  have hnames : (walks.names.keys (s.serviceSignals walks.spurs)).toFinset =
      Mcp.knownServices walks.spurs s := by
    ext name
    rw [List.mem_toFinset, IterOrder.mem_keys, hrep.mem_iff, mem_knownServices]
  rw [listServices, knownServiceNames, ← hnames, sortedSet,
    ← List.sortByKey_id_eq_sort (walks.names.nodup_keys _), List.sortByKey_map]
  exact List.map_congr_left fun name _ => congrArg (ListedService.mk name) (hsignals name)

end Listed

end Stores

namespace Server

variable {Rodeo Spur F64 : Type} [LinearOrder Spur] [Interner Rodeo Spur] [FloatOps F64]
  [SerdeJson F64]

/-- **What is listed is what queries find**, in every reachable state: each service once, in order,
with the signals in which a query for it finds something. The count of services is the length of the
list. A tool takes the services listed that have a name, and where it refuses another it says which
those listed are. -/
theorem services_listed (events : List (Event F64))
    (hids : Run.Along Server.step HasIds (start : Server Rodeo Spur F64) events)
    (regexNew : String → Option (String → Bool)) (it : IterOrder ℕ) (itValues : IterOrder Spur)
    (itTraces : IterOrder TraceId) (walks : ListingWalks Spur) :
    let s : Stores Rodeo Spur F64 :=
      (Run.exec Server.step (start : Server Rodeo Spur F64) events).state.toStores
    let signalsOf := s.signalsOf regexNew it itValues itTraces
    let listed := s.listServices walks
    (listed.map ListedService.name).Pairwise (· < ·) ∧
      (∀ service, service ∈ listed ↔
        service.signals = signalsOf service.name ∧ service.signals ≠ []) ∧
      s.serviceCount walks.spurs = listed.length ∧
      ∀ name, s.requireKnownService walks.spurs name =
        if name = "" then some "`service` must not be empty"
        else if name ∈ listed.map ListedService.name then none
        else some ("unknown service \"" ++ name ++ "\". Known services: " ++
          if listed = [] then "none yet"
          else ", ".intercalate (listed.map ListedService.name)) := by
  intro s signalsOf listed
  have hfits : s.Fits := fits_exec hids
  have hlisted : listed = (s.knownServiceNames walks.spurs).map fun name =>
      ⟨name, signalsOf name⟩ := hfits.listServices_eq regexNew it itValues itTraces walks
  have hnames : listed.map ListedService.name = s.knownServiceNames walks.spurs := by
    rw [hlisted, List.map_map]
    exact List.map_id _
  have hknown : ∀ name, name ∈ s.knownServiceNames walks.spurs ↔ signalsOf name ≠ [] :=
    fun name => (Finset.mem_sort _).trans
      (hfits.mem_knownServices_iff regexNew it itValues walks.spurs itTraces name)
  refine ⟨?_, fun service => ?_, ?_, fun name => ?_⟩
  · rw [hnames]
    exact (Finset.sortedLT_sort _).pairwise
  · rw [hlisted, List.mem_map]
    constructor
    · rintro ⟨name, hname, rfl⟩
      exact ⟨rfl, (hknown name).mp hname⟩
    · rintro ⟨heq, hne⟩
      refine ⟨service.name, (hknown service.name).mpr (heq ▸ hne), ?_⟩
      rw [← heq]
  · rw [hlisted, List.length_map]
    exact (Finset.length_sort _).symm
  · have hempty : listed = [] ↔ s.knownServiceNames walks.spurs = [] := by
      rw [← hnames, List.map_eq_nil_iff]
    rw [Stores.requireKnownService, hnames]
    simp only [hempty]

/-- The count of services after a push of one line of service `a`, and the refusal of another. -/
theorem services_listed_onePush :
    let s : Stores VecRodeo ℕ ℤ := (Run.exec Server.step Server.start
      [.arrive onePush, .stamp 0, .commit 0]).state.toStores
    s.serviceCount (IterOrder.ascending ℕ) =
        (s.listServices ⟨IterOrder.ascending ℕ, IterOrder.ascending String⟩).length ∧
      s.requireKnownService (IterOrder.ascending ℕ) "b" =
        some "unknown service \"b\". Known services: a" := by
  obtain ⟨-, -, hcount, hgate⟩ := services_listed [.arrive onePush, .stamp 0, .commit 0]
    along_hasIds_onePush (fun _ => none) (IterOrder.ascending ℕ) (IterOrder.ascending ℕ)
    ⟨Finset.toList, Finset.nodup_toList, Finset.mem_toList⟩
    ⟨IterOrder.ascending ℕ, IterOrder.ascending String⟩
  exact ⟨hcount, (hgate "b").trans (by decide +kernel)⟩

end Server

end Aniani
