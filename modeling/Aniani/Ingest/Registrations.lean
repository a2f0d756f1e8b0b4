import Aniani.ForMathlib.Run
import Aniani.Ingest.Commit

/-!
# How long a name stays registered

A registration should last as long as there is a series of the name: after that, another source name
may take the visible name. `clear` and `clear_service` see to it. `evict_before` and `evict_to_max`
prune the metadata and leave the registrations alone, so a name whose last series they evict stays
taken.

## Main definitions

* `MetricStore.NamesLive` — every registered name is the name of a series
* `MetricStore.ReleasesNames` — and so every other name is free
* `MetricStore.KeepsNames` — an eviction takes no last series of a registered name

## Main results

* `releasesNames_iff_keepsNames` — along every run of accepted requests and evictions
* `evictBefore_keeps_registration` — a name that stays taken
-/

namespace Aniani

open Interner

namespace MetricStore

variable {Rodeo Spur F64 : Type} [LinearOrder Spur] [Interner Rodeo Spur]

/-- Every registered name is the name of a series in the store. -/
def NamesLive (s : MetricStore Rodeo Spur F64) : Prop :=
  ∀ k ∈ s.normalizedNameSources, ∃ id, s.HasName (resolve s.interner k) id

/-- Every registered name is the name of a series, and a name without a series can be registered
for any source. -/
def ReleasesNames (s : MetricStore Rodeo Spur F64) : Prop :=
  s.NamesLive ∧ ∀ name, (∀ id, ¬ s.HasName name id) → ∀ sourceName,
    s.checkMetricNameCollision name sourceName = .ok () ∧
      (s.registerMetricName name sourceName).2 = .ok ()

omit [LinearOrder Spur] in
theorem namesLive_new : (new : MetricStore Rodeo Spur F64).NamesLive := by
  intro k hk
  exact absurd hk Finmap.notMem_empty

/-- The same in terms of the table on strings. -/
theorem namesLive_iff {s : MetricStore Rodeo Spur F64} (h : s.NamesInterned) :
    s.NamesLive ↔ ∀ name, s.sourceOf name ≠ none → ∃ id, s.HasName name id := by
  simp only [Option.ne_none_iff_exists', sourceOf_eq_some_iff]
  constructor
  · rintro hlive name ⟨source, k, v, hk, hv, -⟩
    rw [← resolve_of_get hk]
    exact hlive k (Finmap.mem_of_lookup_eq_some hv)
  · intro hlive k hk
    obtain ⟨v, hv⟩ := Finmap.mem_iff.mp hk
    exact hlive _ ⟨_, k, v, (h.sources hv).1.get_resolve, hv, rfl⟩

/-- If every registered name is live, the other names are free. -/
theorem releasesNames_iff {s : MetricStore Rodeo Spur F64} (h : s.NamesInterned) :
    s.ReleasesNames ↔ s.NamesLive := by
  refine and_iff_left_of_imp fun hlive name hnone sourceName => ?_
  have hfree : s.sourceOf name = none := by
    by_contra hof
    obtain ⟨id, hid⟩ := (namesLive_iff h).mp hlive name hof
    exact hnone id hid
  have hadmits : s.Admits name sourceName := by
    intro source hsource
    simp [hfree] at hsource
  exact ⟨(s.checkMetricNameCollision_eq_ok_iff _ _).mpr hadmits,
    (registerMetricName_eq_ok_iff h _ _).mpr hadmits⟩

/-! ### One event -/

theorem evictBefore_registrations (it : IterOrder ℕ) (s : MetricStore Rodeo Spur F64)
    (cutoffMs : ℤ) :
    (s.evictBefore it cutoffMs).normalizedNameSources = s.normalizedNameSources ∧
      (s.evictBefore it cutoffMs).interner = s.interner := by
  refine ⟨?_, ?_⟩
  · rw [evictBefore, pruneOrphanedMetadata]
    split <;> rfl
  · rw [toLabelStore_evictBefore]
    exact (s.toLabelStore.evictBefore_frame it cutoffMs).1

theorem evictToMax_registrations (it : IterOrder ℕ) (s : MetricStore Rodeo Spur F64)
    (maxSeries : ℕ) :
    (s.evictToMax it maxSeries).normalizedNameSources = s.normalizedNameSources ∧
      (s.evictToMax it maxSeries).interner = s.interner := by
  refine ⟨?_, ?_⟩
  · rw [evictToMax, pruneOrphanedMetadata]
    split
    · rfl
    · split <;> rfl
  · rw [toLabelStore_evictToMax]
    exact s.toLabelStore.foldl_dropStream_interner _

/-- `clear_service` prunes the registrations by the names that are left. -/
theorem NamesLive.pruneNames {s : MetricStore Rodeo Spur F64} (h : s.Sound) (it : IterOrder ℕ)
    (hnames : s.normalizedNameSources = ∅ ∨ ∃ nameKey, get s.interner "__name__" = some nameKey) :
    (s.pruneNames it).NamesLive := by
  intro k hk
  rw [MetricStore.pruneNames] at hk ⊢
  cases hkey : get s.interner "__name__" with
  | none =>
    rw [hkey] at hk
    rcases hnames with hempty | ⟨nameKey, hsome⟩
    · exact absurd (hempty ▸ hk) Finmap.notMem_empty
    · simp [hkey] at hsome
  | some nameKey =>
    rw [hkey] at hk
    obtain ⟨v, -, hsurvives⟩ := Finmap.mem_retain.mp hk
    obtain ⟨id, series, hst, hname⟩ := mem_surviving.mp (of_decide_eq_true hsurvives)
    exact ⟨id, hasName_of_nameOf h hkey hst hname⟩

theorem NamesLive.clearService {s : MetricStore Rodeo Spur F64} (h : s.Sound)
    (hlive : s.NamesLive) (it : IterOrder ℕ) (service : String) :
    (s.clearService it service).NamesLive := by
  rw [MetricStore.clearService]
  split
  · exact hlive
  · next ids _ =>
    have hinterner := s.toLabelStore.foldl_dropStream_interner ids
    refine NamesLive.pruneNames ⟨h.invariant.foldl_dropStream ids, h.interned.setLabelStore ?_⟩ it ?_
    · rw [hinterner]
      exact Extends.refl _
    · -- a registered name has a series, and with it the label `__name__`
      by_cases hempty : s.normalizedNameSources = ∅
      · exact .inl hempty
      · refine .inr ?_
        obtain ⟨k, hk⟩ : ∃ k, k ∈ s.normalizedNameSources := by
          by_contra hno
          push Not at hno
          refine hempty (Finmap.ext_lookup fun k => ?_)
          rw [Finmap.lookup_eq_none.mpr (hno k), Finmap.lookup_empty]
        obtain ⟨id, hid⟩ := hlive k hk
        show ∃ nameKey, get (ids.foldl LabelStore.dropStream s.toLabelStore).interner _ = _
        rw [hinterner]
        exact hid.get_nameKey h

variable [Float64 F64]

/-- An eviction leaves every registered name a series. -/
def KeepsNames (s : MetricStore Rodeo Spur F64) : MetricsEvent F64 → Prop
  | .evictBefore it cutoffMs => ∀ k ∈ s.normalizedNameSources, ∃ id,
    s.HasName (resolve s.interner k) id ∧ s.Survives (.evictBefore it cutoffMs) id
  | .evictToMax it maxSeries => ∀ k ∈ s.normalizedNameSources, ∃ id,
    s.HasName (resolve s.interner k) id ∧ s.Survives (.evictToMax it maxSeries) id
  | .otlp _ _ | .remoteWrite _ _ | .clear | .clearService _ _ => True

/-- **An accepted request keeps the registered names live.** -/
theorem NamesLive.handle_of_accepts {s : MetricStore Rodeo Spur F64} (h : s.Sound)
    (hlive : s.NamesLive) {e : MetricsEvent F64}
    {batch : List (PreparedItem F64) × List PreparedMeta} (hb : e.batch? = some batch)
    (hacc : s.accepts e = true) (hids : s.HasIds e) : (s.handle e).NamesLive := by
  have hc := commits_handle h hb hids
  obtain ⟨heq, hok⟩ := MetricStore.handle_of_accepts hb hacc
  have hreg := commits_registerItems h batch.1
  have hnext : (s.registerItems batch.1).1.nextStreamId = s.nextStreamId := by
    rw [(onlyRegisters_registerItems h.interned batch.1).toLabelStore]
  obtain ⟨hingest, hitems⟩ :=
    commits_ingestItems hreg.sound (by rw [hnext]; exact hids batch hb)
  have hmetas := commits_registerMetas hingest.sound batch.2
  -- the table is the one the second loop left
  have hof : (s.handle e).sourceOf = (s.registerItems batch.1).1.sourceOf := by
    refine hreg.sound.interned.sourceOf_congr ?_ ?_
    · rw [heq]
      exact (hingest.trans hmetas).grows.interner
    · rw [heq, registerMetas_normalizedNameSources, (ingestItems_tables _ _).1]
  refine (namesLive_iff hc.sound.interned).mpr fun name hname => ?_
  rw [hof, sourceOf_registerItems h.interned hok] at hname
  rcases hname with hold | ⟨item, hitem, rfl⟩
  · obtain ⟨id, hid⟩ := (namesLive_iff h.interned).mp hlive name hold
    exact ⟨id, hid.commits h hc⟩
  · obtain ⟨id, hid⟩ := hitems item hitem
    rw [heq]
    exact ⟨id, hid.commits hingest.sound hmetas⟩

/-- **One event**: it keeps the registered names live exactly when it is no eviction that takes the
last series of one. -/
theorem namesLive_handle_iff {s : MetricStore Rodeo Spur F64} (h : s.Sound) (hlive : s.NamesLive)
    {e : MetricsEvent F64} (hacc : s.accepts e = true) (hids : s.HasIds e) :
    (s.handle e).NamesLive ↔ s.KeepsNames e := by
  cases e with
  | otlp seqs request =>
    exact iff_of_true (hlive.handle_of_accepts h rfl hacc hids) trivial
  | remoteWrite seqs request =>
    exact iff_of_true (hlive.handle_of_accepts h rfl hacc hids) trivial
  | evictBefore it cutoffMs =>
    obtain ⟨hsources, hinterner⟩ := s.evictBefore_registrations it cutoffMs
    rw [KeepsNames, NamesLive]
    simp only [hasName_handle_iff h (e := .evictBefore it cutoffMs) rfl]
    rw [handle, hsources, hinterner]
  | evictToMax it maxSeries =>
    obtain ⟨hsources, hinterner⟩ := s.evictToMax_registrations it maxSeries
    rw [KeepsNames, NamesLive]
    simp only [hasName_handle_iff h (e := .evictToMax it maxSeries) rfl]
    rw [handle, hsources, hinterner]
  | clear => exact iff_of_true namesLive_new trivial
  | clearService it service => exact iff_of_true (hlive.clearService h it service) trivial

end MetricStore

/-! ### Runs -/

section Runs

open MetricStore

variable {Rodeo Spur F64 : Type} [LinearOrder Spur] [Interner Rodeo Spur] [Float64 F64]

/-- **Names are released exactly as long as no eviction takes the last series of one**, along every
run of accepted requests and evictions that does not run out of ids. -/
theorem releasesNames_iff_keepsNames {events : List (MetricsEvent F64)}
    (hok : Run.Along handle (fun s e => s.accepts e = true ∧ s.HasIds e)
      (new : MetricStore Rodeo Spur F64) events) :
    Run.Along handle (fun s e => (s.handle e).ReleasesNames)
        (new : MetricStore Rodeo Spur F64) events ↔
      Run.Along handle KeepsNames (new : MetricStore Rodeo Spur F64) events := by
  refine Run.along_iff_along (P := fun s : MetricStore Rodeo Spur F64 => s.Sound ∧ s.NamesLive)
    ?_ ?_ ⟨sound_new, namesLive_new⟩ hok
  · rintro s e ⟨hacc, hids⟩ ⟨h, hlive⟩
    rw [releasesNames_iff (sound_handle h hids).interned]
    exact namesLive_handle_iff h hlive hacc hids
  · rintro s e ⟨hacc, hids⟩ hkeeps ⟨h, hlive⟩
    exact ⟨sound_handle h hids, (namesLive_handle_iff h hlive hacc hids).mpr hkeeps⟩

/-- A gauge with one point, at five milliseconds. -/
def gaugeRequest (name : String) : ExportMetricsServiceRequest ℤ :=
  [⟨none, [[⟨name, "", "", some (.gauge [⟨[], 5000000, some (.asInt 1)⟩])⟩]]⟩]

/-- An eviction that is too early to take the gauge. -/
theorem releasesNames_iff_keepsNames_gauge :
    Run.Along handle (fun s e => (s.handle e).ReleasesNames) (new : MetricStore VecRodeo ℕ ℤ)
      [.otlp id (gaugeRequest "a.b"), .evictBefore (IterOrder.ascending ℕ) 0] := by
  refine (releasesNames_iff_keepsNames ?_).mpr ?_
  · refine ⟨⟨rfl, fun batch hb => ?_⟩, ⟨rfl, fun batch hb => ?_⟩, trivial⟩
    · obtain rfl := Option.some.inj hb
      show _ ≤ u64Max
      decide
    · simp [MetricsEvent.batch?] at hb
  · refine ⟨trivial, fun k hk => ?_, trivial⟩
    have hk : k ∈ ((∅ : FxHashMap ℕ ℕ).insert 0 1) := hk
    rw [Finmap.mem_insert] at hk
    rcases hk with rfl | hk
    · exact ⟨0, ⟨[("__name__", "a_b")], rfl, .head _⟩, ⟨[(2, 0)], [⟨5, 1, 0⟩]⟩, rfl, ⟨5, 1, 0⟩,
        .head _, by decide⟩
    · exact absurd hk Finmap.notMem_empty

/-- The gauge `a.b` is evicted, and the gauge `a_b` still collides with it. -/
theorem evictBefore_keeps_registration :
    let s := Run.exec handle (new : MetricStore VecRodeo ℕ ℤ)
      [.otlp id (gaugeRequest "a.b"), .evictBefore (IterOrder.ascending ℕ) 10]
    (new : MetricStore VecRodeo ℕ ℤ).accepts (.otlp id (gaugeRequest "a.b")) = true ∧
      (∀ id, ¬ s.HasName "a_b" id) ∧ ¬ s.NamesLive ∧
        s.checkMetricNameCollision "a_b" "a_b" =
          .error (.metricNameCollision "a_b" "a.b" "a_b") := by
  intro s
  have hnone : ∀ id, ¬ s.HasName "a_b" id := by
    rintro id ⟨labels, hl, -⟩
    obtain ⟨series, hst, -⟩ := Option.map_eq_some_iff.mp hl
    have hst : (∅ : FxHashMap ℕ (Stream ℕ (Sample ℤ))).lookup id = some series := hst
    simp at hst
  refine ⟨rfl, hnone, fun hlive => ?_, rfl⟩
  have hk : 0 ∈ s.normalizedNameSources :=
    Finmap.mem_of_lookup_eq_some (show s.normalizedNameSources.lookup 0 = some 1 from rfl)
  obtain ⟨id, hid⟩ := hlive 0 hk
  exact hnone id hid

end Runs

end Aniani
