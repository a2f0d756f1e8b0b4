import Aniani.Ingest.Names

/-!
# Rejected requests

A request that collides is rejected before anything of it is stored, if the collision is with a
name the store already had: the first loop of the commit finds it. A collision of two items of the
same request passes the first loop, since neither name is registered yet, and stops the second one
half way. By then the names in front of it are registered.

In a remote-write request a name is its own source, so there the second loop never stops.

## Main definitions

* `MetricStore.SameData` — nothing but the interner changed
* `MetricStore.RejectsCleanly` — of the outcome of a request

## Main results

* `rejectsCleanly_ingestMetrics_remoteWrite` — exactly when a rejected request leaves the store
* `ingestMetrics_registers_and_rejects` — a request that is rejected half way
-/

namespace Aniani

/-- No two items have the same visible name and different source names. -/
def SingleSourced {F64 : Type} (items : List (MetricItem F64)) : Prop :=
  ∀ a ∈ items, ∀ b ∈ items, a.name = b.name → a.sourceName = b.sourceName

/-- Numbering the samples does not touch the names. -/
theorem forall_mem_numberItems {F64 : Type} {P : String → String → Prop} {seqs : ℕ → ℕ} {n : ℕ}
    {items : List (MetricItem F64)} :
    (∀ item ∈ numberItems seqs n items, P item.name item.sourceName) ↔
      ∀ item ∈ items, P item.name item.sourceName := by
  induction items generalizing n with
  | nil => simp [numberItems]
  | cons item items ih => rw [numberItems, List.forall_mem_cons, List.forall_mem_cons, ih]

namespace MetricStore

variable {Rodeo Spur F64 : Type} [LinearOrder Spur] [Interner Rodeo Spur]

theorem oneSource_numberItems {seqs : ℕ → ℕ} {items : List (MetricItem F64)} :
    OneSource (numberItems seqs 0 items) ↔ SingleSourced items := by
  refine Iff.trans (forall_mem_numberItems (P := fun name source =>
    ∀ b ∈ numberItems seqs 0 items, name = b.name → source = b.sourceName)) ?_
  exact forall₂_congr fun a _ => forall_mem_numberItems (P := fun name source =>
    a.name = name → a.sourceName = source)

/-! ### One store and the next -/

/-- The data of the two stores are the same. -/
structure SameData (s s' : MetricStore Rodeo Spur F64) : Prop where
  streams : s'.streams = s.streams
  labelIndex : s'.labelIndex = s.labelIndex
  labelValues : s'.labelValues = s.labelValues
  total : s'.total = s.total
  streamIds : s'.streamIds = s.streamIds
  nextStreamId : s'.nextStreamId = s.nextStreamId
  normalizedNameSources : s'.normalizedNameSources = s.normalizedNameSources
  metricMetadata : s'.metricMetadata = s.metricMetadata

/-- If the outcome is an error, the data are those of `s`. -/
def RejectsCleanly {α : Type} (s : MetricStore Rodeo Spur F64)
    (outcome : MetricStore Rodeo Spur F64 × Except MetricStoreError α) : Prop :=
  ∀ e, outcome.2 = .error e → s.SameData outcome.1

omit [LinearOrder Spur] [Interner Rodeo Spur] in
theorem SameData.refl (s : MetricStore Rodeo Spur F64) : s.SameData s :=
  ⟨rfl, rfl, rfl, rfl, rfl, rfl, rfl, rfl⟩

/-- A batch that stops while registering has changed the table. -/
theorem not_sameData_of_registerItems {s : MetricStore Rodeo Spur F64} (h : s.NamesInterned)
    {items : List (PreparedItem F64)}
    (hadmits : ∀ item ∈ items, s.Admits item.name item.sourceName)
    (herr : (s.registerItems items).2 ≠ .ok ()) : ¬ s.SameData (s.registerItems items).1 := by
  intro hsame
  obtain ⟨item, hitem, hnot⟩ := not_admits_of_registerItems h herr
  have hof := h.sourceOf_congr (onlyRegisters_registerItems h items).interner
    hsame.normalizedNameSources
  rw [Admits, hof] at hnot
  exact hnot (hadmits item hitem)

/-- **A commit rejects cleanly** exactly when the first loop rejects it or the second cannot. -/
theorem rejectsCleanly_commitItems_iff {s : MetricStore Rodeo Spur F64} (h : s.NamesInterned)
    (items : List (PreparedItem F64)) (metas : List PreparedMeta) :
    s.RejectsCleanly (s.commitItems items metas) ↔
      (∃ item ∈ items, ¬ s.Admits item.name item.sourceName) ∨ OneSource items := by
  by_cases hadmits : ∀ item ∈ items, s.Admits item.name item.sourceName
  · have hcheck := (s.checkItems_eq_ok_iff items).mpr hadmits
    have hno : ¬ ∃ item ∈ items, ¬ s.Admits item.name item.sourceName := by
      rintro ⟨item, hitem, hnot⟩
      exact hnot (hadmits item hitem)
    have hreg := registerItems_eq_ok_iff h items
    have hdirty := not_sameData_of_registerItems h hadmits
    rw [or_iff_right hno, RejectsCleanly, commitItems, hcheck]
    dsimp only
    split
    · next s' e heq =>
      rw [heq] at hreg hdirty
      have hone : ¬ OneSource items := fun hone => by simpa using hreg.mpr ⟨hadmits, hone⟩
      refine ⟨fun hclean => absurd (hclean e rfl) (hdirty (by simp)), fun h' => absurd h' hone⟩
    · next s' heq =>
      rw [heq] at hreg
      exact ⟨fun _ => (hreg.mp rfl).2, fun _ e he => by simp at he⟩
  · have hcheck := (s.checkItems_eq_ok_iff items).not.mpr hadmits
    push Not at hadmits
    refine ⟨fun _ => .inl hadmits, fun _ => ?_⟩
    rw [RejectsCleanly, commitItems]
    cases hc : s.checkItems items with
    | error e => exact fun _ _ => SameData.refl s
    | ok _ => exact absurd hc hcheck

/-! ### Requests -/

theorem rejectsCleanly_ingestMetrics_iff [Float64 F64] {s : MetricStore Rodeo Spur F64}
    (h : s.NamesInterned) (seqs : ℕ → ℕ) (request : ExportMetricsServiceRequest F64) :
    s.RejectsCleanly (s.ingestMetrics seqs request) ↔
      (∃ item ∈ requestItems request,
        s.checkMetricNameCollision item.name item.sourceName ≠ .ok ()) ∨
      SingleSourced (requestItems request) := by
  have hmap : s.RejectsCleanly (s.ingestMetrics seqs request) ↔ s.RejectsCleanly
      (s.commitItems (numberItems seqs 0 (requestItems request)) (requestMeta request)) := by
    rw [RejectsCleanly, RejectsCleanly, ingestMetrics]
    dsimp only
    refine forall_congr' fun e => imp_congr_left ?_
    cases (s.commitItems (numberItems seqs 0 (requestItems request)) (requestMeta request)).2 <;>
      simp [Except.map]
  rw [hmap, rejectsCleanly_commitItems_iff h, oneSource_numberItems]
  refine or_congr_left (not_iff_not.mp ?_)
  push Not
  simp only [checkMetricNameCollision_eq_ok_iff]
  exact forall_mem_numberItems

/-- In a remote-write request every name has one source, itself. -/
theorem singleSourced_remoteItems (request : WriteRequest F64) :
    SingleSourced (remoteItems request) := by
  have hself : ∀ item ∈ remoteItems request, item.sourceName = item.name := by
    intro item hitem
    obtain ⟨ts, -, hts⟩ := List.mem_filterMap.mp hitem
    split at hts
    · simp at hts
    · rw [← Option.some.inj hts]
  intro a ha b hb hname
  rw [hself a ha, hself b hb, hname]

end MetricStore

section Reachable

variable {Rodeo Spur F64 : Type} [LinearOrder Spur] [Interner Rodeo Spur] [Float64 F64]

/-- **Exactly when a rejected request leaves the data of a reachable store as they were.** An OTLP
request does when a name of it collides with a registered one, or no two names of it collide with
each other; a remote-write request always does. -/
theorem rejectsCleanly_ingestMetrics_remoteWrite (ops : List (MetricOp F64)) :
    let s := Run.exec MetricStore.apply (MetricStore.new : MetricStore Rodeo Spur F64) ops
    (∀ seqs request, s.RejectsCleanly (s.ingestMetrics seqs request) ↔
      (∃ item ∈ requestItems request,
        s.checkMetricNameCollision item.name item.sourceName ≠ .ok ()) ∨
      SingleSourced (requestItems request)) ∧
    ∀ seqs request, s.RejectsCleanly (s.remoteWrite seqs request) := by
  intro s
  have h : s.NamesInterned := MetricStore.namesInterned_exec MetricStore.namesInterned_new ops
  refine ⟨MetricStore.rejectsCleanly_ingestMetrics_iff h, fun seqs request => ?_⟩
  refine (MetricStore.rejectsCleanly_commitItems_iff h _ _).mpr (.inr ?_)
  exact MetricStore.oneSource_numberItems.mpr (MetricStore.singleSourced_remoteItems request)

/-- Two gauges that differ in a dot. -/
def collidingRequest : ExportMetricsServiceRequest ℤ :=
  [⟨none, [[⟨"a.b", "", "", some (.gauge [⟨[], 0, some (.asInt 1)⟩])⟩,
    ⟨"a_b", "", "", some (.gauge [⟨[], 0, some (.asInt 2)⟩])⟩]]⟩]

/-- The empty store rejects the request and keeps the registration of its first metric. -/
theorem ingestMetrics_registers_and_rejects :
    let s : MetricStore VecRodeo ℕ ℤ := MetricStore.new
    (s.ingestMetrics id collidingRequest).2 = .error (.metricNameCollision "a_b" "a.b" "a_b") ∧
      ¬ s.RejectsCleanly (s.ingestMetrics id collidingRequest) := by
  intro s
  have herr : (s.ingestMetrics id collidingRequest).2 =
      .error (.metricNameCollision "a_b" "a.b" "a_b") := rfl
  refine ⟨herr, fun hclean => ?_⟩
  have hkeep := (hclean _ herr).normalizedNameSources
  have hlookup := congrArg (Finmap.lookup 0) hkeep
  have hnone : s.normalizedNameSources.lookup 0 = none := rfl
  have hsome : (s.ingestMetrics id collidingRequest).1.normalizedNameSources.lookup 0 =
    some 1 := rfl
  rw [hnone, hsome] at hlookup
  simp at hlookup

end Reachable

end Aniani
