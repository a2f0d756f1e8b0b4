import Aniani.Store.Contents
import Aniani.Store.Select
import Mathlib.Data.Set.Function

/-!
# Restored stores

`load_snapshot` gives the stores back as they were saved, and recomputes the identity map and the
next id from the streams. The next id can come out smaller: an id whose stream is gone is given out
again. So a restored store and the original, fed the same batches, may file one label set under two
ids.

What the two keep in common is the interner and the contents, and with these every answer about
labels and vectors, up to the ids. The serializer is taken to give back the maps it is given, so a
restored store is the original after `rebuild_stream_ids`.

## Main definitions

* `LabelStore.Alike` — one interner, one contents, and ids left in both
* `LabelStore.Renames`, `LabelStore.SameAnswers` — what a reader sees
* `LogOp.SameCall`, `MetricOp.SameCall` — one call, with the maps walked in any two orders

## Main results

* `LabelStore.Alike.sameAnswers`
* `restore_transparent` — for both stores, along every later run with ids left
* `restore_after_exhaustion` — and what goes wrong when the ids have run out
-/

namespace Aniani

open Interner

namespace LabelStore

variable {Rodeo Spur α : Type} [LinearOrder Spur] [Interner Rodeo Spur] [Timestamped α]

/-! ### The relation, and what the operations do to it -/

/-- **Two stores with the same contents**, the second with no fewer ids left than the first. -/
structure Alike (s s' : LabelStore Rodeo Spur α) : Prop where
  left : s.Invariant
  right : s'.Invariant
  interner : s'.interner = s.interner
  contents : s'.contents = s.contents
  next : s'.nextStreamId ≤ s.nextStreamId

/-- A restored store is alike to the original. -/
theorem Invariant.alike_rebuildStreamIds {s : LabelStore Rodeo Spur α} (h : s.Invariant)
    (hroom : s.nextStreamId ≤ u64Max) (it : IterOrder ℕ) : s.Alike (s.rebuildStreamIds it) where
  left := h
  right := (h.rebuildStreamIds hroom it).1
  interner := (rebuildStreamIds_frame it s).2
  contents := h.contents_rebuildStreamIds hroom it
  next := (h.rebuildStreamIds hroom it).2

theorem alike_new : (new : LabelStore Rodeo Spur α).Alike new :=
  ⟨invariant_new, invariant_new, rfl, rfl, le_rfl⟩

/-- Two alike stores create a stream for the same label sets. -/
theorem Alike.created_eq {s s' : LabelStore Rodeo Spur α} (h : s.Alike s')
    (labels : List (String × String)) : s'.created labels = s.created labels := by
  rw [h.right.toIndexed.created_eq, h.left.toIndexed.created_eq, h.interner, h.contents]

theorem nextStreamId_ingest (s : LabelStore Rodeo Spur α) (labels : List (String × String))
    (batch : List α) :
    (s.ingest labels batch).nextStreamId =
      if s.created labels = 0 then s.nextStreamId else u64SaturatingSucc s.nextStreamId := by
  rw [LabelStore.ingest, extendStream_nextStreamId, LabelStore.streamFor, created]
  cases hid : s.streamIds.lookup (internLabelPairs s.interner labels).1 with
  | some id => rfl
  | none => rfl

theorem Alike.ingest {s s' : LabelStore Rodeo Spur α} (h : s.Alike s')
    {labels : List (String × String)} (hroom : s.nextStreamId + s.created labels ≤ u64Max)
    (batch : List α) : (s.ingest labels batch).Alike (s'.ingest labels batch) where
  left := h.left.ingest hroom batch
  right := by
    refine h.right.ingest ?_ batch
    rw [h.created_eq]
    exact (Nat.add_le_add_right h.next _).trans hroom
  interner := by rw [ingest_interner, ingest_interner, h.interner]
  contents := by
    funext labels'
    rw [h.right.toIndexed.contents_ingest, h.left.toIndexed.contents_ingest, h.interner,
      h.contents]
  next := by
    rw [nextStreamId_ingest, nextStreamId_ingest, h.created_eq]
    split
    · exact h.next
    · exact min_le_min_right _ (Nat.succ_le_succ h.next)

theorem Alike.intern {s s' : LabelStore Rodeo Spur α} (h : s.Alike s') (string : String) :
    (s.intern string).Alike (s'.intern string) where
  left := h.left.intern string
  right := h.right.intern string
  interner := congrArg (fun r => (getOrIntern r string).2) h.interner
  contents := h.contents
  next := h.next

theorem Alike.evictBefore {s s' : LabelStore Rodeo Spur α} (h : s.Alike s')
    (it it' : IterOrder ℕ) (cutoff : ℤ) :
    (s.evictBefore it cutoff).Alike (s'.evictBefore it' cutoff) where
  left := h.left.evictBefore it cutoff
  right := h.right.evictBefore it' cutoff
  interner := by rw [(evictBefore_frame _ _ _).1, (evictBefore_frame _ _ _).1, h.interner]
  contents := by
    funext labels
    rw [h.right.contents_evictBefore, h.left.contents_evictBefore, h.contents]
  next := by
    rw [(evictBefore_frame _ _ _).2, (evictBefore_frame _ _ _).2]
    exact h.next

theorem Alike.clearService {s s' : LabelStore Rodeo Spur α} (h : s.Alike s') (service : String) :
    (s.clearService service).Alike (s'.clearService service) where
  left := h.left.clearService service
  right := h.right.clearService service
  interner := by rw [clearService_interner, clearService_interner, h.interner]
  contents := by
    funext labels
    rw [h.right.contents_clearService, h.left.contents_clearService, h.contents,
      resolveLabels_congr h.interner]
  next := by
    rw [clearService_nextStreamId, clearService_nextStreamId]
    exact h.next

/-! ### The renaming -/

/-- The id that the other store has for the label set of a stream. -/
def renamed (s s' : LabelStore Rodeo Spur α) (id : ℕ) : ℕ :=
  ((s.streams.lookup id).bind fun stream => s'.streamIds.lookup stream.labels).getD 0

theorem Alike.lookup_renamed {s s' : LabelStore Rodeo Spur α} (h : s.Alike s') {id : ℕ}
    {stream : Stream Spur α} (hst : s.streams.lookup id = some stream) :
    s'.streams.lookup (s.renamed s' id) = some stream := by
  have hcontents := h.left.toIndexed.contents_of_lookup hst
  rw [← h.contents] at hcontents
  obtain ⟨id', hst'⟩ := h.right.toIndexed.contents_eq_some_iff.mp hcontents
  have hid' := (h.right.streamIds stream.labels id').mpr ⟨_, hst', rfl⟩
  rw [renamed, hst, Option.bind_some, hid']
  exact hst'

theorem Alike.exists_renamed {s s' : LabelStore Rodeo Spur α} (h : s.Alike s') {id' : ℕ}
    {stream : Stream Spur α} (hst' : s'.streams.lookup id' = some stream) :
    ∃ id, s.streams.lookup id = some stream ∧ s.renamed s' id = id' := by
  have hcontents := h.right.toIndexed.contents_of_lookup hst'
  rw [h.contents] at hcontents
  obtain ⟨id, hst⟩ := h.left.toIndexed.contents_eq_some_iff.mp hcontents
  exact ⟨id, hst, h.right.toIndexed.eq_of_labels_eq (h.lookup_renamed hst) hst' rfl⟩

theorem Alike.bijOn_renamed {s s' : LabelStore Rodeo Spur α} (h : s.Alike s') :
    Set.BijOn (s.renamed s') {id | id ∈ s.streams} {id | id ∈ s'.streams} := by
  refine ⟨fun id hid => ?_, fun i hi j hj hij => ?_, fun id' hid' => ?_⟩
  · obtain ⟨stream, hst⟩ := Finmap.mem_iff.mp hid
    exact Finmap.mem_of_lookup_eq_some (h.lookup_renamed hst)
  · obtain ⟨a, ha⟩ := Finmap.mem_iff.mp hi
    obtain ⟨b, hb⟩ := Finmap.mem_iff.mp hj
    have hab := (h.lookup_renamed ha).symm.trans (hij ▸ h.lookup_renamed hb)
    exact h.left.toIndexed.eq_of_labels_eq ha hb (congrArg Stream.labels (Option.some.inj hab))
  · obtain ⟨stream, hst'⟩ := Finmap.mem_iff.mp hid'
    obtain ⟨id, hst, hid⟩ := h.exists_renamed hst'
    exact ⟨id, Finmap.mem_of_lookup_eq_some hst, hid⟩

theorem Alike.carries_iff {s s' : LabelStore Rodeo Spur α} (h : s.Alike s') {id : ℕ}
    (hid : id ∈ s.streams) (pair : Spur × Spur) :
    s'.Carries pair (s.renamed s' id) ↔ s.Carries pair id := by
  obtain ⟨stream, hst⟩ := Finmap.mem_iff.mp hid
  rw [Carries, Carries, h.lookup_renamed hst, hst]

/-- The two value indexes say the same, and so are the same map. -/
theorem Alike.labelValues {s s' : LabelStore Rodeo Spur α} (h : s.Alike s') :
    s'.labelValues = s.labelValues := by
  refine (h.right.labelValues.congr fun k v => ?_).eq h.left.labelValues fun _ _ => Finset.ext
  constructor
  · rintro ⟨id', stream, hst', hp⟩
    obtain ⟨id, hst, -⟩ := h.exists_renamed hst'
    exact ⟨id, stream, hst, hp⟩
  · rintro ⟨id, stream, hst, hp⟩
    exact ⟨_, stream, h.lookup_renamed hst, hp⟩

/-! ### Queries

A pattern that does not compile ends a query, unless the name of its matcher is unknown. No law about
the selected streams is needed for that: both stores do the same with it. -/

section Query

variable {regexNew : String → Option (String → Bool)}

/-- What a matcher gives is live. -/
theorem Indexed.mem_of_mem_matcherIds {s : LabelStore Rodeo Spur α} (h : s.Indexed)
    (it : IterOrder ℕ) (itValues : IterOrder Spur) {m : LabelMatcher} {pl : PostingList} {id : ℕ}
    (hpl : matcherIds regexNew itValues s.interner s.labelIndex s.labelValues (it.keys s.streams) m =
      some pl) (hid : id ∈ pl) : id ∈ s.streams := by
  have hlive : ∀ {id}, (∃ stream, s.streams.lookup id = some stream) → id ∈ s.streams := fun hl =>
    Finmap.mem_iff.mpr hl
  obtain ⟨name, op, value⟩ := m
  cases op with
  | eq => exact hlive ((h.mem_matcherIds_eq itValues _ name value id).mp ⟨pl, hpl, hid⟩).live
  | neq =>
    exact IterOrder.mem_keys.mp ((h.mem_matcherIds_neq itValues _ name value id).mp ⟨pl, hpl, hid⟩).1
  | regex =>
    cases hre : compiledLabelRegex regexNew value with
    | some re =>
      exact hlive ((h.mem_matcherIds_regex itValues _ name value id hre).mp ⟨pl, hpl, hid⟩).live
    | none =>
      rw [matcherIds] at hpl
      cases hname : Interner.get s.interner name <;> simp [hname, hre] at hpl
  | notRegex =>
    cases hre : compiledLabelRegex regexNew value with
    | some re =>
      exact IterOrder.mem_keys.mp
        ((h.mem_matcherIds_notRegex itValues _ name value id hre).mp ⟨pl, hpl, hid⟩).1
    | none =>
      rw [matcherIds] at hpl
      cases hname : Interner.get s.interner name with
      | some k => simp [hname, hre] at hpl
      | none =>
        simp only [hname, Option.some.injEq] at hpl
        subst hpl
        exact IterOrder.mem_keys.mp (PostingList.mem_fromIds.mp hid)

/-- **One matcher**, at a stream and at the stream it is renamed to. -/
theorem Alike.mem_matcherIds_iff {s s' : LabelStore Rodeo Spur α} (h : s.Alike s')
    (it it' : IterOrder ℕ) (itValues itValues' : IterOrder Spur) {id : ℕ} (hid : id ∈ s.streams)
    (m : LabelMatcher) :
    (∃ pl, matcherIds regexNew itValues' s'.interner s'.labelIndex s'.labelValues
      (it'.keys s'.streams) m = some pl ∧ s.renamed s' id ∈ pl) ↔
    ∃ pl, matcherIds regexNew itValues s.interner s.labelIndex s.labelValues
      (it.keys s.streams) m = some pl ∧ id ∈ pl := by
  have hall : s.renamed s' id ∈ it'.keys s'.streams ↔ id ∈ it.keys s.streams :=
    iff_of_true (IterOrder.mem_keys.mpr (h.bijOn_renamed.1 hid)) (IterOrder.mem_keys.mpr hid)
  have hpair : s'.PicksPair m (s.renamed s' id) ↔ s.PicksPair m id := by
    simp only [PicksPair, h.interner, h.carries_iff hid]
  have hmatch : ∀ re, s'.PicksMatch m re (s.renamed s' id) ↔ s.PicksMatch m re id := by
    intro re
    simp only [PicksMatch, h.interner, h.carries_iff hid]
  obtain ⟨name, op, value⟩ := m
  cases op with
  | eq => rw [h.right.toIndexed.mem_matcherIds_eq, h.left.toIndexed.mem_matcherIds_eq, hpair]
  | neq =>
    rw [h.right.toIndexed.mem_matcherIds_neq, h.left.toIndexed.mem_matcherIds_neq, hpair, hall]
  | regex =>
    cases hre : compiledLabelRegex regexNew value with
    | some re =>
      rw [h.right.toIndexed.mem_matcherIds_regex itValues' _ name value _ hre,
        h.left.toIndexed.mem_matcherIds_regex itValues _ name value _ hre, hmatch]
    | none =>
      rw [matcherIds, matcherIds, h.interner]
      cases Interner.get s.interner name <;> simp [hre]
  | notRegex =>
    cases hre : compiledLabelRegex regexNew value with
    | some re =>
      rw [h.right.toIndexed.mem_matcherIds_notRegex itValues' _ name value _ hre,
        h.left.toIndexed.mem_matcherIds_notRegex itValues _ name value _ hre, hmatch, hall]
    | none =>
      rw [matcherIds, matcherIds, h.interner]
      cases Interner.get s.interner name with
      | some k => simp [hre]
      | none => simp only [Option.some.injEq, exists_eq_left', PostingList.mem_fromIds, hall]

theorem Indexed.mem_of_mem_select {s : LabelStore Rodeo Spur α} (h : s.Indexed) (it : IterOrder ℕ)
    (itValues : IterOrder Spur) {matchers : List LabelMatcher} {id : ℕ}
    (hid : id ∈ s.select regexNew it itValues matchers) : id ∈ s.streams := by
  rw [mem_select_iff_matcherIds] at hid
  split at hid
  · exact hid
  · next hne =>
    obtain ⟨m, hm⟩ := List.exists_mem_of_ne_nil matchers hne
    obtain ⟨pl, hpl, hmem⟩ := hid m hm
    exact h.mem_of_mem_matcherIds it itValues hpl hmem

/-- **The selected streams are renamed.** -/
theorem Alike.select_perm {s s' : LabelStore Rodeo Spur α} (h : s.Alike s')
    (it it' : IterOrder ℕ) (itValues itValues' : IterOrder Spur) (matchers : List LabelMatcher) :
    ((s.select regexNew it itValues matchers).map (s.renamed s')).Perm
      (s'.select regexNew it' itValues' matchers) := by
  obtain ⟨hmaps, hinj, hsurj⟩ := h.bijOn_renamed
  have hsel : ∀ id ∈ s.streams, s.renamed s' id ∈ s'.select regexNew it' itValues' matchers ↔
      id ∈ s.select regexNew it itValues matchers := by
    intro id hid
    rw [mem_select_iff_matcherIds, mem_select_iff_matcherIds]
    split
    · exact iff_of_true (hmaps hid) hid
    · exact forall₂_congr fun m _ => h.mem_matcherIds_iff it it' itValues itValues' hid m
  refine (List.perm_ext_iff_of_nodup ?_ (nodup_select it' itValues' s' matchers)).mpr fun id' => ?_
  · refine (nodup_select it itValues s matchers).map_on fun i hi j hj hij => ?_
    exact hinj (h.left.toIndexed.mem_of_mem_select it itValues hi)
      (h.left.toIndexed.mem_of_mem_select it itValues hj) hij
  · rw [List.mem_map]
    constructor
    · rintro ⟨id, hid, rfl⟩
      exact (hsel id (h.left.toIndexed.mem_of_mem_select it itValues hid)).mpr hid
    · intro hid'
      obtain ⟨id, hid, rfl⟩ := hsurj (h.right.toIndexed.mem_of_mem_select it' itValues' hid')
      exact ⟨id, (hsel id hid).mp hid', rfl⟩

end Query

/-! ### What a reader sees -/

/-- **`ρ` turns the answers of `s` into those of `s'`**: it matches the streams one to one, and every
query selects the renamed streams, which show the same labels and are read to the same vectors. The
listings of label names and values are the same as they stand. -/
structure Renames (regexNew : String → Option (String → Bool)) (s s' : LabelStore Rodeo Spur α)
    (ρ : ℕ → ℕ) : Prop where
  bijOn : Set.BijOn ρ {id | id ∈ s.streams} {id | id ∈ s'.streams}
  select : ∀ it itValues it' itValues' matchers,
    ((s.select regexNew it itValues matchers).map ρ).Perm
      (s'.select regexNew it' itValues' matchers)
  getStreamLabels : ∀ id ∈ s.streams, s'.getStreamLabels (ρ id) = s.getStreamLabels id
  getRange : ∀ id ∈ s.streams, ∀ start stop,
    s'.getRange (ρ id) start stop = s.getRange id start stop
  labelNames : ∀ it it', (s.labelNames it).Perm (s'.labelNames it')
  getLabelValues : ∀ it it' name, (s.getLabelValues it name).Perm (s'.getLabelValues it' name)

/-- The two stores give the same answers, up to renaming of ids. -/
def SameAnswers (regexNew : String → Option (String → Bool)) (s s' : LabelStore Rodeo Spur α) :
    Prop :=
  ∃ ρ, Renames regexNew s s' ρ

omit [LinearOrder Spur] [Interner Rodeo Spur] [Timestamped α] in
/-- The id that the next new label set is given is not the id of a stream, and in no posting
list. -/
def NextUnused (s : LabelStore Rodeo Spur α) : Prop :=
  s.nextStreamId ∉ s.streams ∧
    ∀ pair pl, s.labelIndex.lookup pair = some pl → s.nextStreamId ∉ pl.ids

theorem Indexed.nextUnused {s : LabelStore Rodeo Spur α} (h : s.Indexed) : s.NextUnused := by
  have hfresh := h.lookup_nextStreamId
  refine ⟨Finmap.lookup_eq_none.mp hfresh, fun pair pl hpl hmem => ?_⟩
  obtain ⟨stream, hst, -⟩ := (h.labelIndex.mem_lookup hpl s.nextStreamId).mp hmem
  rw [hfresh] at hst
  exact absurd hst (by simp)

/-- **Alike stores give the same answers.** -/
theorem Alike.sameAnswers {s s' : LabelStore Rodeo Spur α} (h : s.Alike s')
    (regexNew : String → Option (String → Bool)) : SameAnswers regexNew s s' := by
  refine ⟨s.renamed s', h.bijOn_renamed, fun it itValues it' itValues' matchers =>
    h.select_perm it it' itValues itValues' matchers, fun id hid => ?_,
    fun id hid start stop => ?_, fun it it' => ?_, fun it it' name => ?_⟩
  · obtain ⟨stream, hst⟩ := Finmap.mem_iff.mp hid
    rw [LabelStore.getStreamLabels, LabelStore.getStreamLabels, h.lookup_renamed hst, hst,
      resolveLabels_congr h.interner]
  · obtain ⟨stream, hst⟩ := Finmap.mem_iff.mp hid
    rw [LabelStore.getRange, LabelStore.getRange, h.lookup_renamed hst, hst]
  · rw [LabelStore.labelNames, LabelStore.labelNames, h.interner, h.labelValues]
    exact (it.order_perm it' _).map _
  · rw [LabelStore.getLabelValues, LabelStore.getLabelValues, h.interner, h.labelValues]
    cases Interner.get s.interner name with
    | none => exact List.Perm.refl _
    | some spur =>
      dsimp only
      cases s.labelValues.lookup spur with
      | none => exact List.Perm.refl _
      | some values => exact (it.order_perm it' values).map _

end LabelStore

/-! ### Later runs -/

section Runs

variable {Rodeo Spur F64 : Type} [LinearOrder Spur] [Interner Rodeo Spur]

/-- One call to two log stores, which may walk their maps in two orders. -/
inductive LogOp.SameCall : LogOp Spur F64 → LogOp Spur F64 → Prop
  | ingestStream (labels entries) : SameCall (.ingestStream labels entries) (.ingestStream labels entries)
  | intern (string) : SameCall (.intern string) (.intern string)
  | evictBefore (it it' cutoffNs) : SameCall (.evictBefore it cutoffNs) (.evictBefore it' cutoffNs)
  | clear : SameCall .clear .clear
  | clearService (service) : SameCall (.clearService service) (.clearService service)

/-- One call to two metric stores, which may walk their maps in two orders. -/
inductive MetricOp.SameCall : MetricOp F64 → MetricOp F64 → Prop
  | ingestSamples (name labels samples) :
    SameCall (.ingestSamples name labels samples) (.ingestSamples name labels samples)
  | intern (string) : SameCall (.intern string) (.intern string)
  | registerMetricName (normalizedName sourceName) : SameCall
    (.registerMetricName normalizedName sourceName) (.registerMetricName normalizedName sourceName)
  | registerMetricMetadata (normalizedName metricType help unit) :
    SameCall (.registerMetricMetadata normalizedName metricType help unit)
      (.registerMetricMetadata normalizedName metricType help unit)
  | evictBefore (it it' cutoffMs) : SameCall (.evictBefore it cutoffMs) (.evictBefore it' cutoffMs)
  | clear : SameCall .clear .clear
  | clearService (it it' service) : SameCall (.clearService it service) (.clearService it' service)

/-- One call keeps two log stores alike. -/
theorem LogStore.alike_apply {s s' : LogStore Rodeo Spur F64}
    (h : s.toLabelStore.Alike s'.toLabelStore) {op op' : LogOp Spur F64} (hop : op.SameCall op')
    (hroom : s.nextStreamId + s.created op ≤ u64Max) :
    (s.apply op).toLabelStore.Alike (s'.apply op').toLabelStore := by
  cases hop with
  | ingestStream labels entries =>
    rw [apply, apply, toLabelStore_ingestStream, toLabelStore_ingestStream]
    exact h.ingest hroom entries
  | intern string => exact h.intern string
  | evictBefore it it' cutoffNs => exact h.evictBefore it it' cutoffNs
  | clear => exact LabelStore.alike_new
  | clearService service => exact h.clearService service

/-- One call keeps two metric stores alike. -/
theorem MetricStore.alike_apply {s s' : MetricStore Rodeo Spur F64}
    (h : s.toLabelStore.Alike s'.toLabelStore) {op op' : MetricOp F64} (hop : op.SameCall op')
    (hroom : s.nextStreamId + s.created op ≤ u64Max) :
    (s.apply op).toLabelStore.Alike (s'.apply op').toLabelStore := by
  cases hop with
  | ingestSamples name labels samples => exact h.ingest hroom samples
  | intern string => exact h.intern string
  | registerMetricName normalizedName sourceName =>
    rw [apply, apply, toLabelStore_registerMetricName, toLabelStore_registerMetricName]
    exact (h.intern normalizedName).intern sourceName
  | registerMetricMetadata normalizedName metricType help unit => exact h.intern normalizedName
  | evictBefore it it' cutoffMs =>
    rw [apply, apply, toLabelStore_evictBefore, toLabelStore_evictBefore]
    exact h.evictBefore it it' cutoffMs
  | clear => exact LabelStore.alike_new
  | clearService it it' service =>
    rw [apply, apply, toLabelStore_clearService, toLabelStore_clearService]
    exact h.clearService service

theorem LogStore.alike_exec {s s' : LogStore Rodeo Spur F64}
    (h : s.toLabelStore.Alike s'.toLabelStore) {ops ops' : List (LogOp Spur F64)}
    (hops : List.Forall₂ LogOp.SameCall ops ops')
    (hroom : s.nextStreamId + s.idsCreated ops ≤ u64Max) :
    (Run.exec apply s ops).toLabelStore.Alike (Run.exec apply s' ops').toLabelStore := by
  have hstep : ∀ (s s' : LogStore Rodeo Spur F64) (op op' : LogOp Spur F64), op.SameCall op' →
      s.nextStreamId + s.created op ≤ u64Max → s.toLabelStore.Alike s'.toLabelStore →
        (s.apply op).toLabelStore.Alike (s'.apply op').toLabelStore ∧
          (s.apply op).nextStreamId ≤ s.nextStreamId + s.created op :=
    fun _ _ op _ hop hroom hs =>
      ⟨alike_apply hs hop hroom, nextStreamId_apply_le hs.left op hroom⟩
  exact Run.exec_simulation_cost hstep h hops hroom

theorem MetricStore.alike_exec {s s' : MetricStore Rodeo Spur F64}
    (h : s.toLabelStore.Alike s'.toLabelStore) {ops ops' : List (MetricOp F64)}
    (hops : List.Forall₂ MetricOp.SameCall ops ops')
    (hroom : s.nextStreamId + s.idsCreated ops ≤ u64Max) :
    (Run.exec apply s ops).toLabelStore.Alike (Run.exec apply s' ops').toLabelStore := by
  have hstep : ∀ (s s' : MetricStore Rodeo Spur F64) (op op' : MetricOp F64), op.SameCall op' →
      s.nextStreamId + s.created op ≤ u64Max → s.toLabelStore.Alike s'.toLabelStore →
        (s.apply op).toLabelStore.Alike (s'.apply op').toLabelStore ∧
          (s.apply op).nextStreamId ≤ s.nextStreamId + s.created op :=
    fun _ _ op _ hop hroom hs =>
      ⟨alike_apply hs hop hroom, nextStreamId_apply_le hs.left op hroom⟩
  exact Run.exec_simulation_cost hstep h hops hroom

/-- The restored store cannot be told from the original, and neither reuses an id that is in use. -/
def LabelStore.Transparent {α : Type} [Timestamped α] (regexNew : String → Option (String → Bool))
    (s s' : LabelStore Rodeo Spur α) : Prop :=
  SameAnswers regexNew s s' ∧ s.NextUnused ∧ s'.NextUnused

theorem LabelStore.Alike.transparent {α : Type} [Timestamped α] {s s' : LabelStore Rodeo Spur α}
    (h : s.Alike s') (regexNew : String → Option (String → Bool)) : Transparent regexNew s s' :=
  ⟨h.sameAnswers regexNew, h.left.toIndexed.nextUnused, h.right.toIndexed.nextUnused⟩

/-- **A restored store cannot be told from the original**, whatever is called on both from then on,
as long as the original does not create more than `2 ^ 64 - 1` ids. -/
theorem restore_transparent (regexNew : String → Option (String → Bool)) (it : IterOrder ℕ)
    (logOps later later' : List (LogOp Spur F64)) (metricOps laterM laterM' : List (MetricOp F64))
    (hcalls : List.Forall₂ LogOp.SameCall later later')
    (hcallsM : List.Forall₂ MetricOp.SameCall laterM laterM')
    (hlog : (LogStore.new : LogStore Rodeo Spur F64).idsCreated (logOps ++ later) < 2 ^ 64)
    (hmetric : (MetricStore.new : MetricStore Rodeo Spur F64).idsCreated (metricOps ++ laterM) <
      2 ^ 64) :
    let logs := Run.exec LogStore.apply (LogStore.new : LogStore Rodeo Spur F64) logOps
    let metrics := Run.exec MetricStore.apply (MetricStore.new : MetricStore Rodeo Spur F64)
      metricOps
    LabelStore.Transparent regexNew (Run.exec LogStore.apply logs later).toLabelStore
      (Run.exec LogStore.apply (logs.rebuildStreamIds it) later').toLabelStore ∧
    LabelStore.Transparent regexNew (Run.exec MetricStore.apply metrics laterM).toLabelStore
      (Run.exec MetricStore.apply (metrics.rebuildSeriesIds it) laterM').toLabelStore := by
  intro logs metrics
  constructor
  · have hroom : (LogStore.new : LogStore Rodeo Spur F64).nextStreamId +
        (LogStore.new : LogStore Rodeo Spur F64).idsCreated (logOps ++ later) ≤ u64Max := by
      show 0 + _ ≤ u64Max
      rw [Nat.zero_add]
      exact Nat.le_of_lt_succ hlog
    obtain ⟨hinv, hleft⟩ := LogStore.room_exec LabelStore.invariant_new hroom
    have halike := hinv.alike_rebuildStreamIds (Nat.le_of_add_right_le hleft) it
    exact (LogStore.alike_exec halike hcalls hleft).transparent regexNew
  · have hroom : (MetricStore.new : MetricStore Rodeo Spur F64).nextStreamId +
        (MetricStore.new : MetricStore Rodeo Spur F64).idsCreated (metricOps ++ laterM) ≤
          u64Max := by
      show 0 + _ ≤ u64Max
      rw [Nat.zero_add]
      exact Nat.le_of_lt_succ hmetric
    obtain ⟨hinv, hleft⟩ := MetricStore.room_exec LabelStore.invariant_new hroom
    have halike := hinv.alike_rebuildStreamIds (Nat.le_of_add_right_le hleft) it
    exact (MetricStore.alike_exec halike hcallsM hleft).transparent regexNew

/-- A stream cleared and its id given out again by the restored store, and a batch for a series that
was there. -/
theorem restore_transparent_cleared :
    let logs := Run.exec LogStore.apply (LogStore.new : LogStore VecRodeo ℕ ℤ)
      [.ingestStream [("service", "a")] [], .ingestStream [("service", "b")] [],
        .clearService "b"]
    let metrics := Run.exec MetricStore.apply (MetricStore.new : MetricStore VecRodeo ℕ ℤ)
      [.ingestSamples "up" [("service", "a")] [⟨1, 1, 0⟩]]
    LabelStore.Transparent (fun _ => none)
      (Run.exec LogStore.apply logs [.ingestStream [("service", "c")] []]).toLabelStore
      (Run.exec LogStore.apply (logs.rebuildStreamIds (IterOrder.ascending ℕ))
        [.ingestStream [("service", "c")] []]).toLabelStore ∧
    LabelStore.Transparent (fun _ => none)
      (Run.exec MetricStore.apply metrics
        [.ingestSamples "up" [("service", "a")] [⟨2, 1, 1⟩]]).toLabelStore
      (Run.exec MetricStore.apply (metrics.rebuildSeriesIds (IterOrder.ascending ℕ))
        [.ingestSamples "up" [("service", "a")] [⟨2, 1, 1⟩]]).toLabelStore :=
  restore_transparent _ _ _ _ _ _ _ _ (.cons (.ingestStream _ _) .nil)
    (.cons (.ingestSamples _ _ _) .nil) (by decide) (by decide)

end Runs

/-! ### When the ids have run out

A store that is empty and has no ids left gives the last id to every new label set. The restored
store starts again from zero. -/

section Exhaustion

/-- Two batches for label sets that a store without any does not have yet. -/
def twoBatches : List (LogOp ℕ ℤ) := [.ingestStream [] [], .ingestStream [("a", "y")] []]

theorem mem_streams_twoBatches {s : LogStore VecRodeo ℕ ℤ}
    (hnone : ∀ pairs, s.streamIds.lookup pairs = none) (i : ℕ) :
    i ∈ (Run.exec LogStore.apply s twoBatches).streams ↔
      i = u64SaturatingSucc s.nextStreamId ∨ i = s.nextStreamId ∨ i ∈ s.streams := by
  have hrun : (Run.exec LogStore.apply s twoBatches).toLabelStore =
      (s.toLabelStore.ingest [] []).ingest [("a", "y")] [] := by
    rw [← LogStore.toLabelStore_ingestStream, ← LogStore.toLabelStore_ingestStream]
    rfl
  have h1 := LabelStore.ingest_of_none (hnone (internLabelPairs s.interner []).1) []
  have h2 : (s.toLabelStore.ingest [] []).streamIds.lookup
      (internLabelPairs (s.toLabelStore.ingest [] []).interner [("a", "y")]).1 = none := by
    rw [h1]
    refine (Finmap.lookup_insert_of_ne _ ?_).trans (hnone _)
    exact List.cons_ne_nil _ _
  rw [hrun, LabelStore.ingest_of_none h2 [], h1]
  show i ∈ Finmap.insert (u64SaturatingSucc s.nextStreamId) _
    (Finmap.insert s.nextStreamId _ s.streams) ↔ _
  rw [Finmap.mem_insert, Finmap.mem_insert]

theorem not_transparent_exhausted {n : ℕ} (hn : n = u64Max) :
    let logs := Run.exec LogStore.apply (LogStore.new : LogStore VecRodeo ℕ ℤ) (rounds n)
    ¬ LabelStore.SameAnswers (fun _ => none) (Run.exec LogStore.apply logs twoBatches).toLabelStore
      (Run.exec LogStore.apply (logs.rebuildStreamIds (IterOrder.ascending ℕ))
        twoBatches).toLabelStore := by
  intro logs
  have hspent := spent_rounds n hn.le
  change Spent logs n at hspent
  rintro ⟨ρ, hρ⟩
  -- with every id spent, the original has one stream
  have horiginal : ∀ i ∈ (Run.exec LogStore.apply logs twoBatches).streams, i = u64Max := by
    intro i hi
    rw [mem_streams_twoBatches hspent.lookup_streamIds, hspent.next, hspent.empty, hn] at hi
    rcases hi with rfl | rfl | hi
    · exact min_eq_right (Nat.le_succ _)
    · rfl
    · exact absurd hi (Finmap.notMem_empty)
  -- and the restored store has two
  have hrebuilt : logs.rebuildStreamIds (IterOrder.ascending ℕ) =
      { logs with streamIds := ∅, nextStreamId := 0 } := by
    have hkeys : (IterOrder.ascending ℕ).keys logs.streams = [] := by
      refine List.eq_nil_iff_forall_not_mem.mpr fun i hi => ?_
      rw [IterOrder.mem_keys, hspent.empty] at hi
      exact absurd hi (Finmap.notMem_empty)
    rw [LogStore.rebuildStreamIds, LabelStore.rebuildStreamIds, hkeys]
    rfl
  have hrestored : ∀ i, i ∈ (Run.exec LogStore.apply
      (logs.rebuildStreamIds (IterOrder.ascending ℕ)) twoBatches).streams ↔ i = 1 ∨ i = 0 := by
    intro i
    rw [hrebuilt, mem_streams_twoBatches fun pairs => Finmap.lookup_empty pairs]
    show i = 1 ∨ i = 0 ∨ i ∈ logs.streams ↔ _
    rw [hspent.empty, or_iff_left (Finmap.notMem_empty)]
  obtain ⟨a, ha, ha0⟩ := hρ.bijOn.surjOn ((hrestored 0).mpr (.inr rfl))
  obtain ⟨b, hb, hb1⟩ := hρ.bijOn.surjOn ((hrestored 1).mpr (.inl rfl))
  rw [horiginal a ha] at ha0
  rw [horiginal b hb, ha0] at hb1
  exact absurd hb1 (by decide)

/-- **A restored store answers differently** from an original that has run out of ids: of two new
label sets the original keeps the second. -/
theorem restore_after_exhaustion :
    let logs := Run.exec LogStore.apply (LogStore.new : LogStore VecRodeo ℕ ℤ)
      (rounds (2 ^ 64 - 1))
    ¬ LabelStore.SameAnswers (fun _ => none) (Run.exec LogStore.apply logs twoBatches).toLabelStore
      (Run.exec LogStore.apply (logs.rebuildStreamIds (IterOrder.ascending ℕ))
        twoBatches).toLabelStore :=
  not_transparent_exhausted rfl

end Exhaustion

end Aniani
