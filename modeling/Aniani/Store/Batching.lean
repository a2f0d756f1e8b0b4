import Aniani.Store.Contents
import Aniani.Store.Identity
import Aniani.Store.LogStore
import Aniani.Store.MetricStore

/-!
# Batches

An ingest appends its batch to a stream that is sorted, looks at the batch and at the boundary, and
sorts the whole vector only if it finds something out of order. As the sort is stable, the vector is
always the stable sort of everything that was ever appended, and it does not matter how the entries
were split into batches.

The rest of the store does not see the split either, except that every ingest interns the labels
again. An interner that is asked for strings it knows gives out the same keys and no new ones; the
class leaves open whether it is the same value afterwards, so two stores are compared up to that.

## Main definitions

* `LabelStore.Same`, `LogStore.Same`, `MetricStore.Same` — equality, up to what an interner is
  besides its keys

## Main results

* `LabelStore.Sorted.ingest_append` — one batch or two
* `ingest_append_exec` — both stores, after any run
-/

namespace Aniani

open Interner

/-! ### Sorting in a batch -/

section Batch

variable {α : Type} [Timestamped α]

namespace LabelStore

/-- **The shortcut is a stable sort.** -/
theorem appendBatch_eq {entries : List α} (h : entries.SortedBy timestamp) (batch : List α) :
    appendBatch entries batch = (entries ++ batch).sortByKey timestamp := by
  rw [appendBatch]
  split
  · rfl
  · next hno =>
    refine (List.sortByKey_of_sortedBy ?_).symm
    cases batch with
    | nil => simpa using h
    | cons b batch => exact (batchNeedsSort_eq_false_iff h).mp (by simpa using hno)

theorem appendBatch_appendBatch {entries : List α} (h : entries.SortedBy timestamp)
    (a b : List α) : appendBatch (appendBatch entries a) b = appendBatch entries (a ++ b) := by
  rw [appendBatch_eq (sortedBy_appendBatch h a), appendBatch_eq h, appendBatch_eq h,
    List.sortByKey_sortByKey_append, List.append_assoc]

end LabelStore

end Batch

/-! ### Interning again -/

section Intern

variable {Rodeo Spur : Type} [Interner Rodeo Spur]

theorem get_getOrIntern_of_known {r : Rodeo} {s : String} {k : Spur} (h : get r s = some k)
    (t : String) : get (getOrIntern r s).2 t = get r t := by
  rw [get_getOrIntern]
  split
  · next ht => rw [ht, h, getOrIntern_of_get h]
  · rfl

/-- Interning what is interned gives out no key. -/
theorem KeysOf.get_internPairs {r : Rodeo} {labels : List (String × String)}
    {pairs : LabelPairs Spur} (h : KeysOf r labels pairs) (t : String) :
    get (internPairs r labels).2 t = get r t := by
  induction labels generalizing r pairs with
  | nil => rfl
  | cons l labels ih =>
    obtain _ | ⟨hl, hrest⟩ := h
    have hext := (extends_getOrIntern r l.1).trans (extends_getOrIntern _ l.2)
    have hvalue : get (getOrIntern r l.1).2 l.2 = some _ := extends_getOrIntern r l.1 _ _ hl.2
    have hstep := ih (KeysOf.mono hrest hext)
    rw [get_getOrIntern_of_known hvalue, get_getOrIntern_of_known hl.1] at hstep
    exact hstep

end Intern

/-! ### One batch or two -/

namespace LabelStore

variable {Rodeo Spur α : Type} [LinearOrder Spur] [Interner Rodeo Spur] [Timestamped α]

/-- The stores are equal, and their interners know the same strings by the same keys. -/
def Same (s s' : LabelStore Rodeo Spur α) : Prop :=
  { s with interner := s'.interner } = s' ∧ ∀ t, get s.interner t = get s'.interner t

omit [LinearOrder Spur] [Interner Rodeo Spur] in
/-- Appending to a stream leaves everything else alone. -/
theorem extendStream_frame (s : LabelStore Rodeo Spur α) (id : ℕ) (batch : List α) :
    (s.extendStream id batch).streamIds = s.streamIds ∧
      (s.extendStream id batch).labelValues = s.labelValues ∧
      (s.extendStream id batch).interner = s.interner := by
  rw [extendStream]
  split <;> exact ⟨rfl, rfl, rfl⟩

omit [LinearOrder Spur] [Interner Rodeo Spur] in
theorem Sorted.extendStream_extendStream {s : LabelStore Rodeo Spur α} (h : s.Sorted) (id : ℕ)
    (a b : List α) : (s.extendStream id a).extendStream id b = s.extendStream id (a ++ b) := by
  cases hst : s.streams.lookup id with
  | none =>
    have hnone : ∀ batch, s.extendStream id batch = s := fun batch => by
      rw [LabelStore.extendStream, hst]
    rw [hnone, hnone, hnone]
  | some stream =>
    rw [extendStream_of_some hst, extendStream_of_some hst,
      extendStream_of_some (Finmap.lookup_insert _)]
    dsimp only
    rw [Finmap.insert_insert, appendBatch_appendBatch (h id stream hst), List.length_append,
      Nat.add_assoc]

omit [Timestamped α] in
/-- What the first half of an ingest has seen to. -/
theorem streamFor_frame (s : LabelStore Rodeo Spur α) (labels : List (String × String)) :
    (s.streamFor labels).1.streamIds.lookup (internLabelPairs s.interner labels).1 =
        some (s.streamFor labels).2 ∧
      (s.streamFor labels).1.labelValues =
        trackLabelValues s.labelValues (internLabelPairs s.interner labels).1 ∧
      (s.streamFor labels).1.interner = (internLabelPairs s.interner labels).2 := by
  rw [streamFor]
  cases hid : s.streamIds.lookup (internLabelPairs s.interner labels).1 with
  | none => exact ⟨Finmap.lookup_insert _, rfl, rfl⟩
  | some id => exact ⟨hid, rfl, rfl⟩

omit [LinearOrder Spur] in
theorem internLabelPairs_again [LinearOrder Spur] (r : Rodeo) (labels : List (String × String)) :
    (internLabelPairs (internLabelPairs r labels).2 labels).1 = (internLabelPairs r labels).1 ∧
      ∀ t, get (internLabelPairs (internLabelPairs r labels).2 labels).2 t =
        get (internLabelPairs r labels).2 t := by
  have hkeys := keysOf_internPairs r labels
  refine ⟨?_, hkeys.get_internPairs⟩
  rw [internLabelPairs, internLabelPairs]
  exact congrArg (List.sortByKey Prod.fst) hkeys.internPairs_eq

/-- After an ingest the labels lead to the same stream, and only the interner is asked again. -/
theorem streamFor_ingest (s : LabelStore Rodeo Spur α) (labels : List (String × String))
    (batch : List α) :
    (s.ingest labels batch).streamFor labels =
      ({ s.ingest labels batch with
        interner := (internLabelPairs (s.ingest labels batch).interner labels).2 },
        (s.streamFor labels).2) := by
  obtain ⟨hids, hvalues, hinterner⟩ := extendStream_frame (s.streamFor labels).1
    (s.streamFor labels).2 batch
  obtain ⟨hid, htracked, hinterned⟩ := s.streamFor_frame labels
  change (s.ingest labels batch).streamIds = _ at hids
  change (s.ingest labels batch).labelValues = _ at hvalues
  change (s.ingest labels batch).interner = _ at hinterner
  have hpairs : (internLabelPairs (s.ingest labels batch).interner labels).1 =
      (internLabelPairs s.interner labels).1 := by
    rw [hinterner, hinterned]
    exact (internLabelPairs_again s.interner labels).1
  have hvalues' : trackLabelValues (s.ingest labels batch).labelValues
      (internLabelPairs s.interner labels).1 = (s.ingest labels batch).labelValues := by
    rw [hvalues, htracked]
    refine InvertedIndex.addAll_of_holds (fun v c => Finset.insert_eq_of_mem) fun pair hp => ?_
    exact InvertedIndex.holds_addAll.mpr (.inl hp)
  rw [streamFor, hpairs, hids, hid]
  dsimp only
  rw [trackLabels, hpairs, hvalues']

/-- **One batch or two.** -/
theorem Sorted.ingest_append {s : LabelStore Rodeo Spur α} (h : s.Sorted)
    (labels : List (String × String)) (a b : List α) :
    (s.ingest labels (a ++ b)).Same ((s.ingest labels a).ingest labels b) := by
  have hfound : (s.streamFor labels).1.Sorted := streamInvariant_sorted.streamFor h labels
  have hextend : (s.ingest labels a).extendStream (s.streamFor labels).2 b =
      s.ingest labels (a ++ b) := hfound.extendStream_extendStream _ a b
  have hingest : (s.ingest labels a).ingest labels b = { s.ingest labels (a ++ b) with
      interner := (internLabelPairs (s.ingest labels a).interner labels).2 } := by
    rw [LabelStore.ingest, streamFor_ingest, ← hextend, LabelStore.extendStream,
      LabelStore.extendStream]
    dsimp only
    split <;> rfl
  refine ⟨by rw [hingest], fun t => ?_⟩
  rw [hingest]
  dsimp only
  rw [ingest_interner, ingest_interner, (internLabelPairs_again s.interner labels).2]

end LabelStore

section Stores

variable {Rodeo Spur F64 : Type} [LinearOrder Spur] [Interner Rodeo Spur]

namespace LogStore

/-- The same, for the log store. -/
structure Same (s s' : LogStore Rodeo Spur F64) : Prop where
  streams : s.toLabelStore.Same s'.toLabelStore
  traceIndex : s.traceIndex = s'.traceIndex

theorem traceIndex_ingestStream (s : LogStore Rodeo Spur F64) (labels : List (String × String))
    (entries : List (LogEntry Spur F64)) :
    (s.ingestStream labels entries).traceIndex =
      match (s.toLabelStore.streamFor labels).1.streams.lookup
        (s.toLabelStore.streamFor labels).2 with
      | none => s.traceIndex
      | some _ => InvertedIndex.addAll s.traceIndex
          (tracePairs (s.toLabelStore.streamFor labels).2 entries) := by
  rw [ingestStream]
  cases (s.toLabelStore.streamFor labels).1.streams.lookup
    (s.toLabelStore.streamFor labels).2 with
  | none => rfl
  | some stream => rfl

theorem ingestStream_append {s : LogStore Rodeo Spur F64} (h : s.Sorted)
    (labels : List (String × String)) (a b : List (LogEntry Spur F64)) :
    (s.ingestStream labels (a ++ b)).Same ((s.ingestStream labels a).ingestStream labels b) := by
  refine ⟨?_, ?_⟩
  · rw [toLabelStore_ingestStream, toLabelStore_ingestStream, toLabelStore_ingestStream]
    exact LabelStore.Sorted.ingest_append h labels a b
  · rw [traceIndex_ingestStream, traceIndex_ingestStream, traceIndex_ingestStream,
      toLabelStore_ingestStream, LabelStore.streamFor_ingest, LabelStore.ingest]
    dsimp only
    cases hst : (s.toLabelStore.streamFor labels).1.streams.lookup
        (s.toLabelStore.streamFor labels).2 with
    | none => rw [LabelStore.extendStream, hst, hst]
    | some stream =>
      rw [LabelStore.extendStream_of_some hst, Finmap.lookup_insert, tracePairs,
        List.filterMap_append, InvertedIndex.addAll_append]
      rfl

end LogStore

namespace MetricStore

/-- The same, for the metric store. -/
structure Same (s s' : MetricStore Rodeo Spur F64) : Prop where
  series : s.toLabelStore.Same s'.toLabelStore
  sources : s.normalizedNameSources = s'.normalizedNameSources
  metadata : s.metricMetadata = s'.metricMetadata

theorem ingestSamples_append {s : MetricStore Rodeo Spur F64} (h : s.Sorted) (name : String)
    (labels : List (String × String)) (a b : List (Sample F64)) :
    (s.ingestSamples name labels (a ++ b)).Same
      ((s.ingestSamples name labels a).ingestSamples name labels b) :=
  ⟨LabelStore.Sorted.ingest_append h (("__name__", name) :: labels) a b, rfl, rfl⟩

end MetricStore

/-- **Batching does not matter**, in either store after any run: one batch leaves the store that its
two parts leave, and the check asks for a sort exactly when the vector is out of order. -/
theorem ingest_append_exec (logOps : List (LogOp Spur F64)) (metricOps : List (MetricOp F64)) :
    let logs := Run.exec LogStore.apply (LogStore.new : LogStore Rodeo Spur F64) logOps
    let metrics := Run.exec MetricStore.apply (MetricStore.new : MetricStore Rodeo Spur F64)
      metricOps
    (∀ labels a b, (logs.ingestStream labels (a ++ b)).Same
      ((logs.ingestStream labels a).ingestStream labels b)) ∧
    (∀ name labels a b, (metrics.ingestSamples name labels (a ++ b)).Same
      ((metrics.ingestSamples name labels a).ingestSamples name labels b)) ∧
    (∀ id batch, batchNeedsSort (logs.entriesOf id ++ batch) (logs.entriesOf id).length
      LogEntry.timestampNs = true ↔
        ¬ (logs.entriesOf id ++ batch).SortedBy LogEntry.timestampNs) ∧
    ∀ id batch, batchNeedsSort (metrics.entriesOf id ++ batch) (metrics.entriesOf id).length
      Sample.timestampMs = true ↔
        ¬ (metrics.entriesOf id ++ batch).SortedBy Sample.timestampMs := by
  intro logs metrics
  have hlogs : logs.Sorted := LogStore.sorted_exec logOps
  have hmetrics : metrics.Sorted := MetricStore.sorted_exec metricOps
  refine ⟨LogStore.ingestStream_append hlogs, MetricStore.ingestSamples_append hmetrics,
    fun id batch => ?_, fun id batch => ?_⟩
  · have hentries : (logs.entriesOf id).SortedBy LogEntry.timestampNs :=
      LabelStore.sortedBy_entriesOf _ hlogs id
    rw [← batchNeedsSort_eq_false_iff hentries, Bool.not_eq_false]
  · have hentries : (metrics.entriesOf id).SortedBy Sample.timestampMs :=
      LabelStore.sortedBy_entriesOf _ hmetrics id
    rw [← batchNeedsSort_eq_false_iff hentries, Bool.not_eq_false]

end Stores

end Aniani
