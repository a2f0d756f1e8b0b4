import Aniani.ForMathlib.Journal
import Aniani.Ingest.Resolved
import Aniani.Server.Reset
import Aniani.Store.Identity
import Aniani.Store.Retention

/-!
# What the stores stand for

A log store is a journal of log lines under sets of labels, a metric store one of samples, a trace
store one of spans. The streams, their ids and indexes, the order of the entries and the keys of the
interner are how it is laid out.

Each operation of a store is an operation of its journal. An ingest adds its batch, an eviction by
age and a `clear_service` keep what passes a test, and an eviction to a maximum is a trim.

## Main definitions

* `LabelStore.journal`, `LogStore.journal`, `MetricStore.journal`, `TraceStore.journal`
* `LabelStore.Readable`, `TraceStore.Readable` — what is stored reads the same ever after

## Main results

* `LabelStore.Indexed.journal_ingest`, `LabelStore.Sorted.journal_evictBefore`,
  `LabelStore.Indexed.journal_clearService` — the operations of a label store
* `LogStore.journal_ingestBatches`, `LogStore.trims_evictToMax` — and those of a log store
* `MetricStore.journal_handle`, `MetricStore.trims_evictToMax`
* `TraceStore.journal_ingestTraces`, `TraceStore.trims_evictToMax`
-/

namespace Aniani

open Interner

/-- A set of labels, each as often as it was given. -/
abbrev LabelBag := Multiset (String × String)

/-! ### Label stores -/

namespace LabelStore

variable {Rodeo Spur α β : Type} [LinearOrder Spur] [Interner Rodeo Spur] [Timestamped α]
  {view : Rodeo → α → β}

omit [LinearOrder Spur] [Timestamped α] in
/-- What a stream stands for: its elements, as they are read, under its labels. -/
def elements (view : Rodeo → α → β) (r : Rodeo) (stream : Stream Spur α) :
    List (LabelBag × β) :=
  stream.entries.map fun e =>
    (↑(stream.labels.map fun pair => (resolve r pair.1, resolve r pair.2)), view r e)

omit [LinearOrder Spur] [Timestamped α] in
/-- What the store stands for. -/
def journal (view : Rodeo → α → β) (s : LabelStore Rodeo Spur α) : Multiset (LabelBag × β) :=
  s.streams.flatValues (elements view s.interner)

omit [LinearOrder Spur] [Timestamped α] in
/-- What is stored reads the same, whatever is interned later. -/
def Readable (view : Rodeo → α → β) (s : LabelStore Rodeo Spur α) : Prop :=
  ∀ e, s.Holds e → Settled s.interner (fun r => view r e) (view s.interner e)

omit [LinearOrder Spur] [Timestamped α] in
theorem readable_new (view : Rodeo → α → β) : (new : LabelStore Rodeo Spur α).Readable view :=
  fun e h => absurd h (not_holds_new e)

/-- The streams read the same in an interner that knows more. -/
theorem Indexed.elements_eq {s : LabelStore Rodeo Spur α} (h : s.Indexed) (hread : s.Readable view)
    {r : Rodeo} (hext : Extends s.interner r) {id : ℕ} {stream : Stream Spur α}
    (hst : s.streams.lookup id = some stream) :
    elements view r stream = elements view s.interner stream := by
  have hlabels : (stream.labels.map fun pair => (resolve r pair.1, resolve r pair.2)) =
      stream.labels.map fun pair => (resolve s.interner pair.1, resolve s.interner pair.2) := by
    refine List.map_congr_left fun pair hp => ?_
    obtain ⟨hk, hv⟩ := h.interned hst pair hp
    rw [hk.resolve_eq hext, hv.resolve_eq hext]
  rw [elements, elements, hlabels]
  refine List.map_congr_left fun e he => ?_
  exact congrArg (Prod.mk _) (hread e ⟨id, stream, hst, he⟩ r hext)

/-- So does the whole store. -/
theorem Indexed.journal_of_extends {s s' : LabelStore Rodeo Spur α} (h : s.Indexed)
    (hread : s.Readable view) (hstreams : s'.streams = s.streams)
    (hext : Extends s.interner s'.interner) : s'.journal view = s.journal view := by
  rw [journal, journal, hstreams]
  exact Finmap.flatValues_congr fun _ _ hst => h.elements_eq hread hext hst

omit [LinearOrder Spur] [Timestamped α] in
theorem Readable.of_extends {s s' : LabelStore Rodeo Spur α} (hread : s.Readable view)
    (hstreams : s'.streams = s.streams) (hext : Extends s.interner s'.interner) :
    s'.Readable view := by
  intro e he
  have hold := hread e (he.congr hstreams)
  have hsame : view s'.interner e = view s.interner e := hold _ hext
  rw [hsame]
  exact hold.mono hext

omit [LinearOrder Spur] [Timestamped α] in
/-- What only loses elements stays readable. -/
theorem Readable.of_shrinks {s s' : LabelStore Rodeo Spur α} (hread : s.Readable view)
    (h : s.Shrinks s') (hinterner : s'.interner = s.interner) : s'.Readable view := by
  intro e he
  rw [hinterner]
  exact hread e (h.holds he)

/-- The labels of a stream that an ingest creates or finds are those it was given. -/
theorem coe_resolve_internLabelPairs (r : Rodeo) (labels : List (String × String)) :
    (((internLabelPairs r labels).1.map fun pair => (resolve (internLabelPairs r labels).2 pair.1,
      resolve (internLabelPairs r labels).2 pair.2) : List (String × String)) : LabelBag) =
      labels := by
  have hkeys := (keysOf_internPairs r labels).resolve_eq
  refine Multiset.coe_eq_coe.mpr (((List.sortByKey_perm Prod.fst _).map _).trans ?_)
  exact List.Perm.of_eq hkeys

/-- **An ingest adds its batch**, under the labels it was given. -/
theorem Indexed.journal_ingest {s : LabelStore Rodeo Spur α} (h : s.Indexed)
    (hread : s.Readable view) (labels : List (String × String)) (batch : List α) :
    (s.ingest labels batch).journal view = s.journal view +
      ↑(batch.map fun e => ((labels : LabelBag), view (s.ingest labels batch).interner e)) := by
  have hext : Extends s.interner (s.ingest labels batch).interner := by
    rw [ingest_interner]
    exact extends_internLabelPairs _ _
  have hbag := coe_resolve_internLabelPairs s.interner labels
  rw [← ingest_interner s labels batch] at hbag
  have hold : s.streams.flatValues (elements view (s.ingest labels batch).interner) =
      s.journal view :=
    Finmap.flatValues_congr fun _ _ hst => h.elements_eq hread hext hst
  rw [← hold, journal]
  set r := (s.ingest labels batch).interner
  cases hid : s.streamIds.lookup (internLabelPairs s.interner labels).1 with
  | none =>
    have hfresh : s.nextStreamId ∉ s.streams := by
      rw [← Finmap.lookup_eq_none]
      exact h.lookup_nextStreamId
    rw [ingest_of_none hid batch, Finmap.flatValues_insert_of_notMem hfresh, elements, hbag]
    congr 1
    exact Multiset.coe_eq_coe.mpr ((appendBatch_perm [] batch).map _)
  | some id =>
    obtain ⟨stream, hst, hlabels⟩ := (h.streamIds _ id).mp hid
    rw [ingest_of_some hid hst batch]
    refine Finmap.flatValues_insert_of_perm hst ?_
    rw [elements, elements, hlabels, hbag, ← List.map_append]
    exact (appendBatch_perm stream.entries batch).map _

theorem Readable.ingest {s : LabelStore Rodeo Spur α} (hread : s.Readable view)
    {labels : List (String × String)} {batch : List α}
    (hbatch : ∀ e ∈ batch, Settled s.interner (fun r => view r e) (view s.interner e)) :
    (s.ingest labels batch).Readable view := by
  have hext : Extends s.interner (s.ingest labels batch).interner := by
    rw [ingest_interner]
    exact extends_internLabelPairs _ _
  intro e he
  have hold : Settled s.interner (fun r => view r e) (view s.interner e) :=
    (holds_ingest he).elim (hread e) (hbatch e)
  have hsame : view (s.ingest labels batch).interner e = view s.interner e := hold _ hext
  rw [hsame]
  exact hold.mono hext

/-- **An eviction by age keeps what is young enough.** -/
theorem Sorted.journal_evictBefore {s : LabelStore Rodeo Spur α} (h : s.Sorted) (it : IterOrder ℕ)
    (cutoff : ℤ) (time : β → ℤ) (htime : ∀ r e, time (view r e) = timestamp e) :
    (s.evictBefore it cutoff).journal view =
      (s.journal view).filter fun x => cutoff ≤ time x.2 := by
  rw [journal, journal, (s.evictBefore_frame it cutoff).1,
    Finmap.flatValues_of_lookup_eq_bind (lookup_evictBefore it s cutoff), Finmap.filter_flatValues]
  refine Finmap.flatValues_congr fun id stream hst => ?_
  have hkept : (kept cutoff stream.entries).map (fun e => (((stream.labels.map fun pair =>
      (resolve s.interner pair.1, resolve s.interner pair.2) : List (String × String)) : LabelBag),
        view s.interner e)) =
      (elements view s.interner stream).filter fun x => decide (cutoff ≤ time x.2) := by
    rw [kept_eq_filter (h id stream hst), elements, List.filter_map]
    refine congrArg (List.map _) (List.filter_congr fun e _ => ?_)
    simp only [Function.comp_apply, htime]
  rw [← hkept]
  split
  · next hnil => rw [hnil]; rfl
  · rfl

/-- **`clear_service` keeps what has not the label.** -/
theorem Indexed.journal_clearService {s : LabelStore Rodeo Spur α} (h : s.Indexed)
    (service : String) :
    (s.clearService service).journal view =
      (s.journal view).filter fun x => ("service", service) ∉ x.1 := by
  have hlookup : ∀ i, (s.clearService service).streams.lookup i = (s.streams.lookup i).bind
      fun stream => if ("service", service) ∉ s.resolveLabels stream.labels then some stream
        else none := by
    intro i
    rw [h.lookup_clearService]
    cases s.streams.lookup i with
    | none => rfl
    | some stream =>
      rw [Option.filter_some, Option.bind_some]
      simp only [decide_eq_true_eq]
  have hinterner : (s.clearService service).interner = s.interner :=
    s.clearService_interner service
  rw [journal, journal, hinterner, Finmap.flatValues_of_lookup_eq_bind hlookup,
    Finmap.filter_flatValues]
  refine Finmap.flatValues_congr fun id stream _ => ?_
  have hmem : ∀ x ∈ elements view s.interner stream,
      (("service", service) ∈ x.1 ↔ ("service", service) ∈ s.resolveLabels stream.labels) := by
    intro x hx
    obtain ⟨e, -, rfl⟩ := List.mem_map.mp hx
    exact Multiset.mem_coe
  split
  · next hno =>
    rw [List.filter_eq_self.mpr fun x hx => decide_eq_true (mt (hmem x hx).mp hno)]
    rfl
  · next hyes =>
    rw [List.filter_eq_nil_iff.mpr fun x hx => ?_]
    · rfl
    · simpa using (hmem x hx).mpr (not_not.mp hyes)

omit [LinearOrder Spur] [Timestamped α] in
/-- What is left of some streams is part of what they stand for. -/
theorem Shrinks.journal_le {s s' : LabelStore Rodeo Spur α} (h : s.Shrinks s')
    (hinterner : s'.interner = s.interner) : s'.journal view ≤ s.journal view := by
  rw [journal, journal, hinterner]
  refine Finmap.flatValues_le fun id stream' hst' => ?_
  obtain ⟨stream, hst, hlabels, hsub⟩ := h id stream' hst'
  refine ⟨stream, hst, Multiset.coe_le.mpr ?_⟩
  rw [elements, elements, hlabels]
  exact (hsub.map _).subperm

omit [LinearOrder Spur] [Timestamped α] in
theorem card_journal (view : Rodeo → α → β) (s : LabelStore Rodeo Spur α) :
    (s.journal view).card = s.entryCount := by
  rw [journal, Finmap.card_flatValues, entryCount]
  refine congrArg (fun f => s.streams.total f) ?_
  funext stream
  exact List.length_map _

end LabelStore

/-! ### Log stores -/

namespace LogStore

variable {Rodeo Spur F64 : Type} [LinearOrder Spur] [Interner Rodeo Spur]

/-- A stored entry, as it is read. -/
abbrev readEntry (r : Rodeo) (e : LogEntry Spur F64) : LogLine F64 := e.resolved r

/-- What the log store stands for. -/
def journal (s : LogStore Rodeo Spur F64) : Multiset (LabelBag × LogLine F64) :=
  s.toLabelStore.journal readEntry

/-- What a batch says. -/
def batchElements (batch : LogBatch F64) : List (LabelBag × LogLine F64) :=
  batch.entries.map fun e => (↑batch.labels, e.logLine)

omit [LinearOrder Spur] in
/-- The entries of a batch, once they are interned, read as what was prepared. -/
theorem settled_internBatch {r : Rodeo} {batch : List (PreparedLogEntry F64)}
    {e : LogEntry Spur F64} (he : e ∈ (internEach internLogEntry r batch).1) :
    Settled (internEach internLogEntry r batch).2 (fun r' => readEntry r' e)
      (readEntry (internEach internLogEntry r batch).2 e) := by
  obtain ⟨a, -, r', -, rfl, hext⟩ := mem_internEach extends_internLogEntry he
  have hsettled := (settled_internLogEntry r' a).mono hext
  have hread : readEntry (internEach internLogEntry r batch).2 (internLogEntry r' a).1 =
      a.logLine := hsettled.eq
  rw [hread]
  exact hsettled

theorem readable_ingestBatch {s : LogStore Rodeo Spur F64} (hread : s.Readable readEntry)
    (batch : LogBatch F64) : (s.ingestBatch batch).Readable readEntry := by
  have hbatch : (s.internBatch batch).Readable readEntry :=
    hread.of_extends rfl (extends_internEach extends_internLogEntry s.interner batch.entries)
  rw [ingestBatch, toLabelStore_ingestStream]
  exact hbatch.ingest fun e he => settled_internBatch he

/-- **A batch adds what it says.** -/
theorem journal_ingestBatch {s : LogStore Rodeo Spur F64} (h : s.Invariant)
    (hread : s.Readable readEntry) (batch : LogBatch F64) :
    (s.ingestBatch batch).journal = s.journal + ↑(batchElements batch) := by
  have hext := extends_internEach extends_internLogEntry s.interner batch.entries
  have hbatch : (s.internBatch batch).Readable readEntry := hread.of_extends rfl hext
  have hsame : (s.internBatch batch).toLabelStore.journal readEntry = s.journal :=
    h.toIndexed.journal_of_extends hread rfl hext
  rw [journal, ingestBatch, toLabelStore_ingestStream,
    (invariant_internBatch h batch).toIndexed.journal_ingest hbatch, hsame]
  congr 2
  set stored := (internEach internLogEntry s.interner batch.entries).1
  set r := ((s.internBatch batch).toLabelStore.ingest batch.labels stored).interner with hr
  have hlater : Extends (internEach internLogEntry s.interner batch.entries).2 r := by
    rw [hr, LabelStore.ingest_interner]
    exact extends_internLabelPairs _ _
  have hlines : stored.map (readEntry r) = batch.entries.map PreparedLogEntry.logLine :=
    settled_internEach extends_internLogEntry settled_internLogEntry s.interner batch.entries r
      hlater
  calc stored.map (fun e => ((batch.labels : LabelBag), readEntry r e))
      = (stored.map (readEntry r)).map (Prod.mk (batch.labels : LabelBag)) :=
        (List.map_map ..).symm
    _ = batchElements batch := by rw [hlines, batchElements, List.map_map]; rfl

/-- **So does a request**, while there are ids left. -/
theorem journal_ingestBatches {s : LogStore Rodeo Spur F64} (h : s.Invariant)
    (hread : s.Readable readEntry) {batches : List (LogBatch F64)}
    (hroom : s.nextStreamId + s.idsFor batches ≤ u64Max) :
    (s.ingestBatches batches).Readable readEntry ∧
      (s.ingestBatches batches).journal = s.journal + ↑(batches.flatMap batchElements) := by
  induction batches generalizing s with
  | nil => exact ⟨hread, (add_zero _).symm⟩
  | cons batch batches ih =>
    rw [idsFor, Run.cost] at hroom
    have hnext := nextStreamId_ingestBatch_le s batch
    have hroom' : (s.ingestBatch batch).nextStreamId +
        (s.ingestBatch batch).idsFor batches ≤ u64Max := by
      rw [idsFor]
      omega
    obtain ⟨hread', hjournal⟩ := ih (invariant_ingestBatch h (by omega))
      (readable_ingestBatch hread batch) hroom'
    refine ⟨hread', hjournal.trans ?_⟩
    rw [journal_ingestBatch h hread, List.flatMap_cons, ← Multiset.coe_add, add_assoc]

theorem journal_evictBefore {s : LogStore Rodeo Spur F64} (h : s.Invariant) (it : IterOrder ℕ)
    (cutoff : ℤ) :
    (s.evictBefore it cutoff).journal = s.journal.filter fun x => cutoff ≤ x.2.timestampNs :=
  LabelStore.Sorted.journal_evictBefore (fun _ _ hst => h.sorted hst) it cutoff
    LogLine.timestampNs fun _ _ => rfl

omit [Interner Rodeo Spur] in
theorem interner_foldl_drainOldest (acc : LabelStore Rodeo Spur (LogEntry Spur F64) × ℕ)
    (ids : List ℕ) : (ids.foldl drainOldest acc).1.interner = acc.1.interner := by
  induction ids generalizing acc with
  | nil => rfl
  | cons id ids ih =>
    rw [List.foldl_cons, ih, drainOldest]
    split
    · rfl
    split
    · rfl
    dsimp only
    split
    · exact LabelStore.removeStream_interner _ _
    · rfl

omit [Interner Rodeo Spur] in
theorem shrinks_evictToMax (it : IterOrder ℕ) (s : LogStore Rodeo Spur F64) (maxEntries : ℕ) :
    s.toLabelStore.Shrinks (s.evictToMax it maxEntries).toLabelStore ∧
      (s.evictToMax it maxEntries).interner = s.interner := by
  rw [evictToMax]
  split
  · exact ⟨LabelStore.Shrinks.refl _, rfl⟩
  · exact ⟨shrinks_foldl_drainOldest _ _, interner_foldl_drainOldest _ _⟩

/-- **An eviction to a maximum** leaves as many lines as it may. -/
theorem trims_evictToMax {s : LogStore Rodeo Spur F64} (h : s.Invariant) (it : IterOrder ℕ)
    (maxEntries : ℕ) :
    (s.evictToMax it maxEntries).journal ≤ s.journal ∧
      (s.evictToMax it maxEntries).journal.card = min s.journal.card maxEntries := by
  obtain ⟨hshrinks, hinterner⟩ := shrinks_evictToMax it s maxEntries
  refine ⟨hshrinks.journal_le hinterner, ?_⟩
  obtain ⟨-, hcount, -⟩ := evictToMax_spec it s maxEntries
  have htotal : s.total = s.entryCount := h.total
  rw [journal, journal, LabelStore.card_journal, LabelStore.card_journal]
  omega

end LogStore

/-! ### Metric stores -/

namespace MetricStore

variable {Rodeo Spur F64 : Type} [LinearOrder Spur] [Interner Rodeo Spur]

/-- What the metric store stands for. -/
def journal (s : MetricStore Rodeo Spur F64) : Multiset (LabelBag × Sample F64) :=
  s.toLabelStore.journal fun _ sample => sample

omit [LinearOrder Spur] in
/-- A sample has no keys. -/
theorem readable (s : LabelStore Rodeo Spur (Sample F64)) : s.Readable fun _ sample => sample :=
  fun e _ => settled_const s.interner e

/-- What an item says. -/
def itemElements (item : PreparedItem F64) : List (LabelBag × Sample F64) :=
  item.samples.map fun sample => (↑(("__name__", item.name) :: item.labels), sample)

/-- **The items of a request add what they say**, while there are ids left. -/
theorem journal_ingestItems {s : MetricStore Rodeo Spur F64} (h : s.Sound)
    {items : List (PreparedItem F64)}
    (hroom : s.nextStreamId + s.idsCreated (items.map ingestOp) ≤ u64Max) :
    (s.ingestItems items).journal = s.journal + ↑(items.flatMap itemElements) := by
  induction items generalizing s with
  | nil => exact (add_zero _).symm
  | cons item items ih =>
    rw [List.map_cons, idsCreated, Run.cost] at hroom
    have hnext := nextStreamId_apply_le h.invariant (ingestOp item) (by omega)
    have hstep : (s.ingestSamples item.name item.labels item.samples).journal =
        s.journal + ↑(itemElements item) :=
      h.invariant.toIndexed.journal_ingest (readable s.toLabelStore) _ _
    have hrest := ih (sound_apply h (ingestOp item) (by omega)) (by rw [idsCreated]; omega)
    refine hrest.trans ?_
    show (s.ingestSamples item.name item.labels item.samples).journal + _ = _
    rw [hstep, List.flatMap_cons, ← Multiset.coe_add, add_assoc]

theorem journal_of_onlyRegisters {s s' : MetricStore Rodeo Spur F64} (h : s.Sound)
    (hreg : s.OnlyRegisters s') : s'.journal = s.journal :=
  h.invariant.toIndexed.journal_of_extends (readable _) (by rw [hreg.toLabelStore]) hreg.interner

theorem journal_registerMetas {s : MetricStore Rodeo Spur F64} (h : s.Sound)
    (metas : List PreparedMeta) : (s.registerMetas metas).journal = s.journal :=
  h.invariant.toIndexed.journal_of_extends (readable _) (streams_registerMetas s metas)
    (commits_registerMetas h metas).grows.interner

/-- **A request adds the samples of all its items if it is accepted**, and nothing otherwise. -/
theorem journal_handle [Float64 F64] {s : MetricStore Rodeo Spur F64} (h : s.Sound)
    {e : MetricsEvent F64} {batch : List (PreparedItem F64) × List PreparedMeta}
    (hb : e.batch? = some batch) (hids : s.HasIds e) :
    (s.handle e).journal = s.journal +
      ↑(if s.accepts e then batch.1.flatMap itemElements else []) := by
  have hreg := onlyRegisters_registerItems h.interned batch.1
  cases hacc : s.accepts e with
  | false =>
    have hsame : (s.handle e).journal = s.journal := by
      obtain heq | heq := handle_of_not_accepts hb hacc
      · rw [heq]
      · rw [heq, journal_of_onlyRegisters h hreg]
    rw [hsame]
    exact (add_zero _).symm
  | true =>
    obtain ⟨heq, -⟩ := handle_of_accepts hb hacc
    have hsound := (commits_registerItems h batch.1).sound
    have hroom : (s.registerItems batch.1).1.nextStreamId +
        (s.registerItems batch.1).1.idsCreated (batch.1.map ingestOp) ≤ u64Max := by
      rw [hreg.toLabelStore]
      exact hids batch hb
    rw [heq, journal_registerMetas (commits_ingestItems hsound hroom).1.sound,
      journal_ingestItems hsound hroom, journal_of_onlyRegisters h hreg, if_pos rfl]

theorem journal_evictBefore {s : MetricStore Rodeo Spur F64} (h : s.Sound) (it : IterOrder ℕ)
    (cutoffMs : ℤ) :
    (s.evictBefore it cutoffMs).journal = s.journal.filter fun x => cutoffMs ≤ x.2.timestampMs := by
  rw [journal, toLabelStore_evictBefore]
  exact LabelStore.Sorted.journal_evictBefore (fun _ _ hst => h.invariant.sorted hst) it cutoffMs
    Sample.timestampMs fun _ _ => rfl

theorem journal_clearService {s : MetricStore Rodeo Spur F64} (h : s.Sound) (it : IterOrder ℕ)
    (service : String) :
    (s.clearService it service).journal =
      s.journal.filter fun x => ("service", service) ∉ x.1 := by
  rw [journal, toLabelStore_clearService]
  exact h.invariant.toIndexed.journal_clearService service

omit [LinearOrder Spur] in
/-- There are no more label sets than series. -/
theorem card_labels_le (s : MetricStore Rodeo Spur F64) :
    (s.journal.map Prod.fst).toFinset.card ≤ s.seriesCount := by
  have hsub : (s.journal.map Prod.fst).toFinset ⊆
      s.streams.keys.image fun id => (((s.getStreamLabels id).getD [] : List _) : LabelBag) := by
    intro labels hlabels
    obtain ⟨x, hx, rfl⟩ := Multiset.mem_map.mp (Multiset.mem_toFinset.mp hlabels)
    obtain ⟨id, series, hst, hmem⟩ := Finmap.mem_flatValues.mp hx
    obtain ⟨sample, -, rfl⟩ := List.mem_map.mp hmem
    refine Finset.mem_image.mpr ⟨id, Finmap.mem_keys.mpr (Finmap.mem_of_lookup_eq_some hst), ?_⟩
    rw [LabelStore.getStreamLabels, hst]
    rfl
  exact (Finset.card_le_card hsub).trans Finset.card_image_le

/-- **An eviction to a maximum** leaves samples under no more label sets than it may, and takes
nothing from a store with no more series than that. -/
theorem trims_evictToMax (s : MetricStore Rodeo Spur F64) (it : IterOrder ℕ) (maxSeries : ℕ) :
    (s.evictToMax it maxSeries).journal ≤ s.journal ∧
      ((s.evictToMax it maxSeries).journal.map Prod.fst).toFinset.card ≤ maxSeries ∧
      (s.seriesCount ≤ maxSeries → (s.evictToMax it maxSeries).journal = s.journal) := by
  refine ⟨?_, ?_, fun hle => ?_⟩
  · rw [journal, toLabelStore_evictToMax]
    exact (LabelStore.shrinks_foldl_dropStream s.toLabelStore _).journal_le
      (s.toLabelStore.foldl_dropStream_interner _)
  · have hle := card_labels_le (s.evictToMax it maxSeries)
    rw [seriesCount_evictToMax] at hle
    exact hle.trans (min_le_right _ _)
  · rw [evictToMax, if_pos hle]

end MetricStore

/-! ### Trace stores -/

namespace TraceStore

variable {Rodeo Spur F64 : Type} [LinearOrder Spur] [Interner Rodeo Spur]

omit [LinearOrder Spur] in
/-- What the trace store stands for. -/
def journal (s : TraceStore Rodeo Spur F64) : Multiset (PreparedSpan F64) :=
  s.traces.flatValues (List.map (Span.resolved s.interner))

/-- Every span is filed under its trace id, and reads the same, whatever is interned later. -/
structure Readable (s : TraceStore Rodeo Spur F64) : Prop where
  filed : ∀ t, ∀ span ∈ spansOf s.traces t, span.traceId = t
  settled : ∀ span, s.Holds span → Settled s.interner (fun r => span.resolved r)
    (span.resolved s.interner)

omit [LinearOrder Spur] in
theorem readable_new : (new : TraceStore Rodeo Spur F64).Readable :=
  ⟨fun t span h => absurd ⟨t, h⟩ (not_holds_new span), fun span h => absurd h (not_holds_new span)⟩

omit [LinearOrder Spur] [Interner Rodeo Spur] in
theorem mem_spansOf {s : TraceStore Rodeo Spur F64} {t : TraceId} {spans : List (Span Spur F64)}
    (h : s.traces.lookup t = some spans) {span : Span Spur F64} (hmem : span ∈ spans) :
    span ∈ spansOf s.traces t := by
  rw [spansOf, h]
  exact hmem

omit [LinearOrder Spur] in
/-- The spans read the same in an interner that knows more. -/
theorem Readable.journal_withInterner {s : TraceStore Rodeo Spur F64} (h : s.Readable) {r : Rodeo}
    (hext : Extends s.interner r) : journal { s with interner := r } = s.journal :=
  Finmap.flatValues_congr fun t _ hst => List.map_congr_left fun span hspan =>
    h.settled span ⟨t, mem_spansOf hst hspan⟩ r hext

omit [LinearOrder Spur] in
theorem Readable.withInterner {s : TraceStore Rodeo Spur F64} (h : s.Readable) {r : Rodeo}
    (hext : Extends s.interner r) : Readable { s with interner := r } := by
  refine ⟨h.filed, fun span hspan => ?_⟩
  have hold := h.settled span hspan
  have hsame : span.resolved r = span.resolved s.interner := hold r hext
  show Settled r _ (span.resolved r)
  rw [hsame]
  exact hold.mono hext

omit [LinearOrder Spur] in
theorem Readable.of_shrinks {s s' : TraceStore Rodeo Spur F64} (h : s.Readable) (hs : s.Shrinks s')
    (hinterner : s'.interner = s.interner) : s'.Readable := by
  refine ⟨fun t span hspan => h.filed t span (hs t hspan), fun span hspan => ?_⟩
  rw [hinterner]
  exact h.settled span (hs.holds hspan)

/-- A span more. -/
theorem journal_ingestSpan (s : TraceStore Rodeo Spur F64) (span : Span Spur F64) :
    (s.ingestSpan span).journal = s.journal + {span.resolved s.interner} := by
  rw [journal, ingestSpan]
  cases hst : s.traces.lookup span.traceId with
  | none =>
    have hfresh : span.traceId ∉ s.traces := Finmap.lookup_eq_none.mp hst
    exact Finmap.flatValues_insert_of_notMem hfresh _ _
  | some spans =>
    refine Finmap.flatValues_insert_of_perm hst ?_
    rw [Option.getD_some, List.map_append]
    exact List.Perm.refl _

theorem journal_ingestSpans (s : TraceStore Rodeo Spur F64) (spans : List (Span Spur F64)) :
    (s.ingestSpans spans).journal = s.journal + ↑(spans.map (Span.resolved s.interner)) := by
  induction spans generalizing s with
  | nil => exact (add_zero _).symm
  | cons span spans ih =>
    refine (ih (s.ingestSpan span)).trans ?_
    rw [journal_ingestSpan, add_assoc]
    rfl

theorem Readable.ingestSpan {s : TraceStore Rodeo Spur F64} (h : s.Readable) {span : Span Spur F64}
    (hspan : Settled s.interner (fun r => span.resolved r) (span.resolved s.interner)) :
    (s.ingestSpan span).Readable := by
  have hmem : ∀ t, ∀ x ∈ spansOf (s.ingestSpan span).traces t,
      x ∈ spansOf s.traces t ∨ (t = span.traceId ∧ x = span) := by
    intro t x hx
    rw [TraceStore.ingestSpan, spansOf_insert] at hx
    split at hx
    · next ht =>
      rw [ht]
      exact (List.mem_append.mp hx).imp id fun hx => ⟨rfl, List.mem_singleton.mp hx⟩
    · exact .inl hx
  refine ⟨fun t x hx => ?_, fun x hx => ?_⟩
  · obtain hold | ⟨rfl, rfl⟩ := hmem t x hx
    · exact h.filed t x hold
    · rfl
  · obtain ⟨t, hx⟩ := hx
    obtain hold | ⟨-, rfl⟩ := hmem t x hx
    · exact h.settled x ⟨t, hold⟩
    · exact hspan

theorem Readable.ingestSpans {s : TraceStore Rodeo Spur F64} (h : s.Readable)
    {spans : List (Span Spur F64)} (hspans : ∀ span ∈ spans,
      Settled s.interner (fun r => span.resolved r) (span.resolved s.interner)) :
    (s.ingestSpans spans).Readable := by
  induction spans generalizing s with
  | nil => exact h
  | cons span spans ih =>
    exact ih (h.ingestSpan (hspans span List.mem_cons_self)) fun x hx =>
      hspans x (List.mem_cons_of_mem _ hx)

/-! ### Trace requests -/

/-- `s'` is `s` with the spans of a batch. -/
structure Records (s s' : TraceStore Rodeo Spur F64) (batch : List (PreparedSpan F64)) : Prop where
  readable : s'.Readable
  journal : s'.journal = s.journal + ↑batch
  interner : Extends s.interner s'.interner

omit [LinearOrder Spur] in
theorem Records.refl {s : TraceStore Rodeo Spur F64} (h : s.Readable) : s.Records s [] :=
  ⟨h, (add_zero _).symm, Extends.refl _⟩

omit [LinearOrder Spur] in
theorem Records.trans {s₁ s₂ s₃ : TraceStore Rodeo Spur F64}
    {batch batch' : List (PreparedSpan F64)} (h₁ : s₁.Records s₂ batch)
    (h₂ : s₂.Records s₃ batch') : s₁.Records s₃ (batch ++ batch') where
  readable := h₂.readable
  journal := by rw [h₂.journal, h₁.journal, ← Multiset.coe_add, add_assoc]
  interner := h₁.interner.trans h₂.interner

omit [LinearOrder Spur] in
theorem records_withInterner {s : TraceStore Rodeo Spur F64} (h : s.Readable) {r : Rodeo}
    (hext : Extends s.interner r) : s.Records { s with interner := r } [] where
  readable := h.withInterner hext
  journal := (h.journal_withInterner hext).trans (add_zero _).symm
  interner := hext

omit [LinearOrder Spur] in
/-- A loop over what needs no more of the store than a fact that stays true while strings are
interned. -/
theorem records_foldl {ι : Type} {f : TraceStore Rodeo Spur F64 → ι → TraceStore Rodeo Spur F64}
    {g : ι → List (PreparedSpan F64)} {P : Rodeo → Prop}
    (hP : ∀ {r r' : Rodeo}, Extends r r' → P r → P r')
    (hf : ∀ (s : TraceStore Rodeo Spur F64) i, s.Readable → P s.interner → s.Records (f s i) (g i))
    {s : TraceStore Rodeo Spur F64} (h : s.Readable) (hs : P s.interner) (l : List ι) :
    s.Records (l.foldl f s) (l.flatMap g) := by
  induction l generalizing s with
  | nil => exact Records.refl h
  | cons i l ih =>
    have hstep := hf s i h hs
    exact hstep.trans (ih hstep.readable (hP hstep.interner hs))

/-- What a scope says, under the attributes of its resource. -/
def scopeElements (attrs : PreparedAttrs F64) (group : PreparedScopeGroup F64) :
    List (PreparedSpan F64) :=
  group.2.map (PreparedSpan.under (attrs ++ group.1))

/-- What a resource says. -/
def resourceElements (prepared : PreparedResource F64) : List (PreparedSpan F64) :=
  prepared.2.flatMap (scopeElements prepared.1)

theorem records_ingestScope {s : TraceStore Rodeo Spur F64} (h : s.Readable)
    {resource : Attributes Spur F64} {attrs : PreparedAttrs F64}
    (hresource : Settled s.interner (fun r => resolvedPairs r resource) attrs)
    (group : PreparedScopeGroup F64) :
    s.Records (s.ingestScope resource group) (scopeElements attrs group) := by
  set scope := internEach internAttribute s.interner group.1
  have hscope : Extends s.interner scope.2 := extends_internEach extends_internAttribute _ _
  set spans := internEach (internPreparedSpan (resource ++ scope.1)) scope.2 group.2
  have hspans : Extends scope.2 spans.2 :=
    extends_internEach (extends_internPreparedSpan _) scope.2 group.2
  have hshared : ∀ r', Extends scope.2 r' →
      resolvedPairs r' (resource ++ scope.1) = attrs ++ group.1 := by
    intro r' hext
    rw [resolvedPairs_append]
    exact congrArg₂ (· ++ ·) (hresource r' (hscope.trans hext))
      (settled_internAttributes s.interner group.1 r' hext)
  have hspan : ∀ r p, Extends scope.2 r → Settled (internPreparedSpan (resource ++ scope.1) r p).2
      (fun r' => (internPreparedSpan (resource ++ scope.1) r p).1.resolved r')
      (p.under (attrs ++ group.1)) := fun r p hr =>
    settled_internPreparedSpan (fun r' hr' => hshared r' (hr.trans hr')) p
  have heach : ∀ span ∈ spans.1,
      Settled spans.2 (fun r => span.resolved r) (span.resolved spans.2) := by
    intro span hmem
    obtain ⟨p, -, r, hr, rfl, hext⟩ :=
      mem_internEach (extends_internPreparedSpan (resource ++ scope.1)) hmem
    have hsettled := (hspan r p hr).mono hext
    have hread : (internPreparedSpan (resource ++ scope.1) r p).1.resolved spans.2 =
        p.under (attrs ++ group.1) := hsettled.eq
    rw [hread]
    exact hsettled
  have hbatch : spans.1.map (Span.resolved spans.2) = scopeElements attrs group :=
    (settled_internEach_of_extends (extends_internPreparedSpan _) hspan group.2).eq
  have hknown := hscope.trans hspans
  refine ⟨?_, ?_, ?_⟩
  · exact (h.withInterner hknown).ingestSpans heach
  · rw [← hbatch, ← h.journal_withInterner hknown]
    exact journal_ingestSpans _ spans.1
  · rw [ingestScope, ingestSpans_interner]
    exact hknown

theorem records_ingestResource {s : TraceStore Rodeo Spur F64} (h : s.Readable)
    (prepared : PreparedResource F64) :
    s.Records (s.ingestResource prepared) (resourceElements prepared) := by
  have hext : Extends s.interner (internEach internAttribute s.interner prepared.1).2 :=
    extends_internEach extends_internAttribute _ _
  have hfirst := records_withInterner h hext
  refine hfirst.trans (records_foldl (P := fun r => Settled r (fun r' => resolvedPairs r'
    (internEach internAttribute s.interner prepared.1).1) prepared.1)
    (fun hext hs => hs.mono hext) (fun s' group h' hs' => records_ingestScope h' hs' group)
    hfirst.readable (settled_internAttributes _ _) prepared.2)

/-- **A request adds its spans**, each with the attributes of its resource and its scope. -/
theorem records_ingestTraces [Float64 F64] {s : TraceStore Rodeo Spur F64} (h : s.Readable)
    (seqs : ℕ → ℕ) (request : ExportTraceServiceRequest F64) :
    s.Records (s.ingestTraces seqs request)
      ((preparedResources seqs 0 request).flatMap resourceElements) :=
  records_foldl (P := fun _ => True) (fun _ _ => trivial)
    (fun _ prepared h' _ => records_ingestResource h' prepared) h trivial _

/-! ### Removals of spans -/

/-- **An eviction by age keeps what is young enough.** -/
theorem Invariant.journal_evictBefore {s : TraceStore Rodeo Spur F64} (h : s.Invariant)
    (it : IterOrder TraceId) (cutoffNs : ℤ) :
    (s.evictBefore it cutoffNs).journal = s.journal.filter fun p => cutoffNs ≤ p.startTimeNs := by
  rw [journal, interner_evictBefore,
    Finmap.flatValues_of_lookup_eq_bind (h.evictsBefore it cutoffNs), journal,
    Finmap.filter_flatValues]
  refine Finmap.flatValues_congr fun t spans _ => ?_
  rw [List.filter_map]
  dsimp only
  split
  · next hnil =>
    refine (List.map_eq_nil_iff.mpr ?_).symm
    exact hnil
  · rfl

/-- **`clear_service` keeps the spans of the other services.** -/
theorem Invariant.journal_clearService {s : TraceStore Rodeo Spur F64} (h : s.Invariant)
    (hserv : s.ServicesInterned) (it : IterOrder TraceId) (service : String) :
    (s.clearService it service).journal = s.journal.filter fun p => p.serviceName ≠ service := by
  rw [journal, interner_clearService,
    Finmap.flatValues_of_lookup_eq_bind (lookup_clearService h hserv it service), journal,
    Finmap.filter_flatValues]
  refine Finmap.flatValues_congr fun t spans _ => ?_
  rw [List.filter_map, nonempty?]
  split
  · next hnil =>
    refine (List.map_eq_nil_iff.mpr ?_).symm
    exact List.isEmpty_iff.mp hnil
  · rfl

/-- **An eviction to a maximum** takes whole traces until there are no more spans than it may leave,
and takes nothing from a store with no more spans than that. -/
theorem trims_evictToMax {s : TraceStore Rodeo Spur F64} (h : s.Invariant) (hread : s.Readable)
    (it : IterOrder TraceId) (maxSpans : ℕ) :
    Journal.Whole PreparedSpan.traceId s.journal (s.evictToMax it maxSpans).journal ∧
      (s.evictToMax it maxSpans).journal.card ≤ maxSpans ∧
      (s.journal.card ≤ maxSpans → (s.evictToMax it maxSpans).journal = s.journal) := by
  obtain ⟨removed, -, hevicts⟩ := h.evictsTraces it maxSpans
  have hcard : ∀ s' : TraceStore Rodeo Spur F64, s'.journal.card = s'.traces.total List.length := by
    intro s'
    rw [journal, Finmap.card_flatValues]
    refine congrArg (fun f => s'.traces.total f) ?_
    funext spans
    exact List.length_map _
  refine ⟨⟨fun t => decide (t ∈ (s.evictToMax it maxSpans).traces), ?_⟩, ?_, fun hle => ?_⟩
  · have hid : ∀ {t : TraceId} {spans : List (Span Spur F64)}, s.traces.lookup t = some spans →
        ∀ p ∈ spans.map (Span.resolved s.interner), p.traceId = t := by
      intro t spans hst p hp
      obtain ⟨span, hspan, rfl⟩ := List.mem_map.mp hp
      exact hread.filed t span (mem_spansOf hst hspan)
    have hsub : ∀ t spans, (s.evictToMax it maxSpans).traces.lookup t = some spans →
        s.traces.lookup t = some spans := by
      intro t spans hst
      have hwhole := hevicts.whole t
      rw [hst] at hwhole
      split at hwhole
      · exact absurd hwhole (by simp)
      · exact hwhole.symm
    rw [journal, interner_evictToMax]
    refine Finmap.flatValues_of_lookup_eq_some hsub (fun t spans hst p hp => ?_)
      fun t spans hst hgone p hp => ?_
    · rw [hid (hsub t spans hst) p hp]
      exact decide_eq_true (Finmap.mem_of_lookup_eq_some hst)
    · rw [hid hst p hp]
      simpa using hgone
  · rw [hcard, ← hevicts.total]
    exact hevicts.bound
  · rw [hcard, ← h.total] at hle
    rw [TraceStore.evictToMax, if_pos hle]

end TraceStore

end Aniani
