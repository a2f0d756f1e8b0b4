import Aniani.Store.LogStore

/-!
# From a trace to its logs

The trace index of a log store should answer, for every trace id, which live streams hold an entry
of the trace. Ingest, the two evictions and `clear` keep it so. `clear_service` takes streams out
without touching the index, so it keeps the answer only when the streams it takes out hold no
entry of any trace.

## Main definitions

* `LogStore.HoldsTrace` — a live stream holds an entry of the trace
* `LogStore.TraceLookupExact` — the index answers that question
* `LogStore.KeepsTraces` — the condition on a step under which it goes on doing so

## Main results

* `LogStore.traceLookupExact_exec` — along every run whose steps meet the condition
* `LogStore.traceLookup_stale_after_clearService` — a run with a step that does not
-/

namespace Aniani

namespace LogStore

variable {Rodeo Spur F64 : Type}

/-- A live stream holds an entry of the trace. -/
def HoldsTrace (s : LogStore Rodeo Spur F64) (t : TraceId) (id : ℕ) : Prop :=
  ∃ stream, s.streams.lookup id = some stream ∧ ∃ e ∈ stream.entries, e.traceId = some t

/-- `streams_for_trace` lists the streams that hold the trace, each once, and no set in the index
is empty. -/
def TraceLookupExact (s : LogStore Rodeo Spur F64) : Prop :=
  (∀ it t, (s.streamsForTrace it t).Nodup ∧
    ∀ id, id ∈ s.streamsForTrace it t ↔ s.HoldsTrace t id) ∧
  ∀ t ids, s.traceIndex.lookup t = some ids → ids ≠ ∅

theorem traceLookupExact_of_represents {s : LogStore Rodeo Spur F64}
    (h : InvertedIndex.Represents s.traceIndex s.HoldsTrace) : s.TraceLookupExact := by
  refine ⟨fun it t => ?_, fun t ids hids => ?_⟩
  · rw [streamsForTrace]
    cases hids : s.traceIndex.lookup t with
    | none =>
      refine ⟨List.nodup_nil, fun id => ?_⟩
      rw [← h.holds_iff]
      simp [InvertedIndex.Holds, hids]
    | some ids => exact ⟨it.nodup ids, fun id => it.mem_order.trans (h.mem_lookup hids id)⟩
  · obtain ⟨id, hid⟩ := h.nonempty t ids hids
    exact Finset.ne_empty_of_mem hid

/-! ### Rebuilding -/

theorem mem_tracePairs {id : ℕ} {entries : List (LogEntry Spur F64)} {t : TraceId} {i : ℕ} :
    (t, i) ∈ tracePairs id entries ↔ i = id ∧ ∃ e ∈ entries, e.traceId = some t := by
  rw [tracePairs, List.mem_filterMap]
  constructor
  · rintro ⟨e, he, hpair⟩
    obtain ⟨t', ht', heq⟩ := Option.map_eq_some_iff.mp hpair
    obtain ⟨rfl, rfl⟩ := Prod.mk.inj heq
    exact ⟨rfl, e, he, ht'⟩
  · rintro ⟨rfl, e, he, ht⟩
    exact ⟨e, he, by rw [ht]; rfl⟩

/-- **A rebuilt index is right whatever it was before.** -/
theorem represents_rebuildTraceIndex (it : IterOrder ℕ) (s : LogStore Rodeo Spur F64) :
    InvertedIndex.Represents (s.rebuildTraceIndex it).traceIndex
      (s.rebuildTraceIndex it).HoldsTrace := by
  refine (InvertedIndex.represents_empty.addAll _).congr fun t i => ?_
  show (t, i) ∈ List.flatMap _ _ ∨ False ↔ s.HoldsTrace t i
  rw [or_false, List.mem_flatMap]
  constructor
  · rintro ⟨id, -, hmem⟩
    cases hst : s.streams.lookup id with
    | none => simp [hst] at hmem
    | some stream =>
      rw [hst] at hmem
      obtain ⟨rfl, e, he, ht⟩ := mem_tracePairs.mp hmem
      exact ⟨stream, hst, e, he, ht⟩
  · rintro ⟨stream, hst, e, he, ht⟩
    refine ⟨i, IterOrder.mem_keys.mpr (Finmap.mem_of_lookup_eq_some hst), ?_⟩
    rw [hst]
    exact mem_tracePairs.mpr ⟨rfl, e, he, ht⟩

/-! ### The steps -/

variable [LinearOrder Spur] [Interner Rodeo Spur]

/-- Finding the stream of a label set moves no entry. -/
theorem holdsTrace_streamFor {s : LogStore Rodeo Spur F64} (h : s.Invariant)
    (labels : List (String × String)) (t : TraceId) (i : ℕ) :
    HoldsTrace { s with toLabelStore := (s.toLabelStore.streamFor labels).1 } t i ↔
      s.HoldsTrace t i := by
  have hstreams : (s.toLabelStore.streamFor labels).1.streams = s.streams ∨
      ∃ pairs, (s.toLabelStore.streamFor labels).1.streams =
        s.streams.insert s.nextStreamId ⟨pairs, []⟩ := by
    rw [LabelStore.streamFor]
    split
    · exact Or.inl rfl
    · exact Or.inr ⟨_, rfl⟩
  unfold HoldsTrace
  dsimp only
  rcases hstreams with heq | ⟨pairs, heq⟩
  · rw [heq]
  · rw [heq, Finmap.lookup_insert_eq_ite]
    by_cases hi : i = s.nextStreamId
    · subst hi; simp [h.lookup_nextStreamId]
    · simp [hi]

theorem represents_ingestStream {s : LogStore Rodeo Spur F64} (h : s.Invariant)
    (ht : InvertedIndex.Represents s.traceIndex s.HoldsTrace) {labels : List (String × String)}
    (hroom : s.nextStreamId + s.toLabelStore.created labels ≤ u64Max)
    (entries : List (LogEntry Spur F64)) :
    InvertedIndex.Represents (s.ingestStream labels entries).traceIndex
      (s.ingestStream labels entries).HoldsTrace := by
  obtain ⟨-, stream, hst, -⟩ := h.streamFor hroom
  have hself : s.ingestStream labels entries = {
      toLabelStore := (s.toLabelStore.streamFor labels).1.extendStream
        (s.toLabelStore.streamFor labels).2 entries
      traceIndex := InvertedIndex.addAll s.traceIndex
        (tracePairs (s.toLabelStore.streamFor labels).2 entries) } := by
    rw [ingestStream]
    dsimp only
    rw [hst]
  rw [hself]
  generalize (s.toLabelStore.streamFor labels).2 = id at hst
  refine (ht.addAll _).congr fun t i => ?_
  rw [mem_tracePairs, ← holdsTrace_streamFor h labels, LabelStore.extendStream, hst]
  simp only [HoldsTrace, Finmap.lookup_insert_eq_ite]
  by_cases hi : i = id
  · subst hi
    simp only [hst, (appendBatch_perm _ _).mem_iff, List.mem_append, Option.some.injEq,
      exists_eq_left', true_and, if_true]
    constructor
    · rintro (⟨e, he, hte⟩ | ⟨e, he, hte⟩)
      · exact ⟨e, Or.inr he, hte⟩
      · exact ⟨e, Or.inl he, hte⟩
    · rintro ⟨e, he | he, hte⟩
      · exact Or.inr ⟨e, he, hte⟩
      · exact Or.inl ⟨e, he, hte⟩
  · simp [hi]

/-- The condition on a step: an ingest has an id left for a stream it creates, and a
`clear_service` finds no entry of a trace in a stream labelled with the service. -/
def KeepsTraces (s : LogStore Rodeo Spur F64) : LogOp Spur F64 → Prop
  | .ingestStream labels _ => s.nextStreamId + s.toLabelStore.created labels ≤ u64Max
  | .clearService service => ∀ id stream, s.streams.lookup id = some stream →
      ("service", service) ∈ s.resolveLabels stream.labels →
        ∀ e ∈ stream.entries, e.traceId = none
  | _ => True

theorem represents_clearService {s : LogStore Rodeo Spur F64} (h : s.Invariant)
    (ht : InvertedIndex.Represents s.traceIndex s.HoldsTrace) {service : String}
    (hnone : s.KeepsTraces (.clearService service)) :
    InvertedIndex.Represents (s.clearService service).traceIndex
      (s.clearService service).HoldsTrace := by
  refine ht.congr fun t i => ?_
  unfold HoldsTrace clearService
  rw [h.lookup_clearService service i]
  constructor
  · rintro ⟨stream, hst, e, he, hte⟩
    refine ⟨stream, Option.filter_eq_some_iff.mpr ⟨hst, ?_⟩, e, he, hte⟩
    rw [decide_eq_true_eq]
    intro hservice
    rw [hnone i stream hst hservice e he] at hte
    exact absurd hte (by simp)
  · rintro ⟨stream, hst, e, he, hte⟩
    exact ⟨stream, (Option.filter_eq_some_iff.mp hst).1, e, he, hte⟩

/-- The next id never passes `u64::MAX`. -/
theorem nextStreamId_le_apply {s : LogStore Rodeo Spur F64} (h : s.Invariant)
    (hle : s.nextStreamId ≤ u64Max) {op : LogOp Spur F64} (hop : s.KeepsTraces op) :
    s.nextStreamId + s.created op ≤ u64Max ∧ (s.apply op).nextStreamId ≤ u64Max := by
  have hroom : s.nextStreamId + s.created op ≤ u64Max := by
    cases op with
    | ingestStream labels entries => exact hop
    | _ => exact hle
  exact ⟨hroom, (nextStreamId_apply_le h op hroom).trans hroom⟩

theorem represents_apply {s : LogStore Rodeo Spur F64} (h : s.Invariant)
    (ht : InvertedIndex.Represents s.traceIndex s.HoldsTrace) {op : LogOp Spur F64}
    (hop : s.KeepsTraces op) :
    InvertedIndex.Represents (s.apply op).traceIndex (s.apply op).HoldsTrace := by
  cases op with
  | ingestStream labels entries => exact represents_ingestStream h ht hop entries
  | intern string => exact ht
  | evictBefore it cutoffNs => exact represents_rebuildTraceIndex it _
  | evictToMax it maxEntries =>
    rw [apply, evictToMax]
    split
    · exact ht
    · exact represents_rebuildTraceIndex it _
  | clear =>
    refine InvertedIndex.represents_empty.congr fun t i => ?_
    simp [HoldsTrace, apply, clear, new, LabelStore.new]
  | clearService service => exact represents_clearService h ht hop
  | rebuildStreamIds it =>
    refine ht.congr fun t i => ?_
    simp only [HoldsTrace, apply, rebuildStreamIds, (LabelStore.rebuildStreamIds_frame _ _).1]

/-! ### Runs -/

/-- **Log lookup by trace is exact after every step of a run** whose `clear_service` steps find no
entry of a trace to remove, and whose ingests have ids left. -/
theorem traceLookupExact_exec (ops : List (LogOp Spur F64))
    (hops : Run.Along apply KeepsTraces (new : LogStore Rodeo Spur F64) ops) :
    (Run.exec apply (new : LogStore Rodeo Spur F64) ops).TraceLookupExact := by
  have hnew : InvertedIndex.Represents (new : LogStore Rodeo Spur F64).traceIndex
      (new : LogStore Rodeo Spur F64).HoldsTrace :=
    InvertedIndex.represents_empty.congr fun t i => by simp [HoldsTrace, new, LabelStore.new]
  have hrun := Run.exec_invariant_along (C := KeepsTraces)
    (P := fun s : LogStore Rodeo Spur F64 => s.Invariant ∧ s.nextStreamId ≤ u64Max ∧
      InvertedIndex.Represents s.traceIndex s.HoldsTrace)
    (fun s op hop hs => by
      obtain ⟨hroom, hle⟩ := nextStreamId_le_apply hs.1 hs.2.1 hop
      exact ⟨invariant_apply hs.1 op hroom, hle, represents_apply hs.1 hs.2.2 hop⟩)
    ⟨LabelStore.invariant_new, Nat.zero_le _, hnew⟩ hops
  exact traceLookupExact_of_represents hrun.2.2

/-- An entry that says nothing but when it was, and of which trace. -/
def entryOf (timestampNs : ℤ) (traceId : Option TraceId) : LogEntry ℕ ℤ :=
  ⟨timestampNs, "", 0, traceId, none, 0, none, []⟩

/-- A run that clears a service whose only entry belongs to no trace. -/
theorem traceLookupExact_exec_clearService :
    (Run.exec apply (new : LogStore VecRodeo ℕ ℤ)
      [.ingestStream [("service", "a")] [entryOf 0 none],
        .ingestStream [("service", "b")] [entryOf 0 (some (Vector.replicate 16 7))],
        .clearService "a"]).TraceLookupExact := by
  refine traceLookupExact_exec _ ⟨?_, ?_, ?_, trivial⟩
  · show _ ≤ u64Max
    decide
  · show _ ≤ u64Max
    decide
  · intro id stream hst hservice e he
    have hst : Finmap.lookup id (Finmap.insert 1 ⟨[(0, 2)], [entryOf 0 (some _)]⟩
      (Finmap.insert 1 ⟨[(0, 2)], []⟩ (Finmap.insert 0 ⟨[(0, 1)], [entryOf 0 none]⟩
        (Finmap.insert 0 ⟨[(0, 1)], []⟩ ∅))) : FxHashMap ℕ (Stream ℕ (LogEntry ℕ ℤ))) =
          some stream := hst
    simp only [Finmap.lookup_insert_eq_ite] at hst
    split at hst
    · obtain rfl := Option.some.inj hst
      exact absurd hservice (by decide)
    split at hst
    · obtain rfl := Option.some.inj hst
      obtain rfl := List.mem_singleton.mp he
      rfl
    · exact absurd hst (by simp)

/-- **`clear_service` leaves the index stale** when a stream it takes out held an entry of a
trace: the stream is gone and is still listed for the trace. -/
theorem traceLookup_stale_after_clearService :
    ¬ (Run.exec apply (new : LogStore VecRodeo ℕ ℤ)
      [.ingestStream [("service", "a")] [entryOf 0 (some (Vector.replicate 16 7))],
        .clearService "a"]).TraceLookupExact := by
  intro h
  obtain ⟨stream, hst, -⟩ :=
    ((h.1 (IterOrder.ascending ℕ) (Vector.replicate 16 7)).2 0).mp (by decide)
  have hgone : Finmap.lookup 0 (Run.exec apply (new : LogStore VecRodeo ℕ ℤ)
      [.ingestStream [("service", "a")] [entryOf 0 (some (Vector.replicate 16 7))],
        .clearService "a"]).streams = none := rfl
  rw [hgone] at hst
  exact absurd hst (by simp)

end LogStore

end Aniani
