import Aniani.Server.Checkpoint

/-!
# Resetting a service

`reset` with a service clears it from the three stores, one after another. The log store and the
metric store look the streams up in the index under the label pair `service = name` and drop them.
The trace store looks up the traces with a span of the service, takes the spans of the service out of
each, and removes the traces that are left without any. Each returns at once when a name it looks up
is not interned.

## Main definitions

* `Stores.reset` — the three removals
* `LabelStore.ServiceRemoved`, `TraceStore.ServiceRemoved` — the data of a service is gone, and
  nothing else

## Main results

* `TraceStore.lookup_clearService`
* `reset_service_exact` — in every reachable state, as long as there were ids left
* `reset_after_exhaustion` — and what goes wrong when the ids have run out
-/

namespace Aniani

open Interner

/-! ### The streams of a service -/

/-- **The streams of the service are gone**: the other streams are what they were, by id, labels and
entries. -/
structure LabelStore.ServiceRemoved {Rodeo Spur α : Type} [Interner Rodeo Spur]
    (s s' : LabelStore Rodeo Spur α) (service : String) : Prop where
  streams : ∀ id, s'.streams.lookup id = (s.streams.lookup id).filter fun stream =>
    decide (("service", service) ∉ s.resolveLabels stream.labels)
  labels : s'.resolveLabels = s.resolveLabels

theorem LabelStore.Indexed.serviceRemoved {Rodeo Spur α : Type} [LinearOrder Spur]
    [Interner Rodeo Spur] [Timestamped α] {s : LabelStore Rodeo Spur α} (h : s.Indexed)
    (service : String) : s.ServiceRemoved (s.clearService service) service where
  streams := h.lookup_clearService service
  labels := resolveLabels_congr (clearService_interner s service)

/-! ### The spans of a service -/

namespace TraceStore

variable {Rodeo Spur F64 : Type} [LinearOrder Spur] [Interner Rodeo Spur]

/-- A trace stored with these spans, not stored when there are none. -/
def nonempty? (spans : List (Span Spur F64)) : Option (List (Span Spur F64)) :=
  if spans.isEmpty then none else some spans

/-- **The spans of the service are gone**: every trace keeps its other spans in their order, and a
trace with no other span is not stored any more. -/
structure ServiceRemoved (s s' : TraceStore Rodeo Spur F64) (service : String) : Prop where
  traces : ∀ t, s'.getTrace t = (s.getTrace t).bind fun spans =>
    nonempty? (spans.filter fun span => decide (resolve s.interner span.serviceName ≠ service))
  interner : s'.interner = s.interner

omit [LinearOrder Spur] [Interner Rodeo Spur] in
theorem nonempty?_of_ne_nil {spans : List (Span Spur F64)} (h : spans ≠ []) :
    nonempty? spans = some spans :=
  if_neg (by simpa using h)

omit [Interner Rodeo Spur] in
/-- One turn of the loop touches one trace. -/
theorem lookup_clearServiceTrace (service : Spur) (s : TraceStore Rodeo Spur F64) (t t' : TraceId) :
    (s.clearServiceTrace service t).traces.lookup t' =
      if t' = t then (s.traces.lookup t').bind fun spans =>
        nonempty? (spans.filter fun span => decide (span.serviceName ≠ service))
      else s.traces.lookup t' := by
  rw [clearServiceTrace]
  cases hst : s.traces.lookup t with
  | none =>
    dsimp only
    split
    · next ht => rw [ht, hst]; rfl
    · rfl
  | some spans =>
    dsimp only
    rw [reconcileTraceIndexes_traces]
    dsimp only
    by_cases ht : t' = t
    · subst ht
      rw [if_pos rfl, hst, Option.bind_some, nonempty?]
      split
      · exact Finmap.lookup_erase t' s.traces
      · exact Finmap.lookup_insert s.traces
    · rw [if_neg ht]
      split
      · exact Finmap.lookup_erase_ne ht
      · exact Finmap.lookup_insert_of_ne s.traces ht

omit [Interner Rodeo Spur] in
/-- **The loop** takes the spans of the service out of the traces it visits. -/
theorem lookup_foldl_clearServiceTrace (service : Spur) {ts : List TraceId} (hnodup : ts.Nodup)
    (s : TraceStore Rodeo Spur F64) (t : TraceId) :
    (ts.foldl (clearServiceTrace service) s).traces.lookup t =
      if t ∈ ts then (s.traces.lookup t).bind fun spans =>
        nonempty? (spans.filter fun span => decide (span.serviceName ≠ service))
      else s.traces.lookup t := by
  induction ts generalizing s with
  | nil => simp
  | cons t' ts ih =>
    obtain ⟨ht', hnodup⟩ := List.nodup_cons.mp hnodup
    rw [List.foldl_cons, ih hnodup, lookup_clearServiceTrace]
    by_cases ht : t = t'
    · subst ht
      rw [if_neg ht', if_pos rfl, if_pos List.mem_cons_self]
    · simp [ht]

/-- **`clear_service` takes the spans of the service out of every trace.** -/
theorem lookup_clearService {s : TraceStore Rodeo Spur F64} (h : s.Invariant)
    (hserv : s.ServicesInterned) (it : IterOrder TraceId) (service : String) (t : TraceId) :
    (s.clearService it service).traces.lookup t = (s.traces.lookup t).bind fun spans =>
      nonempty? (spans.filter fun span => decide (resolve s.interner span.serviceName ≠ service)) := by
  -- a trace without a span of the service keeps all of its spans
  have hkeep : (∀ span ∈ spansOf s.traces t, resolve s.interner span.serviceName ≠ service) →
      s.traces.lookup t = (s.traces.lookup t).bind fun spans => nonempty?
        (spans.filter fun span => decide (resolve s.interner span.serviceName ≠ service)) := by
    intro hall
    cases hst : s.traces.lookup t with
    | none => rfl
    | some spans =>
      have hspans : spansOf s.traces t = spans := by rw [spansOf, hst]; rfl
      rw [hspans] at hall
      rw [Option.bind_some, List.filter_eq_self.mpr fun span hspan =>
        decide_eq_true (hall span hspan), nonempty?_of_ne_nil (h.nonempty hst)]
  rw [clearService]
  cases hget : Interner.get s.interner service with
  | none =>
    refine hkeep fun span hspan hres => ?_
    have hvalid := (hserv ⟨t, hspan⟩).get_resolve
    rw [hres, hget] at hvalid
    exact absurd hvalid (by simp)
  | some spur =>
    have hres : ∀ span ∈ spansOf s.traces t,
        resolve s.interner span.serviceName = service ↔ span.serviceName = spur := by
      intro span hspan
      constructor
      · rintro rfl
        exact Option.some.inj ((hserv ⟨t, hspan⟩).get_resolve.symm.trans hget)
      · rintro rfl
        exact resolve_of_get hget
    have hindex : (∃ set, s.serviceIndex.lookup spur = some set ∧ t ∈ set) ↔
        ∃ span ∈ spansOf s.traces t, span.serviceName = spur :=
      (h.index SpanIndex.service).holds_iff spur t
    dsimp only
    cases hset : s.serviceIndex.lookup spur with
    | none =>
      refine hkeep fun span hspan heq => ?_
      obtain ⟨set, hset', -⟩ := hindex.mpr ⟨span, hspan, (hres span hspan).mp heq⟩
      rw [hset] at hset'
      exact absurd hset' (by simp)
    | some traceIds =>
      show (((it.order traceIds).foldl (clearServiceTrace spur) s).rebuildAttrIndex it).traces.lookup
        t = _
      rw [show ∀ s' : TraceStore Rodeo Spur F64, (s'.rebuildAttrIndex it).traces = s'.traces from
        fun _ => rfl, lookup_foldl_clearServiceTrace spur (it.nodup traceIds)]
      split
      · cases hst : s.traces.lookup t with
        | none => rfl
        | some spans =>
          rw [Option.bind_some, Option.bind_some]
          congr 1
          refine List.filter_congr fun span hspan => ?_
          rw [decide_eq_decide, not_iff_not, hres span (by rwa [spansOf, hst])]
      · next hno =>
        refine hkeep fun span hspan heq => hno (it.mem_order.mpr ?_)
        obtain ⟨set, hset', hmem⟩ := hindex.mpr ⟨span, hspan, (hres span hspan).mp heq⟩
        rw [hset] at hset'
        rwa [Option.some.inj hset']

theorem Invariant.serviceRemoved {s : TraceStore Rodeo Spur F64} (h : s.Invariant)
    (hserv : s.ServicesInterned) (it : IterOrder TraceId) (service : String) :
    s.ServiceRemoved (s.clearService it service) service where
  traces := lookup_clearService h hserv it service
  interner := interner_clearService it s service

end TraceStore

/-! ### The request -/

namespace Stores

variable {Rodeo Spur F64 : Type} [LinearOrder Spur] [Interner Rodeo Spur]

/-- `reset` with a service. -/
def reset (it itMetrics : IterOrder ℕ) (itTraces : IterOrder TraceId) (s : Stores Rodeo Spur F64)
    (service : String) : Stores Rodeo Spur F64 :=
  ((s.removeLogs it (.clearService service)).removeMetrics itMetrics
    (.clearService service)).removeTraces itTraces (.clearService service)

/-- **A reset of a service removes the data of the service**, and nothing else, in every reachable
state, as long as there were ids left on the way. -/
theorem reset_service_exact [Float64 F64] [SerdeJson F64] (events : List (Event F64))
    (hevents : Run.Along Server.step Server.HasIds (Server.start : Server Rodeo Spur F64) events)
    (it itMetrics : IterOrder ℕ) (itTraces : IterOrder TraceId) (service : String) :
    let s : Stores Rodeo Spur F64 :=
      (Run.exec Server.step (Server.start : Server Rodeo Spur F64) events).state.toStores
    let s' := s.reset it itMetrics itTraces service
    s.logStore.ServiceRemoved s'.logStore.toLabelStore service ∧
      s.metricStore.ServiceRemoved s'.metricStore.toLabelStore service ∧
      s.traceStore.ServiceRemoved s'.traceStore service := by
  intro s s'
  have hfits : s.Fits := Server.fits_exec hevents
  refine ⟨hfits.logs.toIndexed.serviceRemoved service, ?_,
    hfits.traces.serviceRemoved hfits.services itTraces service⟩
  show s.metricStore.ServiceRemoved (s.metricStore.clearService itMetrics service).toLabelStore service
  rw [MetricStore.toLabelStore_clearService]
  exact hfits.metrics.invariant.toIndexed.serviceRemoved service

/-- A push of one line to a service. -/
def linePush (service : String) : IngestRequest ℤ :=
  .lokiPush [⟨[("service", service)], by simp, [⟨0, zero_mem_i64, "line", none, none, []⟩]⟩]

/-- Of the lines of two services those of one are removed. -/
theorem reset_service_exact_push :
    let s : Stores VecRodeo ℕ ℤ := (Run.exec Server.step Server.start
      [.arrive (linePush "a"), .stamp 0, .commit 0, .arrive (linePush "b"), .stamp 0,
        .commit 0]).state.toStores
    let s' := s.reset (IterOrder.ascending ℕ) (IterOrder.ascending ℕ)
      ⟨Finset.toList, Finset.nodup_toList, Finset.mem_toList⟩ "a"
    s.logStore.ServiceRemoved s'.logStore.toLabelStore "a" ∧
      s.metricStore.ServiceRemoved s'.metricStore.toLabelStore "a" ∧
      s.traceStore.ServiceRemoved s'.traceStore "a" := by
  refine reset_service_exact [.arrive (linePush "a"), .stamp 0, .commit 0, .arrive (linePush "b"),
    .stamp 0, .commit 0] ⟨trivial, trivial, fun r hr => ?_, trivial, trivial, fun r hr => ?_,
      trivial⟩ _ _ _ "a"
  · obtain rfl := Option.some.inj hr
    show 0 + 1 ≤ u64Max
    decide
  · obtain rfl := Option.some.inj hr
    show 1 + 1 ≤ u64Max
    decide

end Stores

/-! ### When the ids have run out -/

section Exhaustion

/-- A Loki push of a stream without values. -/
def emptyPush (label : String × String) : List (Event ℤ) :=
  [.arrive (.lokiPush [⟨[label], by simp, []⟩]), .commit 0]

/-- Create a stream and evict it, `n` times over. -/
def pushRounds (n : ℕ) : List (Event ℤ) :=
  (List.replicate n (emptyPush ("a", "x") ++
    [.removeLogs (IterOrder.ascending ℕ) (.evictBefore 0)])).flatten

/-- The log store of a process without requests in flight. -/
def Resting (s : Server VecRodeo ℕ ℤ) (logs : LogStore VecRodeo ℕ ℤ) : Prop :=
  s.inFlight = [] ∧ s.state.logStore = logs

theorem Resting.push {s : Server VecRodeo ℕ ℤ} {logs : LogStore VecRodeo ℕ ℤ} (h : Resting s logs)
    (label : String × String) :
    Resting (Run.exec Server.step s (emptyPush label)) (logs.ingestStream [label] []) := by
  obtain ⟨state, inFlight⟩ := s
  obtain ⟨rfl, rfl⟩ := h
  exact ⟨rfl, rfl⟩

theorem Resting.rounds {s : Server VecRodeo ℕ ℤ} {logs : LogStore VecRodeo ℕ ℤ}
    (h : Resting s logs) (n : ℕ) :
    Resting (Run.exec Server.step s (pushRounds n)) (Run.exec LogStore.apply logs (rounds n)) := by
  induction n generalizing s logs with
  | zero => exact h
  | succ n ih =>
    rw [pushRounds, Aniani.rounds, List.replicate_succ, List.replicate_succ, List.flatten_cons,
      List.flatten_cons, Run.exec_append, Run.exec_append, Run.exec_append]
    refine ih ?_
    have hpush := h.push ("a", "x")
    exact ⟨hpush.1, congrArg (fun l => LogStore.evictBefore (IterOrder.ascending ℕ) l 0) hpush.2⟩

/-- Use up `n` ids, and push two streams of two services. -/
def exhaustingPushes (n : ℕ) : List (Event ℤ) :=
  pushRounds n ++ (emptyPush ("service", "a") ++ emptyPush ("service", "b"))

theorem not_serviceRemoved_exhausted {n : ℕ} (hn : n = u64Max) :
    let s : Stores VecRodeo ℕ ℤ :=
      (Run.exec Server.step Server.start (exhaustingPushes n)).state.toStores
    ¬ s.logStore.ServiceRemoved (s.reset (IterOrder.ascending ℕ) (IterOrder.ascending ℕ)
      ⟨Finset.toList, Finset.nodup_toList, Finset.mem_toList⟩ "a").logStore.toLabelStore "a" := by
  intro s hremoved
  have hstart : Resting Server.start LogStore.new := ⟨rfl, rfl⟩
  have hspent := spent_rounds n hn.le
  have hlogs := ((hstart.rounds n).push ("service", "a")).push ("service", "b")
  rw [← Run.exec_append, ← Run.exec_append] at hlogs
  obtain ⟨⟨k, v, pl, hk, hv, hpl, hmem⟩, stream, hst, hlabels⟩ :=
    (hn ▸ hspent).stale "service" "a" "b" (by decide)
  have hs : s.logStore.toLabelStore = _ := congrArg LogStore.toLabelStore hlogs.2
  rw [LogStore.toLabelStore_ingestStream, LogStore.toLabelStore_ingestStream] at hs
  rw [hn] at hs
  rw [← hs] at hk hv hpl hst hlabels
  -- the stale posting list makes the reset drop the stream of the other service
  have hgone : (s.logStore.toLabelStore.clearService "a").streams.lookup u64Max = none := by
    have hids : s.logStore.serviceStreams "a" = some pl.ids := by
      simp [LabelStore.serviceStreams, hk, hv, hpl]
    rw [LabelStore.clearService, hids]
    show (pl.ids.foldl LabelStore.dropStream s.logStore.toLabelStore).streams.lookup u64Max = none
    rw [LabelStore.lookup_foldl_dropStream]
    exact if_pos hmem
  have hkept := hremoved.streams u64Max
  rw [hst, Option.filter_some, hlabels, if_pos (by decide)] at hkept
  exact absurd (hgone.symm.trans hkept) (by simp)

/-- **A reset after the ids have run out** drops the stream of another service, which was given the
id of a stream of this one. -/
theorem reset_after_exhaustion :
    let s : Stores VecRodeo ℕ ℤ :=
      (Run.exec Server.step Server.start (exhaustingPushes (2 ^ 64 - 1))).state.toStores
    ¬ s.logStore.ServiceRemoved (s.reset (IterOrder.ascending ℕ) (IterOrder.ascending ℕ)
      ⟨Finset.toList, Finset.nodup_toList, Finset.mem_toList⟩ "a").logStore.toLabelStore "a" :=
  not_serviceRemoved_exhausted rfl

end Exhaustion

end Aniani
