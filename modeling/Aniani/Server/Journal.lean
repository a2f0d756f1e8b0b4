import Aniani.Server.Checkpoint
import Aniani.Store.Journal

/-!
# The server as three journals

Whatever the requests in flight, the order of the commits and the order a hash map is walked in, a
process is three journals: one of log lines under label sets, one of samples, one of spans. A commit
adds what its request says, all of it at once, and a metrics request that is rejected adds nothing.
A removal keeps what passes a test, or is a trim.

So after any run the log store stands for the lines that were pushed and that no later removal was
to take, each as often as it was pushed, as long as no eviction to a maximum had to take any. The
same is true of spans, and of samples.

## Main definitions

* `IngestRequest.logLines`, `samples`, `spans` — what a request says
* `Server.logOp`, `metricOp`, `traceOp` — what an event asks of the journals

## Main results

* `Server.runs_journals` — every run is a run of the three journals
* `Server.journals_history` — nothing is lost, invented or doubled
-/

namespace Aniani

/-! ### What requests say -/

section Requests

variable {F64 : Type}

/-- Filing an entry adds its line to what the batches say. -/
theorem flatMap_pushEntry (labels : List (String × String)) (entry : PreparedLogEntry F64)
    (batches : List (LogBatch F64)) :
    ((pushEntry labels entry batches).flatMap LogStore.batchElements).Perm
      (batches.flatMap LogStore.batchElements ++ [((labels : LabelBag), entry.logLine)]) := by
  induction batches with
  | nil => exact List.Perm.refl _
  | cons batch batches ih =>
    rw [pushEntry]
    split
    · next heq =>
      subst heq
      rw [List.flatMap_cons, List.flatMap_cons, LogStore.batchElements, List.map_append,
        List.append_assoc, List.append_assoc]
      exact List.Perm.append_left _ List.perm_append_comm
    · rw [List.flatMap_cons, List.flatMap_cons, List.append_assoc]
      exact ih.append_left _

/-- Grouping records into batches neither adds a line nor loses one. -/
theorem flatMap_foldl_pushEntry (recs : List (List (String × String) × PreparedLogEntry F64))
    (batches : List (LogBatch F64)) :
    ((recs.foldl (fun batches r => pushEntry r.1 r.2 batches) batches).flatMap
      LogStore.batchElements).Perm (batches.flatMap LogStore.batchElements ++
        recs.map fun r => ((r.1 : LabelBag), r.2.logLine)) := by
  induction recs generalizing batches with
  | nil => rw [List.map_nil, List.append_nil]; exact List.Perm.refl _
  | cons r recs ih =>
    refine (ih _).trans ?_
    have hpush := (flatMap_pushEntry r.1 r.2 batches).append_right
      (recs.map fun r => ((r.1 : LabelBag), r.2.logLine))
    rwa [List.append_assoc] at hpush

variable [Float64 F64] [SerdeJson F64]

/-- The log lines of a request, with the numbers it has taken. -/
def IngestRequest.logLines (seqs : ℕ → ℕ) :
    IngestRequest F64 → Multiset (LabelBag × LogLine F64)
  | .otlpLogs clockNs request => ↑((logRecords request).mapIdx fun n r =>
      ((r.1 : LabelBag), (logEntry (seqs n) (clockNs n) r.2).logLine))
  | .lokiPush request =>
    ↑((lokiBatches seqs 0 request : List (LogBatch F64)).flatMap LogStore.batchElements)
  | _ => 0

/-- The samples of a request. -/
def IngestRequest.samples (seqs : ℕ → ℕ) :
    IngestRequest F64 → Multiset (LabelBag × Sample F64)
  | .otlpMetrics request =>
    ↑((numberItems seqs 0 (requestItems request)).flatMap MetricStore.itemElements)
  | .remoteWrite request =>
    ↑((numberItems seqs 0 (remoteItems request)).flatMap MetricStore.itemElements)
  | _ => 0

/-- The spans of a request, each with the attributes of its resource and its scope. -/
def IngestRequest.spans (seqs : ℕ → ℕ) : IngestRequest F64 → Multiset (PreparedSpan F64)
  | .otlpTraces request => ↑((preparedResources seqs 0 request).flatMap TraceStore.resourceElements)
  | _ => 0

/-- A request as an event of the metric store. -/
def IngestRequest.metricsEvent (seqs : ℕ → ℕ) : IngestRequest F64 → Option (MetricsEvent F64)
  | .otlpMetrics request => some (.otlp seqs request)
  | .remoteWrite request => some (.remoteWrite seqs request)
  | _ => none

end Requests

/-! ### What removals ask -/

namespace Removal

variable {F64 : Type}

/-- Of the log lines. -/
def logJournalOp : Removal → Journal.Op (LabelBag × LogLine F64)
  | .evictBefore cutoff => .keep fun x => cutoff ≤ x.2.timestampNs
  | .evictToMax max => .trim fun j j' => j'.card = min j.card max
  | .clear => .keep fun _ => False
  | .clearService service => .keep fun x => ("service", service) ∉ x.1

/-- Of the samples, in a store with so many series. -/
def metricJournalOp (seriesCount : ℕ) : Removal → Journal.Op (LabelBag × Sample F64)
  | .evictBefore cutoff => .keep fun x => cutoff ≤ x.2.timestampMs
  | .evictToMax max => .trim fun j j' =>
      (j'.map Prod.fst).toFinset.card ≤ max ∧ (seriesCount ≤ max → j' = j)
  | .clear => .keep fun _ => False
  | .clearService service => .keep fun x => ("service", service) ∉ x.1

/-- Of the spans. -/
def traceJournalOp : Removal → Journal.Op (PreparedSpan F64)
  | .evictBefore cutoff => .keep fun p => cutoff ≤ p.startTimeNs
  | .evictToMax max => .trim fun j j' =>
      Journal.Whole PreparedSpan.traceId j j' ∧ j'.card ≤ max ∧ (j.card ≤ max → j' = j)
  | .clear => .keep fun _ => False
  | .clearService service => .keep fun p => p.serviceName ≠ service

end Removal

/-! ### Events -/

namespace Server

variable {Rodeo Spur F64 : Type} [LinearOrder Spur] [Interner Rodeo Spur] [Float64 F64]
  [SerdeJson F64]

/-- The numbers of a request, as it reads them under the lock. -/
def seqsOf (r : InFlight F64) (n : ℕ) : ℕ := r.numbers.getD n 0

/-- What an event asks of the log lines. -/
def logOp (s : Server Rodeo Spur F64) : Event F64 → Journal.Op (LabelBag × LogLine F64)
  | .commit i => .add (((s.ready i).map fun r => r.request.logLines (seqsOf r)).getD 0)
  | .removeLogs _ r => r.logJournalOp
  | _ => .add 0

/-- What an event asks of the samples. -/
def metricOp (s : Server Rodeo Spur F64) : Event F64 → Journal.Op (LabelBag × Sample F64)
  | .commit i => .add (((s.ready i).map fun r =>
      if (r.request.metricsEvent (seqsOf r)).all s.state.metricStore.accepts then
        r.request.samples (seqsOf r)
      else 0).getD 0)
  | .removeMetrics _ r => r.metricJournalOp s.state.metricStore.seriesCount
  | _ => .add 0

/-- What an event asks of the spans. -/
def traceOp (s : Server Rodeo Spur F64) : Event F64 → Journal.Op (PreparedSpan F64)
  | .commit i => .add (((s.ready i).map fun r => r.request.spans (seqsOf r)).getD 0)
  | .removeTraces _ r => r.traceJournalOp
  | _ => .add 0

/-- The stores fit, and what is stored reads the same ever after. -/
structure Legible (s : Server Rodeo Spur F64) : Prop where
  fits : s.state.Fits
  logs : s.state.logStore.Readable LogStore.readEntry
  traces : s.state.traceStore.Readable

omit [Float64 F64] [SerdeJson F64] in
theorem legible_start : (start : Server Rodeo Spur F64).Legible :=
  ⟨Stores.fits_new, LabelStore.readable_new _, TraceStore.readable_new⟩

end Server

/-! ### Steps -/

namespace Stores

variable {Rodeo Spur F64 : Type} [LinearOrder Spur] [Interner Rodeo Spur] [Float64 F64]
  [SerdeJson F64] {s : Stores Rodeo Spur F64}

/-- **A commit adds the lines of its request.** -/
theorem Fits.logs_ingest (h : s.Fits) (hread : s.logStore.Readable LogStore.readEntry)
    {seqs : ℕ → ℕ} {r : IngestRequest F64} (hids : s.HasIds seqs r) :
    (s.ingest seqs r).logStore.Readable LogStore.readEntry ∧
      (s.ingest seqs r).logStore.journal = s.logStore.journal + r.logLines seqs := by
  have hnothing : s.logStore.journal = s.logStore.journal + 0 := (add_zero _).symm
  cases r with
  | otlpLogs clockNs request =>
    obtain ⟨hread', hjournal⟩ := LogStore.journal_ingestBatches h.logs hread hids
    refine ⟨hread', hjournal.trans (congrArg (s.logStore.journal + ·) ?_)⟩
    refine Multiset.coe_eq_coe.mpr ((flatMap_foldl_pushEntry _ []).trans ?_)
    rw [List.flatMap_nil, List.nil_append, List.mapIdx_eq_zipIdx_map, List.map_map,
      List.mapIdx_eq_zipIdx_map]
    exact List.Perm.refl _
  | lokiPush request => exact LogStore.journal_ingestBatches h.logs hread hids
  | otlpMetrics request => exact ⟨hread, hnothing⟩
  | remoteWrite request => exact ⟨hread, hnothing⟩
  | otlpTraces request => exact ⟨hread, hnothing⟩

/-- **A commit adds the samples of its request**, unless the request is rejected. -/
theorem Fits.metrics_ingest (h : s.Fits) {seqs : ℕ → ℕ} {r : IngestRequest F64}
    (hids : s.HasIds seqs r) :
    (s.ingest seqs r).metricStore.journal = s.metricStore.journal +
      if (r.metricsEvent seqs).all s.metricStore.accepts then r.samples seqs else 0 := by
  have hnothing : s.metricStore.journal = s.metricStore.journal + 0 := (add_zero _).symm
  cases r with
  | otlpLogs clockNs request => exact hnothing
  | lokiPush request => exact hnothing
  | otlpMetrics request =>
    refine (MetricStore.journal_handle h.metrics rfl hids).trans ?_
    rw [IngestRequest.metricsEvent, Option.all_some]
    split <;> rfl
  | remoteWrite request =>
    refine (MetricStore.journal_handle h.metrics rfl hids).trans ?_
    rw [IngestRequest.metricsEvent, Option.all_some]
    split <;> rfl
  | otlpTraces request => exact hnothing

/-- **A commit adds the spans of its request.** -/
theorem traces_ingest (hread : s.traceStore.Readable) (seqs : ℕ → ℕ)
    (r : IngestRequest F64) :
    (s.ingest seqs r).traceStore.Readable ∧
      (s.ingest seqs r).traceStore.journal = s.traceStore.journal + r.spans seqs := by
  have hnothing : s.traceStore.journal = s.traceStore.journal + 0 := (add_zero _).symm
  cases r with
  | otlpLogs clockNs request => exact ⟨hread, hnothing⟩
  | lokiPush request => exact ⟨hread, hnothing⟩
  | otlpMetrics request => exact ⟨hread, hnothing⟩
  | remoteWrite request => exact ⟨hread, hnothing⟩
  | otlpTraces request =>
    have hrecords := TraceStore.records_ingestTraces hread seqs request
    exact ⟨hrecords.readable, hrecords.journal⟩

omit [Float64 F64] [SerdeJson F64] in
/-- **A removal from the log store** does what it asks of the journal. -/
theorem Fits.logs_remove (h : s.Fits) (hread : s.logStore.Readable LogStore.readEntry)
    (it : IterOrder ℕ) (r : Removal) :
    (s.removeLogs it r).logStore.Readable LogStore.readEntry ∧
      Journal.Step r.logJournalOp s.logStore.journal (s.removeLogs it r).logStore.journal := by
  cases r with
  | evictBefore cutoff =>
    refine ⟨hread.of_shrinks (s.logStore.toLabelStore.shrinks_evictBefore it cutoff)
      (s.logStore.toLabelStore.evictBefore_frame it cutoff).1, Journal.step_keep ?_⟩
    exact LogStore.journal_evictBefore h.logs it cutoff
  | evictToMax max =>
    obtain ⟨hshrinks, hinterner⟩ := LogStore.shrinks_evictToMax it s.logStore max
    obtain ⟨hle, hcard⟩ := LogStore.trims_evictToMax h.logs it max
    exact ⟨hread.of_shrinks hshrinks hinterner, .trim hle hcard⟩
  | clear =>
    refine ⟨LabelStore.readable_new _, Journal.step_keep ?_⟩
    rw [Multiset.filter_false]
    rfl
  | clearService service =>
    refine ⟨hread.of_shrinks (s.logStore.toLabelStore.shrinks_clearService service)
      (s.logStore.toLabelStore.clearService_interner service), Journal.step_keep ?_⟩
    exact h.logs.toIndexed.journal_clearService service

omit [Float64 F64] [SerdeJson F64] in
/-- **A removal from the metric store** does what it asks of the journal. -/
theorem Fits.metrics_remove (h : s.Fits) (it : IterOrder ℕ) (r : Removal) :
    Journal.Step (r.metricJournalOp s.metricStore.seriesCount) s.metricStore.journal
      (s.removeMetrics it r).metricStore.journal := by
  cases r with
  | evictBefore cutoff =>
    exact Journal.step_keep (MetricStore.journal_evictBefore h.metrics it cutoff)
  | evictToMax max =>
    obtain ⟨hle, htrim⟩ := MetricStore.trims_evictToMax s.metricStore it max
    exact .trim hle htrim
  | clear =>
    refine Journal.step_keep ?_
    rw [Multiset.filter_false]
    rfl
  | clearService service =>
    exact Journal.step_keep (MetricStore.journal_clearService h.metrics it service)

omit [Float64 F64] [SerdeJson F64] in
/-- **A removal from the trace store** does what it asks of the journal. -/
theorem Fits.traces_remove (h : s.Fits) (hread : s.traceStore.Readable) (it : IterOrder TraceId)
    (r : Removal) :
    (s.removeTraces it r).traceStore.Readable ∧
      Journal.Step r.traceJournalOp s.traceStore.journal
        (s.removeTraces it r).traceStore.journal := by
  cases r with
  | evictBefore cutoff =>
    refine ⟨hread.of_shrinks (TraceStore.shrinks_evictBefore it _ cutoff)
      (TraceStore.interner_evictBefore it _ cutoff), Journal.step_keep ?_⟩
    exact h.traces.journal_evictBefore it cutoff
  | evictToMax max =>
    refine ⟨hread.of_shrinks (TraceStore.shrinks_evictToMax it _ max)
      (TraceStore.interner_evictToMax it _ max), ?_⟩
    have htrim := TraceStore.trims_evictToMax h.traces hread it max
    exact .trim htrim.1.le htrim
  | clear =>
    refine ⟨TraceStore.readable_new, Journal.step_keep ?_⟩
    rw [Multiset.filter_false]
    rfl
  | clearService service =>
    refine ⟨hread.of_shrinks (TraceStore.shrinks_clearService it _ service)
      (TraceStore.interner_clearService it _ service), Journal.step_keep ?_⟩
    exact h.traces.journal_clearService h.services it service

end Stores

/-! ### Runs -/

namespace Server

variable {Rodeo Spur F64 : Type} [LinearOrder Spur] [Interner Rodeo Spur] [Float64 F64]
  [SerdeJson F64] {s : Server Rodeo Spur F64} {ev : Event F64}

/-- **One event** does what it asks of each journal. -/
theorem Legible.step (h : s.Legible) (hids : s.HasIds ev) :
    (s.step ev).Legible ∧
      Journal.Step (s.logOp ev) s.state.logStore.journal (s.step ev).state.logStore.journal ∧
      Journal.Step (s.metricOp ev) s.state.metricStore.journal
        (s.step ev).state.metricStore.journal ∧
      Journal.Step (s.traceOp ev) s.state.traceStore.journal
        (s.step ev).state.traceStore.journal := by
  have hfits := fits_step h.fits hids
  have hlogs := Journal.step_add_zero s.state.logStore.journal
  have hmetrics := Journal.step_add_zero s.state.metricStore.journal
  have htraces := Journal.step_add_zero s.state.traceStore.journal
  cases ev with
  | arrive request => exact ⟨⟨hfits, h.logs, h.traces⟩, hlogs, hmetrics, htraces⟩
  | stamp i =>
    have hstores : (s.step (.stamp i)).state.toStores = s.state.toStores := by
      rw [Server.step]
      split <;> rfl
    refine ⟨⟨hfits, ?_, ?_⟩, ?_, ?_, ?_⟩
    · rw [hstores]
      exact h.logs
    · rw [hstores]
      exact h.traces
    · rw [hstores]
      exact hlogs
    · rw [hstores]
      exact hmetrics
    · rw [hstores]
      exact htraces
  | commit i =>
    rw [logOp, metricOp, traceOp]
    cases hr : s.ready i with
    | none =>
      have hsame : s.step (.commit i) = s := by rw [Server.step, hr]
      rw [hsame]
      exact ⟨h, hlogs, hmetrics, htraces⟩
    | some r =>
      have hstores : (s.step (.commit i)).state.toStores =
          s.state.ingest (seqsOf r) r.request := by
        rw [Server.step, hr]
        rfl
      obtain ⟨hreadLogs, hjournalLogs⟩ := h.fits.logs_ingest h.logs (hids r hr)
      obtain ⟨hreadTraces, hjournalTraces⟩ := Stores.traces_ingest h.traces (seqsOf r) r.request
      have hjournalMetrics := h.fits.metrics_ingest (hids r hr)
      refine ⟨⟨hfits, ?_, ?_⟩, ?_, ?_, ?_⟩
      · rw [hstores]
        exact hreadLogs
      · rw [hstores]
        exact hreadTraces
      · rw [hstores]
        exact hjournalLogs ▸ .add _ _
      · rw [hstores]
        exact hjournalMetrics ▸ .add _ _
      · rw [hstores]
        exact hjournalTraces ▸ .add _ _
  | removeLogs it r =>
    obtain ⟨hread, hstep⟩ := h.fits.logs_remove h.logs it r
    exact ⟨⟨hfits, hread, h.traces⟩, hstep, hmetrics, htraces⟩
  | removeMetrics it r =>
    exact ⟨⟨hfits, h.logs, h.traces⟩, hlogs, h.fits.metrics_remove it r, htraces⟩
  | removeTraces it r =>
    obtain ⟨hread, hstep⟩ := h.fits.traces_remove h.traces it r
    exact ⟨⟨hfits, h.logs, hread⟩, hlogs, hmetrics, hstep⟩

/-- Whatever happens, the stores fit, and what is stored reads the same ever after. -/
theorem legible_exec {events : List (Event F64)}
    (hids : Run.Along Server.step HasIds (start : Server Rodeo Spur F64) events) :
    (Run.exec Server.step (start : Server Rodeo Spur F64) events).Legible :=
  Run.exec_invariant_along (P := fun s : Server Rodeo Spur F64 => s.Legible)
    (fun _ _ hids h => (h.step hids).1) legible_start hids

/-- Every run of a process is a run of three journals, from empty ones. -/
theorem runs_journals {events : List (Event F64)}
    (hids : Run.Along Server.step HasIds (start : Server Rodeo Spur F64) events) :
    let s := Run.exec Server.step (start : Server Rodeo Spur F64) events
    Journal.Runs 0 (Run.labels Server.step logOp (start : Server Rodeo Spur F64) events)
        s.state.logStore.journal ∧
      Journal.Runs 0 (Run.labels Server.step metricOp (start : Server Rodeo Spur F64) events)
        s.state.metricStore.journal ∧
      Journal.Runs 0 (Run.labels Server.step traceOp (start : Server Rodeo Spur F64) events)
        s.state.traceStore.journal :=
  have hlegible : ∀ (s : Server Rodeo Spur F64) ev, s.HasIds ev → s.Legible →
      (s.step ev).Legible := fun _ _ hids h => (h.step hids).1
  ⟨Journal.runs_of_step (A := fun s : Server Rodeo Spur F64 => s.state.logStore.journal) hlegible
      (fun _ _ hids h => (h.step hids).2.1) legible_start hids,
    Journal.runs_of_step hlegible (fun _ _ hids h => (h.step hids).2.2.1) legible_start hids,
    Journal.runs_of_step hlegible (fun _ _ hids h => (h.step hids).2.2.2) legible_start hids⟩

/-- An eviction to a maximum finds no more than that. -/
def Roomy (s : Server Rodeo Spur F64) : Event F64 → Prop
  | .removeLogs _ (.evictToMax max) => s.state.logStore.total ≤ max
  | .removeMetrics _ (.evictToMax max) => s.state.metricStore.seriesCount ≤ max
  | .removeTraces _ (.evictToMax max) => s.state.traceStore.totalSpans ≤ max
  | _ => True

/-- With room for what is stored, an eviction to a maximum takes nothing. -/
theorem Roomy.step (h : s.Roomy ev) :
    (∀ R, s.logOp ev = .trim R → (s.step ev).state.logStore = s.state.logStore) ∧
      (∀ R, s.metricOp ev = .trim R → (s.step ev).state.metricStore = s.state.metricStore) ∧
      ∀ R, s.traceOp ev = .trim R → (s.step ev).state.traceStore = s.state.traceStore := by
  cases ev with
  | arrive request => exact ⟨nofun, nofun, nofun⟩
  | stamp i => exact ⟨nofun, nofun, nofun⟩
  | commit i => exact ⟨nofun, nofun, nofun⟩
  | removeLogs it r =>
    refine ⟨fun R hR => ?_, nofun, nofun⟩
    cases r with
    | evictBefore cutoff => exact absurd hR nofun
    | evictToMax max => exact if_pos h
    | clear => exact absurd hR nofun
    | clearService service => exact absurd hR nofun
  | removeMetrics it r =>
    refine ⟨nofun, fun R hR => ?_, nofun⟩
    cases r with
    | evictBefore cutoff => exact absurd hR nofun
    | evictToMax max => exact if_pos h
    | clear => exact absurd hR nofun
    | clearService service => exact absurd hR nofun
  | removeTraces it r =>
    refine ⟨nofun, nofun, fun R hR => ?_⟩
    cases r with
    | evictBefore cutoff => exact absurd hR nofun
    | evictToMax max => exact if_pos h
    | clear => exact absurd hR nofun
    | clearService service => exact absurd hR nofun

/-- If no eviction to a maximum had to take anything, the stores have what was pushed and what no
later removal was to take. -/
theorem journals_eq_history {events : List (Event F64)}
    (hids : Run.Along Server.step HasIds (start : Server Rodeo Spur F64) events)
    (hroomy : Run.Along Server.step Roomy (start : Server Rodeo Spur F64) events) :
    let s := Run.exec Server.step (start : Server Rodeo Spur F64) events
    s.state.logStore.journal = Journal.history
        (Run.labels Server.step logOp (start : Server Rodeo Spur F64) events) ∧
      s.state.metricStore.journal = Journal.history
        (Run.labels Server.step metricOp (start : Server Rodeo Spur F64) events) ∧
      s.state.traceStore.journal = Journal.history
        (Run.labels Server.step traceOp (start : Server Rodeo Spur F64) events) := by
  have hlegible : ∀ (s : Server Rodeo Spur F64) ev, s.HasIds ev ∧ s.Roomy ev → s.Legible →
      (s.step ev).Legible := fun _ _ hev h => (h.step hev.1).1
  refine ⟨?_, ?_, ?_⟩
  · exact Journal.eq_history_of_step
      (A := fun s : Server Rodeo Spur F64 => s.state.logStore.journal)
      hlegible (fun _ _ hev h => (h.step hev.1).2.1)
      (fun _ _ R hev hR => congrArg LogStore.journal (hev.2.step.1 R hR)) legible_start rfl
      (hids.and hroomy)
  · exact Journal.eq_history_of_step
      (A := fun s : Server Rodeo Spur F64 => s.state.metricStore.journal)
      hlegible (fun _ _ hev h => (h.step hev.1).2.2.1)
      (fun _ _ R hev hR => congrArg MetricStore.journal (hev.2.step.2.1 R hR)) legible_start rfl
      (hids.and hroomy)
  · exact Journal.eq_history_of_step
      (A := fun s : Server Rodeo Spur F64 => s.state.traceStore.journal)
      hlegible (fun _ _ hev h => (h.step hev.1).2.2.2)
      (fun _ _ R hev hR => congrArg TraceStore.journal (hev.2.step.2.2 R hR)) legible_start rfl
      (hids.and hroomy)

/-- **What is stored was pushed, and no later removal was to take it.** If no eviction to a maximum
had to take anything, all of that is stored, each line, sample and span as often as it was
pushed. -/
theorem journals_history (events : List (Event F64))
    (hids : Run.Along Server.step HasIds (start : Server Rodeo Spur F64) events) :
    let s := Run.exec Server.step (start : Server Rodeo Spur F64) events
    let logs := Journal.history
      (Run.labels Server.step logOp (start : Server Rodeo Spur F64) events)
    let metrics := Journal.history
      (Run.labels Server.step metricOp (start : Server Rodeo Spur F64) events)
    let traces := Journal.history
      (Run.labels Server.step traceOp (start : Server Rodeo Spur F64) events)
    (s.state.logStore.journal ≤ logs ∧ s.state.metricStore.journal ≤ metrics ∧
        s.state.traceStore.journal ≤ traces) ∧
      (Run.Along Server.step Roomy (start : Server Rodeo Spur F64) events →
        s.state.logStore.journal = logs ∧ s.state.metricStore.journal = metrics ∧
          s.state.traceStore.journal = traces) := by
  intro s logs metrics traces
  obtain ⟨hlogs, hmetrics, htraces⟩ := runs_journals hids
  refine ⟨⟨?_, ?_, ?_⟩, fun hroomy => journals_eq_history hids hroomy⟩
  · have hle := hlogs.le_history
    rwa [Multiset.filter_zero, zero_add] at hle
  · have hle := hmetrics.le_history
    rwa [Multiset.filter_zero, zero_add] at hle
  · have hle := htraces.le_history
    rwa [Multiset.filter_zero, zero_add] at hle

/-- A push, an eviction with room for it, and one of a service that is not its own. -/
def pushAndClear : List (Event ℤ) :=
  [.arrive onePush, .stamp 0, .commit 0, .removeLogs (IterOrder.ascending ℕ) (.evictToMax 1),
    .removeLogs (IterOrder.ascending ℕ) (.clearService "b")]

theorem along_hasIds_pushAndClear :
    Run.Along Server.step HasIds (start : Server VecRodeo ℕ ℤ) pushAndClear :=
  ⟨trivial, trivial, along_hasIds_onePush.2.2.1, trivial, trivial, trivial⟩

theorem journals_history_pushAndClear :
    (Run.exec Server.step (start : Server VecRodeo ℕ ℤ) pushAndClear).state.logStore.journal =
      Journal.history
        (Run.labels Server.step logOp (start : Server VecRodeo ℕ ℤ) pushAndClear) :=
  ((journals_history pushAndClear along_hasIds_pushAndClear).2
    ⟨trivial, trivial, trivial, show 1 ≤ 1 from le_rfl, trivial, trivial⟩).1

end Server

end Aniani
