import Aniani.Server.Activity
import Aniani.Server.Numbers
import Aniani.ForMathlib.Run

/-!
# What a checkpoint covers

A checkpoint reads the counter. A request has taken its numbers before it waits for the lock, so a
request that is between the two when the checkpoint is taken stores entries numbered below it. With
no such request, whatever is stored later is numbered at or above the token, and a summary since
the token counts it.

## Main definitions

* `Stores.HasIds` — there are ids left for a request
* `Server.HasIds`, `Server.NoWrap` — the same of the events of a run
* `Server.Idle` — no request has taken a number

## Main results

* `Stores.Fits.ingest`, `Stores.Fits.removeLogs`, `removeMetrics`, `removeTraces`
* `Server.counted_since_checkpoint`
* `Server.stored_below_checkpoint` — a checkpoint between a number and its commit
-/

namespace Aniani

namespace Stores

variable {Rodeo Spur F64 : Type} [LinearOrder Spur] [Interner Rodeo Spur]

/-! ### The stores keep fitting -/

theorem fits_new : (new : Stores Rodeo Spur F64).Fits where
  logs := LabelStore.invariant_new
  times he := absurd he (not_holds_new (.log _))
  metrics := MetricStore.sound_new
  traces := TraceStore.invariant_new
  services he := absurd he (not_holds_new (.span _))

/-- There are ids left for the streams or series a request creates. -/
def HasIds [Float64 F64] [SerdeJson F64] (s : Stores Rodeo Spur F64) (seqs : ℕ → ℕ) :
    IngestRequest F64 → Prop
  | .otlpLogs clockNs request =>
    s.logStore.nextStreamId + s.logStore.idsFor (logBatches seqs clockNs request) ≤ u64Max
  | .lokiPush request =>
    s.logStore.nextStreamId + s.logStore.idsFor (lokiBatches seqs 0 request) ≤ u64Max
  | .otlpMetrics request => s.metricStore.HasIds (.otlp seqs request)
  | .remoteWrite request => s.metricStore.HasIds (.remoteWrite seqs request)
  | .otlpTraces _ => True

theorem Fits.ingest [Float64 F64] [SerdeJson F64] {s : Stores Rodeo Spur F64} (h : s.Fits)
    {seqs : ℕ → ℕ} {r : IngestRequest F64} (hids : s.HasIds seqs r) : (s.ingest seqs r).Fits := by
  cases r with
  | otlpLogs clockNs request =>
    exact { h with
      logs := LogStore.invariant_ingestBatches h.logs hids
      times := fun he => (LogStore.holds_ingestLogs he).elim h.times And.right }
  | lokiPush request =>
    exact { h with
      logs := LogStore.invariant_ingestBatches h.logs hids
      times := fun he => (LogStore.holds_ingestLokiPush he).elim h.times And.right }
  | otlpMetrics request => exact { h with metrics := MetricStore.sound_handle h.metrics hids }
  | remoteWrite request => exact { h with metrics := MetricStore.sound_handle h.metrics hids }
  | otlpTraces request =>
    have hgains := TraceStore.gains_ingestTraces s.traceStore seqs request
    exact { h with
      traces := hgains.invariant h.traces
      services := hgains.interned h.services }

theorem Fits.removeLogs {s : Stores Rodeo Spur F64} (h : s.Fits) (it : IterOrder ℕ)
    (r : Removal) : (s.removeLogs it r).Fits := by
  refine { h with logs := ?_, times := fun {e} he => h.times (holds_removeLogs (e := .log e) he) }
  cases r with
  | evictBefore cutoff => exact h.logs.evictBefore it cutoff
  | evictToMax max =>
    show (s.logStore.evictToMax it max).Invariant
    rw [LogStore.evictToMax]
    split
    · exact h.logs
    · exact LogStore.invariant_foldl_drainOldest h.logs _
  | clear => exact LabelStore.invariant_new
  | clearService service => exact h.logs.clearService service

theorem Fits.removeMetrics [Float64 F64] {s : Stores Rodeo Spur F64} (h : s.Fits) (it : IterOrder ℕ)
    (r : Removal) : (s.removeMetrics it r).Fits := by
  refine { h with metrics := ?_ }
  cases r with
  | evictBefore cutoff =>
    exact MetricStore.sound_handle_of_evicts h.metrics (e := .evictBefore it cutoff) rfl
  | evictToMax max =>
    exact MetricStore.sound_handle_of_evicts h.metrics (e := .evictToMax it max) rfl
  | clear => exact MetricStore.sound_new
  | clearService service =>
    exact MetricStore.sound_handle_of_evicts h.metrics (e := .clearService it service) rfl

theorem Fits.removeTraces {s : Stores Rodeo Spur F64} (h : s.Fits) (it : IterOrder TraceId)
    (r : Removal) : (s.removeTraces it r).Fits := by
  have hservices : s.traceStore.ServicesInterned := fun hspan => h.services hspan
  refine { h with traces := h.traces.apply _, services := ?_ }
  cases r with
  | evictBefore cutoff =>
    exact TraceStore.ServicesInterned.of_shrinks hservices (TraceStore.shrinks_evictBefore it _ cutoff)
      (TraceStore.interner_evictBefore it _ cutoff)
  | evictToMax max =>
    exact TraceStore.ServicesInterned.of_shrinks hservices (TraceStore.shrinks_evictToMax it _ max)
      (TraceStore.interner_evictToMax it _ max)
  | clear => exact fun hspan => absurd hspan (TraceStore.not_holds_new _)
  | clearService service =>
    exact TraceStore.ServicesInterned.of_shrinks hservices (TraceStore.shrinks_clearService it _ service)
      (TraceStore.interner_clearService it _ service)

end Stores

namespace Server

variable {Rodeo Spur F64 : Type} [LinearOrder Spur] [Interner Rodeo Spur] [Float64 F64]
  [SerdeJson F64]

/-! ### Runs -/

/-- There are ids left for a request that is committed. -/
def HasIds (s : Server Rodeo Spur F64) : Event F64 → Prop
  | .commit i => ∀ r, s.ready i = some r →
    s.state.HasIds (fun n => r.numbers.getD n 0) r.request
  | _ => True

omit [LinearOrder Spur] [Interner Rodeo Spur] in
/-- The last number of the counter is not taken. -/
def NoWrap (s : Server Rodeo Spur F64) (ev : Event F64) : Prop :=
  ∀ n, s.handsOut ev = some n → n < u64Max

omit [LinearOrder Spur] [Interner Rodeo Spur] [Float64 F64] [SerdeJson F64] in
/-- No request in flight has taken a number. -/
def Idle (s : Server Rodeo Spur F64) : Prop := ∀ r ∈ s.inFlight, r.numbers = []

theorem fits_step {s : Server Rodeo Spur F64} (h : s.state.Fits) {ev : Event F64}
    (hids : s.HasIds ev) : (s.step ev).state.Fits := by
  cases ev with
  | arrive request => exact h
  | stamp i =>
    rw [step]
    split <;> exact h
  | commit i =>
    rw [step]
    split
    · exact h
    · next r hr => exact h.ingest (hids r hr)
  | removeLogs it r => exact h.removeLogs it r
  | removeMetrics it r => exact h.removeMetrics it r
  | removeTraces it r => exact h.removeTraces it r

/-- With ids left, the stores of a process fit. -/
theorem fits_exec {events : List (Event F64)}
    (hids : Run.Along step HasIds (start : Server Rodeo Spur F64) events) :
    (Run.exec step (start : Server Rodeo Spur F64) events).state.Fits :=
  Run.exec_invariant_along (P := fun s : Server Rodeo Spur F64 => s.state.Fits)
    (fun _ _ hids h => fits_step h hids) Stores.fits_new hids

/-- Since a checkpoint, the counter and what carries its numbers are at or above the token. -/
structure Since (s₀ s : Server Rodeo Spur F64) : Prop where
  counter : s₀.markCheckpoint ≤ s.state.ingestSeq
  carries : s.Carries (fun n => s₀.markCheckpoint ≤ n)
    (fun e => s₀.state.Holds e ∨ s₀.markCheckpoint ≤ e.ingestSeq)

omit [LinearOrder Spur] [Interner Rodeo Spur] [Float64 F64] [SerdeJson F64] in
theorem Idle.since {s : Server Rodeo Spur F64} (h : s.Idle) : s.Since s where
  counter := le_rfl
  carries := ⟨fun r hr n hn => by simp [h r hr] at hn, fun _ => .inl⟩

/-- A number taken after the checkpoint is at or above the token. -/
theorem Since.step {s₀ s : Server Rodeo Spur F64} (h : s₀.Since s) {ev : Event F64}
    (hwrap : s.NoWrap ev) : s₀.Since (s.step ev) where
  counter := by
    rw [ingestSeq_step]
    have hle := h.counter
    split
    · exact hle
    · next hout =>
      obtain ⟨n, hn⟩ := Option.ne_none_iff_exists'.mp hout
      have hlt := hwrap n hn
      rw [eq_of_handsOut hn, u64Max] at hlt
      omega
  carries := h.carries.step (fun _ => .inr) fun n hn => eq_of_handsOut hn ▸ h.counter

/-- **Nothing is lost to a checkpoint** taken while no request has a number. In any run from there
that does not exhaust the counter or the ids, what is stored was stored at the checkpoint, or is
numbered at or above the token and counted by a summary since the token. -/
theorem counted_since_checkpoint (regexNew : String → Option (String → Bool)) (it : IterOrder ℕ)
    (itValues : IterOrder Spur) (itTraces : IterOrder TraceId) (before after : List (Event F64))
    (hids : Run.Along step HasIds (start : Server Rodeo Spur F64) (before ++ after)) :
    let s₀ : Server Rodeo Spur F64 := Run.exec step start before
    let s := Run.exec step s₀ after
    s₀.Idle → Run.Along step NoWrap s₀ after → ∀ e, s.state.Holds e →
      s₀.state.Holds e ∨ s₀.markCheckpoint ≤ e.ingestSeq ∧
        s.state.Counts regexNew it itValues itTraces (some s₀.markCheckpoint) e := by
  intro s₀ s hidle hwrap e he
  have hsince : s₀.Since s := Run.exec_invariant_along (P := fun s => s₀.Since s)
    (fun _ _ hwrap h => h.step hwrap) hidle.since hwrap
  have hfits : s.state.Fits := by
    have := fits_exec hids
    rwa [Run.exec_append] at this
  refine (hsince.carries.stored e he).imp_right fun hle => ⟨hle, hfits.counts ?_⟩
  exact decide_eq_true hle

/-! ### Before and after the numbers -/

/-- A push of one line. -/
def onePush : IngestRequest ℤ :=
  .lokiPush [⟨[("service", "a")], List.nodup_singleton "service",
    [⟨0, zero_mem_i64, "line", none, none, []⟩]⟩]

theorem along_hasIds_onePush : Run.Along step HasIds (start : Server VecRodeo ℕ ℤ)
    [.arrive onePush, .stamp 0, .commit 0] := by
  refine ⟨trivial, trivial, fun r hr => ?_, trivial⟩
  obtain rfl := Option.some.inj hr
  show 0 + 1 ≤ u64Max
  decide

/-- A push that arrives after the checkpoint is counted. -/
theorem counted_since_checkpoint_push :
    let s₀ : Server VecRodeo ℕ ℤ := start
    let s := Run.exec step s₀ [.arrive onePush, .stamp 0, .commit 0]
    ∀ e, s.state.Holds e → s₀.state.Holds e ∨ s₀.markCheckpoint ≤ e.ingestSeq ∧
      s.state.Counts (fun _ => none) (IterOrder.ascending ℕ) (IterOrder.ascending ℕ)
        ⟨Finset.toList, Finset.nodup_toList, Finset.mem_toList⟩ (some s₀.markCheckpoint) e := by
  refine counted_since_checkpoint _ _ _ _ [] [.arrive onePush, .stamp 0, .commit 0]
    along_hasIds_onePush (fun r hr => by simp [start] at hr)
    ⟨fun n hn => ?_, fun n hn => ?_, fun n hn => ?_, trivial⟩
  · simp [handsOut] at hn
  · rw [eq_of_handsOut hn]
    decide
  · simp [handsOut] at hn

/-- **A checkpoint between a number and its commit.** The token is 2, and the line stored after it
has the number 1. -/
theorem stored_below_checkpoint :
    let s₀ : Server VecRodeo ℕ ℤ := Run.exec step start [.arrive onePush, .stamp 0]
    let s := Run.exec step s₀ [.commit 0]
    ¬ ∀ e, s.state.Holds e → s₀.state.Holds e ∨ s₀.markCheckpoint ≤ e.ingestSeq := by
  intro s₀ s h
  rcases h (.log ⟨0, "line", 1, none, none, 0, none, []⟩)
    ⟨0, _, rfl, List.mem_singleton_self _⟩ with hold | hle
  · exact Stores.not_holds_new _ hold
  · exact absurd (show 2 ≤ 1 from hle) (by decide)

end Server

end Aniani
