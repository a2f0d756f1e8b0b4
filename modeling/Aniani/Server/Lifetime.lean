import Aniani.Server.Checkpoint
import Aniani.Server.SnapshotFile
import Aniani.Store.Restore

/-!
# The lifetime of a host

What the invariants of the stores come to for a host that is never set up by hand: requests of the
five kinds in any interleaving, removals between them, snapshots that are taken of one store after
another while all this goes on, saves that fail, and processes that end and are started again from
whatever is on disk. A restart mixes three clones from three points of the run, and recomputes the
identity maps and the next ids from them.

## Main definitions

* `Stores.Lives` — the stores fit, and their next ids are `u64`s
* `FileHost.HasIds` — there are ids left

## Main results

* `Server.lives_step`, `Stores.Lives.mix`, `Stores.Lives.restore`
* `FileHost.consistent_lifetime`
-/

namespace Aniani

open AtomicReplace (Codec)

/-! ### The next id is a `u64` -/

section Bounds

variable {Rodeo Spur F64 : Type} [LinearOrder Spur] [Interner Rodeo Spur]

theorem LabelStore.nextStreamId_ingest_le_u64Max {α : Type} [Timestamped α]
    {s : LabelStore Rodeo Spur α} (h : s.nextStreamId ≤ u64Max) (labels : List (String × String))
    (batch : List α) : (s.ingest labels batch).nextStreamId ≤ u64Max := by
  rw [LabelStore.nextStreamId_ingest]
  split
  · exact h
  · exact min_le_right _ _

theorem LogStore.nextStreamId_ingestBatches_le_u64Max {s : LogStore Rodeo Spur F64}
    (h : s.nextStreamId ≤ u64Max) (batches : List (LogBatch F64)) :
    (s.ingestBatches batches).nextStreamId ≤ u64Max := by
  refine Run.exec_invariant (P := fun s : LogStore Rodeo Spur F64 => s.nextStreamId ≤ u64Max)
    (fun s batch hs => ?_) h batches
  rw [ingestBatch, toLabelStore_ingestStream]
  exact LabelStore.nextStreamId_ingest_le_u64Max (s := (s.internBatch batch).toLabelStore) hs
    batch.labels _

theorem LogStore.nextStreamId_removal_le_u64Max {s : LogStore Rodeo Spur F64} (hs : s.Invariant)
    (h : s.nextStreamId ≤ u64Max) (it : IterOrder ℕ) (r : Removal) :
    (s.apply (r.logOp it)).nextStreamId ≤ u64Max := by
  have hcreated : s.created (r.logOp it : LogOp Spur F64) = 0 := by cases r <;> rfl
  have hle := nextStreamId_apply_le hs (r.logOp it) (by rw [hcreated]; exact h)
  rw [hcreated] at hle
  exact hle.trans h

theorem MetricStore.nextStreamId_removal_le_u64Max {s : MetricStore Rodeo Spur F64}
    (hs : s.Invariant) (h : s.nextStreamId ≤ u64Max) (it : IterOrder ℕ) (r : Removal) :
    (s.apply (r.metricOp it)).nextStreamId ≤ u64Max := by
  have hcreated : s.created (r.metricOp it : MetricOp F64) = 0 := by cases r <;> rfl
  have hle := nextStreamId_apply_le hs (r.metricOp it) (by rw [hcreated]; exact h)
  rw [hcreated] at hle
  exact hle.trans h

theorem MetricStore.nextStreamId_ingestItems_le_u64Max {s : MetricStore Rodeo Spur F64}
    (h : s.nextStreamId ≤ u64Max) (items : List (PreparedItem F64)) :
    (s.ingestItems items).nextStreamId ≤ u64Max :=
  Run.exec_invariant (P := fun s : MetricStore Rodeo Spur F64 => s.nextStreamId ≤ u64Max)
    (fun _ item hs => LabelStore.nextStreamId_ingest_le_u64Max hs
      (("__name__", item.name) :: item.labels) item.samples) h items

theorem MetricStore.nextStreamId_registerMetas (s : MetricStore Rodeo Spur F64)
    (metas : List PreparedMeta) : (s.registerMetas metas).nextStreamId = s.nextStreamId := by
  induction metas generalizing s with
  | nil => rfl
  | cons m metas ih => exact ih (s.registerMetricMetadata m.name (some m.metricType) m.help m.unit)

theorem MetricStore.nextStreamId_handle_le_u64Max [Float64 F64] {s : MetricStore Rodeo Spur F64}
    (hs : s.Sound) (h : s.nextStreamId ≤ u64Max) {e : MetricsEvent F64}
    {batch : List (PreparedItem F64) × List PreparedMeta} (hb : e.batch? = some batch) :
    (s.handle e).nextStreamId ≤ u64Max := by
  have hregister : (s.registerItems batch.1).1.nextStreamId = s.nextStreamId := by
    rw [(onlyRegisters_registerItems hs.interned batch.1).toLabelStore]
  cases hacc : s.accepts e with
  | false =>
    obtain heq | heq := handle_of_not_accepts hb hacc
    · rwa [heq]
    · rwa [heq, hregister]
  | true =>
    rw [(handle_of_accepts hb hacc).1, nextStreamId_registerMetas]
    exact nextStreamId_ingestItems_le_u64Max (hregister.trans_le h) batch.1

end Bounds

/-! ### Stores that live -/

/-- The stores fit, and their next ids are `u64`s. -/
structure Stores.Lives {Rodeo Spur F64 : Type} [LinearOrder Spur] [Interner Rodeo Spur]
    (s : Stores Rodeo Spur F64) : Prop extends s.Fits where
  logIds : s.logStore.nextStreamId ≤ u64Max
  metricIds : s.metricStore.nextStreamId ≤ u64Max

namespace Stores

variable {Rodeo Spur F64 : Type} [LinearOrder Spur] [Interner Rodeo Spur]

theorem lives_new : (new : Stores Rodeo Spur F64).Lives where
  toFits := fits_new
  logIds := Nat.zero_le _
  metricIds := Nat.zero_le _

/-- Nothing that holds of the three stores ties one to another. -/
theorem Lives.mix {s₁ s₂ s₃ : Stores Rodeo Spur F64} (h₁ : s₁.Lives) (h₂ : s₂.Lives)
    (h₃ : s₃.Lives) : Lives ⟨s₁.logStore, s₂.metricStore, s₃.traceStore⟩ where
  logs := h₁.logs
  times := h₁.times
  metrics := h₂.metrics
  traces := h₃.traces
  services := h₃.services
  logIds := h₁.logIds
  metricIds := h₂.metricIds

/-- **A restart keeps stores fitting**, though their ids may be given out again. -/
theorem Lives.restore {s : Stores Rodeo Spur F64} (h : s.Lives) (it : IterOrder ℕ) :
    (s.restore it).Lives := by
  obtain ⟨hlogs, hlogIds⟩ := h.logs.rebuildStreamIds h.logIds it
  have hmetricIds := (h.metrics.invariant.rebuildStreamIds h.metricIds it).2
  exact
    { logs := hlogs
      times := fun {e} he => h.times ((holds_restore it s (.log e)).mp he)
      metrics := MetricStore.sound_apply h.metrics (.rebuildSeriesIds it) h.metricIds
      traces := h.traces
      services := h.services
      logIds := hlogIds.trans h.logIds
      metricIds := hmetricIds.trans h.metricIds }

theorem Lives.ingest [Float64 F64] [SerdeJson F64] {s : Stores Rodeo Spur F64} (h : s.Lives)
    {seqs : ℕ → ℕ} {r : IngestRequest F64} (hids : s.HasIds seqs r) :
    (s.ingest seqs r).Lives := by
  refine { toFits := h.toFits.ingest hids, logIds := ?_, metricIds := ?_ }
  · cases r with
    | otlpLogs clockNs request =>
      exact LogStore.nextStreamId_ingestBatches_le_u64Max h.logIds _
    | lokiPush request => exact LogStore.nextStreamId_ingestBatches_le_u64Max h.logIds _
    | _ => exact h.logIds
  · cases r with
    | otlpMetrics request =>
      exact MetricStore.nextStreamId_handle_le_u64Max h.metrics h.metricIds
        (e := .otlp seqs request) rfl
    | remoteWrite request =>
      exact MetricStore.nextStreamId_handle_le_u64Max h.metrics h.metricIds
        (e := .remoteWrite seqs request) rfl
    | _ => exact h.metricIds

end Stores

/-- **One event keeps the stores fitting.** -/
theorem Server.lives_step {Rodeo Spur F64 : Type} [LinearOrder Spur] [Interner Rodeo Spur]
    [Float64 F64] [SerdeJson F64] {s : Server Rodeo Spur F64} (h : s.state.Lives) {ev : Event F64}
    (hids : s.HasIds ev) : (s.step ev).state.Lives := by
  cases ev with
  | arrive request => exact h
  | stamp i =>
    rw [step]
    split <;> exact h
  | commit i =>
    rw [step]
    split
    · exact h
    · next r hr => exact h.ingest (hids r hr)
  | removeLogs it r =>
    exact { toFits := h.removeLogs it r
            logIds := LogStore.nextStreamId_removal_le_u64Max h.logs h.logIds it r
            metricIds := h.metricIds }
  | removeMetrics it r =>
    exact { toFits := h.removeMetrics it r
            logIds := h.logIds
            metricIds := MetricStore.nextStreamId_removal_le_u64Max h.metrics.invariant
              h.metricIds it r }
  | removeTraces it r =>
    exact { toFits := h.removeTraces it r
            logIds := h.logIds
            metricIds := h.metricIds }

/-! ### The lifetime -/

namespace FileHost

variable {Rodeo Spur F64 : Type} [LinearOrder Spur] [Interner Rodeo Spur] [Float64 F64]
  [SerdeJson F64]

/-- There are ids left for a request that is committed. -/
def HasIds (f : FileHost Rodeo Spur F64) : FileHappening F64 → Prop
  | .server ev => f.server.HasIds ev
  | _ => True

/-- What a restart reads lives if the stores did at every point before. -/
theorem lives_restarted {codec : Codec (Stores Rodeo Spur F64)} {events : List (FileHappening F64)}
    {f : FileHost Rodeo Spur F64} (hclones : f.Clones codec events)
    (hlives : ∀ b, b <+: events → (after codec b).server.state.Lives) (it : IterOrder ℕ) :
    (f.restarted codec it).state.Lives := by
  rcases hclones.safe.load with ⟨-, hload⟩ | ⟨saved, hsaved, hload⟩ <;> rw [restarted, hload]
  · exact Stores.lives_new
  · obtain ⟨b₁, hb₁, hlogs, ⟨b₂, -, hb₂, hmetrics⟩, ⟨b₃, -, hb₃, htraces⟩⟩ :=
      hclones.published saved hsaved
    have hmix := Stores.Lives.mix (hlives b₁ hb₁) (hlives b₂ hb₂) (hlives b₃ hb₃)
    rw [← hlogs, ← hmetrics, ← htraces] at hmix
    exact hmix.restore it

/-- **The stores fit at every point of a lifetime.** The induction is over all the points at once,
since a restart reads clones of earlier ones. -/
theorem lives_after (codec : Codec (Stores Rodeo Spur F64)) (events : List (FileHappening F64))
    (hids : Run.Along (step codec) HasIds (start : FileHost Rodeo Spur F64) events) :
    ∀ b, b <+: events → (after codec b).server.state.Lives := by
  induction events using List.reverseRecOn with
  | nil =>
    intro b hb
    obtain rfl := List.prefix_nil.mp hb
    exact Stores.lives_new
  | append_singleton events ev ih =>
    obtain ⟨hbefore, hev, -⟩ := Run.along_append.mp hids
    have hlives := ih hbefore
    intro b hb
    rcases List.prefix_concat_iff.mp hb with rfl | hb
    · have hclones := clones_after codec events
      have hnow := hlives events List.prefix_rfl
      rw [after_concat]
      cases ev with
      | server ev => exact Server.lives_step hnow hev
      | lock j =>
        rw [step]
        split
        · split <;> exact hnow
        · exact hnow
      | restart it =>
        exact lives_restarted (f := (after codec events).onFiles codec .kill)
          ⟨hclones.saves, fun w hw => by
              simp [onFiles, AtomicReplace.step, AtomicReplace.State.release] at hw,
            hclones.published, hclones.safe.step .kill⟩ hlives it
      | powerLoss k garbage tmp it =>
        exact lives_restarted (f := (after codec events).onFiles codec (.powerLoss k garbage tmp))
          ⟨hclones.saves, fun w hw => by simp [onFiles, AtomicReplace.step] at hw,
            hclones.published, hclones.safe.step (.powerLoss k garbage tmp)⟩ hlives it
      | _ => exact hnow
    · exact hlives b hb

/-- **At every point of a lifetime the stores are consistent and the queries exact**: whatever the
requests, removals and saves, however they interleave, and however often the process or the power
went and three clones were read back. -/
theorem consistent_lifetime (regexNew : String → Option (String → Bool))
    (codec : Codec (Stores Rodeo Spur F64)) (events : List (FileHappening F64))
    (hids : Run.Along (step codec) HasIds (start : FileHost Rodeo Spur F64) events) :
    let s := (Run.exec (step codec) (start : FileHost Rodeo Spur F64) events).server.state
    s.logStore.Consistent ∧ s.metricStore.Consistent ∧ s.traceStore.Consistent ∧
      (s.logStore.IsFilter regexNew fun it itValues matchers =>
        s.logStore.queryStreams regexNew it itValues matchers) ∧
      s.metricStore.IsFilter regexNew fun it itValues matchers =>
        s.metricStore.selectSeries regexNew it itValues matchers := by
  intro s
  have h : s.Lives := lives_after codec events hids events List.prefix_rfl
  exact ⟨h.logs.consistent, h.metrics.invariant.consistent, h.traces.consistent,
    h.logs.toIndexed.isFilter, h.metrics.invariant.toIndexed.isFilter⟩

/-- What a push leaves in empty stores. -/
def pushedStores : Stores VecRodeo ℕ ℤ :=
  (Run.exec Server.step Server.start [.arrive Server.onePush, .stamp 0, .commit 0]).state.toStores

/-- A push, a save, and a restart. -/
def pushAndRestart : List (FileHappening ℤ) :=
  [.server (.arrive Server.onePush), .server (.stamp 0), .server (.commit 0)] ++ quietSave ++
    [.restart (IterOrder.ascending ℕ)]

/-- The process that is started last reads the snapshot with the line. -/
theorem server_pushAndRestart :
    (Run.exec (step (codecOf pushedStores)) (start : FileHost VecRodeo ℕ ℤ) pushAndRestart).server =
      ⟨AppState.seeded (pushedStores.restore (IterOrder.ascending ℕ)), []⟩ := by
  let pushed : FileHost VecRodeo ℕ ℤ := Run.exec (step (codecOf pushedStores)) start
    [.server (.arrive Server.onePush), .server (.stamp 0), .server (.commit 0)]
  have hstores : pushed.server.state.toStores = pushedStores := rfl
  have hread := restarted_quietSave (f := pushed) rfl rfl
    (hstores ▸ serialize_codecOf pushedStores) (IterOrder.ascending ℕ)
  rw [hstores] at hread
  rw [pushAndRestart, Run.exec_append, Run.exec_append, Run.exec_cons, Run.exec_nil, server_restart]
  exact hread

/-- A line that was pushed is there after the restart, in consistent stores. -/
theorem consistent_lifetime_pushAndRestart :
    let s := (Run.exec (step (codecOf pushedStores)) (start : FileHost VecRodeo ℕ ℤ)
      pushAndRestart).server.state
    s.Holds (.log ⟨0, "line", 1, none, none, 0, none, []⟩) ∧
      s.logStore.Consistent ∧ s.metricStore.Consistent ∧ s.traceStore.Consistent ∧
      (s.logStore.IsFilter (fun _ => none) fun it itValues matchers =>
        s.logStore.queryStreams (fun _ => none) it itValues matchers) ∧
      s.metricStore.IsFilter (fun _ => none) fun it itValues matchers =>
        s.metricStore.selectSeries (fun _ => none) it itValues matchers := by
  intro s
  refine ⟨?_, consistent_lifetime _ (codecOf pushedStores) pushAndRestart ?_⟩
  · rw [show s = _ from congrArg Server.state server_pushAndRestart]
    exact (Stores.holds_restore (IterOrder.ascending ℕ) pushedStores (.log _)).mpr
      ⟨0, _, rfl, List.mem_singleton_self _⟩
  · refine ⟨trivial, trivial, Server.along_hasIds_onePush.2.2.1, ?_⟩
    simp [quietSave, Run.Along, HasIds]

end FileHost

end Aniani
