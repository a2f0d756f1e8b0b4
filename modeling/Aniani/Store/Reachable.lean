import Aniani.Store.LogStore
import Aniani.Store.MetricStore

/-!
# Reachable stores are consistent

What holds of the log store and of the metric store after any sequence of their operations,
starting empty. The operations themselves are treated with each store; here the two run lemmas are
read out in terms of the maps.

## Main results

* `consistent_stores_exec` — the indexes, the identity map, the next id, the total and the order
-/

namespace Aniani

variable {Rodeo Spur F64 : Type} [LinearOrder Spur] [Interner Rodeo Spur]

/-- **Every reachable store is consistent**, as long as fewer than `2 ^ 64 - 1` ids were created on
the way. -/
theorem consistent_stores_exec (logOps : List (LogOp Spur F64)) (metricOps : List (MetricOp F64))
    (hlog : (LogStore.new : LogStore Rodeo Spur F64).idsCreated logOps < 2 ^ 64 - 1)
    (hmetric : (MetricStore.new : MetricStore Rodeo Spur F64).idsCreated metricOps < 2 ^ 64 - 1) :
    (Run.exec LogStore.apply (LogStore.new : LogStore Rodeo Spur F64) logOps).Consistent ∧
      (Run.exec MetricStore.apply (MetricStore.new : MetricStore Rodeo Spur F64)
        metricOps).Consistent := by
  constructor
  · refine (LogStore.invariant_exec LabelStore.invariant_new ?_).consistent
    show 0 + _ ≤ u64Max
    rw [Nat.zero_add]
    exact hlog.le
  · refine (MetricStore.invariant_exec LabelStore.invariant_new ?_).consistent
    show 0 + _ ≤ u64Max
    rw [Nat.zero_add]
    exact hmetric.le

/-- Two streams with a label in common, out of order and with a pair given twice, evicted down to
one entry and cleared by service. -/
theorem consistent_stores_exec_shared_label :
    (Run.exec LogStore.apply (LogStore.new : LogStore VecRodeo ℕ ℤ)
      [.ingestStream [("service", "a"), ("env", "x"), ("env", "x")]
          [⟨5, "late", 0, none, none, 0, none, []⟩, ⟨3, "early", 1, none, none, 0, none, []⟩],
        .ingestStream [("service", "b"), ("env", "x")] [⟨4, "other", 2, none, none, 0, none, []⟩],
        .evictToMax (IterOrder.ascending ℕ) 2, .clearService "a"]).Consistent ∧
      (Run.exec MetricStore.apply (MetricStore.new : MetricStore VecRodeo ℕ ℤ)
        [.ingestSamples "up" [("service", "a")] [⟨1, 1, 0⟩],
          .evictBefore (IterOrder.ascending ℕ) 2]).Consistent :=
  consistent_stores_exec _ _ (by decide) (by decide)

end Aniani
