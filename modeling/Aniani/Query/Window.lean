import Aniani.Store.Contents
import Aniani.Store.LogStore
import Aniani.Store.MetricStore

/-!
# Reading a window of a stream

`get_entries` and `get_samples` cut a stream with one binary search for each end of the window and
slice between the two. The handlers pass the ends on as they were parsed. The LogQL range handler
caps the number of steps, which a window that ends before it starts meets with none, and the PromQL
series handler checks nothing.

On a sorted stream the slice is the window, except when the window ends before it starts and an
entry lies strictly in between: the boundaries then come in the wrong order, and the slice is out
of range.

## Main definitions

* `stepCapRejects`, `hasSamplesInRange` — what the handlers make of the two ends
* `LabelStore.window` — the part of a stream between two times

## Main results

* `getRange_eq_window_iff` — when a read gives the window, along every run of either store
-/

namespace Aniani

/-! ### What the handlers let through -/

/-- `i64::saturating_sub`. -/
def i64SaturatingSub (a b : ℤ) : ℤ := max i64Min (min i64Max (a - b))

/-- `MAX_QUERY_STEPS`. -/
def maxQuerySteps : ℤ := 11000

/-- The check of `query_range_inner` on the window, given the effective step of the query. -/
def stepCapRejects (startNs endNs : ℤ) (effectiveStepNs : Option ℤ) : Bool :=
  match effectiveStepNs with
  | some step =>
    decide (0 < step ∧ maxQuerySteps ≤ max (i64SaturatingSub endNs startNs) 0 / step)
  | none => false

variable {Rodeo Spur F64 : Type}

/-- The filter of the PromQL series handler, nothing where reading the samples fails. -/
def hasSamplesInRange (s : MetricStore Rodeo Spur F64) (startMs endMs : Option ℤ) (id : ℕ) :
    Option Bool :=
  if startMs.isNone && endMs.isNone then some true
  else (s.getSamples id (startMs.getD i64Min) (endMs.getD i64Max)).map fun samples =>
    !samples.isEmpty

/-! ### What a read gives -/

namespace LabelStore

variable {α : Type}

variable [Timestamped α]

/-- The part of a stream between two times, the ends included. -/
def window (s : LabelStore Rodeo Spur α) (id : ℕ) (start stop : ℤ) : List α :=
  (s.entriesOf id).filter fun e => decide (start ≤ timestamp e ∧ timestamp e ≤ stop)

/-- **A read of a sorted stream** fails when an entry lies strictly between the end and the start
of the window, and gives the window otherwise. -/
theorem getRange_of_sorted {s : LabelStore Rodeo Spur α} (h : s.Sorted) (id : ℕ)
    (start stop : ℤ) :
    s.getRange id start stop =
      if ∃ e ∈ s.entriesOf id, stop < timestamp e ∧ timestamp e < start then none
      else some (s.window id start stop) := by
  rw [getRange, window, entriesOf]
  cases hst : s.streams.lookup id with
  | none => simp
  | some stream =>
    show List.slice? _ _ _ = _
    rw [List.slice?_window (h id stream hst)]
    simp only [Bool.decide_and]
    rfl

theorem getRange_eq_window_iff {s : LabelStore Rodeo Spur α} (h : s.Sorted) (id : ℕ)
    (start stop : ℤ) :
    s.getRange id start stop = some (s.window id start stop) ↔
      ¬ ∃ e ∈ s.entriesOf id, stop < timestamp e ∧ timestamp e < start := by
  rw [getRange_of_sorted h]
  split
  · next hgap => simpa using hgap
  · next hgap => simpa using hgap

/-- A window that does not end before it starts is always read. -/
theorem getRange_of_le {s : LabelStore Rodeo Spur α} (h : s.Sorted) (id : ℕ) {start stop : ℤ}
    (hle : start ≤ stop) : s.getRange id start stop = some (s.window id start stop) := by
  rw [getRange_eq_window_iff h]
  rintro ⟨e, -, hlt, hgt⟩
  omega

end LabelStore

/-! ### Reads of reachable stores -/

variable [LinearOrder Spur] [Interner Rodeo Spur]

/-- **A read gives the window exactly when nothing lies between the end and the start of it**, in
every reachable log store and every reachable metric store. -/
theorem getEntries_getSamples_eq_window_iff (logOps : List (LogOp Spur F64))
    (metricOps : List (MetricOp F64)) (id : ℕ) (start stop : ℤ) :
    let logs := Run.exec LogStore.apply (LogStore.new : LogStore Rodeo Spur F64) logOps
    let metrics := Run.exec MetricStore.apply (MetricStore.new : MetricStore Rodeo Spur F64)
      metricOps
    (logs.getEntries id start stop = some (logs.window id start stop) ↔
      ¬ ∃ e ∈ logs.entriesOf id, stop < e.timestampNs ∧ e.timestampNs < start) ∧
    (metrics.getSamples id start stop = some (metrics.window id start stop) ↔
      ¬ ∃ e ∈ metrics.entriesOf id, stop < e.timestampMs ∧ e.timestampMs < start) :=
  ⟨LabelStore.getRange_eq_window_iff (LogStore.sorted_exec logOps) id start stop,
    LabelStore.getRange_eq_window_iff (MetricStore.sorted_exec metricOps) id start stop⟩

/-- A window from 200 s to 100 s passes the cap of the LogQL handler, and reading it from a stream
with an entry at 150 s slices out of range; so does the PromQL series filter. -/
theorem getEntries_out_of_range :
    stepCapRejects 200000000000 100000000000 none = false ∧
      (Run.exec LogStore.apply (LogStore.new : LogStore VecRodeo ℕ ℤ)
        [.ingestStream [("service", "a")]
          [⟨150000000000, "x", 0, none, none, 0, none, []⟩]]).getEntries 0 200000000000
            100000000000 = none ∧
      hasSamplesInRange (Run.exec MetricStore.apply (MetricStore.new : MetricStore VecRodeo ℕ ℤ)
        [.ingestSamples "up" [] [⟨150000, 1, 0⟩]]) (some 200000) (some 100000) 0 = none :=
  ⟨rfl, rfl, rfl⟩

end Aniani
