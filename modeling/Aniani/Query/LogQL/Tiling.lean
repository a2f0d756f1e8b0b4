import Aniani.ForMathlib.OptionWalk
import Aniani.ForMathlib.Tiling
import Aniani.Query.StepCap
import Aniani.Store.Held
import Mathlib.Data.List.ReduceOption

/-!
# The windows of a count

`count_over_time` and `bytes_over_time` add up a number over the entries of a window, step by step.
A window goes back from its step by the range, and `get_entries` takes both of its ends in. When the
step is the range, which it is when none is given, the windows cover the time from the start of the
first to the last step, and an entry exactly at a step is in the window that ends there and in the
next one.

## Main definitions

* `Tally` — the two functions, and what each adds up
* `Env.matchesOf` — the entries of a stream that pass the stages

## Main results

* `metricStep_tally` — what the evaluator reports for a step
* `tally_windows` — how often each entry is counted, and the sum over the steps
* `not_counted_once_oneLine` — an entry at a step is counted twice
-/

namespace Aniani

namespace LogQL

open PromQL (advanceTime stepsFrom stepTimes)

variable {Rodeo Spur F64 : Type} [LinearOrder Spur] [Interner Rodeo Spur] [FloatOps F64]

/-! ### What is added up -/

/-- The functions that add up a number over the entries of a window. -/
inductive Tally where
  | count | bytes

namespace Tally

/-- The function of a query. -/
def function : Tally → MetricFunc
  | count => .countOverTime
  | bytes => .bytesOverTime

/-- What an entry adds. -/
def weight : Tally → LogEntry Spur F64 → ℕ
  | count, _ => 1
  | bytes, e => e.line.utf8ByteSize

/-- The sum, among what is counted over a window. -/
def sumOf : Tally → WindowCounts F64 → ℕ
  | count, counts => counts.count
  | bytes, counts => counts.byteSum

end Tally

section Windows

variable (tally : Tally) (env : Env Rodeo Spur F64) (stages : List (PipelineStage F64))

/-- The entries of a stream that pass the stages. -/
def Env.matchesOf (sid : ℕ) : List (LogEntry Spur F64) :=
  (env.store.entriesOf sid).filter fun e =>
    applyStages env.json e.line stages (env.streamLabels sid)

/-- The sum over the matching entries of a stream between two times, the ends included. -/
def Env.tallied (sid : ℕ) (start stop : ℤ) : ℕ :=
  (((env.matchesOf stages sid).filter fun e =>
    decide (start ≤ e.timestampNs ∧ e.timestampNs ≤ stop)).map tally.weight).sum

omit [LinearOrder Spur] [Interner Rodeo Spur] in
theorem sumOf_countEntry (json : JsonCrate F64) (labels : List (String × String))
    (counts : WindowCounts F64) (e : LogEntry Spur F64) :
    tally.sumOf (countEntry json stages labels counts e) =
      tally.sumOf counts + if applyStages json e.line stages labels then tally.weight e else 0 := by
  rw [countEntry, applyStages]
  cases hpass : applyStagesWithExtract json e.line stages labels with
  | none => rfl
  | some extracted =>
    dsimp only [Option.isSome_some, if_true]
    split <;> cases tally <;> rfl

omit [LinearOrder Spur] [Interner Rodeo Spur] in
/-- The sum over a window is over the entries that pass. -/
theorem sumOf_foldl_countEntry (json : JsonCrate F64) (labels : List (String × String))
    (entries : List (LogEntry Spur F64)) (counts : WindowCounts F64) :
    tally.sumOf (entries.foldl (countEntry json stages labels) counts) =
      tally.sumOf counts + ((entries.filter fun e =>
        applyStages json e.line stages labels).map tally.weight).sum := by
  rw [List.sum_map_filter]
  induction entries generalizing counts with
  | nil => rfl
  | cons e entries ih =>
    rw [List.foldl_cons, ih, sumOf_countEntry, List.map_cons, List.sum_cons, Nat.add_assoc]

omit [LinearOrder Spur] [Interner Rodeo Spur] in
theorem metricValue_tally (rangeNs : ℤ) (counts : WindowCounts F64) :
    metricValue tally.function rangeNs counts = some (Float64.ofU64 (tally.sumOf counts)) := by
  cases tally <;> rfl

variable {env}

omit [LinearOrder Spur] [Interner Rodeo Spur] [FloatOps F64] in
/-- The window that is read is the one from the step back by the range. -/
theorem getEntries_window (hsorted : env.store.Sorted)
    (htimes : ∀ {e}, env.store.Holds e → e.timestampNs ∈ Set.Icc i64Min i64Max) {rangeNs t : ℤ}
    (hr : 0 ≤ rangeNs) (ht : t ∈ Set.Icc i64Min i64Max) (sid : ℕ) :
    env.store.getEntries sid (i64SaturatingSub t rangeNs) t =
      some ((env.store.entriesOf sid).filter fun e =>
        decide (t - rangeNs ≤ e.timestampNs ∧ e.timestampNs ≤ t)) := by
  obtain ⟨hmin, hmax⟩ := ht
  have hle : i64SaturatingSub t rangeNs ≤ t := by
    unfold i64SaturatingSub
    omega
  rw [LogStore.getEntries, LabelStore.getRange_of_le hsorted sid hle, LabelStore.window]
  refine congrArg some (List.filter_congr fun e he => decide_eq_decide.mpr (and_congr_left fun _ => ?_))
  -- where the start saturates, every time that fits an `i64` is after it
  have htime : i64Min ≤ e.timestampNs := by
    rw [LabelStore.entriesOf] at he
    cases hst : env.store.streams.lookup sid with
    | none => simp [hst] at he
    | some stream =>
      rw [hst] at he
      exact (htimes ⟨sid, stream, hst, he⟩).1
  show i64SaturatingSub t rangeNs ≤ e.timestampNs ↔ t - rangeNs ≤ e.timestampNs
  unfold i64SaturatingSub
  omega

omit [LinearOrder Spur] in
/-- **What the evaluator reports for a step**: the sum over the window that ends there. -/
theorem metricStep_tally (hsorted : env.store.Sorted)
    (htimes : ∀ {e}, env.store.Holds e → e.timestampNs ∈ Set.Icc i64Min i64Max) {rangeNs t : ℤ}
    (hr : 0 ≤ rangeNs) (ht : t ∈ Set.Icc i64Min i64Max) (sid : ℕ) :
    metricStep env tally.function stages rangeNs sid t =
      some (some (t, Float64.ofU64 (env.tallied tally stages sid (t - rangeNs) t))) := by
  have hsum : ∀ entries : List (LogEntry Spur F64),
      tally.sumOf (entries.foldl (countEntry env.json stages (env.streamLabels sid))
        ⟨0, 0, 0, Float64.zero, FloatOps.infinity, FloatOps.negInfinity⟩) =
          ((entries.filter fun e => applyStages env.json e.line stages
            (env.streamLabels sid)).map tally.weight).sum := by
    intro entries
    rw [sumOf_foldl_countEntry]
    cases tally <;> exact Nat.zero_add _
  rw [metricStep, getEntries_window hsorted htimes hr ht]
  show some ((metricValue tally.function rangeNs _).map _) = _
  rw [metricValue_tally, hsum, Env.tallied, Env.matchesOf, List.filter_filter, List.filter_filter]
  simp only [Bool.and_comm, Option.map_some]

end Windows

/-! ### The steps of a query -/

/-- A query all of whose steps have a sample. -/
theorem evaluateMetricQuery_of_samples (env : Env Rodeo Spur F64) {function : MetricFunc}
    {inner : LogQLExpr F64} {range : ℕ} {startNs endNs stepNs : ℤ}
    {samples : ℕ → List (ℤ × F64)} (hne : ∀ sid, samples sid ≠ [])
    (h : ∀ sid, (stepTimes startNs endNs stepNs).mapM (metricStep env function
      (extractSelectorAndStages inner).2 (durationToI64Ns range) sid) =
        some ((samples sid).map some)) :
    evaluateMetricQuery env function inner range startNs endNs stepNs =
      some (.matrix ((env.queryStreams (extractSelectorAndStages inner).1).map fun sid =>
        ⟨env.streamLabels sid, samples sid⟩)) := by
  have hreduce : ∀ l : List (ℤ × F64), (l.map some).reduceOption = l := by
    intro l
    simp [List.reduceOption]
  simp only [evaluateMetricQuery, h, Option.bind_eq_bind, Option.bind_some, hreduce]
  rw [List.mapM_pure]
  refine congrArg (fun results => some (LogQLResult.matrix results)) ?_
  rw [List.filter_eq_self.mpr]
  intro result hresult
  obtain ⟨sid, -, rfl⟩ := List.mem_map.mp hresult
  simpa using hne sid

/-- **How often each entry is counted, and the sum over the steps**, when the step is the range. The
evaluator reports the sum over the window of each step. An entry from the start of the first window
to the last step is in one window, and in two when it is at a step that is not the last; so the sum
over the steps is the one over that span, and once more over the entries at such a step. -/
theorem tally_windows (tally : Tally) (ops : List (LogOp Spur F64))
    (htimes : ∀ op ∈ ops, ∀ e ∈ op.entries, e.timestampNs ∈ Set.Icc i64Min i64Max)
    (it : IterOrder ℕ) (itValues : IterOrder Spur) (regexNew : String → Option Regex)
    (json : JsonCrate F64) (inner : LogQLExpr F64) (range : ℕ) {startNs endNs : ℤ}
    (hstart : startNs ∈ Set.Icc i64Min i64Max) (hle : startNs ≤ endNs) :
    let env : Env Rodeo Spur F64 :=
      ⟨Run.exec LogStore.apply LogStore.new ops, it, itValues, regexNew, json⟩
    let selected := extractSelectorAndStages inner
    let rangeNs := durationToI64Ns range
    ∃ rest, stepTimes startNs endNs rangeNs = startNs :: rest ∧
      evaluateMetricQuery env tally.function inner range startNs endNs rangeNs =
        some (.matrix ((env.queryStreams selected.1).map fun sid => ⟨env.streamLabels sid,
          (startNs :: rest).map fun t =>
            (t, Float64.ofU64 (env.tallied tally selected.2 sid (t - rangeNs) t))⟩)) ∧
      let lastNs := (startNs :: rest).getLast (List.cons_ne_nil startNs rest)
      (∀ e : LogEntry Spur F64,
        (startNs :: rest).countP (fun t =>
            decide (t - rangeNs ≤ e.timestampNs ∧ e.timestampNs ≤ t)) =
          (if startNs - rangeNs ≤ e.timestampNs ∧ e.timestampNs ≤ lastNs then 1 else 0) +
            if e.timestampNs ∈ (startNs :: rest).dropLast then 1 else 0) ∧
      ∀ sid, ((startNs :: rest).map fun t =>
          env.tallied tally selected.2 sid (t - rangeNs) t).sum =
        env.tallied tally selected.2 sid (startNs - rangeNs) lastNs +
          (((env.matchesOf selected.2 sid).filter fun e =>
            decide (e.timestampNs ∈ (startNs :: rest).dropLast)).map tally.weight).sum := by
  intro env selected rangeNs
  have hr : 0 ≤ rangeNs := le_min (Int.natCast_nonneg range) (by decide)
  obtain ⟨rest, hsteps, hchain, hpos, hmax⟩ := stepTimes_of_le hle rangeNs
  have hsorted : env.store.Sorted := LogStore.sorted_exec ops
  have hheld : ∀ {e}, env.store.Holds e → e.timestampNs ∈ Set.Icc i64Min i64Max := by
    intro e he
    obtain ⟨op, hop, hmem⟩ := LogStore.holds_exec he
    exact htimes op hop e hmem
  have hbounds : ∀ t ∈ startNs :: rest, t ∈ Set.Icc i64Min i64Max := by
    intro t ht
    refine ⟨hstart.1.trans (List.le_of_mem_of_isChain_add hchain hr t ht), ?_⟩
    obtain rfl | ht := List.mem_cons.mp ht
    · exact hstart.2
    · exact hmax t ht
  refine ⟨rest, hsteps, ?_, fun e => List.countP_window hchain hpos e.timestampNs, fun sid =>
    List.sum_window hchain hpos LogEntry.timestampNs tally.weight (env.matchesOf selected.2 sid)⟩
  refine evaluateMetricQuery_of_samples env (fun sid => List.cons_ne_nil _ _) fun sid => ?_
  rw [hsteps, List.map_map]
  exact List.mapM_eq_some_map fun t ht =>
    metricStep_tally tally selected.2 hsorted hheld hr (hbounds t ht) sid

/-- A line at 10 ns. -/
def oneLine : Env VecRodeo ℕ ℤ :=
  Env.ofOps [.ingestStream [("service", "a")] [plainEntry 10 "x"]]

/-- The windows of the line at 10 ns, for the steps 10 and 20. -/
theorem tally_windows_oneLine : ∃ rest, stepTimes 10 20 10 = 10 :: rest ∧
    evaluateMetricQuery oneLine .countOverTime (.streamSelector []) 10 10 20 10 =
      some (.matrix ((oneLine.queryStreams []).map fun sid => ⟨oneLine.streamLabels sid,
        (10 :: rest).map fun t => (t, Float64.ofU64 (oneLine.tallied .count [] sid (t - 10) t))⟩)) ∧
    let lastNs := (10 :: rest).getLast (List.cons_ne_nil 10 rest)
    (∀ e : LogEntry ℕ ℤ,
      (10 :: rest).countP (fun t => decide (t - 10 ≤ e.timestampNs ∧ e.timestampNs ≤ t)) =
        (if 10 - 10 ≤ e.timestampNs ∧ e.timestampNs ≤ lastNs then 1 else 0) +
          if e.timestampNs ∈ (10 :: rest).dropLast then 1 else 0) ∧
    ∀ sid, ((10 :: rest).map fun t => oneLine.tallied .count [] sid (t - 10) t).sum =
      oneLine.tallied .count [] sid (10 - 10) lastNs +
        (((oneLine.matchesOf [] sid).filter fun e =>
          decide (e.timestampNs ∈ (10 :: rest).dropLast)).map Tally.count.weight).sum :=
  tally_windows .count _ (by simp [LogOp.entries, plainEntry, i64Min, i64Max]) _ _ _ _ _ 10
    (by decide) (by decide)

/-- The evaluator's report on the line at 10 ns. -/
theorem evaluateMetricQuery_oneLine :
    evaluateMetricQuery oneLine .countOverTime (.streamSelector []) 10 10 20 10 =
      some (.matrix [⟨[("service", "a")], [(10, 1), (20, 1)]⟩]) := by
  have htimes : ∀ {e}, oneLine.store.Holds e → e.timestampNs ∈ Set.Icc i64Min i64Max := by
    intro e he
    obtain ⟨op, hop, hmem⟩ := LogStore.holds_exec he
    obtain rfl := List.mem_singleton.mp hop
    obtain rfl := List.mem_singleton.mp hmem
    simp [plainEntry, i64Min, i64Max]
  let samples : ℕ → List (ℤ × ℤ) := fun sid =>
    [(10, Float64.ofU64 (oneLine.tallied .count [] sid (10 - 10) 10)),
      (20, Float64.ofU64 (oneLine.tallied .count [] sid (20 - 10) 20))]
  have hsteps : ∀ sid, (stepTimes 10 20 10).mapM (metricStep oneLine .countOverTime [] 10 sid) =
      some ((samples sid).map some) := by
    intro sid
    have hstep := fun t ht => metricStep_tally .count [] (t := t) (LogStore.sorted_exec _) htimes
      (show (0 : ℤ) ≤ 10 by decide) ht sid
    show [(10 : ℤ), 20].mapM (metricStep oneLine Tally.count.function [] 10 sid) = _
    simp only [List.mapM_cons, List.mapM_nil, hstep 10 (by decide), hstep 20 (by decide)]
    rfl
  have hstreams : oneLine.queryStreams [] = [0] := rfl
  have hlabels : oneLine.streamLabels 0 = [("service", "a")] := rfl
  have hsamples : samples 0 = [(10, 1), (20, 1)] := rfl
  calc evaluateMetricQuery oneLine .countOverTime (.streamSelector []) 10 10 20 10
      = some (.matrix ((oneLine.queryStreams []).map fun sid =>
          ⟨oneLine.streamLabels sid, samples sid⟩)) :=
        evaluateMetricQuery_of_samples oneLine (fun _ => List.cons_ne_nil _ _) hsteps
    _ = some (.matrix [⟨[("service", "a")], [(10, 1), (20, 1)]⟩]) := by
        rw [hstreams, List.map_singleton, hlabels, hsamples]

/-- **The line at 10 ns is counted at the steps 10 and 20**, so the sum over the steps is two, where
one line matches after the first step less the range and up to the last step. -/
theorem not_counted_once_oneLine :
    evaluateMetricQuery oneLine .countOverTime (.streamSelector []) 10 10 20 10 =
      some (.matrix [⟨[("service", "a")], [(10, 1), (20, 1)]⟩]) ∧
    ((oneLine.matchesOf [] 0).filter fun e => decide (10 - 10 < e.timestampNs ∧
      e.timestampNs ≤ 20)).length = 1 :=
  ⟨evaluateMetricQuery_oneLine, rfl⟩

end LogQL

end Aniani
