import Aniani.ForMathlib.Combinator
import Aniani.ForMathlib.WhileLoop
import Aniani.Query.LogQL.Eval
import Aniani.Query.PromQL.Eval
import Aniani.Query.Timestamps
import Aniani.Query.Window

/-!
# The cap on steps

A metric query is evaluated at the times from the start of its window to the end, one step after
another, in a loop for each series. Three of the four ways to a loop count the steps beforehand and
refuse a query with too many, with a subtraction that saturates; the LogQL instant query, whose
window is the hour before its time and whose step is its range, does not.

## Main definitions

* `LogQL.instantWindow`, `LogQL.rangeRequest`, `PromQL.rangeRequest`, `Mcp.metricsRequest` — what
  the handlers let through
* `Capped` — a loop that ends after at most `MAX_QUERY_STEPS` steps

## Main results

* `whileLoop_iff_stepTimes` — the evaluators walk what the loop runs through
* `capped_iff` — which loops are capped, on each way to one
* `not_capped` — an instant query with four million steps, and a range query with two too many
-/

namespace Aniani

open Combinator (exists_of_bind_eq_ok)
open PromQL (advanceTime stepsFrom stepTimes)

/-! ### Arguments -/

/-- What a handler gives instead of a result: an error, or a panic. -/
inductive Refusal where
  | error (text : String)
  | panicked
  deriving DecidableEq

/-- Subtraction of `i64`s, which wraps around in a release build. -/
def i64WrappingSub (a b : ℤ) : ℤ := (a - b).bmod (2 ^ 64)

/-- `now_ns`, of the nanoseconds since the epoch. -/
def nowNs (clock : ℕ) : ℤ := min clock i64Max

/-- `now_ms`, of the nanoseconds since the epoch. -/
def nowMs (clock : ℕ) : ℤ := min ((clock / 1000000 : ℕ) : ℤ) i64Max

/-- A time bound, which has a default. -/
def timeArgument (parse : String → Option ℤ) (invalid : String) (absent : ℤ) :
    Option String → Except Refusal ℤ
  | none => .ok absent
  | some s =>
    match parse s with
    | some t => .ok t
    | none => .error (.error (invalid ++ s))

/-- A step, in the unit of the loop. -/
def stepArgument (F64 : Type) [FloatOps F64] (convert : ℕ → ℤ) (invalid s : String) :
    Except Refusal ℤ :=
  match parseDuration F64 s with
  | some (some d) => .ok (convert d)
  | some none => .error (.error (invalid ++ s))
  | none => .error .panicked

/-- A result, or the panic of an evaluation that gives nothing. -/
def orPanicked {α : Type} : Option α → Except Refusal α
  | some a => .ok a
  | none => .error .panicked

/-- How many steps a handler counts. -/
def numSteps (startT endT step : ℤ) : ℤ := max (i64SaturatingSub endT startT) 0 / step

/-- The answer to a query with too many steps. -/
def tooManySteps (steps : ℤ) : Refusal :=
  .error ("query would produce " ++ toString steps ++ " steps, exceeding maximum of " ++
    toString maxQuerySteps)

section Handlers

variable (F64 : Type) [FloatOps F64] (clock : ℕ)

/-! ### LogQL -/

namespace LogQL

/-- An hour in nanoseconds. -/
def hourNs : ℤ := 3600000000000

/-- The window of `query_inner`, the hour before the time of the query. -/
def instantWindow (time : Option String) : Except Refusal (ℤ × ℤ) :=
  match time with
  | none => .ok (nowNs clock - hourNs, nowNs clock)
  | some t =>
    match parseTimestampNs F64 t with
    | some ns => .ok (i64WrappingSub ns hourNs, ns)
    | none => .error (.error ("invalid time: " ++ t))

/-- The bounds and the step of a range query. -/
structure RangeParams where
  start : Option String
  finish : Option String
  step : Option String

/-- What `query_range_inner` hands on to the evaluator. -/
structure RangeRequest where
  startNs : ℤ
  endNs : ℤ
  stepNs : Option ℤ

variable {F64} in
/-- The step of the loops of a query, nothing if it has no loops: the range if no step is given. -/
def effectiveStepNs : LogQLExpr F64 → Option ℤ → Option ℤ
  | _, some s => some s
  | .metricQuery _ _ range, none => some (durationToI64Ns range)
  | _, none => none

/-- The step of `query_range_inner`, if it is given one. -/
def rangeStep : Option String → Except Refusal (Option ℤ)
  | none => .ok none
  | some s => (stepArgument F64 durationToI64Ns "invalid step: " s).map some

/-- `query_range_inner` up to the evaluation, for a parsed query. -/
def rangeRequest (expr : LogQLExpr F64) (params : RangeParams) : Except Refusal RangeRequest := do
  let startNs ← timeArgument (parseTimestampNs F64) "invalid start: " (nowNs clock - hourNs)
    params.start
  let endNs ← timeArgument (parseTimestampNs F64) "invalid end: " (nowNs clock) params.finish
  let stepNs ← rangeStep F64 params.step
  if stepNs = some 0 then .error (.error "step must be positive")
  else if stepCapRejects startNs endNs (effectiveStepNs expr stepNs) then
    .error (tooManySteps (((effectiveStepNs expr stepNs).map (numSteps startNs endNs)).getD 0))
  else .ok ⟨startNs, endNs, stepNs⟩

/-- `bounded_limit`. -/
def boundedLimit (limit : Option ℕ) : ℕ := min (limit.getD 1000) 10000

section Evaluation

variable {F64} {Rodeo Spur : Type} [LinearOrder Spur] [Interner Rodeo Spur]
  (H : MinHeap HeapItem) (env : Env Rodeo Spur F64) (expr : LogQLExpr F64)

/-- `query_inner`, for a parsed query. -/
def queryInner (time : Option String) (limit : Option ℕ) : Except Refusal (LogQLResult F64) := do
  let window ← instantWindow F64 clock time
  orPanicked (evaluateLogqlLimited H env expr window.1 window.2 none (some (boundedLimit limit)))

/-- `query_range_inner`, for a parsed query. -/
def queryRangeInner (params : RangeParams) (limit : Option ℕ) :
    Except Refusal (LogQLResult F64) := do
  let r ← rangeRequest F64 clock expr params
  orPanicked (evaluateLogqlLimited H env expr r.startNs r.endNs r.stepNs
    (some (boundedLimit limit)))

end Evaluation

end LogQL

/-! ### PromQL -/

namespace PromQL

/-- The bounds and the step of a range query. -/
structure RangeParams where
  start : Option String
  finish : Option String
  step : Option String

/-- What a range query is evaluated for. -/
structure RangeRequest where
  startMs : ℤ
  endMs : ℤ
  stepMs : ℤ

/-- The step of `query_range_inner`, a minute if it is given none. -/
def rangeStep : Option String → Except Refusal ℤ
  | none => .ok 60000
  | some s => stepArgument F64 durationToI64Ms "invalid step: " s

/-- `query_range_inner` up to the evaluation. -/
def rangeRequest (params : RangeParams) : Except Refusal RangeRequest := do
  let startMs ← timeArgument (parseTimestampMs F64) "invalid start: " (nowMs clock - 3600000)
    params.start
  let endMs ← timeArgument (parseTimestampMs F64) "invalid end: " (nowMs clock) params.finish
  let stepMs ← rangeStep F64 params.step
  if stepMs ≤ 0 then .error (.error "step must be positive")
  else if maxQuerySteps ≤ numSteps startMs endMs stepMs then
    .error (tooManySteps (numSteps startMs endMs stepMs))
  else .ok ⟨startMs, endMs, stepMs⟩

/-- `query_range_inner`. -/
def queryRangeInner {F64 Rodeo Spur : Type} [FloatOps F64] [LinearOrder Spur]
    [Interner Rodeo Spur] (clock : ℕ) (parse : String → Except String (Expr F64)) (query : String)
    (env : Env Rodeo Spur F64) (params : RangeParams) : Except Refusal (Outcome F64) := do
  let r ← rangeRequest F64 clock params
  return evaluateRange parse query env r.startMs r.endMs r.stepMs

end PromQL

/-! ### MCP -/

namespace Mcp

/-- `QueryMetricsArgs`. -/
structure QueryMetricsArgs where
  promql : String
  start : Option String
  finish : Option String
  step : Option String

/-- The three arguments of a range query. -/
def rangeArguments (start finish step : String) : Except Refusal PromQL.RangeRequest := do
  let startMs ← timeArgument (parseTimestampMs F64) "invalid `start`: " 0 (some start)
  let endMs ← timeArgument (parseTimestampMs F64) "invalid `end`: " 0 (some finish)
  let stepMs ← stepArgument F64 PromQL.durationToI64Ms "invalid `step`: " step
  if stepMs ≤ 0 then .error (.error ("invalid `step`: " ++ step))
  else if maxQuerySteps ≤ numSteps startMs endMs stepMs then
    .error (.error ("range query would produce " ++ toString (numSteps startMs endMs stepMs) ++
      " steps (max " ++ toString maxQuerySteps ++ "); increase `step` or narrow start/end"))
  else .ok ⟨startMs, endMs, stepMs⟩

/-- `handle_query_metrics` up to the evaluation: a range query if it is given any of the three
arguments of one, else an instant query. -/
def metricsRequest (args : QueryMetricsArgs) : Except Refusal (Option PromQL.RangeRequest) :=
  if args.promql.isEmpty then .error (.error "`promql` must not be empty")
  else
    match args.start, args.finish, args.step with
    | none, none, none => .ok none
    | some start, some finish, some step => (rangeArguments F64 start finish step).map some
    | _, _, _ => .error (.error ("a range query requires all of `start`, `end`, `step` " ++
        "(omit all three for an instant query)"))

/-- `handle_query_metrics` up to the formatting of the result. -/
def queryMetrics {F64 Rodeo Spur : Type} [FloatOps F64] [LinearOrder Spur] [Interner Rodeo Spur]
    (clock : ℕ) (parse : String → Except String (PromQL.Expr F64)) (env : PromQL.Env Rodeo Spur F64)
    (args : QueryMetricsArgs) : Except Refusal (PromQL.Outcome F64) := do
  match ← metricsRequest F64 args with
  | some r => return PromQL.evaluateRange parse args.promql env r.startMs r.endMs r.stepMs
  | none => return PromQL.evaluateInstant parse args.promql env (nowMs clock)

variable {F64} in
/-- An instant query of the tool is evaluated at one time: it has no loop to cap. -/
theorem queryMetrics_of_instant {Rodeo Spur : Type} [LinearOrder Spur] [Interner Rodeo Spur]
    (clock : ℕ) (parse : String → Except String (PromQL.Expr F64)) (env : PromQL.Env Rodeo Spur F64)
    {args : QueryMetricsArgs} (h : metricsRequest F64 args = .ok none) :
    queryMetrics clock parse env args =
      .ok (PromQL.evaluateInstant parse args.promql env (nowMs clock)) := by
  rw [queryMetrics, h]
  rfl

end Mcp

end Handlers

/-! ### The loops -/

/-- **The loop `while t <= end` ends**, after at most `MAX_QUERY_STEPS` steps. -/
def Capped (startT endT step : ℤ) : Prop :=
  ∃ ts, WhileLoop (· ≤ endT) (fun t => advanceTime t step) startT ts ∧ (ts.length : ℤ) ≤ maxQuerySteps

theorem advanceTime_of_pos {t step : ℤ} (hstep : 0 < step) :
    advanceTime t step = if t + step ≤ i64Max then some (t + step) else none :=
  if_neg (not_le.mpr hstep)

/-- The fuel of the evaluators is enough: what they walk is a run of the loop. -/
theorem whileLoop_stepsFrom (endT step : ℤ) {fuel : ℕ} {startT : ℤ}
    (hfuel : endT < startT + fuel) :
    WhileLoop (· ≤ endT) (fun t => advanceTime t step) startT (stepsFrom endT step fuel startT) := by
  induction fuel generalizing startT with
  | zero =>
    push_cast at hfuel
    exact WhileLoop.exit (by omega)
  | succ fuel ih =>
    rw [stepsFrom]
    split
    · next hle =>
      cases hnext : advanceTime startT step with
      | none => exact WhileLoop.leave hle hnext
      | some next =>
        refine WhileLoop.turn hle hnext (ih ?_)
        have hlater : startT < next := by
          rw [advanceTime] at hnext
          split_ifs at hnext
          obtain rfl := Option.some.inj hnext
          omega
        push_cast at hfuel
        omega
    · next hgt => exact WhileLoop.exit hgt

/-- **The evaluators walk what the loop runs through.** -/
theorem whileLoop_iff_stepTimes {startT endT step : ℤ} {ts : List ℤ} :
    WhileLoop (· ≤ endT) (fun t => advanceTime t step) startT ts ↔
      ts = stepTimes startT endT step := by
  have hrun : WhileLoop (· ≤ endT) (fun t => advanceTime t step) startT (stepTimes startT endT step) :=
    whileLoop_stepsFrom endT step (by push_cast; omega)
  constructor
  · exact fun h => h.unique hrun
  · rintro rfl
    exact hrun

/-- The steps of a window that does not end before it starts: the start, and others as far apart
as the step, all of them within an `i64`. -/
theorem stepTimes_of_le {startNs endNs : ℤ} (hle : startNs ≤ endNs) (step : ℤ) :
    ∃ rest, stepTimes startNs endNs step = startNs :: rest ∧
      ((startNs :: rest).IsChain fun a b => b = a + step) ∧ (rest ≠ [] → 0 < step) ∧
        ∀ t ∈ rest, t ≤ i64Max := by
  have hloop := whileLoop_iff_stepTimes.mpr (rfl : stepTimes startNs endNs step = _)
  have hadvance : ∀ {t next : ℤ}, advanceTime t step = some next →
      next = t + step ∧ 0 < step ∧ next ≤ i64Max := by
    intro t next hnext
    rw [advanceTime] at hnext
    split_ifs at hnext with hpos hmax
    obtain rfl := Option.some.inj hnext
    exact ⟨rfl, not_le.mp hpos, hmax⟩
  cases hsteps : stepTimes startNs endNs step with
  | nil =>
    rw [hsteps] at hloop
    cases hloop with
    | exit hexit => exact absurd hle hexit
  | cons t rest =>
    rw [hsteps] at hloop
    obtain rfl : t = startNs := hloop.eq_of_mem_head? t rfl
    have hchain := hloop.isChain
    refine ⟨rest, rfl, hchain.imp fun _ _ hnext => (hadvance hnext).1, fun hne => ?_, ?_⟩
    · obtain ⟨next, rest, rfl⟩ := List.exists_cons_of_ne_nil hne
      exact (hadvance (List.isChain_cons_cons.mp hchain).1).2.1
    · clear hle hsteps hloop
      induction rest generalizing t with
      | nil => simp
      | cons next rest ih =>
        obtain ⟨hnext, hrest⟩ := List.isChain_cons_cons.mp hchain
        exact List.forall_mem_cons.mpr ⟨(hadvance hnext).2.2, ih next hrest⟩

/-- The number of steps of a loop. -/
theorem length_of_whileLoop {startT endT step : ℤ} (hstep : 0 < step) (hend : endT ≤ i64Max)
    {ts : List ℤ} (h : WhileLoop (· ≤ endT) (fun t => advanceTime t step) startT ts) :
    ts.length = ((endT - startT) / step + 1).toNat := by
  induction h with
  | @exit t hexit =>
    have hneg : (endT - t) / step < 0 := Int.ediv_neg_of_neg_of_pos (by omega) hstep
    rw [List.length_nil]
    omega
  | @leave t hle hnone =>
    rw [advanceTime_of_pos hstep] at hnone
    have hlast : endT - t < step := by
      split_ifs at hnone
      omega
    rw [Int.ediv_eq_zero_of_lt (by omega) hlast]
    rfl
  | @turn t next ts hle hnext _ ih =>
    rw [advanceTime_of_pos hstep] at hnext
    have hstepped : next = t + step := by
      split_ifs at hnext
      exact (Option.some.inj hnext).symm
    have hone : (endT - t) / step = (endT - next) / step + 1 := by
      rw [hstepped, ← Int.add_mul_ediv_right _ _ hstep.ne']
      congr 1
      ring
    have hnonneg : 0 ≤ (endT - t) / step := Int.ediv_nonneg (by omega) hstep.le
    rw [List.length_cons, ih]
    omega

/-- A loop whose step is not positive is left after its first step. -/
theorem length_le_one_of_whileLoop {startT endT step : ℤ} (hstep : step ≤ 0) {ts : List ℤ}
    (h : WhileLoop (· ≤ endT) (fun t => advanceTime t step) startT ts) : ts.length ≤ 1 := by
  cases h with
  | exit => exact Nat.zero_le 1
  | leave => exact le_rfl
  | turn _ hnext =>
    rw [advanceTime, if_pos hstep] at hnext
    exact absurd hnext (by simp)

/-- **Which loops are capped.** -/
theorem capped_iff {startT endT step : ℤ} (hend : endT ≤ i64Max) :
    Capped startT endT step ↔ step ≤ 0 ∨ endT - startT < maxQuerySteps * step := by
  have hrun := whileLoop_iff_stepTimes.mpr (rfl : stepTimes startT endT step = _)
  have hcapped : Capped startT endT step ↔
      ((stepTimes startT endT step).length : ℤ) ≤ maxQuerySteps := by
    constructor
    · rintro ⟨ts, hts, hlen⟩
      rwa [whileLoop_iff_stepTimes.mp hts] at hlen
    · exact fun hlen => ⟨_, hrun, hlen⟩
  rw [hcapped]
  rcases le_or_gt step 0 with hstep | hstep
  · have hone := length_le_one_of_whileLoop hstep hrun
    refine iff_of_true ?_ (Or.inl hstep)
    unfold maxQuerySteps
    omega
  · rw [or_iff_right (not_le.mpr hstep), length_of_whileLoop hstep hend hrun,
      ← Int.ediv_lt_iff_lt_mul hstep]
    unfold maxQuerySteps
    omega

/-! ### What the handlers let through -/

theorem le_i64Max_of_timeArgument {parse : String → Option ℤ} {invalid : String} {absent t : ℤ}
    {text : Option String} (hparse : ∀ {s t}, parse s = some t → t ∈ Set.Icc i64Min i64Max)
    (habsent : absent ≤ i64Max) (h : timeArgument parse invalid absent text = .ok t) :
    t ≤ i64Max := by
  cases text with
  | none => exact Except.ok.inj h ▸ habsent
  | some s =>
    rw [timeArgument] at h
    split at h
    · next hs => exact Except.ok.inj h ▸ (hparse hs).2
    · exact absurd h (by simp)

/-- **What the count of the handlers is worth**: it caps the loop, if it does not saturate. -/
theorem capped_iff_of_numSteps {startT endT step : ℤ} (hend : endT ≤ i64Max) (hstep : 0 < step)
    (h : numSteps startT endT step < maxQuerySteps) :
    Capped startT endT step ↔ endT - startT ≤ i64Max ∨ endT - startT < maxQuerySteps * step := by
  rw [capped_iff hend, or_iff_right (not_le.mpr hstep)]
  refine ⟨Or.inr, ?_⟩
  rintro (hfits | hlt)
  · have hcount : endT - startT ≤ max (i64SaturatingSub endT startT) 0 := by
      unfold i64SaturatingSub i64Min
      omega
    exact hcount.trans_lt ((Int.ediv_lt_iff_lt_mul hstep).mp h)
  · exact hlt

section Requests

variable {F64 : Type} [FloatOps F64] {clock : ℕ}

theorem LogQL.capped_instantWindow_iff {time : Option String} {window : ℤ × ℤ}
    (h : LogQL.instantWindow F64 clock time = .ok window) (range : ℕ) :
    Capped window.1 window.2 (durationToI64Ns range) ↔
      range = 0 ∨ LogQL.hourNs < maxQuerySteps * range ∨ window.2 < i64Min + LogQL.hourNs := by
  have hwindow : window.2 ∈ Set.Icc i64Min i64Max ∧
      window.1 = i64WrappingSub window.2 LogQL.hourNs := by
    cases time with
    | none =>
      obtain rfl := Except.ok.inj h
      have hnow : 0 ≤ nowNs clock ∧ nowNs clock ≤ i64Max := by
        unfold nowNs i64Max
        omega
      refine ⟨⟨?_, hnow.2⟩, ?_⟩
      · unfold i64Min
        show _ ≤ nowNs clock
        omega
      · show nowNs clock - LogQL.hourNs = i64WrappingSub (nowNs clock) LogQL.hourNs
        unfold i64WrappingSub LogQL.hourNs i64Max at *
        rw [Int.bmod_def]
        omega
    | some t =>
      rw [LogQL.instantWindow] at h
      split at h
      · next ns hns =>
        obtain rfl := Except.ok.inj h
        exact ⟨parseTimestampNs_mem F64 hns, rfl⟩
      · exact absurd h (by simp)
  obtain ⟨hmem, hstart⟩ := hwindow
  rw [capped_iff hmem.2, hstart]
  unfold i64WrappingSub LogQL.hourNs durationToI64Ns maxQuerySteps i64Min i64Max at *
  rw [Int.bmod_def]
  have := hmem.1
  have := hmem.2
  omega

theorem LogQL.capped_rangeRequest_iff {function : MetricFunc} {inner : LogQLExpr F64} {range : ℕ}
    {params : LogQL.RangeParams} {r : LogQL.RangeRequest}
    (h : LogQL.rangeRequest F64 clock (.metricQuery function inner range) params = .ok r) :
    let step := r.stepNs.getD (durationToI64Ns range)
    Capped r.startNs r.endNs step ↔ step ≤ 0 ∨ r.endNs - r.startNs ≤ i64Max ∨
      r.endNs - r.startNs < maxQuerySteps * step := by
  obtain ⟨startNs, -, h⟩ := exists_of_bind_eq_ok h
  obtain ⟨endNs, hend, h⟩ := exists_of_bind_eq_ok h
  obtain ⟨stepNs, -, h⟩ := exists_of_bind_eq_ok h
  have hmax := le_i64Max_of_timeArgument (parseTimestampNs_mem F64) (min_le_right _ _) hend
  split_ifs at h with hzero hcap
  obtain rfl := Except.ok.inj h
  intro step
  have heffective : effectiveStepNs (.metricQuery function inner range : LogQLExpr F64) stepNs =
      some (stepNs.getD (durationToI64Ns range)) := by
    cases stepNs <;> rfl
  rcases le_or_gt step 0 with hstep | hstep
  · exact iff_of_true ((capped_iff hmax).mpr (Or.inl hstep)) (Or.inl hstep)
  · rw [heffective] at hcap
    have hcount : numSteps startNs endNs step < maxQuerySteps := by
      by_contra hmany
      exact hcap (decide_eq_true ⟨hstep, not_lt.mp hmany⟩)
    rw [or_iff_right (not_le.mpr hstep)]
    exact capped_iff_of_numSteps hmax hstep hcount

theorem PromQL.capped_rangeRequest_iff {params : PromQL.RangeParams} {r : PromQL.RangeRequest}
    (h : PromQL.rangeRequest F64 clock params = .ok r) :
    Capped r.startMs r.endMs r.stepMs ↔
      r.endMs - r.startMs ≤ i64Max ∨ r.endMs - r.startMs < maxQuerySteps * r.stepMs := by
  obtain ⟨startMs, -, h⟩ := exists_of_bind_eq_ok h
  obtain ⟨endMs, hend, h⟩ := exists_of_bind_eq_ok h
  obtain ⟨stepMs, -, h⟩ := exists_of_bind_eq_ok h
  have hmax := le_i64Max_of_timeArgument (parseTimestampMs_mem F64) (min_le_right _ _) hend
  split_ifs at h with hstep hcount
  obtain rfl := Except.ok.inj h
  exact capped_iff_of_numSteps hmax (not_le.mp hstep) (not_le.mp hcount)

theorem Mcp.capped_metricsRequest_iff {args : Mcp.QueryMetricsArgs} {r : PromQL.RangeRequest}
    (h : Mcp.metricsRequest F64 args = .ok (some r)) :
    Capped r.startMs r.endMs r.stepMs ↔
      r.endMs - r.startMs ≤ i64Max ∨ r.endMs - r.startMs < maxQuerySteps * r.stepMs := by
  have hrange : ∃ start finish step, Mcp.rangeArguments F64 start finish step = .ok r := by
    rw [Mcp.metricsRequest] at h
    split_ifs at h
    split at h
    · exact absurd h (by simp)
    · next start finish step _ _ _ =>
      refine ⟨start, finish, step, ?_⟩
      cases hr : Mcp.rangeArguments F64 start finish step with
      | error e => exact absurd (hr ▸ h) (by simp [Except.map])
      | ok r' =>
        rw [hr] at h
        exact congrArg _ (Option.some.inj (Except.ok.inj h))
    · exact absurd h (by simp)
  obtain ⟨start, finish, step, h⟩ := hrange
  obtain ⟨startMs, -, h⟩ := exists_of_bind_eq_ok h
  obtain ⟨endMs, hend, h⟩ := exists_of_bind_eq_ok h
  obtain ⟨stepMs, -, h⟩ := exists_of_bind_eq_ok h
  have hmax := le_i64Max_of_timeArgument (parseTimestampMs_mem F64) (by decide) hend
  split_ifs at h with hstep hcount
  obtain rfl := Except.ok.inj h
  exact capped_iff_of_numSteps hmax (not_le.mp hstep) (not_le.mp hcount)

end Requests

/-- **Which loops are capped, on each of the four ways to one.** An instant query has the hour
before its time as its window and its range as the step; it is capped when the range is no less than
an 11000th of an hour. The others are capped unless the window does not fit an `i64`. The instant
queries of PromQL, the tool's too, have no such loop. -/
theorem capped_requests_iff (F64 : Type) [FloatOps F64] (clock : ℕ) :
    (∀ (time : Option String) (window : ℤ × ℤ), LogQL.instantWindow F64 clock time = .ok window →
      ∀ range : ℕ, (Capped window.1 window.2 (LogQL.durationToI64Ns range) ↔
        range = 0 ∨ LogQL.hourNs < maxQuerySteps * range ∨
          window.2 < i64Min + LogQL.hourNs)) ∧
    (∀ (function : LogQL.MetricFunc) (inner : LogQL.LogQLExpr F64) (range : ℕ)
      (params : LogQL.RangeParams) (r : LogQL.RangeRequest),
      LogQL.rangeRequest F64 clock (.metricQuery function inner range) params = .ok r →
        let step := r.stepNs.getD (LogQL.durationToI64Ns range)
        (Capped r.startNs r.endNs step ↔ step ≤ 0 ∨ r.endNs - r.startNs ≤ i64Max ∨
          r.endNs - r.startNs < maxQuerySteps * step)) ∧
    (∀ (params : PromQL.RangeParams) (r : PromQL.RangeRequest),
      PromQL.rangeRequest F64 clock params = .ok r →
        (Capped r.startMs r.endMs r.stepMs ↔ r.endMs - r.startMs ≤ i64Max ∨
          r.endMs - r.startMs < maxQuerySteps * r.stepMs)) ∧
    ∀ (args : Mcp.QueryMetricsArgs) (r : PromQL.RangeRequest),
      Mcp.metricsRequest F64 args = .ok (some r) →
        (Capped r.startMs r.endMs r.stepMs ↔ r.endMs - r.startMs ≤ i64Max ∨
          r.endMs - r.startMs < maxQuerySteps * r.stepMs) :=
  ⟨fun _ _ h range => LogQL.capped_instantWindow_iff h range,
    fun _ _ _ _ _ h => LogQL.capped_rangeRequest_iff h,
    fun _ _ h => PromQL.capped_rangeRequest_iff h, fun _ _ h => Mcp.capped_metricsRequest_iff h⟩

/-- A window from the earliest second that fits an `i64` in milliseconds to the year 33658. -/
def longWindow : PromQL.RangeParams :=
  ⟨some "-9223372036854775", some "1000000000000", some "838500000000000ms"⟩

/-- The long window passes the check. -/
theorem rangeRequest_longWindow : PromQL.rangeRequest ℤ 0 longWindow =
    .ok ⟨-9223372036854775000, 1000000000000000, 838500000000000⟩ := by
  have hstart : parseTimestampMs ℤ "-9223372036854775" = some (-9223372036854775000) := by decide
  have hend : parseTimestampMs ℤ "1000000000000" = some 1000000000000000 := by decide
  have hstep : parseDuration ℤ "838500000000000ms" = some (some 838500000000000000000) := by decide
  simp only [PromQL.rangeRequest, longWindow, timeArgument, PromQL.rangeStep, stepArgument, hstart,
    hend, hstep]
  rfl

/-- The condition for the long window. -/
theorem capped_requests_iff_longWindow :
    Capped (-9223372036854775000) 1000000000000000 838500000000000 ↔
      (1000000000000000 : ℤ) - -9223372036854775000 ≤ i64Max ∨
        (1000000000000000 : ℤ) - -9223372036854775000 < maxQuerySteps * 838500000000000 :=
  (capped_requests_iff ℤ 0).2.2.1 longWindow
    ⟨-9223372036854775000, 1000000000000000, 838500000000000⟩ rangeRequest_longWindow

/-- **An instant query with a range of a millisecond runs a loop of 3600001 steps, and the long
window is let through.** -/
theorem not_capped :
    (LogQL.instantWindow ℤ 0 (some "1700000000") =
        .ok (1699996400000000000, 1700000000000000000) ∧
      ¬ Capped 1699996400000000000 1700000000000000000 (LogQL.durationToI64Ns 1000000)) ∧
    PromQL.rangeRequest ℤ 0 longWindow =
        .ok ⟨-9223372036854775000, 1000000000000000, 838500000000000⟩ ∧
      ¬ Capped (-9223372036854775000) 1000000000000000 838500000000000 := by
  have htime : parseTimestampNs ℤ "1700000000" = some 1700000000000000000 := by decide
  refine ⟨⟨?_, ?_⟩, rangeRequest_longWindow, ?_⟩
  · simp only [LogQL.instantWindow, htime]
    rfl
  · rw [capped_iff (by decide)]
    decide
  · rw [capped_iff (by decide)]
    decide

end Aniani
