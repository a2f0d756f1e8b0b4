import Aniani.Query.FloatOps
import Aniani.Store.Select
import Mathlib.Tactic.Positivity
import Mathlib.Tactic.Ring

/-!
# PromQL expressions and results

The expressions are what the `promql-parser` crate makes of a query, as far as the evaluator looks
at them. A duration is in nanoseconds, a `SystemTime` in nanoseconds from the epoch. The functions
and operators that one branch of the evaluator treats alike are one type each.

The evaluator reads a metric store, whose maps it walks, compiles regular expressions and formats
strings; an `Env` holds these for one query. Two walks of a map nothing has changed in between
visit its keys in one order, so an `Env` has one walk for the series and one for the values of a
label.

## Main definitions

* `Expr` and its parts
* `PromQLResult`, `SeriesResult`, `PromQLError`
* `Env`, `Times` — what is read, and for which times
* `stepTimes` — the times a range query visits

## Main results

* `mem_stepTimes`, `stepTimes_sorted`
-/

namespace Aniani

namespace PromQL

/-! ### Expressions -/

/-- `Offset`. -/
inductive Offset where
  | pos (duration : ℕ)
  | neg (duration : ℕ)

/-- `AtModifier`: `Start`, `End` and `At`. -/
inductive AtModifier where
  | start
  | finish
  | time (t : ℤ)

/-- The operators of a matcher. -/
inductive PromMatchOp where
  | equal | notEqual | re | notRe

/-- A matcher of the parser. -/
structure Matcher where
  op : PromMatchOp
  name : String
  value : String

/-- `VectorSelector`. -/
structure VectorSelector where
  name : Option String
  matchers : List Matcher
  offset : Option Offset
  atModifier : Option AtModifier

/-- `LabelModifier`: `by` or `on`, and `without` or `ignoring`. -/
inductive LabelModifier where
  | include (labels : List String)
  | exclude (labels : List String)

/-- `VectorMatchCardinality`. -/
inductive VectorMatchCardinality where
  | oneToOne
  | manyToOne (labels : List String)
  | oneToMany (labels : List String)
  | manyToMany

/-- `BinModifier`. -/
structure BinModifier where
  matching : Option LabelModifier
  card : VectorMatchCardinality
  returnBool : Bool

/-- The arithmetic, comparison and set operators, and the one the evaluator does not know. -/
inductive BinaryOp where
  | add | sub | mul | div | mod | pow | atan2
  | gt | lt | gte | lte | eql | neq
  | and | or | unless
  deriving DecidableEq

/-- The aggregations that treat one time after another. -/
inductive AggregateFunc where
  | sum | avg | max | min | count | stddev | stdvar | group
  deriving DecidableEq

/-- The aggregations. -/
inductive AggregateOp where
  | topk | bottomk | countValues | quantile
  | func (f : AggregateFunc)
  | other (name : String)

/-- The functions of `eval_rate_like`. -/
inductive RateFunc where
  | rate | increase | irate | delta | deriv
  deriving DecidableEq

/-- The functions of `eval_over_time`. -/
inductive OverTimeFunc where
  | avg | min | max | sum | count | last | present | stddev | stdvar
  deriving DecidableEq

/-- The functions of `eval_changes_or_resets`. -/
inductive CountFunc where
  | changes | resets
  deriving DecidableEq

/-- The functions of `apply_scalar_func`. -/
inductive ScalarFunc where
  | abs | ceil | floor | round
  deriving DecidableEq

/-- The functions of `apply_math_func`. -/
inductive MathFunc where
  | ln | log2 | log10 | exp | sqrt | sgn
  deriving DecidableEq

/-- The functions `eval_call` knows, and the others by name. -/
inductive Func where
  | rateLike (f : RateFunc)
  | overTime (f : OverTimeFunc)
  | quantileOverTime
  | absentOverTime
  | histogramQuantile
  | scalarFunc (f : ScalarFunc)
  | mathFunc (f : MathFunc)
  | timestamp
  | changesOrResets (f : CountFunc)
  | labelReplace
  | labelJoin
  | absent
  | sort (descending : Bool)
  | clamp | clampMin | clampMax
  | time | vector | scalar
  | other (name : String)

/-- `Expr`. A subquery or an extension is not evaluated; all that is read of one is its text. -/
inductive Expr (F64 : Type) where
  | numberLiteral (val : F64)
  | stringLiteral (val : String)
  | vectorSelector (vs : VectorSelector)
  | matrixSelector (vs : VectorSelector) (range : ℕ)
  | call (func : Func) (args : List (Expr F64))
  | aggregate (op : AggregateOp) (expr : Expr F64) (param : Option (Expr F64))
      (modifier : Option LabelModifier)
  | binary (op : BinaryOp) (lhs rhs : Expr F64) (modifier : Option BinModifier)
  | paren (expr : Expr F64)
  | unary (expr : Expr F64)
  | other (text : String)

/-! ### Results -/

/-- `PromQLError`. -/
inductive PromQLError where
  | parse (text : String)
  | unsupported (text : String)
  | eval (text : String)
  deriving DecidableEq

/-- A label set as the evaluator passes it on. -/
abbrev SeriesLabelSet := List (String × String)

/-- A single series in the result. -/
structure SeriesResult (F64 : Type) where
  labels : SeriesLabelSet
  samples : List (ℤ × F64)
  deriving DecidableEq

/-- Result of a PromQL evaluation. -/
inductive PromQLResult (F64 : Type) where
  | instantVector (series : List (SeriesResult F64))
  | rangeVector (series : List (SeriesResult F64))
  | scalar (v : F64)
  deriving DecidableEq

/-- A result or an error. -/
abbrev Outcome (F64 : Type) := Except PromQLError (PromQLResult F64)

/-- A series that has samples, nothing for one without. -/
def seriesOf {F64 : Type} (labels : SeriesLabelSet) (samples : List (ℤ × F64)) :
    Option (SeriesResult F64) :=
  if samples.isEmpty then none else some ⟨labels, samples⟩

/-! ### What an evaluation reads -/

/-- The store, the order its maps are walked in, `Regex::new` with the groups that
`Regex::captures` gives from the first one on, and the `Debug` text of a string. -/
structure Env (Rodeo Spur F64 : Type) where
  store : MetricStore Rodeo Spur F64
  it : IterOrder ℕ
  itValues : IterOrder Spur
  regexNew : String → Option (String → Option (List (Option String)))
  debugStr : String → String

/-- The times of an evaluation: those of a range query, or of an instant query the one time as both
ends. -/
structure Times where
  startMs : ℤ
  endMs : ℤ
  stepMs : ℤ
  instant : Bool

/-- `advance_time`. -/
def advanceTime (current step : ℤ) : Option ℤ :=
  if step ≤ 0 then none else if current + step ≤ i64Max then some (current + step) else none

/-- The loop `while t <= end_ms`, with fuel for its turns. -/
def stepsFrom (endMs step : ℤ) : ℕ → ℤ → List ℤ
  | 0, _ => []
  | fuel + 1, t =>
    if t ≤ endMs then
      t :: match advanceTime t step with
        | some next => stepsFrom endMs step fuel next
        | none => []
    else []

/-- The times a range query visits. -/
def stepTimes (startMs endMs step : ℤ) : List ℤ :=
  stepsFrom endMs step ((endMs - startMs).toNat + 1) startMs

/-- The times an evaluation reports on: the end alone for an instant. -/
def Times.points (times : Times) : List ℤ :=
  if times.instant || times.stepMs == 0 then [times.endMs]
  else stepTimes times.startMs times.endMs times.stepMs

/-- An instant query. -/
def Times.ofInstant (timeMs : ℤ) : Times := ⟨timeMs, timeMs, 0, true⟩

/-- A range query. -/
def Times.ofRange (startMs endMs stepMs : ℤ) : Times := ⟨startMs, endMs, stepMs, false⟩

@[simp] theorem Times.points_ofInstant (timeMs : ℤ) : (Times.ofInstant timeMs).points = [timeMs] := rfl

theorem Times.points_ofRange {startMs endMs stepMs : ℤ} (hstep : 0 < stepMs) :
    (Times.ofRange startMs endMs stepMs).points = stepTimes startMs endMs stepMs := by
  have hne : (stepMs == 0) = false := by simpa using hstep.ne'
  show (if (false || stepMs == 0) = true then _ else _) = _
  rw [hne]
  rfl

/-! ### The steps -/

theorem mem_stepsFrom {endMs step : ℤ} (hstep : 0 < step) (hend : endMs ≤ i64Max) {fuel : ℕ}
    {start : ℤ} (hfuel : endMs < start + fuel) {t : ℤ} :
    t ∈ stepsFrom endMs step fuel start ↔ ∃ n : ℕ, t = start + n * step ∧ t ≤ endMs := by
  induction fuel generalizing start with
  | zero =>
    refine iff_of_false List.not_mem_nil ?_
    rintro ⟨n, rfl, hle⟩
    have : (0 : ℤ) ≤ n * step := by positivity
    push_cast at hfuel
    omega
  | succ fuel ih =>
    rw [stepsFrom]
    have hafter : (∃ n : ℕ, t = start + n * step ∧ t ≤ endMs) ↔
        t = start ∧ t ≤ endMs ∨ ∃ n : ℕ, t = start + step + n * step ∧ t ≤ endMs := by
      constructor
      · rintro ⟨_ | n, rfl, hle⟩
        · left
          simpa using hle
        · refine .inr ⟨n, by push_cast; ring, hle⟩
      · rintro (⟨rfl, hle⟩ | ⟨n, rfl, hle⟩)
        · exact ⟨0, by simp, hle⟩
        · exact ⟨n + 1, by push_cast; ring, hle⟩
    split
    · next hle =>
      rw [List.mem_cons, hafter]
      refine or_congr (by constructor <;> intro h <;> omega) ?_
      rw [advanceTime, if_neg (not_le.mpr hstep)]
      split
      · next next hnext =>
        rw [ih (by push_cast at hfuel; split at hnext <;> simp at hnext; omega)]
        split at hnext
        · rw [← Option.some.inj hnext]
        · exact absurd hnext (by simp)
      · next hnext =>
        refine iff_of_false List.not_mem_nil ?_
        rintro ⟨n, rfl, hle⟩
        split at hnext
        · exact absurd hnext (by simp)
        · next hover =>
          have : (0 : ℤ) ≤ n * step := by positivity
          omega
    · next hgt =>
      refine iff_of_false List.not_mem_nil ?_
      rintro ⟨n, rfl, hle⟩
      have : (0 : ℤ) ≤ n * step := by positivity
      omega

/-- **The steps** of a range query. -/
theorem mem_stepTimes {startMs endMs step : ℤ} (hstep : 0 < step) (hend : endMs ≤ i64Max) {t : ℤ} :
    t ∈ stepTimes startMs endMs step ↔ ∃ n : ℕ, t = startMs + n * step ∧ t ≤ endMs :=
  mem_stepsFrom hstep hend (by push_cast; omega)

theorem stepsFrom_sorted (endMs step : ℤ) (fuel : ℕ) (start : ℤ) :
    (stepsFrom endMs step fuel start).Pairwise (· < ·) ∧
      ∀ t ∈ stepsFrom endMs step fuel start, start ≤ t := by
  induction fuel generalizing start with
  | zero => exact ⟨List.Pairwise.nil, fun t ht => absurd ht List.not_mem_nil⟩
  | succ fuel ih =>
    rw [stepsFrom]
    split
    · rw [advanceTime]
      split
      · next next hnext =>
        obtain ⟨hpair, hle⟩ := ih next
        have hlt : start < next := by
          split at hnext
          · exact absurd hnext (by simp)
          split at hnext
          · obtain rfl := Option.some.inj hnext
            omega
          · exact absurd hnext (by simp)
        refine ⟨List.pairwise_cons.mpr ⟨fun t ht => hlt.trans_le (hle t ht), hpair⟩,
          List.forall_mem_cons.mpr ⟨le_rfl, fun t ht => hlt.le.trans (hle t ht)⟩⟩
      · exact ⟨List.pairwise_singleton _ _, fun t ht => (List.mem_singleton.mp ht).ge⟩
    · exact ⟨List.Pairwise.nil, fun t ht => absurd ht List.not_mem_nil⟩

/-- The steps come in increasing order. -/
theorem stepTimes_sorted (startMs endMs step : ℤ) :
    (stepTimes startMs endMs step).Pairwise (· < ·) :=
  (stepsFrom_sorted endMs step _ startMs).1

end PromQL

end Aniani
