import Aniani.Query.PromQL.Binary

/-!
# The PromQL evaluator

`eval_expr` walks the expression. The arguments of a call are evaluated where a function asks for
them and errors come in that order; here each argument goes to `evalCall` as the expression and its
outcome.

## Main definitions

* `evalCall`, `evalExpr`
* `evaluateInstant`, `evaluateRange`
* `PromQLResult.atTime`, `Agree` — what is reported at a time, and equality up to the order of the
  series
-/

namespace Aniani

namespace PromQL

variable {F64 : Type}

/-! ### Calls -/

/-- The name of a function. -/
def ScalarFunc.name : ScalarFunc → String
  | .abs => "abs"
  | .ceil => "ceil"
  | .floor => "floor"
  | .round => "round"

@[inherit_doc ScalarFunc.name]
def MathFunc.name : MathFunc → String
  | .ln => "ln"
  | .log2 => "log2"
  | .log10 => "log10"
  | .exp => "exp"
  | .sqrt => "sqrt"
  | .sgn => "sgn"

/-- `eval_one_arg`, with the arguments and their outcomes. -/
def evalOneArg (args : List (Expr F64 × Outcome F64)) (funcName : String) : Outcome F64 :=
  match args with
  | (_, result) :: _ => result
  | [] => .error (.eval (funcName ++ " requires an argument"))

/-- `eval_scalar_arg`, with the outcome of the argument. -/
def evalScalarArg (result : Outcome F64) (error : String) : Except PromQLError F64 :=
  match result with
  | .ok (.scalar v) => .ok v
  | .ok _ => .error (.eval error)
  | .error e => .error e

section Eval

variable [FloatOps F64]

/-- A vector of one sample without labels. -/
def single (t : ℤ) (v : F64) : PromQLResult F64 := .instantVector [⟨[], [(t, v)]⟩]

/-- The branch `absent`. -/
def applyAbsent (endMs : ℤ) : PromQLResult F64 → PromQLResult F64
  | .instantVector [] => single endMs FloatOps.one
  | .rangeVector [] => single endMs FloatOps.one
  | _ => .instantVector []

/-- The branch `vector`. -/
def applyVector (endMs : ℤ) : PromQLResult F64 → PromQLResult F64
  | .scalar v => single endMs v
  | other => other

/-- The branch `scalar`. -/
def applyScalar : PromQLResult F64 → PromQLResult F64
  | .instantVector [sr] => .scalar ((sr.samples.head?.map Prod.snd).getD FloatOps.nan)
  | .scalar v => .scalar v
  | _ => .scalar FloatOps.nan

/-- `sort_vector`. -/
def sortVector (descending : Bool) : PromQLResult F64 → PromQLResult F64
  | .instantVector series => .instantVector
      (if descending then FloatOps.sortedByDesc rankValue series
        else FloatOps.sortedBy rankValue series)
  | other => other

variable {Rodeo Spur : Type} [LinearOrder Spur] [Interner Rodeo Spur]
  (env : Env Rodeo Spur F64) (times : Times)

/-- A function of a range vector as its first argument. -/
def evalRangeArg (funcName : String) (args : List (Expr F64 × Outcome F64))
    (f : Expr F64 → Outcome F64) : Outcome F64 :=
  match args with
  | (arg, _) :: _ => f arg
  | [] => .error (requiresRangeVector funcName)

/-- `eval_call`, with the arguments and their outcomes. -/
def evalCall (func : Func) (args : List (Expr F64 × Outcome F64)) : Outcome F64 :=
  match func with
  | .rateLike f => evalRangeArg f.name args (evalRateLike env times f)
  | .overTime f => evalRangeArg f.name args (evalOverTime env times f)
  | .quantileOverTime =>
    match args with
    | (_, quantile) :: (arg, _) :: _ =>
      (evalScalarArg quantile "first arg to quantile_over_time must be scalar").bind fun quantile =>
        evalQuantileOverTime env times quantile arg
    | _ => .error (.eval "quantile_over_time requires 2 arguments")
  | .absentOverTime => evalRangeArg "absent_over_time" args (evalAbsentOverTime env times)
  | .histogramQuantile =>
    match args with
    | (_, quantile) :: (_, buckets) :: _ =>
      (evalScalarArg quantile "first arg to histogram_quantile must be scalar").bind fun quantile =>
        buckets.bind (evalHistogramQuantile quantile)
    | _ => .error (.eval "histogram_quantile requires 2 arguments")
  | .scalarFunc f => (evalOneArg args f.name).map (applyScalarFunc f)
  | .mathFunc f => (evalOneArg args f.name).map (applyMathFunc f)
  | .timestamp => (evalOneArg args "timestamp").map applyTimestamp
  | .changesOrResets f => evalRangeArg f.name args (evalChangesOrResets env times f)
  | .labelReplace =>
    (evalOneArg args "label_replace").bind (evalLabelReplace env.regexNew (args.map Prod.fst))
  | .labelJoin => (evalOneArg args "label_join").bind (evalLabelJoin (args.map Prod.fst))
  | .absent => (evalOneArg args "absent").map (applyAbsent times.endMs)
  | .sort descending =>
    (evalOneArg args (if descending then "sort_desc" else "sort")).map (sortVector descending)
  | .clamp =>
    match args with
    | (_, inner) :: (_, least) :: (_, greatest) :: _ =>
      inner.bind fun inner =>
        (evalScalarArg least "clamp min argument must be a scalar").bind fun least =>
          (evalScalarArg greatest "clamp max argument must be a scalar").map fun greatest =>
            applyClamp (some least) (some greatest) inner
    | _ => .error (.eval "clamp requires 3 arguments: vector, min, max")
  | .clampMin =>
    match args with
    | (_, inner) :: (_, least) :: _ =>
      inner.bind fun inner =>
        (evalScalarArg least "clamp_min argument must be a scalar").map fun least =>
          applyClamp (some least) none inner
    | _ => .error (.eval "clamp_min requires 2 arguments: vector, min")
  | .clampMax =>
    match args with
    | (_, inner) :: (_, greatest) :: _ =>
      inner.bind fun inner =>
        (evalScalarArg greatest "clamp_max argument must be a scalar").map fun greatest =>
          applyClamp none (some greatest) inner
    | _ => .error (.eval "clamp_max requires 2 arguments: vector, max")
  | .time => .ok (single times.endMs (seconds times.endMs))
  | .vector => (evalOneArg args "vector").map (applyVector times.endMs)
  | .scalar => (evalOneArg args "scalar").map applyScalar
  | .other name => .error (.unsupported ("function: " ++ name))

/-! ### Expressions -/

mutual

/-- `eval_expr`. -/
def evalExpr : Expr F64 → Outcome F64
  | .numberLiteral val => .ok (.scalar val)
  | .stringLiteral val => .error (.unsupported
      ("StringLiteral(StringLiteral \x7b val: " ++ env.debugStr val ++ " \x7d)"))
  | .vectorSelector vs => .ok (evalVectorSelector env times vs)
  | .matrixSelector vs range => .ok (evalMatrixSelector env times vs range)
  | .call func args => evalCall env times func (evalArgs args)
  | .aggregate op expr param modifier =>
    (evalExpr expr).bind fun inner =>
      (evalParam param).bind fun param => evalAggregation op modifier inner param
  | .binary op lhs rhs modifier =>
    (evalExpr lhs).bind fun lhs =>
      (evalExpr rhs).bind fun rhs => evalBinaryResult env.debugStr op modifier lhs rhs
  | .paren expr => evalExpr expr
  | .unary expr => (evalExpr expr).map applyUnaryMinus
  | .other text => .error (.unsupported text)

/-- The arguments of a call, each with its outcome. -/
def evalArgs : List (Expr F64) → List (Expr F64 × Outcome F64)
  | [] => []
  | arg :: args => (arg, evalExpr arg) :: evalArgs args

/-- The parameter of an aggregation. -/
def evalParam : Option (Expr F64) → Except PromQLError (Option (PromQLResult F64))
  | none => .ok none
  | some param => (evalExpr param).map some

end

end Eval

/-! ### Queries -/

section Queries

variable [FloatOps F64] {Rodeo Spur : Type} [LinearOrder Spur] [Interner Rodeo Spur]
  (parse : String → Except String (Expr F64)) (query : String) (env : Env Rodeo Spur F64)

/-- `evaluate_instant`. -/
def evaluateInstant (timeMs : ℤ) : Outcome F64 :=
  match parse query with
  | .ok ast => evalExpr env (Times.ofInstant timeMs) ast
  | .error text => .error (.parse text)

/-- `evaluate_range`. -/
def evaluateRange (startMs endMs stepMs : ℤ) : Outcome F64 :=
  match parse query with
  | .ok ast => evalExpr env (Times.ofRange startMs endMs stepMs) ast
  | .error text => .error (.parse text)

end Queries

/-- A store after some operations, walked in increasing order and without regular expressions, to
evaluate queries on. -/
def Env.ofOps (ops : List (MetricOp ℤ)) : Env VecRodeo ℕ ℤ where
  store := Run.exec MetricStore.apply MetricStore.new ops
  it := .ascending ℕ
  itValues := .ascending ℕ
  regexNew _ := none
  debugStr s := s

/-! ### Comparing results -/

/-- The part of the series at a time; a series without a sample there is left out. -/
def seriesAt (t : ℤ) (series : List (SeriesResult F64)) : List (SeriesResult F64) :=
  series.filterMap fun sr => seriesOf sr.labels (sr.samples.filter fun s => s.1 == t)

/-- What a result reports at a time. -/
def PromQLResult.atTime (t : ℤ) : PromQLResult F64 → PromQLResult F64
  | .instantVector series => .instantVector (seriesAt t series)
  | .rangeVector series => .rangeVector (seriesAt t series)
  | .scalar v => .scalar v

/-- Two outcomes are the same up to the order of their series. -/
def Agree : Outcome F64 → Outcome F64 → Prop
  | .ok (.instantVector series), .ok (.instantVector series') => series.Perm series'
  | .ok (.rangeVector series), .ok (.rangeVector series') => series.Perm series'
  | a, b => a = b

theorem Agree.of_eq {a b : Outcome F64} (h : a = b) : Agree a b := by
  subst h
  match a with
  | .ok (.instantVector _) => exact List.Perm.refl _
  | .ok (.rangeVector _) => exact List.Perm.refl _
  | .ok (.scalar _) => rfl
  | .error _ => rfl

end PromQL

end Aniani
