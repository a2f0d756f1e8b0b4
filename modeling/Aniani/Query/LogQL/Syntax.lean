import Aniani.Query.PromQL.Syntax
import Aniani.Query.Text

/-!
# LogQL expressions and results

The expressions are what the LogQL parser makes of a query. A regular expression is compiled by a
crate outside the repository, and a compiled one is known by what is asked of it. A duration is in
nanoseconds.

The evaluator reads a log store, whose maps it walks, compiles the patterns of label matchers and
parses JSON; an `Env` holds these for one query.

## Main definitions

* `LogQLExpr`, `LogQLMatcher`, `PipelineStage` — queries
* `ResolvedEntry`, `StreamResult`, `LogQLResult` — results
* `Env` — what is read
-/

namespace Aniani

namespace LogQL

/-! ### Expressions -/

/-- Match operator for labels. -/
inductive MatchOp where
  | eq | neq | regex | notRegex
  deriving DecidableEq

/-- A label matcher in a stream selector. -/
structure LogQLMatcher where
  name : String
  op : MatchOp
  value : String
  deriving DecidableEq

/-- Comparison operators for numeric label filters. -/
inductive CompareOp where
  | gt | gte | lt | lte
  deriving DecidableEq

/-- Metric functions over log streams. -/
inductive MetricFunc where
  | countOverTime | rate | bytesOverTime | sumOverTime | avgOverTime | minOverTime | maxOverTime
  deriving DecidableEq

/-- A compiled `Regex`. -/
structure Regex where
  isMatch : String → Bool
  /-- `capture_names`, nothing for a group without a name. -/
  captureNames : List (Option String)
  /-- `captures`, and then `name` of a group. -/
  captures : String → Option (String → Option String)

/-- Pipeline filter stage. -/
inductive PipelineStage (F64 : Type) where
  | lineContains (pattern : String)
  | lineNotContains (pattern : String)
  | lineRegex (pattern : String) (re : Regex)
  | lineNotRegex (pattern : String) (re : Regex)
  | jsonExtract
  | logfmtExtract
  | unwrap (field : String)
  | regexpExtract (pattern : String) (re : Regex)
  | labelFilter (key : String) (op : MatchOp) (value : String) (compiledRegex : Option Regex)
  | compareFilter (key : String) (op : CompareOp) (value : F64)

/-- Top-level LogQL expression. -/
inductive LogQLExpr (F64 : Type) where
  | streamSelector (matchers : List LogQLMatcher)
  | pipeline (selector : LogQLExpr F64) (stages : List (PipelineStage F64))
  | metricQuery (function : MetricFunc) (inner : LogQLExpr F64) (range : ℕ)

/-! ### Results -/

/-- A resolved log entry. -/
structure ResolvedEntry where
  timestampNs : ℤ
  line : String
  traceId : Option String
  spanId : Option String
  attributes : List (String × String)
  deriving DecidableEq

/-- A single stream result with entries. -/
structure StreamResult where
  labels : List (String × String)
  entries : List ResolvedEntry
  deriving DecidableEq

/-- A single metric result. -/
structure MetricResult (F64 : Type) where
  labels : List (String × String)
  samples : List (ℤ × F64)

/-- Result of a LogQL evaluation. -/
inductive LogQLResult (F64 : Type) where
  | streams (results : List StreamResult)
  | matrix (results : List (MetricResult F64))

/-! ### What is read -/

/-- The store of a query, and what the query takes from outside the repository. -/
structure Env (Rodeo Spur F64 : Type) where
  store : LogStore Rodeo Spur F64
  it : IterOrder ℕ
  itValues : IterOrder Spur
  regexNew : String → Option Regex
  json : JsonCrate F64

end LogQL

end Aniani
