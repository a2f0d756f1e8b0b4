import Aniani.Query.FloatOps
import Aniani.Query.Text
import Aniani.Store.TraceStore
import Mathlib.Data.List.Lex
import Mathlib.Data.String.Basic

/-!
# TraceQL span selectors

A span selector is a list of conditions joined by `&&` and `||`. Evaluating one filters the spans
of the stored traces. When no `||` occurs, the conditions of the form `=` that an index can answer
first narrow the traces to look at; the spans of these are then checked in full.

A regular expression is compiled by a crate outside the repository: `regexNew` stands for
`Regex::new` with `Regex::is_match`.

## Main definitions

* `SpanCondition`, `SpanSelector` — the selectors
* `TraceStore.spanMatchesCondition`, `TraceStore.spanMatchesConditions`
* `TraceStore.candidateTraceIds` — the narrowing
* `TraceStore.evalSpanSelector`, and `TraceStore.scanAllTraces` without the narrowing
-/

namespace Aniani

/-! ### Selectors -/

/-- Attribute scope. -/
inductive AttrScope where
  | resource | span
  deriving DecidableEq

/-- Comparison operators. -/
inductive CompareOp where
  | eq | neq | gt | lt | gte | lte | regex
  deriving DecidableEq

/-- Logical operators between conditions. -/
inductive LogicalOp where
  | and | or
  deriving DecidableEq

/-- Values in span conditions. -/
inductive SpanValue (F64 : Type) where
  | string (s : String)
  | int (i : ℤ)
  | float (f : F64)
  | bool (b : Bool)

/-- A condition within a span selector. A duration is in nanoseconds; the values of a status and of
a kind are those of a span. -/
inductive SpanCondition (F64 : Type) where
  | attribute (scope : AttrScope) (name : String) (op : CompareOp) (value : SpanValue F64)
  | duration (op : CompareOp) (value : ℕ)
  | status (op : CompareOp) (value : SpanStatus)
  | kind (op : CompareOp) (value : SpanKind)
  | name (op : CompareOp) (value : String)
  | eventName (op : CompareOp) (value : String)
  | eventAttribute (name : String) (op : CompareOp) (value : SpanValue F64)

/-- `TraceQLExpr::SpanSelector`, with an operator between each two conditions. -/
structure SpanSelector (F64 : Type) where
  conditions : List (SpanCondition F64)
  logicalOps : List LogicalOp
  length_logicalOps : logicalOps.length = conditions.length - 1

/-- `MatchedSpan`. -/
structure MatchedSpan where
  spanId : SpanId
  name : String
  serviceName : String
  startTimeNs : ℤ
  durationNs : ℤ
  status : SpanStatus
  attributes : List (String × String)

/-- `TraceResult`. -/
structure TraceResult where
  traceId : TraceId
  matchedSpans : List MatchedSpan

/-! ### Comparing -/

/-- The six comparisons of two values of an ordered type; `=~` never holds. -/
def compareOrdered {α : Type} [LinearOrder α] (a : α) (op : CompareOp) (b : α) : Bool :=
  match op with
  | .eq => decide (a = b)
  | .neq => decide (a ≠ b)
  | .gt => decide (b < a)
  | .lt => decide (a < b)
  | .gte => decide (b ≤ a)
  | .lte => decide (a ≤ b)
  | .regex => false

/-- `compare_i64`. -/
def compareI64 (a : ℤ) (op : CompareOp) (b : ℤ) : Bool := compareOrdered a op b

/-- `compare_duration`. -/
def compareDuration (spanDur : ℕ) (op : CompareOp) (target : ℕ) : Bool :=
  compareOrdered spanDur op target

/-- `compare_string`. -/
def compareString (actual : String) (op : CompareOp) (expected : String)
    (compiledRegex : Option (String → Bool)) : Bool :=
  match op with
  | .regex => (compiledRegex.map fun re => re actual).getD false
  | op => compareOrdered actual op expected

/-- `compare_f64`: equal means less than epsilon apart. -/
def compareF64 {F64 : Type} [FloatOps F64] (a : F64) (op : CompareOp) (b : F64) : Bool :=
  match op with
  | .eq => FloatOps.lt (FloatOps.abs (FloatOps.sub a b)) FloatOps.epsilon
  | .neq => FloatOps.le FloatOps.epsilon (FloatOps.abs (FloatOps.sub a b))
  | .gt => FloatOps.lt b a
  | .lt => FloatOps.lt a b
  | .gte => FloatOps.le b a
  | .lte => FloatOps.le a b
  | .regex => false

/-- `=` and `!=` on what is not ordered; no other operator holds. -/
def compareEq (matched : Bool) (op : CompareOp) : Bool :=
  match op with
  | .eq => matched
  | .neq => !matched
  | _ => false

/-- The value of decimal digits, if there is one and every character is one. -/
def parseDigits (digits : List Char) : Option ℕ :=
  if digits ≠ [] ∧ digits.all Char.isDigit then
    some (digits.foldl (fun n c => 10 * n + (c.toNat - '0'.toNat)) 0)
  else none

/-- `str::parse::<i64>`. -/
def parseI64 (s : String) : Option ℤ :=
  let value : Option ℤ :=
    match s.toList with
    | '-' :: digits => (parseDigits digits).map fun n => -(n : ℤ)
    | '+' :: digits => (parseDigits digits).map fun n => (n : ℤ)
    | digits => (parseDigits digits).map fun n => (n : ℤ)
  value.filter fun i => decide (i64Min ≤ i ∧ i ≤ i64Max)

/-- The regular expression of a condition, compiled: of a name or a string attribute only. -/
def precompileRegex {F64 : Type} (regexNew : String → Option (String → Bool)) :
    SpanCondition F64 → Option (String → Bool)
  | .attribute _ _ .regex (.string pattern) => regexNew pattern
  | .name .regex pattern => regexNew pattern
  | _ => none

/-- `precompile_regexes`. -/
def precompileRegexes {F64 : Type} (regexNew : String → Option (String → Bool))
    (conditions : List (SpanCondition F64)) : List (Option (String → Bool)) :=
  conditions.map (precompileRegex regexNew)

/-- The loop of `span_matches_conditions`: the result of the group of `&&` so far, then each operator
with the result of the condition after it. -/
def matchGroups : Bool → List (LogicalOp × Bool) → Bool
  | current, [] => current
  | current, (.and, next) :: rest => matchGroups (current && next) rest
  | current, (.or, next) :: rest => if current then true else matchGroups next rest

namespace TraceStore

variable {Rodeo Spur F64 : Type} [Interner Rodeo Spur]

/-- `resolve`. -/
protected def resolve (s : TraceStore Rodeo Spur F64) (spur : Spur) : String :=
  Interner.resolve s.interner spur

/-- `resolve_attribute_value`. -/
def resolveAttributeValue [Float64 F64] (s : TraceStore Rodeo Spur F64)
    (value : AttributeValue Spur F64) : String :=
  attributeText s.interner value

/-- `span_to_matched`. -/
def spanToMatched [Float64 F64] (s : TraceStore Rodeo Spur F64) (span : Span Spur F64) :
    MatchedSpan where
  spanId := span.spanId
  name := s.resolve span.name
  serviceName := s.resolve span.serviceName
  startTimeNs := span.startTimeNs
  durationNs := span.durationNs
  status := span.status
  attributes := span.attributes.map fun attr => (s.resolve attr.1, s.resolveAttributeValue attr.2)

/-! ### Matching a span -/

/-- `compare_attribute_value`. -/
def compareAttributeValue [FloatOps F64] (s : TraceStore Rodeo Spur F64)
    (attr : AttributeValue Spur F64) (op : CompareOp) (target : SpanValue F64)
    (compiledRegex : Option (String → Bool)) : Bool :=
  match attr, target with
  | .string v, .string t => compareString (s.resolve v) op t compiledRegex
  | .int i, .int t => compareI64 i op t
  | .int i, .float t => compareF64 (Float64.ofI64 i) op t
  | .float f, .float t => compareF64 f op t
  | .float f, .int t => compareF64 f op (Float64.ofI64 t)
  | .string v, .int t =>
    match parseI64 (s.resolve v) with
    | some i => compareI64 i op t
    | none => false
  | .bool b, .bool t => compareEq (b == t) op
  | _, _ => false

/-- The keys an attribute condition looks at: the one with the prefix of the scope, and for a
resource the bare one. -/
def candidateKeys (scope : AttrScope) (name : String) : List String :=
  match scope with
  | .span => ["span." ++ name]
  | .resource => ["resource." ++ name, name]

/-- The attribute an attribute condition looks at: the first one under a candidate key. -/
def findAttribute (s : TraceStore Rodeo Spur F64) (span : Span Spur F64) (scope : AttrScope)
    (name : String) : Option (Spur × AttributeValue Spur F64) :=
  span.attributes.find? fun attr => decide (s.resolve attr.1 ∈ candidateKeys scope name)

/-- `span_matches_condition`. -/
def spanMatchesCondition [FloatOps F64] (s : TraceStore Rodeo Spur F64) (span : Span Spur F64)
    (condition : SpanCondition F64) (compiledRegex : Option (String → Bool)) : Bool :=
  match condition with
  | .duration op value => compareDuration span.durationNs.toNat op value
  | .status op value => compareEq (span.status == value) op
  | .name op value => compareString (s.resolve span.name) op value compiledRegex
  | .kind op value => compareEq (span.kind == value) op
  | .eventName op value =>
    span.events.any fun ev => compareString (s.resolve ev.name) op value compiledRegex
  | .eventAttribute name op value =>
    let found := (span.events.flatMap SpanEvent.attributes).filter fun attr =>
      s.resolve attr.1 == name
    (found.any fun attr => s.compareAttributeValue attr.2 op value compiledRegex) ||
      (found.isEmpty && op == .neq)
  | .attribute scope name op value =>
    match s.findAttribute span scope name with
    | some attr => s.compareAttributeValue attr.2 op value compiledRegex
    | none => op == .neq

/-- `span_matches_conditions`: each condition comes with its compiled regular expression. -/
def spanMatchesConditions [FloatOps F64] (s : TraceStore Rodeo Spur F64) (span : Span Spur F64)
    (conditions : List (SpanCondition F64)) (logicalOps : List LogicalOp)
    (compiledRegexes : List (Option (String → Bool))) : Bool :=
  match (conditions.zip compiledRegexes).map fun c => s.spanMatchesCondition span c.1 c.2 with
  | [] => true
  | first :: rest => matchGroups first (logicalOps.zip rest)

/-! ### Narrowing -/

/-- `indexed_attribute_traces`. -/
def indexedAttributeTraces [DecidableEq Spur] (s : TraceStore Rodeo Spur F64) (scope : AttrScope)
    (name value : String) : Option (FxHashSet TraceId) :=
  if scope = .resource ∧ name = "service.name" then
    (Interner.get s.interner value).bind fun spur => s.serviceIndex.lookup spur
  else
    match Interner.get s.interner value with
    | none => none
    | some valSpur =>
      let out := (candidateKeys scope name).foldl (fun out key =>
        match (Interner.get s.interner key).bind fun keySpur =>
          (s.attrIndex.lookup keySpur).bind fun values => values.lookup valSpur with
        | some set => out ∪ set
        | none => out) ∅
      if out = ∅ then none else some out

/-- `indexable_traces`. -/
def indexableTraces [DecidableEq Spur] (s : TraceStore Rodeo Spur F64) :
    SpanCondition F64 → Option (FxHashSet TraceId)
  | .name .eq value =>
    (Interner.get s.interner value).bind fun spur => s.nameIndex.lookup spur
  | .status .eq value => s.statusIndex.lookup value
  | .attribute scope name .eq (.string value) => s.indexedAttributeTraces scope name value
  | _ => none

/-- One turn of the loop of `candidate_trace_ids`. -/
def narrow [DecidableEq Spur] (s : TraceStore Rodeo Spur F64)
    (candidate : Option (FxHashSet TraceId)) (condition : SpanCondition F64) :
    Option (FxHashSet TraceId) :=
  match s.indexableTraces condition, candidate with
  | some set, none => some set
  | some set, some cur => some (cur ∩ set)
  | none, candidate => candidate

/-- `candidate_trace_ids`, as a set. -/
def candidateTraceIds [DecidableEq Spur] (s : TraceStore Rodeo Spur F64)
    (conditions : List (SpanCondition F64)) (logicalOps : List LogicalOp) :
    Option (FxHashSet TraceId) :=
  if .or ∈ logicalOps then none else conditions.foldl s.narrow none

/-! ### Evaluation -/

/-- The closure `scan`, on the spans found under a trace id. -/
def scan [FloatOps F64] (regexNew : String → Option (String → Bool))
    (s : TraceStore Rodeo Spur F64) (selector : SpanSelector F64) (traceId : TraceId) :
    Option TraceResult :=
  match s.traces.lookup traceId with
  | none => none
  | some spans =>
    let matched := (spans.filter fun span =>
      s.spanMatchesConditions span selector.conditions selector.logicalOps
        (precompileRegexes regexNew selector.conditions)).map s.spanToMatched
    if matched.isEmpty then none else some ⟨traceId, matched⟩

/-- The order of the results. -/
def byTraceId (result : TraceResult) : List ℕ := result.traceId.toList.map UInt8.toNat

/-- The traces to look at: the narrowed ones, or all. -/
def tracesToScan [DecidableEq Spur] (it : IterOrder TraceId) (s : TraceStore Rodeo Spur F64)
    (selector : SpanSelector F64) : List TraceId :=
  match s.candidateTraceIds selector.conditions selector.logicalOps with
  | some ids => it.order ids
  | none => it.keys s.traces

/-- `eval_span_selector`. -/
def evalSpanSelector [DecidableEq Spur] [FloatOps F64]
    (regexNew : String → Option (String → Bool)) (it : IterOrder TraceId)
    (s : TraceStore Rodeo Spur F64) (selector : SpanSelector F64) : List TraceResult :=
  ((s.tracesToScan it selector).filterMap (s.scan regexNew selector)).sortByKey byTraceId

/-- The selector evaluated over every stored trace, in place of the narrowed ones. -/
def scanAllTraces [FloatOps F64] (regexNew : String → Option (String → Bool))
    (it : IterOrder TraceId) (s : TraceStore Rodeo Spur F64) (selector : SpanSelector F64) :
    List TraceResult :=
  ((it.keys s.traces).filterMap (s.scan regexNew selector)).sortByKey byTraceId

end TraceStore

end Aniani
