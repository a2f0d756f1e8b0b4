import Aniani.Query.PromQL.Aggregation

/-!
# PromQL binary operators

Two vectors are joined on match keys: the labels of a series that the modifier looks at, as a list
in the order the series has them. The right side is filed under its keys in a hash map, so a key
finds the right series that have it in their order.

## Main definitions

* `MatchMode`, `MatchMode.matchKey`, `JoinMode`
* `applyBinaryOp`, `comparisonSample`
* `evalVectorVector` — with `evalPlain`, `evalGroupLeft` and `evalGroupRight`
* `evalSetOp`, `evalBinaryResult`
-/

namespace Aniani

namespace PromQL

variable {F64 : Type}

/-! ### Match keys -/

/-- `MatchMode`. -/
inductive MatchMode where
  | allLabels
  | on (names : List String)
  | ignoring (names : List String)

/-- `JoinMode`. -/
inductive JoinMode where
  | plain
  | groupLeft (labels : List String)
  | groupRight (labels : List String)

/-- `MatchMode::from_modifier`. -/
def MatchMode.fromModifier : Option LabelModifier → MatchMode
  | some (.include labels) => .on labels
  | some (.exclude labels) => .ignoring labels
  | none => .allLabels

/-- `JoinMode::from_cardinality`. -/
def JoinMode.fromCardinality : VectorMatchCardinality → JoinMode
  | .manyToOne labels => .groupLeft labels
  | .oneToMany labels => .groupRight labels
  | .oneToOne => .plain
  | .manyToMany => .plain

/-- `labels_without_metric_name`. -/
def labelsWithoutMetricName (labels : SeriesLabelSet) : SeriesLabelSet :=
  labels.filter fun label => label.1 != "__name__"

/-- `match_key`. -/
def MatchMode.matchKey (mode : MatchMode) (labels : SeriesLabelSet) : SeriesLabelSet :=
  match mode with
  | .allLabels => labelsWithoutMetricName labels
  | .on names => labels.filter fun label => names.contains label.1
  | .ignoring names => labels.filter fun label =>
      label.1 != "__name__" && !names.contains label.1

/-! ### Values -/

/-- An operator as the parser writes it. -/
def BinaryOp.text : BinaryOp → String
  | .add => "+"
  | .sub => "-"
  | .mul => "*"
  | .div => "/"
  | .mod => "%"
  | .pow => "^"
  | .atan2 => "atan2"
  | .gt => ">"
  | .lt => "<"
  | .gte => ">="
  | .lte => "<="
  | .eql => "=="
  | .neq => "!="
  | .and => "and"
  | .or => "or"
  | .unless => "unless"

/-- `is_set_op`. -/
def BinaryOp.isSetOp : BinaryOp → Bool
  | .and | .or | .unless => true
  | _ => false

/-- `is_comparison`. -/
def BinaryOp.isComparison : BinaryOp → Bool
  | .gt | .lt | .gte | .lte | .eql | .neq => true
  | _ => false

section Operators

variable [FloatOps F64]

/-- `1.0` or `0.0`. -/
def truth (b : Bool) : F64 := if b then FloatOps.one else Float64.zero

/-- `apply_binary_op`. -/
def applyBinaryOp (op : BinaryOp) (l r : F64) : F64 :=
  match op with
  | .add => FloatOps.add l r
  | .sub => FloatOps.sub l r
  | .mul => FloatOps.mul l r
  | .div => if FloatOps.eq r Float64.zero then FloatOps.nan else FloatOps.div l r
  | .mod => if FloatOps.eq r Float64.zero then FloatOps.nan else FloatOps.rem l r
  | .gt => truth (FloatOps.lt r l)
  | .lt => truth (FloatOps.lt l r)
  | .gte => truth (FloatOps.le r l)
  | .lte => truth (FloatOps.le l r)
  | .eql => truth (FloatOps.lt (FloatOps.abs (FloatOps.sub l r)) FloatOps.epsilon)
  | .neq => truth (FloatOps.le FloatOps.epsilon (FloatOps.abs (FloatOps.sub l r)))
  | .pow => FloatOps.powf l r
  | _ => FloatOps.nan

/-- `comparison_sample`. -/
def comparisonSample (op : BinaryOp) (timestampMs : ℤ) (lhsValue result : F64)
    (returnBool : Bool) : Option (ℤ × F64) :=
  if op.isComparison then
    if returnBool then some (timestampMs, result)
    else if FloatOps.eq result Float64.zero then none
    else some (timestampMs, lhsValue)
  else some (timestampMs, result)

/-- The samples of a left series, each with the right sample of its time. -/
def joinSamples (op : BinaryOp) (returnBool : Bool) (lhs rhs : List (ℤ × F64)) :
    List (ℤ × F64) :=
  lhs.filterMap fun s => (sampleLookup rhs s.1).bind fun rv =>
    comparisonSample op s.1 s.2 (applyBinaryOp op s.2 rv) returnBool

/-- The samples of a vector, each with a scalar on the side where it stands. -/
def scalarSamples (op : BinaryOp) (returnBool isLhsScalar : Bool) (scalar : F64)
    (samples : List (ℤ × F64)) : List (ℤ × F64) :=
  samples.filterMap fun s =>
    comparisonSample op s.1 s.2
      (if isLhsScalar then applyBinaryOp op scalar s.2 else applyBinaryOp op s.2 scalar) returnBool

end Operators

/-! ### Joins -/

/-- The right series with a key. -/
def rhsMatches (mode : MatchMode) (rhs : List (SeriesResult F64)) (key : SeriesLabelSet) :
    List (SeriesResult F64) :=
  rhs.filter fun rs => mode.matchKey rs.labels == key

/-- The labels of a result of `group_left` or `group_right`: those of the many side, with the
carried labels of the one side put in. -/
def carryLabels (carry : List String) (oneSide manySide : SeriesLabelSet) : SeriesLabelSet :=
  sortLabels ((oneSide.filter fun label => carry.contains label.1).foldl
    (fun labels label => assignLabel labels label.1 label.2) (labelsWithoutMetricName manySide))

/-- The `Debug` text of a label set. -/
def debugLabels (debugStr : String → String) (labels : SeriesLabelSet) : String :=
  "[" ++ ", ".intercalate (labels.map fun label =>
    "(" ++ debugStr label.1 ++ ", " ++ debugStr label.2 ++ ")") ++ "]"

section Joins

variable [FloatOps F64] (op : BinaryOp) (returnBool : Bool) (mode : MatchMode)

/-- The branch `JoinMode::Plain`. -/
def evalPlain (lhs rhs : List (SeriesResult F64)) : List (SeriesResult F64) :=
  lhs.flatMap fun ls =>
    (rhsMatches mode rhs (mode.matchKey ls.labels)).filterMap fun rs =>
      seriesOf (labelsWithoutMetricName ls.labels)
        (joinSamples op returnBool ls.samples rs.samples)

/-- The branch `JoinMode::GroupLeft`. -/
def evalGroupLeft (debugStr : String → String) (carry : List String)
    (rhs : List (SeriesResult F64)) :
    List (SeriesResult F64) → Except PromQLError (List (SeriesResult F64))
  | [] => .ok []
  | ls :: lhs =>
    match rhsMatches mode rhs (mode.matchKey ls.labels) with
    | [] => evalGroupLeft debugStr carry rhs lhs
    | [rs] => (evalGroupLeft debugStr carry rhs lhs).map fun results =>
        (seriesOf (carryLabels carry rs.labels ls.labels)
          (joinSamples op returnBool ls.samples rs.samples)).toList ++ results
    | _ => .error (.eval ("group_left: multiple RHS series match labels " ++
        debugLabels debugStr (mode.matchKey ls.labels)))

/-- The branch `JoinMode::GroupRight`. -/
def evalGroupRight (carry : List String) (lhs rhs : List (SeriesResult F64)) :
    List (SeriesResult F64) :=
  lhs.flatMap fun ls =>
    (rhsMatches mode rhs (mode.matchKey ls.labels)).filterMap fun rs =>
      seriesOf (carryLabels carry ls.labels rs.labels)
        (joinSamples op returnBool ls.samples rs.samples)

/-- `eval_vector_vector`. -/
def evalVectorVector (debugStr : String → String) (join : JoinMode)
    (lhs rhs : List (SeriesResult F64)) : Except PromQLError (List (SeriesResult F64)) :=
  match join with
  | .plain => .ok (evalPlain op returnBool mode lhs rhs)
  | .groupLeft carry => evalGroupLeft op returnBool mode debugStr carry rhs lhs
  | .groupRight carry => .ok (evalGroupRight op returnBool mode carry lhs rhs)

end Joins

/-! ### Set operators -/

/-- A series as a set operator reports it. -/
def SeriesResult.unnamed (sr : SeriesResult F64) : SeriesResult F64 :=
  { sr with labels := labelsWithoutMetricName sr.labels }

/-- Some series has the key. -/
def hasKey (mode : MatchMode) (series : List (SeriesResult F64)) (key : SeriesLabelSet) : Bool :=
  (series.map fun sr => mode.matchKey sr.labels).contains key

/-- `eval_set_op`. -/
def evalSetOp (op : BinaryOp) (mode : MatchMode) (lhs rhs : List (SeriesResult F64)) :
    Except PromQLError (List (SeriesResult F64)) :=
  match op with
  | .and => .ok ((lhs.filter fun ls => hasKey mode rhs (mode.matchKey ls.labels)).map
      SeriesResult.unnamed)
  | .unless => .ok ((lhs.filter fun ls => !hasKey mode rhs (mode.matchKey ls.labels)).map
      SeriesResult.unnamed)
  | .or => .ok (lhs.map SeriesResult.unnamed ++
      (rhs.filter fun rs => !hasKey mode lhs (mode.matchKey rs.labels)).map SeriesResult.unnamed)
  | _ => .error (.unsupported ("set operator: " ++ op.text))

/-! ### All operands -/

/-- `BinModifier::default`. -/
def BinModifier.default : BinModifier := ⟨none, .oneToOne, false⟩

/-- `eval_binary_result`. -/
def evalBinaryResult [FloatOps F64] (debugStr : String → String) (op : BinaryOp)
    (modifier : Option BinModifier) (lhs rhs : PromQLResult F64) : Outcome F64 :=
  let modRef := modifier.getD BinModifier.default
  let mode := MatchMode.fromModifier modRef.matching
  match lhs, rhs with
  | .scalar l, .scalar r => .ok (.scalar (applyBinaryOp op l r))
  | .instantVector series, .scalar scalar =>
    .ok (.instantVector (series.filterMap fun sr =>
      seriesOf sr.labels (scalarSamples op modRef.returnBool false scalar sr.samples)))
  | .scalar scalar, .instantVector series =>
    .ok (.instantVector (series.filterMap fun sr =>
      seriesOf sr.labels (scalarSamples op modRef.returnBool true scalar sr.samples)))
  | .instantVector lhs, .instantVector rhs =>
    (if op.isSetOp then evalSetOp op mode lhs rhs
      else evalVectorVector op modRef.returnBool mode debugStr
        (JoinMode.fromCardinality modRef.card) lhs rhs).map .instantVector
  | _, _ => .error (.unsupported "unsupported binary operand types")

end PromQL

end Aniani
