import Aniani.Query.Lexical
import Aniani.Query.Timestamps

/-!
# The TraceQL parser

The parser is a recursive descent over parser combinators of a crate, and works on the characters of
the query. A loop that took no input would never return; none of its steps does that, and the model
is stuck where one would.

## Main definitions

* `TraceQLExpr`, `PipelineStage` — queries
* `parseTraceql` — the parser of a query
* `parseSpanSelector`, `parseCondition`, `parsePipelineStages` — its parts
* `Asked` — the conditions that are written for a service, a status and a name

## Main results

* `parseCondition_text` — a condition that is written is read back
* `parseTraceql_selectorText` — so is a selector of such conditions
-/

namespace Aniani

/-- An operator as it is written. -/
def CompareOp.chars : CompareOp → List Char
  | .eq => ['=']
  | .neq => ['!', '=']
  | .gt => ['>']
  | .lt => ['<']
  | .gte => ['>', '=']
  | .lte => ['<', '=']
  | .regex => ['=', '~']

namespace TraceQL

open Combinator Combinators

variable {F64 : Type}

/-! ### Queries -/

/-- Structural operators between span selectors. -/
inductive StructuralOp where
  | descendant | child | sibling
  deriving DecidableEq

/-- A pipeline stage applied after span matching. -/
inductive PipelineStage where
  | countFilter (op : CompareOp) (value : ℕ)
  | avgDuration (op : CompareOp) (valueNs : ℤ)
  | maxDuration (op : CompareOp) (valueNs : ℤ)
  | minDuration (op : CompareOp) (valueNs : ℤ)
  deriving DecidableEq

/-- Top-level TraceQL expression. -/
inductive TraceQLExpr (F64 : Type) where
  | spanSelector (selector : SpanSelector F64)
  | structural (op : StructuralOp) (lhs rhs : TraceQLExpr F64)
  | pipeline (inner : TraceQLExpr F64) (stages : List PipelineStage)

/-! ### Values -/

section Values

variable [Combinators Char]

/-- `parse_quoted_string`. -/
def parseQuotedString (input : List Char) : IResult Char String := quotedString input

/-- `parse_compare_op`. -/
def parseCompareOp (input : List Char) : IResult Char CompareOp :=
  alt [map (tag ['>', '=']) fun _ => .gte, map (tag ['<', '=']) fun _ => .lte,
    map (tag ['!', '=']) fun _ => .neq, map (tag ['=', '~']) fun _ => .regex,
    map (tag ['=']) fun _ => .eq, map (tag ['>']) fun _ => .gt, map (tag ['<']) fun _ => .lt] input

/-- An operator, with white space around it. -/
def spacedCompareOp (input : List Char) : Except (Err Char) (List Char × CompareOp) := do
  let (input, _) ← multispace0 input
  let (input, op) ← parseCompareOp input
  let (input, _) ← multispace0 input
  return (input, op)

variable [Alphanumeric]

/-- A character that a word goes on with. -/
def isWordChar (c : Char) : Bool := Alphanumeric.isAlphanumeric c || c == '_' || c == '.'

/-- A character of an attribute name. -/
def isAttrChar (c : Char) : Bool :=
  Alphanumeric.isAlphanumeric c || c == '.' || c == '_' || c == '-'

variable (F64) in
/-- `parse_bool_value`. -/
def parseBoolValue (input : List Char) : Except (Err Char) (List Char × SpanValue F64) := do
  let (rest, word) ← alt [tag "true".toList, tag "false".toList] input
  if rest.head?.any isWordChar then throw (.error ⟨input, .tag⟩)
  else return (rest, .bool (decide (word = "true".toList)))

variable [FloatOps F64]

/-- `parse_numeric_value`. -/
def parseNumericValue (input : List Char) : Except (Err Char) (List Char × SpanValue F64) := do
  let (input, number) ← takeWhile1 (fun c => c.isDigit || c == '.' || c == '-') input
  if '.' ∈ number then
    match FloatOps.parse (String.ofList number) with
    | some value => return (input, .float value)
    | none => throw (.failure ⟨input, .float⟩)
  else
    match parseI64 (String.ofList number) with
    | some value => return (input, .int value)
    | none => throw (.failure ⟨input, .digit⟩)

/-- `parse_span_value`. -/
def parseSpanValue (input : List Char) : IResult Char (SpanValue F64) :=
  alt [map parseQuotedString .string, parseBoolValue F64, parseNumericValue] input

open FloatOps in
variable (F64) in
/-- The seconds of a number of a unit. -/
def unitSeconds (number : F64) : List Char → Option F64
  | ['m', 's'] => some (div number (Float64.ofI64 1000))
  | ['s'] => some number
  | ['m'] => some (mul number (Float64.ofI64 60))
  | ['h'] => some (mul number (Float64.ofI64 3600))
  | _ => none

open FloatOps in
variable (F64) in
/-- `Duration::MAX.as_secs_f64()`. -/
def maxSeconds : F64 :=
  add (Float64.ofU64 (2 ^ 64 - 1)) (div (Float64.ofU64 999999999) (Float64.ofI64 1000000000))

open FloatOps in
variable (F64) in
/-- `parse_duration_value`, in nanoseconds. -/
def parseDurationValue (input : List Char) : Except (Err Char) (List Char × ℕ) := do
  let (input, number) ← takeWhile1 (fun c => c.isDigit || c == '.') input
  let (input, unit) ← alt [tag ['m', 's'], tag ['s'], tag ['m'], tag ['h']] input
  match (parse (String.ofList number) : Option F64) with
  | none => throw (.failure ⟨input, .float⟩)
  | some num =>
    match unitSeconds F64 num unit with
    | none => throw .stuck
    | some secs =>
      if !isFinite secs || lt secs Float64.zero || lt (maxSeconds F64) secs then
        throw (.failure ⟨input, .float⟩)
      else
        match fromSecsF64 secs with
        | none => throw .stuck
        | some duration => return (input, duration)

end Values

/-! ### Conditions -/

section Conditions

variable [Combinators Char] [Alphanumeric] [FloatOps F64]

/-- `peek_keyword`. -/
def peekKeyword (input keyword : List Char) : Bool :=
  keyword.isPrefixOf input && (input.drop keyword.length).head?.all fun c => !isWordChar c

variable (F64) in
/-- `parse_duration_condition`. -/
def parseDurationCondition (input : List Char) :
    Except (Err Char) (List Char × SpanCondition F64) := do
  let (input, _) ← tag "duration".toList input
  let (input, op) ← spacedCompareOp input
  let (input, duration) ← parseDurationValue F64 input
  return (input, .duration op duration)

/-- A value that is one of a few words, compared by `=` or `!=`. -/
def parseWordCondition {α : Type} (keyword : List Char) (words : List (String × α))
    (input : List Char) : Except (Err Char) (List Char × CompareOp × α) := do
  let (input, _) ← tag keyword input
  let (input, op) ← spacedCompareOp input
  let (input, value) ← alt (words.map fun word => map (tag word.1.toList) fun _ => word.2) input
  if op = .eq ∨ op = .neq then return (input, op, value)
  else throw (.error ⟨input, .verify⟩)

variable (F64) in
/-- `parse_status_condition`. -/
def parseStatusCondition (input : List Char) :
    Except (Err Char) (List Char × SpanCondition F64) := do
  let (input, op, status) ← parseWordCondition "status".toList
    [("error", SpanStatus.error), ("ok", .ok), ("unset", .unset)] input
  return (input, .status op status)

variable (F64) in
/-- `parse_kind_condition`. -/
def parseKindCondition (input : List Char) :
    Except (Err Char) (List Char × SpanCondition F64) := do
  let (input, op, kind) ← parseWordCondition "kind".toList
    [("unspecified", SpanKind.unspecified), ("internal", .internal), ("server", .server),
      ("client", .client), ("producer", .producer), ("consumer", .consumer)] input
  return (input, .kind op kind)

variable (F64) in
/-- `parse_name_condition`. -/
def parseNameCondition (input : List Char) :
    Except (Err Char) (List Char × SpanCondition F64) := do
  let (input, _) ← tag "name".toList input
  let (input, op) ← spacedCompareOp input
  let (input, value) ← parseQuotedString input
  return (input, .name op value)

/-- `parse_event_condition`. -/
def parseEventCondition (input : List Char) :
    Except (Err Char) (List Char × SpanCondition F64) := do
  let (input, _) ← tag "event.".toList input
  let (input, key) ← takeWhile1 isAttrChar input
  let (input, op) ← spacedCompareOp input
  if key = "name".toList then
    let (input, value) ← parseQuotedString input
    return (input, .eventName op value)
  else
    let (input, value) ← parseSpanValue input
    return (input, .eventAttribute (String.ofList key) op value)

/-- The scope and the name of an attribute. -/
def attrScope (scopeAndName : List Char) : AttrScope × List Char :=
  match scopeAndName.dropPrefix? "resource.".toList, scopeAndName.dropPrefix? "span.".toList with
  | some rest, _ => (.resource, rest)
  | none, some rest => (.span, rest)
  | none, none => (if '.' ∈ scopeAndName then .resource else .span, scopeAndName)

/-- `parse_attribute_condition`. -/
def parseAttributeCondition (input : List Char) :
    Except (Err Char) (List Char × SpanCondition F64) := do
  let (input, scopeAndName) ← takeWhile1 isAttrChar input
  let (input, op) ← spacedCompareOp input
  let (input, value) ← parseSpanValue input
  return (input, .attribute (attrScope scopeAndName).1 (String.ofList (attrScope scopeAndName).2)
    op value)

/-- `parse_condition`. -/
def parseCondition (input : List Char) : Except (Err Char) (List Char × SpanCondition F64) := do
  let (input, _) ← multispace0 input
  if peekKeyword input "duration".toList then parseDurationCondition F64 input
  else if peekKeyword input "status".toList then parseStatusCondition F64 input
  else if peekKeyword input "kind".toList then parseKindCondition F64 input
  else if peekKeyword input "name".toList then parseNameCondition F64 input
  else if "event.".toList.isPrefixOf input then parseEventCondition input
  else parseAttributeCondition input

/-- The operators between conditions. -/
def parseLogicalOp (input : List Char) : IResult Char LogicalOp :=
  map (alt [tag ['&', '&'], tag ['|', '|']])
    (fun op => if op = ['&', '&'] then .and else .or) input

variable (F64) in
/-- The loop of `parse_conditions`: an operator and a condition at a time. -/
def parseMoreConditions :
    ℕ → List Char → Except (Err Char) (List Char × List (LogicalOp × SpanCondition F64))
  | 0, _ => .error .stuck
  | n + 1, input => do
    let (trimmed, _) ← multispace0 input
    match parseLogicalOp trimmed with
    | .error _ => return (input, [])
    | .ok (rest, op) =>
      let (rest, _) ← multispace0 rest
      match parseCondition rest with
      | .ok (rest, condition) =>
        let (rest, more) ← parseMoreConditions n rest
        return (rest, (op, condition) :: more)
      | .error .stuck => throw .stuck
      | .error _ => throw (.failure ⟨rest, .tag⟩)

/-- A condition, and others with an operator before each. -/
def selectorOf (first : SpanCondition F64) (more : List (LogicalOp × SpanCondition F64)) :
    SpanSelector F64 where
  conditions := first :: more.map Prod.snd
  logicalOps := more.map Prod.fst
  length_logicalOps := by simp

/-- `parse_conditions`. -/
def parseConditions (input : List Char) : Except (Err Char) (List Char × SpanSelector F64) :=
  match parseCondition input with
  | .ok (rest, first) =>
    (parseMoreConditions F64 (rest.length + 1) rest).map fun r => (r.1, selectorOf first r.2)
  | .error .stuck => .error .stuck
  | .error _ => .ok (input, ⟨[], [], rfl⟩)

/-- `parse_span_selector`. -/
def parseSpanSelector (input : List Char) :
    Except (Err Char) (List Char × TraceQLExpr F64) := do
  let (input, _) ← multispace0 input
  let (input, _) ← char '{' input
  let (input, _) ← multispace0 input
  let (input, selector) ← parseConditions input
  let (input, _) ← multispace0 input
  let (input, _) ← char '}' input
  return (input, .spanSelector selector)

end Conditions

/-! ### Pipeline stages -/

section Stages

variable [Combinators Char]

/-- `parse_count_filter`. -/
def parseCountFilter (input : List Char) : Except (Err Char) (List Char × PipelineStage) := do
  let (input, _) ← tag "count()".toList input
  let (input, op) ← spacedCompareOp input
  let (input, number) ← takeWhile1 Char.isDigit input
  match parseU64 number with
  | some value => return (input, .countFilter op value)
  | none => throw (.failure ⟨input, .digit⟩)

/-- `duration_to_i64_ns`. -/
def durationToI64Ns (duration : ℕ) : Option ℤ :=
  if (duration : ℤ) > i64Max then none else some (duration : ℤ)

/-- The stage of an aggregate function. -/
def aggStage (aggFn : List Char) (op : CompareOp) (valueNs : ℤ) : Option PipelineStage :=
  if aggFn = "avg".toList then some (.avgDuration op valueNs)
  else if aggFn = "max".toList then some (.maxDuration op valueNs)
  else if aggFn = "min".toList then some (.minDuration op valueNs)
  else none

variable [FloatOps F64]

variable (F64) in
/-- `parse_duration_agg_filter`. -/
def parseDurationAggFilter (input : List Char) :
    Except (Err Char) (List Char × PipelineStage) := do
  let (input, aggFn) ← alt [tag "avg".toList, tag "max".toList, tag "min".toList] input
  let (input, _) ← tag "(duration)".toList input
  let (input, op) ← spacedCompareOp input
  let (input, duration) ← parseDurationValue F64 input
  match durationToI64Ns duration with
  | none => throw (.failure ⟨input, .tooLarge⟩)
  | some valueNs =>
    match aggStage aggFn op valueNs with
    | some stage => return (input, stage)
    | none => throw .stuck

variable (F64) in
/-- The stage after a `|`, if there is one. -/
def parseStage (rest : List Char) : Except (Err Char) (Option (List Char × PipelineStage)) :=
  match parseCountFilter rest with
  | .ok r => .ok (some r)
  | .error .stuck => .error .stuck
  | .error _ =>
    match parseDurationAggFilter F64 rest with
    | .ok r => .ok (some r)
    | .error .stuck => .error .stuck
    | .error _ => .ok none

variable (F64) in
/-- The loop of `parse_pipeline_stages`. -/
def parsePipelineStages : ℕ → List Char → Except (Err Char) (List Char × List PipelineStage)
  | 0, _ => .error .stuck
  | n + 1, input =>
    match Text.trimStart input with
    | '|' :: rest => do
      match ← parseStage F64 (Text.trimStart rest) with
      | some (remaining, stage) =>
        let (input, stages) ← parsePipelineStages n remaining
        return (input, stage :: stages)
      | none => return (input, [])
    | _ => .ok (input, [])

end Stages

/-! ### Queries and their text -/

section Query

variable [Combinators Char] [Alphanumeric] [FloatOps F64]

/-- `parse_structural_op`. -/
def parseStructuralOp (input : List Char) : IResult Char StructuralOp :=
  alt [map (tag ['>', '>']) fun _ => .descendant, map (tag ['>']) fun _ => .child,
    map (tag ['~']) fun _ => .sibling] input

/-- `parse_top_level`. -/
def parseTopLevel (input : List Char) : Except (Err Char) (List Char × TraceQLExpr F64) := do
  let (input, lhs) ← parseSpanSelector input
  let (input, _) ← multispace0 input
  match parseStructuralOp input with
  | .ok (input, op) =>
    let (input, _) ← multispace0 input
    let (input, rhs) ← parseSpanSelector input
    return (input, .structural op lhs rhs)
  | .error _ => return (input, lhs)

/-- The end of `parse_traceql`: the stages, after which nothing but white space may be left. -/
def finishParse (remaining : List Char) (expr : TraceQLExpr F64) :
    Option (Except String (TraceQLExpr F64)) :=
  let remaining := Text.trim remaining
  match parsePipelineStages F64 (remaining.length + 1) remaining with
  | .error _ => none
  | .ok (remaining, stages) =>
    let remaining := Text.trim remaining
    if remaining.isEmpty then
      some (.ok (if stages.isEmpty then expr else .pipeline expr stages))
    else some (.error ("unexpected trailing input: " ++ String.ofList remaining))

/-- `parse_traceql`, nothing where it panics or never returns. An error of the combinators is
displayed by their crate. -/
def parseTraceql (display : Err Char → String) (input : String) :
    Option (Except String (TraceQLExpr F64)) :=
  match parseTopLevel (Text.trim input.toList) with
  | .ok (remaining, expr) => finishParse remaining expr
  | .error .stuck => none
  | .error e => some (.error (display e))

end Query

/-! ### Selectors that are written -/

/-- The conditions that are written for a service, a status and a name. -/
inductive Asked where
  | service (value : String)
  | status (value : SpanStatus)
  | name (value : String)

/-- The word of a status. -/
def statusWord : SpanStatus → String
  | .error => "error"
  | .ok => "ok"
  | .unset => "unset"

/-- A condition, with an escaped value. -/
def Asked.text : Asked → String
  | service value => "resource.service.name = \"" ++ escapeQuoted value ++ "\""
  | status value => "status = " ++ statusWord value
  | name value => "name = \"" ++ escapeQuoted value ++ "\""

/-- The condition it stands for. -/
def Asked.condition : Asked → SpanCondition F64
  | service value => .attribute .resource "service.name" .eq (.string value)
  | status value => .status .eq value
  | name value => .name .eq value

/-- A selector of such conditions, all of them to hold. -/
def askedText (asked : List Asked) : String :=
  "\x7b " ++ " && ".intercalate (asked.map Asked.text) ++ " \x7d"

/-- The selector it stands for. -/
def askedSelector (asked : List Asked) : SpanSelector F64 where
  conditions := asked.map Asked.condition
  logicalOps := List.replicate (asked.length - 1) .and
  length_logicalOps := by simp

section ReadBack

variable [Combinators Char]

/-- The operators in the order they are tried. -/
def compareOps : List CompareOp := [.gte, .lte, .neq, .regex, .eq, .gt, .lt]

/-- Every operator is read, before what does not make another one of it. -/
theorem parseCompareOp_chars (op : CompareOp) {s : List Char}
    (hs : ∀ c ∈ s.head?, c ≠ '=' ∧ c ≠ '~') : parseCompareOp (op.chars ++ s) = .ok (s, op) := by
  have hfind : compareOps.find? (fun other => other.chars.isPrefixOf (op.chars ++ s)) = some op := by
    cases s with
    | nil => cases op <;> rfl
    | cons c s =>
      obtain ⟨hequals, htilde⟩ := hs c rfl
      cases op <;> simp [compareOps, CompareOp.chars, hequals.symm, htilde.symm]
  have hread := alt_words CompareOp.chars (fun op => op) hfind
  rwa [List.drop_left] at hread

theorem spacedCompareOp_eq {c : Char} (hc : isMultispace c = false) (s : List Char) :
    spacedCompareOp (' ' :: '=' :: ' ' :: c :: s) = .ok (c :: s, .eq) := by
  have hop : parseCompareOp ('=' :: ' ' :: c :: s) = .ok (' ' :: c :: s, .eq) :=
    parseCompareOp_chars .eq (by simp)
  have hsign : isMultispace '=' = false := by decide
  rw [spacedCompareOp, multispace0_space_cons hsign]
  simp only [bind, Except.bind, hop, multispace0_space_cons hc]
  rfl

theorem parseQuotedString_escapeQuoted (value : String) (rest : List Char) :
    parseQuotedString ('"' :: ((escapeQuoted value).toList ++ '"' :: rest)) = .ok (rest, value) :=
  quotedString_escapeQuoted value rest

variable [Alphanumeric] [FloatOps F64]

omit [Combinators Char] in
theorem isWordChar_space : isWordChar ' ' = false := by
  rw [isWordChar, Alphanumeric.isAlphanumeric_of_ascii (by decide)]
  rfl

omit [Combinators Char] in
theorem isAttrChar_space : isAttrChar ' ' = false := by
  rw [isAttrChar, Alphanumeric.isAlphanumeric_of_ascii (by decide)]
  rfl

omit [Combinators Char] in
theorem isAttrChar_of_mem_serviceName :
    ∀ c ∈ "resource.service.name".toList, isAttrChar c = true := by
  intro c hc
  have hword : c.isAlphanum = true ∨ c = '.' := by
    revert c
    exact List.forall_iff_forall_mem.mp (by decide)
  obtain hword | rfl := hword
  · rw [isAttrChar, isAlphanumeric_of_isAlphanum hword]
    rfl
  · simp [isAttrChar]

variable (F64) in
/-- What is read of an attribute that equals a string, whatever follows the opening quote. -/
theorem parseAttributeCondition_quoted {word : List Char} (hne : word ≠ [])
    (hword : ∀ c ∈ word, isAttrChar c = true) (body : List Char) :
    parseAttributeCondition (word ++ ' ' :: '=' :: ' ' :: '"' :: body) =
      (quotedBody body).elim (.error (.failure ⟨body, .char⟩)) fun r =>
        .ok (r.1, (.attribute (attrScope word).1 (String.ofList (attrScope word).2) .eq
          (.string (String.ofList r.2)) : SpanCondition F64)) := by
  have hname := takeWhile1_append (s := ' ' :: '=' :: ' ' :: '"' :: body) hne hword
    (by simpa using isAttrChar_space)
  have hvalue : parseSpanValue ('"' :: body) =
      (quotedBody body).elim (.error (.failure ⟨body, .char⟩)) fun r =>
        .ok (r.1, (.string (String.ofList r.2) : SpanValue F64)) := by
    have hstring : map parseQuotedString .string ('"' :: body) =
        (quotedBody body).elim (.error (.failure ⟨body, .char⟩)) fun r =>
          .ok (r.1, (.string (String.ofList r.2) : SpanValue F64)) := by
      rw [map_eq, parseQuotedString, quotedString_cons]
      cases quotedBody body <;> rfl
    refine (alt_of_not_error ?_).trans hstring
    rw [hstring]
    cases quotedBody body with
    | none => exact fun h => nomatch h
    | some r => exact not_isError_ok _
  have hquote : isMultispace '"' = false := by decide
  rw [parseAttributeCondition]
  simp only [bind, Except.bind, hname, spacedCompareOp_eq hquote, hvalue]
  cases quotedBody body <;> rfl

omit [Combinators Char] [FloatOps F64] in
theorem peekKeyword_of_not_prefix {input keyword : List Char} (h : ¬ keyword <+: input) :
    peekKeyword input keyword = false := by
  rw [peekKeyword, Bool.eq_false_iff.mpr (mt List.isPrefixOf_iff_prefix.mp h), Bool.false_and]

variable (F64) in
/-- What is read of the condition of a service, whatever follows the opening quote. -/
theorem parseCondition_serviceQuoted (body : List Char) :
    parseCondition ("resource.service.name = \"".toList ++ body) =
      (quotedBody body).elim (.error (.failure ⟨body, .char⟩)) fun r =>
        .ok (r.1, (.attribute .resource "service.name" .eq (.string (String.ofList r.2)) :
          SpanCondition F64)) := by
  have htext : "resource.service.name = \"".toList ++ body =
      "resource.service.name".toList ++ ' ' :: '=' :: ' ' :: '"' :: body := by
    simp
  have hscope : attrScope "resource.service.name".toList =
      (.resource, "service.name".toList) := by decide
  have hne : "resource.service.name".toList ≠ [] := by simp
  have hattr := parseAttributeCondition_quoted F64 hne isAttrChar_of_mem_serviceName body
  rw [hscope, String.ofList_toList] at hattr
  rw [htext]
  generalize ' ' :: '=' :: ' ' :: '"' :: body = tail at hattr ⊢
  have hspace : multispace0 ("resource.service.name".toList ++ tail) =
      .ok ("resource.service.name".toList ++ tail, []) :=
    multispace0_of_head (by simp [isMultispace])
  have hdispatch : ∀ word ∈ ["duration", "status", "kind", "name"],
      peekKeyword ("resource.service.name".toList ++ tail) word.toList = false := by
    intro word hword
    refine peekKeyword_of_not_prefix ?_
    simp only [List.mem_cons, List.not_mem_nil, or_false] at hword
    obtain rfl | rfl | rfl | rfl := hword <;> simp
  have hevent : "event.".toList.isPrefixOf ("resource.service.name".toList ++ tail) = false := by
    simp [List.isPrefixOf]
  rw [parseCondition, hspace]
  simp only [bind, Except.bind, hdispatch "duration" (by simp), hdispatch "status" (by simp),
    hdispatch "kind" (by simp), hdispatch "name" (by simp), hevent]
  exact hattr

/-- The condition of a service. -/
theorem parseCondition_service (value : String) (rest : List Char) :
    parseCondition ((Asked.service value).text.toList ++ rest) =
      .ok (rest, ((Asked.service value).condition : SpanCondition F64)) := by
  have htext : (Asked.service value).text.toList ++ rest = "resource.service.name = \"".toList ++
      ((escapeQuoted value).toList ++ '"' :: rest) := by
    show ("resource.service.name = \"" ++ escapeQuoted value ++ "\"").toList ++ rest = _
    simp
  rw [htext, parseCondition_serviceQuoted F64, escapeQuoted, String.toList_ofList, quotedBody_escape,
    Option.elim_some, String.ofList_toList]
  rfl

omit [Combinators Char] [FloatOps F64] in
theorem peekKeyword_append {c : Char} (hc : isWordChar c = false) (keyword s : List Char) :
    peekKeyword (keyword ++ c :: s) keyword = true := by
  rw [peekKeyword, List.isPrefixOf_iff_prefix.mpr (List.prefix_append keyword _), List.drop_left]
  simp [hc]

/-- The condition of a name. -/
theorem parseCondition_name (value : String) (rest : List Char) :
    parseCondition ((Asked.name value).text.toList ++ rest) =
      .ok (rest, ((Asked.name value).condition : SpanCondition F64)) := by
  have htext : (Asked.name value).text.toList ++ rest = "name".toList ++
      ' ' :: '=' :: ' ' :: '"' :: ((escapeQuoted value).toList ++ '"' :: rest) := by
    show ("name = \"" ++ escapeQuoted value ++ "\"").toList ++ rest = _
    simp
  have hquote : isMultispace '"' = false := by decide
  have hname : parseNameCondition F64 ("name".toList ++
      ' ' :: '=' :: ' ' :: '"' :: ((escapeQuoted value).toList ++ '"' :: rest)) =
        .ok (rest, (Asked.name value).condition) := by
    rw [parseNameCondition, tag_append]
    simp only [bind, Except.bind, spacedCompareOp_eq hquote, parseQuotedString_escapeQuoted]
    rfl
  rw [htext]
  generalize '=' :: ' ' :: '"' :: ((escapeQuoted value).toList ++ '"' :: rest) = tail at hname ⊢
  have hspace : multispace0 ("name".toList ++ ' ' :: tail) = .ok ("name".toList ++ ' ' :: tail, []) :=
    multispace0_of_head (by simp [isMultispace])
  have hdispatch : ∀ word ∈ ["duration", "status", "kind"],
      peekKeyword ("name".toList ++ ' ' :: tail) word.toList = false := by
    intro word hword
    refine peekKeyword_of_not_prefix ?_
    simp only [List.mem_cons, List.not_mem_nil, or_false] at hword
    obtain rfl | rfl | rfl := hword <;> simp
  rw [parseCondition, hspace]
  simp only [bind, Except.bind, hdispatch "duration" (by simp), hdispatch "status" (by simp),
    hdispatch "kind" (by simp), peekKeyword_append isWordChar_space, hname]
  rfl

omit [Alphanumeric] [FloatOps F64] in
/-- The word of a status is read back. -/
theorem parseWordCondition_status (value : SpanStatus) (rest : List Char) :
    parseWordCondition "status".toList
        [("error", SpanStatus.error), ("ok", .ok), ("unset", .unset)]
        ("status".toList ++ ' ' :: '=' :: ' ' :: ((statusWord value).toList ++ rest)) =
      .ok (rest, .eq, value) := by
  have hop : spacedCompareOp (' ' :: '=' :: ' ' :: ((statusWord value).toList ++ rest)) =
      .ok ((statusWord value).toList ++ rest, .eq) := by
    cases value <;> exact spacedCompareOp_eq (by decide) _
  have hword : alt ([("error", SpanStatus.error), ("ok", .ok), ("unset", .unset)].map
      fun word => map (tag word.1.toList) fun _ => word.2) ((statusWord value).toList ++ rest) =
        .ok (rest, value) := by
    have hfind : [("error", SpanStatus.error), ("ok", .ok), ("unset", .unset)].find?
        (fun word => word.1.toList.isPrefixOf ((statusWord value).toList ++ rest)) =
          some (statusWord value, value) := by
      cases value <;> simp [statusWord]
    have hread := alt_words (fun word : String × SpanStatus => word.1.toList) Prod.snd hfind
    rwa [List.drop_left] at hread
  rw [parseWordCondition, tag_append]
  simp only [bind, Except.bind, hop, hword]
  rfl

/-- The condition of a status. -/
theorem parseCondition_status (value : SpanStatus) (rest : List Char) :
    parseCondition ((Asked.status value).text.toList ++ rest) =
      .ok (rest, ((Asked.status value).condition : SpanCondition F64)) := by
  have htext : (Asked.status value).text.toList ++ rest = "status".toList ++
      ' ' :: '=' :: ' ' :: ((statusWord value).toList ++ rest) := by
    show ("status = " ++ statusWord value).toList ++ rest = _
    simp
  have hstatus : parseStatusCondition F64 ("status".toList ++
      ' ' :: '=' :: ' ' :: ((statusWord value).toList ++ rest)) =
        .ok (rest, (Asked.status value).condition) := by
    rw [parseStatusCondition, parseWordCondition_status]
    rfl
  rw [htext]
  generalize '=' :: ' ' :: ((statusWord value).toList ++ rest) = tail at hstatus ⊢
  have hspace : multispace0 ("status".toList ++ ' ' :: tail) =
      .ok ("status".toList ++ ' ' :: tail, []) :=
    multispace0_of_head (by simp [isMultispace])
  have hduration : peekKeyword ("status".toList ++ ' ' :: tail) "duration".toList = false :=
    peekKeyword_of_not_prefix (by simp)
  rw [parseCondition, hspace]
  simp only [bind, Except.bind, hduration, peekKeyword_append isWordChar_space, hstatus]
  rfl

/-- A condition on the duration is read as its literal is. -/
theorem parseCondition_duration (s : List Char) :
    parseCondition ("duration > ".toList ++ s) =
      (parseDurationValue F64 (s.dropWhile isMultispace)).map fun r =>
        (r.1, (.duration .gt r.2 : SpanCondition F64)) := by
  have htext : "duration > ".toList ++ s = "duration".toList ++ ' ' :: '>' :: ' ' :: s := rfl
  have hspace : multispace0 ("duration".toList ++ ' ' :: '>' :: ' ' :: s) =
      .ok ("duration".toList ++ ' ' :: '>' :: ' ' :: s, []) :=
    multispace0_of_head (by simp [isMultispace])
  have hop : parseCompareOp ('>' :: ' ' :: s) = .ok (' ' :: s, .gt) :=
    parseCompareOp_chars .gt (by simp)
  have hspaced : spacedCompareOp (' ' :: '>' :: ' ' :: s) =
      .ok (s.dropWhile isMultispace, .gt) := by
    have hskip : multispace0 (' ' :: s) =
        .ok (s.dropWhile isMultispace, (' ' :: s).takeWhile isMultispace) := takeWhile0_eq _ _
    have hsign : isMultispace '>' = false := by decide
    rw [spacedCompareOp, multispace0_space_cons hsign]
    simp only [bind, Except.bind, hop, hskip]
    rfl
  rw [htext, parseCondition, hspace]
  simp only [bind, Except.bind, peekKeyword_append isWordChar_space, if_true]
  rw [parseDurationCondition, tag_append]
  simp only [bind, Except.bind, hspaced]
  cases parseDurationValue F64 (s.dropWhile isMultispace) <;> rfl

/-- **A condition that is written** is read back. -/
theorem parseCondition_text (asked : Asked) (rest : List Char) :
    parseCondition (asked.text.toList ++ rest) =
      .ok (rest, (asked.condition : SpanCondition F64)) := by
  cases asked with
  | service value => exact parseCondition_service value rest
  | status value => exact parseCondition_status value rest
  | name value => exact parseCondition_name value rest

omit [Combinators Char] [Alphanumeric] [FloatOps F64] in
theorem isMultispace_head_text (asked : Asked) (s : List Char) :
    ∀ c ∈ (asked.text.toList ++ s).head?, isMultispace c = false := by
  have hhead : ∀ (c : Char) (l : List Char), isMultispace c = false →
      ∀ d ∈ (c :: l).head?, isMultispace d = false := by
    intro c l hc d hd
    exact Option.some.inj hd ▸ hc
  cases asked with
  | service value =>
    show ∀ c ∈ (("resource.service.name = \"" ++ escapeQuoted value ++ "\"").toList ++ s).head?, _
    simpa using hhead 'r' [] (by decide)
  | status value =>
    show ∀ c ∈ (("status = " ++ statusWord value).toList ++ s).head?, _
    simpa using hhead 's' [] (by decide)
  | name value =>
    show ∀ c ∈ (("name = \"" ++ escapeQuoted value ++ "\"").toList ++ s).head?, _
    simpa using hhead 'n' [] (by decide)

/-- The conditions after the first one, up to the brace. -/
def moreText (asked : List Asked) : List Char :=
  (asked.flatMap fun a => " && ".toList ++ a.text.toList) ++ [' ', '}']

/-- **The conditions after the first one** are read back, up to the brace. -/
theorem parseMoreConditions_moreText (asked : List Asked) {n : ℕ} (hn : asked.length < n) :
    parseMoreConditions F64 n (moreText asked) =
      .ok ([' ', '}'], asked.map fun a => (.and, a.condition)) := by
  induction asked generalizing n with
  | nil =>
    obtain ⟨n, rfl⟩ := Nat.exists_eq_succ_of_ne_zero (Nat.ne_of_gt hn)
    have hspace : multispace0 [' ', '}'] = .ok (['}'], [' ']) :=
      multispace0_space_cons (by decide) []
    obtain ⟨e, he⟩ : IsError (parseLogicalOp ['}']) :=
      isError_map (isError_alt (by simp) (by simp [isError_tag]))
    show parseMoreConditions F64 (n + 1) [' ', '}'] = _
    rw [parseMoreConditions, hspace]
    simp only [bind, Except.bind, he]
    rfl
  | cons a asked ih =>
    obtain ⟨n, rfl⟩ := Nat.exists_eq_succ_of_ne_zero (Nat.ne_of_gt (Nat.zero_lt_of_lt hn))
    have htext : moreText (a :: asked) =
        ' ' :: '&' :: '&' :: ' ' :: (a.text.toList ++ moreText asked) := by
      simp [moreText]
    have hspace : multispace0 (' ' :: '&' :: '&' :: ' ' :: (a.text.toList ++ moreText asked)) =
        .ok ('&' :: '&' :: ' ' :: (a.text.toList ++ moreText asked), [' ']) :=
      multispace0_space_cons (by decide) _
    have hop : parseLogicalOp ('&' :: '&' :: ' ' :: (a.text.toList ++ moreText asked)) =
        .ok (' ' :: (a.text.toList ++ moreText asked), .and) :=
      map_of_ok (alt_of_ok (tag_append ['&', '&'] _))
    have hspace' : multispace0 (' ' :: (a.text.toList ++ moreText asked)) =
        .ok (a.text.toList ++ moreText asked, [' ']) :=
      multispace0_space (isMultispace_head_text a _)
    rw [htext, parseMoreConditions, hspace]
    simp only [bind, Except.bind, hop, hspace', parseCondition_text,
      ih (Nat.lt_of_succ_lt_succ hn)]
    rfl

omit [Combinators Char] [Alphanumeric] [FloatOps F64] in
/-- Each condition takes some characters, so the loop is not stuck. -/
theorem length_le_length_moreText (asked : List Asked) :
    asked.length ≤ (moreText asked).length := by
  induction asked with
  | nil => exact Nat.zero_le _
  | cons a asked ih =>
    have htext : moreText (a :: asked) =
        " && ".toList ++ (a.text.toList ++ moreText asked) := by
      simp [moreText]
    rw [htext]
    simp only [List.length_append, List.length_cons]
    have hsep : " && ".toList.length = 4 := by decide
    omega

omit [Combinators Char] [Alphanumeric] [FloatOps F64] in
theorem selectorOf_asked (a : Asked) (asked : List Asked) :
    selectorOf a.condition (asked.map fun a => (.and, a.condition)) =
      (askedSelector (a :: asked) : SpanSelector F64) := by
  simp [selectorOf, askedSelector, Function.comp_def]

/-- The conditions are read back, up to the brace. -/
theorem parseConditions_text (a : Asked) (asked : List Asked) :
    parseConditions (a.text.toList ++ moreText asked) =
      .ok ([' ', '}'], (askedSelector (a :: asked) : SpanSelector F64)) := by
  have hmore : parseMoreConditions F64 ((moreText asked).length + 1) (moreText asked) =
      .ok ([' ', '}'], asked.map fun a => (.and, a.condition)) :=
    parseMoreConditions_moreText asked (Nat.lt_succ_of_le (length_le_length_moreText asked))
  rw [parseConditions, parseCondition_text]
  show (parseMoreConditions F64 ((moreText asked).length + 1) (moreText asked)).map _ = _
  rw [hmore, ← selectorOf_asked]
  rfl

/-- The selector is read back, up to its end. -/
theorem parseSpanSelector_text (a : Asked) (asked : List Asked) :
    parseSpanSelector ('{' :: ' ' :: (a.text.toList ++ moreText asked)) =
      .ok ([], (.spanSelector (askedSelector (a :: asked)) : TraceQLExpr F64)) := by
  have hopen : isMultispace '{' = false := by decide
  have hspace : multispace0 (' ' :: (a.text.toList ++ moreText asked)) =
      .ok (a.text.toList ++ moreText asked, [' ']) :=
    multispace0_space (isMultispace_head_text a _)
  have hclose : multispace0 [' ', '}'] = .ok (['}'], [' ']) :=
    multispace0_space_cons (by decide) []
  rw [parseSpanSelector]
  simp only [bind, Except.bind, multispace0_cons hopen, char_cons, hspace, parseConditions_text,
    hclose]
  rfl

omit [Combinators Char] [Alphanumeric] [FloatOps F64] in
theorem toList_askedText (a : Asked) (asked : List Asked) :
    (askedText (a :: asked)).toList = '{' :: ' ' :: (a.text.toList ++ moreText asked) := by
  rw [askedText, List.map_cons, String.toList_append, String.toList_append,
    toList_intercalate_cons, List.flatMap_map, moreText]
  simp

/-- A query that is a selector to its end. -/
theorem parseTraceql_of_parseSpanSelector (display : Err Char → String) {query : String}
    {lhs : TraceQLExpr F64} (htrim : Text.trim query.toList = query.toList)
    (h : parseSpanSelector query.toList = .ok ([], lhs)) :
    parseTraceql display query = some (.ok lhs) := by
  obtain ⟨e, he⟩ : IsError (parseStructuralOp []) :=
    isError_alt (by simp) (by simp [isError_map, isError_tag])
  rw [parseTraceql, htrim, parseTopLevel, h]
  simp only [bind, Except.bind, multispace0_nil, he]
  rfl

/-- **A selector that is written** is read back. -/
theorem parseTraceql_selectorText (display : Err Char → String) (asked : List Asked)
    (hne : asked ≠ []) :
    parseTraceql display (askedText asked) =
      some (.ok (.spanSelector (askedSelector asked) : TraceQLExpr F64)) := by
  cases asked with
  | nil => exact absurd rfl hne
  | cons a asked =>
    have htrim : Text.trim (askedText (a :: asked)).toList = (askedText (a :: asked)).toList := by
      have hends : (askedText (a :: asked)).toList = '{' :: ((' ' :: (a.text.toList ++
          ((asked.flatMap fun a => " && ".toList ++ a.text.toList) ++ [' ']))) ++ ['}']) := by
        rw [toList_askedText, moreText]
        simp
      rw [hends]
      exact trim_of_ends (by decide) (by decide) _
    refine parseTraceql_of_parseSpanSelector display htrim ?_
    rw [toList_askedText]
    exact parseSpanSelector_text a asked

end ReadBack

end TraceQL

end Aniani
