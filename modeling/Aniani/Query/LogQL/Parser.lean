import Aniani.Query.LogQL.Syntax
import Aniani.Query.Lexical
import Aniani.Query.Timestamps

/-!
# The LogQL parser

The parser is a recursive descent over parser combinators of a crate. It works on the characters of
the query; positions are counted in bytes.

## Main definitions

* `parseLogql` — the parser of a query
* `parseStreamSelector`, `parsePipelineStage`, `parseMetricQuery` — its parts
* `selectorText` — a selector of equality matchers, written with escaped values

## Main results

* `parseStreamSelector_selectorText` — such a selector is read back
* `parseLogql_selectorText`, `parseLogql_lineContains` — so is a query of it, and one with a filter
-/

namespace Aniani

namespace LogQL

open Combinator Combinators

variable {F64 : Type}

/-! ### Text -/

/-- The length of a text in bytes. -/
def utf8Len (s : List Char) : ℕ := (s.map Char.utf8Size).sum

/-- The first bytes of a text, nothing where the text is too short or a character is cut. -/
def sliceTo : ℕ → List Char → Option (List Char)
  | 0, _ => some []
  | _ + 1, [] => none
  | n + 1, c :: s =>
    if c.utf8Size ≤ n + 1 then (sliceTo (n + 1 - c.utf8Size) s).map (c :: ·) else none

/-! ### Matchers -/

section Matchers

variable [Combinators Char]

/-- `parse_quoted_string`. -/
def parseQuotedString (input : List Char) : IResult Char String := quotedString input

/-- The operators of a matcher. -/
def parseMatchOp (input : List Char) : IResult Char MatchOp :=
  alt [map (tag ['=', '~']) fun _ => .regex, map (tag ['!', '~']) fun _ => .notRegex,
    map (tag ['!', '=']) fun _ => .neq, map (tag ['=']) fun _ => .eq] input

variable [Alphanumeric]

/-- A character of a field name. -/
def isFieldChar (c : Char) : Bool := Alphanumeric.isAlphanumeric c || c == '_'

/-- A character of a label name. -/
def isLabelChar (c : Char) : Bool := Alphanumeric.isAlphanumeric c || c == '_' || c == '.'

/-- `parse_matcher`. -/
def parseMatcher (input : List Char) : Except (Err Char) (List Char × LogQLMatcher) := do
  let (input, _) ← multispace0 input
  let (input, name) ← takeWhile1 isLabelChar input
  let (input, _) ← multispace0 input
  let (input, op) ← parseMatchOp input
  let (input, _) ← multispace0 input
  let (input, value) ← cut parseQuotedString input
  return (input, ⟨String.ofList name, op, value⟩)

variable (F64) in
/-- `parse_stream_selector`. -/
def parseStreamSelector (input : List Char) : Except (Err Char) (List Char × LogQLExpr F64) := do
  let (input, _) ← multispace0 input
  let (input, _) ← char '{' input
  let (input, _) ← multispace0 input
  let (input, matchers) ← separatedList0 (char ',') parseMatcher input
  let (input, _) ← multispace0 input
  let (input, _) ← char '}' input
  return (input, .streamSelector matchers)

end Matchers

/-! ### Pipeline stages -/

section Stages

variable [Combinators Char] [Alphanumeric] [FloatOps F64] (regexNew : String → Option Regex)

/-- A compiled pattern, or a failure at the input. -/
def compile (input : List Char) (pattern : String) : Except (Err Char) Regex :=
  match regexNew pattern with
  | some re => .ok re
  | none => .error (.failure ⟨input, .verify⟩)

/-- A line filter: an operator and a quoted pattern. -/
def parseLineFilter (op : List Char) (input : List Char) :
    Except (Err Char) (List Char × String) := do
  let (input, _) ← tag op input
  let (input, _) ← multispace0 input
  parseQuotedString input

variable (F64) in
/-- `parse_line_contains`. -/
def parseLineContains (input : List Char) :
    Except (Err Char) (List Char × PipelineStage F64) := do
  let (input, pattern) ← parseLineFilter ['|', '='] input
  return (input, .lineContains pattern)

variable (F64) in
/-- `parse_line_not_contains`. -/
def parseLineNotContains (input : List Char) :
    Except (Err Char) (List Char × PipelineStage F64) := do
  let (input, pattern) ← parseLineFilter ['!', '='] input
  return (input, .lineNotContains pattern)

variable (F64) in
/-- `parse_line_regex`. -/
def parseLineRegex (input : List Char) : Except (Err Char) (List Char × PipelineStage F64) := do
  let (input, pattern) ← parseLineFilter ['|', '~'] input
  return (input, .lineRegex pattern (← compile regexNew input pattern))

variable (F64) in
/-- `parse_line_not_regex`. -/
def parseLineNotRegex (input : List Char) :
    Except (Err Char) (List Char × PipelineStage F64) := do
  let (input, pattern) ← parseLineFilter ['!', '~'] input
  return (input, .lineNotRegex pattern (← compile regexNew input pattern))

/-- `is_keyword_boundary`. -/
def isKeywordBoundary (rest : List Char) : Bool := rest.head?.all fun c => !isFieldChar c

/-- What follows a keyword, if the input begins with it. -/
def keyword (word input : List Char) : Option (List Char) :=
  match tag word input with
  | .ok (rest, _) => if isKeywordBoundary rest then some rest else none
  | .error _ => none

/-- The numeric comparison operators. -/
def compareOp? : List Char → Option (List Char × CompareOp)
  | '>' :: '=' :: rest => some (rest, .gte)
  | '<' :: '=' :: rest => some (rest, .lte)
  | '>' :: rest => some (rest, .gt)
  | '<' :: rest => some (rest, .lt)
  | _ => none

/-- A character of a number. -/
def isNumberChar (c : Char) : Bool := c.isDigit || decide (c ∈ ['.', '-', '+'])

/-- `num_str.parse()`, or a failure at the input. -/
def parseF64 (input number : List Char) : Except (Err Char) F64 :=
  match FloatOps.parse (String.ofList number) with
  | some value => .ok value
  | none => .error (.failure ⟨input, .verify⟩)

/-- A label filter: a field, an operator and a value. -/
def parseLabelFilter (input : List Char) : Except (Err Char) (List Char × PipelineStage F64) := do
  let (input, key) ← takeWhile1 isFieldChar input
  let (input, _) ← multispace0 input
  match compareOp? input with
  | some (rest, op) =>
    let (rest, _) ← multispace0 rest
    let (rest, number) ← takeWhile1 isNumberChar rest
    return (rest, .compareFilter (String.ofList key) op (← parseF64 rest number))
  | none =>
    let (input, op) ← parseMatchOp input
    let (input, _) ← multispace0 input
    let (input, value) ← cut parseQuotedString input
    if op = .regex ∨ op = .notRegex then
      return (input, .labelFilter (String.ofList key) op value (← compile regexNew input value))
    else return (input, .labelFilter (String.ofList key) op value none)

/-- `parse_json_or_label_filter`. -/
def parseJsonOrLabelFilter (input : List Char) :
    Except (Err Char) (List Char × PipelineStage F64) := do
  let (input, _) ← char '|' input
  let (input, _) ← multispace0 input
  match keyword "json".toList input, keyword "logfmt".toList input,
    keyword "unwrap".toList input, keyword "regexp".toList input with
  | some rest, _, _, _ => return (rest, .jsonExtract)
  | none, some rest, _, _ => return (rest, .logfmtExtract)
  | none, none, some rest, _ =>
    let (rest, _) ← multispace0 rest
    let (rest, field) ← takeWhile1 isFieldChar rest
    return (rest, .unwrap (String.ofList field))
  | none, none, none, some rest =>
    let (rest, _) ← multispace0 rest
    let (rest, pattern) ← cut parseQuotedString rest
    return (rest, .regexpExtract pattern (← compile regexNew rest pattern))
  | none, none, none, none => parseLabelFilter regexNew input

/-- `parse_pipeline_stage`. -/
def parsePipelineStage (input : List Char) : IResult Char (PipelineStage F64) :=
  alt [parseLineContains F64, parseLineNotContains F64, parseLineRegex F64 regexNew,
    parseLineNotRegex F64 regexNew, parseJsonOrLabelFilter regexNew] input

/-- The loop over the stages. It ends, as a stage takes some input; it would be stuck if one did
not. -/
def parseStages : ℕ → List Char → Except (Err Char) (List Char × List (PipelineStage F64))
  | 0, _ => .error .stuck
  | n + 1, remaining =>
    match parsePipelineStage regexNew (Text.trimStart remaining) with
    | .ok (rest, stage) => (parseStages n rest).map fun r => (r.1, stage :: r.2)
    | .error (.error _) => .ok (remaining, [])
    | .error e => .error e

/-- `parse_pipeline_or_selector`. -/
def parsePipelineOrSelector (input : List Char) :
    Except (Err Char) (List Char × LogQLExpr F64) := do
  let (input, selector) ← parseStreamSelector F64 input
  let (input, _) ← multispace0 input
  let (remaining, stages) ← parseStages regexNew (input.length + 1) input
  if stages.isEmpty then return (remaining, selector)
  else return (remaining, .pipeline selector stages)

/-! ### Queries -/

/-- The functions of a metric query. -/
def parseMetricFunc (input : List Char) : IResult Char MetricFunc :=
  alt [map (tag "count_over_time".toList) fun _ => .countOverTime,
    map (tag "bytes_over_time".toList) fun _ => .bytesOverTime,
    map (tag "sum_over_time".toList) fun _ => .sumOverTime,
    map (tag "avg_over_time".toList) fun _ => .avgOverTime,
    map (tag "min_over_time".toList) fun _ => .minOverTime,
    map (tag "max_over_time".toList) fun _ => .maxOverTime,
    map (tag "rate".toList) fun _ => .rate] input

variable (F64) in
/-- `parse_range`. -/
def parseRange (input : List Char) : Except (Err Char) (List Char × ℕ) := do
  let (input, _) ← char '[' input
  let (input, text) ← takeWhile1 Alphanumeric.isAlphanumeric input
  let (input, _) ← char ']' input
  match parseDuration F64 (String.ofList text) with
  | none => throw .stuck
  | some none => throw (.failure ⟨input, .fail⟩)
  | some (some duration) => return (input, duration)

/-- `parse_metric_query`. -/
def parseMetricQuery (input : List Char) : Except (Err Char) (List Char × LogQLExpr F64) := do
  let (input, func) ← parseMetricFunc input
  let (input, _) ← char '(' input
  let (input, _) ← multispace0 input
  let (input, inner) ← parsePipelineOrSelector regexNew input
  let (input, _) ← multispace0 input
  let (input, range) ← parseRange F64 input
  let (input, _) ← multispace0 input
  let (input, _) ← char ')' input
  return (input, .metricQuery func inner range)

end Stages

/-! ### Errors -/

/-- `LogQLParseError`. -/
structure LogQLParseError where
  pos : ℕ
  msg : String
  deriving DecidableEq

/-- `classify_parse_failure`, nothing where it panics. -/
def classifyParseFailure (input : List Char) (pos : ℕ) : Option String :=
  let pos := min pos (utf8Len input)
  (sliceTo pos input).map fun before =>
    let last := (Text.trimEnd before).getLast?
    if last = some '=' then "expected a quoted value after '='"
    else if last = some '{' ∨ last = some ',' then "expected a label name"
    else if utf8Len input ≤ pos then
      if '{' ∈ input ∧ '}' ∉ input then "expected '\x7d' to close the selector"
      else "unexpected end of query"
    else "unexpected input here"

/-- `nom_err_to_human`, nothing where the parse or the report is stuck. -/
def nomErrToHuman (trimmed : List Char) (err : Err Char) (leadingWs : ℕ) :
    Option LogQLParseError :=
  match err with
  | .error e | .failure e =>
    let pos := utf8Len trimmed - utf8Len e.input
    (classifyParseFailure trimmed pos).map fun msg => ⟨leadingWs + pos, msg⟩
  | .stuck => none

/-- `trailing_snippet`. -/
def trailingSnippet (input : List Char) : String :=
  String.ofList (input.take 30) ++ if input.length ≤ 30 then "" else "…"

/-- The end of `parse_logql`: nothing but white space may be left. -/
def finishParse (leadingWs : ℕ) (trimmed remaining : List Char) (expr : LogQLExpr F64) :
    Except LogQLParseError (LogQLExpr F64) :=
  let remaining := Text.trimStart remaining
  if remaining.isEmpty then .ok expr
  else .error ⟨leadingWs + (utf8Len trimmed - utf8Len remaining),
    "unexpected trailing input: " ++ trailingSnippet remaining⟩

/-- `parse_logql`, nothing where it panics or never returns. -/
def parseLogql [Combinators Char] [Alphanumeric] [FloatOps F64]
    (regexNew : String → Option Regex) (input : String) :
    Option (Except LogQLParseError (LogQLExpr F64)) :=
  let leadingWs := utf8Len input.toList - utf8Len (Text.trimStart input.toList)
  let trimmed := Text.trim input.toList
  match parseMetricQuery regexNew trimmed with
  | .ok (remaining, expr) => some (finishParse leadingWs trimmed remaining expr)
  | .error .stuck => none
  | .error _ =>
    match parsePipelineOrSelector regexNew trimmed with
    | .ok (remaining, expr) => some (finishParse leadingWs trimmed remaining expr)
    | .error e => (nomErrToHuman trimmed e leadingWs).map .error

/-! ### Selectors that are written -/

section ReadBack

/-- A matcher of equality, with an escaped value. -/
def matcherText (name value : String) : String := name ++ "=\"" ++ escapeQuoted value ++ "\""

/-- A selector of such matchers. -/
def selectorText (matchers : List (String × String)) : String :=
  "\x7b" ++ ", ".intercalate (matchers.map fun m => matcherText m.1 m.2) ++ "\x7d"

/-- The matchers it stands for. -/
def eqMatchers (matchers : List (String × String)) : List LogQLMatcher :=
  matchers.map fun m => ⟨m.1, .eq, m.2⟩

/-- A line filter, with an escaped text. -/
def lineContainsText (text : String) : String := "|= \"" ++ escapeQuoted text ++ "\""

theorem toList_lineContainsText (text : String) : (lineContainsText text).toList =
    '|' :: '=' :: ' ' :: '"' :: ((escapeQuoted text).toList ++ ['"']) := by
  simp [lineContainsText]

theorem exists_toList_selectorText (matchers : List (String × String)) :
    ∃ s, (selectorText matchers).toList = '{' :: (s ++ ['}']) := by
  refine ⟨(", ".intercalate (matchers.map fun m => matcherText m.1 m.2)).toList, ?_⟩
  simp only [selectorText, String.toList_append]
  rfl

variable [Alphanumeric]

/-- A name of label characters. -/
def IsLabelName (name : String) : Prop :=
  name.toList ≠ [] ∧ ∀ c ∈ name.toList, isLabelChar c = true

theorem isLabelChar_of_isAlphanum {c : Char} (h : c.isAlphanum = true) : isLabelChar c = true := by
  rw [isLabelChar, isAlphanumeric_of_isAlphanum h]
  rfl

theorem isLabelName_of_isAlphanum {name : String} (hne : name.toList ≠ [])
    (h : ∀ c ∈ name.toList, c.isAlphanum = true) : IsLabelName name :=
  ⟨hne, fun c hc => isLabelChar_of_isAlphanum (h c hc)⟩

theorem isMultispace_of_isLabelChar {c : Char} (h : isLabelChar c = true) :
    isMultispace c = false := by
  rw [Bool.eq_false_iff]
  intro hspace
  have hc : c ∈ [' ', '\t', '\r', '\n'] := of_decide_eq_true hspace
  rw [isLabelChar, isAlphanumeric_of_isMultispace hspace] at h
  simp only [List.mem_cons, List.not_mem_nil, or_false] at hc
  obtain rfl | rfl | rfl | rfl := hc <;> exact absurd h (by decide)

theorem isLabelChar_eq_sign : isLabelChar '=' = false := by
  rw [isLabelChar, Alphanumeric.isAlphanumeric_of_ascii (by decide)]
  rfl

variable [Combinators Char]

omit [Alphanumeric] in
theorem parseMatchOp_eq (rest : List Char) :
    parseMatchOp ('=' :: '"' :: rest) = .ok ('"' :: rest, .eq) := by
  rw [parseMatchOp, alt_of_error (isError_map (isError_tag (by simp))),
    alt_of_error (isError_map (isError_tag (by simp))),
    alt_of_error (isError_map (isError_tag (by simp))), alt_singleton]
  exact map_of_ok (tag_append ['='] ('"' :: rest))

omit [Combinators Char] in
theorem isMultispace_head_of_isLabelName {name : String} (hname : IsLabelName name)
    (s : List Char) : ∀ c ∈ (name.toList ++ s).head?, isMultispace c = false := by
  intro c hc
  cases hlist : name.toList with
  | nil => exact absurd hlist hname.1
  | cons d l =>
    rw [hlist] at hc
    obtain rfl : d = c := Option.some.inj hc
    exact isMultispace_of_isLabelChar (hname.2 d (hlist ▸ List.mem_cons_self))

/-- What is read of a matcher, whatever follows the opening quote. -/
theorem parseMatcher_quoted {name : String} (hname : IsLabelName name) {pre : List Char}
    (hpre : ∀ c ∈ pre, isMultispace c = true) (body : List Char) :
    parseMatcher (pre ++ (name.toList ++ '=' :: '"' :: body)) =
      (quotedBody body).elim (.error (.failure ⟨body, .char⟩))
        fun r => .ok (r.1, ⟨name, .eq, String.ofList r.2⟩) := by
  have hspace : multispace0 (pre ++ (name.toList ++ '=' :: '"' :: body)) =
      .ok (name.toList ++ '=' :: '"' :: body, pre) :=
    takeWhile0_append hpre (isMultispace_head_of_isLabelName hname _)
  have hlabel : takeWhile1 isLabelChar (name.toList ++ '=' :: '"' :: body) =
      .ok ('=' :: '"' :: body, name.toList) :=
    takeWhile1_append hname.1 hname.2 (by simpa using isLabelChar_eq_sign)
  have hvalue : cut parseQuotedString ('"' :: body) =
      (quotedBody body).elim (.error (.failure ⟨body, .char⟩))
        fun r => .ok (r.1, String.ofList r.2) := by
    have hnot : ¬ IsError (quotedString ('"' :: body)) := by
      rw [quotedString_cons]
      cases quotedBody body with
      | none => exact fun h => nomatch h
      | some r => exact not_isError_ok _
    exact (cut_of_not_error hnot).trans (quotedString_cons body)
  rw [parseMatcher, hspace]
  have hsign : isMultispace '=' = false := by decide
  have hquote : isMultispace '"' = false := by decide
  simp only [bind, Except.bind, hlabel, multispace0_cons hsign, parseMatchOp_eq,
    multispace0_cons hquote, hvalue, String.ofList_toList]
  cases quotedBody body <;> rfl

/-- **A matcher that is written** is read back. -/
theorem parseMatcher_matcherText {name : String} (hname : IsLabelName name) (value : String)
    {pre : List Char} (hpre : ∀ c ∈ pre, isMultispace c = true) (rest : List Char) :
    parseMatcher (pre ++ ((matcherText name value).toList ++ rest)) =
      .ok (rest, ⟨name, .eq, value⟩) := by
  have htext : (matcherText name value).toList ++ rest =
      name.toList ++ '=' :: '"' :: ((escapeQuoted value).toList ++ '"' :: rest) := by
    simp [matcherText]
  rw [htext, parseMatcher_quoted hname hpre, escapeQuoted, String.toList_ofList, quotedBody_escape,
    Option.elim_some, String.ofList_toList]

/-- The matchers after the first one are read back, up to the brace. -/
theorem separatedMore_matcherText (matchers : List (String × String))
    (hnames : ∀ m ∈ matchers, IsLabelName m.1) (rest : List Char) :
    separatedMore (char ',') parseMatcher
        ((matchers.flatMap fun m => ", ".toList ++ (matcherText m.1 m.2).toList) ++ '}' :: rest) =
      .ok ('}' :: rest, eqMatchers matchers) := by
  induction matchers with
  | nil => exact separatedMore_nil (Or.inl (isError_char (by simp)))
  | cons m matchers ih =>
    have hsep := char_cons ',' (' ' :: ((matcherText m.1 m.2).toList ++
      ((matchers.flatMap fun m => ", ".toList ++ (matcherText m.1 m.2).toList) ++ '}' :: rest)))
    have hitem := parseMatcher_matcherText (hnames m List.mem_cons_self) m.2
      (List.forall_mem_singleton.mpr (by decide) : ∀ c ∈ [' '], isMultispace c = true)
      ((matchers.flatMap fun m => ", ".toList ++ (matcherText m.1 m.2).toList) ++ '}' :: rest)
    have htext : (((m :: matchers).flatMap fun m => ", ".toList ++ (matcherText m.1 m.2).toList) ++
        '}' :: rest) = ',' :: ' ' :: ((matcherText m.1 m.2).toList ++
          ((matchers.flatMap fun m => ", ".toList ++ (matcherText m.1 m.2).toList) ++
            '}' :: rest)) := by
      simp
    rw [htext, separatedMore_cons hsep hitem (by simp; omega),
      ih fun m hm => hnames m (List.mem_cons_of_mem _ hm)]
    rfl

/-- **What a selector in braces is read for**, whatever follows the first opening quote. -/
theorem parseStreamSelector_quoted_iff {name : String} (hname : IsLabelName name)
    {body rest : List Char} {expr : LogQLExpr F64} :
    parseStreamSelector F64 ('{' :: (name.toList ++ '=' :: '"' :: body)) = .ok (rest, expr) ↔
      ∃ rest' value after more, quotedBody body = some (rest', value) ∧
        separatedMore (char ',') parseMatcher rest' = .ok (after, more) ∧
        after.dropWhile isMultispace = '}' :: rest ∧
        expr = .streamSelector (⟨name, .eq, String.ofList value⟩ :: more) := by
  have hopen : isMultispace '{' = false := by decide
  have hspace : multispace0 (name.toList ++ '=' :: '"' :: body) =
      .ok (name.toList ++ '=' :: '"' :: body, []) :=
    multispace0_of_head (isMultispace_head_of_isLabelName hname _)
  have hspace' : ∀ s : List Char, multispace0 s =
      .ok (s.dropWhile isMultispace, s.takeWhile isMultispace) := fun s => takeWhile0_eq _ s
  have hmatcher := parseMatcher_quoted hname (List.forall_mem_nil _) body
  rw [List.nil_append] at hmatcher
  rw [parseStreamSelector]
  simp only [bind, Except.bind, multispace0_cons hopen, char_cons, hspace]
  cases hbody : quotedBody body with
  | none =>
    rw [hbody, Option.elim_none] at hmatcher
    rw [separatedList0_error hmatcher (by simp)]
    simp
  | some r =>
    obtain ⟨rest', value⟩ := r
    rw [hbody, Option.elim_some] at hmatcher
    rw [separatedList0_cons hmatcher]
    cases hmore : separatedMore (char ',') parseMatcher rest' with
    | error e => simp [Except.map, hmore]
    | ok r =>
      obtain ⟨after, more⟩ := r
      simp only [Except.map, hspace']
      by_cases hclose : '}' ∈ (after.dropWhile isMultispace).head?
      · obtain ⟨tail, hrest⟩ : ∃ tail, after.dropWhile isMultispace = '}' :: tail :=
          ⟨_, List.eq_cons_of_mem_head? hclose⟩
        rw [hrest, char_cons]
        constructor
        · intro h
          obtain ⟨rfl, rfl⟩ := Prod.mk.inj (Except.ok.inj h)
          exact ⟨rest', value, after, more, rfl, hmore, hrest, rfl⟩
        · rintro ⟨_, _, _, _, heq, hmore', hend, rfl⟩
          obtain ⟨rfl, rfl⟩ := Prod.mk.inj (Option.some.inj heq)
          obtain ⟨rfl, rfl⟩ := Prod.mk.inj (Except.ok.inj (hmore.symm.trans hmore'))
          obtain rfl := (List.cons.inj (hrest.symm.trans hend)).2
          rfl
      · rw [char_of_notMem_head hclose]
        refine iff_of_false (by simp) ?_
        rintro ⟨_, _, _, _, heq, hmore', hend, -⟩
        obtain ⟨rfl, rfl⟩ := Prod.mk.inj (Option.some.inj heq)
        obtain ⟨rfl, rfl⟩ := Prod.mk.inj (Except.ok.inj (hmore.symm.trans hmore'))
        exact hclose (by simp [hend])

/-- **A selector that is written** is read back. -/
theorem parseStreamSelector_selectorText (matchers : List (String × String))
    (hne : matchers ≠ []) (hnames : ∀ m ∈ matchers, IsLabelName m.1) (rest : List Char) :
    parseStreamSelector F64 ((selectorText matchers).toList ++ rest) =
      .ok (rest, .streamSelector (eqMatchers matchers)) := by
  cases matchers with
  | nil => exact absurd rfl hne
  | cons m matchers =>
    have htext : (selectorText (m :: matchers)).toList ++ rest =
        '{' :: (m.1.toList ++ '=' :: '"' :: ((escapeQuoted m.2).toList ++ '"' ::
          ((matchers.flatMap fun m => ", ".toList ++ (matcherText m.1 m.2).toList) ++
            '}' :: rest))) := by
      rw [selectorText, List.map_cons, String.toList_append, String.toList_append,
        toList_intercalate_cons, matcherText]
      simp [List.flatMap_map]
    have hmore := separatedMore_matcherText matchers
      (fun m hm => hnames m (List.mem_cons_of_mem _ hm)) rest
    have hclose : ('}' :: rest).dropWhile isMultispace = '}' :: rest :=
      List.dropWhile_cons_of_neg (by decide)
    rw [htext, escapeQuoted, String.toList_ofList]
    refine (parseStreamSelector_quoted_iff (hnames m List.mem_cons_self)).mpr
      ⟨_, _, _, _, quotedBody_escape _ _, hmore, hclose, ?_⟩
    rw [String.ofList_toList]
    rfl

variable [FloatOps F64] (regexNew : String → Option Regex)

omit [Alphanumeric] in
theorem isError_parseLineFilter {op input : List Char} (h : ¬ op <+: input) :
    IsError (parseLineFilter op input) :=
  isError_bind (isError_tag h) _

/-- There is no stage at the end of the input. -/
theorem isError_parsePipelineStage_nil :
    IsError (parsePipelineStage regexNew [] : IResult Char (PipelineStage F64)) := by
  have hfilter : ∀ op : List Char, op ≠ [] → IsError (parseLineFilter op []) := by
    intro op hop
    exact isError_parseLineFilter fun hpre => hop (List.prefix_nil.mp hpre)
  refine isError_alt (List.cons_ne_nil _ _) ?_
  intro p hp
  simp only [List.mem_cons, List.not_mem_nil, or_false] at hp
  obtain rfl | rfl | rfl | rfl | rfl := hp
  · exact isError_bind (hfilter ['|', '='] (by simp)) _
  · exact isError_bind (hfilter ['!', '='] (by simp)) _
  · exact isError_bind (hfilter ['|', '~'] (by simp)) _
  · exact isError_bind (hfilter ['!', '~'] (by simp)) _
  · exact isError_bind (isError_char (c := '|') (s := []) (by simp)) _

theorem parseStages_nil (n : ℕ) :
    parseStages regexNew (n + 1) [] = .ok ([], ([] : List (PipelineStage F64))) := by
  obtain ⟨e, he⟩ : IsError (parsePipelineStage regexNew [] : IResult Char (PipelineStage F64)) :=
    isError_parsePipelineStage_nil regexNew
  rw [parseStages]
  simp [Text.trimStart, he]

/-- **A line filter that is written** is read back. -/
theorem parsePipelineStage_lineContainsText (text : String) :
    parsePipelineStage regexNew (lineContainsText text).toList =
      .ok ([], (.lineContains text : PipelineStage F64)) := by
  have htag : tag ['|', '='] ('|' :: '=' :: ' ' :: '"' :: ((escapeQuoted text).toList ++ ['"'])) =
      .ok (' ' :: '"' :: ((escapeQuoted text).toList ++ ['"']), ['|', '=']) :=
    tag_append ['|', '='] _
  have hquote : isMultispace '"' = false := by decide
  rw [toList_lineContainsText]
  refine alt_of_ok ?_
  rw [parseLineContains, parseLineFilter]
  simp only [bind, Except.bind, htag, multispace0_space_cons hquote, parseQuotedString,
    quotedString_escapeQuoted]
  rfl

theorem parseStages_lineContainsText (n : ℕ) (text : String) :
    parseStages regexNew (n + 2) (lineContainsText text).toList =
      .ok ([], [(.lineContains text : PipelineStage F64)]) := by
  have htrim : Text.trimStart (lineContainsText text).toList = (lineContainsText text).toList := by
    rw [toList_lineContainsText]
    exact List.dropWhile_cons_of_neg (by decide)
  rw [parseStages, htrim, parsePipelineStage_lineContainsText]
  show (parseStages regexNew (n + 1) []).map _ = _
  rw [parseStages_nil]
  rfl

/-- A selector alone. -/
theorem parsePipelineOrSelector_of_parseStreamSelector {input : List Char} {selector : LogQLExpr F64}
    (h : parseStreamSelector F64 input = .ok ([], selector)) :
    parsePipelineOrSelector regexNew input = .ok ([], selector) := by
  rw [parsePipelineOrSelector, h]
  simp only [bind, Except.bind, multispace0_nil, List.length_nil, parseStages_nil]
  rfl

/-- A selector and a line filter. -/
theorem parsePipelineOrSelector_lineContainsText (matchers : List (String × String))
    (hne : matchers ≠ []) (hnames : ∀ m ∈ matchers, IsLabelName m.1) (text : String) :
    parsePipelineOrSelector regexNew
        ((selectorText matchers).toList ++ ' ' :: (lineContainsText text).toList) =
      .ok ([], (.pipeline (.streamSelector (eqMatchers matchers)) [.lineContains text] :
        LogQLExpr F64)) := by
  have hspace : multispace0 (' ' :: (lineContainsText text).toList) =
      .ok ((lineContainsText text).toList, [' ']) := by
    rw [toList_lineContainsText]
    exact multispace0_space_cons (by decide) _
  obtain ⟨n, hn⟩ : ∃ n, (lineContainsText text).toList.length + 1 = n + 2 := by
    rw [toList_lineContainsText]
    exact ⟨_, rfl⟩
  rw [parsePipelineOrSelector, parseStreamSelector_selectorText matchers hne hnames]
  simp only [bind, Except.bind, hspace, hn, parseStages_lineContainsText]
  rfl

/-- A query in braces is no metric query. -/
theorem isError_parseMetricQuery (s : List Char) :
    IsError (parseMetricQuery regexNew ('{' :: s) : IResult Char (LogQLExpr F64)) := by
  have hword : ∀ word : List Char, word ≠ [] → '{' ∉ word.head? → ¬ word <+: '{' :: s := by
    intro word hne hhead hpre
    cases word with
    | nil => exact hne rfl
    | cons c word => exact hhead (congrArg some (List.cons_prefix_cons.mp hpre).1)
  refine isError_bind (isError_alt (List.cons_ne_nil _ _) ?_) _
  intro p hp
  simp only [List.mem_cons, List.not_mem_nil, or_false] at hp
  obtain rfl | rfl | rfl | rfl | rfl | rfl | rfl := hp <;>
    exact isError_map (isError_tag (hword _ (by simp) (by simp)))

/-- A query in braces that is read to its end. -/
theorem parseLogql_of_ok {query : String} {b : Char} {s : List Char} {expr : LogQLExpr F64}
    (hquery : query.toList = '{' :: (s ++ [b])) (hb : Text.isWhitespace b = false)
    (h : parsePipelineOrSelector regexNew query.toList = .ok ([], expr)) :
    parseLogql regexNew query = some (.ok expr) := by
  have htrim : Text.trim query.toList = query.toList := by
    rw [hquery]
    exact trim_of_ends (by decide) hb s
  obtain ⟨e, he⟩ : IsError (parseMetricQuery regexNew query.toList : IResult Char (LogQLExpr F64)) :=
    hquery ▸ isError_parseMetricQuery regexNew _
  rw [parseLogql, htrim, he, h]
  rfl

/-- A query in braces that is read as a selector has no more than that. -/
theorem exists_parseStreamSelector {query : String} {b : Char} {s : List Char}
    {matchers : List LogQLMatcher} (hquery : query.toList = '{' :: (s ++ [b]))
    (hb : Text.isWhitespace b = false)
    (h : parseLogql regexNew query =
      some (.ok (.streamSelector matchers : LogQLExpr F64))) :
    ∃ rest, parseStreamSelector F64 query.toList = .ok (rest, .streamSelector matchers) := by
  have htrim : Text.trim query.toList = query.toList := by
    rw [hquery]
    exact trim_of_ends (by decide) hb s
  obtain ⟨e, he⟩ : IsError (parseMetricQuery regexNew query.toList : IResult Char (LogQLExpr F64)) :=
    hquery ▸ isError_parseMetricQuery regexNew _
  rw [parseLogql, htrim, he] at h
  dsimp only at h
  cases hread : (parsePipelineOrSelector regexNew query.toList : IResult Char (LogQLExpr F64)) with
  | error e =>
    rw [hread] at h
    obtain ⟨_, -, heq⟩ := Option.map_eq_some_iff.mp h
    cases heq
  | ok r =>
    obtain ⟨rest, expr⟩ := r
    rw [hread] at h
    have hexpr : expr = .streamSelector matchers := by
      have hfinish := Option.some.inj h
      rw [finishParse] at hfinish
      split_ifs at hfinish
      exact Except.ok.inj hfinish
    obtain ⟨⟨rest', selector⟩, hselector, hread⟩ := exists_of_bind_eq_ok hread
    obtain ⟨_, -, hread⟩ := exists_of_bind_eq_ok hread
    obtain ⟨_, -, hread⟩ := exists_of_bind_eq_ok hread
    dsimp only at hread
    split_ifs at hread
    · obtain ⟨-, hsame⟩ := Prod.mk.inj (Except.ok.inj hread)
      exact ⟨rest', by rw [hselector, hsame, hexpr]⟩
    · obtain ⟨-, hpipeline⟩ := Prod.mk.inj (Except.ok.inj hread)
      exact absurd (hpipeline.trans hexpr) (by simp)

/-- **A selector that is written** is read back as a query. -/
theorem parseLogql_selectorText (matchers : List (String × String)) (hne : matchers ≠ [])
    (hnames : ∀ m ∈ matchers, IsLabelName m.1) :
    parseLogql regexNew (selectorText matchers) =
      some (.ok (.streamSelector (eqMatchers matchers) : LogQLExpr F64)) := by
  obtain ⟨s, hs⟩ := exists_toList_selectorText matchers
  have hselector : parseStreamSelector F64 (selectorText matchers).toList =
      .ok ([], .streamSelector (eqMatchers matchers)) := by
    rw [← parseStreamSelector_selectorText matchers hne hnames [], List.append_nil]
  exact parseLogql_of_ok regexNew hs (by decide)
    (parsePipelineOrSelector_of_parseStreamSelector regexNew hselector)

/-- **A selector and a line filter that are written** are read back as a query. -/
theorem parseLogql_lineContainsText (matchers : List (String × String)) (hne : matchers ≠ [])
    (hnames : ∀ m ∈ matchers, IsLabelName m.1) (text : String) :
    parseLogql regexNew (selectorText matchers ++ " " ++ lineContainsText text) =
      some (.ok (.pipeline (.streamSelector (eqMatchers matchers)) [.lineContains text] :
        LogQLExpr F64)) := by
  obtain ⟨s, hs⟩ := exists_toList_selectorText matchers
  have htext : (selectorText matchers ++ " " ++ lineContainsText text).toList =
      (selectorText matchers).toList ++ ' ' :: (lineContainsText text).toList := by
    simp [String.append_assoc]
  refine parseLogql_of_ok regexNew (b := '"')
    (s := s ++ '}' :: ' ' :: '|' :: '=' :: ' ' :: '"' :: (escapeQuoted text).toList) ?_ (by decide) ?_
  · rw [htext, hs, toList_lineContainsText]
    simp
  · rw [htext]
    exact parsePipelineOrSelector_lineContainsText regexNew matchers hne hnames text

end ReadBack

end LogQL

end Aniani
