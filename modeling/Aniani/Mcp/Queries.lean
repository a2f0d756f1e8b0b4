import Aniani.Mcp.Logs
import Aniani.Query.LogQL.Parser
import Aniani.Query.TraceQL.Parser

/-!
# The queries of the tools

`query_logs` and `query_traces` take a raw query, or filters from which they write one. The text that
is written is then parsed like any other, so what a filter means is decided by the parser. Each value
is escaped before it is quoted, and nothing else of a query is up to the caller.

A `min_duration` is not quoted. It is written into the query as it is, after a check by a parser of
its own.

## Main definitions

* `QueryLogsArgs`, `QueryTracesArgs` — the arguments
* `logsQuery`, `tracesQuery` — the queries that are written
* `QueryLogsArgs.expr`, `QueryTracesArgs.expr` — what was asked for
* `handleQueryLogs` — the tool on its arguments

## Main results

* `queries_parse_to_expr` — the queries that are written parse to what was asked for
* `handleQueryLogs_of_isFiltered` — so the tool answers that
-/

namespace Aniani

namespace Mcp

open Combinator LogQL

/-! ### Queries for logs -/

/-- `QueryLogsArgs`. -/
structure QueryLogsArgs where
  service : Option String
  level : Option String
  contains : Option String
  limit : Option ℕ
  logql : Option String

/-- The answer to a call of `query_logs` with no filter. -/
def provideLogsFilter : String :=
  "provide at least `service` or `level` (optionally with `contains`), or a raw `logql`"

/-- The query that `handle_query_logs` parses. -/
def logsQuery (args : QueryLogsArgs) : Except String String :=
  match args.logql with
  | some raw => .ok raw
  | none =>
    let sel := (args.service.map fun s => "service=\"" ++ escapeQuoted s ++ "\"").toList ++
      (args.level.map fun l => "level=\"" ++ escapeQuoted l ++ "\"").toList
    if sel.isEmpty then .error provideLogsFilter
    else
      let q := "\x7b" ++ ", ".intercalate sel ++ "\x7d"
      .ok (match args.contains with
        | some c => q ++ (" |= \"" ++ escapeQuoted c ++ "\"")
        | none => q)

namespace QueryLogsArgs

/-- The labels that are asked for, with their values. -/
def matchers (args : QueryLogsArgs) : List (String × String) :=
  (args.service.map fun s => ("service", s)).toList ++
    (args.level.map fun l => ("level", l)).toList

/-- What is asked for: the labels are as given, and the line contains what is given. -/
def expr {F64 : Type} (args : QueryLogsArgs) : LogQLExpr F64 :=
  match args.contains with
  | some c => .pipeline (.streamSelector (eqMatchers args.matchers)) [.lineContains c]
  | none => .streamSelector (eqMatchers args.matchers)

/-- A call with filters, and no raw query. -/
structure IsFiltered (args : QueryLogsArgs) : Prop where
  logql : args.logql = none
  selector : args.service ≠ none ∨ args.level ≠ none

end QueryLogsArgs

theorem QueryLogsArgs.matchers_ne_nil {args : QueryLogsArgs} (h : args.IsFiltered) :
    args.matchers ≠ [] := by
  intro hnil
  obtain ⟨hservice, hlevel⟩ := List.append_eq_nil_iff.mp hnil
  simp only [Option.toList_eq_nil_iff, Option.map_eq_none_iff] at hservice hlevel
  exact h.selector.elim (· hservice) (· hlevel)

theorem QueryLogsArgs.isLabelName_of_mem_matchers [Alphanumeric] {args : QueryLogsArgs}
    {m : String × String} (hm : m ∈ args.matchers) : IsLabelName m.1 := by
  have hservice : IsLabelName "service" :=
    isLabelName_of_isAlphanum (by decide) (List.forall_iff_forall_mem.mp (by decide))
  have hlevel : IsLabelName "level" :=
    isLabelName_of_isAlphanum (by decide) (List.forall_iff_forall_mem.mp (by decide))
  obtain hm | hm := List.mem_append.mp hm
  · obtain ⟨s, -, rfl⟩ := Option.map_eq_some_iff.mp (Option.mem_toList.mp hm)
    exact hservice
  · obtain ⟨l, -, rfl⟩ := Option.map_eq_some_iff.mp (Option.mem_toList.mp hm)
    exact hlevel

/-- The query of some filters. -/
theorem logsQuery_of_isFiltered {args : QueryLogsArgs} (h : args.IsFiltered) :
    logsQuery args = .ok (match args.contains with
      | some c => selectorText args.matchers ++ " " ++ lineContainsText c
      | none => selectorText args.matchers) := by
  have hsel : (args.service.map fun s => "service=\"" ++ escapeQuoted s ++ "\"").toList ++
      (args.level.map fun l => "level=\"" ++ escapeQuoted l ++ "\"").toList =
        args.matchers.map fun m => matcherText m.1 m.2 := by
    rw [QueryLogsArgs.matchers, List.map_append]
    cases args.service <;> cases args.level <;> rfl
  have hne : (args.matchers.map fun m => matcherText m.1 m.2).isEmpty = false := by
    simpa using QueryLogsArgs.matchers_ne_nil h
  rw [logsQuery, h.logql]
  simp only [hsel, hne, Bool.false_eq_true, if_false]
  cases args.contains with
  | none => rfl
  | some c =>
    have hfilter : " |= \"" ++ escapeQuoted c ++ "\"" = " " ++ lineContainsText c := by
      rw [lineContainsText, ← String.append_assoc, ← String.append_assoc]
      rfl
    simp only [hfilter, ← String.append_assoc]
    rfl

section ParseLogs

variable {F64 : Type} [Combinators Char] [Alphanumeric] [FloatOps F64]
  (regexNew : String → Option Regex)

variable (F64) in
/-- The query that is written for some filters parses to what was asked for. -/
theorem parseLogql_of_isFiltered {args : QueryLogsArgs} (h : args.IsFiltered) :
    ∃ query, logsQuery args = .ok query ∧
      parseLogql regexNew query = some (.ok (args.expr : LogQLExpr F64)) := by
  refine ⟨_, logsQuery_of_isFiltered h, ?_⟩
  have hne := QueryLogsArgs.matchers_ne_nil h
  have hnames : ∀ m ∈ args.matchers, IsLabelName m.1 :=
    fun m hm => QueryLogsArgs.isLabelName_of_mem_matchers hm
  rw [QueryLogsArgs.expr]
  cases args.contains with
  | none => exact parseLogql_selectorText regexNew args.matchers hne hnames
  | some c => exact parseLogql_lineContainsText regexNew args.matchers hne hnames c

end ParseLogs

/-! ### Queries for traces -/

/-- `TraceStatus`. -/
inductive TraceStatus where
  | error | ok | unset
  deriving DecidableEq

/-- `TraceStatus::as_str`, which is also how it is displayed. -/
def TraceStatus.asStr : TraceStatus → String
  | error => "error"
  | ok => "ok"
  | unset => "unset"

/-- The status it asks for. -/
def TraceStatus.spanStatus : TraceStatus → SpanStatus
  | error => .error
  | ok => .ok
  | unset => .unset

/-- `QueryTracesArgs`. -/
structure QueryTracesArgs where
  service : Option String
  name : Option String
  status : Option TraceStatus
  minDuration : Option String
  limit : Option ℕ
  traceql : Option String

/-- The answer to a call of `query_traces` with no filter. -/
def provideTracesFilter : String :=
  "provide service/name/status/min_duration, or a raw `traceql`"

/-- The answer to a duration that is none. -/
def invalidMinDuration (d : String) : String :=
  "invalid `min_duration`: \"" ++ d ++ "\". Example: 100ms, 1s, 500us"

/-- The condition that is written for a `min_duration`; nothing where its check panics. -/
def durationConds (F64 : Type) [FloatOps F64] :
    Option String → Option (Except String (List String))
  | none => some (.ok [])
  | some d => (parseDuration F64 d).map fun
    | none => .error (invalidMinDuration d)
    | some _ => .ok ["duration > " ++ d]

/-- The query that `handle_query_traces` parses; nothing where it panics. -/
def tracesQuery (F64 : Type) [FloatOps F64] (args : QueryTracesArgs) :
    Option (Except String String) :=
  match args.traceql with
  | some raw => some (.ok raw)
  | none => (durationConds F64 args.minDuration).map fun durations => durations.bind fun durations =>
    let conds :=
      (args.service.map fun s => "resource.service.name = \"" ++ escapeQuoted s ++ "\"").toList ++
        (args.status.map fun status => "status = " ++ status.asStr).toList ++ durations ++
          (args.name.map fun n => "name = \"" ++ escapeQuoted n ++ "\"").toList
    if conds.isEmpty then .error provideTracesFilter
    else .ok ("\x7b " ++ " && ".intercalate conds ++ " \x7d")

namespace QueryTracesArgs

open TraceQL

/-- The conditions that are asked for. -/
def asked (args : QueryTracesArgs) : List Asked :=
  (args.service.map Asked.service).toList ++
    (args.status.map fun status => Asked.status status.spanStatus).toList ++
      (args.name.map Asked.name).toList

/-- What is asked for: a span on which all the conditions hold. -/
def expr {F64 : Type} (args : QueryTracesArgs) : TraceQLExpr F64 :=
  .spanSelector (askedSelector args.asked)

/-- A call with filters, and neither a `min_duration` nor a raw query. -/
structure IsFiltered (args : QueryTracesArgs) : Prop where
  traceql : args.traceql = none
  minDuration : args.minDuration = none
  conditions : args.service ≠ none ∨ args.status ≠ none ∨ args.name ≠ none

theorem asked_ne_nil {args : QueryTracesArgs} (h : args.IsFiltered) : args.asked ≠ [] := by
  intro hnil
  obtain ⟨hfirst, hname⟩ := List.append_eq_nil_iff.mp hnil
  obtain ⟨hservice, hstatus⟩ := List.append_eq_nil_iff.mp hfirst
  simp only [Option.toList_eq_nil_iff, Option.map_eq_none_iff] at hservice hstatus hname
  exact h.conditions.elim (· hservice) fun h => h.elim (· hstatus) (· hname)

end QueryTracesArgs

section ParseTraces

open TraceQL

variable {F64 : Type} [FloatOps F64]

/-- The query of some filters. -/
theorem tracesQuery_of_isFiltered {args : QueryTracesArgs} (h : args.IsFiltered) :
    tracesQuery F64 args = some (.ok (askedText args.asked)) := by
  have hstatus : ∀ status : TraceStatus,
      "status = " ++ status.asStr = (Asked.status status.spanStatus).text := by
    intro status
    cases status <;> rfl
  have hconds :
      (args.service.map fun s => "resource.service.name = \"" ++ escapeQuoted s ++ "\"").toList ++
        (args.status.map fun status => "status = " ++ status.asStr).toList ++ [] ++
          (args.name.map fun n => "name = \"" ++ escapeQuoted n ++ "\"").toList =
        args.asked.map Asked.text := by
    rw [QueryTracesArgs.asked, List.append_nil, List.map_append, List.map_append]
    simp only [hstatus]
    cases args.service <;> cases args.status <;> cases args.name <;> rfl
  have hne : (args.asked.map Asked.text).isEmpty = false := by
    simpa using QueryTracesArgs.asked_ne_nil h
  rw [tracesQuery, h.traceql, h.minDuration]
  show some (if List.isEmpty (_ ++ _ ++ [] ++ _) then _ else _) = _
  rw [hconds, hne]
  rfl

variable [Combinators Char] [Alphanumeric] (display : Err Char → String)

variable (F64) in
/-- The query that is written for some filters parses to what was asked for. -/
theorem parseTraceql_of_isFiltered {args : QueryTracesArgs} (h : args.IsFiltered) :
    ∃ query, tracesQuery F64 args = some (.ok query) ∧
      parseTraceql display query = some (.ok (args.expr : TraceQLExpr F64)) :=
  ⟨_, tracesQuery_of_isFiltered h,
    parseTraceql_selectorText display args.asked (QueryTracesArgs.asked_ne_nil h)⟩

end ParseTraces

/-! ### What the tools run -/

section Tools

variable {F64 : Type} [FloatOps F64] [Combinators Char] [Alphanumeric]
  (regexNew : String → Option Regex)

/-- How a `LogQLParseError` is displayed. -/
def displayParseError (e : LogQLParseError) : String :=
  "parse error at position " ++ toString e.pos ++ ": " ++ e.msg

/-- What `handle_query_logs` evaluates, or its answer where there is no query. -/
def logsExpr (args : QueryLogsArgs) : Option (Except String (LogQLExpr F64)) :=
  match logsQuery args with
  | .error message => some (.error message)
  | .ok query => (parseLogql regexNew query).map fun parsed => parsed.mapError fun e =>
    "LogQL parse error: " ++ displayParseError e ++
      ". Example: \x7bservice=\"api\"\x7d |= \"error\""

/-- What `handle_query_traces` evaluates, or its answer where there is no query. -/
def tracesExpr (display : Err Char → String) (args : QueryTracesArgs) :
    Option (Except String (TraceQL.TraceQLExpr F64)) := do
  match ← tracesQuery F64 args with
  | .error message => return .error message
  | .ok query => (TraceQL.parseTraceql display query).map fun parsed => parsed.mapError fun e =>
    "TraceQL parse error: " ++ e ++
      ". Example: \x7b resource.service.name = \"api\" && status = error \x7d"

/-- `handle_query_logs`, nothing where it panics or a read fails. -/
def handleQueryLogs {Rodeo Spur : Type} [LinearOrder Spur] [Interner Rodeo Spur]
    (H : MinHeap HeapItem) (env : Env Rodeo Spur F64) (args : QueryLogsArgs) :
    Option (Except String QueryLogsResponse) := do
  match ← logsExpr regexNew args with
  | .error message => return .error message
  | .ok expr => runQueryLogs H env expr args.limit

theorem logsExpr_of_isFiltered {args : QueryLogsArgs} (h : args.IsFiltered) :
    logsExpr regexNew args = some (.ok (args.expr : LogQLExpr F64)) := by
  obtain ⟨query, hquery, hparse⟩ := parseLogql_of_isFiltered F64 regexNew h
  simp only [logsExpr, hquery, hparse]
  rfl

theorem tracesExpr_of_isFiltered (display : Err Char → String) {args : QueryTracesArgs}
    (h : args.IsFiltered) :
    tracesExpr display args = some (.ok (args.expr : TraceQL.TraceQLExpr F64)) := by
  obtain ⟨query, hquery, hparse⟩ := parseTraceql_of_isFiltered F64 display h
  rw [tracesExpr, hquery]
  simp only [bind, Option.bind, hparse]
  rfl

/-- With filters the tool answers what was asked for. -/
theorem handleQueryLogs_of_isFiltered {Rodeo Spur : Type} [LinearOrder Spur]
    [Interner Rodeo Spur] (H : MinHeap HeapItem) (env : Env Rodeo Spur F64)
    {args : QueryLogsArgs} (h : args.IsFiltered) :
    handleQueryLogs regexNew H env args = runQueryLogs H env args.expr args.limit := by
  rw [handleQueryLogs, logsExpr_of_isFiltered regexNew h]
  rfl

/-- **The queries that are written** for filters parse, and to what was asked for: each value is
in its own matcher, line filter or condition as it was given, and there is nothing else. -/
theorem queries_parse_to_expr (display : Err Char → String) :
    (∀ args : QueryLogsArgs, args.IsFiltered → ∃ query, logsQuery args = .ok query ∧
      parseLogql regexNew query = some (.ok (args.expr : LogQLExpr F64))) ∧
    ∀ args : QueryTracesArgs, args.IsFiltered → ∃ query, tracesQuery F64 args = some (.ok query) ∧
      TraceQL.parseTraceql display query = some (.ok (args.expr : TraceQL.TraceQLExpr F64)) :=
  ⟨fun _ h => parseLogql_of_isFiltered F64 regexNew h,
    fun _ h => parseTraceql_of_isFiltered F64 display h⟩

end Tools

/-- A service that would close its matcher and open a line filter is the value of the matcher, and
one that would end its condition and begin another is the value of the condition. -/
theorem queries_parse_to_expr_closing_quote :
    (∃ query, logsQuery ⟨some "a\"\x7d |= \"é", none, some "\\\n\"", none, none⟩ = .ok query ∧
      @parseLogql ℤ (Combinators.ofLists) .ascii inferInstance (fun _ => none) query = some (.ok
        (.pipeline (.streamSelector [⟨"service", .eq, "a\"\x7d |= \"é"⟩])
          [.lineContains "\\\n\""]))) ∧
      ∃ query, tracesQuery ℤ ⟨some "a\" || name = \"", none, some .error, none, none, none⟩ =
          some (.ok query) ∧
        @TraceQL.parseTraceql ℤ (Combinators.ofLists) .ascii inferInstance (fun _ => "") query =
          some (.ok (.spanSelector ⟨[.attribute .resource "service.name" .eq
            (.string "a\" || name = \""), .status .eq .error], [.and], rfl⟩)) :=
  letI : Combinators Char := Combinators.ofLists
  letI : Alphanumeric := .ascii
  have hqueries := queries_parse_to_expr (fun _ => none) fun _ => ""
  ⟨hqueries.1 ⟨some "a\"\x7d |= \"é", none, some "\\\n\"", none, none⟩ ⟨rfl, Or.inl (by simp)⟩,
    hqueries.2 ⟨some "a\" || name = \"", none, some .error, none, none, none⟩
      ⟨rfl, rfl, Or.inl (by simp)⟩⟩

end Mcp

end Aniani
