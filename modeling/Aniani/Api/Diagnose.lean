import Aniani.Query.DurationValue
import Aniani.Query.LogQL.Parser
import Aniani.Query.TraceQL.Remainder
import Aniani.Query.TraceQL.Search
import Aniani.Server.State
import Aniani.Store.Select

/-!
# The queries that `diagnose` suggests

`GET /api/v1/diagnose` looks at one service and suggests queries to go on with. The name of the
service is put between quotes as it is, where the MCP tools escape it. So the query asks for that
service only if its name stands for itself between quotes.

## Main definitions

* `diagnose` — the suggested queries
* `Suggestion.expr` — what each of them is to ask for

## Main results

* `diagnose_intended_iff` — when the queries ask for that
* `not_diagnose_intended` — a name with a quote
-/

namespace Aniani

namespace Api

open Combinator Combinators LogQL TraceQL

/-! ### Suggestions -/

/-- The languages of the queries. -/
inductive QueryType where
  | logql | traceql
  deriving DecidableEq

/-- A suggested query. -/
structure SuggestedQuery where
  type : QueryType
  query : String
  reason : String
  deriving DecidableEq

/-- What is suggested. -/
inductive Suggestion where
  | errorLogs | spanErrors | highLatency | overview
  deriving DecidableEq

/-- The query of a suggestion, with the name of the service. -/
def Suggestion.query (service : String) : Suggestion → SuggestedQuery
  | errorLogs => ⟨.logql, "\x7bservice=\"" ++ service ++ "\", level=\"error\"\x7d",
      "Recent error logs detected"⟩
  | spanErrors => ⟨.traceql,
      "\x7b resource.service.name = \"" ++ service ++ "\" && status = error \x7d",
      "Span errors detected"⟩
  | highLatency => ⟨.traceql,
      "\x7b resource.service.name = \"" ++ service ++ "\" && duration > 1s \x7d",
      "High latency traces detected"⟩
  | overview => ⟨.logql, "\x7bservice=\"" ++ service ++ "\"\x7d", "General service log overview"⟩

/-- A suggestion is told from its reason. -/
theorem Suggestion.query_injective (service : String) :
    Function.Injective (Suggestion.query service) := by
  intro a b h
  have hreason : (a.query service).reason = (b.query service).reason := congrArg _ h
  cases a <;> cases b <;> first | rfl | exact absurd hreason (by simp [Suggestion.query])

section Endpoint

open FloatOps

/-- An error log among the recent ones. -/
structure RecentError where
  timestamp : String
  line : String
  labels : List (String × String)
  traceId : Option String

/-- `ONE_HOUR_NS`. -/
def oneHourNs : ℤ := 3600 * 1000000000

variable {Rodeo Spur F64 : Type} [LinearOrder Spur] [Interner Rodeo Spur] [FloatOps F64]

/-- The error logs of the last hour, the ten newest ones; nothing where a read fails. -/
def recentErrors (regexNew : String → Option (String → Bool)) (it : IterOrder ℕ)
    (itValues : IterOrder Spur) (s : LogStore Rodeo Spur F64) (service : String) (now : ℤ) :
    Option (List RecentError) := do
  let errorStreamIds := s.queryStreams regexNew it itValues
    [⟨"service", .eq, service⟩, ⟨"level", .eq, "error"⟩]
  let errors ← errorStreamIds.mapM fun sid => do
    let entries ← s.getEntries sid (i64SaturatingSub now oneHourNs) now
    return entries.map fun entry => (entry.timestampNs, (⟨toString entry.timestampNs, entry.line,
      (s.getStreamLabels sid).getD [], entry.traceId.map fun t => hexText t.toList⟩ : RecentError))
  return ((errors.flatten.sortByKey fun e => OrderDual.toDual e.1).take 10).map Prod.snd

/-- The share of the spans of a service's traces that are errors. -/
def spanErrorRatio (it : IterOrder TraceId) (s : TraceStore Rodeo Spur F64) (service : String) :
    F64 :=
  let spans := (s.tracesForService it service).flatMap fun tid => (s.getTrace tid).getD []
  if 0 < spans.length then
    div (Float64.ofU64 (countErrorSpans (spans.map Span.status))) (Float64.ofU64 spans.length)
  else Float64.zero

/-- The 99th percentile of the durations of a service's traces, in milliseconds; nothing where the
index is out of range. -/
def latencyP99Ms (it : IterOrder TraceId) (s : TraceStore Rodeo Spur F64) (service : String) :
    Option F64 :=
  let durations := (s.tracesForService it service).filterMap fun tid =>
    (s.traceResult tid).map TraceSummary.durationNs
  if durations.isEmpty then some Float64.zero
  else
    let sorted := durations.sortByKey id
    let share : F64 := div (Float64.ofI64 99) (Float64.ofI64 100)
    let count := min (toUsize (ceil (mul (Float64.ofU64 sorted.length) share))) sorted.length
    if count = 0 then none
    else sorted[count - 1]?.map fun ns => div (Float64.ofI64 ns) (Float64.ofI64 1000000)

/-- What is suggested: an overview when there is nothing else. -/
def suggestions (hasRecentErrors : Bool) (spanErrorRatio latencyP99Ms : F64) : List Suggestion :=
  let suggested :=
    (if hasRecentErrors then [.errorLogs] else []) ++
    (if lt Float64.zero spanErrorRatio then [.spanErrors] else []) ++
    (if lt (Float64.ofI64 1000) latencyP99Ms then [.highLatency] else [])
  if suggested.isEmpty then [.overview] else suggested

/-- What `diagnose` takes from outside: the orders it walks maps in, and compiled patterns. -/
structure DiagnoseWalks (Spur : Type) where
  regexNew : String → Option (String → Bool)
  streams : IterOrder ℕ
  values : IterOrder Spur
  traces : IterOrder TraceId

/-- The suggested queries of `diagnose_service`, nothing where it panics. -/
def diagnoseService (walks : DiagnoseWalks Spur) (s : Stores Rodeo Spur F64) (now : ℤ)
    (service : String) : Option (List SuggestedQuery) := do
  let errors ← recentErrors walks.regexNew walks.streams walks.values s.logStore service now
  let latency ← latencyP99Ms walks.traces s.traceStore service
  return (suggestions (!errors.isEmpty) (spanErrorRatio walks.traces s.traceStore service)
    latency).map (Suggestion.query service)

/-- The suggested queries of `diagnose`. There are none in the overview of all services. -/
def diagnose (walks : DiagnoseWalks Spur) (s : Stores Rodeo Spur F64) (now : ℤ)
    (service : Option String) : Option (List SuggestedQuery) :=
  match service with
  | some service => if service.isEmpty then some [] else diagnoseService walks s now service
  | none => some []

end Endpoint

/-! ### What the queries are to ask for -/

/-- A query that is parsed. -/
inductive ParsedQuery (F64 : Type) where
  | logql (expr : LogQLExpr F64)
  | traceql (expr : TraceQLExpr F64)

variable (F64 : Type) in
/-- What a suggestion is to ask for: the service by its name, and nothing but the error level, the
error status or a duration of more than a second besides. -/
def Suggestion.expr (service : String) : Suggestion → ParsedQuery F64
  | errorLogs => .logql (.streamSelector (eqMatchers [("service", service), ("level", "error")]))
  | spanErrors => .traceql (.spanSelector
      (selectorOf (Asked.service service).condition [(.and, .status .eq .error)]))
  | highLatency => .traceql (.spanSelector
      (selectorOf (Asked.service service).condition [(.and, .duration .gt 1000000000)]))
  | overview => .logql (.streamSelector (eqMatchers [("service", service)]))

section ReadBack

variable {F64 : Type} [FloatOps F64] [Combinators Char] [Alphanumeric]
  (regexNew : String → Option Regex) (display : Err Char → String)

/-- A suggested query is parsed, in its language. -/
def SuggestedQuery.ParsesTo (q : SuggestedQuery) : ParsedQuery F64 → Prop
  | .logql expr => q.type = .logql ∧ parseLogql regexNew q.query = some (.ok expr)
  | .traceql expr => q.type = .traceql ∧ parseTraceql display q.query = some (.ok expr)

variable (F64) in
/-- **A suggested query is intended** when it is parsed, and asks for what it is to ask for. -/
def IsIntended (service : String) (q : SuggestedQuery) : Prop :=
  ∃ suggestion : Suggestion, q = suggestion.query service ∧
    q.ParsesTo regexNew display (suggestion.expr F64 service)

theorem isIntended_query_iff (service : String) (suggestion : Suggestion) :
    IsIntended F64 regexNew display service (suggestion.query service) ↔
      (suggestion.query service).ParsesTo regexNew display (suggestion.expr F64 service) := by
  constructor
  · rintro ⟨suggestion', heq, hparses⟩
    obtain rfl := Suggestion.query_injective service heq
    exact hparses
  · exact fun hparses => ⟨suggestion, rfl, hparses⟩

/-! ### Queries of LogQL -/

/-- **A selector of a service** and other matchers is read back when the name of the service stands
for itself. -/
theorem parseLogql_service_iff {query service : String} {more : List (String × String)}
    (hnames : ∀ m ∈ more, IsLabelName m.1) (tail : List Char)
    (htail : tail ++ ['}'] =
      (more.flatMap fun m => ", ".toList ++ (matcherText m.1 m.2).toList) ++ ['}'])
    (hslash : '\\' ∉ tail ++ ['}'])
    (hquery : query.toList =
      '{' :: ("service".toList ++ '=' :: '"' :: (service.toList ++ '"' :: (tail ++ ['}'])))) :
    parseLogql regexNew query =
        some (.ok (.streamSelector (eqMatchers (("service", service) :: more)) : LogQLExpr F64)) ↔
      standsForItself service.toList = true := by
  have hname : IsLabelName "service" :=
    isLabelName_of_isAlphanum (by decide) (List.forall_iff_forall_mem.mp (by decide))
  have hends : query.toList =
      '{' :: (("service".toList ++ '=' :: '"' :: (service.toList ++ '"' :: tail)) ++ ['}']) := by
    rw [hquery]
    simp
  constructor
  · intro h
    obtain ⟨rest, hselector⟩ := exists_parseStreamSelector regexNew hends (by decide) h
    rw [hquery] at hselector
    obtain ⟨rest', value, _, _, hbody, -, -, hexpr⟩ :=
      (parseStreamSelector_quoted_iff hname).mp hselector
    obtain ⟨hfirst, -⟩ := List.cons.inj (LogQLExpr.streamSelector.inj hexpr)
    have hvalue : value = service.toList := by
      have hsame : service = String.ofList value := congrArg LogQLMatcher.value hfirst
      rw [hsame, String.toList_ofList]
    exact (standsForItself_of_quotedBody hslash hbody (hvalue ▸ List.suffix_rfl)).1
  · intro h
    have hmore := separatedMore_matcherText more hnames []
    have hbody := quotedBody_of_standsForItself h (tail ++ ['}'])
    have hselector : parseStreamSelector F64 query.toList =
        .ok ([], .streamSelector (eqMatchers (("service", service) :: more))) := by
      rw [hquery]
      refine (parseStreamSelector_quoted_iff hname).mpr
        ⟨_, _, ['}'], _, hbody, htail ▸ hmore, by decide, ?_⟩
      rw [String.ofList_toList]
      rfl
    exact parseLogql_of_ok regexNew hends (by decide)
      (parsePipelineOrSelector_of_parseStreamSelector regexNew hselector)

/-! ### Queries of TraceQL -/

/-- **A selector of a service** and other conditions is read back when the name of the service
stands for itself. -/
theorem parseTraceql_service_iff {query service : String}
    {more : List (LogicalOp × SpanCondition F64)} (tail : List Char) {rest : List Char}
    (hmore : parseMoreConditions F64 ((tail ++ ['}']).length + 1) (tail ++ ['}']) =
      .ok (rest, more))
    (hrest : rest.dropWhile isMultispace = ['}']) (hslash : '\\' ∉ tail ++ ['}'])
    (hquery : query.toList = '{' :: ' ' :: ("resource.service.name = \"".toList ++
      (service.toList ++ '"' :: (tail ++ ['}'])))) :
    parseTraceql display query =
        some (.ok (.spanSelector (selectorOf (Asked.service service).condition more))) ↔
      standsForItself service.toList = true := by
  have htrim : Text.trim query.toList = query.toList := by
    have hends : query.toList = '{' :: ((' ' :: ("resource.service.name = \"".toList ++
        (service.toList ++ '"' :: tail))) ++ ['}']) := by
      rw [hquery]
      simp
    rw [hends]
    exact trim_of_ends (by decide) (by decide) _
  have hcondition := parseCondition_serviceQuoted F64 (service.toList ++ '"' :: (tail ++ ['}']))
  have hhead : ∀ c ∈ ("resource.service.name = \"".toList ++
      (service.toList ++ '"' :: (tail ++ ['}']))).head?, c = 'r' := by
    simp
  generalize "resource.service.name = \"".toList ++ (service.toList ++ '"' :: (tail ++ ['}'])) = s
    at hquery hcondition hhead
  have hbefore : query.toList = '{' :: ' ' :: (beforeText [] ++ s) := hquery
  have hs : ∀ c ∈ s.head?, isMultispace c = false := fun c hc => hhead c hc ▸ by decide
  have hclose : '}' ∉ s.head? := fun hc => absurd (hhead _ hc) (by decide)
  constructor
  · intro h
    obtain ⟨rest', hread⟩ := exists_parseSpanSelector display htrim h
    rw [hbefore] at hread
    obtain ⟨_, condition, _, _, hfound, -, -, hexpr⟩ :=
      (parseSpanSelector_beforeText [] hs hclose).mp hread
    have hfirst : (Asked.service service).condition = condition :=
      (List.cons.inj (congrArg SpanSelector.conditions (TraceQLExpr.spanSelector.inj hexpr))).1
    rw [hcondition] at hfound
    cases hbody : quotedBody (service.toList ++ '"' :: (tail ++ ['}'])) with
    | none =>
      rw [hbody] at hfound
      cases hfound
    | some r =>
      obtain ⟨rest'', value⟩ := r
      rw [hbody] at hfound
      obtain ⟨-, rfl⟩ := Prod.mk.inj (Except.ok.inj hfound)
      have hvalue : value = service.toList := by
        have hsame : service = String.ofList value := by simpa [Asked.condition] using hfirst
        rw [hsame, String.toList_ofList]
      exact (standsForItself_of_quotedBody hslash hbody (hvalue ▸ List.suffix_rfl)).1
  · intro h
    rw [quotedBody_of_standsForItself h, Option.elim_some, String.ofList_toList] at hcondition
    refine parseTraceql_of_parseSpanSelector display htrim ?_
    rw [hbefore]
    exact (parseSpanSelector_beforeText [] hs hclose).mpr
      ⟨_, _, _, _, hcondition, hmore, hrest, rfl⟩

/-- The status that is asked for after the service. -/
theorem parseMoreConditions_statusError (n : ℕ) :
    parseMoreConditions F64 (n + 2) " && status = error \x7d".toList =
      .ok ([' ', '}'], [(.and, .status .eq .error)]) := by
  have htext : " && status = error \x7d".toList = moreText [.status .error] := by decide
  rw [htext, parseMoreConditions_moreText [.status .error] (by simp)]
  rfl

/-- A second is read as a billion nanoseconds. -/
theorem parseCondition_durationSecond [Binary64 F64] :
    parseCondition "duration > 1s \x7d".toList =
      .ok ([' ', '}'], (.duration .gt 1000000000 : SpanCondition F64)) := by
  have hparts : literalParts ['1', 's'] = some (['1'], ['s'], []) := by decide
  have hseconds : secondsOf ['1'] 1 = some 1 := by
    have hone := secondsOf_of_parseDigits (show parseDigits ['1'] = some 1 by decide) 1
      (by decide) (by decide)
    exact_mod_cast hone
  have hnanos : nanos 1 = 1000000000 := by
    have hone := nanos_natCast 1
    exact_mod_cast hone
  have hliteral : parseDurationValue F64 ((['1', 's'] ++ ' ' :: ['}']).dropWhile isMultispace) =
      .ok ([' ', '}'], 1000000000) := by
    refine (parseDurationValue_append_iff fun c hc => ?_).mpr ⟨_, _, _, hparts, rfl, ?_⟩
    · obtain rfl : '}' = c := Option.some.inj hc
      rfl
    · rw [unitFactor, hseconds, Option.map_some, hnanos]
  have htext : "duration > 1s \x7d".toList =
      "duration > ".toList ++ (['1', 's'] ++ ' ' :: ['}']) := by decide
  rw [htext, parseCondition_duration, hliteral]
  rfl

/-- The duration that is asked for after the service. -/
theorem parseMoreConditions_durationSecond [Binary64 F64] (n : ℕ) :
    parseMoreConditions F64 (n + 2) " && duration > 1s \x7d".toList =
      .ok ([' ', '}'], [(.and, .duration .gt 1000000000)]) := by
  have htext : " && duration > 1s \x7d".toList =
      " && ".toList ++ "duration > 1s \x7d".toList := by decide
  have hend : parseMoreConditions F64 (n + 1) [' ', '}'] = .ok ([' ', '}'], []) :=
    parseMoreConditions_moreText [] (Nat.succ_pos n)
  rw [htext, parseMoreConditions_and (by simp [isMultispace]), parseCondition_durationSecond]
  dsimp only
  rw [hend]
  rfl

/-- **A suggested query** asks for what it is to ask for when the name of the service stands for
itself. -/
theorem parsesTo_iff [Binary64 F64] (service : String) (suggestion : Suggestion) :
    (suggestion.query service).ParsesTo regexNew display (suggestion.expr F64 service) ↔
      standsForItself service.toList = true := by
  cases suggestion with
  | errorLogs =>
    have hlevel : IsLabelName "level" :=
      isLabelName_of_isAlphanum (by decide) (List.forall_iff_forall_mem.mp (by decide))
    exact (and_iff_right rfl).trans (parseLogql_service_iff regexNew
      (List.forall_mem_singleton.mpr hlevel) ", level=\"error\"".toList (by decide) (by decide)
      (by simp [Suggestion.query]))
  | overview =>
    exact (and_iff_right rfl).trans (parseLogql_service_iff regexNew (List.forall_mem_nil _) [] rfl
      (by decide) (by simp [Suggestion.query]))
  | spanErrors =>
    exact (and_iff_right rfl).trans (parseTraceql_service_iff display " && status = error ".toList
      (parseMoreConditions_statusError _) (by decide) (by decide) (by simp [Suggestion.query]))
  | highLatency =>
    exact (and_iff_right rfl).trans (parseTraceql_service_iff display " && duration > 1s ".toList
      (parseMoreConditions_durationSecond _) (by decide) (by decide) (by simp [Suggestion.query]))

/-! ### All of them -/

omit [Combinators Char] [Alphanumeric] in
theorem suggestions_ne_nil (hasRecentErrors : Bool) (ratio latency : F64) :
    suggestions hasRecentErrors ratio latency ≠ [] := by
  unfold suggestions
  extract_lets suggested
  by_cases hnone : suggested.isEmpty
  · rw [if_pos hnone]
    exact List.cons_ne_nil _ _
  · rw [if_neg hnone]
    exact fun hnil => hnone (List.isEmpty_iff.mpr hnil)

variable {Rodeo Spur : Type} [LinearOrder Spur] [Interner Rodeo Spur]

omit [Combinators Char] [Alphanumeric] in
/-- There is a query to go on with, of some suggestion. -/
theorem exists_diagnoseService {walks : DiagnoseWalks Spur} {s : Stores Rodeo Spur F64} {now : ℤ}
    {service : String} {qs : List SuggestedQuery}
    (h : diagnoseService walks s now service = some qs) :
    ∃ suggested : List Suggestion, suggested ≠ [] ∧
      qs = suggested.map (Suggestion.query service) := by
  obtain ⟨errors, -, h⟩ := Option.bind_eq_some_iff.mp h
  obtain ⟨latency, -, h⟩ := Option.bind_eq_some_iff.mp h
  exact ⟨_, suggestions_ne_nil _ _ _, (Option.some.inj h).symm⟩

/-- **The suggested queries are intended** exactly when the name of the service stands for itself
between quotes. -/
theorem diagnose_intended_iff [Binary64 F64] {walks : DiagnoseWalks Spur}
    {s : Stores Rodeo Spur F64} {now : ℤ} {service : String} {qs : List SuggestedQuery}
    (h : diagnose walks s now (some service) = some qs) :
    (∀ q ∈ qs, IsIntended F64 regexNew display service q) ↔
      standsForItself service.toList = true := by
  rw [diagnose] at h
  split_ifs at h with hempty
  · obtain rfl := Option.some.inj h
    obtain rfl : service = "" := String.isEmpty_iff.mp hempty
    exact iff_of_true (List.forall_mem_nil _) rfl
  · obtain ⟨suggested, hne, rfl⟩ := exists_diagnoseService h
    obtain ⟨first, more, rfl⟩ := List.exists_cons_of_ne_nil hne
    simp only [List.forall_mem_map, isIntended_query_iff, parsesTo_iff]
    exact ⟨fun hall => hall first List.mem_cons_self, fun hself _ _ => hself⟩

end ReadBack

/-- In empty stores, there is nothing to suggest for a service but an overview. -/
theorem diagnose_new (walks : DiagnoseWalks ℕ) {service : String} (h : service.isEmpty = false) :
    diagnose walks (⟨.new, .new, .new⟩ : Stores VecRodeo ℕ Double) 0 (some service) =
      some [Suggestion.overview.query service] := by
  have hsuggested : suggestions false (Float64.zero : Double) Float64.zero = [.overview] := by
    decide +kernel
  rw [diagnose, if_neg (by simp [h])]
  show some ((suggestions false (Float64.zero : Double) Float64.zero).map _) = _
  rw [hsuggested]
  rfl

/-- A failed span of two seconds. -/
def failedSpan (serviceName : ℕ) : Span ℕ Double where
  traceId := Vector.replicate 16 1
  spanId := Vector.replicate 8 1
  parentSpanId := none
  name := serviceName
  serviceName := serviceName
  startTimeNs := 0
  durationNs := 2000000000
  status := .error
  statusMessage := none
  kind := .internal
  attributes := []
  events := []
  links := []
  ingestSeq := 0

/-- A service that logs an error and has a slow, failed span. -/
def troubledStores : Stores VecRodeo ℕ Double where
  logStore := LogStore.new.ingestStream [("service", "api"), ("level", "error")]
    [⟨0, "boom", 0, none, none, 0, none, []⟩]
  metricStore := .new
  traceStore := (TraceStore.new.intern "api").ingestSpans [failedSpan 0]

/-- The walks of a diagnosis of the troubled service, the traces in any order. -/
def troubledWalks (traces : IterOrder TraceId) : DiagnoseWalks ℕ :=
  ⟨fun _ => none, .ascending ℕ, .ascending ℕ, traces⟩

/-- In the stores of a troubled service there is something to suggest of each kind. -/
theorem diagnose_troubled (traces : IterOrder TraceId) :
    diagnose (troubledWalks traces) troubledStores 0 (some "api") =
      some ([Suggestion.errorLogs, .spanErrors, .highLatency].map (Suggestion.query "api")) := by
  have hids : troubledStores.traceStore.tracesForService traces "api" = [Vector.replicate 16 1] :=
    traces.order_singleton _
  have herrors : (recentErrors (fun _ => none) (.ascending ℕ) (.ascending ℕ)
      troubledStores.logStore "api" 0).map List.isEmpty = some false := by
    decide +kernel
  have hratio : FloatOps.lt (Float64.zero : Double)
      (spanErrorRatio traces troubledStores.traceStore "api") = true := by
    rw [spanErrorRatio, hids]
    decide +kernel
  have hlatency : (latencyP99Ms traces troubledStores.traceStore "api").map
      (FloatOps.lt (Float64.ofI64 1000)) = some true := by
    rw [latencyP99Ms, hids]
    decide +kernel
  obtain ⟨errors, herrors, hsome⟩ := Option.map_eq_some_iff.mp herrors
  obtain ⟨latency, hlatency, hslow⟩ := Option.map_eq_some_iff.mp hlatency
  show (do
    let errors ← recentErrors (fun _ => none) (.ascending ℕ) (.ascending ℕ)
      troubledStores.logStore "api" 0
    let latency ← latencyP99Ms traces troubledStores.traceStore "api"
    return (suggestions (!errors.isEmpty)
      (spanErrorRatio traces troubledStores.traceStore "api") latency).map
        (Suggestion.query "api")) = _
  rw [herrors, hlatency]
  simp [suggestions, List.isEmpty_eq_false_iff.mp hsome, hratio, hslow]

/-- The suggested queries of a troubled service with a plain name. -/
theorem diagnose_intended_api :
    let _ : Combinators Char := Combinators.ofLists
    let _ : Alphanumeric := Alphanumeric.ascii
    let suggested := [Suggestion.errorLogs, .spanErrors, .highLatency].map (Suggestion.query "api")
    ∀ traces : IterOrder TraceId,
      diagnose (troubledWalks traces) troubledStores 0 (some "api") = some suggested ∧
        ∀ q ∈ suggested, IsIntended Double (fun _ => none) (fun _ => "") "api" q := by
  intro _ _ suggested traces
  have htroubled : diagnose (troubledWalks traces) troubledStores 0 (some "api") = some suggested :=
    diagnose_troubled traces
  exact ⟨htroubled, (diagnose_intended_iff _ _ htroubled).mpr rfl⟩

/-- **A name with a quote** ends early in the overview of its service: what is asked for is another
service, and there is a matcher more. -/
theorem not_diagnose_intended :
    let _ : Combinators Char := Combinators.ofLists
    let _ : Alphanumeric := Alphanumeric.ascii
    let service := "web\", env=\"prod"
    ∀ walks : DiagnoseWalks ℕ, ∃ q,
      diagnose walks (⟨.new, .new, .new⟩ : Stores VecRodeo ℕ Double) 0 (some service) = some [q] ∧
        parseLogql (fun _ => none) q.query = some (.ok (.streamSelector
          (eqMatchers [("service", "web"), ("env", "prod")]) : LogQLExpr Double)) ∧
        ¬ IsIntended Double (fun _ => none) (fun _ => "") service q := by
  intro _ _ service walks
  have hnames : ∀ m ∈ [("service", "web"), ("env", "prod")], IsLabelName m.1 := by
    refine List.forall_mem_cons.mpr ⟨?_, List.forall_mem_singleton.mpr ?_⟩ <;>
      exact isLabelName_of_isAlphanum (by decide) (List.forall_iff_forall_mem.mp (by decide))
  refine ⟨_, diagnose_new walks (by decide), ?_, ?_⟩
  · exact parseLogql_selectorText _ [("service", "web"), ("env", "prod")] (by simp) hnames
  · rw [isIntended_query_iff, parsesTo_iff]
    decide

end Api

end Aniani
