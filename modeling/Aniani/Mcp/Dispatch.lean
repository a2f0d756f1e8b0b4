import Aniani.Mcp.Schema
import Aniani.Mcp.Tools

/-!
# One request

A request carries one message. Guards look at its headers, its body is read, and the method of the
message decides what answers it. Only the call of a tool takes locks, and what comes of it depends
on what its handler finds under each of them.

What may answer a request is said apart from how the answer is found: by the message its body is,
and, for a call of a tool, by the arguments the tool declares and by the states its handler saw.

## Main definitions

* `HttpRequest`, `Response`, `RpcResponse`
* `mcpPost` — what is done for a request, lock by lock
* `AsksReset`, `RespondsTo`, `Drops` — what a request asks for, what may answer it, what loses it

## Main results

* `respondsTo_of_reaches`, `drops_of_reaches` — what is done for a request ends as it may
* `asks_of_asksReset`, `asks_of_not_asksReset` — only a reset removes anything, and removes it all
* `called_iff_meets_listed` — what is listed of a tool is what it takes
-/

namespace Aniani

namespace Mcp

open Combinator (Combinators Err)

variable {Rodeo Spur F64 : Type}

/-! ### Requests and responses -/

/-- The methods a request to the endpoint may have. -/
inductive HttpMethod where
  | post | get | delete | other
  deriving DecidableEq

/-- A request, with the two headers that are looked at. -/
structure HttpRequest where
  method : HttpMethod
  origin : Option (List UInt8)
  protocolVersion : Option (List UInt8)
  body : List UInt8

/-- `PARSE_ERROR`. -/
def parseError : ℤ := -32700

/-- `INVALID_REQUEST`. -/
def invalidRequest : ℤ := -32600

/-- `METHOD_NOT_FOUND`. -/
def methodNotFound : ℤ := -32601

/-- `INVALID_PARAMS`. -/
def invalidParams : ℤ := -32602

/-- `INSTRUCTIONS`. -/
def instructions : String :=
  "Aniani is your local observability instrument for the dev loop. Recommended flow:\n" ++
  "1. reset(scope=all) for a clean baseline before a run.\n" ++
  "2. Run your code/tests. Telemetry export may lag a moment — if a summary looks empty, wait " ++
  "briefly and retry.\n" ++
  "3. summarize_activity(service) to see what the run produced: error logs, failing/slow " ++
  "traces, error metrics, health score.\n" ++
  "4. Drill in: describe_service(service) to learn queryable labels/metrics, then query_logs / " ++
  "query_traces / query_metrics / get_trace.\n" ++
  "5. To compare iterations without wiping, call mark_checkpoint() before a run and pass the " ++
  "returned token as `since` to summarize_activity.\n" ++
  "Use check_health() when you don't yet know which service is in trouble, and list_services() " ++
  "to see what is reporting. summarize_activity/describe_service return an error listing known " ++
  "services if you name one that has produced no telemetry."

/-- The result of `initialize`. -/
structure Initialized where
  protocolVersion : String
  /-- What the server can do: the keys of `capabilities`. -/
  capabilities : List String
  serverName : String
  serverVersion : String
  instructions : String

/-- `initialize`. -/
def initializeResult (params : Value F64) : Initialized where
  protocolVersion := negotiate params
  capabilities := ["tools"]
  serverName := "aniani"
  serverVersion := "0.13.2"
  instructions := instructions

/-- The result of a request. -/
inductive RpcResult (F64 : Type) where
  | initialized (result : Initialized)
  | pong
  | listed (tools : List (Descriptor F64))
  | called (result : ToolResult F64)

/-- A JSON-RPC response: `success` or `error`. -/
inductive RpcResponse (F64 : Type) where
  | success (id : Value F64) (result : RpcResult F64)
  | error (id : Value F64) (code : ℤ) (message : String)

/-- The response to a request. -/
inductive Response (F64 : Type) where
  | status (code : ℕ)
  | refused (code : ℕ) (text : String)
  | json (response : RpcResponse F64)

/-- What is done for a request. It ends in its response, or in none where the handler panics: then
the connection is dropped. -/
abbrev Serving (Rodeo Spur F64 : Type) := Handling Rodeo Spur F64 (Option (Response F64))

/-- The most bytes a body may have. -/
def bodyLimit : ℕ := 1024 * 1024

section Serve

variable [LinearOrder Spur] [Interner Rodeo Spur] [FloatOps F64] [Combinators Char] [Alphanumeric]
  [SerdeJson F64] (read : List UInt8 → Option (Document F64)) (out : Outside Spur F64)

/-- A response that is given at once. -/
def respond (response : Response F64) : Serving Rodeo Spur F64 := .done (some response)

/-- The response to a call is what its tool answers. -/
def answerCall (id : Value F64) (handling : Handling Rodeo Spur F64 (Option (ToolResult F64))) :
    Serving Rodeo Spur F64 :=
  handling.bind fun result => .done (result.map fun result => .json (.success id (.called result)))

/-- `dispatch` of a request with an id. -/
def dispatchRequest (id : Value F64) (method : String) (params : Value F64) :
    Serving Rodeo Spur F64 :=
  match method with
  | "initialize" => respond (.json (.success id (.initialized (initializeResult params))))
  | "ping" => respond (.json (.success id .pong))
  | "tools/list" => respond (.json (.success id (.listed (list Rodeo Spur F64))))
  | "tools/call" =>
    match call Rodeo out params with
    | .error message => respond (.json (.error id invalidParams message))
    | .ok handling => answerCall id handling
  | _ => respond (.json (.error id methodNotFound "method not found"))

/-- `dispatch`: a notification is accepted, and that is all. -/
def dispatch (req : JsonRpcRequest F64) : Serving Rodeo Spur F64 :=
  match req.id with
  | none => respond (.status 202)
  | some id => dispatchRequest out id req.method req.params

omit [FloatOps F64] in
/-- The answer to a body that is no message. -/
def rejectBody (body : List UInt8) : RpcResponse F64 :=
  if (read body).any Document.isValue then
    .error .null invalidRequest
      "batching/invalid request is not supported; send a single JSON-RPC message"
  else .error .null parseError "parse error"

/-- `mcp_post`, `mcp_get` and `mcp_delete`, behind the limit on the body. -/
def mcpPost (req : HttpRequest) : Serving Rodeo Spur F64 :=
  if req.method ≠ .post then respond (.status 405)
  else if bodyLimit < req.body.length then respond (.status 413)
  else if !checkOrigin req.origin then respond (.refused 403 "origin not allowed")
  else if !checkProtocolVersion req.protocolVersion then
    respond (.refused 400 "unsupported MCP-Protocol-Version")
  else
    match (read req.body).bind Document.deserialize with
    | some msg => dispatch out msg
    | none => respond (.json (rejectBody read req.body))

end Serve

/-! ### What a request asks for -/

section Spec

variable (read : List UInt8 → Option (Document F64)) (req : HttpRequest)

/-- A request whose body is read. -/
structure HttpRequest.Admitted : Prop where
  method : req.method = .post
  size : req.body.length ≤ bodyLimit
  origin : checkOrigin req.origin = true
  protocolVersion : checkProtocolVersion req.protocolVersion = true

/-- A request that is admitted and carries a message. -/
structure HttpRequest.Carries (msg : JsonRpcRequest F64) : Prop where
  admitted : req.Admitted
  body : ∃ doc, read req.body = some doc ∧ doc.Says msg

/-- A message that is a call of a tool of some name, with some arguments. -/
structure JsonRpcRequest.Calls (msg : JsonRpcRequest F64) (id : Value F64) (name : String)
    (given : JsonObject F64) : Prop where
  id : msg.id = some id
  method : msg.method = "tools/call"
  name : msg.params.get "name" = some (.string name)
  arguments : argumentsOf msg.params = .ok given

/-- The arguments of a reset say what to clear. -/
def JsonObject.SaysScope (given : JsonObject F64) : ResetScope → Prop
  | .all => given.get "scope" = some (.string "all")
  | .service name => given.get "scope" = some (.string "service") ∧
      given.get "service" = some (.string name) ∧ name ≠ ""

/-- **A request asks for a reset.** -/
def AsksReset (id : Value F64) (scope : ResetScope) : Prop :=
  ∃ msg given, req.Carries read msg ∧ msg.Calls id "reset" given ∧
    Conforms resetArgs.fields given ∧ given.SaysScope scope

end Spec

section Spec

variable [LinearOrder Spur] [Interner Rodeo Spur] [FloatOps F64] [Combinators Char] [Alphanumeric]
  (read : List UInt8 → Option (Document F64)) (out : Outside Spur F64)

/-- The handler of a tool, given these arguments, comes to its end: it has seen the stores in these
states, one under each lock, and has had this removed. -/
structure Tool.Handles (tool : Tool Rodeo Spur F64) (given : JsonObject F64)
    (seen : List (AppState Rodeo Spur F64)) (asked : List (StoreKind × Removal))
    (result : Option (ToolResult F64)) : Prop where
  mem : tool ∈ tools
  reaches : ∃ parsed, (∀ key, parsed.read key = given.get key) ∧
    (tool.handler out parsed).Reaches seen asked (.done result)

/-- **What may answer a request with an id**, by its method. Only a call that is run sees the
stores. -/
inductive Answers (id : Value F64) (params : Value F64) :
    String → List (AppState Rodeo Spur F64) → List (StoreKind × Removal) → Response F64 → Prop
  | initialized : Answers id params "initialize" [] []
      (.json (.success id (.initialized (initializeResult params))))
  | ping : Answers id params "ping" [] [] (.json (.success id .pong))
  | list : Answers id params "tools/list" [] []
      (.json (.success id (.listed (list Rodeo Spur F64))))
  | unknown {method : String}
      (h : method ∉ ["initialize", "ping", "tools/list", "tools/call"]) :
      Answers id params method [] [] (.json (.error id methodNotFound "method not found"))
  | noName (h : ∀ name, params.get "name" ≠ some (.string name)) :
      Answers id params "tools/call" [] [] (.json (.error id invalidParams "missing tool name"))
  | noArguments {name message : String} (hname : params.get "name" = some (.string name))
      (h : argumentsOf params = .error message) :
      Answers id params "tools/call" [] [] (.json (.error id invalidParams message))
  | noTool {name : String} {given : JsonObject F64}
      (hname : params.get "name" = some (.string name))
      (hgiven : argumentsOf params = .ok given)
      (h : ∀ tool ∈ (tools : List (Tool Rodeo Spur F64)), tool.name ≠ name) :
      Answers id params "tools/call" [] [] (.json (.error id invalidParams "unknown tool"))
  | badArguments {tool : Tool Rodeo Spur F64} {given : JsonObject F64} {message : String}
      (htool : tool ∈ tools) (hname : params.get "name" = some (.string tool.name))
      (hgiven : argumentsOf params = .ok given) (h : ¬ Conforms tool.args.fields given)
      (hmessage : problem out.display tool.name tool.args.schema given = some message) :
      Answers id params "tools/call" [] [] (.json (.success id (.called (.err message))))
  | called {tool : Tool Rodeo Spur F64} {given : JsonObject F64} {result : ToolResult F64}
      {seen : List (AppState Rodeo Spur F64)} {asked : List (StoreKind × Removal)}
      (hname : params.get "name" = some (.string tool.name))
      (hgiven : argumentsOf params = .ok given)
      (h : tool.Handles out given seen asked (some result)) :
      Answers id params "tools/call" seen asked (.json (.success id (.called result)))

/-- **What may answer a request**, once so much was seen of the stores and so much removed for
it. -/
inductive RespondsTo (req : HttpRequest) :
    List (AppState Rodeo Spur F64) → List (StoreKind × Removal) → Response F64 → Prop
  | wrongMethod (h : req.method ≠ .post) : RespondsTo req [] [] (.status 405)
  | tooLarge (h : req.method = .post) (hsize : bodyLimit < req.body.length) :
      RespondsTo req [] [] (.status 413)
  | foreign (h : req.method = .post) (hsize : req.body.length ≤ bodyLimit)
      (horigin : checkOrigin req.origin = false) :
      RespondsTo req [] [] (.refused 403 "origin not allowed")
  | unsupported (h : req.method = .post) (hsize : req.body.length ≤ bodyLimit)
      (horigin : checkOrigin req.origin = true)
      (hversion : checkProtocolVersion req.protocolVersion = false) :
      RespondsTo req [] [] (.refused 400 "unsupported MCP-Protocol-Version")
  | noJson (h : req.Admitted) (hjson : ∀ doc ∈ read req.body, doc.isValue = false)
      (hmsg : ∀ msg, ¬ req.Carries read msg) :
      RespondsTo req [] [] (.json (.error .null parseError "parse error"))
  | noMessage {doc : Document F64} (h : req.Admitted) (hdoc : read req.body = some doc)
      (hjson : doc.isValue = true) (hmsg : ∀ msg, ¬ req.Carries read msg) :
      RespondsTo req [] [] (.json (.error .null invalidRequest
        "batching/invalid request is not supported; send a single JSON-RPC message"))
  | notification {msg : JsonRpcRequest F64} (h : req.Carries read msg) (hid : msg.id = none) :
      RespondsTo req [] [] (.status 202)
  | request {msg : JsonRpcRequest F64} {id : Value F64} {response : Response F64}
      {seen : List (AppState Rodeo Spur F64)} {asked : List (StoreKind × Removal)}
      (h : req.Carries read msg) (hid : msg.id = some id)
      (hresponse : Answers out id msg.params msg.method seen asked response) :
      RespondsTo req seen asked response

/-- **What loses a request**: it is the call of a tool whose handler panics on what it saw. -/
def Drops (req : HttpRequest) (seen : List (AppState Rodeo Spur F64))
    (asked : List (StoreKind × Removal)) : Prop :=
  ∃ msg id, ∃ tool : Tool Rodeo Spur F64, ∃ given, req.Carries read msg ∧
    msg.Calls id tool.name given ∧ tool.Handles out given seen asked none

end Spec

/-! ### What is removed -/

section Reset

theorem asks_answering {handling : Handling Rodeo Spur F64 (ToolResult F64)}
    {es : List (StoreKind × Removal)} (h : handling.Asks es) : (answering handling).Asks es :=
  List.append_nil es ▸ h.bind fun _ => rfl

theorem asks_answerCall {id : Value F64}
    {handling : Handling Rodeo Spur F64 (Option (ToolResult F64))}
    {es : List (StoreKind × Removal)} (h : handling.Asks es) : (answerCall id handling).Asks es :=
  List.append_nil es ▸ h.bind fun _ => rfl

theorem asks_clearStores (scope : ResetScope) :
    (clearStores scope : Handling Rodeo Spur F64 (ToolResult F64)).Asks scope.plan := by
  simp [clearStores, ResetScope.plan]

/-- What the struct of a reset says to clear. -/
theorem saysScope_iff {parsed : Struct resetArgs.fields} {given : JsonObject F64}
    (hparsed : ∀ key, parsed.read key = given.get key) (scope : ResetScope) :
    given.SaysScope scope ↔ match scope with
      | .all => parsed.1.1 = "all"
      | .service name => parsed.1.1 = "service" ∧ parsed.2.1 = some name ∧ name ≠ "" := by
  obtain ⟨text, service, _⟩ := parsed
  have hread : ∀ service : Option String, (Struct.read "service" resetArgs.fields
      (text, service, ()) : Option (JsonValue F64)) = service.map .string := by
    rintro (_ | name) <;> rfl
  have hscope : given.get "scope" = some (.string text.1) := (hparsed "scope").symm
  have hservice := (hparsed "service").symm.trans (hread service)
  cases scope with
  | all => simp [JsonObject.SaysScope, hscope]
  | service name =>
    have hsome : ∀ service : Option String,
        service.map (JsonValue.string : String → JsonValue F64) = some (.string name) ↔
          service = some name := by
      rintro (_ | text) <;> simp
    have hname := hservice ▸ hsome service
    have htext : some (JsonValue.string text.1 : JsonValue F64) = some (.string "service") ↔
        text.1 = "service" := by simp
    rw [JsonObject.SaysScope, hscope, hname, htext]
    exact Iff.rfl

variable {parsed : Struct resetArgs.fields} {given : JsonObject F64}

/-- A reset that says what to clear has all of it removed. -/
theorem asks_handleReset (hparsed : ∀ key, parsed.read key = given.get key) {scope : ResetScope}
    (h : given.SaysScope scope) :
    (handleReset parsed.1 parsed.2.1 : Handling Rodeo Spur F64 (ToolResult F64)).Asks
      scope.plan := by
  have hsays := (saysScope_iff hparsed scope).mp h
  obtain ⟨text, service, _⟩ := parsed
  cases scope with
  | all =>
    unfold handleReset
    rw [if_pos hsays]
    exact asks_clearStores _
  | service name =>
    obtain ⟨htext, rfl, hname⟩ := hsays
    have hne : ¬ text.1 = "all" := fun hall => absurd (htext.symm.trans hall) (by decide)
    unfold handleReset
    rw [if_neg hne, Option.filter_some, if_pos (decide_eq_true hname)]
    exact asks_clearStores _

/-- And one that does not has nothing removed. -/
theorem asks_handleReset_nil (hparsed : ∀ key, parsed.read key = given.get key)
    (h : ∀ scope, ¬ given.SaysScope scope) :
    (handleReset parsed.1 parsed.2.1 : Handling Rodeo Spur F64 (ToolResult F64)).Asks [] := by
  have hsays := fun scope => mt (saysScope_iff hparsed scope).mpr (h scope)
  obtain ⟨⟨text, hmem⟩, service, _⟩ := parsed
  have hall : ¬ text = "all" := hsays .all
  obtain rfl : text = "service" := by simpa [resetScopes, hall] using hmem
  have hnone : service.filter (fun s => s ≠ "") = none := by
    refine Option.filter_eq_none_iff.mpr fun name hname => ?_
    simpa using fun hne => hsays (.service name) ⟨rfl, hname, hne⟩
  unfold handleReset
  rw [if_neg hall, hnone]
  rfl

end Reset

section Reads

theorem asks_handleMarkCheckpoint :
    (handleMarkCheckpoint : Handling Rodeo Spur F64 _).Asks [] := fun _ => rfl

variable [LinearOrder Spur] [Interner Rodeo Spur] (out : Outside Spur F64)

theorem asks_handleListServices :
    (handleListServices out : Handling Rodeo Spur F64 _).Asks [] := fun _ _ _ => rfl

theorem asks_requireKnownService (service : String) :
    (requireKnownService out service : Handling Rodeo Spur F64 _).Asks [] := by
  unfold requireKnownService
  split
  · rfl
  · simp

theorem asks_handleDescribeService (service : String) :
    (handleDescribeService out service : Handling Rodeo Spur F64 _).Asks [] := by
  refine (asks_requireKnownService out service).bind_nil fun refusal => ?_
  cases refusal with
  | some message => rfl
  | none => simp

variable [FloatOps F64]

theorem asks_handleCheckHealth :
    (handleCheckHealth out : Handling Rodeo Spur F64 _).Asks [] := fun _ _ _ => rfl

theorem asks_handleQueryMetrics (args : QueryMetricsArgs) :
    (handleQueryMetrics out args : Handling Rodeo Spur F64 _).Asks [] := fun _ => rfl

theorem asks_handleSummarizeActivity (service : String) (since : Option ℕ) (detailed : Bool) :
    (handleSummarizeActivity out service since detailed : Handling Rodeo Spur F64 _).Asks [] := by
  refine (asks_requireKnownService out service).bind_nil fun refusal => ?_
  cases refusal with
  | some message => rfl
  | none => simp

omit [LinearOrder Spur] in
theorem asks_handleGetTrace (hex : String) (detailed : Bool) :
    (handleGetTrace hex detailed : Handling Rodeo Spur F64 _).Asks [] := by
  unfold handleGetTrace
  split
  · rfl
  · simp only [Steps.bind_eq_bind, readTraces_bind, Steps.asks_look]
    intro s
    split <;> rfl

variable [Combinators Char] [Alphanumeric]

theorem asks_queryLogsTool (args : QueryLogsArgs) :
    (queryLogsTool out args : Handling Rodeo Spur F64 _).Asks [] := fun _ => rfl

theorem asks_handleQueryTraces (args : QueryTracesArgs) :
    (handleQueryTraces out args : Handling Rodeo Spur F64 _).Asks [] := by
  unfold handleQueryTraces
  split
  · rfl
  · rfl
  · simp

end Reads

/-! ### The table -/

/-- What is found by a key that no two elements share. -/
theorem find?_eq_some_iff_of_nodup {α κ : Type*} [DecidableEq κ] {key : α → κ} {l : List α}
    (h : (l.map key).Nodup) {k : κ} {a : α} :
    (l.find? fun a => key a = k) = some a ↔ a ∈ l ∧ key a = k := by
  constructor
  · intro hfind
    exact ⟨List.mem_of_find?_eq_some hfind, by simpa using List.find?_some hfind⟩
  · rintro ⟨ha, rfl⟩
    obtain ⟨b, hb⟩ : ∃ b, (l.find? fun b => key b = key a) = some b :=
      Option.isSome_iff_exists.mp (List.find?_isSome.mpr ⟨a, ha, decide_eq_true rfl⟩)
    have hkey : key b = key a := by simpa using List.find?_some hb
    rw [hb, List.inj_on_of_nodup_map h (List.mem_of_find?_eq_some hb) ha hkey]

section Table

variable [LinearOrder Spur] [Interner Rodeo Spur] [FloatOps F64] [Combinators Char] [Alphanumeric]

variable (Rodeo Spur F64) in
/-- No two tools share a name. -/
theorem nodup_map_name_tools : ((tools : List (Tool Rodeo Spur F64)).map Tool.name).Nodup := by
  show ["reset", "mark_checkpoint", "summarize_activity", "check_health", "query_logs",
    "query_traces", "query_metrics", "get_trace", "list_services", "describe_service"].Nodup
  decide

variable (Rodeo Spur F64) in
theorem exists_resetTool : ∃ tool ∈ (tools : List (Tool Rodeo Spur F64)),
    tool.name = "reset" ∧ tool.args = resetArgs :=
  ⟨_, List.mem_cons_self, rfl, rfl⟩

theorem args_eq_of_name_eq {tool : Tool Rodeo Spur F64} (htool : tool ∈ tools)
    (hname : tool.name = "reset") : tool.args = resetArgs := by
  obtain ⟨tool', htool', hname', hargs⟩ := exists_resetTool Rodeo Spur F64
  obtain rfl := List.inj_on_of_nodup_map (nodup_map_name_tools Rodeo Spur F64) htool htool'
    (hname.trans hname'.symm)
  exact hargs

/-- A tool and its arguments go by one name. -/
theorem args_tool_eq_name {tool : Tool Rodeo Spur F64} (htool : tool ∈ tools) :
    tool.args.tool = tool.name := by
  simp only [tools, List.mem_cons, List.not_mem_nil, or_false] at htool
  obtain rfl | rfl | rfl | rfl | rfl | rfl | rfl | rfl | rfl | rfl := htool <;> rfl

variable (out : Outside Spur F64)

/-- **Only a reset has anything removed**, and it has removed what its arguments say. -/
theorem asks_handler {tool : Tool Rodeo Spur F64} (htool : tool ∈ tools)
    {parsed : Struct tool.args.fields} {given : JsonObject F64}
    (hparsed : ∀ key, parsed.read key = given.get key) :
    (∀ scope, tool.name = "reset" → given.SaysScope scope →
        (tool.handler out parsed).Asks scope.plan) ∧
      ((tool.name = "reset" → ∀ scope, ¬ given.SaysScope scope) →
        (tool.handler out parsed).Asks []) := by
  have hother : ∀ (name : String) {handling : Handling Rodeo Spur F64 (Option (ToolResult F64))},
      name ≠ "reset" → handling.Asks [] →
        (∀ scope, name = "reset" → given.SaysScope scope → handling.Asks scope.plan) ∧
          ((name = "reset" → ∀ scope, ¬ given.SaysScope scope) → handling.Asks []) :=
    fun name _ hname h => ⟨fun _ heq => absurd heq hname, fun _ => h⟩
  simp only [tools, List.mem_cons, List.not_mem_nil, or_false] at htool
  obtain rfl | rfl | rfl | rfl | rfl | rfl | rfl | rfl | rfl | rfl := htool
  · exact ⟨fun scope _ h => asks_answering (asks_handleReset hparsed h),
      fun h => asks_answering (asks_handleReset_nil hparsed (h rfl))⟩
  · exact hother "mark_checkpoint" (by decide) (asks_answering asks_handleMarkCheckpoint)
  · exact hother "summarize_activity" (by decide) (asks_handleSummarizeActivity out _ _ _)
  · exact hother "check_health" (by decide) (asks_answering (asks_handleCheckHealth out))
  · exact hother "query_logs" (by decide) (asks_queryLogsTool out _)
  · exact hother "query_traces" (by decide) (asks_handleQueryTraces out _)
  · exact hother "query_metrics" (by decide) (asks_handleQueryMetrics out _)
  · exact hother "get_trace" (by decide) (asks_answering (asks_handleGetTrace _ _))
  · exact hother "list_services" (by decide) (asks_answering (asks_handleListServices out))
  · exact hother "describe_service" (by decide) (asks_answering (asks_handleDescribeService out _))

variable [SerdeJson F64]

omit [LinearOrder Spur] [Interner Rodeo Spur] [Combinators Char] [Alphanumeric] in
/-- A tool is given the arguments that conform. -/
theorem withArgs_of_conforms {tool : Tool Rodeo Spur F64} {given : JsonObject F64}
    (h : Conforms tool.args.fields given) :
    ∃ parsed, (∀ key, parsed.read key = given.get key) ∧
      withArgs out tool given = tool.handler out parsed := by
  obtain ⟨parsed, hparsed, hread⟩ := fromValue_of_conforms tool.args.nodup h
  refine ⟨parsed, hread, ?_⟩
  rw [withArgs, parse, (problem_eq_none_iff out.display tool.args given).mpr h, hparsed]
  rfl

/-- And it is not given others. -/
theorem withArgs_of_not_conforms {tool : Tool Rodeo Spur F64} (htool : tool ∈ tools)
    {given : JsonObject F64} (h : ¬ Conforms tool.args.fields given) :
    ∃ message, problem out.display tool.name tool.args.schema given = some message ∧
      withArgs out tool given = .done (some (.err message)) := by
  obtain ⟨message, hmessage⟩ := Option.ne_none_iff_exists'.mp
    (mt (problem_eq_none_iff out.display tool.args given).mp h)
  refine ⟨message, args_tool_eq_name htool ▸ hmessage, ?_⟩
  rw [withArgs, parse, hmessage]
  rfl

/-! ### One request -/

/-- What a call of a tool that is there does. -/
theorem call_of_mem {params : Value F64} {tool : Tool Rodeo Spur F64} {given : JsonObject F64}
    (htool : tool ∈ tools) (hname : params.get "name" = some (.string tool.name))
    (hgiven : argumentsOf params = .ok given) :
    call Rodeo out params = .ok (withArgs out tool given) := by
  have hfind := (find?_eq_some_iff_of_nodup (nodup_map_name_tools Rodeo Spur F64)).mpr
    ⟨htool, rfl⟩
  have hstr : (params.get "name").bind Value.asStr = some tool.name := by
    rw [hname]
    rfl
  simp only [call, hstr, hgiven, Except.bind, hfind]

variable (Rodeo) in
/-- The ways a call goes. -/
theorem call_cases (params : Value F64) :
    (∀ name, params.get "name" ≠ some (.string name)) ∧
        call Rodeo out params = .error "missing tool name" ∨
      ∃ name, params.get "name" = some (.string name) ∧
        ((∃ message, argumentsOf params = .error message ∧
            call Rodeo out params = .error message) ∨
          ∃ given, argumentsOf params = .ok given ∧
            ((∀ tool ∈ (tools : List (Tool Rodeo Spur F64)), tool.name ≠ name) ∧
                call Rodeo out params = .error "unknown tool" ∨
              ∃ tool ∈ (tools : List (Tool Rodeo Spur F64)), tool.name = name ∧
                call Rodeo out params = .ok (withArgs out tool given))) := by
  cases hstr : (params.get "name").bind Value.asStr with
  | none =>
    refine .inl ⟨fun name hname => ?_, by simp only [call, hstr]⟩
    rw [hname] at hstr
    exact absurd hstr nofun
  | some name =>
    obtain ⟨v, hv, hstr'⟩ := Option.bind_eq_some_iff.mp hstr
    have hname := hv.trans (congrArg some (Value.asStr_eq_some_iff.mp hstr'))
    refine .inr ⟨name, hname, ?_⟩
    cases hgiven : argumentsOf params with
    | error message =>
      exact .inl ⟨message, rfl, by simp only [call, hstr, hgiven, Except.bind]⟩
    | ok given =>
      refine .inr ⟨given, rfl, ?_⟩
      by_cases htool : ∃ tool ∈ (tools : List (Tool Rodeo Spur F64)), tool.name = name
      · obtain ⟨tool, htool, rfl⟩ := htool
        exact .inr ⟨tool, htool, rfl, call_of_mem out htool hname hgiven⟩
      · have hne : ∀ tool ∈ (tools : List (Tool Rodeo Spur F64)), tool.name ≠ name :=
          fun tool hmem heq => htool ⟨tool, hmem, heq⟩
        have hfind : (tools : List (Tool Rodeo Spur F64)).find? (fun tool => tool.name = name) =
            none := List.find?_eq_none.mpr fun tool hmem => by simpa using hne tool hmem
        exact .inl ⟨hne, by simp only [call, hstr, hgiven, Except.bind, hfind]⟩

omit [LinearOrder Spur] [Interner Rodeo Spur] [FloatOps F64] [Combinators Char] [Alphanumeric]
  [SerdeJson F64] in
/-- What is done for a call ends where the handler does. -/
theorem reaches_answerCall {handling : Handling Rodeo Spur F64 (Option (ToolResult F64))}
    {id : Value F64} {seen : List (AppState Rodeo Spur F64)} {asked : List (StoreKind × Removal)}
    {response : Option (Response F64)}
    (h : (answerCall id handling).Reaches seen asked (.done response)) :
    ∃ result, handling.Reaches seen asked (.done result) ∧
      response = result.map fun result => .json (.success id (.called result)) :=
  Steps.reaches_bind_done h

variable (Rodeo) in
/-- **What comes of a request with an id**: it is answered at once as it may be, or it is the call
of a tool that is there, with arguments it takes. -/
theorem dispatchRequest_cases (id : Value F64) (method : String) (params : Value F64) :
    (∃ response : Response F64, dispatchRequest out id method params =
          (respond response : Serving Rodeo Spur F64) ∧
        Answers out id params method ([] : List (AppState Rodeo Spur F64)) [] response) ∨
      method = "tools/call" ∧ ∃ tool ∈ (tools : List (Tool Rodeo Spur F64)), ∃ given,
        params.get "name" = some (.string tool.name) ∧ argumentsOf params = .ok given ∧
          Conforms tool.args.fields given ∧
            dispatchRequest out id method params = answerCall id (withArgs out tool given) := by
  unfold dispatchRequest
  split
  · exact .inl ⟨_, rfl, .initialized⟩
  · exact .inl ⟨_, rfl, .ping⟩
  · exact .inl ⟨_, rfl, .list⟩
  · rcases call_cases Rodeo out params with ⟨hno, hcall⟩ | ⟨name, hname, hrest⟩
    · rw [hcall]
      exact .inl ⟨_, rfl, .noName hno⟩
    rcases hrest with ⟨message, hargs, hcall⟩ |
      ⟨given, hgiven, ⟨hno, hcall⟩ | ⟨tool, htool, rfl, hcall⟩⟩
    · rw [hcall]
      exact .inl ⟨_, rfl, .noArguments hname hargs⟩
    · rw [hcall]
      exact .inl ⟨_, rfl, .noTool hname hgiven hno⟩
    · rw [hcall]
      by_cases hconforms : Conforms tool.args.fields given
      · exact .inr ⟨rfl, tool, htool, given, hname, hgiven, hconforms, rfl⟩
      · obtain ⟨message, hmessage, hwith⟩ := withArgs_of_not_conforms out htool hconforms
        rw [hwith]
        exact .inl ⟨_, rfl, .badArguments htool hname hgiven hconforms hmessage⟩
  · next h1 h2 h3 h4 =>
    exact .inl ⟨_, rfl, .unknown (by simpa using ⟨h1, h2, h3, h4⟩)⟩

/-! ### The endpoint -/

variable {out} {read : List UInt8 → Option (Document F64)} {req : HttpRequest}

theorem mcpPost_of_admitted (h : req.Admitted) :
    (mcpPost read out req : Serving Rodeo Spur F64) =
      match (read req.body).bind Document.deserialize with
      | some msg => dispatch out msg
      | none => respond (.json (rejectBody read req.body)) := by
  rw [mcpPost, if_neg (not_not.mpr h.method), if_neg (not_lt.mpr h.size), h.origin,
    h.protocolVersion]
  rfl

omit [LinearOrder Spur] [Interner Rodeo Spur] [FloatOps F64] [Combinators Char] [Alphanumeric]
  [SerdeJson F64] in
theorem bind_deserialize_eq_some_iff {body : List UInt8} {msg : JsonRpcRequest F64} :
    (read body).bind Document.deserialize = some msg ↔
      ∃ doc, read body = some doc ∧ doc.Says msg := by
  simp only [Option.bind_eq_some_iff, deserialize_eq_some_iff]

omit [LinearOrder Spur] [Interner Rodeo Spur] [FloatOps F64] [Combinators Char] [Alphanumeric]
  [SerdeJson F64] in
/-- A request carries one message. -/
theorem HttpRequest.Carries.unique {msg msg' : JsonRpcRequest F64} (h : req.Carries read msg)
    (h' : req.Carries read msg') : msg = msg' :=
  Option.some.inj ((bind_deserialize_eq_some_iff.mpr h.body).symm.trans
    (bind_deserialize_eq_some_iff.mpr h'.body))

theorem mcpPost_of_carries {msg : JsonRpcRequest F64} (h : req.Carries read msg) :
    (mcpPost read out req : Serving Rodeo Spur F64) = dispatch out msg := by
  rw [mcpPost_of_admitted h.admitted, bind_deserialize_eq_some_iff.mpr h.body]

variable (Rodeo) in
/-- **What comes of a request**: it is answered at once as it may be, or it carries the call of a
tool that is there, with arguments it takes. -/
theorem mcpPost_cases (read : List UInt8 → Option (Document F64)) (out : Outside Spur F64)
    (req : HttpRequest) :
    (∃ response : Response F64, mcpPost read out req =
          (respond response : Serving Rodeo Spur F64) ∧
        RespondsTo read out req ([] : List (AppState Rodeo Spur F64)) [] response) ∨
      ∃ msg id, req.Carries read msg ∧ ∃ tool ∈ (tools : List (Tool Rodeo Spur F64)), ∃ given,
        msg.Calls id tool.name given ∧ Conforms tool.args.fields given ∧
          mcpPost read out req = answerCall id (withArgs out tool given) := by
  by_cases hmethod : req.method = .post
  swap
  · rw [mcpPost, if_pos hmethod]
    exact .inl ⟨_, rfl, .wrongMethod hmethod⟩
  by_cases hsize : bodyLimit < req.body.length
  · rw [mcpPost, if_neg (not_not.mpr hmethod), if_pos hsize]
    exact .inl ⟨_, rfl, .tooLarge hmethod hsize⟩
  cases horigin : checkOrigin req.origin with
  | false =>
    rw [mcpPost, if_neg (not_not.mpr hmethod), if_neg hsize, horigin]
    exact .inl ⟨_, rfl, .foreign hmethod (not_lt.mp hsize) horigin⟩
  | true =>
    cases hversion : checkProtocolVersion req.protocolVersion with
    | false =>
      rw [mcpPost, if_neg (not_not.mpr hmethod), if_neg hsize, horigin, hversion]
      exact .inl ⟨_, rfl, .unsupported hmethod (not_lt.mp hsize) horigin hversion⟩
    | true =>
      have hadmitted : req.Admitted := ⟨hmethod, not_lt.mp hsize, horigin, hversion⟩
      rw [mcpPost_of_admitted hadmitted]
      cases hread : (read req.body).bind Document.deserialize with
      | some msg =>
        have hcarries : req.Carries read msg := ⟨hadmitted, bind_deserialize_eq_some_iff.mp hread⟩
        cases hid : msg.id with
        | none =>
          simp only [dispatch, hid]
          exact .inl ⟨_, rfl, .notification hcarries hid⟩
        | some id =>
          simp only [dispatch, hid]
          rcases dispatchRequest_cases Rodeo out id msg.method msg.params with
            ⟨response, heq, hanswers⟩ | ⟨hcall, tool, htool, given, hname, hgiven, hrest⟩
          · exact .inl ⟨response, heq, .request hcarries hid hanswers⟩
          · exact .inr ⟨msg, id, hcarries, tool, htool, given, ⟨hid, hcall, hname, hgiven⟩, hrest⟩
      | none =>
        have hmsg : ∀ msg, ¬ req.Carries read msg := fun msg hcarries =>
          absurd (hread.symm.trans (bind_deserialize_eq_some_iff.mpr hcarries.body)) nofun
        refine .inl ⟨_, rfl, ?_⟩
        rw [rejectBody]
        cases hdoc : read req.body with
        | none =>
          refine .noJson hadmitted (fun doc hmem => ?_) hmsg
          rw [hdoc] at hmem
          exact absurd hmem nofun
        | some doc =>
          cases hjson : doc.isValue with
          | true =>
            rw [if_pos (by simp [hjson])]
            exact .noMessage hadmitted hdoc hjson hmsg
          | false =>
            rw [if_neg (by simp [hjson])]
            refine .noJson hadmitted (fun doc' hmem => ?_) hmsg
            rw [hdoc] at hmem
            exact Option.some.inj hmem ▸ hjson

section Ends

variable {seen : List (AppState Rodeo Spur F64)} {asked : List (StoreKind × Removal)}

/-- **A response** is one that may be given, with what was seen and removed for it. -/
theorem respondsTo_of_reaches {response : Response F64}
    (h : (mcpPost read out req).Reaches seen asked (.done (some response))) :
    RespondsTo read out req seen asked response := by
  rcases mcpPost_cases Rodeo read out req with
    ⟨response', heq, hresponds⟩ |
    ⟨msg, id, hcarries, tool, htool, given, hcalls, hconforms, heq⟩
  · rw [heq] at h
    obtain ⟨rfl, rfl, hdone⟩ := Steps.reaches_done h
    obtain rfl := Option.some.inj (Steps.done.inj hdone)
    exact hresponds
  · rw [heq] at h
    obtain ⟨result, hreaches, hresult⟩ := reaches_answerCall h
    obtain ⟨parsed, hparsed, hwith⟩ := withArgs_of_conforms out hconforms
    cases result with
    | none => exact absurd hresult nofun
    | some result =>
      obtain rfl := Option.some.inj hresult
      exact .request hcarries hcalls.id (hcalls.method ▸ .called hcalls.name hcalls.arguments
        ⟨htool, parsed, hparsed, hwith ▸ hreaches⟩)

/-- **A request that is lost** is one whose handler panicked. -/
theorem drops_of_reaches (h : (mcpPost read out req).Reaches seen asked (.done none)) :
    Drops read out req seen asked := by
  rcases mcpPost_cases Rodeo read out req with
    ⟨response', heq, -⟩ | ⟨msg, id, hcarries, tool, htool, given, hcalls, hconforms, heq⟩
  · rw [heq] at h
    obtain ⟨-, -, hdone⟩ := Steps.reaches_done h
    exact absurd (Steps.done.inj hdone) nofun
  · rw [heq] at h
    obtain ⟨result, hreaches, hresult⟩ := reaches_answerCall h
    obtain ⟨parsed, hparsed, hwith⟩ := withArgs_of_conforms out hconforms
    cases result with
    | none =>
      exact ⟨msg, id, tool, given, hcarries, hcalls, htool, parsed, hparsed, hwith ▸ hreaches⟩
    | some result => exact absurd hresult nofun

end Ends

/-- **A request that asks for a reset** has all of it removed, in order. -/
theorem asks_of_asksReset {id : Value F64} {scope : ResetScope} (h : AsksReset read req id scope) :
    (mcpPost read out req : Serving Rodeo Spur F64).Asks scope.plan := by
  obtain ⟨msg, given, hcarries, hcalls, hconforms, hscope⟩ := h
  obtain ⟨tool, htool, hreset, hargs⟩ := exists_resetTool Rodeo Spur F64
  obtain ⟨parsed, hparsed, hwith⟩ := withArgs_of_conforms out
    (hargs ▸ hconforms : Conforms tool.args.fields given)
  have hcall := call_of_mem out htool (hreset ▸ hcalls.name) hcalls.arguments
  have hpost : (mcpPost read out req : Serving Rodeo Spur F64) =
      answerCall id (tool.handler out parsed) := by
    rw [mcpPost_of_carries hcarries, ← hwith]
    simp only [dispatch, hcalls.id, dispatchRequest, hcalls.method, hcall]
  rw [hpost]
  exact asks_answerCall ((asks_handler out htool hparsed).1 scope hreset hscope)

/-- **A request that does not** has nothing removed. -/
theorem asks_of_not_asksReset (h : ∀ id scope, ¬ AsksReset read req id scope) :
    (mcpPost read out req : Serving Rodeo Spur F64).Asks [] := by
  rcases mcpPost_cases Rodeo read out req with
    ⟨response', heq, -⟩ | ⟨msg, id, hcarries, tool, htool, given, hcalls, hconforms, heq⟩
  · rw [heq]
    rfl
  · obtain ⟨parsed, hparsed, hwith⟩ := withArgs_of_conforms out hconforms
    rw [heq, hwith]
    refine asks_answerCall ((asks_handler out htool hparsed).2 fun hreset scope hscope => ?_)
    have hargs := args_eq_of_name_eq htool hreset ▸ hconforms
    exact h id scope ⟨msg, given, hcarries, hreset ▸ hcalls, hargs, hscope⟩

omit [LinearOrder Spur] [Interner Rodeo Spur] [FloatOps F64] [Combinators Char] [Alphanumeric]
  [SerdeJson F64] in
theorem areEntries_of_argumentsOf {params : Value F64} {given : JsonObject F64}
    (h : argumentsOf params = .ok given) : JsonValue.AreEntries given.entries := by
  cases harguments : (params.get "arguments").bind Value.deserializeOption with
  | none =>
    simp only [argumentsOf, harguments] at h
    obtain rfl := Except.ok.inj h
    exact trivial
  | some v =>
    simp only [argumentsOf, harguments] at h
    obtain ⟨v, hv⟩ := v
    cases v with
    | object entries =>
      obtain rfl := Except.ok.inj h
      exact hv.2
    | _ => exact absurd h nofun

omit [SerdeJson F64] in
/-- What is listed of a tool is what the table says of it. -/
theorem exists_tool_of_listed {descriptor : Descriptor F64}
    (h : descriptor ∈ list Rodeo Spur F64) : ∃ tool ∈ (tools : List (Tool Rodeo Spur F64)),
      tool.name = descriptor.name ∧ tool.args.schema = descriptor.inputSchema := by
  obtain ⟨tool, htool, rfl⟩ := List.mem_map.mp h
  exact ⟨tool, htool, rfl, rfl⟩

/-- **What is listed of a tool is what it takes**: a call is run, and given the arguments that were
sent, exactly if they meet the schema that is listed and no integer is written as a float;
else its answer says what is wrong with them, and nothing is seen or removed. -/
theorem called_iff_meets_listed (R : F64 → Option ℚ) {descriptor : Descriptor F64}
    (hlisted : descriptor ∈ list Rodeo Spur F64) {params : Value F64} {given : JsonObject F64}
    (hname : params.get "name" = some (.string descriptor.name))
    (hgiven : argumentsOf params = .ok given) :
    let described := Meets R descriptor.inputSchema (.object given.entries) ∧
      WritesIntegers descriptor.inputSchema given
    (described → ∃ tool ∈ (tools : List (Tool Rodeo Spur F64)), tool.name = descriptor.name ∧
        ∃ parsed, (∀ key, parsed.read key = given.get key) ∧
          call Rodeo out params = .ok (tool.handler out parsed)) ∧
      (¬ described → ∃ message,
        problem out.display descriptor.name descriptor.inputSchema given = some message ∧
          call Rodeo out params = .ok (.done (some (.err message)))) := by
  intro described
  obtain ⟨tool, htool, hsame, hschema⟩ := exists_tool_of_listed hlisted
  have hconforms : Conforms tool.args.fields given ↔ described := by
    rw [conforms_iff_meets (R := R) tool.args given (areEntries_of_argumentsOf hgiven), hschema]
  have hcall := call_of_mem out htool (hsame ▸ hname) hgiven
  refine ⟨fun h => ⟨tool, htool, hsame, ?_⟩, fun h => ?_⟩
  · obtain ⟨parsed, hparsed, hwith⟩ := withArgs_of_conforms out (hconforms.mpr h)
    exact ⟨parsed, hparsed, hwith ▸ hcall⟩
  · obtain ⟨message, hmessage, hwith⟩ := withArgs_of_not_conforms out htool (mt hconforms.mp h)
    rw [hsame, hschema] at hmessage
    exact ⟨message, hmessage, hwith ▸ hcall⟩

end Table

/-! ### A call -/

section DescribeService

/-- An outside that matches and parses nothing. -/
noncomputable def someOutside : Outside ℕ ℤ where
  display _ := ""
  displayErr _ := ""
  rounded := toString
  plain := toString
  parsePromql _ := .error ""
  regexNew _ := none
  regexCaptures _ := none
  logqlRegex _ := none
  json := ⟨fun _ => none, fun _ => ""⟩
  debugStr := id
  heap := .binary LogQL.HeapItem.key
  clock := 0
  streams := .ascending ℕ
  streamValues := .ascending ℕ
  series := .ascending ℕ
  seriesValues := .ascending ℕ
  traces := someActivityWalks.traces
  known := .ascending ℕ
  activity := someActivityWalks
  health := someHealthWalks
  listing := ⟨.ascending ℕ, .ascending String⟩
  describe := Server.someDescribeWalks

/-- The arguments of a call of `describe_service`, and the parameters of the call. -/
def serviceArgument : JsonObject ℤ := ⟨[("service", .string "api")], List.nodup_singleton _⟩

def describeParams (given : JsonObject ℤ) (h : JsonValue.AreEntries given.entries) : Value ℤ :=
  ⟨.object [("name", .string "describe_service"), ("arguments", .object given.entries)],
    (by decide : ["name", "arguments"].Nodup), trivial, ⟨given.nodup, h⟩, trivial⟩

theorem conforms_serviceArgument : Conforms describeServiceArgs.fields serviceArgument := by
  refine ⟨fun key value h => ?_, fun f hf value h => ?_, fun f hf _ => ?_⟩
  · refine ⟨_, List.mem_singleton_self _, ?_⟩
    by_contra hne
    have hnone : serviceArgument.get key = none := by
      rw [JsonObject.get, serviceArgument, List.lookup_cons, beq_false_of_ne (Ne.symm hne)]
      rfl
    exact absurd (hnone.symm.trans h) nofun
  · obtain rfl := List.mem_singleton.mp hf
    obtain rfl := Option.some.inj h
    exact .string "api"
  · obtain rfl := List.mem_singleton.mp hf
    rfl

theorem called_iff_meets_listed_describeService :
    let _ : Combinators Char := Combinators.ofLists
    let _ : Alphanumeric := Alphanumeric.ascii
    (∃ tool ∈ (tools : List (Tool VecRodeo ℕ ℤ)), tool.name = "describe_service" ∧
      ∃ parsed, parsed.read "service" = some (.string "api" : JsonValue ℤ) ∧
        call VecRodeo someOutside (describeParams serviceArgument (by trivial)) =
          .ok (tool.handler someOutside parsed)) ∧
      call VecRodeo someOutside (describeParams ⟨[], List.nodup_nil⟩ trivial) =
        .ok (.done (some (.err
          "missing required argument `service` — describe_service requires: service"))) := by
  intro _ _
  let R : ℤ → Option ℚ := fun i => some i
  obtain ⟨listed, hlisted, hname, hschema⟩ : ∃ descriptor ∈ list VecRodeo ℕ ℤ,
      descriptor.name = "describe_service" ∧ descriptor.inputSchema = describeServiceArgs.schema :=
    ⟨_, List.mem_of_getElem? (i := 9) rfl, rfl, rfl⟩
  have hmeets := fun given hentries =>
    hschema ▸ conforms_iff_meets (R := R) describeServiceArgs given hentries
  have hcalls : ∀ given h, (describeParams given h).get "name" = some (.string listed.name) :=
    fun _ _ => hname ▸ rfl
  have hgivens : ∀ given h, argumentsOf (describeParams given h) = .ok given := fun _ _ => rfl
  constructor
  · obtain ⟨tool, htool, hsame, parsed, hparsed, hcall⟩ :=
      (called_iff_meets_listed R hlisted (hcalls _ _) (hgivens serviceArgument (by trivial))).1
        ((hmeets serviceArgument (by trivial)).mp conforms_serviceArgument)
    exact ⟨tool, htool, hsame.trans hname, parsed, hparsed "service", hcall⟩
  · have hnot : ¬ Conforms describeServiceArgs.fields (⟨[], List.nodup_nil⟩ : JsonObject ℤ) :=
      fun h => absurd (h.required _ List.mem_cons_self rfl) nofun
    obtain ⟨message, hmessage, hcall⟩ :=
      (called_iff_meets_listed R hlisted (hcalls _ _) (hgivens ⟨[], List.nodup_nil⟩ trivial)).2
        (mt (hmeets ⟨[], List.nodup_nil⟩ trivial).mpr hnot)
    have hproblem : problem someOutside.display "describe_service"
        (describeServiceArgs.schema : JsonValue ℤ) ⟨[], List.nodup_nil⟩ = some
          "missing required argument `service` — describe_service requires: service" := by
      decide +kernel
    rw [hname, hschema] at hmessage
    obtain rfl := Option.some.inj (hmessage.symm.trans hproblem)
    exact hcall

end DescribeService

end Mcp

end Aniani
