import KakuneCore.Encoding.Json
import KakuneCore.Process.Monitor
import KakuneCore.Runtime.Errors

/-!
# Provider calls

`call_model` sends one request of an AI node to the node's provider: it reads the provider profile,
reserves the requested tokens, hands the request to a worker thread and records the answer. What the
process asks of its surroundings is a `ProviderOp`; the provider's answer is arbitrary, and so are
the failures of the store. The texts of the errors are the source's.

`callMonitor` follows the calls of a node: how many requests were sent and tools executed so far,
and whether tokens have been reserved since the last request. The main result,
`sendsOnce_callModel`: a model call sends **at most one request, with tokens reserved for it**,
executes no tool and does not panic.
-/

namespace KakuneCore

/-! ### Messages -/

inductive MessageRole
  | user | assistant
  deriving DecidableEq, Repr

inductive MessageContent
  | text (text : String)
  | blocks (blocks : List Value)
  deriving DecidableEq, Repr

structure Message where
  role : MessageRole
  content : MessageContent
  deriving DecidableEq, Repr

/-- `MessagesRequest`, without the fields `new` leaves empty. -/
structure MessagesRequest where
  model : String
  maxTokens : Nat
  messages : List Message
  tools : Option (List Value)
  toolChoice : Option Value
  deriving DecidableEq, Repr

structure Usage where
  inputTokens : Option Nat
  outputTokens : Option Nat
  totalTokens : Option Nat
  cacheCreationInputTokens : Option Nat
  cacheReadInputTokens : Option Nat
  deriving DecidableEq, Repr

structure MessagesResponse where
  id : Option String
  model : Option String
  role : Option MessageRole
  content : List Value
  stopReason : Option String
  usage : Option Usage
  raw : Value
  deriving DecidableEq, Repr

structure CodexOAuthTokens where
  refresh : String
  access : String
  expiresAtMs : Nat
  accountId : Option String
  deriving DecidableEq, Repr

structure CodexUsage where
  inputTokens : Option Nat
  cachedInputTokens : Option Nat
  outputTokens : Option Nat
  deriving DecidableEq, Repr

structure CodexTaskResult where
  text : String
  usage : Option CodexUsage
  raw : Value
  refreshedTokens : Option CodexOAuthTokens
  deriving DecidableEq, Repr

/-- `minimax_user_messages`. -/
def minimaxUserMessages (prompt : String) : List Message :=
  [{ role := .user, content := .text prompt }]

/-- A `u64` that may be absent. -/
def optionalNumber : Option Nat → Value
  | none => .null
  | some n => .number (.int n)

/-- `response_usage`. -/
def responseUsage (response : MessagesResponse) : Option Value :=
  response.usage.map fun usage =>
    .object [("cacheCreationInputTokens", optionalNumber usage.cacheCreationInputTokens),
      ("cacheReadInputTokens", optionalNumber usage.cacheReadInputTokens),
      ("inputTokens", optionalNumber usage.inputTokens),
      ("outputTokens", optionalNumber usage.outputTokens),
      ("totalTokens", optionalNumber usage.totalTokens)]

/-! ### Profiles -/

inductive ProviderType
  | miniMax | codex
  deriving DecidableEq, Repr

/-- The name `{:?}` prints. -/
def ProviderType.debug : ProviderType → String
  | miniMax => "MiniMax"
  | codex => "Codex"

inductive ProviderAuth
  | apiKeySecret (secretRef : String)
  | oauthSecret (secretRef : String)
  deriving DecidableEq, Repr

inductive ProviderProfileStatus
  | unknown | available | unavailable
  deriving DecidableEq, Repr

structure ProviderProfileDiagnostic where
  status : ProviderProfileStatus
  message : Option String
  deriving DecidableEq, Repr

/-- The fields of a provider profile that the provider nodes read. -/
structure ProviderProfile where
  id : String
  providerType : ProviderType
  allowedModels : List String
  auth : ProviderAuth
  config : Value
  diagnostic : ProviderProfileDiagnostic
  deriving DecidableEq, Repr

/-- A profile as it is looked up by its id. -/
abbrev StoredProfile (id : String) : Type := { profile : ProviderProfile // profile.id = id }

structure ProviderInvocation where
  nodeId : String
  provider : String
  modelRequested : String
  modelReported : Option String
  usage : Option Value
  raw : Value
  spanId : String
  deriving DecidableEq, Repr

/-! ### MCP tools -/

inductive McpToolContent
  | text (text : String)
  | image (data mimeType : String)
  | audio (data mimeType : String)
  | resourceLink (uri name : String) (description mimeType : Option String) (size : Option Nat)
  | embeddedTextResource (uri : String) (mimeType : Option String) (text : String)
  | embeddedBlobResource (uri : String) (mimeType : Option String) (blob : String)
  deriving DecidableEq, Repr

structure McpToolCallResult where
  content : List McpToolContent
  structuredContent : Option Value
  isError : Bool
  deriving DecidableEq, Repr

/-- The server a client connects to. -/
inductive McpServer
  | stdio (command : String) (args : List String) (env : StrMap String)
  | http (endpoint : String) (bearerToken : Option String)
  deriving DecidableEq, Repr

/-! ### Operations -/

/-- What a worker thread came to: how often the control was checked before it answered, whether its
`join` succeeds, and what it sent. -/
structure WorkerReport (α : Type) where
  polls : Nat
  joined : Bool
  reply : Option (Except String α)

/-- What an AI node asks of its surroundings. -/
inductive ProviderOp
  /-- `RunControl::check`. -/
  | check
  | getProviderProfile (profileId : String)
  | resolveSecret (secretRef : String)
  | setSecret (secretRef secret : String)
  | reserveProviderTokens (provider : String) (tokens : Nat) (budget : Option Nat)
  | startTraceSpan (kind name : String) (nodeId : Option String) (attributes : Value)
  | finishTraceSpan (span : String) (status : SpanStatus) (error : Option String)
  | recordProviderInvocation (invocation : ProviderInvocation)
  /-- The worker thread of a MiniMax request. -/
  | sendMiniMax (subscriptionKey : String) (baseUrl : Option String) (request : MessagesRequest)
  /-- The worker thread of a Codex request. -/
  | sendCodex (model : String) (timeoutSeconds : Nat) (tokens : CodexOAuthTokens) (request : Value)
  /-- A ghost operation: an echo tool is executed. -/
  | echo (tool input : Value)
  /-- The runtime of an MCP worker thread is built. -/
  | startMcpRuntime
  /-- An MCP tool is connected to and called; no answer means that the thread panicked. The tool
  itself is not sent. -/
  | callMcpTool (tool : Value) (server : McpServer) (remoteName : String)
      (arguments : StrMap Value)

/-- The answers. A fallible callee answers with its error text. -/
abbrev ProviderResp : ProviderOp → Type
  | .getProviderProfile profileId => Except String (Option (StoredProfile profileId))
  | .resolveSecret _ | .startTraceSpan _ _ _ _ => Except String String
  | .check | .setSecret _ _ | .reserveProviderTokens _ _ _ | .finishTraceSpan _ _ _
  | .recordProviderInvocation _ | .startMcpRuntime => Except String Unit
  | .sendMiniMax _ _ _ => WorkerReport MessagesResponse
  | .sendCodex _ _ _ _ => WorkerReport CodexTaskResult
  | .echo _ _ => Unit
  | .callMcpTool _ _ _ _ => Option (Except String McpToolCallResult)

/-- An event of an AI node. -/
abbrev ProviderEvent : Type := Event ProviderOp ProviderResp

/-- The code of an AI node: a process that may fail. -/
abbrev ProviderM : Type → Type 1 := Fallible ProviderOp ProviderResp RunError

/-- Issue an operation and read its answer. -/
def perform {α : Type} (o : ProviderOp) (read : ProviderResp o → Except RunError α) : ProviderM α :=
  ExceptT.mk (Proc.op o fun answer => .ret (read answer))

/-- A value or an error that is there already. -/
def settle {α : Type} (result : Except RunError α) : ProviderM α := ExceptT.mk (.ret result)

/-- Fail with a text of the node. -/
def refuse {α : Type} (text : String) : ProviderM α := throw (.node text)

/-- The value of an option, or a text of the node. -/
def required {α : Type} (value : Option α) (text : String) : ProviderM α :=
  match value with
  | some a => pure a
  | none => refuse text

namespace ProviderM

def check : ProviderM Unit := perform .check ofAnswer

def resolveSecret (secretRef : String) : ProviderM String :=
  perform (.resolveSecret secretRef) ofAnswer

end ProviderM

/-- The libraries the provider nodes call: `serde_json` and `jsonschema`. -/
structure ProviderLibrary where
  json : Json.Library
  /-- `serde_json::to_string`, and `to_string` of a `Value`. -/
  toText : Value → String
  /-- The text of the error `serde_json::from_str` ends with. -/
  readError : String → String
  tokensFromSecret : String → Except String CodexOAuthTokens
  tokensToSecret : CodexOAuthTokens → Except String String
  /-- The text of the error of `jsonschema::validator_for`. -/
  validatorError : Value → Option String
  /-- The text of the first of the errors of a value. -/
  firstError : Value → Value → Option String

/-- `serde_json::from_str`. -/
def ProviderLibrary.readText (library : ProviderLibrary) (text : String) : Option Value :=
  library.json.readValue (Utf8.encode text.toList)

/-- The parts of `ExecutionContext` that the provider nodes read. -/
structure ProviderContext where
  scope : String
  aiBudgetTokens : Option Nat

/-- Indexing a value with a text, which is `null` where nothing is stored. -/
def Value.index (value : Value) (key : String) : Value := (value.get? key).getD .null

/-! ### The Codex adapter -/

namespace CodexAdapter

def roleText : MessageRole → String
  | .user => "user"
  | .assistant => "assistant"

def blocks : MessageContent → List Value
  | .text text => [.object [("text", .string text), ("type", .string "text")]]
  | .blocks blocks => blocks

/-- The input item of a message block. -/
def inputItem (library : ProviderLibrary) (role : MessageRole) (block : Value) :
    Except RunError Value :=
  match (block.index "type").asStr with
  | some "text" =>
    .ok (.object [("content", block.index "text"), ("role", .string (roleText role))])
  | some "tool_use" =>
    .ok (.object [("arguments", .string (library.toText (block.index "input"))),
      ("call_id", block.index "id"), ("name", block.index "name"),
      ("type", .string "function_call")])
  | some "tool_result" =>
    let content := block.index "content"
    .ok (.object [("call_id", block.index "tool_use_id"),
      ("output", .string (content.asStr.getD (library.toText content))),
      ("type", .string "function_call_output")])
  | some "codex_item" => .ok (block.index "item")
  | _ => .error (.node "unsupported message block for Codex")

def requestTool (tool : Value) : Value :=
  .object [("description", tool.index "description"), ("name", tool.index "name"),
    ("parameters", tool.index "input_schema"), ("strict", .bool false),
    ("type", .string "function")]

def requestChoice (choice : Value) : Except RunError Value :=
  match (choice.index "type").asStr with
  | some "tool" =>
    .ok (.object [("name", choice.index "name"), ("type", .string "function")])
  | some "any" => .ok (.string "required")
  | some "auto" => .ok (.string "auto")
  | _ => .error (.node "unsupported Codex tool choice")

/-- `codex_adapter::request`. -/
def request (library : ProviderLibrary) (messages : List Message) (tools : Option (List Value))
    (choice : Option Value) : Except RunError Value := do
  let input ← (messages.flatMap fun message => (blocks message.content).map (message.role, ·)).mapM
    fun block => inputItem library block.1 block.2
  let fields : StrMap Value := match tools with
    | some tools => [("input", .array input), ("tools", .array (tools.map requestTool))]
    | none => [("input", .array input)]
  match choice with
  | some choice => do
    let choice ← requestChoice choice
    .ok (.object (StrMap.insert fields "tool_choice" choice))
  | none => .ok (.object fields)

/-- The content blocks of an item of the provider's output. -/
def outputBlocks (library : ProviderLibrary) (item : Value) : Except RunError (List Value) :=
  match (item.index "type").asStr with
  | some "function_call" =>
    match (item.index "arguments").asStr with
    | none => .error (.node "missing function arguments")
    | some arguments =>
      match library.readText arguments with
      | none => .error (.node "invalid function arguments")
      | some input =>
        .ok [.object [("id", item.index "call_id"), ("input", input), ("name", item.index "name"),
          ("type", .string "tool_use")]]
  | some "message" =>
    match (item.index "content").asArray with
    | none => .error (.node "missing message content")
    | some blocks =>
      .ok ((blocks.filter fun block => block.index "type" = .string "output_text").map fun block =>
        .object [("text", block.index "text"), ("type", .string "text")])
  | some "reasoning" => .ok [.object [("item", item), ("type", .string "codex_item")]]
  | _ => .ok []

def rawUsage (value : Value) : Usage where
  inputTokens := (value.index "input_tokens").asU64
  outputTokens := (value.index "output_tokens").asU64
  totalTokens := (value.index "total_tokens").asU64
  cacheCreationInputTokens := none
  cacheReadInputTokens := ((value.index "input_tokens_details").index "cached_tokens").asU64

/-- `codex_adapter::response`. -/
def response (library : ProviderLibrary) (raw : Value) : Except RunError MessagesResponse :=
  match (raw.index "output").asArray with
  | none => .error (.node "Codex response omitted output")
  | some items => do
    let content ← items.mapM (outputBlocks library)
    .ok
      { id := (raw.index "id").asStr
        model := (raw.index "model").asStr
        role := some .assistant
        content := content.flatten
        stopReason := none
        usage := (raw.get? "usage").map rawUsage
        raw }

end CodexAdapter

/-! ### The node's profile -/

/-- `selected_model`. -/
def selectedModel (node : WorkflowNode) : Except RunError String :=
  match ((node.config.get? "model").bind Value.asStr).filter fun model => !blank model with
  | some model => .ok model
  | none => .error (.node s!"node {node.id} requires a non-empty with.model")

/-- The checks `profile_for_node` makes of a profile it has found. -/
def usableProfile (node : WorkflowNode) (expected : ProviderType) (profile : ProviderProfile) :
    Except RunError Unit :=
  if profile.providerType ≠ expected then
    .error (.node (s!"provider profile {profile.id} has type {profile.providerType.debug}, " ++
      s!"which cannot execute {node.nodeType}"))
  else do
    let model ← selectedModel node
    if model ∉ profile.allowedModels then
      .error (.node s!"model {model} is not permitted by provider profile {profile.id}")
    else if profile.diagnostic.status = .unavailable then
      .error (.node (s!"provider profile {profile.id} is unavailable: " ++
        profile.diagnostic.message.getD
          "run provider diagnose after correcting its configuration"))
    else .ok ()

/-- `profile_for_node`: the profile of the id the node names. -/
def profileForNode (node : WorkflowNode) (expected : ProviderType) :
    ProviderM ((id : String) × StoredProfile id) := do
  let profileId ← required
    (((node.config.get? "provider").bind Value.asStr).filter fun provider => !blank provider)
    s!"node {node.id} requires a non-empty with.provider"
  let found ← perform (.getProviderProfile profileId) ofAnswer
  let profile ← required found s!"provider profile {profileId} was not found"
  settle (usableProfile node expected profile.1)
  pure ⟨profileId, profile⟩

/-! ### Worker threads -/

/-- The receive loop: a check that fails cancels the worker and joins it. -/
def pollWorker (name : String) (joined : Bool) : Nat → ProviderM Unit
  | 0 => pure ()
  | polls + 1 => do
    match ← (ExceptT.lift ProviderM.check.run : ProviderM (Except RunError Unit)) with
    | .ok () => pollWorker name joined polls
    | .error error =>
      if joined then throw error else refuse s!"{name} worker panicked"

/-- Wait for the answer of a worker. -/
def awaitReply {α : Type} (name : String) (report : WorkerReport α) : ProviderM α := do
  pollWorker name report.joined report.polls
  if report.joined then
    match report.reply with
    | some reply => settle (ofAnswer reply)
    | none => refuse s!"{name} worker ended without a response"
  else refuse s!"{name} worker panicked"

/-- Start the span of a provider request. -/
def startProviderSpan (ctx : ProviderContext) (node : WorkflowNode) (name provider model : String) :
    ProviderM String :=
  perform (.startTraceSpan "provider" name (some (scopedNodeId ctx.scope node.id))
    (.object [("modelRequested", .string model), ("providerId", .string provider)])) ofAnswer

/-! ### Codex -/

/-- The usage a Codex answer reports. -/
def codexUsage (usage : CodexUsage) : Value :=
  .object [("cachedInputTokens", optionalNumber usage.cachedInputTokens),
    ("inputTokens", optionalNumber usage.inputTokens),
    ("outputTokens", optionalNumber usage.outputTokens)]

/-- Store the tokens the worker refreshed. -/
def storeRefreshed (library : ProviderLibrary) (secretRef : String) :
    Option CodexOAuthTokens → ProviderM Unit
  | none => pure ()
  | some tokens => do
    let secret ← settle (ofAnswer (library.tokensToSecret tokens))
    perform (.setSecret secretRef secret) ofAnswer

/-- `call_codex`. -/
def callCodex (library : ProviderLibrary) (ctx : ProviderContext) (node : WorkflowNode)
    (request : Value) : ProviderM NodeResult := do
  let ⟨_, profile⟩ ← profileForNode node .codex
  let timeoutSeconds := ((profile.1.config.get? "timeoutSeconds").bind Value.asU64).getD 300
  if timeoutSeconds = 0 ∨ 3600 < timeoutSeconds then
    refuse "Codex timeoutSeconds must be from 1 to 3600"
  else
    match profile.1.auth with
    | .apiKeySecret _ => refuse "Codex profiles require a ChatGPT OAuth secret reference"
    | .oauthSecret secretRef => do
      let secret ← ProviderM.resolveSecret secretRef
      let tokens ← settle (ofAnswer (library.tokensFromSecret secret))
      let model ← settle (selectedModel node)
      let span ← startProviderSpan ctx node "codex" profile.1.id model
      let report ← perform (.sendCodex model timeoutSeconds tokens request) .ok
      let result ← awaitReply "Codex" report
      storeRefreshed library secretRef result.refreshedTokens
      ProviderM.check
      let usage := (result.usage.map codexUsage).toList
      perform (.recordProviderInvocation
        { nodeId := scopedNodeId ctx.scope node.id
          provider := profile.1.id
          modelRequested := model
          modelReported := (result.raw.get? "model").bind Value.asStr
          usage := if usage = [] then none else some (.array usage)
          raw := result.raw
          spanId := span }) ofAnswer
      perform (.finishTraceSpan span .succeeded none) ofAnswer
      pure
        { route := "success"
          outputs := [("events", result.raw), ("modelRequested", .string model),
            ("output", .string result.text), ("provider", .string profile.1.id),
            ("usage", .array usage)]
          message := some "Codex task completed" }

/-! ### Model calls -/

/-- The branch of `call_model` for a Codex profile. -/
def callCodexModel (library : ProviderLibrary) (ctx : ProviderContext) (inputs : StrMap Value)
    (node : WorkflowNode) (profileId : String) (messages : List Message)
    (tools : Option (List Value)) (toolChoice : Option Value) : ProviderM MessagesResponse := do
  let maxTokens ← settle (inputU64 inputs "maxTokens")
  perform (.reserveProviderTokens profileId maxTokens ctx.aiBudgetTokens) ofAnswer
  let request ← settle (CodexAdapter.request library messages tools toolChoice)
  let result ← callCodex library ctx node request
  let events ← required (result.outputs.get? "events") "Codex response missing"
  settle (CodexAdapter.response library events)

/-- The branch of `call_model` for every other profile. -/
def callMiniMax (ctx : ProviderContext) (inputs : StrMap Value) (node : WorkflowNode)
    (messages : List Message) (tools : Option (List Value)) (toolChoice : Option Value) :
    ProviderM MessagesResponse := do
  ProviderM.check
  let ⟨_, profile⟩ ← profileForNode node .miniMax
  match profile.1.auth with
  | .oauthSecret _ => refuse "MiniMax profiles require an API-key secret reference"
  | .apiKeySecret secretRef => do
    let subscriptionKey ← ProviderM.resolveSecret secretRef
    let model ← settle (selectedModel node)
    let maxTokens ← settle (inputU64 inputs "maxTokens")
    if 2 ^ 32 ≤ maxTokens then
      refuse "input maxTokens must fit in an unsigned 32-bit integer"
    else do
      perform (.reserveProviderTokens profile.1.id maxTokens ctx.aiBudgetTokens) ofAnswer
      let baseUrl := (profile.1.config.get? "baseUrl").bind Value.asStr
      let span ← startProviderSpan ctx node "minimax" profile.1.id model
      let report ← perform (.sendMiniMax subscriptionKey baseUrl
        { model, maxTokens, messages, tools, toolChoice }) .ok
      let response ← awaitReply "MiniMax" report
      ProviderM.check
      perform (.recordProviderInvocation
        { nodeId := scopedNodeId ctx.scope node.id
          provider := profile.1.id
          modelRequested := model
          modelReported := response.model
          usage := responseUsage response
          raw := response.raw
          spanId := span }) ofAnswer
      perform (.finishTraceSpan span .succeeded none) ofAnswer
      pure response

/-- `call_model`. -/
def callModel (library : ProviderLibrary) (ctx : ProviderContext) (inputs : StrMap Value)
    (node : WorkflowNode) (messages : List Message) (tools : Option (List Value))
    (toolChoice : Option Value) : ProviderM MessagesResponse := do
  let profileId ← required ((node.config.get? "provider").bind Value.asStr)
    "with.provider is required"
  let profile ← perform (.getProviderProfile profileId) ofAnswer
  if profile.any fun profile => profile.1.providerType = .codex then
    callCodexModel library ctx inputs node profileId messages tools toolChoice
  else callMiniMax ctx inputs node messages tools toolChoice

/-! ### The call monitor -/

/-- The operations that send a request to a model. -/
def ProviderOp.isModelCall : ProviderOp → Bool
  | .sendMiniMax _ _ _ | .sendCodex _ _ _ _ => true
  | _ => false

/-- The tool an operation executes. -/
def ProviderOp.executedTool : ProviderOp → Option Value
  | .echo tool _ | .callMcpTool tool _ _ _ => some tool
  | _ => none

/-- What a node is allowed: how many model calls and tool executions, which tools, and what counts
as a reservation for a call. -/
structure CallLimits where
  modelCalls : Nat
  toolCalls : Nat
  tools : List Value
  reserves : ProviderEvent → Prop

/-- What has happened so far; `reserved` says that tokens were reserved since the last request. -/
structure CallState where
  requests : Nat
  executed : Nat
  reserved : Prop

def CallState.initial : CallState := ⟨0, 0, False⟩

def callMonitor (limits : CallLimits) : Monitor ProviderOp ProviderResp CallState where
  next s e :=
    { requests := s.requests + if e.1.isModelCall then 1 else 0
      executed := s.executed + if e.1.executedTool.isSome then 1 else 0
      reserved := e.1.isModelCall = false ∧ (limits.reserves e ∨ s.reserved) }
  allowed s e :=
    (e.1.isModelCall = true → s.requests < limits.modelCalls ∧ s.reserved) ∧
      ∀ tool, e.1.executedTool = some tool → s.executed < limits.toolCalls ∧ tool ∈ limits.tools

/-- Nothing was sent or executed in between, and a reservation still stands. -/
structure CallState.Calm (s s' : CallState) : Prop where
  requests : s'.requests = s.requests
  executed : s'.executed = s.executed
  reserved : s.reserved → s'.reserved

theorem CallState.Calm.refl (s : CallState) : s.Calm s := ⟨rfl, rfl, id⟩

theorem CallState.Calm.trans {s s' s'' : CallState} (h : s.Calm s') (h' : s'.Calm s'') :
    s.Calm s'' :=
  ⟨h'.requests.trans h.requests, h'.executed.trans h.executed,
    fun hs => h'.reserved (h.reserved hs)⟩

open Proc

/-- A process of an AI node that is let pass and does not panic. -/
abbrev WatchesCalls {α : Type} (limits : CallLimits) (s : CallState) (x : ProviderM α)
    (Q : CallState → α → Prop) : Prop :=
  Watches (callMonitor limits) s x Q fun _ e => e ≠ .panic

/-- A part of an AI node that sends nothing and executes nothing. -/
def Calmly {α : Type} (limits : CallLimits) (x : ProviderM α) (Q : α → Prop) : Prop :=
  ∀ s, WatchesCalls limits s x fun s' a => s.Calm s' ∧ Q a

section Calm

variable {α β : Type} {limits : CallLimits} {Q : α → Prop} {Q' : β → Prop}

theorem Calmly.pure {a : α} (h : Q a) : Calmly limits (pure a) Q :=
  fun s => .pure ⟨.refl s, h⟩

theorem calmly_settle {result : Except RunError α} (h : Outcome Q (· ≠ .panic) result) :
    Calmly limits (settle result) Q := by
  intro s
  refine .ret ?_
  cases result with
  | ok a => exact ⟨.refl s, h⟩
  | error e => exact h

/-- A pure result that does not panic. -/
theorem calmly_settle_of {result : Except RunError α} (h : Raises (· ≠ .panic) result) :
    Calmly limits (settle result) fun a => result = .ok a := by
  refine calmly_settle ?_
  cases result with
  | ok a => rfl
  | error e => exact h e rfl

theorem calmly_refuse {text : String} : Calmly limits (refuse text) Q :=
  fun _ => .throw (by simp)

theorem calmly_required {value : Option α} {text : String} :
    Calmly limits (required value text) fun a => value = some a := by
  cases value with
  | none => exact calmly_refuse
  | some a => exact .pure rfl

theorem calmly_perform {o : ProviderOp} {read : ProviderResp o → Except RunError α}
    (hsend : o.isModelCall = false) (htool : o.executedTool = none)
    (hread : ∀ answer, Raises (· ≠ .panic) (read answer)) :
    Calmly limits (perform o read) fun _ => True := by
  intro s
  refine .op fun answer => ⟨⟨by simp [hsend], by simp [htool]⟩, ?_⟩
  cases h : read answer with
  | ok a => exact ⟨⟨by simp [callMonitor, hsend], by simp [callMonitor, htool],
      fun hs => ⟨hsend, .inr hs⟩⟩, trivial⟩
  | error e => exact hread answer e h

theorem Calmly.mono {Q₂ : α → Prop} {x : ProviderM α} (h : Calmly limits x Q)
    (hQ : ∀ a, Q a → Q₂ a) : Calmly limits x Q₂ :=
  fun s => (h s).mono (fun _ a ha => ⟨ha.1, hQ a ha.2⟩) fun _ _ he => he

theorem Calmly.bind {x : ProviderM α} {f : α → ProviderM β} (hx : Calmly limits x Q)
    (hf : ∀ a, Q a → Calmly limits (f a) Q') : Calmly limits (x >>= f) Q' :=
  fun s => (hx s).bind fun s' a ha =>
    (hf a ha.2 s').mono (fun _ _ hb => ⟨ha.1.trans hb.1, hb.2⟩) fun _ _ he => he

/-- Go on after a calm part. -/
theorem Calmly.watch {s : CallState} {Q' : CallState → β → Prop} {x : ProviderM α}
    {f : α → ProviderM β} (hx : Calmly limits x Q)
    (hf : ∀ s' a, s.Calm s' → Q a → WatchesCalls limits s' (f a) Q') :
    WatchesCalls limits s (x >>= f) Q' :=
  (hx s).bind fun s' a ha => hf s' a ha.1 ha.2

end Calm

/-! ### One request -/

/-- One request was sent in between, and nothing was executed. -/
structure CallState.Sent (s s' : CallState) : Prop where
  requests : s'.requests = s.requests + 1
  executed : s'.executed = s.executed

/-- A part of an AI node that returns after one request; `reserved` says that the reservation for it
has been made. -/
def SendsOnce {α : Type} (limits : CallLimits) (reserved : Bool) (x : ProviderM α) : Prop :=
  ∀ s : CallState, s.requests < limits.modelCalls → (reserved = true → s.reserved) →
    WatchesCalls limits s x fun s' _ => s.Sent s'

section SendsOnce

variable {α β : Type} {limits : CallLimits} {reserved : Bool} {Q : α → Prop}

theorem sendsOnce_refuse {text : String} :
    SendsOnce limits reserved (refuse text : ProviderM α) :=
  fun _ _ _ => .throw (by simp)

/-- A calm part comes first. -/
theorem Calmly.sendsOnce {x : ProviderM α} {f : α → ProviderM β} (hx : Calmly limits x Q)
    (hf : ∀ a, Q a → SendsOnce limits reserved (f a)) : SendsOnce limits reserved (x >>= f) := by
  intro s hs hreserved
  refine hx.watch fun s' a hcalm ha => ?_
  have hs' : s'.requests < limits.modelCalls := by rwa [hcalm.requests]
  refine (hf a ha s' hs' fun h => hcalm.reserved (hreserved h)).mono (fun s'' _ hsent => ?_)
    fun _ _ he => he
  exact ⟨hsent.requests.trans (by rw [hcalm.requests]), hsent.executed.trans hcalm.executed⟩

/-- A calm part comes last. -/
theorem SendsOnce.calmly {x : ProviderM α} {f : α → ProviderM β}
    (hx : SendsOnce limits reserved x) (hf : ∀ a, Calmly limits (f a) fun _ => True) :
    SendsOnce limits reserved (x >>= f) := by
  intro s hs hreserved
  refine (hx s hs hreserved).bind fun s' a hsent => ?_
  refine (hf a s').mono (fun s'' _ hcalm => ?_) fun _ _ he => he
  exact ⟨hcalm.1.requests.trans hsent.requests, hcalm.1.executed.trans hsent.executed⟩

/-- The request itself. -/
theorem sendsOnce_perform {o : ProviderOp} {read : ProviderResp o → Except RunError α}
    (hsend : o.isModelCall = true) (htool : o.executedTool = none)
    (hread : ∀ answer, Raises (· ≠ .panic) (read answer)) :
    SendsOnce limits true (perform o read) := by
  intro s hs hreserved
  refine .op fun answer => ⟨⟨fun _ => ⟨hs, hreserved rfl⟩, by simp [htool]⟩, ?_⟩
  cases h : read answer with
  | ok a => exact ⟨by simp [callMonitor, hsend], by simp [callMonitor, htool]⟩
  | error e => exact hread answer e h

theorem raises_ofAnswer (answer : Except String α) : Raises (· ≠ .panic) (ofAnswer answer) := by
  cases answer with
  | ok a => simp [ofAnswer]
  | error text => simp [ofAnswer]

/-- The reservation comes before the request. -/
theorem sendsOnce_reserve {provider : String} {tokens : Nat} {budget : Option Nat}
    {f : Unit → ProviderM α}
    (hreserves : limits.reserves ⟨.reserveProviderTokens provider tokens budget, .ok ()⟩)
    (hf : SendsOnce limits true (f ())) :
    SendsOnce limits false
      (perform (.reserveProviderTokens provider tokens budget) ofAnswer >>= f) := by
  intro s hs _
  have hreserve : WatchesCalls limits s
      (perform (.reserveProviderTokens provider tokens budget) ofAnswer) fun s' _ =>
        s.Calm s' ∧ s'.reserved := by
    refine .op fun answer =>
      ⟨by simp [callMonitor, ProviderOp.isModelCall, ProviderOp.executedTool], ?_⟩
    cases answer with
    | ok _ => exact ⟨⟨rfl, rfl, fun hs => ⟨rfl, .inr hs⟩⟩, rfl, .inl hreserves⟩
    | error text => simp [ofAnswer, Outcome]
  refine hreserve.bind fun s' _ hs' => ?_
  obtain ⟨hcalm, hreserved⟩ := hs'
  have hs₁ : s'.requests < limits.modelCalls := by rwa [hcalm.requests]
  refine (hf s' hs₁ fun _ => hreserved).mono (fun s'' _ hsent => ?_) fun _ _ he => he
  exact ⟨hsent.requests.trans (by rw [hcalm.requests]), hsent.executed.trans hcalm.executed⟩

end SendsOnce

/-! ### The parts of a model call -/

/-- Node errors are no panics. -/
theorem Raises.ne_panic {α : Type} {x : Except RunError α} (h : Raises RunError.IsNode x) :
    Raises (· ≠ .panic) x := by
  refine h.mono fun e he => ?_
  obtain ⟨text, rfl⟩ := he
  simp

theorem raises_mapM {α β : Type} {P : RunError → Prop} {f : α → Except RunError β}
    (h : ∀ a, Raises P (f a)) (items : List α) : Raises P (items.mapM f) := by
  induction items with
  | nil => exact raises_ok.mpr trivial
  | cons a items ih =>
    rw [List.mapM_cons]
    exact (h a).bind fun b => ih.bind fun bs => raises_ok.mpr trivial

theorem raises_codexRequest (library : ProviderLibrary) (messages : List Message)
    (tools : Option (List Value)) (choice : Option Value) :
    Raises RunError.IsNode (CodexAdapter.request library messages tools choice) := by
  refine (raises_mapM (fun block => ?_) _).bind fun input => ?_
  · unfold CodexAdapter.inputItem
    split <;> simp
  · cases choice with
    | none => simp
    | some choice =>
      refine Raises.bind ?_ fun choice => by simp
      unfold CodexAdapter.requestChoice
      split <;> simp

theorem raises_codexResponse (library : ProviderLibrary) (raw : Value) :
    Raises RunError.IsNode (CodexAdapter.response library raw) := by
  unfold CodexAdapter.response
  split
  · simp
  · refine (raises_mapM (fun item => ?_) _).bind fun content => by simp
    unfold CodexAdapter.outputBlocks
    split
    · split
      · simp
      · split <;> simp
    · split <;> simp
    · simp
    · simp

theorem raises_selectedModel (node : WorkflowNode) :
    Raises RunError.IsNode (selectedModel node) := by
  unfold selectedModel
  split <;> simp

theorem raises_usableProfile (node : WorkflowNode) (expected : ProviderType)
    (profile : ProviderProfile) :
    Raises RunError.IsNode (usableProfile node expected profile) := by
  unfold usableProfile
  split
  · simp
  · refine (raises_selectedModel node).bind fun model => ?_
    split
    · simp
    · split <;> simp

section Parts

variable {limits : CallLimits}

theorem calmly_check : Calmly limits ProviderM.check fun _ => True :=
  calmly_perform rfl rfl raises_ofAnswer

theorem calmly_resolveSecret (secretRef : String) :
    Calmly limits (ProviderM.resolveSecret secretRef) fun _ => True :=
  calmly_perform rfl rfl raises_ofAnswer

theorem calmly_startProviderSpan (ctx : ProviderContext) (node : WorkflowNode)
    (name provider model : String) :
    Calmly limits (startProviderSpan ctx node name provider model) fun _ => True :=
  calmly_perform rfl rfl raises_ofAnswer

/-- The profile found is the one the node names. -/
theorem calmly_profileForNode (node : WorkflowNode) (expected : ProviderType) :
    Calmly limits (profileForNode node expected) fun found =>
      (node.config.get? "provider").bind Value.asStr = some found.1 := by
  refine calmly_required.bind fun profileId hid => ?_
  refine (calmly_perform rfl rfl raises_ofAnswer).bind fun found _ => ?_
  refine calmly_required.bind fun profile _ => ?_
  refine (calmly_settle_of (raises_usableProfile node expected profile.1).ne_panic).bind
    fun _ _ => .pure ?_
  exact (Option.eq_some_of_filter_eq_some hid)

theorem calmly_storeRefreshed (library : ProviderLibrary) (secretRef : String)
    (tokens : Option CodexOAuthTokens) :
    Calmly limits (storeRefreshed library secretRef tokens) fun _ => True := by
  cases tokens with
  | none => exact .pure trivial
  | some tokens =>
    refine (calmly_settle_of (raises_ofAnswer _)).bind fun secret _ => ?_
    exact calmly_perform rfl rfl raises_ofAnswer

theorem calmly_pollWorker (name : String) (joined : Bool) (polls : Nat) :
    Calmly limits (pollWorker name joined polls) fun _ => True := by
  induction polls with
  | zero => exact .pure trivial
  | succ polls ih =>
    intro s
    -- the check may fail, and its error is looked at
    refine (calmly_check s).attempt.bind fun s' result hresult => ?_
    cases result with
    | ok _ =>
      exact (ih s').mono (fun _ _ hcalm => ⟨hresult.1.trans hcalm.1, trivial⟩) fun _ _ he => he
    | error e =>
      cases joined with
      | true => exact .throw hresult
      | false => exact .throw (by simp)

theorem calmly_awaitReply {α : Type} (name : String) (report : WorkerReport α) :
    Calmly limits (awaitReply name report) fun _ => True := by
  refine (calmly_pollWorker name report.joined report.polls).bind fun _ _ => ?_
  split
  · split
    · exact (calmly_settle_of (raises_ofAnswer _)).mono fun _ _ => trivial
    · exact calmly_refuse
  · exact calmly_refuse

theorem sendsOnce_callCodex (library : ProviderLibrary) (ctx : ProviderContext)
    (node : WorkflowNode) (request : Value) :
    SendsOnce limits true (callCodex library ctx node request) := by
  refine (calmly_profileForNode node .codex).sendsOnce fun found _ => ?_
  obtain ⟨id, profile⟩ := found
  dsimp only
  split
  · exact sendsOnce_refuse
  · split
    · exact sendsOnce_refuse
    · refine (calmly_resolveSecret _).sendsOnce fun secret _ => ?_
      refine (calmly_settle_of (raises_ofAnswer _)).sendsOnce fun tokens _ => ?_
      refine (calmly_settle_of (raises_selectedModel node).ne_panic).sendsOnce fun model _ => ?_
      refine (calmly_startProviderSpan ctx node _ _ _).sendsOnce fun span _ => ?_
      refine (sendsOnce_perform rfl rfl fun report => by simp).calmly fun report => ?_
      refine (calmly_awaitReply "Codex" report).bind fun result _ => ?_
      refine (calmly_storeRefreshed library _ _).bind fun _ _ => ?_
      refine calmly_check.bind fun _ _ => ?_
      refine (calmly_perform rfl rfl raises_ofAnswer).bind fun _ _ => ?_
      exact (calmly_perform rfl rfl raises_ofAnswer).bind fun _ _ => .pure trivial

/-- An event that reserves the tokens the node asks for from the provider it names. -/
def ReservesTokens (ctx : ProviderContext) (inputs : StrMap Value) (node : WorkflowNode)
    (e : ProviderEvent) : Prop :=
  ∃ provider tokens, (node.config.get? "provider").bind Value.asStr = some provider ∧
    inputU64 inputs "maxTokens" = .ok tokens ∧
      e = ⟨.reserveProviderTokens provider tokens ctx.aiBudgetTokens, .ok ()⟩

/-- **A model call** sends one request, with the tokens the node asks for reserved. -/
theorem sendsOnce_callModel (library : ProviderLibrary) (ctx : ProviderContext)
    (inputs : StrMap Value) (node : WorkflowNode) (messages : List Message)
    (tools : Option (List Value)) (toolChoice : Option Value)
    (hreserves : ∀ e, ReservesTokens ctx inputs node e → limits.reserves e) :
    SendsOnce limits false (callModel library ctx inputs node messages tools toolChoice) := by
  refine calmly_required.sendsOnce fun profileId hid => ?_
  refine (calmly_perform rfl rfl raises_ofAnswer).sendsOnce fun profile _ => ?_
  split
  · refine (calmly_settle_of (raises_inputU64 inputs _).ne_panic).sendsOnce fun tokens htokens => ?_
    refine sendsOnce_reserve (hreserves _ ⟨profileId, tokens, hid, htokens, rfl⟩) ?_
    have hrequest := (raises_codexRequest library messages tools toolChoice).ne_panic
    refine (calmly_settle_of hrequest).sendsOnce fun request _ => ?_
    refine (sendsOnce_callCodex library ctx node request).calmly fun result => ?_
    refine calmly_required.bind fun events _ => ?_
    exact (calmly_settle_of (raises_codexResponse library events).ne_panic).mono fun _ _ => trivial
  · refine calmly_check.sendsOnce fun _ _ => ?_
    refine (calmly_profileForNode node .miniMax).sendsOnce fun found hfound => ?_
    obtain ⟨id, profile, rfl⟩ := found
    dsimp only
    split
    · exact sendsOnce_refuse
    · refine (calmly_resolveSecret _).sendsOnce fun key _ => ?_
      refine (calmly_settle_of (raises_selectedModel node).ne_panic).sendsOnce fun model _ => ?_
      refine (calmly_settle_of (raises_inputU64 inputs _).ne_panic).sendsOnce
        fun tokens htokens => ?_
      split
      · exact sendsOnce_refuse
      · refine sendsOnce_reserve (hreserves _ ⟨profile.id, tokens, hfound, htokens, rfl⟩) ?_
        refine (calmly_startProviderSpan ctx node _ _ _).sendsOnce fun span _ => ?_
        refine (sendsOnce_perform rfl rfl fun report => by simp).calmly fun report => ?_
        refine (calmly_awaitReply "MiniMax" report).bind fun response _ => ?_
        refine calmly_check.bind fun _ _ => ?_
        refine (calmly_perform rfl rfl raises_ofAnswer).bind fun _ _ => ?_
        exact (calmly_perform rfl rfl raises_ofAnswer).bind fun _ _ => .pure trivial

end Parts

end KakuneCore
