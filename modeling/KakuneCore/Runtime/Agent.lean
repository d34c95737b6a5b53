import KakuneCore.Runtime.Providers

/-!
# The agent loop

`execute_ai_agent` lets a model work on a task: in each round one model call is made, the tools the
answer asks for are executed and their results sent back, until the model submits a result of the
declared schema. The model is adversarial: nothing is assumed of its answers, of the tools' answers
or of the store.

The main result, `agent_keeps_its_bounds`, is about every run, finished or cut off: the model calls
and the executed tools stay within the node's limits, every executed tool is one the node declares,
every model call has a token reservation of its own, and a run that returns has a result that the
schema accepts and that is within the size limit.
-/

namespace KakuneCore

/-! ### Model answers -/

structure AgentToolCall where
  id : String
  name : String
  input : Value
  deriving DecidableEq, Repr

/-- A content block of a kind. -/
def Value.hasType (block : Value) (kind : String) : Bool :=
  (block.get? "type").bind Value.asStr = some kind

/-- A text of a block that is not empty. -/
def blockText (block : Value) (key : String) : Option String :=
  ((block.get? key).bind Value.asStr).filter (· ≠ "")

def agentToolCall (block : Value) : Except RunError AgentToolCall :=
  match blockText block "id", blockText block "name" with
  | none, _ => .error (.node "agent tool call has no id")
  | some _, none => .error (.node "agent tool call has no name")
  | some id, some name => .ok { id, name, input := (block.get? "input").getD (.object []) }

/-- `tool_calls_from`. -/
def toolCallsFrom (content : List Value) : Except RunError (List AgentToolCall) :=
  (content.filter (Value.hasType · "tool_use")).mapM agentToolCall

/-- `response_text`. -/
def responseText (content : List Value) : Except RunError String :=
  let text := String.join (content.filterMap fun block =>
    if block.hasType "text" then (block.get? "text").bind Value.asStr else none)
  if text = "" then .error (.node "MiniMax response has no text content") else .ok text

/-- `structured_value`. -/
def structuredValue (library : ProviderLibrary) (content : List Value) : Except RunError Value :=
  match content.findSome? fun block =>
      if block.hasType "tool_use" then block.get? "input" else none with
  | some input => .ok input
  | none => do
    let text ← responseText content
    match library.readText text with
    | some value => .ok value
    | none => .error (.node s!"MiniMax structured result is not JSON: {library.readError text}")

/-- `structured_output_tool`. -/
def structuredOutputTool (name : String) (schema : StrMap Value) : Value :=
  .object [("description", .string "Return the final structured result exactly once."),
    ("input_schema", .object schema), ("name", .string name)]

/-! ### Checks -/

/-- `validate_schema`. -/
def validateSchema (library : ProviderLibrary) (schema : StrMap Value) (value : Value) :
    Except RunError Unit :=
  match library.validatorError (.object schema) with
  | some error => .error (.node s!"invalid output schema: {error}")
  | none =>
    match library.firstError (.object schema) value with
    | some error =>
      .error (.node s!"MiniMax structured result does not match schema: {error}")
    | none => .ok ()

/-- `required_object`. -/
def requiredObject (inputs : StrMap Value) (name : String) : Except RunError (StrMap Value) :=
  match (inputs.get? name).bind Value.asObject with
  | some fields => .ok fields
  | none => .error (.node s!"input {name} must be an object")

/-- `bounded_with`. -/
def boundedWith (node : WorkflowNode) (name : String) (default minimum maximum : Nat) :
    Except RunError Nat :=
  let value := match node.config.get? name with
    | none => some default
    | some value => value.asU64
  match value.filter fun n => minimum ≤ n ∧ n ≤ maximum with
  | some n => .ok n
  | none => .error (.node s!"{name} must be an integer from {minimum} to {maximum}")

/-- The limits of an agent node, with their defaults. -/
def maxModelCalls (node : WorkflowNode) : Except RunError Nat :=
  boundedWith node "maxModelCalls" 4 1 20

def maxToolCalls (node : WorkflowNode) : Except RunError Nat :=
  boundedWith node "maxToolCalls" 8 0 64

def maxResultBytes (node : WorkflowNode) : Except RunError Nat :=
  boundedWith node "maxResultBytes" 65536 1 1048576

/-- `valid_route`. -/
def validRoute (value : String) : Bool :=
  value ≠ "" && value.utf8ByteSize ≤ 63 && value.toList.head?.any isAsciiLowercase &&
    value.toList.all isKebabChar

/-- `validate_agent_tool`. -/
def validateAgentTool (tool : Value) : Except RunError Unit :=
  match tool.asObject with
  | none => .error (.node "agent tools must be objects")
  | some fields =>
    match ((fields.get? "name").bind Value.asStr).filter validRoute with
    | none => .error (.node "agent tool name must be a stable identifier")
    | some name =>
      if ((fields.get? "input_schema").bind Value.asObject).isNone then
        .error (.node s!"agent tool {name} requires an input_schema")
      else
        match (fields.get? "type").bind Value.asStr with
        | some "echo" => .ok ()
        | some "mcp" =>
          if ((fields.get? "server").bind Value.asObject).isSome then .ok ()
          else .error (.node (s!"agent tool {name} must use the supported echo type or " ++
            "an MCP server configuration"))
        | _ => .error (.node (s!"agent tool {name} must use the supported echo type or " ++
            "an MCP server configuration"))

/-- The tools an agent node declares. -/
def declaredTools (inputs : StrMap Value) : Except RunError (List Value) :=
  match ((inputs.get? "tools").getD (.array [])).asArray with
  | some tools => .ok tools
  | none => .error (.node "input tools must be an array")

/-! ### MCP tools -/

def McpToolContent.toValue : McpToolContent → Value
  | text content => .object [("text", .string content), ("type", .string "text")]
  | image data mimeType =>
    .object [("data", .string data), ("mimeType", .string mimeType), ("type", .string "image")]
  | audio data mimeType =>
    .object [("data", .string data), ("mimeType", .string mimeType), ("type", .string "audio")]
  | resourceLink uri name description mimeType size =>
    .object [("description", optionalText description), ("mimeType", optionalText mimeType),
      ("name", .string name), ("size", optionalNumber size), ("type", .string "resource_link"),
      ("uri", .string uri)]
  | embeddedTextResource uri mimeType content =>
    .object [("mimeType", optionalText mimeType), ("text", .string content),
      ("type", .string "resource"), ("uri", .string uri)]
  | embeddedBlobResource uri mimeType blob =>
    .object [("blob", .string blob), ("mimeType", optionalText mimeType),
      ("type", .string "resource"), ("uri", .string uri)]

def McpToolCallResult.toValue (result : McpToolCallResult) : Value :=
  .object [("content", .array (result.content.map McpToolContent.toValue)),
    ("isError", .bool result.isError),
    ("structuredContent", result.structuredContent.getD .null)]

/-- The references of `resolve_mcp_secret_environment`, from the first that is left. -/
def resolveReferences : StrMap Value → ProviderM (StrMap String)
  | [] => pure []
  | (name, secret) :: references =>
    if name = "" ∨ '=' ∈ name.toList ∨ Char.ofNat 0 ∈ name.toList then
      refuse "MCP environment variable name is invalid"
    else do
      let secretRef ← required secret.asStr
        "MCP environment secret reference must be a string"
      let value ← ProviderM.resolveSecret secretRef
      let rest ← resolveReferences references
      pure ((name, value) :: rest)

/-- `resolve_mcp_secret_environment`. -/
def resolveMcpSecretEnvironment (server : StrMap Value) : ProviderM (StrMap String) :=
  match server.get? "environmentSecretRefs" with
  | none => pure []
  | some references => do
    let references ← required references.asObject "MCP environmentSecretRefs must be an object"
    resolveReferences references

/-- The bearer token of a server. -/
def resolveBearer (server : StrMap Value) : ProviderM (Option String) :=
  match (server.get? "bearerSecretRef").bind Value.asStr with
  | none => pure none
  | some secretRef => do
    let secret ← ProviderM.resolveSecret secretRef
    pure (some secret)

/-- `serde_json::from_value::<Vec<String>>`. -/
def stringItems (value : Value) : Option (List String) :=
  value.asArray.bind fun items => items.mapM Value.asStr

/-- The server the worker connects to. -/
def mcpServer (transport : String) (command : Option String) (args : List String)
    (env : StrMap String) (endpoint bearer : Option String) : Except RunError McpServer :=
  match transport with
  | "stdio" =>
    match command with
    | some command => .ok (.stdio command args env)
    | none => .error (.node "MCP stdio tool has no command")
  | "http" =>
    match endpoint with
    | some endpoint => .ok (.http endpoint bearer)
    | none => .error (.node "MCP HTTP tool has no endpoint")
  | _ => .error (.node "MCP tool transport is unsupported")

/-- What the `join` of an MCP worker gives. -/
def joinMcpWorker : Option (Except String McpToolCallResult) → Except RunError McpToolCallResult
  | some answer => ofAnswer answer
  | none => .error (.node "MCP agent worker panicked")

/-- `execute_agent_mcp_tool`. -/
def executeAgentMcpTool (tool : Value) (name : String) (input : Value) : ProviderM Value := do
  let server ← required ((tool.get? "server").bind Value.asObject)
    s!"MCP agent tool {name} has no server configuration"
  let transport := ((server.get? "transport").bind Value.asStr).getD "stdio"
  let remoteName := ((tool.get? "remoteName").bind Value.asStr).getD name
  let arguments ← required input.asObject s!"MCP agent tool {name} input must be an object"
  let env ← resolveMcpSecretEnvironment server
  let bearer ← resolveBearer server
  let command := (server.get? "command").bind Value.asStr
  let args ← required ((server.get? "args").elim (some []) stringItems)
    s!"MCP agent tool {name} server.args must be strings"
  let endpoint := (server.get? "endpoint").bind Value.asStr
  perform .startMcpRuntime ofAnswer
  let server ← settle (mcpServer transport command args env endpoint bearer)
  let result ← perform (.callMcpTool tool server remoteName arguments) joinMcpWorker
  pure result.toValue

/-! ### Tools -/

/-- The declared tool of a name. -/
def findTool (tools : List Value) (name : String) : Option Value :=
  tools.find? fun tool => (tool.get? "name").bind Value.asStr = some name

/-- The schema of the input of a tool that was validated. -/
def toolSchema (tool : Value) : ProviderM (StrMap Value) :=
  match (tool.get? "input_schema").bind Value.asObject with
  | some schema => pure schema
  | none => throw .panic

/-- `execute_agent_tool`. -/
def executeAgentTool (library : ProviderLibrary) (tools : List Value) (name : String)
    (input : Value) : ProviderM Value := do
  let tool ← required (findTool tools name) s!"agent attempted unpermitted tool {name}"
  settle (validateAgentTool tool)
  let schema ← toolSchema tool
  settle (validateSchema library schema input)
  match (tool.get? "type").bind Value.asStr with
  | some "echo" => do
    perform (.echo tool input) .ok
    pure (.object [("echo", input)])
  | some "mcp" => refuse s!"agent MCP tool {name} requires an execution context"
  | _ => refuse s!"agent tool {name} is not supported"

/-- The traced part of `execute_agent_tool_with_context`. -/
def dispatchAgentTool (library : ProviderLibrary) (tools : List Value) (name : String)
    (input : Value) : ProviderM Value := do
  let tool ← required (findTool tools name) s!"agent attempted unpermitted tool {name}"
  if tool.hasType "mcp" then do
    settle (validateAgentTool tool)
    let schema ← toolSchema tool
    settle (validateSchema library schema input)
    executeAgentMcpTool tool name input
  else executeAgentTool library tools name input

/-- `execute_agent_tool_with_context`. -/
def executeAgentToolWithContext (library : ProviderLibrary) (tools : List Value) (name : String)
    (input : Value) : ProviderM Value := do
  let span ← perform (.startTraceSpan "tool" name none (.object [("tool", .string name)])) ofAnswer
  let result ← (ExceptT.lift (dispatchAgentTool library tools name input).run :
    ProviderM (Except RunError Value))
  match result with
  | .ok value => do
    perform (.finishTraceSpan span .succeeded none) ofAnswer
    pure value
  | .error error => do
    perform (.finishTraceSpan span .failed (some error.message)) ofAnswer
    throw error

/-! ### The loop -/

/-- What `execute_ai_agent` reads of its node before the first round. -/
structure AgentSetup where
  schema : StrMap Value
  maxModelCalls : Nat
  maxToolCalls : Nat
  maxResultBytes : Nat
  tools : List Value

namespace AgentSetup

/-- The tools offered to the model: the declared ones and the one that submits the result. -/
def modelTools (setup : AgentSetup) : List Value :=
  setup.tools ++ [structuredOutputTool "submit_result" setup.schema]

end AgentSetup

/-- The message that returns the result of a tool call. -/
def toolResultMessage (library : ProviderLibrary) (call : AgentToolCall) (result : Value) :
    Message where
  role := .user
  content := .blocks [.object [("content", .string (library.toText result)),
    ("tool_use_id", .string call.id), ("type", .string "tool_result")]]

/-- What is remembered of a tool call. -/
def agentStep (round : Nat) (call : AgentToolCall) (result : Value) : Value :=
  .object [("input", call.input), ("result", result), ("round", .number (.int round)),
    ("tool", .string call.name)]

/-- The tool calls of one answer, from the first that is left: the messages and the steps grow. -/
def runToolCalls (library : ProviderLibrary) (setup : AgentSetup) (round : Nat) :
    List AgentToolCall → List Message → List Value → ProviderM (List Message × List Value)
  | [], messages, steps => pure (messages, steps)
  | call :: calls, messages, steps => do
    let result ← executeAgentToolWithContext library setup.tools call.name call.input
    if setup.maxResultBytes < (library.json.toVec result).length then
      refuse "agent tool result exceeds maxResultBytes"
    else
      runToolCalls library setup round calls (messages ++ [toolResultMessage library call result])
        (steps ++ [agentStep round call result])

/-- The end of a round with a final value. -/
def submitResult (library : ProviderLibrary) (setup : AgentSetup) (round : Nat)
    (steps : List Value) (response : MessagesResponse) (value : Value) : ProviderM NodeResult := do
  settle (validateSchema library setup.schema value)
  if setup.maxResultBytes < (library.json.toVec value).length then
    refuse "agent final result exceeds maxResultBytes"
  else
    let outputs : StrMap Value := [("result", value), ("steps", .array steps)]
    pure
      { route := "success"
        outputs := match responseUsage response with
          | some usage => outputs.insert "usage" usage
          | none => outputs
        message := some s!"AI agent completed in {round} model calls" }

/-- The rounds from `round` on, with `remaining` still allowed. -/
def agentRounds (library : ProviderLibrary) (ctx : ProviderContext) (inputs : StrMap Value)
    (node : WorkflowNode) (setup : AgentSetup) :
    (remaining round : Nat) → List Message → (steps : List Value) → (toolCalls : Nat) →
      ProviderM NodeResult
  | 0, _, _, _, _ =>
    refuse "agent maximum model calls exceeded without a valid structured result"
  | remaining + 1, round, messages, steps, toolCalls => do
    ProviderM.check
    let response ← callModel library ctx inputs node messages (some setup.modelTools) none
    let calls ← settle (toolCallsFrom response.content)
    match calls.find? fun call => call.name = "submit_result" with
    | some finalCall =>
      if calls.length ≠ 1 then
        refuse "agent must return its final result without additional tool calls"
      else submitResult library setup round steps response finalCall.input
    | none =>
      if calls = [] then do
        let value ← settle (structuredValue library response.content)
        submitResult library setup round steps response value
      else
        let toolCalls := saturate (toolCalls + calls.length)
        if setup.maxToolCalls < toolCalls then refuse "agent maximum tool calls exceeded"
        else do
          let (messages, steps) ← runToolCalls library setup round calls
            (messages ++ [{ role := .assistant, content := .blocks response.content }]) steps
          agentRounds library ctx inputs node setup remaining (round + 1) messages steps toolCalls

/-- `execute_ai_agent`. -/
def executeAiAgent (library : ProviderLibrary) (ctx : ProviderContext) (inputs : StrMap Value)
    (node : WorkflowNode) : ProviderM NodeResult := do
  let schema ← settle (requiredObject inputs "schema")
  let maxModelCalls ← settle (maxModelCalls node)
  let maxToolCalls ← settle (maxToolCalls node)
  let maxResultBytes ← settle (maxResultBytes node)
  let tools ← settle (declaredTools inputs)
  settle (tools.forM validateAgentTool)
  let task ← settle (inputString inputs "task")
  agentRounds library ctx inputs node { schema, maxModelCalls, maxToolCalls, maxResultBytes, tools }
    maxModelCalls 1 (minimaxUserMessages task) [] 0

/-! ### Executed tools -/

open Proc

/-- A part of an AI node that sends nothing and executes at most `n` tools. -/
def ExecutesUpTo {α : Type} (limits : CallLimits) (n : Nat) (x : ProviderM α) : Prop :=
  ∀ s : CallState, s.executed + n ≤ limits.toolCalls → WatchesCalls limits s x fun s' _ =>
    s'.requests = s.requests ∧ s'.executed ≤ s.executed + n

section ExecutesUpTo

variable {α β : Type} {limits : CallLimits} {n : Nat} {Q : α → Prop}

theorem executesUpTo_refuse {text : String} : ExecutesUpTo limits n (refuse text : ProviderM α) :=
  fun _ _ => .throw (by simp)

theorem Calmly.executesUpTo {x : ProviderM α} {f : α → ProviderM β} (hx : Calmly limits x Q)
    (hf : ∀ a, Q a → ExecutesUpTo limits n (f a)) : ExecutesUpTo limits n (x >>= f) := by
  intro s hs
  refine hx.watch fun s' a hcalm ha => ?_
  have hs' : s'.executed + n ≤ limits.toolCalls := by rwa [hcalm.executed]
  refine (hf a ha s' hs').mono (fun s'' _ h => ?_) fun _ _ he => he
  rw [← hcalm.requests, ← hcalm.executed]
  exact h

theorem ExecutesUpTo.calmly {x : ProviderM α} {f : α → ProviderM β}
    (hx : ExecutesUpTo limits n x) (hf : ∀ a, Calmly limits (f a) fun _ => True) :
    ExecutesUpTo limits n (x >>= f) := by
  intro s hs
  refine (hx s hs).bind fun s' a h => ?_
  refine (hf a s').mono (fun s'' _ hcalm => ?_) fun _ _ he => he
  rw [hcalm.1.requests, hcalm.1.executed]
  exact h

/-- The execution itself. -/
theorem executesUpTo_perform {o : ProviderOp} {read : ProviderResp o → Except RunError α}
    {tool : Value} (hsend : o.isModelCall = false) (htool : o.executedTool = some tool)
    (hmem : tool ∈ limits.tools) (hread : ∀ answer, Raises (· ≠ .panic) (read answer)) :
    ExecutesUpTo limits 1 (perform o read) := by
  intro s hs
  refine .op fun answer => ⟨⟨by simp [hsend], fun tool' h => ?_⟩, ?_⟩
  · obtain rfl : tool = tool' := by simpa [htool] using h
    exact ⟨hs, hmem⟩
  · cases h : read answer with
    | ok a => exact ⟨by simp [callMonitor, hsend], by simp [callMonitor, htool]⟩
    | error e => exact hread answer e h

end ExecutesUpTo

/-! ### Errors of the checks -/

theorem raises_validateSchema (library : ProviderLibrary) (schema : StrMap Value) (value : Value) :
    Raises RunError.IsNode (validateSchema library schema value) := by
  unfold validateSchema
  split
  · simp
  · split <;> simp

theorem raises_requiredObject (inputs : StrMap Value) (name : String) :
    Raises RunError.IsNode (requiredObject inputs name) := by
  unfold requiredObject
  split <;> simp

theorem raises_boundedWith (node : WorkflowNode) (name : String) (default minimum maximum : Nat) :
    Raises RunError.IsNode (boundedWith node name default minimum maximum) := by
  unfold boundedWith
  dsimp only
  split <;> simp

theorem raises_declaredTools (inputs : StrMap Value) :
    Raises RunError.IsNode (declaredTools inputs) := by
  unfold declaredTools
  split <;> simp

theorem raises_validateAgentTool (tool : Value) :
    Raises RunError.IsNode (validateAgentTool tool) := by
  unfold validateAgentTool
  split
  · simp
  · split
    · simp
    · split
      · simp
      · split
        · simp
        · split <;> simp
        · simp

theorem raises_toolCallsFrom (content : List Value) :
    Raises RunError.IsNode (toolCallsFrom content) := by
  refine raises_mapM (fun block => ?_) _
  unfold agentToolCall
  split <;> simp

theorem raises_structuredValue (library : ProviderLibrary) (content : List Value) :
    Raises RunError.IsNode (structuredValue library content) := by
  unfold structuredValue
  split
  · simp
  · refine Raises.bind ?_ fun text => ?_
    · unfold responseText
      dsimp only
      split <;> simp
    · split <;> simp

theorem raises_mcpServer (transport : String) (command : Option String) (args : List String)
    (env : StrMap String) (endpoint bearer : Option String) :
    Raises RunError.IsNode (mcpServer transport command args env endpoint bearer) := by
  unfold mcpServer
  split
  · split <;> simp
  · split <;> simp
  · simp

/-- A validated tool has a schema. -/
theorem exists_toolSchema {tool : Value} (h : validateAgentTool tool = .ok ()) :
    ∃ schema, (tool.get? "input_schema").bind Value.asObject = some schema := by
  rw [← Option.isSome_iff_exists]
  by_contra hnone
  rcases tool with _ | _ | _ | _ | _ | fields
  all_goals simp only [validateAgentTool, Value.asObject, reduceCtorEq] at h
  split at h
  · cases h
  · rw [if_pos (by simpa [Value.get?] using hnone)] at h
    cases h

/-! ### What a tool call does -/

section ToolCalls

variable {limits : CallLimits}

theorem calmly_resolveReferences (references : StrMap Value) :
    Calmly limits (resolveReferences references) fun _ => True := by
  induction references with
  | nil => exact .pure trivial
  | cons reference references ih =>
    obtain ⟨name, secret⟩ := reference
    rw [resolveReferences]
    split
    · exact calmly_refuse
    · refine calmly_required.bind fun secretRef _ => ?_
      refine (calmly_resolveSecret secretRef).bind fun value _ => ?_
      exact ih.bind fun rest _ => .pure trivial

theorem calmly_resolveMcpSecretEnvironment (server : StrMap Value) :
    Calmly limits (resolveMcpSecretEnvironment server) fun _ => True := by
  unfold resolveMcpSecretEnvironment
  split
  · exact .pure trivial
  · exact calmly_required.bind fun references _ => calmly_resolveReferences references

theorem calmly_resolveBearer (server : StrMap Value) :
    Calmly limits (resolveBearer server) fun _ => True := by
  unfold resolveBearer
  split
  · exact .pure trivial
  · exact (calmly_resolveSecret _).bind fun secret _ => .pure trivial

theorem raises_joinMcpWorker (answer : Option (Except String McpToolCallResult)) :
    Raises (· ≠ .panic) (joinMcpWorker answer) := by
  cases answer with
  | none => simp [joinMcpWorker]
  | some answer => exact raises_ofAnswer answer

theorem executesUpTo_executeAgentMcpTool {tool : Value} (hmem : tool ∈ limits.tools)
    (name : String) (input : Value) :
    ExecutesUpTo limits 1 (executeAgentMcpTool tool name input) := by
  refine calmly_required.executesUpTo fun server _ => ?_
  refine calmly_required.executesUpTo fun arguments _ => ?_
  refine (calmly_resolveMcpSecretEnvironment server).executesUpTo fun env _ => ?_
  refine (calmly_resolveBearer server).executesUpTo fun bearer _ => ?_
  refine calmly_required.executesUpTo fun args _ => ?_
  refine (calmly_perform rfl rfl raises_ofAnswer).executesUpTo fun _ _ => ?_
  refine (calmly_settle_of (raises_mcpServer _ _ _ _ _ _).ne_panic).executesUpTo fun target _ => ?_
  exact (executesUpTo_perform rfl rfl hmem raises_joinMcpWorker).calmly fun result => .pure trivial

/-- The checks of a tool call, before the tool is executed. -/
theorem executesUpTo_checked {library : ProviderLibrary} {tool input : Value}
    {f : ProviderM Value} (hf : ExecutesUpTo limits 1 f) :
    ExecutesUpTo limits 1 (do
      settle (validateAgentTool tool)
      let schema ← toolSchema tool
      settle (validateSchema library schema input)
      f) := by
  refine (calmly_settle_of (raises_validateAgentTool tool).ne_panic).executesUpTo fun _ hvalid => ?_
  obtain ⟨schema, hschema⟩ := exists_toolSchema hvalid
  rw [toolSchema, hschema]
  refine Calmly.executesUpTo (.pure trivial) fun schema' (_ : True) => ?_
  exact (calmly_settle_of (raises_validateSchema library schema' input).ne_panic).executesUpTo
    fun _ _ => hf

theorem executesUpTo_executeAgentTool {tools : List Value} (htools : tools = limits.tools)
    (library : ProviderLibrary) (name : String) (input : Value) :
    ExecutesUpTo limits 1 (executeAgentTool library tools name input) := by
  refine calmly_required.executesUpTo fun tool hfound => ?_
  have hmem : tool ∈ limits.tools := htools ▸ List.mem_of_find?_eq_some hfound
  refine executesUpTo_checked ?_
  split
  · exact (executesUpTo_perform rfl rfl hmem fun _ => by simp).calmly fun _ => .pure trivial
  · exact executesUpTo_refuse
  · exact executesUpTo_refuse

theorem executesUpTo_dispatchAgentTool {tools : List Value} (htools : tools = limits.tools)
    (library : ProviderLibrary) (name : String) (input : Value) :
    ExecutesUpTo limits 1 (dispatchAgentTool library tools name input) := by
  refine calmly_required.executesUpTo fun tool hfound => ?_
  have hmem : tool ∈ limits.tools := htools ▸ List.mem_of_find?_eq_some hfound
  split
  · exact executesUpTo_checked (executesUpTo_executeAgentMcpTool hmem name input)
  · exact executesUpTo_executeAgentTool htools library name input

/-- A traced tool call. -/
theorem executesUpTo_executeAgentToolWithContext {tools : List Value}
    (htools : tools = limits.tools) (library : ProviderLibrary) (name : String) (input : Value) :
    ExecutesUpTo limits 1 (executeAgentToolWithContext library tools name input) := by
  refine (calmly_perform rfl rfl raises_ofAnswer).executesUpTo fun span _ => ?_
  intro s hs
  refine (executesUpTo_dispatchAgentTool htools library name input s hs).attempt.bind
    fun s' result hresult => ?_
  cases result with
  | ok value =>
    refine (calmly_perform rfl rfl raises_ofAnswer).watch fun s'' _ hcalm _ => .pure ?_
    rw [hcalm.requests, hcalm.executed]
    exact hresult
  | error error =>
    exact (calmly_perform rfl rfl raises_ofAnswer).watch fun s'' _ _ _ => .throw hresult

/-- The tool calls of one answer. -/
theorem executesUpTo_runToolCalls {setup : AgentSetup} (htools : setup.tools = limits.tools)
    (library : ProviderLibrary) (round : Nat) (calls : List AgentToolCall)
    (messages : List Message) (steps : List Value) :
    ExecutesUpTo limits calls.length
      (runToolCalls library setup round calls messages steps) := by
  induction calls generalizing messages steps with
  | nil => exact fun s _ => .pure ⟨rfl, Nat.le_refl _⟩
  | cons call calls ih =>
    intro s hs
    rw [List.length_cons] at hs
    have hcall := executesUpTo_executeAgentToolWithContext htools library call.name call.input s
      (by omega)
    refine hcall.bind fun s' result hresult => ?_
    obtain ⟨hrequests, hexecuted⟩ := hresult
    split
    · exact .throw (by simp)
    · refine (ih _ _ s' (by omega)).mono (fun s'' _ h => ?_) fun _ _ he => he
      rw [List.length_cons]
      exact ⟨h.1.trans hrequests, by omega⟩

end ToolCalls

/-! ### The rounds -/

/-- The library accepts the schema, and the value for it. -/
def ProviderLibrary.Accepts (library : ProviderLibrary) (schema value : Value) : Prop :=
  library.validatorError schema = none ∧ library.firstError schema value = none

theorem validateSchema_eq_ok_iff {library : ProviderLibrary} {schema : StrMap Value}
    {value : Value} :
    validateSchema library schema value = .ok () ↔ library.Accepts (.object schema) value := by
  unfold validateSchema ProviderLibrary.Accepts
  cases library.validatorError (.object schema) with
  | some error => simp
  | none =>
    cases library.firstError (.object schema) value with
    | some error => simp
    | none => simp

/-- The result that a node returns is accepted by its schema and within its size limit. -/
def Submitted (library : ProviderLibrary) (setup : AgentSetup) (result : NodeResult) : Prop :=
  ∃ value, result.outputs.get? "result" = some value ∧
    library.Accepts (.object setup.schema) value ∧
      (library.json.toVec value).length ≤ setup.maxResultBytes

section Rounds

variable {limits : CallLimits} {library : ProviderLibrary} {setup : AgentSetup}

theorem calmly_submitResult (round : Nat) (steps : List Value) (response : MessagesResponse)
    (value : Value) :
    Calmly limits (submitResult library setup round steps response value)
      (Submitted library setup) := by
  have hraises := (raises_validateSchema library setup.schema value).ne_panic
  refine (calmly_settle_of hraises).bind fun _ hvalid => ?_
  split
  · exact calmly_refuse
  · next hsize =>
    refine .pure ⟨value, ?_, validateSchema_eq_ok_iff.mp hvalid, Nat.le_of_not_lt hsize⟩
    cases responseUsage response with
    | none => rfl
    | some usage => rfl

/-- **The rounds keep the limits**: what is still allowed covers the rounds that are left, and the
executed tools are among those counted. -/
theorem watches_agentRounds {ctx : ProviderContext} {inputs : StrMap Value} {node : WorkflowNode}
    (hreserves : ∀ e, ReservesTokens ctx inputs node e → limits.reserves e)
    (htools : setup.tools = limits.tools) (hcalls : setup.maxToolCalls = limits.toolCalls)
    (hlimit : limits.toolCalls < 2 ^ 64 - 1) (remaining round : Nat) (messages : List Message)
    (steps : List Value) (toolCalls : Nat) (s : CallState)
    (hrequests : s.requests + remaining ≤ limits.modelCalls) (hexecuted : s.executed ≤ toolCalls) :
    WatchesCalls limits s
      (agentRounds library ctx inputs node setup remaining round messages steps toolCalls)
      fun _ result => Submitted library setup result := by
  induction remaining generalizing round messages steps toolCalls s with
  | zero => exact .throw (by simp)
  | succ remaining ih =>
    rw [agentRounds]
    refine calmly_check.watch fun s₁ _ hcheck _ => ?_
    have hroom : s₁.requests < limits.modelCalls := by rw [hcheck.requests]; omega
    refine ((sendsOnce_callModel library ctx inputs node messages _ none hreserves) s₁ hroom
      (by simp)).bind fun s₂ response hsent => ?_
    refine (calmly_settle_of (raises_toolCallsFrom response.content).ne_panic).watch
      fun s₃ calls hparsed _ => ?_
    have hrequests₃ : s₃.requests = s.requests + 1 := by
      rw [hparsed.requests, hsent.requests, hcheck.requests]
    have hexecuted₃ : s₃.executed = s.executed := by
      rw [hparsed.executed, hsent.executed, hcheck.executed]
    have hsubmit (value : Value) : WatchesCalls limits s₃
        (submitResult library setup round steps response value) fun _ result =>
          Submitted library setup result :=
      (calmly_submitResult round steps response value s₃).mono (fun _ _ h => h.2) fun _ _ he => he
    split
    · split
      · exact .throw (by simp)
      · exact hsubmit _
    · split
      · refine (calmly_settle_of (raises_structuredValue library response.content).ne_panic).watch
          fun s₄ value hvalue _ => ?_
        exact (calmly_submitResult round steps response value s₄).mono (fun _ _ h => h.2)
          fun _ _ he => he
      · dsimp only
        split
        · exact .throw (by simp)
        · next hcounted =>
          -- below the limit the saturating count is the sum
          have hcount : saturate (toolCalls + calls.length) = toolCalls + calls.length := by
            rw [saturate] at hcounted ⊢
            omega
          rw [hcount] at hcounted ⊢
          refine (executesUpTo_runToolCalls htools library round calls _ steps s₃
            (by omega)).bind fun s₄ grown hran => ?_
          obtain ⟨messages', steps'⟩ := grown
          exact ih (round + 1) messages' steps' (toolCalls + calls.length) s₄ (by omega) (by omega)

end Rounds

/-! ### Every run -/

/-- A limit of a node; a node whose limit is refused has none. -/
def limitOf (limit : Except RunError Nat) : Nat := limit.toOption.getD 0

/-- The tools declared for a node. -/
def toolsOf (inputs : StrMap Value) : List Value := (declaredTools inputs).toOption.getD []

/-- What the node's configuration and inputs allow. -/
def agentLimits (ctx : ProviderContext) (inputs : StrMap Value) (node : WorkflowNode) :
    CallLimits where
  modelCalls := limitOf (maxModelCalls node)
  toolCalls := limitOf (maxToolCalls node)
  tools := toolsOf inputs
  reserves := ReservesTokens ctx inputs node

/-- The bounds of an agent node, for a run `t` that was left with `r`. -/
structure KeepsBounds (library : ProviderLibrary) (ctx : ProviderContext) (inputs : StrMap Value)
    (node : WorkflowNode) (t : Trace ProviderOp ProviderResp)
    (r : Option (Except RunError NodeResult)) : Prop where
  modelCalls : t.countP (fun e => e.1.isModelCall) ≤ limitOf (maxModelCalls node)
  toolCalls : t.countP (fun e => e.1.executedTool.isSome) ≤ limitOf (maxToolCalls node)
  declared : ∀ e ∈ t, ∀ tool, e.1.executedTool = some tool → tool ∈ toolsOf inputs
  /-- Before every model call tokens are reserved, and no other model call uses them up. -/
  reserved : ∀ u e v, t = u ++ e :: v → e.1.isModelCall = true →
    ∃ u₁ e' u₂, u = u₁ ++ e' :: u₂ ∧ ReservesTokens ctx inputs node e' ∧
      ∀ e'' ∈ u₂, e''.1.isModelCall = false
  result : ∀ result, r = some (.ok result) → ∃ schema value bytes,
    inputs.get? "schema" = some (.object schema) ∧ maxResultBytes node = .ok bytes ∧
      result.outputs.get? "result" = some value ∧ library.Accepts (.object schema) value ∧
        (library.json.toVec value).length ≤ bytes
  noPanic : r ≠ some (.error .panic)
  /-- Whatever is answered from here on, the run comes to an end. -/
  ends : ∀ answer : (o : ProviderOp) → ProviderResp o, ∃ u y,
    Proc.Runs (executeAiAgent library ctx inputs node).run (t ++ u) (some y) ∧
      ∀ e ∈ u, e.2 = answer e.1

theorem requiredObject_eq_ok {inputs : StrMap Value} {name : String} {fields : StrMap Value}
    (h : requiredObject inputs name = .ok fields) : inputs.get? name = some (.object fields) := by
  unfold requiredObject at h
  split at h
  · next found hfound =>
    obtain ⟨value, hget, hobject⟩ := Option.bind_eq_some_iff.mp hfound
    rcases value with _ | _ | _ | _ | _ | members
    all_goals simp only [Value.asObject, reduceCtorEq] at hobject
    cases hobject
    cases h
    exact hget
  · cases h

theorem boundedWith_le {node : WorkflowNode} {name : String} {default minimum maximum n : Nat}
    (h : boundedWith node name default minimum maximum = .ok n) : n ≤ maximum := by
  unfold boundedWith at h
  dsimp only at h
  split at h
  · next found hfound =>
    cases h
    have hrange := (Option.filter_eq_some_iff.mp hfound).2
    simp only [Bool.decide_and, Bool.and_eq_true, decide_eq_true_eq] at hrange
    exact hrange.2
  · cases h

theorem raises_forM {α : Type} {P : RunError → Prop} {f : α → Except RunError Unit}
    (h : ∀ a, Raises P (f a)) (items : List α) : Raises P (items.forM f) := by
  induction items with
  | nil => exact raises_ok.mpr trivial
  | cons a items ih =>
    exact (h a).bind fun _ => ih

/-- The whole node, watched. -/
theorem watches_executeAiAgent (library : ProviderLibrary) (ctx : ProviderContext)
    (inputs : StrMap Value) (node : WorkflowNode) :
    WatchesCalls (agentLimits ctx inputs node) .initial (executeAiAgent library ctx inputs node)
      fun _ result => ∃ setup : AgentSetup, inputs.get? "schema" = some (.object setup.schema) ∧
        maxResultBytes node = .ok setup.maxResultBytes ∧ Submitted library setup result := by
  refine (calmly_settle_of (raises_requiredObject inputs "schema").ne_panic).watch
    fun s₁ schema h₁ hschema => ?_
  refine (calmly_settle_of (raises_boundedWith node _ _ _ _).ne_panic).watch
    fun s₂ modelCalls h₂ hmodelCalls => ?_
  refine (calmly_settle_of (raises_boundedWith node _ _ _ _).ne_panic).watch
    fun s₃ toolCalls h₃ htoolCalls => ?_
  refine (calmly_settle_of (raises_boundedWith node _ _ _ _).ne_panic).watch
    fun s₄ bytes h₄ hbytes => ?_
  refine (calmly_settle_of (raises_declaredTools inputs).ne_panic).watch
    fun s₅ tools h₅ htools => ?_
  refine (calmly_settle_of (raises_forM raises_validateAgentTool tools).ne_panic).watch
    fun s₆ _ h₆ _ => ?_
  refine (calmly_settle_of (raises_inputString inputs "task").ne_panic).watch
    fun s₇ task h₇ _ => ?_
  have hcalm := ((((((h₁.trans h₂).trans h₃).trans h₄).trans h₅).trans h₆).trans h₇)
  have hmax : toolCalls ≤ 64 := boundedWith_le htoolCalls
  have hmodelLimit : (agentLimits ctx inputs node).modelCalls = modelCalls := by
    rw [agentLimits, limitOf, maxModelCalls, hmodelCalls]
    rfl
  have htoolLimit : toolCalls = (agentLimits ctx inputs node).toolCalls := by
    rw [agentLimits, limitOf, maxToolCalls, htoolCalls]
    rfl
  have htoolsOf : tools = (agentLimits ctx inputs node).tools := by
    rw [agentLimits, toolsOf, htools]
    rfl
  refine (watches_agentRounds (fun _ h => h) htoolsOf htoolLimit (by omega) modelCalls 1 _ [] 0 s₇
    ?_ ?_).mono (fun _ result hresult =>
      ⟨⟨schema, modelCalls, toolCalls, bytes, tools⟩, ?_, hbytes, hresult⟩) fun _ _ he => he
  · rw [hcalm.requests, hmodelLimit]
    simp [CallState.initial]
  · rw [hcalm.executed]
    simp [CallState.initial]
  · exact requiredObject_eq_ok hschema

/-- **An agent keeps its bounds** in every run, whatever the model, the tools and the store
answer. -/
theorem agent_keeps_its_bounds (library : ProviderLibrary) (ctx : ProviderContext)
    (inputs : StrMap Value) (node : WorkflowNode) (t : Trace ProviderOp ProviderResp)
    (r : Option (Except RunError NodeResult))
    (h : Proc.Runs (executeAiAgent library ctx inputs node).run t r) :
    KeepsBounds library ctx inputs node t r := by
  obtain ⟨hpasses, hresult⟩ := watches_executeAiAgent library ctx inputs node t r h
  constructor
  · have hcount := hpasses.countP_le CallState.requests (fun e => e.1.isModelCall)
      (fun _ _ => rfl) (fun _ _ hallowed hsend => (hallowed.1 hsend).1) (Nat.zero_le _)
    exact (Nat.le_add_left _ _).trans hcount
  · have hallowed (s : CallState) (e : ProviderEvent)
        (he : (callMonitor (agentLimits ctx inputs node)).allowed s e)
        (hsome : e.1.executedTool.isSome = true) : s.executed < limitOf (maxToolCalls node) := by
      obtain ⟨tool, htool⟩ := Option.isSome_iff_exists.mp hsome
      exact (he.2 tool htool).1
    have hcount := hpasses.countP_le CallState.executed (fun e => e.1.executedTool.isSome)
      (fun _ _ => rfl) hallowed (Nat.zero_le _)
    exact (Nat.le_add_left _ _).trans hcount
  · intro e he tool htool
    obtain ⟨s, hallowed⟩ := hpasses.exists_allowed he
    exact (hallowed.2 tool htool).2
  · rintro u e v rfl hsend
    have hkeep (s : CallState) (e : ProviderEvent)
        (hflag : ((callMonitor (agentLimits ctx inputs node)).next s e).reserved) :
        ReservesTokens ctx inputs node e ∨ s.reserved ∧ ¬ e.1.isModelCall = true := by
      obtain ⟨hquiet, hreserved⟩ := hflag
      exact hreserved.imp_right fun hs => ⟨hs, by simp [hquiet]⟩
    obtain ⟨u₁, e', u₂, rfl, hreserve, hkept⟩ := Monitor.exists_raise CallState.reserved
      (ReservesTokens ctx inputs node) (fun e => e.1.isModelCall = true) hkeep id
      (hpasses.allowed.1 hsend).2
    exact ⟨u₁, e', u₂, rfl, hreserve, fun e'' he'' => by simpa using hkept e'' he''⟩
  · rintro result rfl
    obtain ⟨setup, hschema, hbytes, value, hvalue, haccepts, hsize⟩ := hresult _ rfl
    exact ⟨setup.schema, value, setup.maxResultBytes, hschema, hbytes, hvalue, haccepts, hsize⟩
  · rintro rfl
    exact hresult _ rfl rfl
  · exact fun answer => h.complete answer

/-- A library that checks the type of objects only. -/
def objectLibrary : ProviderLibrary where
  json := Json.reference 127
  toText value := String.ofList (Json.render (fun _ => ['0']) value)
  readError _ := "expected value"
  tokensFromSecret _ := .error "missing field"
  tokensToSecret tokens := .ok tokens.refresh
  validatorError schema := if schema.asObject.isSome then none else some "not a schema"
  firstError schema value :=
    if schema.get? "type" = some (.string "object") ∧ value.asObject = none then
      some "is not of type object"
    else none

def sampleAgentNode : WorkflowNode where
  id := "agent"
  nodeType := "kakune.ai.agent@1"
  config := [("maxModelCalls", .number (.int 2)), ("model", .string "m"),
    ("provider", .string "local")]

def sampleAgentInputs : StrMap Value :=
  [("maxTokens", .number (.int 100)), ("schema", .object [("type", .string "object")]),
    ("task", .string "say done"),
    ("tools", .array [.object [("input_schema", .object []), ("name", .string "note"),
      ("type", .string "echo")]])]

/-- A model that first asks for a tool and then submits a result. -/
def sampleReply (request : Nat) : MessagesResponse where
  id := none
  model := none
  role := some .assistant
  content := [.object [("id", .string "1"), ("input", .object []),
    ("name", .string (if request = 0 then "note" else "submit_result")),
    ("type", .string "tool_use")]]
  stopReason := none
  usage := none
  raw := .null

/-- The surroundings of the sample node, by the number of requests sent. -/
def sampleSurroundings (requests : Nat) : (o : ProviderOp) → ProviderResp o × Nat
  | .getProviderProfile profileId =>
    (.ok (some ⟨⟨profileId, .miniMax, ["m"], .apiKeySecret "key", .object [], ⟨.available, none⟩⟩,
      rfl⟩), requests)
  | .resolveSecret _ | .startTraceSpan _ _ _ _ => (.ok "text", requests)
  | .check | .setSecret _ _ | .reserveProviderTokens _ _ _ | .finishTraceSpan _ _ _
  | .recordProviderInvocation _ | .startMcpRuntime => (.ok (), requests)
  | .sendMiniMax _ _ _ => (⟨1, true, some (.ok (sampleReply requests))⟩, requests + 1)
  | .sendCodex _ _ _ _ => (⟨0, true, none⟩, requests)
  | .echo _ _ => ((), requests)
  | .callMcpTool _ _ _ _ => (none, requests)

/-- The run of the sample node. -/
def sampleAgentRun : Trace ProviderOp ProviderResp × Except RunError NodeResult × Nat :=
  (executeAiAgent objectLibrary ⟨"", some 1000⟩ sampleAgentInputs sampleAgentNode).run.simulate
    sampleSurroundings 0

/-- Two model calls and one tool. -/
theorem sampleAgent_keeps_its_bounds :
    sampleAgentRun.1.countP (fun e => e.1.isModelCall) = 2 ∧
      sampleAgentRun.1.countP (fun e => e.1.executedTool.isSome) = 1 ∧
        sampleAgentRun.2.1.toBool = true ∧
          KeepsBounds objectLibrary ⟨"", some 1000⟩ sampleAgentInputs sampleAgentNode
            sampleAgentRun.1 (some sampleAgentRun.2.1) :=
  ⟨by decide +kernel, by decide +kernel, by decide +kernel,
    agent_keeps_its_bounds _ _ _ _ _ _ (Proc.runs_simulate sampleSurroundings _ 0)⟩

end KakuneCore
