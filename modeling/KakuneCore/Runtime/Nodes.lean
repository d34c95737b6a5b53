import KakuneCore.Runtime.Graph

/-!
# Node execution

`execute_node_with_retry` with its checkpoints and spans, `execute_node`, and the control nodes
that run nested graphs. `executeGraph` ties the recursion through a bound on the nesting depth,
which the validator keeps at 32.
-/

namespace KakuneCore

/-! ### Typed inputs -/

def inputString (inputs : StrMap Value) (name : String) : Except RunError String :=
  match (inputs.get? name).bind Value.asStr with
  | some text => .ok text
  | none => .error (.node s!"input {name} must be a string")

def inputBoolean (inputs : StrMap Value) (name : String) : Except RunError Bool :=
  match inputs.get? name with
  | some (.bool b) => .ok b
  | some (.string "true") => .ok true
  | some (.string "false") => .ok false
  | _ => .error (.node s!"input {name} must be a boolean")

def inputU64 (inputs : StrMap Value) (name : String) : Except RunError Nat :=
  let parsed := match inputs.get? name with
    | some (.number n) => n.asU64
    | some (.string text) => parseUnsigned (2 ^ 64) text.toList
    | _ => none
  match parsed with
  | some n => .ok n
  | none => .error (.node s!"input {name} must be a non-negative integer")

/-! ### Control nodes -/

/-- The runner of a nested graph: context, graph, local bindings. -/
abbrev SubgraphRunner : Type 1 :=
  ExecutionContext → WorkflowSubgraph → StrMap Value → RunM (StrMap Value)

def switchSelector (serde : SerdeJson) : Value → Except RunError String
  | .string text => .ok text
  | .null => .ok "null"
  | .bool b => .ok (if b then "true" else "false")
  | .number n => .ok (numberText serde n)
  | .array _ | .object _ =>
    .error (.node "switch input value must be a string, number, boolean, or null")

/-- The branch a switch node takes for a selector. -/
def switchBranch (node : WorkflowNode) (selector : String) : Except RunError String :=
  let case := ((node.config.get? "cases").bind Value.asObject).bind fun cases =>
    (cases.get? selector).bind Value.asStr
  match case <|> (node.config.get? "default").bind Value.asStr with
  | some name => .ok name
  | none => .error (.node s!"switch node {node.id} has no branch for {selector}")

/-- The scope of a switch branch. -/
def switchScope (scope nodeId branch : String) : String := s!"{scope}/{nodeId}/{branch}"

/-- The scope of a foreach item. -/
def itemScope (scope nodeId : String) (index : Nat) : String := s!"{scope}/{nodeId}/items/{index}"

/-- The scope of a loop iteration. -/
def iterationScope (scope nodeId : String) (iteration : Nat) : String :=
  s!"{scope}/{nodeId}/iterations/{iteration}"

theorem switchScope_eq (scope nodeId branch : String) :
    switchScope scope nodeId branch = scope ++ "/" ++ nodeId ++ "/" ++ branch := by
  simp [switchScope, toString, String.append_assoc]

theorem itemScope_eq (scope nodeId : String) (index : Nat) :
    itemScope scope nodeId index =
      scope ++ "/" ++ nodeId ++ "/" ++ ("items/" ++ toString index) := by
  have hsplit (tail : String) : "/items/" ++ tail = "/" ++ ("items/" ++ tail) := by
    rw [← String.append_assoc]
    rfl
  simp [itemScope, hsplit, toString, String.append_assoc]

theorem iterationScope_eq (scope nodeId : String) (iteration : Nat) :
    iterationScope scope nodeId iteration =
      scope ++ "/" ++ nodeId ++ "/" ++ ("iterations/" ++ toString iteration) := by
  have hsplit (tail : String) : "/iterations/" ++ tail = "/" ++ ("iterations/" ++ tail) := by
    rw [← String.append_assoc]
    rfl
  simp [iterationScope, hsplit, toString, String.append_assoc]

def executeSwitch (subgraph : SubgraphRunner) (ctx : ExecutionContext) (node : WorkflowNode)
    (inputs locals : StrMap Value) : RunM NodeResult := do
  match inputs.get? "value" with
  | none => throw (.node "input value is required")
  | some value =>
    let selector ← liftExcept (switchSelector ctx.serde value)
    let name ← liftExcept (switchBranch node selector)
    match StrMap.get? node.branches name with
    | none => throw (.node s!"switch node {node.id} references unavailable branch {name}")
    | some branch =>
      let outputs ← subgraph { ctx with scope := switchScope ctx.scope node.id name } branch
        (locals.insert "$value" value)
      pure { route := name, outputs := outputs.insert "branch" (.string name) }

/-- The element of `results` for one foreach item. -/
def foreachElement (index : Nat) (item : Value) : Except RunError (StrMap Value) → Value
  | .ok outputs => .object [("index", .number (.int index)), ("item", item),
      ("outputs", .object outputs)]
  | .error error => .object [("error", .string error.message), ("index", .number (.int index)),
      ("item", item)]

/-- Collect the outcomes of a chunk: under `fail` the first error ends the node. -/
def collectItems (continueOnError : Bool) :
    Nat → List (Value × Except RunError (StrMap Value)) → Except RunError (List Value)
  | _, [] => .ok []
  | index, (item, outcome) :: rest =>
    match outcome, continueOnError with
    | .error error, false => .error (.foreachItem index error)
    | outcome, _ => do
      let elements ← collectItems continueOnError (index + 1) rest
      .ok (foreachElement index item outcome :: elements)

/-- The worker of one item. -/
def itemWorker (subgraph : SubgraphRunner) (ctx : ExecutionContext) (node : WorkflowNode)
    (body : WorkflowSubgraph) (locals : StrMap Value) (index : Nat) (item : Value) :
    Proc Op Resp (Except RunError (StrMap Value)) := do
  let result ← (subgraph { ctx with scope := itemScope ctx.scope node.id index } body
    ((locals.insert "$item" item).insert "$index" (.number (.int index)))).run
  let _ ← Proc.call (.observe (.itemFinished ctx.scope node.id index result))
  pure result

def isPanic {α : Type} : Except RunError α → Bool
  | .error .panic => true
  | _ => false

/-- `task.join()` of the items of a chunk: a panic of an item ends the node. -/
def joinItems (outcomes : List (Except RunError (StrMap Value))) : Except RunError Unit :=
  if outcomes.any isPanic then .error (.node "foreach worker panicked") else .ok ()

/-- The chunks of a foreach node, one after another; `start` is the index of the next item. -/
def foreachChunks (subgraph : SubgraphRunner) (ctx : ExecutionContext) (node : WorkflowNode)
    (body : WorkflowSubgraph) (locals : StrMap Value) (continueOnError : Bool) :
    Nat → List (List Value) → RunM (List Value)
  | _, [] => pure []
  | start, chunk :: rest => do
    let outcomes ← ExceptT.lift (Proc.parallel (chunk.zipIdx.map fun (item, offset) =>
      itemWorker subgraph ctx node body locals (start + offset) item))
    liftExcept (joinItems outcomes)
    let elements ← liftExcept (collectItems continueOnError start (chunk.zip outcomes))
    let others ← foreachChunks subgraph ctx node body locals continueOnError
      (start + chunk.length) rest
    pure (elements ++ others)

/-- `on_error == "continue"`. -/
def WorkflowNode.continuesOnError (node : WorkflowNode) : Bool :=
  (node.config.get? "onError").bind Value.asStr = some "continue"

def executeForeach (subgraph : SubgraphRunner) (ctx : ExecutionContext) (node : WorkflowNode)
    (inputs locals : StrMap Value) : RunM NodeResult := do
  match (inputs.get? "items").bind Value.asArray,
      (node.config.get? "maxConcurrency").bind Value.asU64, node.body with
  | none, _, _ => throw (.node "input items must be an array")
  | some _, none, _ => throw (.node "foreach maxConcurrency is unavailable")
  | some _, some _, none => throw (.node s!"foreach node {node.id} has no body")
  | some items, some concurrency, some body =>
    let batches ← chunked concurrency items
    let results ← foreachChunks subgraph ctx node body locals node.continuesOnError 0 batches
    pure { route := "success", outputs := [("results", .array results)] }

/-- The iterations of a loop node from `iteration` on, with `remaining` still allowed. -/
def loopIterations (subgraph : SubgraphRunner) (ctx : ExecutionContext) (node : WorkflowNode)
    (body : WorkflowSubgraph) (locals : StrMap Value) :
    (remaining iteration : Nat) → (state : Value) → (last : StrMap Value) → RunM NodeResult
  | 0, iteration, state, last =>
    pure
      { route := "maxIterations"
        outputs := ((last.insert "iterations" (.number (.int iteration))).insert "state"
          state).insert "completed" (.bool false)
        message := some s!"stopped after {iteration} iterations" }
  | remaining + 1, iteration, state, _ => do
    let outputs ← subgraph { ctx with scope := iterationScope ctx.scope node.id iteration } body
      ((locals.insert "$state" state).insert "$iteration" (.number (.int iteration)))
    match outputs.get? "state", (outputs.get? "continue").bind Value.asBool with
    | none, _ => throw (.node s!"loop node {node.id} body did not produce state")
    | some _, none =>
      throw (.node s!"loop node {node.id} body output continue must be a boolean")
    | some state, some false =>
      pure
        { route := "success"
          outputs := ((outputs.insert "iterations" (.number (.int (iteration + 1)))).insert
            "state" state).insert "completed" (.bool true) }
    | some state, some true =>
      loopIterations subgraph ctx node body locals remaining (iteration + 1) state outputs

def executeLoop (subgraph : SubgraphRunner) (ctx : ExecutionContext) (node : WorkflowNode)
    (inputs locals : StrMap Value) : RunM NodeResult := do
  match (node.config.get? "maxIterations").bind Value.asU64, node.body, inputs.get? "state" with
  | none, _, _ => throw (.node "loop maxIterations is unavailable")
  | some _, none, _ => throw (.node s!"loop node {node.id} has no body")
  | some _, some _, none => throw (.node "input state is required")
  | some maxIterations, some body, some state =>
    loopIterations subgraph ctx node body locals maxIterations 0 state []

/-! ### Single nodes -/

/-- An external node. HTTP checks the control before it sends; every external node checks it as
often as its answer says while it waits. -/
def executeExternal (ctx : ExecutionContext) (node : WorkflowNode) (inputs : StrMap Value) :
    RunM NodeResult := do
  doWhen (node.kind = .httpRequest) ctx.control.check
  let (polls, result) ← ask
    (.invoke (scopedNodeId ctx.scope node.id) node.nodeType node.config inputs)
  ctx.control.poll polls
  liftExcept (ofAnswer result)

def executeDelay (ctx : ExecutionContext) (node : WorkflowNode) (inputs : StrMap Value) :
    RunM NodeResult := do
  let milliseconds ← liftExcept (inputU64 inputs "durationMs")
  let remaining ← request (α := Nat)
    (.durableDelayRemaining (scopedNodeId ctx.scope node.id) milliseconds)
  ctx.control.wait remaining
  pure { route := "success", message := some s!"waited {milliseconds}ms" }

/-- `execute_node`, given the runner of nested graphs. -/
def executeNode (subgraph : SubgraphRunner) : NodeExecutor := fun ctx node inputs locals =>
  match node.kind with
  | .end => pure { route := "success" }
  | .log => do
    let message ← liftExcept (inputString inputs "message")
    pure { route := "success", message := some message }
  | .if => do
    let condition ← liftExcept (inputBoolean inputs "condition")
    pure { route := if condition then "true" else "false" }
  | .switch => executeSwitch subgraph ctx node inputs locals
  | .foreach => executeForeach subgraph ctx node inputs locals
  | .loop => executeLoop subgraph ctx node inputs locals
  | .delay => executeDelay ctx node inputs
  | .join | .merge | .pass => pure { route := "success", outputs := inputs }
  | .setVariable =>
    match inputs.get? "value" with
    | some value => pure { route := "success", outputs := [("value", value)] }
    | none => throw .panic
  | .httpRequest | .processRun => executeExternal ctx node inputs
  | .other =>
    if isBuiltinNodeType node.nodeType || ctx.plugins.contains node.nodeType then
      executeExternal ctx node inputs
    else throw (.node s!"node type {node.nodeType} is not installed")

/-! ### Retries and checkpoints -/

/-- The status a checkpoint is begun with. -/
def NodeKind.checkpointStatus : NodeKind → CheckpointStatus
  | .delay => .waiting
  | .foreach | .loop | .switch => .container
  | _ => .running

/-- Addition and multiplication of `u64` that stop at the largest value. -/
def saturate (n : Nat) : Nat := min n (2 ^ 64 - 1)

/-- The wait before the attempt after `attempt`, in milliseconds. The jitter bound is
incremented in `u64`; at the largest value that overflows and the worker panics. -/
def retryDelay (policy : RetryPolicy) (attempt : Nat) : Option Nat :=
  let base := saturate (policy.initialBackoffMs * 2 ^ min (attempt - 1) 20)
  let capped := (policy.maxBackoffMs.map (min base)).getD base
  match policy.jitterMs with
  | none => some capped
  | some maximum =>
    if maximum + 1 < 2 ^ 64 then some (saturate (capped + attempt % (maximum + 1))) else none

/-- The errors that are never retried. -/
def RunError.stopsRetry (error : RunError) : Bool :=
  error.message = RunError.cancellationRequested.message ||
    error.message = RunError.timedOut.message || error.message = RunError.siblingFailed.message

/-- The status of the span of an attempt that failed for good. -/
def RunError.spanStatus (error : RunError) : SpanStatus :=
  if error.message = RunError.cancellationRequested.message ∨
      error.message = RunError.timedOut.message then .cancelled else .failed

/-- A successful attempt: the size limit, the checkpoint, the span. -/
def completeAttempt (ctx : ExecutionContext) (node : WorkflowNode) (span : SpanId)
    (result : NodeResult) : RunM NodeResult := do
  match ctx.maxNodeResultBytes.filter (· < ctx.serde.encodedLength result.toValue) with
  | some limit =>
    let error := RunError.node s!"node {node.id} result exceeds the {limit}-byte limit"
    request (α := Unit) (.finishTraceSpan span .failed (some error.message))
    throw error
  | none =>
    request (α := Unit) (.completeCheckpoint (scopedNodeId ctx.scope node.id)
      (if isSensitive ctx node then none else some result.toValue))
    request (α := Unit) (.finishTraceSpan span .succeeded none)
    pure result

/-- The last attempt failed. A panic unwinds without closing the span. -/
def failAttempt (span : SpanId) (error : RunError) : RunM NodeResult := do
  doWhen (error = .panic) (throw .panic)
  request (α := Unit) (.finishTraceSpan span error.spanStatus (some error.message))
  throw error

/-- The attempts of a node from `attempt` on, with `remaining` more allowed after it. -/
def runAttempts (body : NodeExecutor) (ctx : ExecutionContext) (node : WorkflowNode)
    (inputs locals : StrMap Value) (remaining attempt : Nat) : RunM NodeResult := do
  let span : SpanId := (scopedNodeId ctx.scope node.id, attempt) :: ctx.activeSpan
  request (α := Unit) (.startTraceSpan span node.nodeType)
  observe (.executing (scopedNodeId ctx.scope node.id) node.kind)
  match ← ExceptT.lift (body { ctx with activeSpan := span } node inputs locals).run with
  | .ok result => completeAttempt ctx node span result
  | .error error =>
    match remaining with
    | 0 => failAttempt span error
    | remaining + 1 =>
      if error = .panic ∨ error.stopsRetry then failAttempt span error
      else do
        request (α := Unit) (.finishTraceSpan span .failed (some error.message))
        match node.retry.bind (retryDelay · attempt) with
        | none => throw .panic
        | some delay =>
          ctx.control.wait delay
          runAttempts body ctx node inputs locals remaining (attempt + 1)

/-- `execute_node_with_retry`, over the node body. -/
def executeNodeWithRetry (body : NodeExecutor) : NodeExecutor := fun ctx node inputs locals => do
  match ← request (α := Option Value) (.checkpointResult (scopedNodeId ctx.scope node.id)) with
  | some saved =>
    match NodeResult.ofValue saved with
    | some result => pure result
    | none => throw (.node "invalid node checkpoint")
  | none =>
    request (α := Unit)
      (.beginCheckpoint (scopedNodeId ctx.scope node.id) node.kind.checkpointStatus)
    match (node.retry.map RetryPolicy.maxAttempts).getD 1 with
    | 0 => throw .panic
    | attempts + 1 => runAttempts body ctx node inputs locals attempts 1

/-! ### Nested graphs -/

/-- The runner of a graph: context, nodes, entry, local bindings. -/
abbrev GraphRunner : Type 1 :=
  ExecutionContext → List WorkflowNode → String → StrMap Value → RunM (StrMap (StrMap Value))

/-- `execute_subgraph`. -/
def executeSubgraph (graph : GraphRunner) : SubgraphRunner := fun ctx subgraph locals => do
  let outputs ← graph ctx subgraph.nodes subgraph.entry locals
  resolveInputs ctx.serde outputs locals subgraph.outputs

/-- `execute_graph`, with graphs nested at most `depth` deep, itself included. -/
def executeGraph : (depth : Nat) → GraphRunner
  | 0 => fun _ _ _ _ => throw .outOfFuel
  | depth + 1 =>
    executeGraphWith (executeNodeWithRetry (executeNode (executeSubgraph (executeGraph depth))))

/-- The executor of the nodes of a graph whose nested graphs may be `depth` deep. -/
def nodeExecutor (depth : Nat) : NodeExecutor :=
  executeNodeWithRetry (executeNode (executeSubgraph (executeGraph depth)))

theorem executeGraph_succ (depth : Nat) :
    executeGraph (depth + 1) = executeGraphWith (nodeExecutor depth) := rfl

end KakuneCore
