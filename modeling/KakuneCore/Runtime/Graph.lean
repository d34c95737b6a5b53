import KakuneCore.Runtime.Resolve

/-!
# The graph scheduler

`execute_graph`: rounds of closing unselected paths, collecting the ready nodes, running them in
batches of worker threads and settling their results. The scheduler is written over an arbitrary
executor `exec` of one node; `KakuneCore.Runtime.Nodes` ties the knot with `execute_node`, whose
control nodes run nested graphs.

The loops are bounded by the number of nodes: a pass that closes something settles a node, and so
does a round. `RunError.outOfFuel` marks the bound, and is shown never to be reached.
-/

namespace KakuneCore

/-- Split a list into consecutive chunks of at most `size` elements. The chunk under construction is
kept in reverse. -/
def chunksFrom {α : Type} (size : Nat) : List α → List α → List (List α)
  | [], [] => []
  | current, [] => [current.reverse]
  | current, x :: xs =>
    if current.length + 1 < size then chunksFrom size (x :: current) xs
    else (x :: current).reverse :: chunksFrom size [] xs

def chunks {α : Type} (size : Nat) (xs : List α) : List (List α) := chunksFrom size [] xs

/-- `slice::chunks`: a size of zero panics. -/
def chunked {α : Type} (size : Nat) (xs : List α) : RunM (List (List α)) := do
  doWhen (size = 0) (throw .panic)
  pure (chunks size xs)

/-! ### Scheduler state -/

/-- The mutable variables of `execute_graph`. The two sets are kept as lists without repeats. -/
structure GraphState where
  settled : List String
  activated : List String
  outputs : StrMap (StrMap Value) := []
  locals : StrMap Value

/-- Add an id to a set. -/
def insertId (id : String) (ids : List String) : List String :=
  if id ∈ ids then ids else id :: ids

/-- The ids of the nodes with a route to `id`. -/
def predecessors (nodes : List WorkflowNode) (id : String) : List String :=
  (nodes.filter fun candidate => id ∈ candidate.targets).map WorkflowNode.id

/-- The condition under which a path is closed at a node. -/
def closable (nodes : List WorkflowNode) (activated settled : List String) (id : String) : Bool :=
  id ∉ settled && id ∉ activated && (predecessors nodes id).all (· ∈ settled)

/-- One `for node in nodes` pass of the closing loop. -/
def closePass (nodes : List WorkflowNode) (activated : List String) :
    List WorkflowNode → List String → List String
  | [], settled => settled
  | node :: rest, settled =>
    closePass nodes activated rest
      (if closable nodes activated settled node.id then node.id :: settled else settled)

/-- The `while closed` loop: passes until one changes nothing. -/
def closeUnselected (nodes : List WorkflowNode) (activated : List String) :
    Nat → List String → List String
  | 0, settled => settled
  | fuel + 1, settled =>
    let next := closePass nodes activated nodes settled
    if next.length = settled.length then settled
    else closeUnselected nodes activated fuel next

/-- The state after closing unselected paths. -/
def GraphState.close (nodes : List WorkflowNode) (state : GraphState) : GraphState :=
  { state with
    settled := closeUnselected nodes state.activated (nodes.length + 1) state.settled }

/-- The condition under which a node is ready. -/
def GraphState.isReady (nodes : List WorkflowNode) (state : GraphState) (node : WorkflowNode) :
    Bool :=
  node.id ∉ state.settled && node.id ∈ state.activated &&
    (predecessors nodes node.id).all (· ∈ state.settled) &&
    node.dependencies.all (· ∈ state.settled)

def GraphState.ready (nodes : List WorkflowNode) (state : GraphState) : List WorkflowNode :=
  nodes.filter (state.isReady nodes)

/-- The `writers` check: no two ready set-variable nodes write one variable. -/
def checkWriters : List String → List WorkflowNode → Except RunError Unit
  | _, [] => .ok ()
  | writers, node :: nodes =>
    if node.kind = .setVariable then
      match node.variableName with
      | none => .error .variableNameMissing
      | some name =>
        if name ∈ writers then .error (.concurrentWrites name)
        else checkWriters (name :: writers) nodes
    else checkWriters writers nodes

/-- Settle one successful node: activate the targets of its route, keep its outputs, and write
its variable. -/
def GraphState.settle (state : GraphState) (node : WorkflowNode) (inputs : StrMap Value)
    (result : NodeResult) : GraphState where
  settled := insertId node.id state.settled
  activated := ((node.on.get? result.route).map ControlTargets.iter).getD [] ++ state.activated
  outputs := state.outputs.insert node.id result.outputs
  locals :=
    if node.kind = .setVariable then
      match node.variableName, inputs.get? "value" with
      | some name, some value => state.locals.insert ("$" ++ name) value
      | _, _ => state.locals
    else state.locals

/-! ### Batches -/

/-- The executor of one node: context, node, resolved inputs, local bindings. -/
abbrev NodeExecutor : Type 1 :=
  ExecutionContext → WorkflowNode → StrMap Value → StrMap Value → RunM NodeResult

/-- Resolve the inputs of the nodes of a batch, in order. -/
def prepareBatch (ctx : ExecutionContext) (state : GraphState) :
    List WorkflowNode → RunM (List (WorkflowNode × StrMap Value))
  | [] => pure []
  | node :: nodes => do
    observe (.resolving ctx.scope node state.outputs state.locals)
    let inputs ← resolveInputs ctx.serde state.outputs state.locals node.inputs
    let rest ← prepareBatch ctx state nodes
    pure ((node, inputs) :: rest)

/-- The worker thread of one node. An error sets the abort flag of the graph; a panic unwinds
past that and is turned into an error by `join`. -/
def worker (exec : NodeExecutor) (ctx : ExecutionContext) (state : GraphState)
    (node : WorkflowNode) (inputs : StrMap Value) : Proc Op Resp (Except RunError NodeResult) := do
  let _ ← Proc.call (.observe (.starting ctx.scope node.id state.settled inputs state.locals))
  let result ← (exec ctx node inputs state.locals).run
  match result with
  | .ok result =>
    let _ ← Proc.call (.observe (.finished ctx.scope node.id (.ok result)))
    pure (.ok result)
  | .error .panic =>
    let _ ← Proc.call (.observe (.finished ctx.scope node.id (.error .workerPanicked)))
    pure (.error .workerPanicked)
  | .error error =>
    let _ ← Proc.call (.observe (.finished ctx.scope node.id (.error error)))
    let _ ← Proc.call (.storeAbort ctx.control.abort)
    pure (.error error)

/-- Whether the outcome of a node is stored redacted. -/
def isSensitive (ctx : ExecutionContext) (node : WorkflowNode) : Bool :=
  ctx.sensitive || node.usesSecret

/-- `if failure.is_none() || error != "sibling node failed"`. -/
def selectFailure (failure : Option RunError) (error : RunError) : Option RunError :=
  if failure.isNone || error.message ≠ RunError.siblingFailed.message then some error else failure

/-- The loop over the results of a batch: record every outcome, settle the successes, and select
the failure to report. -/
def settleBatch (ctx : ExecutionContext) :
    List ((WorkflowNode × StrMap Value) × Except RunError NodeResult) → Option RunError →
      GraphState → RunM (Option RunError × GraphState)
  | [], failure, state => pure (failure, state)
  | ((node, inputs), .ok result) :: rest, failure, state => do
    let sensitive := isSensitive ctx node
    request (α := Unit) (.recordNodeOutcome (scopedNodeId ctx.scope node.id)
      (.succeeded (if sensitive then some "sensitive result redacted" else result.message)
        (nodeResultValue result sensitive)))
    settleBatch ctx rest failure (state.settle node inputs result)
  | ((node, _), .error error) :: rest, failure, state => do
    request (α := Unit) (.recordNodeOutcome (scopedNodeId ctx.scope node.id)
      (.failed error.message))
    settleBatch ctx rest (selectFailure failure error) state

/-- One batch: resolve, run the workers side by side, settle. -/
def runBatch (exec : NodeExecutor) (ctx : ExecutionContext) (batch : List WorkflowNode)
    (state : GraphState) : RunM GraphState := do
  let prepared ← prepareBatch ctx state batch
  let results ← ExceptT.lift
    (Proc.parallel (prepared.map fun (node, inputs) => worker exec ctx state node inputs))
  let (failure, state) ← settleBatch ctx (prepared.zip results) none state
  match failure with
  | none => pure state
  | some error => throw error

/-- The batches of a round, one after another. -/
def runBatches (exec : NodeExecutor) (ctx : ExecutionContext) :
    List (List WorkflowNode) → GraphState → RunM GraphState
  | [], state => pure state
  | batch :: batches, state => do
    let state ← runBatch exec ctx batch state
    runBatches exec ctx batches state

/-! ### Rounds -/

/-- `while settled.len() < nodes.len()`, to a number of rounds. -/
def runRounds (exec : NodeExecutor) (ctx : ExecutionContext) (nodes : List WorkflowNode) :
    Nat → GraphState → RunM (StrMap (StrMap Value))
  | 0, state =>
    if state.settled.length < nodes.length then throw .outOfFuel else pure state.outputs
  | rounds + 1, state =>
    if state.settled.length < nodes.length then do
      ctx.control.check
      let state := state.close nodes
      let ready := state.ready nodes
      if ready.isEmpty then
        if state.settled.length = nodes.length then pure state.outputs else throw .noProgress
      else do
        observe (.round ctx.scope ready)
        liftExcept (checkWriters [] ready)
        let batches ← chunked ctx.maxParallelNodes ready
        let state ← runBatches exec ctx batches state
        runRounds exec ctx nodes rounds state
    else pure state.outputs

/-- The context `execute_graph` runs its nodes in: the control is forked. -/
def ExecutionContext.forked (ctx : ExecutionContext) : ExecutionContext :=
  { ctx with control := ctx.control.fork (.graph ctx.scope ctx.activeSpan) }

/-- The state `execute_graph` starts from. -/
def GraphState.initial (entry : String) (locals : StrMap Value) : GraphState where
  settled := []
  activated := [entry]
  locals

/-- `execute_graph`, over an executor of single nodes. -/
def executeGraphWith (exec : NodeExecutor) (ctx : ExecutionContext) (nodes : List WorkflowNode)
    (entry : String) (locals : StrMap Value) : RunM (StrMap (StrMap Value)) :=
  runRounds exec ctx.forked nodes nodes.length (.initial entry locals)

end KakuneCore
