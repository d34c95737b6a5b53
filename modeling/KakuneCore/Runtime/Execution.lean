import KakuneCore.Runtime.Nodes

/-!
# Executing a plan

`execute_nodes` and the part of `execute_prepared_workflow_with_shutdown` that follows admission:
run the top-level graph, store the result, and settle the status of the execution.
-/

namespace KakuneCore

mutual

/-- `graph_uses_secret` for one node: a binding, a plugin, or a nested graph uses a secret. -/
def nodeUsesSecret (plugins : PluginRegistry) : WorkflowNode → Bool
  | ⟨_, nodeType, _, inputs, _, _, branches, body⟩ =>
    inputs.values.any bindingUsesSecret
      || ((plugins.get? nodeType).map RegisteredPluginNode.usesSecrets).getD false
      || bodyUsesSecret plugins body || branchesUseSecret plugins branches

def branchesUseSecret (plugins : PluginRegistry) : List (String × WorkflowSubgraph) → Bool
  | [] => false
  | (_, ⟨_, nodes, _⟩) :: branches =>
    nodesUseSecret plugins nodes || branchesUseSecret plugins branches

def bodyUsesSecret (plugins : PluginRegistry) : Option WorkflowSubgraph → Bool
  | none => false
  | some ⟨_, nodes, _⟩ => nodesUseSecret plugins nodes

/-- `graph_uses_secret`. -/
def nodesUseSecret (plugins : PluginRegistry) : List WorkflowNode → Bool
  | [] => false
  | node :: nodes => nodeUsesSecret plugins node || nodesUseSecret plugins nodes

end

/-- `ExecutionLimits`, as far as they bound results. -/
structure ExecutionLimits where
  maxExecutionResultBytes : Option Nat := some (4 * 1048576)
  maxNodeResultBytes : Option Nat := some 1048576

/-- The nodes of a plan, as the runtime extracts them. -/
def ExecutionPlan.workflowNodes (plan : ExecutionPlan) : List WorkflowNode :=
  plan.nodes.map PlannedNode.node

/-- The context `execute_nodes` builds. -/
def ExecutionPlan.context (plan : ExecutionPlan) (plugins : PluginRegistry)
    (limits : ExecutionLimits) (serde : SerdeJson) : ExecutionContext where
  plugins
  maxParallelNodes := plan.policy.maxParallelNodes.getD 8
  maxNodeResultBytes := limits.maxNodeResultBytes
  sensitive := nodesUseSecret plugins plan.workflowNodes
  serde

/-- The local bindings a plan starts with. -/
def ExecutionPlan.locals (plan : ExecutionPlan) : StrMap Value :=
  [("$input", plan.inputValues), ("$trigger", plan.triggerValues)]

/-- The outputs of the workflow, with those that use a secret redacted. -/
def redactOutputs : StrMap WorkflowBinding → StrMap Value → StrMap Value
  | [], outputs => outputs
  | (name, binding) :: bindings, outputs =>
    redactOutputs bindings
      (if bindingUsesSecret binding then outputs.insert name (.string "[redacted]") else outputs)

/-- How deep control nodes may be nested in a graph, itself included. -/
def maxGraphDepth : Nat := 33

/-- `execute_nodes`. -/
def executeNodes (plan : ExecutionPlan) (plugins : PluginRegistry) (limits : ExecutionLimits)
    (serde : SerdeJson) : RunM Unit := do
  let nodeOutputs ← executeGraph maxGraphDepth (plan.context plugins limits serde)
    plan.workflowNodes plan.entry plan.locals
  let outputs ← resolveInputs serde nodeOutputs [] plan.outputs
  let result := Value.object (redactOutputs plan.outputs outputs)
  match limits.maxExecutionResultBytes.filter (· < serde.encodedLength result) with
  | some limit => throw (.node s!"execution result exceeds the {limit}-byte limit")
  | none => request (α := Unit) (.setExecutionResult result)

/-- What `execute_nodes` does with the resolved outputs of the workflow. -/
def ExecutionPlan.storeResult (plan : ExecutionPlan) (limits : ExecutionLimits)
    (serde : SerdeJson) (outputs : StrMap Value) : RunM Unit :=
  let result := Value.object (redactOutputs plan.outputs outputs)
  match limits.maxExecutionResultBytes.filter (· < serde.encodedLength result) with
  | some limit => throw (.node s!"execution result exceeds the {limit}-byte limit")
  | none => request (α := Unit) (.setExecutionResult result)

/-- At the top level the outputs are resolved without local bindings. -/
theorem executeNodes_eq (plan : ExecutionPlan) (plugins : PluginRegistry)
    (limits : ExecutionLimits) (serde : SerdeJson) :
    executeNodes plan plugins limits serde =
      executeGraph maxGraphDepth (plan.context plugins limits serde) plan.workflowNodes plan.entry
        plan.locals >>= fun nodeOutputs =>
          resolveInputs serde nodeOutputs [] plan.outputs >>= plan.storeResult limits serde := rfl

/-- How an admitted execution ends: with a terminal status, or left for recovery. -/
inductive ExecutionEnd
  | finished (status : FinalStatus) (error : Option String)
  | left (error : String)
  deriving DecidableEq, Repr

/-- The `match outcome` of `execute_prepared_workflow_with_shutdown`: the outcome is told apart
by the text of the error. -/
def ExecutionEnd.ofOutcome : Except RunError Unit → ExecutionEnd
  | .ok () => .finished .succeeded none
  | .error error =>
    if error.message = RunError.cancellationRequested.message then .finished .cancelled none
    else if error.message = RunError.timedOut.message then
      .finished .timedOut (some error.message)
    else if error.message = RunError.shutdownRequested.message then .left error.message
    else .finished .failed (some error.message)

/-- An admitted execution: run the plan and settle the execution. -/
def executePreparedWorkflow (plan : ExecutionPlan) (plugins : PluginRegistry)
    (limits : ExecutionLimits) (serde : SerdeJson) : RunM ExecutionEnd := do
  let outcome ← ExceptT.lift (executeNodes plan plugins limits serde).run
  let result := ExecutionEnd.ofOutcome outcome
  match result with
  | .finished status error => request (α := Unit) (.finishExecution status error)
  | .left _ => pure ()
  pure result

end KakuneCore
