import KakuneCore.Workflow.Value

/-!
# The workflow document

The decoded `kakune/v1` document: nodes with their bindings, routes and structured subgraphs,
and the policies the validator and the runtime read. Decoding YAML text into this structure
is not modelled; every statement is about all documents, hence about all decoded ones.
-/

namespace KakuneCore

/-- Where an input or output takes its value from. -/
inductive WorkflowBinding
  | literal (literal : Value)
  | «from» (source : String)
  | expr (expr : Value)
  | secret (secret : String)
  deriving DecidableEq, Repr

/-- A route activates one node or fans out to several. -/
inductive ControlTargets
  | one (target : String)
  | many (targets : List String)
  deriving DecidableEq, Repr

namespace ControlTargets

def iter : ControlTargets → List String
  | one target => [target]
  | many targets => targets

def len : ControlTargets → Nat
  | one _ => 1
  | many targets => targets.length

end ControlTargets

structure RetryPolicy where
  maxAttempts : Nat
  initialBackoffMs : Nat
  maxBackoffMs : Option Nat := none
  jitterMs : Option Nat := none
  deriving DecidableEq, Repr

/-- A graph owned by a control node, over the node type `ν`. -/
structure Subgraph (ν : Type) : Type where
  entry : String
  nodes : List ν
  outputs : StrMap WorkflowBinding := []

/-- A workflow node. `config` is the document's `with` map. -/
structure WorkflowNode : Type where
  id : String
  nodeType : String
  config : StrMap Value := []
  inputs : StrMap WorkflowBinding := []
  on : StrMap ControlTargets := []
  retry : Option RetryPolicy := none
  branches : List (String × Subgraph WorkflowNode) := []
  body : Option (Subgraph WorkflowNode) := none

/-- A structured graph owned by a control node. -/
abbrev WorkflowSubgraph : Type := Subgraph WorkflowNode

namespace WorkflowNode

/-- The ids that some route of the node can activate. -/
def targets (node : WorkflowNode) : List String := node.on.values.flatMap ControlTargets.iter

/-- `retry.map_or(1, |policy| policy.max_attempts)`: the attempts the node is given. -/
def attempts (node : WorkflowNode) : Nat := (node.retry.map RetryPolicy.maxAttempts).getD 1

end WorkflowNode

/-- The node types the runtime and the validator single out; every other type, plugin types
included, is `other`. -/
inductive NodeKind
  | «end» | log | «if» | switch | foreach | loop | delay | join | merge | setVariable | pass
  | httpRequest | processRun | other
  deriving DecidableEq, Repr

/-- The `match node.node_type.as_str()` that the source repeats. -/
def NodeKind.ofType (nodeType : String) : NodeKind :=
  if nodeType = "kakune.flow.end@1" then .end
  else if nodeType = "kakune.log@1" then .log
  else if nodeType = "kakune.flow.if@1" then .if
  else if nodeType = "kakune.flow.switch@1" then .switch
  else if nodeType = "kakune.flow.foreach@1" then .foreach
  else if nodeType = "kakune.flow.loop@1" then .loop
  else if nodeType = "kakune.flow.delay@1" then .delay
  else if nodeType = "kakune.flow.join@1" then .join
  else if nodeType = "kakune.flow.merge@1" then .merge
  else if nodeType = "kakune.flow.set-variable@1" then .setVariable
  else if nodeType = "kakune.flow.pass@1" then .pass
  else if nodeType = "kakune.http.request@1" then .httpRequest
  else if nodeType = "kakune.process.run@1" then .processRun
  else .other

def WorkflowNode.kind (node : WorkflowNode) : NodeKind := .ofType node.nodeType

/-- `node.with.get("name").and_then(Value::as_str)`: the variable a set-variable node writes. -/
def WorkflowNode.variableName (node : WorkflowNode) : Option String :=
  (node.config.get? "name").bind Value.asStr

structure WorkflowMetadata where
  id : String
  name : String
  deriving Repr

structure WorkflowTrigger where
  id : String
  nodeType : String
  config : StrMap Value := []
  map : StrMap WorkflowBinding := []

inductive OverflowPolicy
  | queue
  | reject
  deriving DecidableEq, Repr

structure ConcurrencyPolicy where
  maxRuns : Option Nat := none
  overflow : Option OverflowPolicy := none
  maxQueued : Option Nat := none
  deriving Repr

structure WorkflowPolicy where
  timeout : Option String := none
  maxParallelNodes : Option Nat := none
  concurrency : Option ConcurrencyPolicy := none
  /-- `policy.ai.budgetTokens`. -/
  budgetTokens : Option Nat := none
  deriving Repr

/-- The decoded document. `layout` keeps the node ids it positions. -/
structure WorkflowDocument where
  apiVersion : String
  kind : String
  metadata : WorkflowMetadata
  inputs : Value := .null
  triggers : List WorkflowTrigger
  entry : String
  nodes : List WorkflowNode
  outputs : StrMap WorkflowBinding := []
  policy : WorkflowPolicy := {}
  layout : List String := []

/-- A document with one manual trigger, for concrete runs. -/
def sampleDocument (entry : String) (nodes : List WorkflowNode)
    (outputs : StrMap WorkflowBinding := []) (policy : WorkflowPolicy := {}) :
    WorkflowDocument where
  apiVersion := "kakune/v1"
  kind := "Workflow"
  metadata := ⟨"sample", "Sample"⟩
  triggers := [{ id := "manual", nodeType := "kakune.trigger.manual@1" }]
  entry
  nodes
  outputs
  policy

end KakuneCore
