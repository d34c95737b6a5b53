import KakuneCore.Planner.Analysis

/-!
# Compilation

`compile` turns a document that passes the parser's checks and the semantic analysis into the
execution plan the runtime consumes.
-/

namespace KakuneCore

def maxNodes : Nat := 512

def maxEdges : Nat := 2048

/-- What `graph_metrics` counts: nodes, control edges, nesting depth. -/
structure GraphMetrics where
  nodeCount : Nat
  edgeCount : Nat
  maximumDepth : Nat
  deriving DecidableEq, Repr

/-- Add the counts of a nested graph. -/
def GraphMetrics.add (metrics nested : GraphMetrics) : GraphMetrics where
  nodeCount := metrics.nodeCount + nested.nodeCount
  edgeCount := metrics.edgeCount + nested.edgeCount
  maximumDepth := max metrics.maximumDepth nested.maximumDepth

mutual

/-- `graph_metrics`. -/
def graphMetrics : WorkflowSubgraph → Nat → GraphMetrics
  | ⟨_, nodes, _⟩, depth =>
    nestedMetrics depth
      ⟨nodes.length, (nodes.flatMap fun node => node.on.values.map ControlTargets.len).sum, depth⟩
      nodes

/-- Add the metrics of the graphs nested in a list of nodes. -/
def nestedMetrics (depth : Nat) (metrics : GraphMetrics) : List WorkflowNode → GraphMetrics
  | [] => metrics
  | node :: nodes => nestedMetrics depth (nodeMetrics depth metrics node) nodes

/-- Add the metrics of the branches and the body of a node. -/
def nodeMetrics (depth : Nat) (metrics : GraphMetrics) : WorkflowNode → GraphMetrics
  | ⟨_, _, _, _, _, _, branches, body⟩ =>
    bodyMetrics depth (branchMetrics depth metrics branches) body

def branchMetrics (depth : Nat) (metrics : GraphMetrics) :
    List (String × WorkflowSubgraph) → GraphMetrics
  | [] => metrics
  | (_, graph) :: branches =>
    branchMetrics depth (metrics.add (graphMetrics graph (depth + 1))) branches

def bodyMetrics (depth : Nat) (metrics : GraphMetrics) : Option WorkflowSubgraph → GraphMetrics
  | none => metrics
  | some graph => metrics.add (graphMetrics graph (depth + 1))

end

/-- The top-level graph of a document. -/
def WorkflowDocument.graph (doc : WorkflowDocument) : WorkflowSubgraph :=
  ⟨doc.entry, doc.nodes, doc.outputs⟩

/-- The limits `validate_semantics` checks before the scopes. -/
def limitDiagnostics (metrics : GraphMetrics) : List Diagnostic :=
  (if metrics.nodeCount ≤ maxNodes then []
    else [{ code := "workflow.node_limit", pointer := "/nodes",
            message := "workflow exceeds the maximum of 512 nodes" }])
  ++ (if metrics.edgeCount ≤ maxEdges then []
    else [{ code := "workflow.edge_limit", pointer := "/nodes",
            message := "workflow exceeds the maximum of 2048 control edges" }])
  ++ (if metrics.maximumDepth ≤ 32 then []
    else [{ code := "workflow.nesting_limit", pointer := "/nodes",
            message := "workflow exceeds the maximum control nesting depth of 32" }])

def validateSemantics (doc : WorkflowDocument) (plugins : PluginRegistry) : List Diagnostic :=
  limitDiagnostics (graphMetrics doc.graph 0)
    ++ validateScopeSemantics doc.policy plugins doc.graph [] ""

mutual

/-- `validate_node_catalog`: a node and everything nested in it has a known type. -/
def validateNodeCatalog (plugins : PluginRegistry) : WorkflowNode → Except String Unit
  | ⟨id, nodeType, _, _, _, _, branches, body⟩ => do
    ensure (isBuiltinNodeType nodeType || plugins.contains nodeType)
      s!"node {id} uses unregistered node type {nodeType}; execution requires a built-in node or an explicitly registered plugin"
    validateBranchCatalog plugins branches
    validateBodyCatalog plugins body

def validateBranchCatalog (plugins : PluginRegistry) :
    List (String × WorkflowSubgraph) → Except String Unit
  | [] => .ok ()
  | (_, ⟨_, nodes, _⟩) :: branches => do
    validateNodesCatalog plugins nodes
    validateBranchCatalog plugins branches

def validateBodyCatalog (plugins : PluginRegistry) :
    Option WorkflowSubgraph → Except String Unit
  | none => .ok ()
  | some ⟨_, nodes, _⟩ => validateNodesCatalog plugins nodes

def validateNodesCatalog (plugins : PluginRegistry) : List WorkflowNode → Except String Unit
  | [] => .ok ()
  | node :: nodes => do
    validateNodeCatalog plugins node
    validateNodesCatalog plugins nodes

end

def WorkflowDocument.validateWithPlugins (doc : WorkflowDocument) (plugins : PluginRegistry) :
    Except String Unit := do
  doc.validate
  validateNodesCatalog plugins doc.nodes

structure PlannedNode where
  id : String
  nodeType : String
  dataDependencies : List String
  controlDependencies : List String
  node : WorkflowNode

/-- The plan recorded with every execution. -/
structure ExecutionPlan where
  workflowId : String
  nodes : List PlannedNode
  entry : String
  outputs : StrMap WorkflowBinding
  policy : WorkflowPolicy
  inputValues : Value := .object []
  triggerValues : Value := .object []

structure CompiledWorkflow where
  ir : WorkflowDocument
  plan : ExecutionPlan

/-- The producers `compile` records: those of the `from` bindings. -/
def plannedDependencies (node : WorkflowNode) : List String :=
  node.inputs.values.filterMap fun
    | .from source =>
      if startsWithDollar source then none else (splitOnceDot source).map Prod.fst
    | _ => none

def planNode (nodes : List WorkflowNode) (node : WorkflowNode) : PlannedNode where
  id := node.id
  nodeType := node.nodeType
  dataDependencies := plannedDependencies node
  controlDependencies :=
    (nodes.filter fun candidate => node.id ∈ candidate.targets).map WorkflowNode.id
  node

def planOf (doc : WorkflowDocument) : ExecutionPlan where
  workflowId := doc.metadata.id
  nodes := doc.nodes.map (planNode doc.nodes)
  entry := doc.entry
  outputs := doc.outputs
  policy := doc.policy

/-- `compile`, from the decoded document on: `analyze`, then the catalog check, then the plan. -/
def compile (doc : WorkflowDocument) (plugins : PluginRegistry) :
    Except (List Diagnostic) CompiledWorkflow :=
  match doc.validate with
  | .error error => .error [{ code := "yaml.invalid", message := error, pointer := "" }]
  | .ok () =>
    match validateSemantics doc plugins with
    | diagnostic :: diagnostics => .error (diagnostic :: diagnostics)
    | [] =>
      match doc.validateWithPlugins plugins with
      | .error error =>
        .error [{ code := "catalog.unknown_node", message := error, pointer := "/nodes" }]
      | .ok () => .ok { ir := doc, plan := planOf doc }

end KakuneCore
