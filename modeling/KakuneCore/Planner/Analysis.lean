import KakuneCore.Planner.Catalog

/-!
# Semantic analysis

`validate_semantics` and `compile`: the graph limits, and for every graph of the document the
catalog, route, reachability and reference checks. A diagnostic keeps its code, message and
pointer; the source range that is looked up from the pointer is left out.

The three graph searches of the planner (`reachable_nodes`, `control_reaches`,
`control_ancestors`) are one worklist search `explore`. Its fuel bounds how often a worklist
entry can be taken: the entries it starts with, and once for every control edge followed.
-/

namespace KakuneCore

structure Diagnostic where
  code : String
  message : String
  pointer : String
  deriving DecidableEq, Repr

/-! ### Graph searches -/

/-- Worklist search: take the last pending id, skip it when it was seen, otherwise remember it
and append its successors. Returns the ids seen. -/
def explore (successors : String → List String) : Nat → List String → List String → List String
  | 0, _, seen => seen
  | fuel + 1, pending, seen =>
    match pending.getLast? with
    | none => seen
    | some id =>
      if id ∈ seen then explore successors fuel pending.dropLast seen
      else explore successors fuel (pending.dropLast ++ successors id) (id :: seen)

/-- The control successors of an id in a graph. -/
def controlSuccessors (nodes : List WorkflowNode) (id : String) : List String :=
  ((nodeById nodes id).map WorkflowNode.targets).getD []

/-- The ids with a control edge to `id`, once for every edge. -/
def controlPredecessors (nodes : List WorkflowNode) (id : String) : List String :=
  nodes.flatMap fun node => (node.targets.filter (· = id)).map fun _ => node.id

/-- How often a worklist entry can be taken. -/
def searchFuel (nodes : List WorkflowNode) : Nat :=
  2 * (nodes.flatMap WorkflowNode.targets).length + 2

def reachableNodes (nodes : List WorkflowNode) (entry : String) : List String :=
  explore (controlSuccessors nodes) (searchFuel nodes) [entry] []

/-- `control_reaches`: the search starts at `source` itself, so a node reaches itself. -/
def controlReaches (nodes : List WorkflowNode) (source target : String) : Bool :=
  target ∈ explore (controlSuccessors nodes) (searchFuel nodes) [source] []

/-- `control_ancestors`: the search starts at the predecessors. -/
def controlAncestors (nodes : List WorkflowNode) (target : String) : List String :=
  explore (controlPredecessors nodes) (searchFuel nodes) (controlPredecessors nodes target) []

/-! ### Lexical bindings -/

/-- The `$name` a set-variable node introduces. -/
def WorkflowNode.introducedBinding (node : WorkflowNode) : Option String :=
  if node.kind = .setVariable then node.variableName.map ("$" ++ ·) else none

def lexicalBindingsBeforeNode (nodes : List WorkflowNode) (consumer : WorkflowNode)
    (inherited : List String) : List String :=
  inherited ++ (nodes.filter (·.id ∈ controlAncestors nodes consumer.id)).filterMap
    WorkflowNode.introducedBinding

def lexicalBindingsForOutputs (nodes : List WorkflowNode) (inherited : List String) :
    List String :=
  inherited ++ nodes.filterMap WorkflowNode.introducedBinding

def childLexicalBindings (inherited : List String) (kind : NodeKind) : List String :=
  match kind with
  | .foreach => inherited ++ ["$item", "$index"]
  | .loop => inherited ++ ["$state", "$iteration"]
  | .switch => inherited ++ ["$value"]
  | _ => inherited

/-! ### References -/

/-- Whether a `$`-reference is available: `$input`, `$trigger` or a lexical binding. -/
def localAvailable (lexical : List String) (source : String) : Bool :=
  localRoot source = "$input" || localRoot source = "$trigger" || localRoot source ∈ lexical

/-- `binding.unknown_output`, shared by input and output references. -/
def unknownOutput (producer : WorkflowNode) (output pointer : String) : List Diagnostic :=
  match nodeDefinition producer.nodeType with
  | none => []
  | some definition =>
    if definition.dynamicOutputs || (portKind definition.outputs output).isSome then []
    else [{ code := "binding.unknown_output", pointer,
            message := s!"node {producer.id} does not expose output {output}" }]

/-- `binding.incompatible_type`. -/
def incompatibleType (source name : String) (consumer producer : WorkflowNode)
    (output pointer : String) : List Diagnostic :=
  match inputKind consumer.nodeType name, outputKind producer.nodeType output with
  | some expected, some actual =>
    if expected ≠ .any ∧ actual ≠ .any ∧ expected ≠ actual then
      [{ code := "binding.incompatible_type", pointer,
         message := s!"binding source {source} has type {actual.name}, but input {name} expects {expected.name}" }]
    else []
  | _, _ => []

def validateFromReference (nodes : List WorkflowNode) (lexical : List String)
    (consumer : WorkflowNode) (pointer name source : String) : List Diagnostic :=
  let pointer := s!"{pointer}/inputs/{name}/from"
  if startsWithDollar source then
    if localAvailable lexical source then []
    else [{ code := "binding.unknown_scope", pointer,
            message := s!"binding source {source} is not available in this lexical scope" }]
  else match splitOnceDot source with
  | none =>
    [{ code := "binding.invalid_reference", pointer,
       message := s!"binding reference {source} must name a node output" }]
  | some (producerId, output) =>
    match nodeById nodes producerId with
    | none =>
      [{ code := "binding.unknown_node", pointer,
         message := s!"binding source {source} references unknown node {producerId}" }]
    | some producer =>
      (if controlReaches nodes producerId consumer.id then []
        else [{ code := "binding.unavailable", pointer,
                message :=
                  s!"binding source {source} is not guaranteed before node {consumer.id}" }])
      ++ unknownOutput producer output pointer
      ++ incompatibleType source name consumer producer output pointer

mutual

/-- The `from` texts `validate_expression_references` visits: every string under a `from` key,
anywhere in the expression. -/
def expressionSources : Value → List String
  | .array items => expressionSourcesItems items
  | .object fields =>
    (((StrMap.get? fields "from").bind Value.asStr).map fun source => [source]).getD [] ++
      expressionSourcesFields fields
  | _ => []

/-- `expressionSources` over an array. -/
def expressionSourcesItems : List Value → List String
  | [] => []
  | item :: items => expressionSources item ++ expressionSourcesItems items

/-- `expressionSources` over the members of an object. -/
def expressionSourcesFields : List (String × Value) → List String
  | [] => []
  | (_, value) :: fields => expressionSources value ++ expressionSourcesFields fields

end

/-- The references the planner checks in a binding. -/
def bindingSources : WorkflowBinding → List String
  | .from source => [source]
  | .expr expr => expressionSources expr
  | _ => []

def validateBindingReference (nodes : List WorkflowNode) (lexical : List String)
    (consumer : WorkflowNode) (pointer name : String) (binding : WorkflowBinding) :
    List Diagnostic :=
  (bindingSources binding).flatMap (validateFromReference nodes lexical consumer pointer name)

def validateOutputBinding (nodes : List WorkflowNode) (entry : String) (lexical : List String)
    (name : String) (binding : WorkflowBinding) : List Diagnostic :=
  let pointer := s!"/outputs/{name}/from"
  match binding with
  | .from source =>
    if startsWithDollar source then
      if localAvailable lexical source then []
      else [{ code := "binding.unknown_scope", pointer,
              message := s!"workflow output {name} uses unavailable lexical binding {source}" }]
    else match splitOnceDot source with
    | none =>
      [{ code := "binding.invalid_reference", pointer,
         message := s!"workflow output {name} must reference a node output" }]
    | some (nodeId, output) =>
      match nodeById nodes nodeId with
      | none =>
        [{ code := "binding.unknown_node", pointer,
           message := s!"workflow output {name} references unknown node {nodeId}" }]
      | some node =>
        (if nodeId ∈ reachableNodes nodes entry then []
          else [{ code := "binding.unreachable_output", pointer,
                  message := s!"workflow output {name} references unreachable node {nodeId}" }])
        ++ unknownOutput node output pointer
  | _ => []

/-! ### Node checks -/

def validateLiteralType (binding : WorkflowBinding) (expected : ValueKind) (pointer : String) :
    List Diagnostic :=
  match binding with
  | .literal literal =>
    let isMatch := match expected, literal with
      | .any, _ => true
      | .string, .string _ => true
      | .boolean, .bool _ => true
      | .integer, .number (.int _) => true
      | .object, .object _ => true
      | .array, .array _ => true
      | _, _ => false
    if isMatch then []
    else [{ code := "catalog.incompatible_literal", pointer,
            message := "literal does not match the input type" }]
  | _ => []

/-- `with.timeoutSeconds` of an HTTP or process node. -/
def validateNodeTimeout (node : WorkflowNode) (pointer : String) : List Diagnostic :=
  if node.kind.isExternalEffect then
    match node.config.get? "timeoutSeconds" with
    | none => []
    | some timeout =>
      let maximum := if node.kind = .httpRequest then 120 else 3600
      if timeout.asU64.any fun n => 1 ≤ n && n ≤ maximum then []
      else [{ code := "catalog.invalid_timeout", pointer := s!"{pointer}/with/timeoutSeconds",
              message := s!"node {node.id} timeoutSeconds must be an integer from 1 to {maximum}" }]
  else []

def validateNode (node : WorkflowNode) (definition : NodeDefinition) (pointer : String) :
    List Diagnostic :=
  (definition.requiredInputs.flatMap fun (name, _) =>
    if node.inputs.contains name then []
    else [{ code := "catalog.required_input", pointer := s!"{pointer}/inputs",
            message := s!"node {node.id} requires input {name}" }])
  ++ (if definition.dynamicInputs then []
    else node.inputs.flatMap fun (name, binding) =>
      match portKind (definition.requiredInputs ++ definition.optionalInputs) name with
      | none => [{ code := "catalog.unknown_input", pointer := s!"{pointer}/inputs/{name}",
                   message := s!"node {node.id} does not expose input {name}" }]
      | some kind => validateLiteralType binding kind s!"{pointer}/inputs/{name}")
  ++ (if node.kind = .processRun ∧ ((node.config.get? "command").bind Value.asStr).isNone then
      [{ code := "process.command", pointer := s!"{pointer}/with/command",
         message := s!"node {node.id} requires with.command as a string" }]
    else [])
  ++ validateNodeTimeout node pointer

def validateRoutes (node : WorkflowNode) (definition : NodeDefinition) (pointer : String) :
    List Diagnostic :=
  node.on.keys.flatMap fun route =>
    if definition.dynamicRoutes || route ∈ definition.routes then []
    else [{ code := "catalog.unknown_route", pointer := s!"{pointer}/on/{route}",
            message := s!"node {node.id} does not expose route {route}" }]

/-- What `validate_scope_semantics` reports for one node of a graph. An unknown node type ends
the node's checks. -/
def nodeDiagnostics (plugins : PluginRegistry) (nodes : List WorkflowNode) (entry : String)
    (inherited : List String) (pointer : String) (node : WorkflowNode) : List Diagnostic :=
  (if node.id ∈ reachableNodes nodes entry then []
    else [{ code := "workflow.unreachable_node", pointer,
            message := s!"node {node.id} is not reachable from entry {entry}" }])
  ++ (if !isBuiltinNodeType node.nodeType && !plugins.contains node.nodeType then
      [{ code := "catalog.unknown_node", pointer := s!"{pointer}/type",
         message := s!"node {node.id} uses unregistered node type {node.nodeType}" }]
    else
      ((nodeDefinition node.nodeType).map fun definition =>
        validateNode node definition pointer ++ validateRoutes node definition pointer).getD []
      ++ node.inputs.flatMap fun (name, binding) =>
          validateBindingReference nodes (lexicalBindingsBeforeNode nodes node inherited) node
            pointer name binding)

/-- `valid_duration`. -/
def validDuration (value : String) : Bool :=
  let chars := ((value.toList.dropWhile isWhitespace).reverse.dropWhile isWhitespace).reverse
  let digits := chars.takeWhile isAsciiDigit
  let suffix := chars.dropWhile isAsciiDigit
  (suffix = ['m', 's'] || suffix = ['s'] || suffix = ['m'] || suffix = ['h']) &&
    (parseUnsigned (2 ^ 64) digits).any (0 < ·)

/-- `policy.invalid_timeout`, reported once for every graph of the document. -/
def timeoutDiagnostics (policy : WorkflowPolicy) : List Diagnostic :=
  if policy.timeout.all validDuration then []
  else [{ code := "policy.invalid_timeout", pointer := "/policy/timeout",
          message := "policy.timeout must be a positive duration using ms, s, m, or h" }]

/-- What `validate_scope_semantics` reports for one graph, without its nested graphs. -/
def graphDiagnostics (policy : WorkflowPolicy) (plugins : PluginRegistry)
    (graph : WorkflowSubgraph) (inherited : List String) (pointer : String) : List Diagnostic :=
  timeoutDiagnostics policy
  ++ (graph.nodes.zipIdx.flatMap fun (node, index) =>
      nodeDiagnostics plugins graph.nodes graph.entry inherited s!"{pointer}/nodes/{index}" node)
  ++ graph.outputs.flatMap fun (name, binding) =>
      validateOutputBinding graph.nodes graph.entry
        (lexicalBindingsForOutputs graph.nodes inherited) name binding

def escapePointer (value : String) : String :=
  String.ofList (value.toList.flatMap fun c =>
    if c = '~' then ['~', '0'] else if c = '/' then ['~', '1'] else [c])

mutual

/-- `validate_scope_semantics`: a graph, then the graphs nested in its nodes. -/
def validateScopeSemantics (policy : WorkflowPolicy) (plugins : PluginRegistry) :
    WorkflowSubgraph → List String → String → List Diagnostic
  | ⟨entry, nodes, outputs⟩, inherited, pointer =>
    graphDiagnostics policy plugins ⟨entry, nodes, outputs⟩ inherited pointer
      ++ nestedDiagnostics policy plugins nodes inherited pointer 0 nodes

/-- The nested graphs of the nodes from `index` on; `all` are the nodes of the graph. -/
def nestedDiagnostics (policy : WorkflowPolicy) (plugins : PluginRegistry)
    (all : List WorkflowNode) (inherited : List String) (pointer : String) :
    Nat → List WorkflowNode → List Diagnostic
  | _, [] => []
  | index, node :: rest =>
    nodeNestedDiagnostics policy plugins
        (childLexicalBindings (lexicalBindingsBeforeNode all node inherited) node.kind)
        s!"{pointer}/nodes/{index}" node
      ++ nestedDiagnostics policy plugins all inherited pointer (index + 1) rest

/-- The branches of one node, then its body. -/
def nodeNestedDiagnostics (policy : WorkflowPolicy) (plugins : PluginRegistry)
    (lexical : List String) (pointer : String) : WorkflowNode → List Diagnostic
  | ⟨_, _, _, _, _, _, branches, body⟩ =>
    branchDiagnostics policy plugins lexical pointer branches
      ++ bodyDiagnostics policy plugins lexical pointer body

def branchDiagnostics (policy : WorkflowPolicy) (plugins : PluginRegistry)
    (lexical : List String) (pointer : String) :
    List (String × WorkflowSubgraph) → List Diagnostic
  | [] => []
  | (name, graph) :: branches =>
    validateScopeSemantics policy plugins graph lexical s!"{pointer}/branches/{escapePointer name}"
      ++ branchDiagnostics policy plugins lexical pointer branches

def bodyDiagnostics (policy : WorkflowPolicy) (plugins : PluginRegistry)
    (lexical : List String) (pointer : String) : Option WorkflowSubgraph → List Diagnostic
  | none => []
  | some graph => validateScopeSemantics policy plugins graph lexical s!"{pointer}/body"

end

end KakuneCore
