import KakuneCore.Workflow.Document

/-!
# Document validation

`WorkflowDocument.validate` and the checks it is made of, with the texts of their errors. The
nesting depth that `validate_subgraph` counts upwards to 32 is carried here as the number of
levels that are still allowed, so that the recursion is structural.
-/

namespace KakuneCore

/-- Fail with a message unless a condition holds. -/
def ensure (condition : Bool) (message : String) : Except String Unit :=
  if condition then .ok () else .error message

/-- Run a check on every element, stopping at the first failure. -/
def checkEach {α : Type} (check : α → Except String Unit) : List α → Except String Unit
  | [] => .ok ()
  | x :: xs => do
    check x
    checkEach check xs

/-! ### Identifiers and node types -/

def isAsciiLowercase (c : Char) : Bool := 'a' ≤ c && c ≤ 'z'

def isAsciiDigit (c : Char) : Bool := '0' ≤ c && c ≤ '9'

/-- The characters of a kebab-case identifier. -/
def isKebabChar (c : Char) : Bool := isAsciiLowercase c || isAsciiDigit c || c = '-'

/-- `is_identifier_part`, over characters. -/
def isIdentifierPart (value : List Char) : Bool :=
  (value.head?.any isAsciiLowercase) && value.all isKebabChar

/-- The condition `validate_id` tests. -/
def isValidId (value : String) : Bool :=
  value.utf8ByteSize ≤ 63 && isIdentifierPart value.toList

def validateId (field value : String) : Except String Unit :=
  ensure (isValidId value)
    s!"{field} must be a lowercase kebab-case identifier of at most 63 characters"

/-- Split at the last occurrence of a character, as `str::rsplit_once`. -/
def rsplitOnceChars (c : Char) (s : List Char) : Option (List Char × List Char) :=
  (splitOnceChars c s.reverse).map fun p => (p.2.reverse, p.1.reverse)

/-- The value of a string of decimal digits. -/
def digitsValue (digits : List Char) : Nat :=
  digits.foldl (fun n c => 10 * n + (c.toNat - '0'.toNat)) 0

/-- `str::parse` for an unsigned integer below `bound`; a leading plus sign is accepted. -/
def parseUnsigned (bound : Nat) (s : List Char) : Option Nat :=
  let digits := if s.head? = some '+' then s.tail else s
  if digits ≠ [] ∧ digits.all isAsciiDigit ∧ digitsValue digits < bound then
    some (digitsValue digits)
  else none

theorem isAsciiDigit_of_isDigit {c : Char} (h : c.isDigit = true) : isAsciiDigit c = true := by
  simp only [Char.isDigit, Bool.and_eq_true, decide_eq_true_eq] at h
  simp only [isAsciiDigit, Bool.and_eq_true, decide_eq_true_eq]
  exact ⟨h.1, h.2⟩

/-- A number is read back from its decimal digits. -/
theorem parseUnsigned_toDigits {bound n : Nat} (h : n < bound) :
    parseUnsigned bound (Nat.toDigits 10 n) = some n := by
  have hdigit : ∀ c ∈ Nat.toDigits 10 n, c.isDigit = true := fun c hc =>
    Nat.isDigit_of_mem_toDigits (by decide) (by decide) hc
  have hplus : (Nat.toDigits 10 n).head? ≠ some '+' := by
    intro heq
    exact absurd (hdigit '+' (List.mem_of_head? heq)) (by decide)
  have hall : (Nat.toDigits 10 n).all isAsciiDigit = true :=
    List.all_eq_true.mpr fun c hc => isAsciiDigit_of_isDigit (hdigit c hc)
  have hvalue : digitsValue (Nat.toDigits 10 n) = n := Nat.ofDigitChars_ten_toDigits
  rw [parseUnsigned, if_neg hplus]
  simp only [hvalue, hall, h, Nat.toDigits_ne_nil, ne_eq, not_false_eq_true, and_self, if_true]

def validateNodeType (field value : String) : Except String Unit :=
  match rsplitOnceChars '@' value.toList with
  | none => .error s!"{field} must use the namespace.name@major format"
  | some (path, version) =>
    ensure
      ((parseUnsigned (2 ^ 32) version).any (0 < ·) && 2 ≤ (splitChars '.' path).length &&
        (splitChars '.' path).all isIdentifierPart)
      s!"{field} must use the namespace.name@major format"

/-! ### Bindings and expressions -/

/-- The operations of the expression language. -/
def expressionOperations : List String :=
  ["equal", "notEqual", "greaterThan", "greaterThanOrEqual", "lessThan", "lessThanOrEqual",
    "and", "or", "not", "add", "subtract", "multiply", "divide", "modulo", "concat", "array",
    "object", "get", "coalesce", "contains"]

/-- The member of an object that must be a non-blank string. -/
def validateTextMember (value : Value) (field : String) : Except String Unit :=
  ensure (value.asStr.any (!blank ·)) s!"{field} must be a non-empty string"

/-- `validate_expression_argument`, given the check of a nested expression. -/
def validateExpressionArgument (nested : Value → String → Except String Unit)
    (value : Value) (field : String) : Except String Unit :=
  match value.asObject with
  | none => .ok ()
  | some object =>
    if object.length ≠ 1 then .ok ()
    else match object.get? "from" with
    | some source => validateTextMember source s!"{field}.from"
    | none =>
      match object.get? "secret" with
      | some secret => validateTextMember secret s!"{field}.secret"
      | none =>
        match object.get? "expr" with
        | some expression => nested expression s!"{field}.expr"
        | none => .ok ()

/-- Check a list of arguments, numbering them. -/
def validateArguments (check : Value → String → Except String Unit) (field : String) :
    Nat → List Value → Except String Unit
  | _, [] => .ok ()
  | index, argument :: arguments => do
    check argument s!"{field}.args[{index}]"
    validateArguments check field (index + 1) arguments

/-- `validate_expression`; `levels` counts the expression levels that are still allowed. -/
def validateExpression : (levels : Nat) → Value → String → Except String Unit
  | 0, _, field => .error s!"{field} exceeds the maximum expression depth of 32"
  | levels + 1, value, field =>
    match value.asObject with
    | none => .error s!"{field} must be an object"
    | some expression => do
      ensure (expression.length = 2 && expression.contains "op" && expression.contains "args")
        s!"{field} must contain only op and args"
      match (expression.get? "op").bind Value.asStr with
      | none => .error s!"{field}.op must be a string"
      | some operation =>
        ensure (operation ∈ expressionOperations) s!"{field}.op {operation} is not supported"
        match (expression.get? "args").bind Value.asArray with
        | none => .error s!"{field}.args must be an array"
        | some arguments =>
          ensure (arguments.length ≤ 128) s!"{field}.args exceeds the maximum of 128 arguments"
          validateArguments (validateExpressionArgument (validateExpression levels)) field 0
            arguments

def validateBindings (bindings : StrMap WorkflowBinding) (field : String) : Except String Unit :=
  checkEach (fun (name, binding) => do
    ensure (!blank name) s!"{field} cannot contain an empty input name"
    match binding with
    | .from source => ensure (!blank source) s!"{field}.{name}.from must not be empty"
    | .secret secret => ensure (!blank secret) s!"{field}.{name}.secret must not be empty"
    | .expr expr => validateExpression 33 expr s!"{field}.{name}.expr"
    | .literal _ => .ok ()) bindings

/-! ### Node checks -/

def aiNodeTypes : List String :=
  ["kakune.ai.generate@1", "kakune.ai.extract@1", "kakune.ai.boolean@1", "kakune.ai.choose@1",
    "kakune.ai.agent@1", "kakune.ai.minimax.messages@1", "kakune.ai.codex.exec@1"]

def validateAiNode (node : WorkflowNode) (field : String) : Except String Unit := do
  if node.nodeType ∈ aiNodeTypes then
    ensure (!node.inputs.contains "subscriptionKey")
      s!"{field} {node.id} does not accept inputs.subscriptionKey; configure credentials through the provider"
    ensure (!node.inputs.contains "model")
      s!"{field} {node.id} does not accept inputs.model; configure with.model instead"
    checkEach (fun name =>
      ensure (((node.config.get? name).bind Value.asStr).any (!blank ·))
        s!"{field} {node.id} requires with.{name} to be a non-empty string") ["provider", "model"]

/-- A node whose repetition repeats an external effect. -/
def NodeKind.isExternalEffect : NodeKind → Bool
  | .httpRequest | .processRun => true
  | _ => false

/-- `node.with.get("idempotent") == Some(&Value::Bool(true))`. -/
def WorkflowNode.declaresIdempotent (node : WorkflowNode) : Bool :=
  node.config.get? "idempotent" = some (.bool true)

def validateRetry (node : WorkflowNode) (field : String) : Except String Unit :=
  match node.retry with
  | none => .ok ()
  | some retry => do
    ensure (1 ≤ retry.maxAttempts && retry.maxAttempts ≤ 10 && retry.initialBackoffMs ≠ 0 &&
        !retry.maxBackoffMs.any (· = 0))
      s!"{field} {node.id} retry must use 1..10 attempts and positive backoff"
    ensure (!node.kind.isExternalEffect || node.declaresIdempotent)
      s!"{field} {node.id} retries on external effects require with.idempotent: true"

/-- How many control edges end at a node, counting repetitions. -/
def incoming (nodes : List WorkflowNode) (id : String) : Nat :=
  (nodes.flatMap WorkflowNode.targets).count id

def validateConvergences (nodes : List WorkflowNode) (field : String) : Except String Unit :=
  checkEach (fun node =>
    ensure (incoming nodes node.id ≤ 1 || node.kind = .join || node.kind = .merge)
      s!"{field} convergence at {node.id} requires kakune.flow.join@1 or kakune.flow.merge@1") nodes

def validateControlKeys (node : WorkflowNode) (field : String) (allowed : List String) :
    Except String Unit :=
  checkEach (fun key =>
    ensure (key ∈ allowed) s!"{field} {node.id} type {node.nodeType} does not support with.{key}")
    node.config.keys

def validateForeachConfig (node : WorkflowNode) (field : String) : Except String Unit := do
  ensure (((node.config.get? "maxConcurrency").bind Value.asU64).any fun n => 1 ≤ n && n ≤ 64)
    s!"{field} {node.id} foreach with.maxConcurrency must be an integer from 1 to 64"
  match node.config.get? "onError" with
  | none => .ok ()
  | some onError =>
    ensure (onError.asStr = some "fail" || onError.asStr = some "continue")
      s!"{field} {node.id} foreach with.onError must be fail or continue"

def validateLoopConfig (node : WorkflowNode) (field : String) : Except String Unit :=
  ensure (((node.config.get? "maxIterations").bind Value.asU64).any fun n => 1 ≤ n && n ≤ 10000)
    s!"{field} {node.id} loop with.maxIterations is required and must be an integer from 1 to 10000"

/-- The control nodes that own a graph, as `validate_subgraph` names them. -/
inductive SubgraphScope
  | foreach
  | loop
  | switch
  deriving DecidableEq, Repr

/-- The local bindings a control node provides to its graph. -/
def SubgraphScope.bindings : SubgraphScope → List String
  | .foreach => ["$item", "$index"]
  | .loop => ["$state", "$iteration"]
  | .switch => ["$value"]

/-- A control node's graph check: the graph, its field text, its scope and the outer lexical
bindings. -/
abbrev SubgraphCheck : Type :=
  WorkflowSubgraph → String → SubgraphScope → List String → Except String Unit

def validateSwitchCases (node : WorkflowNode) (field : String) (cases : StrMap Value) :
    Except String Unit :=
  checkEach (fun (selector, branch) =>
    match branch.asStr with
    | none => .error s!"{field} {node.id} switch case {selector} must name a branch"
    | some branch =>
      ensure (StrMap.contains node.branches branch)
        s!"{field} {node.id} switch case {selector} references unknown branch {branch}") cases

def validateSwitchDefault (node : WorkflowNode) (field : String) : Except String Unit :=
  match node.config.get? "default" with
  | none => .ok ()
  | some default =>
    match default.asStr with
    | none => .error s!"{field} {node.id} switch with.default must name a branch"
    | some default =>
      ensure (StrMap.contains node.branches default)
        s!"{field} {node.id} switch default references unknown branch {default}"

def validateSwitch (check : SubgraphCheck) (node : WorkflowNode) (field : String)
    (lexical : List String) : Except String Unit := do
  validateControlKeys node field ["cases", "default"]
  ensure node.body.isNone s!"{field} {node.id} switch cannot contain body"
  ensure (node.inputs.contains "value") s!"{field} {node.id} switch requires inputs.value"
  match (node.config.get? "cases").bind Value.asObject with
  | none => .error s!"{field} {node.id} switch with.cases must be an object"
  | some cases =>
    ensure (!cases.isEmpty) s!"{field} {node.id} switch with.cases must not be empty"
    validateSwitchCases node field cases
    validateSwitchDefault node field
    checkEach (fun (name, branch) => do
      validateId "switch branch" name
      check branch s!"{field} {node.id} branch {name}" .switch lexical
      ensure (!branch.outputs.contains "branch")
        s!"{field} {node.id} branch {name} cannot define reserved output branch") node.branches

def validateForeach (check : SubgraphCheck) (node : WorkflowNode) (field : String)
    (lexical : List String) : Except String Unit := do
  validateControlKeys node field ["maxConcurrency", "onError"]
  ensure node.branches.isEmpty s!"{field} {node.id} foreach cannot contain branches"
  ensure (node.inputs.contains "items") s!"{field} {node.id} foreach requires inputs.items"
  validateForeachConfig node field
  match node.body with
  | none => .error s!"{field} {node.id} foreach requires body"
  | some body => check body s!"{field} {node.id} body" .foreach lexical

def validateLoop (check : SubgraphCheck) (node : WorkflowNode) (field : String)
    (lexical : List String) : Except String Unit := do
  validateControlKeys node field ["maxIterations"]
  ensure node.branches.isEmpty s!"{field} {node.id} loop cannot contain branches"
  ensure (node.inputs.contains "state") s!"{field} {node.id} loop requires inputs.state"
  validateLoopConfig node field
  match node.body with
  | none => .error s!"{field} {node.id} loop requires body"
  | some body =>
    check body s!"{field} {node.id} body" .loop lexical
    checkEach (fun name => ensure (body.outputs.contains name)
      s!"{field} {node.id} loop body outputs.{name} is required") ["state", "continue"]

/-- `validate_structured_node`, given the check of a nested graph. A delay or set-variable node
may carry a body or branches: the source does not test it. -/
def validateStructuredNode (check : SubgraphCheck) (node : WorkflowNode) (field : String)
    (lexical : List String) : Except String Unit :=
  match node.kind with
  | .switch => validateSwitch check node field lexical
  | .foreach => validateForeach check node field lexical
  | .loop => validateLoop check node field lexical
  | .join | .merge => do
    validateControlKeys node field []
    ensure (node.branches.isEmpty && node.body.isNone)
      s!"{field} {node.id} cannot contain a body or branches"
  | .delay => do
    validateControlKeys node field []
    ensure (node.inputs.contains "durationMs")
      s!"{field} {node.id} delay requires inputs.durationMs"
  | .setVariable => do
    validateControlKeys node field ["name"]
    ensure (node.inputs.contains "value" && node.variableName.isSome)
      s!"{field} {node.id} set-variable requires with.name and inputs.value"
  | _ =>
    ensure (node.branches.isEmpty && node.body.isNone)
      s!"{field} {node.id} type {node.nodeType} does not support structured subgraphs"

/-! ### Graph checks -/

/-- `nodes.iter().map(|node| (node.id, node)).collect::<HashMap<_, _>>().get(id)`: of two nodes
with one id the later one is kept. -/
def nodeById (nodes : List WorkflowNode) (id : String) : Option WorkflowNode :=
  nodes.reverse.find? fun node => node.id = id

/-- The two sets of the depth-first search; `visited` lists the last finished node first. -/
structure VisitState where
  visiting : List String := []
  visited : List String := []

/-- The recursive `visit` of `ensure_acyclic`. The first argument bounds the recursion depth:
every level adds a new id to `visiting`. -/
def visit (nodes : List WorkflowNode) : Nat → String → VisitState → Except String VisitState
  | 0, id, _ => .error s!"node {id} was not found"
  | depth + 1, id, state =>
    if id ∈ state.visited then .ok state
    else if id ∈ state.visiting then
      .error s!"workflow contains an unstructured control-flow cycle at {id}"
    else match nodeById nodes id with
    | none => .error s!"node {id} was not found"
    | some node => do
      let state ← node.targets.foldlM (fun state target => visit nodes depth target state)
        { state with visiting := id :: state.visiting }
      .ok { visiting := state.visiting.erase id, visited := id :: state.visited }

def ensureAcyclic (nodes : List WorkflowNode) : Except String Unit := do
  let _ ← nodes.foldlM (fun state node => visit nodes (nodes.length + 1) node.id state) {}
  .ok ()

/-- A loop over items with ids: a check before the duplicate test, the test, and a check after
it, item by item. -/
def checkDistinct {α : Type} (id : α → String) (before after : α → Except String Unit)
    (duplicate : String → String) : List String → List α → Except String Unit
  | _, [] => .ok ()
  | seen, item :: items => do
    before item
    ensure (id item ∉ seen) (duplicate (id item))
    after item
    checkDistinct id before after duplicate (id item :: seen) items

/-- Every route names a valid id and has targets inside the graph. `field` is the text before
the node's name. -/
def validateTargets (nodes : List WorkflowNode) (routeField field : String) :
    Except String Unit :=
  checkEach (fun node => checkEach (fun (route, targets) => do
    validateId routeField route
    ensure (targets.len ≠ 0) s!"{field}node {node.id} route {route} cannot be empty"
    checkEach (fun target => ensure (target ∈ nodes.map WorkflowNode.id)
      s!"{field}node {node.id} route {route} references unknown node {target}") targets.iter)
    node.on) nodes

/-- The root of a `$`-reference: the text before the first dot. -/
def localRoot (source : String) : String := (splitDots source).head?.getD source

/-- A `$`-reference of a subgraph that the parser refuses. -/
def unknownLocal (lexical : List String) (source : String) : Bool :=
  startsWithDollar source && localRoot source ∉ lexical &&
    !(localRoot source = "$input" || localRoot source = "$trigger")

def validateLocals (lexical : List String) (field : String) (bindings : List WorkflowBinding) :
    Except String Unit :=
  checkEach (fun
    | .from source => ensure (!unknownLocal lexical source)
        s!"{field} does not provide local binding {source}"
    | _ => .ok ()) bindings

/-- `validate_subgraph`; `levels` counts the nesting levels that are still allowed. -/
def validateSubgraph : (levels : Nat) → SubgraphCheck
  | 0, _, field, _, _ => .error s!"{field} exceeds the maximum control nesting depth of 32"
  | levels + 1, graph, field, scope, outer => do
    ensure (!graph.nodes.isEmpty) s!"{field}.nodes must contain at least one node"
    let lexical := outer ++ scope.bindings
    checkDistinct WorkflowNode.id
      (fun node => do
        validateId "subgraph node.id" node.id
        validateNodeType "subgraph node.type" node.nodeType)
      (fun node => do
        validateBindings node.inputs "subgraph node.inputs"
        validateAiNode node field
        validateStructuredNode (validateSubgraph levels) node field lexical
        validateRetry node field)
      (fun id => s!"{field} contains duplicate node id {id}") [] graph.nodes
    ensure (graph.entry ∈ graph.nodes.map WorkflowNode.id)
      s!"{field}.entry references unknown node {graph.entry}"
    validateTargets graph.nodes "subgraph node.on route" s!"{field} "
    validateBindings graph.outputs s!"{field}.outputs"
    validateConvergences graph.nodes field
    validateLocals lexical field
      (graph.nodes.flatMap (·.inputs.values) ++ graph.outputs.values)
    ensureAcyclic graph.nodes

def validateConcurrency : Option ConcurrencyPolicy → Except String Unit
  | none => .ok ()
  | some concurrency => do
    ensure (concurrency.maxRuns.all (· ≠ 0)) "policy.concurrency.maxRuns must be positive"
    match concurrency.overflow with
    | some .queue =>
      ensure (concurrency.maxQueued.any (· ≠ 0))
        "policy.concurrency.maxQueued must be positive when overflow is queue"
    | some .reject =>
      ensure concurrency.maxQueued.isNone
        "policy.concurrency.maxQueued is only valid when overflow is queue"
    | none => .ok ()

namespace WorkflowDocument

/-- `WorkflowDocument::validate`. -/
def validate (doc : WorkflowDocument) : Except String Unit := do
  ensure (doc.apiVersion = "kakune/v1") "apiVersion must be kakune/v1"
  ensure (doc.kind = "Workflow") "kind must be Workflow"
  validateId "metadata.id" doc.metadata.id
  ensure (!blank doc.metadata.name && doc.metadata.name.utf8ByteSize ≤ 200)
    "metadata.name must contain at least one non-whitespace character and be at most 200 characters"
  ensure (doc.inputs.isNull || doc.inputs.asObject.isSome) "inputs must be a JSON Schema object"
  ensure (!doc.triggers.isEmpty) "triggers must contain at least one trigger"
  ensure (!doc.nodes.isEmpty) "nodes must contain at least one node"
  ensure (doc.policy.maxParallelNodes.all fun limit => 1 ≤ limit && limit ≤ 64)
    "policy.maxParallelNodes must be between 1 and 64"
  validateConcurrency doc.policy.concurrency
  ensure (doc.policy.budgetTokens.all (· ≠ 0)) "policy.ai.budgetTokens must be positive"
  checkDistinct WorkflowTrigger.id
    (fun trigger => do
      validateId "trigger.id" trigger.id
      validateNodeType "trigger.type" trigger.nodeType)
    (fun trigger => validateBindings trigger.map "trigger.map")
    (fun id => s!"duplicate trigger id: {id}") [] doc.triggers
  checkDistinct WorkflowNode.id
    (fun node => do
      validateId "node.id" node.id
      validateNodeType "node.type" node.nodeType)
    (fun node => do
      validateBindings node.inputs "node.inputs"
      validateAiNode node "node")
    (fun id => s!"duplicate node id: {id}") [] doc.nodes
  ensure (doc.entry ∈ doc.nodes.map WorkflowNode.id)
    s!"entry references unknown node {doc.entry}"
  validateTargets doc.nodes "node.on route" ""
  checkEach (fun id => ensure (id ∈ doc.nodes.map WorkflowNode.id)
    s!"layout references unknown node {id}") doc.layout
  validateBindings doc.outputs "outputs"
  ensureAcyclic doc.nodes
  validateConvergences doc.nodes "workflow"
  checkEach (fun node => do
    validateStructuredNode (validateSubgraph 32) node "node" []
    validateRetry node "node") doc.nodes

end WorkflowDocument

end KakuneCore
