import KakuneCore.Workflow.Validate

/-!
# The node catalog

The ports and routes of the built-in node types that the planner checks documents against, and
the plugin registry as the planner and the runtime read it.
-/

namespace KakuneCore

/-- What a plugin node type declares that the modelled code reads. -/
structure RegisteredPluginNode where
  usesSecrets : Bool := false
  deriving DecidableEq, Repr

abbrev PluginRegistry : Type := StrMap RegisteredPluginNode

inductive ValueKind
  | any | string | boolean | integer | object | array
  deriving DecidableEq, Repr

/-- `value_kind_name`. -/
def ValueKind.name : ValueKind → String
  | any => "any"
  | string => "string"
  | boolean => "boolean"
  | integer => "integer"
  | object => "object"
  | array => "array"

structure NodeDefinition where
  requiredInputs : List (String × ValueKind) := []
  optionalInputs : List (String × ValueKind) := []
  outputs : List (String × ValueKind) := []
  routes : List String := ["success"]
  dynamicInputs : Bool := false
  dynamicOutputs : Bool := false
  dynamicRoutes : Bool := false
  deriving Repr

/-- The catalog rows. A row shared by two node types is listed under both names. -/
def nodeDefinitions : List (String × NodeDefinition) :=
  [("kakune.flow.end@1", {}),
    ("kakune.log@1", { requiredInputs := [("message", .string)] }),
    ("kakune.flow.pass@1", { dynamicInputs := true, dynamicOutputs := true }),
    ("kakune.flow.if@1",
      { requiredInputs := [("condition", .boolean)], routes := ["true", "false"] }),
    ("kakune.flow.delay@1", { requiredInputs := [("durationMs", .integer)] }),
    ("kakune.flow.join@1", { dynamicInputs := true, dynamicOutputs := true }),
    ("kakune.flow.merge@1", { dynamicInputs := true, dynamicOutputs := true }),
    ("kakune.flow.set-variable@1",
      { requiredInputs := [("value", .any)], outputs := [("value", .any)] }),
    ("kakune.fs.write-text@1",
      { requiredInputs := [("path", .string), ("content", .string)],
        outputs := [("path", .string)] }),
    ("kakune.fs.read-text@1",
      { requiredInputs := [("path", .string)], outputs := [("text", .string)] }),
    ("kakune.fs.copy@1",
      { requiredInputs := [("source", .string), ("destination", .string)],
        outputs := [("source", .string), ("destination", .string)] }),
    ("kakune.fs.move@1",
      { requiredInputs := [("source", .string), ("destination", .string)],
        outputs := [("source", .string), ("destination", .string)] }),
    ("kakune.http.request@1",
      { requiredInputs := [("url", .string)],
        optionalInputs := [("headers", .object), ("body", .any)],
        outputs := [("status", .integer), ("headers", .object), ("body", .any)],
        routes := ["success", "httpError"] }),
    ("kakune.process.run@1",
      { optionalInputs := [("args", .array), ("stdin", .string)],
        outputs := [("stdout", .string), ("stderr", .string), ("exitCode", .integer)],
        routes := ["success", "exitError"] }),
    ("kakune.ai.generate@1",
      { requiredInputs := [("maxTokens", .integer), ("prompt", .string)],
        outputs := [("text", .string), ("usage", .object), ("modelRequested", .string),
          ("modelReported", .string)] }),
    ("kakune.ai.minimax.messages@1",
      { requiredInputs := [("maxTokens", .integer), ("messages", .array)],
        outputs := [("content", .array), ("raw", .any), ("usage", .object),
          ("modelRequested", .string), ("modelReported", .string)] }),
    ("kakune.ai.extract@1",
      { requiredInputs := [("maxTokens", .integer), ("prompt", .string), ("schema", .object)],
        outputs := [("value", .any), ("usage", .object)] }),
    ("kakune.ai.boolean@1",
      { requiredInputs := [("maxTokens", .integer), ("prompt", .string)],
        outputs := [("value", .boolean), ("usage", .object)], routes := ["true", "false"] }),
    ("kakune.ai.choose@1",
      { requiredInputs := [("maxTokens", .integer), ("prompt", .string), ("choices", .array)],
        outputs := [("choice", .string), ("usage", .object)], routes := [],
        dynamicRoutes := true }),
    ("kakune.ai.agent@1",
      { requiredInputs := [("maxTokens", .integer), ("task", .string), ("schema", .object)],
        optionalInputs := [("tools", .array)],
        outputs := [("result", .any), ("usage", .object), ("steps", .array)] }),
    ("kakune.ai.codex.exec@1",
      { requiredInputs := [("prompt", .string)],
        outputs := [("output", .any), ("usage", .array)] }),
    ("kakune.ai.agent-result@1",
      { requiredInputs := [("value", .any), ("schema", .object)],
        outputs := [("result", .any)] }),
    ("kakune.mcp.call@1",
      { requiredInputs := [("tool", .string), ("arguments", .object)],
        optionalInputs := [("environment", .object)],
        outputs := [("content", .array), ("isError", .boolean), ("structuredContent", .any)] })]

def nodeDefinition (nodeType : String) : Option NodeDefinition :=
  StrMap.get? nodeDefinitions nodeType

/-- `is_builtin_node_type`: the catalog types and the three structured flow nodes. -/
def isBuiltinNodeType (nodeType : String) : Bool :=
  (nodeDefinition nodeType).isSome ||
    nodeType ∈ ["kakune.flow.switch@1", "kakune.flow.foreach@1", "kakune.flow.loop@1"]

/-- The first port of a given name. -/
def portKind (ports : List (String × ValueKind)) (name : String) : Option ValueKind :=
  StrMap.get? ports name

def inputKind (nodeType name : String) : Option ValueKind :=
  (nodeDefinition nodeType).bind fun definition =>
    portKind (definition.requiredInputs ++ definition.optionalInputs) name

def outputKind (nodeType name : String) : Option ValueKind :=
  (nodeDefinition nodeType).bind fun definition =>
    if definition.dynamicOutputs then some .any else portKind definition.outputs name

end KakuneCore
