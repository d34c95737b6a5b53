import KakuneCore.Numeric.Binary64
import KakuneCore.Runtime.Operations

/-!
# Resolving bindings

`resolve_inputs` and the expression language: how the bindings of a node become values, given the
outputs of the nodes that ran before it and the local bindings of its scope. Only a secret is
asked for from outside.
-/

namespace KakuneCore

/-! ### The operations of the expression language -/

/-- `Value::as_f64` on a number, followed by the `is_finite` filter. -/
def Number.asF64 : Number → Binary64
  | int z => Binary64.round z
  | float q => .finite q

def numberArgument (operation : String) (value : Value) : Except RunError Binary64 :=
  match value with
  | .number n =>
    match n.asF64 with
    | .finite q => .ok (.finite q)
    | .nonFinite => .error (.expression s!"expression {operation} requires numeric arguments")
  | _ => .error (.expression s!"expression {operation} requires numeric arguments")

/-- `number_value`: an integral result in the `i64` range becomes an integer; `as i64`
saturates at the upper end. -/
def numberValue : Binary64 → Except RunError Value
  | .finite q =>
    if q.den = 1 ∧ -(2 ^ 63) ≤ q.num ∧ q.num ≤ 2 ^ 63 then
      .ok (.number (.int (min q.num (2 ^ 63 - 1))))
    else .ok (.number (.float q))
  | .nonFinite => .error (.expression "expression result is not a finite number")

def requireArity (args : List Value) (operation : String) (expected : Nat) :
    Except RunError Unit :=
  if args.length = expected then .ok ()
  else .error (.expression s!"expression {operation} requires exactly {expected} arguments")

/-- The two arguments of a binary operation. -/
def binaryArguments (args : List Value) (operation : String) : Except RunError (Value × Value) :=
  match args with
  | [left, right] => .ok (left, right)
  | _ => .error (.expression s!"expression {operation} requires exactly 2 arguments")

def binaryCompare (args : List Value) (operation : String) (predicate : Value → Value → Bool) :
    Except RunError Value := do
  let (left, right) ← binaryArguments args operation
  .ok (.bool (predicate left right))

def orderedCompare (args : List Value) (operation : String) (predicate : Rat → Rat → Bool) :
    Except RunError Value := do
  let (left, right) ← binaryArguments args operation
  match ← numberArgument operation left, ← numberArgument operation right with
  | .finite a, .finite b => .ok (.bool (predicate a b))
  | _, _ => .ok (.bool false)

/-- Fold numeric arguments, stopping at the first that is not a number. -/
def foldNumbers (operation : String) (f : Binary64 → Binary64 → Binary64) :
    Binary64 → List Value → Except RunError Binary64
  | total, [] => .ok total
  | total, value :: values => do
    foldNumbers operation f (f total (← numberArgument operation value)) values

def numericFold (args : List Value) (operation : String) (initial : Rat)
    (f : Binary64 → Binary64 → Binary64) : Except RunError Value := do
  if args.isEmpty then
    .error (.expression s!"expression {operation} requires at least one argument")
  else numberValue (← foldNumbers operation f (.finite initial) args)

def numericSubtract (args : List Value) (operation : String) : Except RunError Value := do
  match args with
  | [] => .error (.expression s!"expression {operation} requires at least one argument")
  | first :: rest =>
    numberValue (← foldNumbers operation .sub (← numberArgument operation first) rest)

/-- `divide` and `modulo`: the divisor is examined first. -/
def numericQuotient (args : List Value) (operation : String)
    (f : Binary64 → Binary64 → Binary64) : Except RunError Value := do
  let (left, right) ← binaryArguments args operation
  let divisor ← numberArgument operation right
  if divisor = .finite 0 then
    .error (.expression s!"expression {operation} cannot divide by zero")
  else numberValue (f (← numberArgument operation left) divisor)

def booleanArgument (value : Value) : Except RunError Bool :=
  match value with
  | .bool b => .ok b
  | _ => .error (.expression "expression boolean operations require boolean arguments")

def booleanArguments : List Value → Except RunError (List Bool)
  | [] => .ok []
  | value :: values => do
    let b ← booleanArgument value
    .ok (b :: (← booleanArguments values))

/-- `Number::to_string`. -/
def numberText (serde : SerdeJson) : Number → String
  | .int z => toString z
  | .float q => serde.floatText q

def valueToText (serde : SerdeJson) : Value → Except RunError String
  | .string s => .ok s
  | .null => .ok "null"
  | .bool b => .ok (if b then "true" else "false")
  | .number n => .ok (numberText serde n)
  | _ => .error (.expression "expression concat accepts only scalar values")

def concatText (serde : SerdeJson) : List Value → Except RunError String
  | [] => .ok ""
  | value :: values => do
    let text ← valueToText serde value
    .ok (text ++ (← concatText serde values))

def expressionObject : StrMap Value → List Value → Except RunError Value
  | fields, [] => .ok (.object fields)
  | fields, .string key :: value :: rest => expressionObject (fields.insert key value) rest
  | _, [_] =>
    .error (.expression "expression object requires an even number of key/value arguments")
  | _, _ :: _ :: _ => .error (.expression "expression object keys must be strings")

def getMember (args : List Value) : Except RunError Value := do
  let (container, key) ← binaryArguments args "get"
  match key.asStr with
  | none => .error (.expression "expression get requires a string property name")
  | some key =>
    match container with
    | .object fields => .ok ((StrMap.get? fields key).getD .null)
    | .array items =>
      match (parseUnsigned (2 ^ 64) key.toList).bind fun index => items[index]? with
      | some item => .ok item
      | none => .error (.expression s!"expression get cannot find array index {key}")
    | _ => .error (.expression "expression get requires an object or array")

/-- `str::contains` for a string needle. -/
def containsText (text needle : String) : Bool :=
  text.toList.tails.any needle.toList.isPrefixOf

def containsMember (args : List Value) : Except RunError Value := do
  let (container, needle) ← binaryArguments args "contains"
  match container with
  | .string text =>
    match needle.asStr with
    | some needle => .ok (.bool (containsText text needle))
    | none => .error (.expression "expression contains requires a string needle")
  | .array items => .ok (.bool (needle ∈ items))
  | .object fields => .ok (.bool (needle.asStr.any fun key => StrMap.contains fields key))
  | _ => .error (.expression "expression contains requires a string, array, or object")

/-- The `match operation` of `evaluate_expression`, on evaluated arguments. -/
def applyOperation (serde : SerdeJson) (operation : String) (args : List Value) :
    Except RunError Value :=
  match operation with
  | "equal" => binaryCompare args operation fun a b => a = b
  | "notEqual" => binaryCompare args operation fun a b => a ≠ b
  | "greaterThan" => orderedCompare args operation fun a b => b < a
  | "greaterThanOrEqual" => orderedCompare args operation fun a b => b ≤ a
  | "lessThan" => orderedCompare args operation fun a b => a < b
  | "lessThanOrEqual" => orderedCompare args operation fun a b => a ≤ b
  | "and" => do .ok (.bool ((← booleanArguments args).all id))
  | "or" => do .ok (.bool ((← booleanArguments args).any id))
  | "not" => do
    requireArity args operation 1
    .ok (.bool !((← booleanArguments args).any id))
  | "add" => numericFold args operation 0 .add
  | "subtract" => numericSubtract args operation
  | "multiply" => numericFold args operation 1 .mul
  | "divide" => numericQuotient args operation .div
  | "modulo" => numericQuotient args operation .rem
  | "concat" => do .ok (.string (← concatText serde args))
  | "array" => .ok (.array args)
  | "object" =>
    if args.length % 2 = 0 then expressionObject [] args
    else .error (.expression "expression object requires an even number of key/value arguments")
  | "get" => getMember args
  | "coalesce" => .ok ((args.find? fun value => !value.isNull).getD .null)
  | "contains" => containsMember args
  | other => .error (.expression s!"unsupported expression operation {other}")

/-! ### References -/

/-- Follow object members by name. -/
def followPath : Value → List String → Option Value
  | value, [] => some value
  | value, segment :: segments => do followPath (← value.get? segment) segments

def resolveLocal (locals : StrMap Value) (source : String) : Except RunError Value :=
  match locals.get? source with
  | some value => .ok value
  | none =>
    match splitOnceDot source with
    | none => .error (.localUnavailable source)
    | some (root, path) =>
      match (locals.get? root).bind fun value => followPath value (splitDots path) with
      | some value => .ok value
      | none => .error (.localUnavailable source)

/-- A `from` reference: a local binding, or the output of a node that ran. -/
def resolveFrom (outputs : StrMap (StrMap Value)) (locals : StrMap Value) (source : String) :
    Except RunError Value :=
  if startsWithDollar source then resolveLocal locals source
  else match splitOnceDot source with
  | none => .error (.bindingFormat source)
  | some (nodeId, outputName) =>
    match (outputs.get? nodeId).bind (·.get? outputName) with
    | some value => .ok value
    | none => .error (.bindingUnavailable source)

/-! ### Expressions -/

/-- `expression.as_object()`, its `op` and its `args`. -/
def expressionParts (expression : Value) : Except RunError (String × List Value) :=
  match expression.asObject with
  | none => .error (.expression "expression must be an object")
  | some object =>
    match (object.get? "op").bind Value.asStr with
    | none => .error (.expression "expression.op must be a string")
    | some operation =>
      match (object.get? "args").bind Value.asArray with
      | none => .error (.expression s!"expression {operation} requires an args array")
      | some args => .ok (operation, args)

/-- What `evaluate_expression_argument` finds in an argument. -/
inductive Argument
  | value (value : Value)
  | source (source : String)
  | secret (name : String)
  | expression (expression : Value)

def Argument.ofValue (argument : Value) : Argument :=
  match argument with
  | .object [("literal", literal)] => .value literal
  | .object [("from", .string text)] => .source text
  | .object [("secret", .string name)] => .secret name
  | .object [("expr", nested)] => .expression nested
  | other => .value other

/-- A pure result in the runtime monad. -/
def liftExcept {α : Type} (result : Except RunError α) : RunM α := ExceptT.mk (pure result)

/-- A secret, asked for from the store. -/
def resolveSecret (name : String) : RunM Value := do
  let secret ← request (α := String) (.resolveSecret name)
  pure (.string secret)

mutual

/-- The height of a JSON tree, which bounds how deep expressions can be nested in it. -/
def valueHeight : Value → Nat
  | .array items => itemsHeight items + 1
  | .object fields => fieldsHeight fields + 1
  | _ => 0

def itemsHeight : List Value → Nat
  | [] => 0
  | item :: items => max (valueHeight item) (itemsHeight items)

def fieldsHeight : List (String × Value) → Nat
  | [] => 0
  | (_, value) :: fields => max (valueHeight value) (fieldsHeight fields)

end

section Bindings

variable (serde : SerdeJson) (outputs : StrMap (StrMap Value)) (locals : StrMap Value)

/-- `evaluate_expression_argument`, given the evaluation of a nested expression. -/
def evaluateExpressionArgument (nested : Value → RunM Value) (argument : Value) : RunM Value :=
  match Argument.ofValue argument with
  | .value value => pure value
  | .source source => liftExcept (resolveFrom outputs locals source)
  | .secret name => resolveSecret name
  | .expression expression => nested expression

/-- Evaluate arguments in order, stopping at the first failure. -/
def evaluateArguments (nested : Value → RunM Value) : List Value → RunM (List Value)
  | [] => pure []
  | argument :: arguments => do
    let value ← evaluateExpressionArgument outputs locals nested argument
    let values ← evaluateArguments nested arguments
    pure (value :: values)

/-- `evaluate_expression`, to a nesting depth. -/
def evaluateExpression : Nat → Value → RunM Value
  | 0, _ => throw .outOfFuel
  | depth + 1, expression => do
    let (operation, args) ← liftExcept (expressionParts expression)
    let values ← evaluateArguments outputs locals (evaluateExpression depth) args
    liftExcept (applyOperation serde operation values)

def resolveBinding : WorkflowBinding → RunM Value
  | .literal literal => pure literal
  | .from source => liftExcept (resolveFrom outputs locals source)
  | .expr expr => evaluateExpression serde outputs locals (valueHeight expr + 1) expr
  | .secret secret => resolveSecret secret

/-- `resolve_inputs`: every binding in key order, stopping at the first failure. -/
def resolveInputs : StrMap WorkflowBinding → RunM (StrMap Value)
  | [] => pure []
  | (name, binding) :: bindings => do
    let value ← resolveBinding serde outputs locals binding
    let values ← resolveInputs bindings
    pure ((name, value) :: values)

end Bindings

/-! ### Dependencies and secrets of a binding -/

/-- The producer a reference names, if it names one. -/
def referencedNode (source : String) : Option String :=
  if startsWithDollar source then none else (splitOnceDot source).map Prod.fst

mutual

/-- The references `binding_dependencies` finds in an expression: it descends through `from`,
`expr` and `args`, whatever else the object holds. -/
def expressionReferences : Value → List String
  | .object fields =>
    (((StrMap.get? fields "from").bind Value.asStr).map fun source => [source]).getD []
      ++ exprReferences fields ++ argsReferences fields
  | _ => []

/-- The references below the first `expr` member. -/
def exprReferences : List (String × Value) → List String
  | [] => []
  | (key, value) :: fields =>
    if key = "expr" then expressionReferences value else exprReferences fields

/-- The references below the first `args` member. -/
def argsReferences : List (String × Value) → List String
  | [] => []
  | (key, value) :: fields =>
    if key = "args" then arrayReferences value else argsReferences fields

/-- The references of the items of an array. -/
def arrayReferences : Value → List String
  | .array items => itemsReferences items
  | _ => []

def itemsReferences : List Value → List String
  | [] => []
  | item :: items => expressionReferences item ++ itemsReferences items

end

/-- The references the runtime finds in a binding. -/
def bindingReferences : WorkflowBinding → List String
  | .from source => [source]
  | .expr expr => expressionReferences expr
  | _ => []

/-- `binding_dependencies`. -/
def bindingDependencies (binding : WorkflowBinding) : List String :=
  (bindingReferences binding).filterMap referencedNode

/-- The data dependencies `execute_graph` waits for. -/
def WorkflowNode.dependencies (node : WorkflowNode) : List String :=
  node.inputs.values.flatMap bindingDependencies

mutual

def expressionUsesSecret : Value → Bool
  | .array items => itemsUseSecret items
  | .object fields => StrMap.contains fields "secret" || fieldsUseSecret fields
  | _ => false

def itemsUseSecret : List Value → Bool
  | [] => false
  | item :: items => expressionUsesSecret item || itemsUseSecret items

def fieldsUseSecret : List (String × Value) → Bool
  | [] => false
  | (_, value) :: fields => expressionUsesSecret value || fieldsUseSecret fields

end

def bindingUsesSecret : WorkflowBinding → Bool
  | .secret _ => true
  | .expr expr => expressionUsesSecret expr
  | .literal _ | .from _ => false

/-- Whether some input binding of a node reads a secret. -/
def WorkflowNode.usesSecret (node : WorkflowNode) : Bool :=
  node.inputs.values.any bindingUsesSecret

end KakuneCore
