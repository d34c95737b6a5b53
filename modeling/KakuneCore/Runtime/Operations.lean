import KakuneCore.Process.Basic
import KakuneCore.Planner.Compile

/-!
# What the runtime asks of its surroundings

The runtime is modelled as a process: `Op` lists the store calls, the atomic flags, the clock,
the external nodes, and `Resp` the answers. Everything the code decides itself is program text in
the modules below; everything it is told is an answer.

Errors travel through the runtime as strings. `RunError` keeps where an error was made, and
`RunError.message` is the string the source builds; every test the code makes on an error is a
test on that string.

`Op.observe` is a ghost operation: it marks the calls that statements quantify over, is answered
by `()`, and no branch depends on it.
-/

namespace KakuneCore

/-! ### Errors -/

/-- An error on its way out of the runtime, by the place that made it. -/
inductive RunError
  /-- No node is ready and some node is unsettled. -/
  | noProgress
  | variableNameMissing
  | concurrentWrites (name : String)
  /-- A reference without a dot. -/
  | bindingFormat (source : String)
  /-- A reference to a node output that is not there. -/
  | bindingUnavailable (source : String)
  | localUnavailable (source : String)
  /-- A failure of the expression language. -/
  | expression (text : String)
  /-- A failure of a modelled node body or of its result. -/
  | node (text : String)
  /-- A text that came from the store, a secret backend or an external node. -/
  | external (text : String)
  | shutdownRequested
  | siblingFailed
  | cancellationRequested
  | timedOut
  /-- A failed foreach item, wrapped by its container. -/
  | foreachItem (index : Nat) (error : RunError)
  /-- A worker thread that panicked, as its `join` reports it. -/
  | workerPanicked
  /-- A panic on its way up the worker thread. -/
  | panic
  /-- The bound on scheduling rounds or on nesting was used up. -/
  | outOfFuel
  deriving DecidableEq, Repr

/-- The error string of the source. -/
def RunError.message : RunError → String
  | noProgress => "graph cannot make progress: an input or control dependency is unavailable"
  | variableNameMissing => "variable name is missing"
  | concurrentWrites name => s!"concurrent writes to variable {name} require an explicit reducer"
  | bindingFormat source => s!"binding source {source} must use node.output"
  | bindingUnavailable source => s!"binding source {source} is not available"
  | localUnavailable source => s!"local binding source {source} is not available"
  | expression text => text
  | node text => text
  | external text => text
  | shutdownRequested => "Core shutdown requested"
  | siblingFailed => "sibling node failed"
  | cancellationRequested => "execution cancellation requested"
  | timedOut => "execution timed out"
  | foreachItem index error => s!"foreach item {index} failed: {error.message}"
  | workerPanicked => "node worker panicked"
  | panic => "panic"
  | outOfFuel => "out of fuel"

/-! ### Data exchanged with the store -/

structure NodeResult where
  route : String
  outputs : StrMap Value := []
  message : Option String := none
  deriving DecidableEq, Repr

def optionalText : Option String → Value
  | none => .null
  | some text => .string text

/-- `serde_json::to_value(&result)`. -/
def NodeResult.toValue (result : NodeResult) : Value :=
  .object [("message", optionalText result.message), ("outputs", .object result.outputs),
    ("route", .string result.route)]

/-- `serde_json::from_value::<NodeResult>`. -/
def NodeResult.ofValue (saved : Value) : Option NodeResult :=
  match (saved.get? "route").bind Value.asStr, (saved.get? "outputs").bind Value.asObject with
  | some route, some outputs =>
    match saved.get? "message" with
    | none | some .null => some { route, outputs }
    | some (.string message) => some { route, outputs, message := some message }
    | some _ => none
  | _, _ => none

@[simp]
theorem NodeResult.ofValue_toValue (result : NodeResult) :
    NodeResult.ofValue result.toValue = some result := by
  obtain ⟨route, outputs, message⟩ := result
  cases message <;> rfl

/-- `node_result_value`: the form of a result that is shown with the node's outcome. -/
def nodeResultValue (result : NodeResult) (sensitive : Bool) : Value :=
  .object [("message", if sensitive then .string "sensitive result redacted"
      else optionalText result.message),
    ("outputs", if sensitive then .string "[redacted]" else .object result.outputs),
    ("route", .string result.route)]

/-- The statuses of a row of `node_checkpoints`. -/
inductive CheckpointStatus
  | running | waiting | container | completed | unrecoverable
  deriving DecidableEq, Repr

inductive SpanStatus
  | succeeded | failed | cancelled
  deriving DecidableEq, Repr

/-- What `record_node_outcome` stores for a node. -/
inductive NodeOutcome
  | succeeded (message : Option String) (value : Value)
  | failed (error : String)
  deriving DecidableEq, Repr

/-- The terminal statuses `finish_execution` is called with. -/
inductive FinalStatus
  | succeeded | failed | cancelled | timedOut
  deriving DecidableEq, Repr

/-- A trace span, by the activations and attempts it is nested in, innermost first. -/
abbrev SpanId : Type := List (String × Nat)

/-- An abort flag, by the place that created it: the base control of the execution, or the graph
instance that forked the control. -/
inductive AbortFlag
  | base
  | graph (scope : String) (span : SpanId)
  deriving DecidableEq, Repr

/-! ### Operations -/

/-- Calls that statements about runs refer to. -/
inductive Observation
  /-- A round of the instance `scope` has these ready nodes. -/
  | round (scope : String) (ready : List WorkflowNode)
  /-- `execute_graph` resolves the inputs of a node of the instance `scope`. -/
  | resolving (scope : String) (node : WorkflowNode) (outputs : StrMap (StrMap Value))
    (locals : StrMap Value)
  /-- The worker of a node starts; `settled` is what the instance had settled. -/
  | starting (scope node : String) (settled : List String) (inputs locals : StrMap Value)
  /-- The worker of a node is done. -/
  | finished (scope node : String) (result : Except RunError NodeResult)
  /-- The thread of a foreach item is done. -/
  | itemFinished (scope node : String) (index : Nat) (result : Except RunError (StrMap Value))
  /-- `execute_node` is entered for an activation of a node of this kind. -/
  | executing (id : String) (kind : NodeKind)

inductive Op
  | shutdownRequested
  | loadAbort (flag : AbortFlag)
  | storeAbort (flag : AbortFlag)
  | cancelRequested
  | deadlineReached
  | checkpointResult (id : String)
  | beginCheckpoint (id : String) (status : CheckpointStatus)
  | completeCheckpoint (id : String) (result : Option Value)
  | durableDelayRemaining (id : String) (milliseconds : Nat)
  /-- How many sleep slices a wait of this length takes. -/
  | waitSlices (milliseconds : Nat)
  | startTraceSpan (span : SpanId) (nodeType : String)
  | finishTraceSpan (span : SpanId) (status : SpanStatus) (error : Option String)
  | recordNodeOutcome (id : String) (outcome : NodeOutcome)
  | resolveSecret (name : String)
  /-- Hand an activation to an external node: HTTP, process, provider, plugin, file system. -/
  | invoke (id nodeType : String) (config inputs : StrMap Value)
  | setExecutionResult (result : Value)
  | finishExecution (status : FinalStatus) (error : Option String)
  | observe (observation : Observation)

/-- The answers. A fallible call answers with the error text of the callee. An external node is
polled: its answer tells how often the control is checked before the result arrives. -/
abbrev Resp : Op → Type
  | .shutdownRequested | .loadAbort _ | .deadlineReached => Bool
  | .storeAbort _ | .observe _ => Unit
  | .cancelRequested => Except String Bool
  | .checkpointResult _ => Except String (Option Value)
  | .durableDelayRemaining _ _ => Except String Nat
  | .waitSlices _ => Nat
  | .resolveSecret _ => Except String String
  | .invoke _ _ _ _ => Nat × Except String NodeResult
  | .beginCheckpoint _ _ | .completeCheckpoint _ _ | .startTraceSpan _ _
  | .finishTraceSpan _ _ _ | .recordNodeOutcome _ _ | .setExecutionResult _
  | .finishExecution _ _ => Except String Unit

/-- An event of the runtime. -/
abbrev RunEvent : Type := Event Op Resp

/-- A trace of the runtime. -/
abbrev RunTrace : Type := Trace Op Resp

/-- Runtime code: a process that may fail. -/
abbrev RunM : Type → Type 1 := ExceptT RunError (Proc Op Resp)

/-- Issue an operation that cannot fail. -/
def ask (o : Op) : RunM (Resp o) := ExceptT.lift (Proc.call o)

/-- Turn the answer of a fallible callee into an error of the runtime. -/
def ofAnswer {α : Type} : Except String α → Except RunError α
  | .ok a => .ok a
  | .error text => .error (.external text)

/-- Issue a fallible operation; its error is passed on, as `?` does. -/
def request {α : Type} (o : Op) (h : Resp o = Except String α := by rfl) : RunM α :=
  ExceptT.mk (Proc.call o >>= fun answer => pure (ofAnswer (cast h answer)))

/-- Mark a call. -/
def observe (observation : Observation) : RunM Unit := ask (.observe observation)

/-- Run a step only under a condition. -/
def doWhen (condition : Bool) (step : RunM Unit) : RunM Unit :=
  if condition then step else pure ()

/-! ### Run control -/

/-- `RunControl`: the abort flag of the innermost graph and those of the graphs around it. The
deadline and the shutdown flag are asked for through `Op`. -/
structure RunControl where
  abort : AbortFlag
  ancestors : List AbortFlag
  deriving DecidableEq, Repr

namespace RunControl

/-- `RunControl::new`. -/
def new : RunControl := { abort := .base, ancestors := [] }

/-- `RunControl::fork`: a fresh flag below the present one. -/
def fork (control : RunControl) (flag : AbortFlag) : RunControl where
  abort := flag
  ancestors := control.ancestors ++ [control.abort]

/-- The flags `check` reads, in its order. -/
def flags (control : RunControl) : List AbortFlag := control.abort :: control.ancestors

/-- Read flags until one is set. -/
def anyAborted : List AbortFlag → RunM Bool
  | [] => pure false
  | flag :: flags => do
    if ← ask (.loadAbort flag) then pure true else anyAborted flags

/-- `RunControl::check`. -/
def check (control : RunControl) : RunM Unit := do
  doWhen (← ask .shutdownRequested) (throw .shutdownRequested)
  doWhen (← anyAborted control.flags) (throw .siblingFailed)
  doWhen (← request (α := Bool) .cancelRequested) (throw .cancellationRequested)
  doWhen (← ask .deadlineReached) (throw .timedOut)

/-- Check the control a number of times. -/
def poll (control : RunControl) : Nat → RunM Unit
  | 0 => pure ()
  | n + 1 => do
    control.check
    control.poll n

/-- `wait_with_control`. -/
def wait (control : RunControl) (milliseconds : Nat) : RunM Unit := do
  let slices ← ask (.waitSlices milliseconds)
  control.poll slices
  control.check

end RunControl

/-! ### Execution context -/

/-- The text functions of `serde_json` the runtime calls: the length of the encoded text and the
text of a floating-point number. -/
structure SerdeJson where
  encodedLength : Value → Nat
  floatText : Rat → String

/-- `ExecutionContext`, without the store handle and the execution id, which are fixed, and
without the provider budget, which only provider nodes read. -/
structure ExecutionContext where
  plugins : PluginRegistry := []
  control : RunControl := .new
  scope : String := ""
  activeSpan : SpanId := []
  maxParallelNodes : Nat := 8
  maxNodeResultBytes : Option Nat := none
  sensitive : Bool := false
  serde : SerdeJson

/-- `scoped_node_id`. -/
def scopedNodeId (scope nodeId : String) : String :=
  if scope = "" then nodeId else s!"{scope}/{nodeId}"

end KakuneCore
