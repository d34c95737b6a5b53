import KakuneCore.Planner.Compile
import KakuneCore.Relational.Table
import KakuneCore.Store.Checkpoints

/-!
# The tables of the store

The rows behind the executions of a Core: the executions themselves, their plans, request keys,
plugin pins and checkpoints, the event log, and what admission reads about workflows and plugins.
Times are the texts `now` formats; SQLite compares them as texts. The trace spans are left out: no
operation here reads them.

A store call is one transaction. It either commits, and its effect is the function modelled here,
or it fails and leaves the tables as they were.
-/

namespace KakuneCore

/-! ### Executions -/

/-- The statuses of an execution. -/
inductive ExecutionStatus
  | queued | running | cancelling | succeeded | failed | cancelled | timedOut | interrupted
  deriving DecidableEq, Repr

namespace ExecutionStatus

def text : ExecutionStatus → String
  | queued => "queued"
  | running => "running"
  | cancelling => "cancelling"
  | succeeded => "succeeded"
  | failed => "failed"
  | cancelled => "cancelled"
  | timedOut => "timed_out"
  | interrupted => "interrupted"

/-- The execution has come to an end. -/
def IsTerminal : ExecutionStatus → Prop
  | queued | running | cancelling => False
  | succeeded | failed | cancelled | timedOut | interrupted => True

instance : DecidablePred IsTerminal := fun status => by
  cases status <;> unfold IsTerminal <;> infer_instance

/-- The execution occupies a slot of its workflow. -/
def isActive (status : ExecutionStatus) : Bool := status = running || status = cancelling

/-- The statuses at which the trigger `execution_release_plugin_pins` fires. -/
def releasesPins : ExecutionStatus → Bool
  | succeeded | failed | cancelled | timedOut => true
  | queued | running | cancelling | interrupted => false

end ExecutionStatus

/-- The status `finish_execution` is called with. -/
def FinalStatus.toExecutionStatus : FinalStatus → ExecutionStatus
  | succeeded => .succeeded
  | failed => .failed
  | cancelled => .cancelled
  | timedOut => .timedOut

/-- What the store returns about an execution. -/
structure ExecutionRecord where
  id : String
  workflowName : String
  status : ExecutionStatus
  createdAt : String
  completedAt : Option String := none
  error : Option String := none
  deriving DecidableEq, Repr

/-- A row of `executions`. -/
structure ExecutionRow extends ExecutionRecord where
  pinned : Bool := false
  deriving DecidableEq, Repr

/-! ### The other tables -/

/-- A row of `execution_plans`. -/
structure PlanRow where
  executionId : String
  workflowRevision : String
  plan : ExecutionPlan

/-- A row of `execution_idempotency`. -/
structure IdempotencyRow where
  requestKey : String
  requestHash : String
  executionId : String
  deriving DecidableEq, Repr

/-- A row of `events`. -/
structure EventRow where
  sequence : Nat
  timestamp : String
  eventType : String
  resourceId : String
  executionId : Option String
  payload : Value
  deriving DecidableEq, Repr

structure WorkflowRow where
  id : String
  revision : String
  status : String
  deriving DecidableEq, Repr

inductive PluginStatus
  | active | pendingRemoval | removalFailed
  deriving DecidableEq, Repr

/-- A row of `installed_plugins` with its row of `plugin_lifecycle`. -/
structure PluginRow where
  id : String
  version : String
  digest : String
  manifestPath : String
  enabled : Bool
  status : PluginStatus := .active
  deriving DecidableEq, Repr

/-- A row of `plugin_execution_pins`. -/
structure PinRow where
  executionId : String
  pluginId : String
  version : String
  digest : String
  manifestPath : String
  deriving DecidableEq, Repr

structure Tables where
  executions : List ExecutionRow := []
  plans : List PlanRow := []
  idempotency : List IdempotencyRow := []
  pins : List PinRow := []
  checkpoints : StrMap CheckpointTable := []
  events : List EventRow := []
  eventSequence : Nat := 0
  workflows : List WorkflowRow := []
  plugins : List PluginRow := []
  /-- `plugin_removal_workflows`: plugin id, workflow id. -/
  removalWorkflows : List (String × String) := []

namespace Tables

/-- `SELECT … FROM executions WHERE id = ?1`. -/
def execution (tables : Tables) (id : String) : Option ExecutionRow :=
  Table.lookup (fun row : ExecutionRow => row.id) tables.executions id

def checkpointsOf (tables : Tables) (execution : String) : CheckpointTable :=
  (tables.checkpoints.get? execution).getD []

/-- `UPDATE executions SET … WHERE …`, with the trigger that releases the pins of the executions
whose new status says so. -/
def updateExecutions (tables : Tables) (p : ExecutionRow → Bool)
    (f : ExecutionRow → ExecutionRow) : Tables :=
  { tables with
    executions := Table.updateWhere tables.executions p f
    pins := tables.pins.filter fun pin => !tables.executions.any fun row =>
      p row && (f row).status.releasesPins && row.id = pin.executionId }

@[simp]
theorem updateExecutions_executions (tables : Tables) (p : ExecutionRow → Bool)
    (f : ExecutionRow → ExecutionRow) :
    (tables.updateExecutions p f).executions = Table.updateWhere tables.executions p f := rfl

@[simp]
theorem updateExecutions_events (tables : Tables) (p : ExecutionRow → Bool)
    (f : ExecutionRow → ExecutionRow) : (tables.updateExecutions p f).events = tables.events := rfl

@[simp]
theorem updateExecutions_eventSequence (tables : Tables) (p : ExecutionRow → Bool)
    (f : ExecutionRow → ExecutionRow) :
    (tables.updateExecutions p f).eventSequence = tables.eventSequence := rfl

/-! ### Events -/

/-- The payload fields an event may show. -/
def safeKeys : List String :=
  ["workflowId", "executionId", "nodeId", "triggerId", "status", "previousStatus", "outcome",
    "revision", "workflowRevision", "planHash", "reasonCode"]

def isPlain : Value → Bool
  | .string _ | .number _ | .bool _ => true
  | _ => false

/-- `sanitize_event_payload`. -/
def sanitizeEventPayload : Value → Value
  | .object fields =>
    let safe := fields.filter fun field => field.1 ∈ safeKeys && isPlain field.2
    .object (if safe.length = fields.length then safe
      else StrMap.insert safe "safetyNotice"
        (.string "Free-form or unverified event fields were omitted from this snapshot."))
  | _ => .object [("availability", .string "unavailable"),
      ("guidance", .string "Free-form historical event payload was omitted because its safety cannot be verified.")]

/-- `append_event`, for an execution: the sequence number is taken from `core_state`. -/
def appendEvent (tables : Tables) (eventType resourceId : String) (executionId : Option String)
    (payload : Value) (timestamp : String) : Tables :=
  { tables with
    eventSequence := tables.eventSequence + 1
    events := tables.events ++ [{
      sequence := tables.eventSequence + 1
      timestamp, eventType, resourceId, executionId
      payload := sanitizeEventPayload payload }] }

@[simp]
theorem appendEvent_executions (tables : Tables) (eventType resourceId : String)
    (executionId : Option String) (payload : Value) (timestamp : String) :
    (tables.appendEvent eventType resourceId executionId payload timestamp).executions =
      tables.executions := rfl

@[simp]
theorem appendEvent_idempotency (tables : Tables) (eventType resourceId : String)
    (executionId : Option String) (payload : Value) (timestamp : String) :
    (tables.appendEvent eventType resourceId executionId payload timestamp).idempotency =
      tables.idempotency := rfl

@[simp]
theorem appendEvent_eventSequence (tables : Tables) (eventType resourceId : String)
    (executionId : Option String) (payload : Value) (timestamp : String) :
    (tables.appendEvent eventType resourceId executionId payload timestamp).eventSequence =
      tables.eventSequence + 1 := rfl

end Tables

end KakuneCore
