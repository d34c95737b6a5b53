import KakuneCore.Store.Tables

/-!
# Operations on executions

Admission, the queue, cancellation, the end of a run, recovery after a restart, and retention, as
the store writes them. Every operation is one transaction on `Tables`.
-/

namespace KakuneCore

namespace Tables

/-! ### Admission -/

/-- `SELECT COUNT(*) … status IN ('running', 'cancelling')`. -/
def activeRuns (tables : Tables) (workflowName : String) : Nat :=
  tables.executions.countP fun row => row.workflowName = workflowName && row.status.isActive

/-- `SELECT COUNT(*) … status = 'queued'`. -/
def queuedRuns (tables : Tables) (workflowName : String) : Nat :=
  tables.executions.countP fun row => row.workflowName = workflowName && row.status = .queued

/-- `execution_admission`. -/
def executionAdmission (tables : Tables) (workflowName : String) :
    Option ConcurrencyPolicy → Except String ExecutionStatus
  | none => .ok .running
  | some concurrency =>
    if tables.activeRuns workflowName < concurrency.maxRuns.getD (2 ^ 32 - 1) then .ok .running
    else if concurrency.overflow ≠ some .queue then
      .error s!"workflow {workflowName} is at its maxRuns limit"
    else if concurrency.maxQueued.getD 0 ≤ tables.queuedRuns workflowName then
      .error s!"workflow {workflowName} queue is full"
    else .ok .queued

/-- `idempotent_execution`. -/
def idempotentExecution (tables : Tables) (key hash : String) :
    Except String (Option ExecutionRecord) :=
  match Table.lookup IdempotencyRow.requestKey tables.idempotency key with
  | none => .ok none
  | some stored =>
    if stored.requestHash ≠ hash then
      .error "idempotency key already used for a different request"
    else .ok ((tables.execution stored.executionId).map ExecutionRow.toExecutionRecord)

/-- `ensure_workflow_not_blocked`. -/
def ensureWorkflowNotBlocked (tables : Tables) (id : String) : Except String Unit :=
  let blocked := tables.removalWorkflows.any fun removal => removal.2 = id &&
    tables.plugins.any fun plugin => plugin.id = removal.1 && plugin.status ≠ .active
  if blocked then .error s!"workflow {id} depends on a plugin pending removal" else .ok ()

/-- The revision and status checks of a canonical admission. -/
def ensureCurrentRevision (tables : Tables) (workflowName workflowRevision : String)
    (requireEnabled : Bool) : Except String Unit :=
  match Table.lookup WorkflowRow.id tables.workflows workflowName with
  | none => .error s!"workflow {workflowName} was not found"
  | some workflow =>
    if workflow.revision ≠ workflowRevision then
      .error s!"workflow revision conflict; current revision is {workflow.revision}"
    else if requireEnabled && workflow.status ≠ "enabled" then
      .error s!"workflow {workflowName} is not enabled"
    else tables.ensureWorkflowNotBlocked workflowName

/-- A plugin a plan needs, with the content it was compiled against. -/
structure PluginRequirement where
  pluginId : String
  version : Option String := none
  manifestPath : Option String := none
  digest : Option String := none

/-- The installed plugin that satisfies a requirement. -/
def PluginRequirement.isSatisfiedBy (requirement : PluginRequirement) (plugin : PluginRow) :
    Bool :=
  plugin.id = requirement.pluginId && plugin.enabled && plugin.status = .active &&
    requirement.version.all (plugin.version = ·) &&
    requirement.manifestPath.all (plugin.manifestPath = ·) &&
    requirement.digest.all (plugin.digest = ·)

/-- The loop over `plugin_ids`: pin every plugin, or find it pinned already. -/
def pinPlugins (executionId : String) :
    List PluginRequirement → Tables → Except String Tables
  | [], tables => .ok tables
  | requirement :: requirements, tables =>
    let pinned := tables.pins.any fun pin =>
      pin.executionId = executionId && pin.pluginId = requirement.pluginId
    match tables.plugins.find? requirement.isSatisfiedBy with
    | some plugin =>
      let pin : PinRow :=
        { executionId, pluginId := plugin.id, version := plugin.version, digest := plugin.digest,
          manifestPath := plugin.manifestPath }
      pinPlugins executionId requirements
        (if pinned then tables else { tables with pins := tables.pins ++ [pin] })
    | none =>
      if pinned then pinPlugins executionId requirements tables
      else .error s!"plugin {requirement.pluginId} is unavailable or pending removal"

/-- The arguments of `create_execution_with_plan_guarded`, with the id and the time it draws. -/
structure Admission where
  executionId : String
  workflowName : String
  workflowRevision : String
  plan : ExecutionPlan
  /-- Request key and request hash. -/
  identity : Option (String × String) := none
  requireCurrentRevision : Bool := false
  requireEnabled : Bool := false
  plugins : List PluginRequirement := []
  createdAt : String

/-- `INSERT INTO executions`: the id is the primary key. -/
def insertExecution (tables : Tables) (row : ExecutionRow) : Except String Tables :=
  if tables.executions.any fun other => other.id = row.id then
    .error "UNIQUE constraint failed: executions.id"
  else .ok { tables with executions := tables.executions ++ [row] }

/-- `INSERT INTO execution_idempotency`: the request key is the primary key. -/
def insertIdentity (tables : Tables) (executionId : String) :
    Option (String × String) → Except String Tables
  | none => .ok tables
  | some (key, hash) =>
    if tables.idempotency.any fun other => other.requestKey = key then
      .error "UNIQUE constraint failed: execution_idempotency.request_key"
    else
      .ok { tables with
        idempotency := tables.idempotency ++
          [{ requestKey := key, requestHash := hash, executionId }] }

/-- The record of an admitted execution. -/
def Admission.record (admission : Admission) (status : ExecutionStatus) : ExecutionRecord where
  id := admission.executionId
  workflowName := admission.workflowName
  status
  createdAt := admission.createdAt

/-- The row of an admitted execution. -/
def Admission.row (admission : Admission) (status : ExecutionStatus) : ExecutionRow :=
  { admission.record status with }

@[simp]
theorem Admission.row_id (admission : Admission) (status : ExecutionStatus) :
    (admission.row status).id = admission.executionId := rfl

@[simp]
theorem Admission.row_workflowName (admission : Admission) (status : ExecutionStatus) :
    (admission.row status).workflowName = admission.workflowName := rfl

@[simp]
theorem Admission.row_status (admission : Admission) (status : ExecutionStatus) :
    (admission.row status).status = status := rfl

/-- The row that binds the request key of an admission, if it has one. -/
def Admission.identityRows (admission : Admission) : List IdempotencyRow :=
  admission.identity.toList.map fun identity =>
    { requestKey := identity.1, requestHash := identity.2, executionId := admission.executionId }

/-- `INSERT INTO execution_plans`. -/
def insertPlan (tables : Tables) (admission : Admission) : Tables :=
  let row : PlanRow :=
    { executionId := admission.executionId, workflowRevision := admission.workflowRevision,
      plan := admission.plan }
  { tables with plans := tables.plans ++ [row] }

/-- The part of `create_execution_with_plan_guarded` that writes rows. -/
def admitExecution (tables : Tables) (admission : Admission) :
    Except String (ExecutionRecord × Tables) := do
  let status ← tables.executionAdmission admission.workflowName admission.plan.policy.concurrency
  let tables ← tables.insertExecution (admission.row status)
  let tables ← pinPlugins admission.executionId admission.plugins tables
  let tables := tables.insertPlan admission
  let tables ← tables.insertIdentity admission.executionId admission.identity
  let tables := tables.appendEvent
    (if status = .queued then "execution.queued" else "execution.started")
    admission.workflowName (some admission.executionId)
    (.object [("status", .string status.text), ("workflowId", .string admission.workflowName)])
    admission.createdAt
  pure (admission.record status, tables)

/-- The execution a request key is bound to already, if any. -/
def requestedExecution (tables : Tables) :
    Option (String × String) → Except String (Option ExecutionRecord)
  | none => .ok none
  | some (key, hash) => tables.idempotentExecution key hash

/-- `if require_current_revision`. -/
def ensureEligible (tables : Tables) (admission : Admission) : Except String Unit :=
  if admission.requireCurrentRevision then
    tables.ensureCurrentRevision admission.workflowName admission.workflowRevision
      admission.requireEnabled
  else .ok ()

/-- `create_execution_with_plan_guarded`. -/
def createExecutionWithPlanGuarded (tables : Tables) (admission : Admission) :
    Except String ((ExecutionRecord × Bool) × Tables) := do
  match ← tables.requestedExecution admission.identity with
  | some record => pure ((record, false), tables)
  | none =>
    tables.ensureEligible admission
    let (record, tables) ← tables.admitExecution admission
    pure ((record, true), tables)

/-! ### The queue -/

/-- `claim_execution_slot`. -/
def claimExecutionSlot (tables : Tables) (id : String) (maxRuns : Option Nat)
    (startedAt : String) : Bool × Tables :=
  match tables.execution id with
  | none => (false, tables)
  | some row =>
    if row.status ≠ .queued then (false, tables)
    else if maxRuns.all (tables.activeRuns row.workflowName < ·) then
      let tables := tables.updateExecutions (fun row => row.id = id && row.status = .queued)
        fun row => { row with status := .running }
      (true, tables.appendEvent "execution.started" row.workflowName (some id)
        (.object [("status", .string "running"), ("workflowId", .string row.workflowName)])
        startedAt)
    else (false, tables)

/-! ### Cancellation -/

/-- `request_execution_cancel`: one update, no completion time, no event. -/
def requestExecutionCancel (tables : Tables) (id : String) : Bool × Tables :=
  let requested : ExecutionRow → Bool := fun row =>
    row.id = id && (row.status = .queued || row.status = .running)
  (tables.executions.countP requested = 1, tables.updateExecutions requested fun row =>
    { row with status := if row.status = .queued then .cancelled else .cancelling })

inductive ExecutionCancellationOutcome
  | requested (observedStatus : ExecutionStatus)
  | alreadyRequested (observedStatus : ExecutionStatus)
  | cancelledBeforeStart (observedStatus : ExecutionStatus)
  | terminalUnchanged (observedStatus : ExecutionStatus)
  | notFound
  deriving DecidableEq, Repr

/-- `request_execution_cancel_outcome`. The status is read in the transaction that updates it, so
the updates always find their row. -/
def requestExecutionCancelOutcome (tables : Tables) (id now : String) :
    ExecutionCancellationOutcome × Tables :=
  match tables.execution id with
  | none => (.notFound, tables)
  | some row =>
    match row.status with
    | .queued =>
      let tables := tables.updateExecutions (fun row => row.id = id && row.status = .queued)
        fun row => { row with status := .cancelled, completedAt := some now }
      (.cancelledBeforeStart .cancelled,
        tables.appendEvent "execution.cancelled" row.workflowName (some id)
          (.object [("outcome", .string "cancelled_before_start"),
            ("status", .string "cancelled")]) now)
    | .running =>
      let tables := tables.updateExecutions (fun row => row.id = id && row.status = .running)
        fun row => { row with status := .cancelling }
      (.requested .cancelling,
        tables.appendEvent "execution.cancel.requested" row.workflowName (some id)
          (.object [("outcome", .string "requested"), ("status", .string "cancelling")]) now)
    | .cancelling => (.alreadyRequested .cancelling, tables)
    | status => (.terminalUnchanged status, tables)

/-- `cancel_queued_execution`: one update, no event. -/
def cancelQueuedExecution (tables : Tables) (id completedAt : String) : Bool × Tables :=
  let queued : ExecutionRow → Bool := fun row => row.id = id && row.status = .queued
  (tables.executions.countP queued = 1, tables.updateExecutions queued fun row =>
    { row with status := .cancelled, completedAt := some completedAt })

/-! ### The end of a run -/

def optionalString : Option String → Value
  | some text => .string text
  | none => .null

/-- `finish_execution`. -/
def finishExecution (tables : Tables) (id : String) (status : FinalStatus) (error : Option String)
    (completedAt : String) : Except String Tables :=
  match tables.execution id with
  | none => .error s!"execution {id} was not found"
  | some row =>
    if row.status.IsTerminal then .ok tables
    else
      let tables :=
        tables.updateExecutions (fun row => row.id = id && !decide row.status.IsTerminal)
        fun row =>
          { row with status := status.toExecutionStatus, completedAt := some completedAt, error }
      .ok (tables.appendEvent "execution.finished" row.workflowName (some id)
        (.object [("error", optionalString error),
          ("status", .string status.toExecutionStatus.text)]) completedAt)

/-! ### Recovery -/

/-- The status recovery gives a running or cancelling execution, and its error. -/
def recoveredStatus (status : ExecutionStatus) (hasPlan uncertain : Bool) :
    ExecutionStatus × Option String :=
  if status = .cancelling then (.cancelled, none)
  else if hasPlan && !uncertain then (.queued, none)
  else (.interrupted, some "Core restarted during an operation with uncertain effects")

/-- What recovery does to an execution, from the tables it reads. -/
def recoveryOf (tables : Tables) (row : ExecutionRow) : ExecutionStatus × Option String :=
  recoveredStatus row.status (tables.plans.any fun plan => plan.executionId = row.id)
    (tables.checkpointsOf row.id).isUncertain

/-- One turn of the recovery loop. -/
def recoverExecution (completedAt : String) (tables : Tables) (row : ExecutionRow) : Tables :=
  let next := tables.recoveryOf row
  let tables := tables.updateExecutions (fun other => other.id = row.id) fun other =>
    { other with
      status := next.1
      completedAt := if next.1 = .queued then none else some completedAt
      error := next.2 }
  tables.appendEvent "execution.recovered" row.workflowName (some row.id)
    (.object [("previousStatus", .string row.status.text), ("status", .string next.1.text)])
    completedAt

/-- `recover_incomplete_executions`. -/
def recoverIncompleteExecutions (tables : Tables) (completedAt : String) : Nat × Tables :=
  let interrupted := tables.executions.filter fun row => row.status.isActive
  (interrupted.length, interrupted.foldl (recoverExecution completedAt) tables)

/-! ### Retention -/

def setExecutionPinned (tables : Tables) (id : String) (pinned : Bool) : Bool × Tables :=
  (tables.executions.countP (fun row => row.id = id) = 1,
    tables.updateExecutions (fun row => row.id = id) fun row => { row with pinned })

/-- The executions `apply_retention` deletes. -/
def isExpired (executionBefore : String) (row : ExecutionRow) : Bool :=
  row.completedAt.any (· < executionBefore) && !row.pinned

/-- The first transaction of `apply_retention`. What refers to a deleted execution goes with it. -/
def applyRetention (tables : Tables) (executionBefore eventBefore : String) : Tables :=
  let expired : String → Bool := fun id =>
    tables.executions.any fun row => row.id = id && isExpired executionBefore row
  { tables with
    executions := tables.executions.filter fun row => !isExpired executionBefore row
    plans := tables.plans.filter fun row => !expired row.executionId
    idempotency := tables.idempotency.filter fun row => !expired row.executionId
    pins := tables.pins.filter fun row => !expired row.executionId
    checkpoints := tables.checkpoints.filter fun entry => !expired entry.1
    events := tables.events.filter fun event => !(event.timestamp < eventBefore) }

end Tables

/-! ### Calls -/

/-- A write of the runtime to the checkpoints of an execution. -/
inductive CheckpointWrite
  | begin (node : String) (status : CheckpointStatus)
  | complete (node : String) (result : Option Value)
  | delay (node : String) (milliseconds : Nat) (now : Int)

def CheckpointWrite.apply : CheckpointWrite → CheckpointTable → CheckpointTable
  | begin node status, table => table.beginCheckpoint node status
  | complete node result, table => table.completeCheckpoint node result
  | delay node milliseconds now, table =>
    match table.durableDelayRemaining node milliseconds now with
    | .ok (_, table) => table
    | .error _ => table

/-- A call that reaches the store, from the API, the scheduler, a worker or the start of the Core.
The catalog tables are written by operations that do not touch executions. -/
inductive StoreCall
  | create (admission : Tables.Admission)
  | claim (id : String) (maxRuns : Option Nat) (now : String)
  | requestCancel (id : String)
  | requestCancelOutcome (id now : String)
  | cancelQueued (id now : String)
  | finish (id : String) (status : FinalStatus) (error : Option String) (now : String)
  | recover (now : String)
  | checkpoint (execution : String) (write : CheckpointWrite)
  | catalog (workflows : List WorkflowRow) (plugins : List PluginRow)
      (removalWorkflows : List (String × String))
  | setPinned (id : String) (pinned : Bool)
  | applyRetention (executionBefore eventBefore : String)

/-- The tables a transaction leaves: a failed one is rolled back. -/
def Tables.commit {α : Type} (tables : Tables) : Except String (α × Tables) → Tables
  | .ok result => result.2
  | .error _ => tables

/-- The tables after a call. -/
def StoreCall.apply (tables : Tables) : StoreCall → Tables
  | create admission => tables.commit (tables.createExecutionWithPlanGuarded admission)
  | claim id maxRuns now => (tables.claimExecutionSlot id maxRuns now).2
  | requestCancel id => (tables.requestExecutionCancel id).2
  | requestCancelOutcome id now => (tables.requestExecutionCancelOutcome id now).2
  | cancelQueued id now => (tables.cancelQueuedExecution id now).2
  | finish id status error now =>
    tables.commit ((tables.finishExecution id status error now).map fun tables => ((), tables))
  | recover now => (tables.recoverIncompleteExecutions now).2
  | checkpoint execution write =>
    if (tables.execution execution).isSome then
      { tables with
        checkpoints := tables.checkpoints.insert execution
          (write.apply (tables.checkpointsOf execution)) }
    else tables
  | catalog workflows plugins removalWorkflows =>
    { tables with workflows, plugins, removalWorkflows }
  | setPinned id pinned => (tables.setExecutionPinned id pinned).2
  | applyRetention executionBefore eventBefore =>
    tables.applyRetention executionBefore eventBefore

/-- The tables after a sequence of calls on a fresh store. The calls of concurrent parties reach
the store in some order; a call that fails has no effect, so this covers faults too. -/
def runCalls (calls : List StoreCall) : Tables := calls.foldl StoreCall.apply {}

@[simp]
theorem runCalls_nil : runCalls [] = {} := rfl

@[simp]
theorem runCalls_append (calls : List StoreCall) (call : StoreCall) :
    runCalls (calls ++ [call]) = call.apply (runCalls calls) := by
  simp [runCalls]

end KakuneCore
