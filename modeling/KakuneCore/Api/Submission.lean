import KakuneCore.Lifecycle.Basic
import KakuneCore.Process.Credit
import KakuneCore.Store.StatusMachine

/-!
# Execution requests

The three places that admit an execution and start its worker: the executions endpoint, the
management endpoint and the scheduler. Each is a process that looks up a request key, prepares a
plan, runs the admission transaction and spawns a worker; any number of them are interleaved, with
any other store calls in between.

Compilation, the plugin registry and the permit of the lifecycle are answers; the hash of a request
is a parameter.
-/

namespace KakuneCore

open Proc

/-! ### Operations -/

/-- What preparation draws up for admission: the compiled plan with its values, the revision it was
compiled from, the plugins it needs, a fresh id and the time. -/
structure PreparedExecution where
  executionId : String
  workflowName : String
  workflowRevision : String
  plan : ExecutionPlan
  plugins : List Tables.PluginRequirement
  createdAt : String

inductive ApiOp
  /-- `lifecycle.admission().admit(Preparation)`. -/
  | admitPermit
  | findIdempotentExecution (key hash : String)
  /-- The source lookup and everything before the admission transaction. -/
  | prepare (workflowId : String) (inputs : Value)
  | createExecution (admission : Tables.Admission)
  | executionWorkflowRevision (id : String)
  /-- `tokio::task::spawn_blocking` with the worker of an execution. -/
  | spawnWorker (execution : ExecutionRecord)

/-- The answers. -/
abbrev ApiResp : ApiOp → Type
  | .admitPermit => Bool
  | .findIdempotentExecution _ _ => Except String (Option ExecutionRecord)
  | .prepare _ _ => Except String PreparedExecution
  | .createExecution _ => Except String (ExecutionRecord × Bool)
  | .executionWorkflowRevision _ => Except String (Option String)
  | .spawnWorker _ => Unit

abbrev ApiEvent : Type := Event ApiOp ApiResp

abbrev ApiTrace : Type := Trace ApiOp ApiResp

/-- A handler: it answers with an execution and whether it created it, or with an error. -/
abbrev ApiM : Type → Type 1 := Fallible ApiOp ApiResp String

/-- A call that may fail; the error is told to the client in the words of `failure`. -/
def apiCall {α : Type} (o : ApiOp) (failure : String → String)
    (h : ApiResp o = Except String α := by rfl) : ApiM α :=
  ExceptT.mk (call o >>= fun answer => pure ((cast h answer).mapError failure))

/-- Go on only under a condition. -/
def apiEnsure (condition : Bool) (failure : String) : ApiM Unit :=
  if condition then pure () else throw failure

/-! ### Handlers -/

/-- A request key has 1 to 128 visible ASCII characters. -/
def isValidRequestKey (key : String) : Bool :=
  key ≠ "" && key.utf8ByteSize ≤ 128 && key.toList.all fun c => 33 ≤ c.toNat && c.toNat ≤ 126

/-- `lifecycle.admission().admit(Preparation)`. -/
def admitPermit (failure : String) : ApiM TrackedExecutionState := do
  let admitted ← ExceptT.lift (call ApiOp.admitPermit)
  apiEnsure admitted failure
  pure .preparation

/-- The spawned closure, up to the call that executes the plan. -/
def startWorker (permit : TrackedExecutionState) (record : ExecutionRecord) : ApiM Unit :=
  if permit.mayMoveTo .active then ExceptT.lift (call (ApiOp.spawnWorker record)) else pure ()

/-- The end of every handler: a created execution gets its worker. -/
def spawnCreated (permit : TrackedExecutionState) (record : ExecutionRecord) (failure : String) :
    ApiM (ExecutionRecord × Bool) := do
  apiEnsure (permit.mayMoveTo .queued) failure
  startWorker .queued record
  pure (record, true)

/-- The admission a prepared execution asks for. -/
def PreparedExecution.admission (prepared : PreparedExecution)
    (identity : Option (String × String)) (requireCurrentRevision requireEnabled : Bool) :
    Tables.Admission where
  executionId := prepared.executionId
  workflowName := prepared.workflowName
  workflowRevision := prepared.workflowRevision
  plan := prepared.plan
  identity
  requireCurrentRevision
  requireEnabled
  plugins := prepared.plugins
  createdAt := prepared.createdAt

/-- A request to run a workflow. -/
structure SubmissionRequest where
  workflowId : String
  inputs : Value := .object []
  requestKey : Option String := none

/-- The lookup both endpoints make before they prepare anything. -/
def findIdempotent (key : Option String) (hash : String) (failure : String → String) :
    ApiM (Option ExecutionRecord) :=
  match key with
  | none => pure none
  | some key => apiCall (α := Option ExecutionRecord) (.findIdempotentExecution key hash) failure

/-- The request key with the hash of the request. -/
def SubmissionRequest.identity (request : SubmissionRequest) (hash : String) :
    Option (String × String) :=
  request.requestKey.map fun key => (key, hash)

/-- The error text of `admit_workflow_execution`: what a client may see of a failed admission. -/
def admissionFailure (error : String) : String :=
  let mentions : String → Bool := fun word => 1 < (error.splitOn word).length
  if ["revision conflict", "was not found", "validation", "limit", "pending removal"].any mentions
  then error else "workflow execution could not be admitted"

section Handlers

variable (artifactId : Value → String)

/-- `create_execution`, `POST /api/v1/executions`. The plan is admitted at the revision it was
compiled from, without pinning its plugins. -/
def createExecution (request : SubmissionRequest) : ApiM (ExecutionRecord × Bool) := do
  let permit ← admitPermit "Core is stopping and no longer accepts executions"
  apiEnsure (request.requestKey.all isValidRequestKey)
    "Idempotency-Key must contain 1 to 128 visible ASCII characters"
  let hash := artifactId (.object [("inputs", request.inputs),
    ("workflowId", .string request.workflowId)])
  match ← findIdempotent request.requestKey hash id with
  | some record => pure (record, false)
  | none =>
    let prepared ← apiCall (α := PreparedExecution)
      (.prepare request.workflowId request.inputs) id
    let admission := { prepared with plugins := [] }.admission (request.identity hash) false false
    let (record, created) ← apiCall (α := ExecutionRecord × Bool) (.createExecution admission) id
    if created then spawnCreated permit record "invalid execution admission state transition"
    else pure (record, false)

/-- `execution_workflow_revision` of an execution that must have one. -/
def admittedRevision (record : ExecutionRecord) (failure : String → String) : ApiM String := do
  match ← apiCall (α := Option String) (.executionWorkflowRevision record.id) failure with
  | some revision => pure revision
  | none => throw "admitted workflow revision is unavailable"

/-- `management_submit_workflow` with `admit_workflow_execution`. The admitted revision is read back
between the admission and the start of the worker. -/
def managementSubmitWorkflow (request : SubmissionRequest) :
    ApiM (ExecutionRecord × Bool) := do
  apiEnsure request.inputs.asObject.isSome "workflow execution input must be an object"
  apiEnsure (request.requestKey.all isValidRequestKey)
    "requestKey must contain 1 to 128 visible ASCII characters"
  let hash := artifactId (.object [("input", request.inputs),
    ("workflowId", .string request.workflowId)])
  match ← findIdempotent request.requestKey hash fun _ =>
      "requestKey was already used for different workflow content" with
  | some record =>
    let _ ← admittedRevision record fun _ => "admitted workflow revision is unavailable"
    pure (record, false)
  | none =>
    let permit ← admitPermit "Core is stopping and no longer accepts workflow executions"
    let prepared ← apiCall (α := PreparedExecution)
      (.prepare request.workflowId request.inputs) id
    let admission := prepared.admission (request.identity hash) true false
    let (record, created) ← apiCall (α := ExecutionRecord × Bool) (.createExecution admission)
      admissionFailure
    let _ ← admittedRevision record fun _ => "cannot inspect admitted workflow revision"
    if created then spawnCreated permit record "Core could not track admitted workflow execution"
    else pure (record, false)

/-- `execute` of the scheduler: an automatic run, without a request key. -/
def scheduledExecution (request : SubmissionRequest) : ApiM (ExecutionRecord × Bool) := do
  let permit ← admitPermit "execution admission is closed"
  let prepared ← apiCall (α := PreparedExecution) (.prepare request.workflowId request.inputs) id
  let (record, created) ← apiCall (α := ExecutionRecord × Bool)
    (.createExecution (prepared.admission none true true)) id
  if created then spawnCreated permit record "invalid execution admission state transition"
  else pure (record, false)

/-- Who asks for a run. -/
inductive Submitter
  | api | management | scheduler
  deriving DecidableEq, Repr

/-- The handler of a request. -/
def handleSubmission : Submitter × SubmissionRequest → ApiM (ExecutionRecord × Bool)
  | (.api, request) => createExecution artifactId request
  | (.management, request) => managementSubmitWorkflow artifactId request
  | (.scheduler, request) => scheduledExecution request

end Handlers

/-! ### The store behind the requests -/

/-- The store performs an operation of a handler: the transaction commits and its result is the
answer, or it fails and leaves the tables alone. What is not a store call may be answered in any
way. -/
inductive Performs (tables : Tables) : ApiEvent → Tables → Prop
  | permit (answer : Bool) : Performs tables ⟨.admitPermit, answer⟩ tables
  | prepare {workflowId : String} {inputs : Value} (answer : Except String PreparedExecution) :
      Performs tables ⟨.prepare workflowId inputs, answer⟩ tables
  | spawn {record : ExecutionRecord} : Performs tables ⟨.spawnWorker record, ()⟩ tables
  | find {key hash : String} :
      Performs tables ⟨.findIdempotentExecution key hash, tables.idempotentExecution key hash⟩
        tables
  | create {admission : Tables.Admission} :
      Performs tables ⟨.createExecution admission,
        (tables.createExecutionWithPlanGuarded admission).map Prod.fst⟩
        (tables.commit (tables.createExecutionWithPlanGuarded admission))
  | revision {id : String} :
      Performs tables ⟨.executionWorkflowRevision id,
        .ok ((tables.plans.find? fun plan => plan.executionId = id).map
          PlanRow.workflowRevision)⟩ tables
  | findFault {key hash : String} (text : String) :
      Performs tables ⟨.findIdempotentExecution key hash, .error text⟩ tables
  | createFault {admission : Tables.Admission} (text : String) :
      Performs tables ⟨.createExecution admission, .error text⟩ tables
  | revisionFault {id : String} (text : String) :
      Performs tables ⟨.executionWorkflowRevision id, .error text⟩ tables

/-- The store serves a trace, with other calls in between. -/
inductive Serves : Tables → ApiTrace → Tables → Prop
  | nil (tables : Tables) : Serves tables [] tables
  | other {tables tables' : Tables} {t : ApiTrace} (call : StoreCall) :
      Serves (call.apply tables) t tables' → Serves tables t tables'
  | event {tables tables₁ tables' : Tables} {e : ApiEvent} {t : ApiTrace} :
      Performs tables e tables₁ → Serves tables₁ t tables' → Serves tables (e :: t) tables'

end KakuneCore
