import KakuneCore.Scheduling.Triggers
import KakuneCore.Store.EventLog

/-!
# Workflows and their revisions

The writers of `workflows` and `workflow_revisions`. Each is one transaction; three of them publish
a source, two change the status only. A publication inserts a revision row under a fresh id and
makes the workflow name it, so **the revision of a workflow always names its source**, and an
update that expects a revision replaces exactly the source stored for it.
-/

namespace KakuneCore

/-! ### Tables -/

/-- What the store returns about a workflow. -/
structure WorkflowRecord where
  id : String
  name : String
  status : String
  revision : String
  updatedAt : String
  deriving DecidableEq, Repr

/-- A row of `workflows`. -/
structure StoredWorkflow extends WorkflowRecord where
  source : String
  deriving DecidableEq, Repr

/-- What admission reads of it. -/
def StoredWorkflow.row (workflow : StoredWorkflow) : WorkflowRow where
  id := workflow.id
  revision := workflow.revision
  status := workflow.status

/-- A row of `workflow_revisions`. -/
structure WorkflowRevisionRow where
  id : String
  workflowId : String
  source : String
  createdAt : String
  deriving DecidableEq, Repr

/-- The tables of a Core with the full workflow rows. In `base` the workflows are not used. -/
structure CoreTables where
  base : Tables := {}
  workflows : List StoredWorkflow := []
  revisions : List WorkflowRevisionRow := []
  log : EventLog := {}

/-- What an operation draws: the time, as a text and as a moment, a revision id and event ids. -/
structure WorkflowDraw where
  now : String
  moment : Instant
  revision : String
  eventId : EventId
  statusEventId : EventId

namespace CoreTables

/-- The tables as the operations on executions and plugins see them. -/
def view (core : CoreTables) : Tables :=
  { core.base with workflows := core.workflows.map StoredWorkflow.row }

def workflow (core : CoreTables) (id : String) : Option StoredWorkflow :=
  Table.lookup (fun workflow : StoredWorkflow => workflow.id) core.workflows id

/-- `CHECK(status IN ('enabled', 'disabled'))`. -/
def isWorkflowStatus (status : String) : Bool := status = "enabled" || status = "disabled"

/-- Another workflow has the name; names are unique. -/
def nameIsTaken (core : CoreTables) (id name : String) : Bool :=
  core.workflows.any fun workflow => workflow.id ≠ id && workflow.name = name

/-- `INSERT INTO workflow_revisions`: the id is the primary key. -/
def insertRevision (core : CoreTables) (row : WorkflowRevisionRow) : Except String CoreTables :=
  if core.revisions.any fun other => other.id = row.id then
    .error "UNIQUE constraint failed: workflow_revisions.id"
  else .ok { core with revisions := core.revisions ++ [row] }

/-- `append_event` for a workflow. -/
def report (core : CoreTables) (eventId : EventId) (eventType id : String) (payload : Value)
    (timestamp : String) : Except String CoreTables := do
  let log ← core.log.appendEvent
    { eventId, eventType, resourceId := id, payload, timestamp }
  pure { core with log }

/-- The event payload of a published workflow. -/
def recordPayload (record : WorkflowRecord) : Value :=
  .object [("name", .string record.name), ("revision", .string record.revision),
    ("status", .string record.status)]

/-- A published source: its row, its revision, and the event about it. -/
def publish (core : CoreTables) (row : StoredWorkflow) (draw : WorkflowDraw) (eventType : String) :
    Except String CoreTables := do
  let core ← core.insertRevision
    { id := row.revision, workflowId := row.id, source := row.source, createdAt := draw.now }
  core.report draw.eventId eventType row.id (recordPayload row.toWorkflowRecord) draw.now

section Operations

variable (library : TimeLibrary) (workspace : Workspace)

/-- `if status == "enabled" { validate_enabled_triggers(…)? }`. -/
def validateIfEnabled (workflow : WorkflowDocument) (status : String) (moment : Instant) :
    Except String Unit :=
  if status = "enabled" then validateEnabledTriggers library workspace moment workflow else .ok ()

/-- The row a publication writes. -/
def publishedRow (workflow : WorkflowDocument) (source status : String) (draw : WorkflowDraw) :
    StoredWorkflow where
  id := workflow.metadata.id
  name := workflow.metadata.name
  status
  revision := draw.revision
  updatedAt := draw.now
  source

/-- `create_workflow`. `INSERT OR IGNORE` skips a row that violates a constraint. -/
def createWorkflow (core : CoreTables) (workflow : WorkflowDocument) (source status : String)
    (draw : WorkflowDraw) : Except String (Option WorkflowRecord × CoreTables) := do
  validateIfEnabled library workspace workflow status draw.moment
  let row := publishedRow workflow source status draw
  if (core.workflow row.id).isSome || core.nameIsTaken row.id row.name ||
      !isWorkflowStatus status then
    pure (none, core)
  else
    let core ← { core with workflows := core.workflows ++
      [row] }.publish row draw "workflow.created"
    pure (some row.toWorkflowRecord, core)

/-- `INSERT … ON CONFLICT(id) DO UPDATE` on `workflows`. -/
def putWorkflow (core : CoreTables) (row : StoredWorkflow) : Except String CoreTables :=
  if !isWorkflowStatus row.status then .error "CHECK constraint failed: status"
  else if core.nameIsTaken row.id row.name then .error "UNIQUE constraint failed: workflows.name"
  else
    match core.workflow row.id with
    | none => .ok { core with workflows := core.workflows ++ [row] }
    | some _ =>
      .ok { core with
        workflows := Table.updateWhere core.workflows (fun workflow => workflow.id = row.id)
          fun _ => row }

/-- The second event of `upsert_workflow`, for a workflow whose status changes. -/
def reportStatus (core : CoreTables) (id status : String) (previousStatus : Option String)
    (draw : WorkflowDraw) : Except String CoreTables :=
  if previousStatus.any (· ≠ status) then
    core.report draw.statusEventId "workflow.status_changed" id
      (.object [("status", .string status)]) draw.now
  else .ok core

/-- `upsert_workflow`. -/
def upsertWorkflow (core : CoreTables) (workflow : WorkflowDocument) (source status : String)
    (draw : WorkflowDraw) : Except String (WorkflowRecord × CoreTables) := do
  validateIfEnabled library workspace workflow status draw.moment
  let row := publishedRow workflow source status draw
  let previousStatus := (core.workflow row.id).map fun workflow => workflow.status
  let core ← core.putWorkflow row
  let core ← core.publish row draw
    (if previousStatus.isSome then "workflow.updated" else "workflow.created")
  let core ← core.reportStatus row.id status previousStatus draw
  pure (row.toWorkflowRecord, core)

/-- The answer to a compare-and-set. -/
inductive WorkflowUpdate
  | notFound
  | conflict (currentRevision : String)
  | updated (record : WorkflowRecord)
  deriving DecidableEq, Repr

/-- `update_workflow_if_revision`. -/
def updateWorkflowIfRevision (core : CoreTables) (workflow : WorkflowDocument)
    (source expectedRevision : String) (draw : WorkflowDraw) :
    Except String (WorkflowUpdate × CoreTables) :=
  match core.workflow workflow.metadata.id with
  | none => .ok (.notFound, core)
  | some current =>
    if current.revision ≠ expectedRevision then .ok (.conflict current.revision, core)
    else do
      validateIfEnabled library workspace workflow current.status draw.moment
      let row := publishedRow workflow source current.status draw
      if core.nameIsTaken row.id row.name then throw "UNIQUE constraint failed: workflows.name"
      else
        let core ← { core with
          workflows := Table.updateWhere core.workflows (fun workflow => workflow.id = row.id)
            fun stored => { row with status := stored.status } }.publish row draw "workflow.updated"
        pure (.updated row.toWorkflowRecord, core)

end Operations

/-- `UPDATE workflows SET status = ?1, updated_at = ?2 WHERE …`. -/
def writeStatus (core : CoreTables) (p : StoredWorkflow → Bool) (status now : String) :
    CoreTables :=
  { core with
    workflows := Table.updateWhere core.workflows p fun workflow =>
      { workflow with status, updatedAt := now } }

/-- `if status == "enabled" { ensure_workflow_not_blocked(…)? }`. -/
def ensureEnabling (core : CoreTables) (id status : String) : Except String Unit :=
  if status = "enabled" then core.view.ensureWorkflowNotBlocked id else .ok ()

/-- `set_workflow_status`. -/
def setWorkflowStatus (core : CoreTables) (id status : String) (draw : WorkflowDraw) :
    Except String (Unit × CoreTables) := do
  core.ensureEnabling id status
  if (core.workflow id).isNone then throw s!"workflow {id} was not found"
  else if !isWorkflowStatus status then throw "CHECK constraint failed: status"
  else
    let core ← (core.writeStatus (fun workflow => workflow.id = id) status draw.now).report
      draw.eventId "workflow.status_changed" id (.object [("status", .string status)]) draw.now
    pure ((), core)

/-- `set_workflow_status_if_revision`. -/
def setWorkflowStatusIfRevision (core : CoreTables) (id status expectedRevision : String)
    (draw : WorkflowDraw) : Except String (WorkflowUpdate × CoreTables) :=
  if !isWorkflowStatus status then .error "workflow status must be enabled or disabled"
  else
    match core.workflow id with
    | none => .ok (.notFound, core)
    | some current =>
      if current.revision ≠ expectedRevision then .ok (.conflict current.revision, core)
      else do
        core.ensureEnabling id status
        if current.status = status then pure (.updated current.toWorkflowRecord, core)
        else
          let core ← (core.writeStatus
            (fun workflow => workflow.id = id && workflow.revision = expectedRevision) status
            draw.now).report draw.eventId "workflow.status_changed" id
              (.object [("revision", .string current.revision),
                ("status", .string status)]) draw.now
          pure (.updated { current.toWorkflowRecord with status, updatedAt := draw.now }, core)

end CoreTables

/-! ### Calls -/

/-- Plugin calls that leave the workflows alone. -/
def PluginCall.KeepsWorkflows : PluginCall → Prop
  | workflows _ | requestRemoval _ _ => False
  | _ => True

instance : DecidablePred PluginCall.KeepsWorkflows := fun call => by
  cases call <;> unfold PluginCall.KeepsWorkflows <;> infer_instance

/-- `request_plugin_removal`, with its effect on the full workflow rows. -/
def CoreTables.requestPluginRemoval (core : CoreTables) (pluginId : String)
    (workflowIds : List String) (timestamp : String) : Except String (Nat × CoreTables) := do
  let (count, base) ← core.view.requestPluginRemoval pluginId workflowIds
  pure (count, { core.writeStatus (fun workflow => decide (workflow.id ∈ workflowIds)) "disabled"
    timestamp with base })

/-- A call that reaches the tables. -/
inductive CoreCall
  | createWorkflow (workflow : WorkflowDocument) (source status : String) (draw : WorkflowDraw)
  | upsertWorkflow (workflow : WorkflowDocument) (source status : String) (draw : WorkflowDraw)
  | updateWorkflowIfRevision (workflow : WorkflowDocument) (source expectedRevision : String)
      (draw : WorkflowDraw)
  | setWorkflowStatus (id status : String) (draw : WorkflowDraw)
  | setWorkflowStatusIfRevision (id status expectedRevision : String) (draw : WorkflowDraw)
  | requestPluginRemoval (pluginId : String) (workflowIds : List String) (timestamp : String)
  | plugin (call : PluginCall) (h : call.KeepsWorkflows)

/-- The tables after a call: a transaction that fails is rolled back. -/
def CoreCall.apply (library : TimeLibrary) (workspace : Workspace) (core : CoreTables) :
    CoreCall → CoreTables
  | createWorkflow workflow source status draw =>
    Runs.settle core (core.createWorkflow library workspace workflow source status draw)
  | upsertWorkflow workflow source status draw =>
    Runs.settle core (core.upsertWorkflow library workspace workflow source status draw)
  | updateWorkflowIfRevision workflow source expectedRevision draw =>
    Runs.settle core
      (core.updateWorkflowIfRevision library workspace workflow source expectedRevision draw)
  | setWorkflowStatus id status draw => Runs.settle core (core.setWorkflowStatus id status draw)
  | setWorkflowStatusIfRevision id status expectedRevision draw =>
    Runs.settle core (core.setWorkflowStatusIfRevision id status expectedRevision draw)
  | requestPluginRemoval pluginId workflowIds timestamp =>
    Runs.settle core (core.requestPluginRemoval pluginId workflowIds timestamp)
  | plugin call _ => { core with base := call.apply core.view }

/-- The tables after a sequence of calls on an empty store. -/
abbrev coreTables (library : TimeLibrary) (workspace : Workspace) (calls : List CoreCall) :
    CoreTables :=
  Runs.run (CoreCall.apply library workspace) {} calls

/-! ### What a call does -/

/-- The workflow ids have no repeats. -/
def CoreTables.UniqueWorkflows (core : CoreTables) : Prop :=
  (core.workflows.map fun workflow => workflow.id).Nodup

/-- The revision row of a published workflow. -/
def StoredWorkflow.revisionRow (row : StoredWorkflow) (now : String) : WorkflowRevisionRow where
  id := row.revision
  workflowId := row.id
  source := row.source
  createdAt := now

/-- A row was published: it is the row of its workflow, and a fresh revision holds its source. -/
structure Published (core core' : CoreTables) (row : StoredWorkflow) (now : String) : Prop where
  fresh : row.revision ∉ core.revisions.map fun revision => revision.id
  revisions : core'.revisions = core.revisions ++ [row.revisionRow now]
  base : core'.base = core.base
  ids : core'.UniqueWorkflows
  mem : row ∈ core'.workflows
  rows : ∀ workflow ∈ core'.workflows, workflow = row ∨
    (workflow ∈ core.workflows ∧ workflow.id ≠ row.id)

/-- Some workflows got a status; sources and revisions are as they were. -/
structure StatusWritten (core core' : CoreTables) (p : StoredWorkflow → Bool)
    (status now : String) : Prop where
  revisions : core'.revisions = core.revisions
  workflows : core'.workflows = Table.updateWhere core.workflows p fun workflow =>
    { workflow with status, updatedAt := now }

/-- The arguments of the calls that publish a source, with the status the workflow gets. -/
inductive CoreCall.Publishes (core : CoreTables) :
    CoreCall → WorkflowDocument → String → String → WorkflowDraw → Prop
  | create {workflow : WorkflowDocument} {source status : String} {draw : WorkflowDraw} :
      core.workflow workflow.metadata.id = none →
      Publishes core (.createWorkflow workflow source status draw) workflow source status draw
  | upsert {workflow : WorkflowDocument} {source status : String} {draw : WorkflowDraw} :
      Publishes core (.upsertWorkflow workflow source status draw) workflow source status draw
  | update {workflow : WorkflowDocument} {source : String} {draw : WorkflowDraw}
      {current : StoredWorkflow} :
      core.workflow workflow.metadata.id = some current →
      Publishes core (.updateWorkflowIfRevision workflow source current.revision draw) workflow
        source current.status draw

/-- The arguments of the calls that set the status of one workflow. -/
inductive CoreCall.SetsStatus (core : CoreTables) : CoreCall → String → String → Prop
  | always {id status : String} {draw : WorkflowDraw} :
      SetsStatus core (.setWorkflowStatus id status draw) id status
  | ifRevision {id status : String} {draw : WorkflowDraw} {current : StoredWorkflow} :
      core.workflow id = some current →
      SetsStatus core (.setWorkflowStatusIfRevision id status current.revision draw) id status

section Changes

variable (library : TimeLibrary) (workspace : Workspace)

/-- What a call did. -/
inductive CoreChange (call : CoreCall) (core core' : CoreTables) : Prop
  | same : core' = core → CoreChange call core core'
  | published {workflow : WorkflowDocument} {source status : String} {draw : WorkflowDraw} :
      call.Publishes core workflow source status draw →
      CoreTables.validateIfEnabled library workspace workflow status draw.moment = .ok () →
      Published core core' (CoreTables.publishedRow workflow source status draw) draw.now →
      CoreChange call core core'
  | status {id status now : String} {p : StoredWorkflow → Bool} :
      call.SetsStatus core id status → core.ensureEnabling id status = .ok () →
      (∀ workflow, p workflow = true → workflow.id = id) →
      StatusWritten core core' p status now → core'.base = core.base →
      CoreChange call core core'
  | removal {pluginId timestamp : String} {workflowIds : List String} {count : Nat} :
      call = .requestPluginRemoval pluginId workflowIds timestamp →
      core.view.requestPluginRemoval pluginId workflowIds = .ok (count, core'.base) →
      StatusWritten core core' (fun workflow => decide (workflow.id ∈ workflowIds)) "disabled"
        timestamp →
      CoreChange call core core'
  | plugin {pluginCall : PluginCall} {h : pluginCall.KeepsWorkflows} :
      call = .plugin pluginCall h → core' = { core with base := pluginCall.apply core.view } →
      CoreChange call core core'

variable {library workspace} {core core' : CoreTables}

theorem CoreTables.insertRevision_eq_ok {row : WorkflowRevisionRow}
    (h : core.insertRevision row = .ok core') :
    (row.id ∉ core.revisions.map fun revision => revision.id) ∧
      core' = { core with revisions := core.revisions ++ [row] } := by
  unfold insertRevision at h
  split at h
  · cases h
  · next hfresh =>
    cases h
    refine ⟨fun hmem => hfresh ?_, rfl⟩
    obtain ⟨other, hother, heq⟩ := List.mem_map.mp hmem
    exact List.any_eq_true.mpr ⟨other, hother, decide_eq_true heq⟩

theorem CoreTables.report_eq_ok {eventId : EventId} {eventType id timestamp : String}
    {payload : Value} (h : core.report eventId eventType id payload timestamp = .ok core') :
    ∃ log, core' = { core with log } := by
  obtain ⟨log, -, h⟩ := except_bind_eq_ok h
  cases h
  exact ⟨log, rfl⟩

theorem CoreTables.reportStatus_eq_ok {id status : String} {previousStatus : Option String}
    {draw : WorkflowDraw} (h : core.reportStatus id status previousStatus draw = .ok core') :
    ∃ log, core' = { core with log } := by
  unfold reportStatus at h
  split at h
  · exact report_eq_ok h
  · cases h
    exact ⟨core.log, rfl⟩

theorem CoreTables.publish_eq_ok {row : StoredWorkflow} {draw : WorkflowDraw} {eventType : String}
    (h : core.publish row draw eventType = .ok core') :
    (row.revision ∉ core.revisions.map fun revision => revision.id) ∧
      ∃ log, core' =
        { core with revisions := core.revisions ++ [row.revisionRow draw.now], log } := by
  obtain ⟨inserted, hinsert, h⟩ := except_bind_eq_ok h
  obtain ⟨hfresh, rfl⟩ := insertRevision_eq_ok hinsert
  obtain ⟨log, rfl⟩ := report_eq_ok h
  exact ⟨hfresh, log, rfl⟩

theorem CoreTables.not_mem_of_workflow_eq_none {id : String} (h : core.workflow id = none) :
    id ∉ core.workflows.map fun workflow => workflow.id := by
  intro hmem
  obtain ⟨workflow, hworkflow, hid⟩ := List.mem_map.mp hmem
  exact Table.lookup_eq_none.mp h workflow hworkflow hid

/-- Appending the row of a new workflow and publishing it. -/
theorem Published.of_append {row : StoredWorkflow} {draw : WorkflowDraw} {log : EventLog}
    (hids : core.UniqueWorkflows) (hnew : core.workflow row.id = none)
    (hfresh : row.revision ∉ core.revisions.map fun revision => revision.id) :
    Published core { core with
      workflows := core.workflows ++ [row]
      revisions := core.revisions ++ [row.revisionRow draw.now]
      log } row draw.now := by
  have hnot := CoreTables.not_mem_of_workflow_eq_none hnew
  refine ⟨hfresh, rfl, rfl, ?_, List.mem_append_right _ (List.mem_singleton_self _), ?_⟩
  · rw [CoreTables.UniqueWorkflows, List.map_append, List.nodup_append]
    refine ⟨hids, List.nodup_singleton _, fun id hid id' hid' heq => hnot ?_⟩
    have hrow : id = row.id := heq.trans (List.mem_singleton.mp hid')
    rw [← hrow]
    exact hid
  · intro workflow hworkflow
    rcases List.mem_append.mp hworkflow with hworkflow | hworkflow
    · refine .inr ⟨hworkflow, fun heq => hnot ?_⟩
      rw [← heq]
      exact List.mem_map_of_mem hworkflow
    · exact .inl (List.mem_singleton.mp hworkflow)

/-- Writing the row of a stored workflow and publishing it. -/
theorem Published.of_update {row : StoredWorkflow} {draw : WorkflowDraw} {log : EventLog}
    {f : StoredWorkflow → StoredWorkflow} {current : StoredWorkflow} (hids : core.UniqueWorkflows)
    (hcurrent : core.workflow row.id = some current) (hf : f current = row)
    (hid : ∀ workflow, workflow.id = row.id → (f workflow).id = row.id)
    (hfresh : row.revision ∉ core.revisions.map fun revision => revision.id) :
    Published core { core with
      workflows := Table.updateWhere core.workflows (fun workflow => workflow.id = row.id) f
      revisions := core.revisions ++ [row.revisionRow draw.now]
      log } row draw.now := by
  obtain ⟨hmem, hcurrentId⟩ := Table.mem_of_lookup hcurrent
  refine ⟨hfresh, rfl, rfl, ?_, ?_, fun workflow hworkflow => ?_⟩
  · have hkeys : (Table.updateWhere core.workflows (fun workflow => workflow.id = row.id) f).map
        (fun workflow => workflow.id) = core.workflows.map fun workflow => workflow.id := by
      rw [Table.updateWhere, List.map_map]
      refine List.map_congr_left fun workflow _ => ?_
      by_cases heq : workflow.id = row.id
      · simp [heq, hid workflow heq]
      · simp [heq]
    rw [CoreTables.UniqueWorkflows, hkeys]
    exact hids
  · exact Table.mem_updateWhere.mpr (.inr ⟨current, hmem, decide_eq_true hcurrentId, hf⟩)
  · obtain ⟨hold, hne⟩ | ⟨old, hold, heq, rfl⟩ := Table.mem_updateWhere.mp hworkflow
    · exact .inr ⟨hold, of_decide_eq_false hne⟩
    · have hlookup := Table.lookup_of_mem hids hold
      rw [of_decide_eq_true heq] at hlookup
      rw [CoreTables.workflow, hlookup] at hcurrent
      obtain rfl := Option.some_injective _ hcurrent
      exact .inl hf

theorem change_createWorkflow (hids : core.UniqueWorkflows) (workflow : WorkflowDocument)
    (source status : String) (draw : WorkflowDraw) :
    CoreChange library workspace (.createWorkflow workflow source status draw) core
      (CoreCall.apply library workspace core (.createWorkflow workflow source status draw)) := by
  rw [CoreCall.apply]
  cases h : core.createWorkflow library workspace workflow source status draw with
  | error e => exact .same rfl
  | ok result =>
    obtain ⟨⟨⟩, hvalid, h⟩ := except_bind_eq_ok h
    dsimp only at h
    split at h
    · cases h
      exact .same rfl
    · next haccepted =>
      obtain ⟨published, hpublish, h⟩ := except_bind_eq_ok h
      cases h
      obtain ⟨hfresh, log, rfl⟩ := CoreTables.publish_eq_ok hpublish
      simp only [Bool.or_eq_true, not_or, Bool.not_eq_true, Option.isSome_eq_false_iff,
        Option.isNone_iff_eq_none] at haccepted
      obtain ⟨⟨hnew, -⟩, -⟩ := haccepted
      exact .published (.create hnew) hvalid (.of_append hids hnew hfresh)

/-- What `INSERT … ON CONFLICT(id) DO UPDATE` leaves before the revision is inserted. -/
theorem CoreTables.putWorkflow_eq_ok {row : StoredWorkflow} (h : core.putWorkflow row = .ok core') :
    (core.workflow row.id = none ∧ core' = { core with workflows := core.workflows ++ [row] }) ∨
      ∃ current, core.workflow row.id = some current ∧ core' = { core with
        workflows := Table.updateWhere core.workflows (fun workflow => workflow.id = row.id)
          fun _ => row } := by
  unfold putWorkflow at h
  split at h
  · cases h
  · split at h
    · cases h
    · split at h
      · next hnone =>
        cases h
        exact .inl ⟨hnone, rfl⟩
      · next current hcurrent =>
        cases h
        exact .inr ⟨current, hcurrent, rfl⟩

theorem change_upsertWorkflow (hids : core.UniqueWorkflows) (workflow : WorkflowDocument)
    (source status : String) (draw : WorkflowDraw) :
    CoreChange library workspace (.upsertWorkflow workflow source status draw) core
      (CoreCall.apply library workspace core (.upsertWorkflow workflow source status draw)) := by
  rw [CoreCall.apply]
  cases h : core.upsertWorkflow library workspace workflow source status draw with
  | error e => exact .same rfl
  | ok result =>
    obtain ⟨⟨⟩, hvalid, h⟩ := except_bind_eq_ok h
    obtain ⟨stored, hput, h⟩ := except_bind_eq_ok h
    obtain ⟨published, hpublish, h⟩ := except_bind_eq_ok h
    obtain ⟨reported, hreport, h⟩ := except_bind_eq_ok h
    cases h
    obtain ⟨hfresh, log, rfl⟩ := CoreTables.publish_eq_ok hpublish
    obtain ⟨log', rfl⟩ := CoreTables.reportStatus_eq_ok hreport
    refine .published .upsert hvalid ?_
    obtain ⟨hnone, rfl⟩ | ⟨current, hcurrent, rfl⟩ := CoreTables.putWorkflow_eq_ok hput
    · exact .of_append hids hnone hfresh
    · exact .of_update hids hcurrent rfl (fun _ _ => rfl) hfresh

theorem change_updateWorkflowIfRevision (hids : core.UniqueWorkflows) (workflow : WorkflowDocument)
    (source expectedRevision : String) (draw : WorkflowDraw) :
    CoreChange library workspace (.updateWorkflowIfRevision workflow source expectedRevision draw)
      core (CoreCall.apply library workspace core
        (.updateWorkflowIfRevision workflow source expectedRevision draw)) := by
  rw [CoreCall.apply]
  cases h : core.updateWorkflowIfRevision library workspace workflow source expectedRevision
      draw with
  | error e => exact .same rfl
  | ok result =>
    unfold CoreTables.updateWorkflowIfRevision at h
    split at h
    · cases h
      exact .same rfl
    · next current hcurrent =>
      split at h
      · cases h
        exact .same rfl
      · next hrevision =>
        rw [not_not] at hrevision
        subst hrevision
        obtain ⟨⟨⟩, hvalid, h⟩ := except_bind_eq_ok h
        dsimp only at h
        split at h
        · cases h
        · obtain ⟨published, hpublish, h⟩ := except_bind_eq_ok h
          cases h
          obtain ⟨hfresh, log, rfl⟩ := CoreTables.publish_eq_ok hpublish
          exact .published (.update hcurrent) hvalid
            (.of_update hids hcurrent rfl (fun _ _ => rfl) hfresh)

theorem change_setWorkflowStatus (id status : String) (draw : WorkflowDraw) :
    CoreChange library workspace (.setWorkflowStatus id status draw) core
      (CoreCall.apply library workspace core (.setWorkflowStatus id status draw)) := by
  rw [CoreCall.apply]
  cases h : core.setWorkflowStatus id status draw with
  | error e => exact .same rfl
  | ok result =>
    obtain ⟨⟨⟩, hallowed, h⟩ := except_bind_eq_ok h
    split at h
    · cases h
    · split at h
      · cases h
      · obtain ⟨reported, hreport, h⟩ := except_bind_eq_ok h
        cases h
        obtain ⟨log, rfl⟩ := CoreTables.report_eq_ok hreport
        exact .status .always hallowed (fun _ hp => of_decide_eq_true hp) ⟨rfl, rfl⟩ rfl

theorem change_setWorkflowStatusIfRevision (id status expectedRevision : String)
    (draw : WorkflowDraw) :
    CoreChange library workspace (.setWorkflowStatusIfRevision id status expectedRevision draw) core
      (CoreCall.apply library workspace core
        (.setWorkflowStatusIfRevision id status expectedRevision draw)) := by
  rw [CoreCall.apply]
  cases h : core.setWorkflowStatusIfRevision id status expectedRevision draw with
  | error e => exact .same rfl
  | ok result =>
    unfold CoreTables.setWorkflowStatusIfRevision at h
    split at h
    · cases h
    · split at h
      · cases h
        exact .same rfl
      · next current hcurrent =>
        split at h
        · cases h
          exact .same rfl
        · next hrevision =>
          rw [not_not] at hrevision
          subst hrevision
          obtain ⟨⟨⟩, hallowed, h⟩ := except_bind_eq_ok h
          split at h
          · cases h
            exact .same rfl
          · obtain ⟨reported, hreport, h⟩ := except_bind_eq_ok h
            cases h
            obtain ⟨log, rfl⟩ := CoreTables.report_eq_ok hreport
            refine .status (.ifRevision hcurrent) hallowed (fun workflow hp => ?_) ⟨rfl, rfl⟩ rfl
            rw [Bool.and_eq_true] at hp
            exact of_decide_eq_true hp.1

theorem change_requestPluginRemoval (pluginId : String) (workflowIds : List String)
    (timestamp : String) :
    CoreChange library workspace (.requestPluginRemoval pluginId workflowIds timestamp) core
      (CoreCall.apply library workspace core
        (.requestPluginRemoval pluginId workflowIds timestamp)) := by
  rw [CoreCall.apply]
  cases h : core.requestPluginRemoval pluginId workflowIds timestamp with
  | error e => exact .same rfl
  | ok result =>
    obtain ⟨⟨count, base⟩, hremoval, h⟩ := except_bind_eq_ok h
    cases h
    exact .removal rfl hremoval ⟨rfl, rfl⟩

/-- **What a call can do to the workflows.** -/
theorem CoreCall.apply_cases (hids : core.UniqueWorkflows) (call : CoreCall) :
    CoreChange library workspace call core (call.apply library workspace core) := by
  cases call with
  | createWorkflow workflow source status draw =>
    exact change_createWorkflow hids workflow source status draw
  | upsertWorkflow workflow source status draw =>
    exact change_upsertWorkflow hids workflow source status draw
  | updateWorkflowIfRevision workflow source expectedRevision draw =>
    exact change_updateWorkflowIfRevision hids workflow source expectedRevision draw
  | setWorkflowStatus id status draw => exact change_setWorkflowStatus id status draw
  | setWorkflowStatusIfRevision id status expectedRevision draw =>
    exact change_setWorkflowStatusIfRevision id status expectedRevision draw
  | requestPluginRemoval pluginId workflowIds timestamp =>
    exact change_requestPluginRemoval pluginId workflowIds timestamp
  | plugin call h => exact .plugin rfl rfl

end Changes

/-! ### Revisions name their sources -/

/-- Every workflow names a revision row that holds its source, and ids are not used twice. -/
structure CoreTables.Sourced (core : CoreTables) : Prop where
  ids : core.UniqueWorkflows
  revisionIds : (core.revisions.map fun revision => revision.id).Nodup
  named : ∀ workflow ∈ core.workflows, ∃ revision ∈ core.revisions,
    revision.id = workflow.revision ∧ revision.workflowId = workflow.id ∧
      revision.source = workflow.source

/-- The source stored under a revision id. -/
def CoreTables.sourceOf (core : CoreTables) (revision : String) : Option String :=
  (Table.lookup (fun row : WorkflowRevisionRow => row.id) core.revisions revision).map
    fun row => row.source

section Revisions

variable {library : TimeLibrary} {workspace : Workspace} {core core' : CoreTables}

theorem CoreTables.sourced_empty : CoreTables.Sourced {} :=
  ⟨List.nodup_nil, List.nodup_nil, nofun⟩

theorem Published.sourced {row : StoredWorkflow} {now : String} (h : Published core core' row now)
    (hcore : core.Sourced) : core'.Sourced := by
  refine ⟨h.ids, ?_, fun workflow hworkflow => ?_⟩
  · rw [h.revisions, List.map_append, List.nodup_append]
    refine ⟨hcore.revisionIds, List.nodup_singleton _, fun id hid id' hid' heq => h.fresh ?_⟩
    have hrow : id = row.revision := heq.trans (List.mem_singleton.mp hid')
    rw [← hrow]
    exact hid
  · rw [h.revisions]
    obtain rfl | ⟨hold, -⟩ := h.rows workflow hworkflow
    · exact ⟨_, List.mem_append_right _ (List.mem_singleton_self _), rfl, rfl, rfl⟩
    · obtain ⟨revision, hrevision, hspec⟩ := hcore.named workflow hold
      exact ⟨revision, List.mem_append_left _ hrevision, hspec⟩

theorem StatusWritten.sourced {p : StoredWorkflow → Bool} {status now : String}
    (h : StatusWritten core core' p status now) (hcore : core.Sourced) : core'.Sourced := by
  have hkeys : (core'.workflows.map fun workflow => workflow.id) =
      core.workflows.map fun workflow => workflow.id := by
    rw [h.workflows]
    exact Table.map_updateWhere (fun workflow : StoredWorkflow => workflow.id) fun _ => rfl
  refine ⟨?_, ?_, fun workflow hworkflow => ?_⟩
  · rw [CoreTables.UniqueWorkflows, hkeys]
    exact hcore.ids
  · rw [h.revisions]
    exact hcore.revisionIds
  · rw [h.revisions]
    rw [h.workflows, Table.mem_updateWhere] at hworkflow
    obtain ⟨hold, -⟩ | ⟨old, hold, -, rfl⟩ := hworkflow
    · exact hcore.named workflow hold
    · exact hcore.named old hold

theorem CoreCall.sourced_apply (hcore : core.Sourced) (call : CoreCall) :
    (call.apply library workspace core).Sourced := by
  have hchange : CoreChange library workspace call core (call.apply library workspace core) :=
    call.apply_cases hcore.ids
  cases hchange with
  | same heq =>
    rw [heq]
    exact hcore
  | published _ _ hpublished => exact hpublished.sourced hcore
  | status _ _ _ hstatus _ => exact hstatus.sourced hcore
  | removal _ _ hstatus => exact hstatus.sourced hcore
  | plugin _ heq =>
    rw [heq]
    exact ⟨hcore.ids, hcore.revisionIds, hcore.named⟩

theorem sourced_coreTables (calls : List CoreCall) :
    (coreTables library workspace calls).Sourced :=
  Runs.invariant calls CoreTables.sourced_empty fun _ call h => CoreCall.sourced_apply h call

/-- Revision rows are only added. -/
theorem CoreCall.revisions_prefix (hcore : core.Sourced) (call : CoreCall) :
    core.revisions <+: (call.apply library workspace core).revisions := by
  have hchange : CoreChange library workspace call core (call.apply library workspace core) :=
    call.apply_cases hcore.ids
  cases hchange with
  | same heq =>
    rw [heq]
  | published _ _ hpublished =>
    rw [hpublished.revisions]
    exact List.prefix_append _ _
  | status _ _ _ hstatus _ => rw [hstatus.revisions]
  | removal _ _ hstatus => rw [hstatus.revisions]
  | plugin _ heq => rw [heq]

/-- The row an update expects holds the source stored under the expected revision. -/
theorem CoreTables.Sourced.sourceOf_revision (hcore : core.Sourced) {id : String}
    {workflow : StoredWorkflow} (h : core.workflow id = some workflow) :
    core.sourceOf workflow.revision = some workflow.source := by
  obtain ⟨hmem, -⟩ := Table.mem_of_lookup h
  obtain ⟨revision, hrevision, hid, -, hsource⟩ := hcore.named workflow hmem
  have hlookup := Table.lookup_of_mem hcore.revisionIds hrevision
  rw [hid] at hlookup
  rw [sourceOf, hlookup, Option.map_some, hsource]

/-- An update that succeeds found the expected revision. -/
theorem CoreTables.updateWorkflowIfRevision_updated {workflow : WorkflowDocument}
    {source expectedRevision : String} {draw : WorkflowDraw} {record : WorkflowRecord}
    (h : core.updateWorkflowIfRevision library workspace workflow source expectedRevision draw =
      .ok (.updated record, core')) :
    ∃ current, core.workflow workflow.metadata.id = some current ∧
      current.revision = expectedRevision := by
  unfold updateWorkflowIfRevision at h
  split at h
  · cases h
  · next current hcurrent =>
    split at h
    · cases h
    · next hrevision => exact ⟨current, hcurrent, not_not.mp hrevision⟩

theorem CoreTables.setWorkflowStatusIfRevision_updated {id status expectedRevision : String}
    {draw : WorkflowDraw} {record : WorkflowRecord}
    (h : core.setWorkflowStatusIfRevision id status expectedRevision draw =
      .ok (.updated record, core')) :
    ∃ current, core.workflow id = some current ∧ current.revision = expectedRevision := by
  unfold setWorkflowStatusIfRevision at h
  split at h
  · cases h
  · split at h
    · cases h
    · next current hcurrent =>
      split at h
      · cases h
      · next hrevision => exact ⟨current, hcurrent, not_not.mp hrevision⟩

/-- A creation that finds the workflow changes nothing. -/
theorem CoreTables.createWorkflow_none {workflow : WorkflowDocument} {source status : String}
    {draw : WorkflowDraw}
    (h : core.createWorkflow library workspace workflow source status draw = .ok (none, core')) :
    core' = core := by
  obtain ⟨⟨⟩, -, h⟩ := except_bind_eq_ok h
  dsimp only at h
  split at h
  · cases h
    rfl
  · obtain ⟨published, -, h⟩ := except_bind_eq_ok h
    cases h

/-- A compare-and-set that does not update changes nothing. -/
theorem CoreTables.updateWorkflowIfRevision_not_updated {workflow : WorkflowDocument}
    {source expectedRevision : String} {draw : WorkflowDraw} {answer : WorkflowUpdate}
    (h : core.updateWorkflowIfRevision library workspace workflow source expectedRevision draw =
      .ok (answer, core')) (hanswer : ∀ record, answer ≠ .updated record) : core' = core := by
  unfold updateWorkflowIfRevision at h
  split at h
  · cases h
    rfl
  · split at h
    · cases h
      rfl
    · obtain ⟨⟨⟩, -, h⟩ := except_bind_eq_ok h
      dsimp only at h
      split at h
      · cases h
      · obtain ⟨published, -, h⟩ := except_bind_eq_ok h
        cases h
        exact absurd rfl (hanswer _)

theorem CoreTables.setWorkflowStatusIfRevision_not_updated {id status expectedRevision : String}
    {draw : WorkflowDraw} {answer : WorkflowUpdate}
    (h : core.setWorkflowStatusIfRevision id status expectedRevision draw = .ok (answer, core'))
    (hanswer : ∀ record, answer ≠ .updated record) : core' = core := by
  unfold setWorkflowStatusIfRevision at h
  split at h
  · cases h
  · split at h
    · cases h
      rfl
    · split at h
      · cases h
        rfl
      · obtain ⟨⟨⟩, -, h⟩ := except_bind_eq_ok h
        split at h
        · cases h
          rfl
        · obtain ⟨reported, -, h⟩ := except_bind_eq_ok h
          cases h
          exact absurd rfl (hanswer _)

end Revisions

section Refusals

variable (library : TimeLibrary) (workspace : Workspace) (core : CoreTables)

/-- The calls that fail, find the workflow there already, do not find it, or find another
revision. -/
inductive CoreCall.Refused : CoreCall → Prop
  | create {workflow : WorkflowDocument} {source status e : String} {draw : WorkflowDraw} :
      core.createWorkflow library workspace workflow source status draw = .error e →
      Refused (.createWorkflow workflow source status draw)
  | stored {workflow : WorkflowDocument} {source status : String} {draw : WorkflowDraw}
      {core' : CoreTables} :
      core.createWorkflow library workspace workflow source status draw = .ok (none, core') →
      Refused (.createWorkflow workflow source status draw)
  | upsert {workflow : WorkflowDocument} {source status e : String} {draw : WorkflowDraw} :
      core.upsertWorkflow library workspace workflow source status draw = .error e →
      Refused (.upsertWorkflow workflow source status draw)
  | update {workflow : WorkflowDocument} {source expectedRevision e : String}
      {draw : WorkflowDraw} :
      core.updateWorkflowIfRevision library workspace workflow source expectedRevision draw =
        .error e →
      Refused (.updateWorkflowIfRevision workflow source expectedRevision draw)
  | updateAnswer {workflow : WorkflowDocument} {source expectedRevision : String}
      {draw : WorkflowDraw} {answer : CoreTables.WorkflowUpdate} {core' : CoreTables} :
      core.updateWorkflowIfRevision library workspace workflow source expectedRevision draw =
        .ok (answer, core') →
      (∀ record, answer ≠ .updated record) →
      Refused (.updateWorkflowIfRevision workflow source expectedRevision draw)
  | setStatus {id status e : String} {draw : WorkflowDraw} :
      core.setWorkflowStatus id status draw = .error e →
      Refused (.setWorkflowStatus id status draw)
  | setStatusIfRevision {id status expectedRevision e : String} {draw : WorkflowDraw} :
      core.setWorkflowStatusIfRevision id status expectedRevision draw = .error e →
      Refused (.setWorkflowStatusIfRevision id status expectedRevision draw)
  | setStatusAnswer {id status expectedRevision : String} {draw : WorkflowDraw}
      {answer : CoreTables.WorkflowUpdate} {core' : CoreTables} :
      core.setWorkflowStatusIfRevision id status expectedRevision draw = .ok (answer, core') →
      (∀ record, answer ≠ .updated record) →
      Refused (.setWorkflowStatusIfRevision id status expectedRevision draw)

variable {library workspace core}

/-- A refused call changes nothing. -/
theorem CoreCall.Refused.apply_eq {call : CoreCall} (h : Refused library workspace core call) :
    call.apply library workspace core = core := by
  cases h with
  | create h | upsert h | update h | setStatus h | setStatusIfRevision h =>
    rw [CoreCall.apply, h]
    rfl
  | stored h =>
    rw [CoreCall.apply, h]
    exact CoreTables.createWorkflow_none h
  | updateAnswer h hanswer =>
    rw [CoreCall.apply, h]
    exact CoreTables.updateWorkflowIfRevision_not_updated h hanswer
  | setStatusAnswer h hanswer =>
    rw [CoreCall.apply, h]
    exact CoreTables.setWorkflowStatusIfRevision_not_updated h hanswer

end Refusals

/-- Libraries that know no dates, zones and cron expressions, for concrete runs without them. -/
def emptyLibrary : TimeLibrary where
  ω := Unit
  τ := Unit
  χ := Unit
  parseRfc3339 := fun _ => none
  parseTimezone := fun _ => none
  utc := ()
  parseLocal := fun _ _ => none
  fromLocalDatetime := fun _ _ => .none
  toOffset := .ok
  parseCron := fun _ => .error "unexpected end of input"
  findNextOccurrence := fun _ _ _ => .error "no occurrence"

/-- A workspace without directories. -/
def emptyWorkspace : Workspace where
  canonical := .ok ["workspace"]
  canonicalRoot := fun _ => .error "No such file or directory"
  isDir := fun _ => false

/-- Fresh values named by a revision. -/
def sampleDraw (revision : String) : WorkflowDraw where
  now := "2026-01-01T00:00:00Z"
  moment := 0
  revision
  eventId := ⟨revision ++ "e", by simp⟩
  statusEventId := ⟨revision ++ "s", by simp⟩

/-- A workflow is registered and its source replaced. -/
def replacedCalls : List CoreCall :=
  [.createWorkflow (sampleDocument "a" []) "first" "disabled" (sampleDraw "r1"),
    .updateWorkflowIfRevision (sampleDocument "a" []) "second" "r1" (sampleDraw "r2")]

end KakuneCore
