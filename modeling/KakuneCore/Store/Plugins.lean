import KakuneCore.Relational.Runs
import KakuneCore.Store.StatusMachine

/-!
# Plugins and their pins

The operations on `installed_plugins`, `plugin_lifecycle`, `plugin_removal_workflows` and
`plugin_execution_pins`, each one transaction. A pin names an execution and the plugin content it
was admitted with; it is what an update or a removal of the plugin has to wait for.

Pins are released by a trigger with its own list of statuses. That list leaves out `interrupted`,
so a pin is released **unless recovery interrupts its execution**.
-/

namespace KakuneCore

/-- The pin of an execution on the content of a plugin. -/
def PluginRow.pin (plugin : PluginRow) (executionId : String) : PinRow where
  executionId
  pluginId := plugin.id
  version := plugin.version
  digest := plugin.digest
  manifestPath := plugin.manifestPath

/-- What an installation records about a plugin. -/
structure PluginInstall where
  id : String
  version : String
  digest : String
  manifestPath : String
  enabled : Bool
  deriving DecidableEq, Repr

def PluginInstall.row (install : PluginInstall) : PluginRow where
  id := install.id
  version := install.version
  digest := install.digest
  manifestPath := install.manifestPath
  enabled := install.enabled

namespace Tables

/-! ### Operations -/

def plugin (tables : Tables) (id : String) : Option PluginRow :=
  Table.lookup PluginRow.id tables.plugins id

/-- `EXISTS(SELECT 1 FROM plugin_execution_pins WHERE plugin_id = ?1)`. -/
def isPinned (tables : Tables) (pluginId : String) : Bool :=
  tables.pins.any fun pin => pin.pluginId = pluginId

/-- `plugin_execution_pin_count`. -/
def pluginExecutionPinCount (tables : Tables) (pluginId : String) : Nat :=
  tables.pins.countP fun pin => pin.pluginId = pluginId

/-- `UPDATE installed_plugins` and `UPDATE plugin_lifecycle`. -/
def updatePlugins (tables : Tables) (p : PluginRow → Bool) (f : PluginRow → PluginRow) : Tables :=
  { tables with plugins := Table.updateWhere tables.plugins p f }

/-- `DELETE FROM installed_plugins`: the rows that refer to the plugin go with it. -/
def deletePlugin (tables : Tables) (id : String) : Tables :=
  { tables with
    plugins := tables.plugins.filter fun plugin => plugin.id ≠ id
    removalWorkflows := tables.removalWorkflows.filter fun removal => removal.1 ≠ id }

/-- `upsert_plugin_install_with_source`. A new plugin is active. -/
def upsertPluginInstall (tables : Tables) (install : PluginInstall) : Except String Tables :=
  match tables.plugin install.id with
  | none => .ok { tables with plugins := tables.plugins ++ [install.row] }
  | some plugin =>
    if plugin.status = .active && !tables.isPinned install.id then
      .ok (tables.updatePlugins (fun plugin => plugin.id = install.id) fun plugin =>
        { install.row with status := plugin.status })
    else .error "plugin is in use or pending removal"

/-- One turn of the loop in `acquire_plugin_uses`. -/
def acquirePluginUse (executionId : String) (tables : Tables) (id : String) :
    Except String Tables :=
  match tables.plugins.find? fun plugin =>
      plugin.id = id && plugin.status = .active && plugin.enabled with
  | some plugin =>
    if tables.pins.any fun pin => pin.executionId = executionId && pin.pluginId = id then .ok tables
    else .ok { tables with pins := tables.pins ++ [plugin.pin executionId] }
  | none => .error s!"plugin {id} is unavailable or pending removal"

/-- `acquire_plugin_uses`. The status `recoverable` it also accepts is never written. -/
def acquirePluginUses (tables : Tables) (executionId : String) (pluginIds : List String) :
    Except String Tables :=
  if 10000 < pluginIds.length then .error "too many plugin references"
  else if (tables.execution executionId).any fun row =>
      row.status = .queued || row.status = .running || row.status = .cancelling then
    pluginIds.foldlM (acquirePluginUse executionId) tables
  else .error "execution is absent or cannot acquire plugin use"

/-- One turn of the loop in `request_plugin_removal`: the workflow is disabled and listed. -/
def disableDependent (pluginId : String) (tables : Tables) (workflowId : String) :
    Except String Tables :=
  if tables.workflows.any fun workflow => workflow.id = workflowId then
    .ok { tables with
      workflows := Table.updateWhere tables.workflows (fun workflow => workflow.id = workflowId)
        fun workflow => { workflow with status := "disabled" }
      removalWorkflows :=
        if (pluginId, workflowId) ∈ tables.removalWorkflows then tables.removalWorkflows
        else tables.removalWorkflows ++ [(pluginId, workflowId)] }
  else .error s!"workflow {workflowId} was not found"

/-- `request_plugin_removal`. -/
def requestPluginRemoval (tables : Tables) (pluginId : String) (workflowIds : List String) :
    Except String (Nat × Tables) :=
  if 10000 < workflowIds.length then .error "too many dependent workflows"
  else if (tables.plugin pluginId).isNone then .error s!"plugin {pluginId} is not installed"
  else do
    let tables := tables.updatePlugins (fun plugin => plugin.id = pluginId) fun plugin =>
      { plugin with status := .pendingRemoval, enabled := false }
    let tables ← workflowIds.foldlM (disableDependent pluginId) tables
    pure (tables.pluginExecutionPinCount pluginId, tables)

/-- The categories `mark_plugin_removal_failed` accepts. -/
def isFailureCategory (details : String) : Bool :=
  details ≠ "" && details.utf8ByteSize ≤ 256 &&
    details.toList.all fun c => c.isAlphanum || c ∈ [' ', '-', '_', '.']

/-- `mark_plugin_removal_failed`. -/
def markPluginRemovalFailed (tables : Tables) (pluginId details : String) : Except String Tables :=
  if !isFailureCategory details then .error "invalid plugin removal failure category"
  else
    let pending : PluginRow → Bool := fun plugin =>
      plugin.id = pluginId && plugin.status = .pendingRemoval
    if tables.plugins.any pending then
      .ok (tables.updatePlugins pending fun plugin => { plugin with status := .removalFailed })
    else .error "plugin removal is not pending"

/-- `resume_plugin_removal`. -/
def resumePluginRemoval (tables : Tables) (pluginId : String) : Bool × Tables :=
  let failed : PluginRow → Bool := fun plugin =>
    plugin.id = pluginId && plugin.status = .removalFailed
  (tables.plugins.countP failed = 1,
    tables.updatePlugins failed fun plugin => { plugin with status := .pendingRemoval })

/-- `finalize_plugin_removal`. -/
def finalizePluginRemoval (tables : Tables) (pluginId : String) :
    Except String (Option PluginRow × Tables) :=
  match tables.plugin pluginId with
  | none => .ok (none, tables)
  | some plugin =>
    if plugin.status ≠ .pendingRemoval then .error "plugin removal is not pending"
    else if tables.pluginExecutionPinCount pluginId ≠ 0 then
      .error "plugin is still pinned by an execution"
    else .ok (some plugin, tables.deletePlugin pluginId)

/-- `set_plugin_enabled`. Only an active plugin is enabled. -/
def setPluginEnabled (tables : Tables) (id : String) (enabled : Bool) :
    Except String (Bool × Tables) :=
  let selected : PluginRow → Bool := fun plugin =>
    plugin.id = id && (!enabled || plugin.status = .active)
  if enabled && !tables.plugins.any selected && (tables.plugin id).isSome then
    .error "plugin is pending removal"
  else
    .ok (tables.plugins.countP selected = 1,
      tables.updatePlugins selected fun plugin => { plugin with enabled })

/-- `remove_plugin_install`: only for a plugin that is active and not pinned. -/
def removePluginInstall (tables : Tables) (id : String) :
    Except String (Option PluginRow × Tables) :=
  match tables.plugin id with
  | none => .ok (none, tables)
  | some plugin =>
    if plugin.status ≠ .active || tables.isPinned id then
      .error "plugin is in use or has a pending removal; use coordinated finalization"
    else .ok (some plugin, tables.deletePlugin id)

end Tables

/-! ### Calls -/

/-- Calls that leave the catalog tables alone. -/
def StoreCall.IsCatalog : StoreCall → Prop
  | catalog _ _ _ => True
  | _ => False

/-- A store call on executions, a change of the workflows, or a plugin operation. -/
inductive PluginCall
  | execution (call : StoreCall) (h : ¬call.IsCatalog)
  | workflows (workflows : List WorkflowRow)
  | acquire (executionId : String) (pluginIds : List String)
  | upsert (install : PluginInstall)
  | setEnabled (id : String) (enabled : Bool)
  | requestRemoval (pluginId : String) (workflowIds : List String)
  | markFailed (pluginId details : String)
  | resume (pluginId : String)
  | finalize (pluginId : String)
  | removeInstall (id : String)

namespace PluginCall

def create (admission : Tables.Admission) : PluginCall := execution (.create admission) id

def finish (id : String) (status : FinalStatus) (error : Option String) (now : String) :
    PluginCall :=
  execution (.finish id status error now) fun h => h

def recover (now : String) : PluginCall := execution (.recover now) id

def checkpoint (executionId : String) (write : CheckpointWrite) : PluginCall :=
  execution (.checkpoint executionId write) id

end PluginCall

/-- The tables after a call. -/
def PluginCall.apply (tables : Tables) : PluginCall → Tables
  | execution call _ => call.apply tables
  | workflows rows => { tables with workflows := rows }
  | acquire executionId pluginIds =>
    Runs.settle tables ((tables.acquirePluginUses executionId pluginIds).map fun t => ((), t))
  | upsert install => Runs.settle tables ((tables.upsertPluginInstall install).map fun t => ((), t))
  | setEnabled id enabled => Runs.settle tables (tables.setPluginEnabled id enabled)
  | requestRemoval pluginId workflowIds =>
    Runs.settle tables (tables.requestPluginRemoval pluginId workflowIds)
  | markFailed pluginId details =>
    Runs.settle tables ((tables.markPluginRemovalFailed pluginId details).map fun t => ((), t))
  | resume pluginId => (tables.resumePluginRemoval pluginId).2
  | finalize pluginId => Runs.settle tables (tables.finalizePluginRemoval pluginId)
  | removeInstall id => Runs.settle tables (tables.removePluginInstall id)

/-- The tables after a sequence of calls on a fresh store. -/
abbrev pluginTables (calls : List PluginCall) : Tables := Runs.run PluginCall.apply {} calls

/-! ### New pins -/

/-- A pin on the content of a plugin that may be used. -/
def Tables.MayPin (tables : Tables) (pin : PinRow) : Prop :=
  ∃ plugin ∈ tables.plugins, plugin.status = .active ∧ plugin.enabled = true ∧
    pin = plugin.pin pin.executionId

/-- Only pins were added, all of them of one execution and on plugins that may be used. -/
def Tables.PinsAdded (executionId : String) (tables tables' : Tables) : Prop :=
  ∃ pins, tables' = { tables with pins := tables.pins ++ pins } ∧
    ∀ pin ∈ pins, pin.executionId = executionId ∧ tables.MayPin pin

namespace Tables.PinsAdded

variable {executionId : String} {tables tables' tables'' : Tables}

theorem refl : PinsAdded executionId tables tables := ⟨[], by simp, nofun⟩

theorem trans (h : PinsAdded executionId tables tables')
    (h' : PinsAdded executionId tables' tables'') : PinsAdded executionId tables tables'' := by
  obtain ⟨pins, rfl, hpins⟩ := h
  obtain ⟨pins', rfl, hpins'⟩ := h'
  refine ⟨pins ++ pins', by simp, fun pin hpin => ?_⟩
  rcases List.mem_append.mp hpin with hpin | hpin
  · exact hpins pin hpin
  · exact hpins' pin hpin

theorem singleton {plugin : PluginRow} (hmem : plugin ∈ tables.plugins)
    (hactive : plugin.status = .active) (henabled : plugin.enabled = true) :
    PinsAdded executionId tables { tables with pins := tables.pins ++
      [plugin.pin executionId] } := by
  refine ⟨[plugin.pin executionId], rfl, fun pin hpin => ?_⟩
  obtain rfl := List.mem_singleton.mp hpin
  exact ⟨rfl, plugin, hmem, hactive, henabled, rfl⟩

end Tables.PinsAdded

/-- An execution has a pin on a plugin. -/
def Tables.HasPin (tables : Tables) (executionId pluginId : String) : Prop :=
  ∃ pin ∈ tables.pins, pin.executionId = executionId ∧ pin.pluginId = pluginId

theorem Tables.PinsAdded.hasPin {executionId executionId' pluginId : String}
    {tables tables' : Tables} (h : PinsAdded executionId tables tables')
    (hpin : tables.HasPin executionId' pluginId) : tables'.HasPin executionId' pluginId := by
  obtain ⟨pins, rfl, -⟩ := h
  obtain ⟨pin, hmem, hspec⟩ := hpin
  exact ⟨pin, List.mem_append_left _ hmem, hspec⟩

/-- **What admission pins**: every plugin it is asked for. -/
theorem Tables.pinPlugins_eq_ok {executionId : String} {requirements : List PluginRequirement}
    {tables tables' : Tables} (h : pinPlugins executionId requirements tables = .ok tables') :
    PinsAdded executionId tables tables' ∧
      ∀ requirement ∈ requirements, tables'.HasPin executionId requirement.pluginId := by
  induction requirements generalizing tables with
  | nil =>
    cases h
    exact ⟨.refl, nofun⟩
  | cons requirement requirements ih =>
    -- one turn leaves the plugin pinned, whether it adds the pin or finds it
    have hturn : ∃ next, PinsAdded executionId tables next ∧
        next.HasPin executionId requirement.pluginId ∧
        pinPlugins executionId requirements next = .ok tables' := by
      rw [pinPlugins] at h
      by_cases hpinned : tables.pins.any fun pin =>
          pin.executionId = executionId && pin.pluginId = requirement.pluginId
      · have hhas : tables.HasPin executionId requirement.pluginId := by
          obtain ⟨pin, hmem, hspec⟩ := List.any_eq_true.mp hpinned
          exact ⟨pin, hmem, by simpa using hspec⟩
        refine ⟨tables, .refl, hhas, ?_⟩
        cases hfind : tables.plugins.find? requirement.isSatisfiedBy with
        | none => simpa [hfind, hpinned] using h
        | some plugin => simpa [hfind, hpinned] using h
      · cases hfind : tables.plugins.find? requirement.isSatisfiedBy with
        | none => simp [hfind, hpinned] at h
        | some plugin =>
          have hsat := List.find?_some hfind
          simp only [PluginRequirement.isSatisfiedBy, Bool.and_eq_true, decide_eq_true_eq] at hsat
          obtain ⟨⟨⟨⟨⟨hid, henabled⟩, hactive⟩, -⟩, -⟩, -⟩ := hsat
          refine ⟨{ tables with pins := tables.pins ++ [plugin.pin executionId] },
            .singleton (List.mem_of_find?_eq_some hfind) hactive henabled, ?_, ?_⟩
          · exact ⟨plugin.pin executionId, List.mem_append_right _ (List.mem_singleton_self _),
              rfl, hid⟩
          · simpa [hfind, hpinned, PluginRow.pin] using h
    obtain ⟨next, hadded, hhas, hrest⟩ := hturn
    obtain ⟨hadded', hall⟩ := ih hrest
    refine ⟨hadded.trans hadded', fun other hother => ?_⟩
    rcases List.mem_cons.mp hother with rfl | hother
    · exact hadded'.hasPin hhas
    · exact hall other hother

theorem Tables.acquirePluginUse_eq_ok {executionId id : String} {tables tables' : Tables}
    (h : acquirePluginUse executionId tables id = .ok tables') :
    PinsAdded executionId tables tables' := by
  unfold acquirePluginUse at h
  split at h
  · next plugin hfind =>
    have hsat := List.find?_some hfind
    simp only [Bool.and_eq_true, decide_eq_true_eq] at hsat
    split at h
    · cases h
      exact .refl
    · cases h
      exact .singleton (List.mem_of_find?_eq_some hfind) hsat.1.2 hsat.2
  · cases h

theorem Tables.foldlM_acquirePluginUse {executionId : String} {pluginIds : List String}
    {tables tables' : Tables}
    (h : pluginIds.foldlM (acquirePluginUse executionId) tables = .ok tables') :
    PinsAdded executionId tables tables' := by
  induction pluginIds generalizing tables with
  | nil =>
    cases h
    exact .refl
  | cons id pluginIds ih =>
    obtain ⟨next, hnext, hrest⟩ := except_bind_eq_ok h
    exact (acquirePluginUse_eq_ok hnext).trans (ih hrest)

/-- What `acquire_plugin_uses` does, and for which executions. -/
theorem Tables.acquirePluginUses_eq_ok {executionId : String} {pluginIds : List String}
    {tables tables' : Tables} (h : tables.acquirePluginUses executionId pluginIds = .ok tables') :
    PinsAdded executionId tables tables' ∧
      ∃ row ∈ tables.executions, row.id = executionId ∧ ¬row.status.IsTerminal := by
  unfold acquirePluginUses at h
  split at h
  · cases h
  · split at h
    · next hlive =>
      obtain ⟨row, hrow, hstatus⟩ := (Option.any_eq_true _ _).mp hlive
      obtain ⟨hmem, hid⟩ := Table.mem_of_lookup hrow
      refine ⟨foldlM_acquirePluginUse h, row, hmem, hid, fun hterminal => ?_⟩
      simp only [Bool.or_eq_true, decide_eq_true_eq] at hstatus
      obtain (hstatus | hstatus) | hstatus := hstatus <;> rw [hstatus] at hterminal <;>
        exact hterminal
    · cases h

/-- What an admission leaves in the other tables. -/
theorem Tables.admitExecution_eq_ok {tables tables' : Tables} {admission : Admission}
    {record : ExecutionRecord} (h : tables.admitExecution admission = .ok (record, tables')) :
    ∃ status pinned, tables.executionAdmission admission.workflowName
        admission.plan.policy.concurrency = .ok status ∧
      pinPlugins admission.executionId admission.plugins
        { tables with executions := tables.executions ++ [admission.row status] } = .ok pinned ∧
      tables'.executions = tables.executions ++ [admission.row status] ∧
      tables'.pins = pinned.pins ∧ tables'.plugins = tables.plugins ∧
      tables'.plans = (pinned.insertPlan admission).plans ∧
      tables'.workflows = tables.workflows ∧
      tables'.removalWorkflows = tables.removalWorkflows ∧
      tables'.checkpoints = tables.checkpoints ∧
      ∃ eventType payload, tables'.eventSequence = tables.eventSequence + 1 ∧
        tables'.events = (tables.appendEvent eventType admission.workflowName
          (some admission.executionId) payload admission.createdAt).events := by
  obtain ⟨status, hstatus, h⟩ := except_bind_eq_ok h
  obtain ⟨inserted, hinsert, h⟩ := except_bind_eq_ok h
  obtain ⟨pinned, hpin, h⟩ := except_bind_eq_ok h
  obtain ⟨identified, hidentity, h⟩ := except_bind_eq_ok h
  cases h
  have hinserted : inserted =
      { tables with executions := tables.executions ++ [admission.row status] } := by
    unfold insertExecution at hinsert
    split at hinsert
    · cases hinsert
    · cases hinsert
      rfl
  obtain rfl := hinserted
  have hframe : ∃ rows, identified = { pinned.insertPlan admission with idempotency := rows } := by
    cases hid : admission.identity with
    | none =>
      rw [hid, insertIdentity] at hidentity
      cases hidentity
      exact ⟨_, rfl⟩
    | some identity =>
      rw [hid, insertIdentity] at hidentity
      split at hidentity
      · cases hidentity
      · cases hidentity
        exact ⟨_, rfl⟩
  obtain ⟨rows, rfl⟩ := hframe
  obtain ⟨⟨pins, rfl, -⟩, -⟩ := pinPlugins_eq_ok hpin
  exact ⟨status, _, hstatus, hpin, rfl, rfl, rfl, rfl, rfl, rfl, rfl, _, _, rfl, rfl⟩

/-- A creating call either leaves the tables alone or admits. -/
theorem Tables.createExecution_cases (tables : Tables) (admission : Admission) :
    StoreCall.apply tables (.create admission) = tables ∨
      ∃ record tables', tables.admitExecution admission = .ok (record, tables') ∧
        tables.ensureEligible admission = .ok () ∧
        StoreCall.apply tables (.create admission) = tables' := by
  change tables.commit (tables.createExecutionWithPlanGuarded admission) = _ ∨ _
  cases h : tables.createExecutionWithPlanGuarded admission with
  | error e => exact .inl rfl
  | ok result =>
    obtain ⟨found, -, hrest⟩ := except_bind_eq_ok h
    cases found with
    | some record =>
      cases hrest
      exact .inl rfl
    | none =>
      obtain ⟨⟨⟩, heligible, hrest⟩ := except_bind_eq_ok hrest
      obtain ⟨⟨record, tables'⟩, hadmit, hrest⟩ := except_bind_eq_ok hrest
      cases hrest
      exact .inr ⟨record, tables', hadmit, heligible, by rw [StoreCall.apply, h]; rfl⟩

/-! ### Released pins -/

/-- Every pin belongs to an execution that is still under way. -/
def Tables.PinsLive (tables : Tables) : Prop :=
  ∀ pin ∈ tables.pins, ∃ row ∈ tables.executions, row.id = pin.executionId ∧ ¬row.status.IsTerminal

/-- The only terminal status that keeps a pin. -/
theorem ExecutionStatus.not_isTerminal_of_releasesPins {status : ExecutionStatus}
    (h : status.releasesPins = false) (hne : status ≠ .interrupted) : ¬status.IsTerminal := by
  cases status <;> simp_all [ExecutionStatus.releasesPins, ExecutionStatus.IsTerminal]

namespace Tables.PinsLive

variable {tables tables' : Tables}

/-- An update of the executions keeps the pins live, unless it interrupts a pinned execution. -/
theorem updateExecutions (h : tables.PinsLive) {p : ExecutionRow → Bool}
    {f : ExecutionRow → ExecutionRow} (hid : ∀ row, (f row).id = row.id)
    (hne : ∀ row ∈ tables.executions, p row = true → (∃ pin ∈ tables.pins,
      pin.executionId = row.id) → (f row).status ≠ .interrupted) :
    (tables.updateExecutions p f).PinsLive := by
  intro pin hpin
  obtain ⟨hpin, hkept⟩ := List.mem_filter.mp hpin
  obtain ⟨row, hrow, hrowId, hlive⟩ := h pin hpin
  by_cases hp : p row = true
  · have hreleases : (f row).status.releasesPins = false := by
      by_contra hreleases
      have hany : (tables.executions.any fun row =>
          p row && (f row).status.releasesPins && decide (row.id = pin.executionId)) = true :=
        List.any_eq_true.mpr ⟨row, hrow, by simp [hp, hreleases, hrowId]⟩
      rw [hany] at hkept
      cases hkept
    refine ⟨f row, Table.mem_updateWhere.mpr (.inr ⟨row, hrow, hp, rfl⟩), ?_, ?_⟩
    · rw [hid, hrowId]
    · exact ExecutionStatus.not_isTerminal_of_releasesPins hreleases
        (hne row hrow hp ⟨pin, hpin, hrowId.symm⟩)
  · exact ⟨row, Table.mem_updateWhere.mpr (.inl ⟨hrow, by simpa using hp⟩), hrowId, hlive⟩

/-- What other operations do: no execution is lost, and new pins are of live executions. -/
theorem of_subset (h : tables.PinsLive)
    (hrows : ∀ row ∈ tables.executions, row ∈ tables'.executions)
    (hpins : ∀ pin ∈ tables'.pins, pin ∈ tables.pins ∨ ∃ row ∈ tables'.executions,
      row.id = pin.executionId ∧ ¬row.status.IsTerminal) : tables'.PinsLive := by
  intro pin hpin
  obtain hpin | hpin := hpins pin hpin
  · obtain ⟨row, hrow, hspec⟩ := h pin hpin
    exact ⟨row, hrows row hrow, hspec⟩
  · exact hpin

theorem of_eq (h : tables.PinsLive) (hrows : tables'.executions = tables.executions)
    (hpins : tables'.pins = tables.pins) : tables'.PinsLive := by
  rw [PinsLive, hrows, hpins]
  exact h

theorem appendEvent (h : tables.PinsLive) (eventType resourceId : String)
    (executionId : Option String) (payload : Value) (timestamp : String) :
    (tables.appendEvent eventType resourceId executionId payload timestamp).PinsLive :=
  h.of_eq rfl rfl

theorem pinsAdded (h : tables.PinsLive) {executionId : String}
    (hadded : PinsAdded executionId tables tables')
    (hlive : ∃ row ∈ tables.executions, row.id = executionId ∧ ¬row.status.IsTerminal) :
    tables'.PinsLive := by
  obtain ⟨pins, rfl, hpins⟩ := hadded
  refine h.of_subset (fun row hrow => hrow) fun pin hpin => ?_
  rcases List.mem_append.mp hpin with hpin | hpin
  · exact .inl hpin
  · obtain ⟨row, hrow, hid, hspec⟩ := hlive
    exact .inr ⟨row, hrow, hid.trans (hpins pin hpin).1.symm, hspec⟩

theorem applyRetention (h : tables.PinsLive) (executionBefore eventBefore : String) :
    (tables.applyRetention executionBefore eventBefore).PinsLive := by
  intro pin hpin
  obtain ⟨hpin, hkept⟩ := List.mem_filter.mp hpin
  obtain ⟨row, hrow, hid, hlive⟩ := h pin hpin
  refine ⟨row, List.mem_filter.mpr ⟨hrow, ?_⟩, hid, hlive⟩
  by_contra hexpired
  have hany : (tables.executions.any fun row =>
      decide (row.id = pin.executionId) && isExpired executionBefore row) = true :=
    List.any_eq_true.mpr ⟨row, hrow, by simpa [hid] using hexpired⟩
  simp only [hany, Bool.not_true, Bool.false_eq_true] at hkept

theorem create (h : tables.PinsLive) (admission : Admission) :
    (StoreCall.apply tables (.create admission)).PinsLive := by
  obtain heq | ⟨record, tables', hadmit, -, heq⟩ := tables.createExecution_cases admission
  · rw [heq]
    exact h
  · rw [heq]
    obtain ⟨status, pinned, hstatus, hpin, hrows, hpins, -⟩ := admitExecution_eq_ok hadmit
    have hrow : ∃ row ∈ tables.executions ++ [admission.row status],
        row.id = admission.executionId ∧ ¬row.status.IsTerminal := by
      refine ⟨admission.row status, List.mem_append_right _ (List.mem_singleton_self _), rfl, ?_⟩
      obtain rfl | rfl := status_of_executionAdmission hstatus <;> exact id
    have hinserted : PinsLive { tables with
        executions := tables.executions ++ [admission.row status] } :=
      h.of_subset (fun row hrow => List.mem_append_left _ hrow) fun pin hpin => .inl hpin
    obtain ⟨hadded, -⟩ := pinPlugins_eq_ok hpin
    have hpinned := hinserted.pinsAdded hadded hrow
    obtain ⟨pins, rfl, -⟩ := hadded
    exact hpinned.of_eq hrows hpins

end Tables.PinsLive

/-- Recovery will not interrupt a pinned execution: those that run have a plan, and no checkpoint of
theirs is uncertain. -/
def Tables.ResumesPinned (tables : Tables) (row : ExecutionRow) : Prop :=
  (∃ pin ∈ tables.pins, pin.executionId = row.id) → row.status = .running →
    (tables.plans.any fun plan => plan.executionId = row.id) = true ∧
      (tables.checkpointsOf row.id).isUncertain = false

/-- Recovery interrupts only what it cannot resume. -/
theorem recoveredStatus_ne_interrupted {status : ExecutionStatus} (h : status.isActive = true)
    {hasPlan uncertain : Bool}
    (hresume : status = .running → hasPlan = true ∧ uncertain = false) :
    (Tables.recoveredStatus status hasPlan uncertain).1 ≠ .interrupted := by
  unfold Tables.recoveredStatus
  split
  · simp
  · next hne =>
    have hrunning : status = .running := by
      simpa [ExecutionStatus.isActive, hne] using h
    obtain ⟨rfl, rfl⟩ := hresume hrunning
    simp

/-- The recovery loop keeps the pins live when no pinned execution is interrupted. -/
theorem Tables.PinsLive.recoverAll (now : String) (todo : List ExecutionRow) :
    ∀ tables : Tables, tables.PinsLive → (∀ row ∈ todo, row.status.isActive = true) →
      (∀ row ∈ todo, tables.ResumesPinned row) →
      (todo.foldl (recoverExecution now) tables).PinsLive := by
  induction todo with
  | nil => exact fun tables h _ _ => h
  | cons first todo ih =>
    intro tables h hactive hresume
    have hnext : (recoverExecution now tables first).PinsLive := by
      refine .appendEvent (h.updateExecutions ?_ fun row _ hrow hpin => ?_) _ _ _ _ _
      · exact fun _ => rfl
      obtain ⟨pin, hmem, hid⟩ := hpin
      have hfirst : row.id = first.id := by simpa using hrow
      exact recoveredStatus_ne_interrupted (hactive first List.mem_cons_self)
        (hresume first List.mem_cons_self ⟨pin, hmem, hid.trans hfirst⟩)
    refine ih _ hnext (fun row hrow => hactive row (List.mem_cons_of_mem _ hrow))
      fun row hrow hpin => ?_
    obtain ⟨pin, hmem, hid⟩ := hpin
    exact hresume row (List.mem_cons_of_mem _ hrow) ⟨pin, List.mem_of_mem_filter hmem, hid⟩

/-- What the pins need of a call: recovery interrupts no pinned execution. -/
def PluginCall.InterruptsNoPin (tables : Tables) : PluginCall → Prop
  | execution (.recover _) _ => ∀ row ∈ tables.executions, tables.ResumesPinned row
  | _ => True

/-- A call on the executions keeps the pins live. -/
theorem StoreCall.pinsLive_apply {tables : Tables} (h : tables.PinsLive)
    (hids : tables.UniqueIds) (call : StoreCall)
    (hresume : ∀ now, call = .recover now → ∀ row ∈ tables.executions, tables.ResumesPinned row) :
    (call.apply tables).PinsLive := by
  cases call with
  | create admission => exact h.create admission
  | claim id maxRuns now =>
    simp only [apply, Tables.claimExecutionSlot]
    split
    · exact h
    · split
      · exact h
      · split
        · refine .appendEvent (h.updateExecutions ?_ ?_) _ _ _ _ _
          · exact fun _ => rfl
          · exact fun _ _ _ _ => by simp
        · exact h
  | requestCancel id =>
    refine h.updateExecutions ?_ fun row _ _ _ => ?_
    · exact fun _ => rfl
    change (if row.status = .queued then ExecutionStatus.cancelled else .cancelling) ≠ .interrupted
    split <;> simp
  | requestCancelOutcome id now =>
    simp only [apply, Tables.requestExecutionCancelOutcome]
    split
    · exact h
    · split
      · refine .appendEvent (h.updateExecutions ?_ ?_) _ _ _ _ _
        · exact fun _ => rfl
        · exact fun _ _ _ _ => by simp
      · refine .appendEvent (h.updateExecutions ?_ ?_) _ _ _ _ _
        · exact fun _ => rfl
        · exact fun _ _ _ _ => by simp
      · exact h
      · exact h
  | cancelQueued id now =>
    refine h.updateExecutions ?_ ?_
    · exact fun _ => rfl
    · exact fun _ _ _ _ => by simp
  | finish id status error now =>
    simp only [apply, Tables.finishExecution]
    split
    · exact h
    · split
      · exact h
      · refine .appendEvent (h.updateExecutions ?_ fun _ _ _ _ => ?_) _ _ _ _ _
        · exact fun _ => rfl
        change status.toExecutionStatus ≠ .interrupted
        cases status <;> simp [FinalStatus.toExecutionStatus]
  | recover now =>
    refine Tables.PinsLive.recoverAll now _ tables h (fun row hrow => ?_) fun row hrow => ?_
    · exact (List.mem_filter.mp hrow).2
    · exact hresume now rfl row (List.mem_of_mem_filter hrow)
  | checkpoint execution write =>
    simp only [apply]
    split
    · exact h.of_eq rfl rfl
    · exact h
  | catalog workflows plugins removalWorkflows => exact h.of_eq rfl rfl
  | setPinned id pinned =>
    refine h.updateExecutions ?_ fun row hrow _ hpin => ?_
    · exact fun _ => rfl
    obtain ⟨pin, hmem, hid⟩ := hpin
    obtain ⟨live, hlive, hliveId, hstatus⟩ := h pin hmem
    have hsame : live = row := by
      have h₁ := Table.lookup_of_mem hids hlive
      have h₂ := Table.lookup_of_mem hids hrow
      rw [hliveId, hid] at h₁
      exact Option.some_injective _ (h₁.symm.trans h₂)
    rw [hsame] at hstatus
    intro hinterrupted
    rw [hinterrupted] at hstatus
    exact hstatus trivial
  | applyRetention executionBefore eventBefore => exact h.applyRetention executionBefore eventBefore

/-! ### Plugin operations and the executions -/

/-- Executions and pins are as they were. -/
structure Tables.SameExecutions (tables tables' : Tables) : Prop where
  executions : tables'.executions = tables.executions
  pins : tables'.pins = tables.pins

/-- Disabling the dependent workflows touches nothing but workflows and their list. -/
theorem Tables.foldlM_disableDependent {pluginId : String} {workflowIds : List String}
    {tables tables' : Tables}
    (h : workflowIds.foldlM (disableDependent pluginId) tables = .ok tables') :
    SameExecutions tables tables' ∧ tables'.plugins = tables.plugins := by
  induction workflowIds generalizing tables with
  | nil =>
    cases h
    exact ⟨⟨rfl, rfl⟩, rfl⟩
  | cons id workflowIds ih =>
    obtain ⟨next, hnext, hrest⟩ := except_bind_eq_ok h
    obtain ⟨⟨hrows, hpins⟩, hplugins⟩ := ih hrest
    unfold disableDependent at hnext
    split at hnext
    · cases hnext
      exact ⟨⟨hrows, hpins⟩, hplugins⟩
    · cases hnext

/-- The operations of the plugin tables other than `acquire_plugin_uses`. -/
theorem PluginCall.sameExecutions (tables : Tables) (call : PluginCall)
    (hexecution : ∀ c h, call ≠ .execution c h)
    (hacquire : ∀ id ids, call ≠ .acquire id ids) :
    tables.SameExecutions (call.apply tables) := by
  cases call with
  | execution call h => exact absurd rfl (hexecution call h)
  | acquire id ids => exact absurd rfl (hacquire id ids)
  | workflows rows => exact ⟨rfl, rfl⟩
  | upsert install =>
    simp only [apply, Tables.upsertPluginInstall]
    split
    · exact ⟨rfl, rfl⟩
    · split <;> exact ⟨rfl, rfl⟩
  | setEnabled id enabled =>
    simp only [apply, Tables.setPluginEnabled]
    split <;> exact ⟨rfl, rfl⟩
  | requestRemoval pluginId workflowIds =>
    cases h : tables.requestPluginRemoval pluginId workflowIds with
    | error e =>
      rw [apply, h]
      exact ⟨rfl, rfl⟩
    | ok result =>
      rw [apply, h]
      unfold Tables.requestPluginRemoval at h
      split at h
      · cases h
      · split at h
        · cases h
        · obtain ⟨next, hnext, hrest⟩ := except_bind_eq_ok h
          cases hrest
          obtain ⟨⟨hrows, hpins⟩, -⟩ := Tables.foldlM_disableDependent hnext
          exact ⟨hrows, hpins⟩
  | markFailed pluginId details =>
    simp only [apply, Tables.markPluginRemovalFailed]
    split
    · exact ⟨rfl, rfl⟩
    · split <;> exact ⟨rfl, rfl⟩
  | resume pluginId => exact ⟨rfl, rfl⟩
  | finalize pluginId =>
    simp only [apply, Tables.finalizePluginRemoval]
    split
    · exact ⟨rfl, rfl⟩
    · split
      · exact ⟨rfl, rfl⟩
      · split <;> exact ⟨rfl, rfl⟩
  | removeInstall id =>
    simp only [apply, Tables.removePluginInstall]
    split
    · exact ⟨rfl, rfl⟩
    · split <;> exact ⟨rfl, rfl⟩

/-- What acquiring does to the tables. -/
theorem PluginCall.acquire_cases (tables : Tables) (executionId : String)
    (pluginIds : List String) :
    (PluginCall.acquire executionId pluginIds).apply tables = tables ∨
      (tables.PinsAdded executionId ((PluginCall.acquire executionId pluginIds).apply tables) ∧
        ∃ row ∈ tables.executions, row.id = executionId ∧ ¬row.status.IsTerminal) := by
  cases h : tables.acquirePluginUses executionId pluginIds with
  | error e => exact .inl (by rw [apply, h]; rfl)
  | ok tables' =>
    have happly : (PluginCall.acquire executionId pluginIds).apply tables = tables' := by
      rw [apply, h]
      rfl
    rw [happly]
    exact .inr (Tables.acquirePluginUses_eq_ok h)

/-- The pins are live and the execution ids have no repeats. -/
structure Tables.PinsInOrder (tables : Tables) : Prop where
  live : tables.PinsLive
  ids : tables.UniqueIds

theorem PluginCall.pinsInOrder_apply {tables : Tables} (h : tables.PinsInOrder)
    (call : PluginCall) (hresume : call.InterruptsNoPin tables) :
    (call.apply tables).PinsInOrder := by
  by_cases hexecution : ∃ c hc, call = .execution c hc
  · obtain ⟨c, hc, rfl⟩ := hexecution
    refine ⟨c.pinsLive_apply h.live h.ids fun now hcall => ?_,
      (c.apply_cases h.ids).uniqueIds h.ids⟩
    subst hcall
    exact hresume
  · by_cases hacquire : ∃ id ids, call = .acquire id ids
    · obtain ⟨id, ids, rfl⟩ := hacquire
      obtain heq | ⟨hadded, hlive⟩ := acquire_cases tables id ids
      · rw [heq]
        exact h
      · refine ⟨h.live.pinsAdded hadded hlive, ?_⟩
        obtain ⟨pins, heq, -⟩ := hadded
        rw [heq]
        exact h.ids
    · obtain ⟨hrows, hpins⟩ := sameExecutions tables call
        (fun c hc heq => hexecution ⟨c, hc, heq⟩) fun id ids heq => hacquire ⟨id, ids, heq⟩
      refine ⟨h.live.of_eq hrows hpins, ?_⟩
      rw [Tables.UniqueIds, hrows]
      exact h.ids

/-- **Pins are released.** In every state of a run in which recovery interrupts no pinned execution,
a pin belongs to an execution that has not ended; so a plugin whose executions have all ended has no
pins, and an update of it is not refused for being in use. -/
theorem pins_are_released (calls : List PluginCall)
    (hresume : Runs.Meets PluginCall.apply (fun tables call => call.InterruptsNoPin tables)
      {} calls) :
    (∀ pin ∈ (pluginTables calls).pins, ∃ row ∈ (pluginTables calls).executions,
        row.id = pin.executionId ∧ ¬row.status.IsTerminal) ∧
      ∀ pluginId : String,
        (∀ pin ∈ (pluginTables calls).pins, pin.pluginId = pluginId →
          ∀ row ∈ (pluginTables calls).executions, row.id = pin.executionId →
            row.status.IsTerminal) →
        (pluginTables calls).isPinned pluginId = false := by
  have hempty : Tables.PinsInOrder {} := ⟨nofun, List.nodup_nil⟩
  have horder : (pluginTables calls).PinsInOrder :=
    hresume.invariant hempty fun tables call h hc => call.pinsInOrder_apply h hc
  have hlive : (pluginTables calls).PinsLive := horder.live
  refine ⟨hlive, fun pluginId hended => ?_⟩
  by_contra hpinned
  rw [Bool.not_eq_false, Tables.isPinned] at hpinned
  obtain ⟨pin, hpin, hid⟩ := List.any_eq_true.mp hpinned
  obtain ⟨row, hrow, hrowId, hnot⟩ := hlive pin hpin
  exact hnot (hended pin hpin (of_decide_eq_true hid) row hrow hrowId)

/-- The plugin of the concrete runs. -/
def samplePlugin : PluginInstall where
  id := "p"
  version := "1.0.0"
  digest := "sha256:1"
  manifestPath := "plugins/p/1.0.0/plugin.json"
  enabled := true

/-- An admission of the execution `id` that pins the plugin. -/
def pinningAdmission (id : String) : Tables.Admission :=
  { sampleAdmission id "w" none with plugins := [{ pluginId := "p" }] }

/-- An execution that uses the plugin is admitted, resumed after a restart, and ends. -/
def pinnedCalls : List PluginCall :=
  [.upsert samplePlugin, .create (pinningAdmission "e1"), .recover "2026-01-01T00:00:01Z",
    .acquire "e1" ["p"], .finish "e1" .succeeded none "2026-01-01T00:00:02Z"]

theorem pinnedCalls_releases_its_pin : (pluginTables pinnedCalls).isPinned "p" = false :=
  (pins_are_released pinnedCalls (by
    refine ⟨trivial, trivial, ?_, trivial, trivial, trivial⟩
    intro row hrow _ _
    have hrows : (pluginTables (pinnedCalls.take 2)).executions.all fun row =>
        ((pluginTables (pinnedCalls.take 2)).plans.any fun plan => plan.executionId = row.id) &&
          !((pluginTables (pinnedCalls.take 2)).checkpointsOf row.id).isUncertain := by
      decide
    have hspec := List.all_eq_true.mp hrows row hrow
    rw [Bool.and_eq_true, Bool.not_eq_true'] at hspec
    exact hspec)).2 "p" (by decide)

/-- The execution is stopped during an external effect, and recovery interrupts it. -/
def interruptedCalls : List PluginCall :=
  [.upsert samplePlugin, .create (pinningAdmission "e1"),
    .checkpoint "e1" (.begin "/a" .running), .recover "2026-01-01T00:00:01Z"]

/-- The only execution has ended, and yet the plugin can neither be updated nor removed. -/
theorem interrupted_execution_keeps_its_pin :
    (pluginTables interruptedCalls).statusOf "e1" = some .interrupted ∧
      (pluginTables interruptedCalls).pins.map (fun pin => pin.executionId) = ["e1"] ∧
      ((pluginTables interruptedCalls).upsertPluginInstall
        { samplePlugin with version := "1.0.1" }).toBool = false ∧
      ((pluginTables interruptedCalls).removePluginInstall "p").toBool = false := by
  decide

end KakuneCore
