import KakuneCore.Store.PluginContent
import KakuneCore.Store.Workflows

/-!
# Removal of plugins

`request_removal` and `reconcile_pending_removals` are not transactions: between two of their store
calls, and between a store call and the deletion of files, anybody else may call the store. A client
that runs one of them is therefore a small machine. Its **phase** holds the local variables of the
program and says which call comes next; a step of the system is one call of some client, or one step
of one of these machines.
-/

namespace KakuneCore

/-! ### References in a workflow source -/

/-- A decoded YAML document, as far as the scan for references looks at it. A key that is not a
string is `none`. -/
inductive YamlValue
  | string (text : String)
  | tagged (value : YamlValue)
  | sequence (values : List YamlValue)
  | mapping (entries : List (Option String × YamlValue))
  | other

namespace YamlValue

/-- `Value::as_str`, which looks through tags. -/
def asStr : YamlValue → Option String
  | string text => some text
  | tagged value => value.asStr
  | _ => none

mutual

/-- The inner function `visit` of `workflow_references`. -/
def visit (nodeTypes : List String) (depth : Nat) : YamlValue → Except String Bool
  | mapping entries =>
    if depth > 128 then .error "workflow nesting exceeds the plugin reference scan limit"
    else visitEntries nodeTypes depth entries
  | sequence values =>
    if depth > 128 then .error "workflow nesting exceeds the plugin reference scan limit"
    else visitItems nodeTypes depth values
  | _ =>
    if depth > 128 then .error "workflow nesting exceeds the plugin reference scan limit"
    else .ok false

def visitEntries (nodeTypes : List String) (depth : Nat) :
    List (Option String × YamlValue) → Except String Bool
  | [] => .ok false
  | (key, value) :: entries =>
    if key = some "type" && value.asStr.any fun kind => kind ∈ nodeTypes then .ok true
    else
      match visit nodeTypes (depth + 1) value with
      | .ok false => visitEntries nodeTypes depth entries
      | found => found

def visitItems (nodeTypes : List String) (depth : Nat) : List YamlValue → Except String Bool
  | [] => .ok false
  | value :: values =>
    match visit nodeTypes (depth + 1) value with
    | .ok false => visitItems nodeTypes depth values
    | found => found

end

end YamlValue

/-- `workflow_references`; `parse` is the YAML decoder. -/
def workflowReferences (parse : String → Option YamlValue) (source : String)
    (nodeTypes : List String) : Except String Bool :=
  if source.utf8ByteSize > 1048576 then
    .error "workflow source exceeds the plugin reference scan limit"
  else
    match parse source with
    | none => .error "stored workflow YAML could not be inspected for plugin references"
    | some value => value.visit nodeTypes 0

/-! ### The machines -/

structure PluginRemovalReport where
  pluginId : String
  status : String
  activeExecutions : Nat
  affectedWorkflows : List String
  message : String

def PluginStatus.text : PluginStatus → String
  | active => "active"
  | pendingRemoval => "pending removal"
  | removalFailed => "removal failed"

/-- The report about a plugin; `status` is that of its lifecycle row. -/
def removalReport (pluginId : String) (status : Option PluginStatus) (details : Option String)
    (activeExecutions : Nat) (affectedWorkflows : List String) : PluginRemovalReport where
  pluginId
  activeExecutions
  affectedWorkflows
  status := (status.map PluginStatus.text).getD "removed"
  message :=
    match status with
    | some .pendingRemoval => "removal is pending until all admitted executions finish"
    | some .removalFailed => details.getD "removal failed; retry with plugin remove"
    | none => "plugin removal completed"
    | some .active => "plugin removal has not completed"

/-- What follows on `reconcile_one` and its report. -/
inductive Continuation
  | request (affected : List String)
  | loop (todo : List String) (results : List PluginRemovalReport)

def Continuation.affected : Continuation → List String
  | request affected => affected
  | loop _ _ => []

/-- Where a client stands. The name of a phase says what it has done. -/
inductive RemovalPhase
  | idle
  /-- `request_removal` begins. -/
  | requested (pluginId : String)
  /-- The installation was found. -/
  | found (plugin : PluginRow)
  /-- A failed removal is to be resumed. -/
  | resuming (pluginId : String)
  | resumed (pluginId : String)
  /-- The node types are to be read from the manifest. -/
  | declaring (plugin : PluginRow)
  /-- The workflows are to be listed. -/
  | listing (pluginId : String) (nodeTypes : List String)
  | scanning (pluginId : String) (nodeTypes todo affected : List String)
  /-- The barrier is to be published. -/
  | publishing (pluginId : String) (affected : List String)
  /-- The loop of `reconcile_pending_removals`. -/
  | reconciling (todo : List String) (results : List PluginRemovalReport)
  /-- The removal was seen pending. -/
  | pending (pluginId : String) (todo : List String) (results : List PluginRemovalReport)
  /-- `reconcile_one` begins. -/
  | entered (pluginId : String) (rest : Continuation)
  /-- `reconcile_one` has seen no pin. -/
  | counted (pluginId : String) (rest : Continuation)
  /-- `reconcile_one` has read the installation; its files come next. -/
  | listed (plugin : PluginRow) (rest : Continuation)
  | deleted (pluginId : String) (outcome : Except String Unit) (rest : Continuation)
  | unfinalized (pluginId : String) (rest : Continuation)
  | reporting (pluginId : String) (rest : Continuation)
  | counting (pluginId : String) (status : Option PluginStatus) (rest : Continuation)
  | finished (result : Except String (List PluginRemovalReport))

/-- The answers of the outside to one step. -/
structure RemovalAnswers where
  /-- The store call or the read of the manifest fails. -/
  fault : Option String := none
  /-- The outcome of `remove_plugin_files`. -/
  files : Except String Unit := .ok ()
  /-- The stored failure details, for a report. -/
  details : Option String := none
  timestamp : String := ""

/-- `list_workflows`: `ORDER BY name`. -/
def CoreTables.listWorkflows (core : CoreTables) : List StoredWorkflow :=
  core.workflows.insertionSort fun a b => a.name ≤ b.name

/-- `list_installed_plugins`: `ORDER BY id`. -/
def Tables.listInstalledPlugins (tables : Tables) : List PluginRow :=
  tables.plugins.insertionSort fun a b => a.id ≤ b.id

namespace RemovalPhase

/-- The call that changes the tables in the next step, if there is one. -/
def call (answers : RemovalAnswers) : RemovalPhase → Option CoreCall
  | resuming pluginId => some (.plugin (.resume pluginId) trivial)
  | publishing pluginId affected => some (.requestPluginRemoval pluginId affected answers.timestamp)
  | deleted pluginId (.ok ()) _ => some (.plugin (.finalize pluginId) trivial)
  | deleted pluginId (.error category) _ => some (.plugin (.markFailed pluginId category) trivial)
  | unfinalized pluginId _ =>
    some (.plugin (.markFailed pluginId "storage finalization failed") trivial)
  | _ => none

/-- The phase after a failed call. A failed finalization is recorded; the deletion of files and the
end of the scan are no store calls. -/
def failed (error : String) : RemovalPhase → Option RemovalPhase
  | deleted pluginId (.ok ()) rest => some (.unfinalized pluginId rest)
  | idle | listed _ _ | scanning _ _ [] _ | finished _ => none
  | _ => some (.finished (.error error))

variable (parse : String → Option YamlValue) (declared : String → List String)

/-- One turn of the scan. -/
def scan (core : CoreTables) (pluginId : String) (nodeTypes : List String) (id : String)
    (todo affected : List String) : RemovalPhase :=
  match core.workflow id with
  | none => .finished (.error s!"workflow {id} disappeared during removal review")
  | some workflow =>
    match workflowReferences parse workflow.source nodeTypes with
    | .error error => .finished (.error error)
    | .ok true => .scanning pluginId nodeTypes todo (affected ++ [id])
    | .ok false => .scanning pluginId nodeTypes todo affected

/-- After `mark_plugin_removal_failed`. -/
def afterMark (rest : Continuation) (pluginId : String) : Except String Tables → RemovalPhase
  | .error error => .finished (.error error)
  | .ok _ => .reporting pluginId rest

/-- The phase after a step that finds the tables `core`. `declared` reads the node types of a
manifest. -/
def next (answers : RemovalAnswers) (core : CoreTables) : RemovalPhase → RemovalPhase
  | idle => .idle
  | requested pluginId =>
    match core.view.plugin pluginId with
    | none => .finished (.error s!"plugin {pluginId} is not installed")
    | some plugin => .found plugin
  | found plugin =>
    match core.view.plugin plugin.id with
    | none => .finished (.error "plugin lifecycle record is missing")
    | some current =>
      if current.status = .removalFailed then .resuming plugin.id else .declaring plugin
  | resuming pluginId => .resumed pluginId
  | resumed pluginId =>
    if core.view.pluginExecutionPinCount pluginId = 0 then .entered pluginId (.request [])
    else .reporting pluginId (.request [])
  | declaring plugin => .listing plugin.id (declared plugin.manifestPath)
  | listing pluginId nodeTypes =>
    if 10000 < core.workflows.length then
      .finished (.error "plugin removal reference scan exceeds the workflow limit")
    else .scanning pluginId nodeTypes (core.listWorkflows.map fun workflow => workflow.id) []
  | scanning pluginId nodeTypes (id :: todo) affected =>
    scan parse core pluginId nodeTypes id todo affected
  | scanning pluginId _ [] affected =>
    if 10000 < affected.length then
      .finished (.error "plugin removal affects too many workflows")
    else .publishing pluginId affected
  | publishing pluginId affected =>
    match core.requestPluginRemoval pluginId affected answers.timestamp with
    | .error error => .finished (.error error)
    | .ok (activeExecutions, _) =>
      if activeExecutions = 0 then .entered pluginId (.request affected)
      else .reporting pluginId (.request affected)
  | reconciling [] results => .finished (.ok results)
  | reconciling (pluginId :: todo) results =>
    match core.view.plugin pluginId with
    | none => .reconciling todo results
    | some plugin =>
      if plugin.status = .pendingRemoval then .pending pluginId todo results
      else .reconciling todo results
  | pending pluginId todo results =>
    if 0 < core.view.pluginExecutionPinCount pluginId then .reconciling todo results
    else .entered pluginId (.loop todo results)
  | entered pluginId rest =>
    if 0 < core.view.pluginExecutionPinCount pluginId then .reporting pluginId rest
    else .counted pluginId rest
  | counted pluginId rest =>
    match core.view.plugin pluginId with
    | none => .reporting pluginId rest
    | some plugin => .listed plugin rest
  | listed plugin rest => .deleted plugin.id answers.files rest
  | deleted pluginId (.error category) rest =>
    afterMark rest pluginId (core.view.markPluginRemovalFailed pluginId category)
  | deleted pluginId (.ok ()) rest =>
    match core.view.finalizePluginRemoval pluginId with
    | .error _ => .unfinalized pluginId rest
    | .ok _ => .reporting pluginId rest
  | unfinalized pluginId rest =>
    afterMark rest pluginId
      (core.view.markPluginRemovalFailed pluginId "storage finalization failed")
  | reporting pluginId rest =>
    .counting pluginId ((core.view.plugin pluginId).map PluginRow.status) rest
  | counting pluginId status rest =>
    let report := removalReport pluginId status answers.details
      (core.view.pluginExecutionPinCount pluginId) rest.affected
    match rest with
    | .request _ => .finished (.ok [report])
    | .loop todo results => .reconciling todo (results ++ [report])
  | finished result => .finished result

end RemovalPhase

/-! ### The system -/

/-- The tables and the clients that run one of the two programs. -/
structure RemovalSystem where
  core : CoreTables := {}
  phase : Nat → RemovalPhase := fun _ => .idle

inductive RemovalStep
  /-- Somebody calls the store. -/
  | call (c : CoreCall)
  /-- A client starts `request_removal`. -/
  | request (client : Nat) (pluginId : String)
  /-- A client starts `reconcile_pending_removals`. -/
  | reconcile (client : Nat)
  /-- A client goes on. -/
  | advance (client : Nat) (answers : RemovalAnswers)

section System

variable (library : TimeLibrary) (workspace : Workspace) (parse : String → Option YamlValue)
  (declared : String → List String)

/-- The call of a step that reaches the tables. -/
def RemovalStep.coreCall (system : RemovalSystem) : RemovalStep → Option CoreCall
  | .call c => some c
  | request _ _ | reconcile _ => none
  | advance client answers =>
    if answers.fault.isSome then none else (system.phase client).call answers

/-- The phase of the client of a step, after it. -/
def RemovalStep.nextPhase (system : RemovalSystem) (client : Nat) (answers : RemovalAnswers) :
    RemovalPhase :=
  match answers.fault.bind fun error => (system.phase client).failed error with
  | some phase => phase
  | none => (system.phase client).next parse declared answers system.core

def RemovalStep.apply (system : RemovalSystem) (step : RemovalStep) : RemovalSystem where
  core :=
    match step.coreCall system with
    | some c => c.apply library workspace system.core
    | none => system.core
  phase :=
    match step with
    | .call _ => system.phase
    | request client pluginId => Function.update system.phase client (.requested pluginId)
    | reconcile client => Function.update system.phase client
        (if 10000 < system.core.view.plugins.length then
          .finished (.error "plugin removal reconciliation exceeds the installation limit")
        else .reconciling (system.core.view.listInstalledPlugins.map PluginRow.id) [])
    | advance client answers => Function.update system.phase client
        (RemovalStep.nextPhase parse declared system client answers)

/-- The system after the steps. -/
def removalSystem (steps : List RemovalStep) : RemovalSystem :=
  Runs.run (RemovalStep.apply library workspace parse declared) {} steps

/-! ### Calls and plugins -/

theorem PluginStep.congr {call : PluginCall} {tables tables' tables'' : Tables}
    (h : PluginStep call tables tables') (hplugins : tables''.plugins = tables'.plugins)
    (hpins : tables''.pins = tables'.pins)
    (hremovals : tables''.removalWorkflows = tables'.removalWorkflows) :
    PluginStep call tables tables'' where
  ids hids := by
    rw [hplugins]
    exact h.ids hids
  rows plugin hplugin := h.rows plugin (hplugins ▸ hplugin)
  kept plugin hplugin := by
    rw [hplugins, hremovals]
    exact h.kept plugin hplugin
  pins pin hpin := by
    rw [hplugins]
    exact h.pins pin (hpins ▸ hpin)
  removals removal hremoval := by
    rw [hplugins]
    exact h.removals removal (hremovals ▸ hremoval)

/-- The call deletes the row of a plugin. -/
def CoreCall.Deletes (plugin : PluginRow) (call : CoreCall) : Prop :=
  ∃ pluginCall h, call = .plugin pluginCall h ∧ pluginCall.Deletes plugin

/-- What a call is for the plugins. -/
inductive CoreCall.ActsAs : CoreCall → PluginCall → Prop
  | idle {call : CoreCall} : ActsAs call (.workflows [])
  | plugin {pluginCall : PluginCall} {h : pluginCall.KeepsWorkflows} :
      ActsAs (.plugin pluginCall h) pluginCall
  | removal {pluginId timestamp : String} {workflowIds : List String} :
      ActsAs (.requestPluginRemoval pluginId workflowIds timestamp)
        (.requestRemoval pluginId workflowIds)

theorem CoreCall.ActsAs.deletes {call : CoreCall} {pluginCall : PluginCall}
    (h : call.ActsAs pluginCall) {plugin : PluginRow} (hdeletes : pluginCall.Deletes plugin) :
    call.Deletes plugin := by
  cases h with
  | idle => cases hdeletes
  | plugin => exact ⟨pluginCall, _, rfl, hdeletes⟩
  | removal => cases hdeletes

/-- What a change does to the plugins. The dependent workflows of a removal are disabled. -/
theorem CoreChange.pluginStep {core core' : CoreTables} {call : CoreCall}
    (h : CoreChange library workspace call core core')
    (hids : (core.view.plugins.map PluginRow.id).Nodup) :
    ∃ pluginCall : PluginCall, call.ActsAs pluginCall ∧
      PluginStep pluginCall core.view core'.view ∧
      ∀ pluginId workflowIds, pluginCall = .requestRemoval pluginId workflowIds →
        ∀ workflow ∈ core'.workflows, workflow.status = "enabled" → workflow.id ∉ workflowIds := by
  have hsame : core'.base = core.base →
      PluginStep (.workflows []) core.view core'.view := by
    intro hbase
    refine PluginStep.refl.congr ?_ ?_ ?_
    · rw [CoreTables.view, CoreTables.view, hbase]
    · rw [CoreTables.view, CoreTables.view, hbase]
    · rw [CoreTables.view, CoreTables.view, hbase]
  cases h with
  | same heq =>
    refine ⟨.workflows [], .idle, hsame (congrArg CoreTables.base heq), fun _ _ h => ?_⟩
    cases h
  | published _ _ hpublished =>
    refine ⟨.workflows [], .idle, hsame hpublished.base, fun _ _ h => ?_⟩
    cases h
  | status _ _ _ _ hbase =>
    refine ⟨.workflows [], .idle, hsame hbase, fun _ _ h => ?_⟩
    cases h
  | removal hcall hremoval hwritten =>
    rw [hcall]
    refine ⟨_, .removal, (Tables.pluginStep_requestPluginRemoval hremoval).congr rfl rfl rfl,
      fun _ _ h workflow hworkflow henabled => ?_⟩
    cases h
    rw [hwritten.workflows, Table.mem_updateWhere] at hworkflow
    obtain ⟨-, hother⟩ | ⟨old, -, -, rfl⟩ := hworkflow
    · exact of_decide_eq_false hother
    · exact absurd henabled (by simp)
  | @plugin pluginCall h hcall hcore' =>
    rw [hcall, hcore']
    refine ⟨pluginCall, .plugin, (pluginCall.pluginStep core.view hids).congr rfl rfl rfl,
      fun _ _ hremoval => ?_⟩
    cases hremoval
    cases h

/-- What a call does to the plugins, as the step of some plugin call. -/
theorem CoreCall.pluginStep {core : CoreTables} (hcore : core.UniqueWorkflows)
    (hids : (core.view.plugins.map PluginRow.id).Nodup) (call : CoreCall) :
    ∃ pluginCall : PluginCall, call.ActsAs pluginCall ∧
      PluginStep pluginCall core.view (call.apply library workspace core).view := by
  obtain ⟨pluginCall, hacts, hstep, -⟩ :=
    CoreChange.pluginStep library workspace (call.apply_cases hcore) hids
  exact ⟨pluginCall, hacts, hstep⟩

/-- The facts about the tables that every step keeps. -/
structure RemovalSystem.Sound (system : RemovalSystem) : Prop where
  sourced : system.core.Sourced
  plugins : system.core.view.PluginsSound

theorem RemovalStep.core_apply (system : RemovalSystem) (step : RemovalStep) :
    (step.apply library workspace parse declared system).core =
      ((step.coreCall system).map fun c => c.apply library workspace system.core).getD
        system.core := by
  cases h : step.coreCall system <;> simp [RemovalStep.apply.eq_def, h]

/-- What a step does to the plugins. -/
theorem RemovalStep.pluginStep {system : RemovalSystem} (h : system.Sound) (step : RemovalStep) :
    ∃ pluginCall : PluginCall,
      PluginStep pluginCall system.core.view
        (step.apply library workspace parse declared system).core.view ∧
        ∀ plugin, pluginCall.Deletes plugin →
          ∃ call, step.coreCall system = some call ∧ call.Deletes plugin := by
  rw [RemovalStep.core_apply]
  cases hcall : step.coreCall system with
  | none =>
    refine ⟨.workflows [], .refl, fun plugin hdeletes => ?_⟩
    cases hdeletes
  | some call =>
    obtain ⟨pluginCall, hacts, hstep⟩ :=
      CoreCall.pluginStep library workspace h.sourced.ids h.plugins.ids call
    exact ⟨pluginCall, hstep, fun plugin hplugin => ⟨call, rfl, hacts.deletes hplugin⟩⟩

theorem RemovalStep.sound_apply {system : RemovalSystem} (h : system.Sound) (step : RemovalStep) :
    (step.apply library workspace parse declared system).Sound := by
  obtain ⟨pluginCall, hstep, -⟩ := RemovalStep.pluginStep library workspace parse declared h step
  refine ⟨?_, hstep.sound h.plugins⟩
  rw [RemovalStep.core_apply]
  cases step.coreCall system with
  | none => exact h.sourced
  | some call => exact CoreCall.sourced_apply h.sourced call

/-! ### Runs of the system -/

variable (steps : List RemovalStep)

/-- The system before step `n`. -/
def systemAt (n : Nat) : RemovalSystem :=
  removalSystem library workspace parse declared (steps.take n)

/-- The plugin tables before step `n`. -/
def viewAt (n : Nat) : Tables := (systemAt library workspace parse declared steps n).core.view

theorem sound_systemAt (n : Nat) : (systemAt library workspace parse declared steps n).Sound :=
  Runs.invariant (steps.take n) ⟨CoreTables.sourced_empty, Tables.pluginsSound_empty⟩
    fun _ step h => RemovalStep.sound_apply library workspace parse declared h step

theorem systemAt_succ {n : Nat} {step : RemovalStep} (h : steps[n]? = some step) :
    systemAt library workspace parse declared steps (n + 1) =
      step.apply library workspace parse declared
        (systemAt library workspace parse declared steps n) :=
  Runs.exists_step_of_getElem? h

theorem systemAt_of_none {n : Nat} (h : steps[n]? = none) :
    systemAt library workspace parse declared steps (n + 1) =
      systemAt library workspace parse declared steps n := by
  have hlength : steps.length ≤ n := List.getElem?_eq_none_iff.mp h
  rw [systemAt, systemAt, List.take_of_length_le hlength, List.take_of_length_le (by omega)]

/-- One position of a run, as the step of some plugin call. -/
theorem pluginStep_at (n : Nat) : ∃ pluginCall : PluginCall,
    PluginStep pluginCall (viewAt library workspace parse declared steps n)
      (viewAt library workspace parse declared steps (n + 1)) ∧
      ∀ plugin, pluginCall.Deletes plugin → ∃ step call, steps[n]? = some step ∧
        step.coreCall (systemAt library workspace parse declared steps n) = some call ∧
        call.Deletes plugin := by
  cases hstep : steps[n]? with
  | none =>
    rw [viewAt, viewAt, systemAt_of_none library workspace parse declared steps hstep]
    refine ⟨.workflows [], .refl, fun plugin hdeletes => ?_⟩
    cases hdeletes
  | some step =>
    rw [viewAt, viewAt, systemAt_succ library workspace parse declared steps hstep]
    obtain ⟨pluginCall, hplugin, hdeletes⟩ :=
      RemovalStep.pluginStep library workspace parse declared
      (sound_systemAt library workspace parse declared steps n) step
    refine ⟨pluginCall, hplugin, fun plugin h => ?_⟩
    obtain ⟨call, hcall, hcallDeletes⟩ := hdeletes plugin h
    exact ⟨step, call, rfl, hcall, hcallDeletes⟩

/-- The plugin is pending removal at every position from `a` to `n`. -/
def PendingBetween (pluginId : String) (a n : Nat) : Prop :=
  ∀ l, a ≤ l → l ≤ n → ∃ plugin,
    (viewAt library workspace parse declared steps l).plugin pluginId = some plugin ∧
      plugin.status = .pendingRemoval

variable {library workspace parse declared steps} {pluginId : String} {a n : Nat}

/-- While a removal is pending, the plugin stays without pins. -/
theorem PendingBetween.isPinned_eq_false
    (h : PendingBetween library workspace parse declared steps pluginId a n) (han : a ≤ n)
    (hpins : (viewAt library workspace parse declared steps a).isPinned pluginId = false) :
    (viewAt library workspace parse declared steps n).isPinned pluginId = false := by
  induction n, han using Nat.le_induction with
  | base => exact hpins
  | succ n han ih =>
    have hbefore := ih fun l hl hn => h l hl (hn.trans n.le_succ)
    obtain ⟨plugin, hplugin, hstatus⟩ := h n han n.le_succ
    obtain ⟨hmem, rfl⟩ := Table.mem_of_lookup hplugin
    obtain ⟨pluginCall, hstep, -⟩ := pluginStep_at library workspace parse declared steps n
    have hsound := (sound_systemAt library workspace parse declared steps n).plugins
    have hinactive : plugin.status ≠ .active := by
      rw [hstatus]
      decide
    rw [Tables.isPinned, List.any_eq_false] at hbefore ⊢
    intro pin hpin hid
    exact hbefore pin (hstep.no_new_pin hsound hmem hinactive hpin (of_decide_eq_true hid)) hid

/-- While a removal is pending, the content of the plugin stays. -/
theorem PendingBetween.content
    (h : PendingBetween library workspace parse declared steps pluginId a n) (han : a ≤ n)
    {plugin : PluginRow}
    (hplugin : (viewAt library workspace parse declared steps a).plugin pluginId = some plugin) :
    ∃ current, (viewAt library workspace parse declared steps n).plugin pluginId = some current ∧
      ∀ executionId, current.pin executionId = plugin.pin executionId := by
  induction n, han using Nat.le_induction with
  | base => exact ⟨plugin, hplugin, fun _ => rfl⟩
  | succ n han ih =>
    obtain ⟨current, hcurrent, hcontent⟩ := ih fun l hl hn => h l hl (hn.trans n.le_succ)
    obtain ⟨after, hafter, hstatus⟩ := h (n + 1) (han.trans n.le_succ) le_rfl
    obtain ⟨hmem, hid⟩ := Table.mem_of_lookup hcurrent
    obtain ⟨hmem', hid'⟩ := Table.mem_of_lookup hafter
    obtain ⟨pluginCall, hstep, -⟩ := pluginStep_at library workspace parse declared steps n
    have hsound := (sound_systemAt library workspace parse declared steps n).plugins
    have hinactive : after.status ≠ .active := by
      rw [hstatus]
      decide
    have hkeeps := hstep.content_of_inactive hsound hmem hmem' (hid'.trans hid.symm) hinactive
    exact ⟨after, hafter, fun executionId =>
      (hkeeps.content executionId).trans (hcontent executionId)⟩

/-- How a client comes into a phase in which it relies on what it has read. -/
def RemovalPhase.Arrives (parse : String → Option YamlValue) (declared : String → List String)
    (core : CoreTables) (phase : RemovalPhase) : RemovalPhase → Prop
  | found plugin => phase = requested plugin.id ∧ core.view.plugin plugin.id = some plugin
  | declaring plugin => phase = found plugin
  | listing pluginId nodeTypes => ∃ plugin, phase = declaring plugin ∧ pluginId = plugin.id ∧
    nodeTypes = declared plugin.manifestPath
  | scanning pluginId nodeTypes todo affected =>
    (phase = listing pluginId nodeTypes ∧ affected = [] ∧
        todo = core.listWorkflows.map fun workflow => workflow.id) ∨
      ∃ id workflow, core.workflow id = some workflow ∧
        ((phase = scanning pluginId nodeTypes (id :: todo) affected ∧
            workflowReferences parse workflow.source nodeTypes = .ok false) ∨
          ∃ before, phase = scanning pluginId nodeTypes (id :: todo) before ∧
            affected = before ++ [id])
  | publishing pluginId affected => ∃ nodeTypes, phase = scanning pluginId nodeTypes [] affected
  | counted pluginId rest =>
    phase = entered pluginId rest ∧ core.view.isPinned pluginId = false
  | listed plugin rest =>
    phase = counted plugin.id rest ∧ core.view.plugin plugin.id = some plugin
  | _ => True

namespace RemovalPhase

variable {core : CoreTables}

theorem isPinned_eq_false_of_count {tables : Tables} {id : String}
    (h : tables.pluginExecutionPinCount id = 0) : tables.isPinned id = false := by
  rw [Tables.pluginExecutionPinCount, List.countP_eq_zero] at h
  rw [Tables.isPinned, List.any_eq_false]
  exact h

theorem arrives_scan (core : CoreTables) (pluginId : String) (nodeTypes : List String) (id : String)
    (todo affected : List String) :
    (scanning pluginId nodeTypes (id :: todo) affected).Arrives parse declared core
      (scan parse core pluginId nodeTypes id todo affected) := by
  rw [scan]
  split
  · trivial
  · next workflow hworkflow =>
    split
    · trivial
    · exact .inr ⟨id, workflow, hworkflow, .inr ⟨affected, rfl, rfl⟩⟩
    · next hreferences => exact .inr ⟨id, workflow, hworkflow, .inl ⟨rfl, hreferences⟩⟩

theorem arrives_next (answers : RemovalAnswers) (core : CoreTables) (phase : RemovalPhase) :
    phase.Arrives parse declared core (phase.next parse declared answers core) := by
  cases phase with
  | requested id =>
    rw [next]
    split
    · trivial
    · next plugin hplugin =>
      obtain ⟨-, rfl⟩ := Table.mem_of_lookup hplugin
      exact ⟨rfl, hplugin⟩
  | found plugin =>
    rw [next]
    split
    · trivial
    · split
      · trivial
      · rfl
  | resumed id =>
    rw [next]
    split <;> trivial
  | declaring plugin => exact ⟨plugin, rfl, rfl, rfl⟩
  | listing id nodeTypes =>
    rw [next]
    split
    · trivial
    · exact .inl ⟨rfl, rfl, rfl⟩
  | scanning id nodeTypes todo affected =>
    cases todo with
    | cons workflowId todo => exact arrives_scan core id nodeTypes workflowId todo affected
    | nil =>
      rw [next]
      split
      · trivial
      · exact ⟨nodeTypes, rfl⟩
  | publishing id affected =>
    rw [next]
    split
    · trivial
    · split <;> trivial
  | reconciling todo results =>
    cases todo with
    | nil => trivial
    | cons id todo =>
      rw [next]
      split
      · trivial
      · split <;> trivial
  | pending id todo results =>
    rw [next]
    split <;> trivial
  | entered id rest =>
    rw [next]
    split
    · trivial
    · exact ⟨rfl, isPinned_eq_false_of_count (by omega)⟩
  | counted id rest =>
    rw [next]
    split
    · trivial
    · next plugin hplugin =>
      obtain ⟨-, rfl⟩ := Table.mem_of_lookup hplugin
      exact ⟨rfl, hplugin⟩
  | deleted id outcome rest =>
    cases outcome with
    | ok =>
      rw [next]
      split <;> trivial
    | error category =>
      rw [next]
      cases core.view.markPluginRemovalFailed id category <;> trivial
  | unfinalized id rest =>
    rw [next]
    cases core.view.markPluginRemovalFailed id "storage finalization failed" <;> trivial
  | counting id status rest => cases rest <;> trivial
  | idle => trivial
  | resuming id => trivial
  | listed plugin rest => trivial
  | reporting id rest => trivial
  | finished result => trivial

theorem arrives_failed {error : String} {phase phase' : RemovalPhase}
    (h : phase.failed error = some phase') (core : CoreTables) :
    phase.Arrives parse declared core phase' := by
  rw [failed.eq_def] at h
  split at h
  · cases h
    trivial
  · cases h
  · cases h
  · cases h
  · cases h
  · cases h
    trivial

end RemovalPhase

theorem RemovalStep.arrives_nextPhase (system : RemovalSystem) (client : Nat)
    (answers : RemovalAnswers) :
    (system.phase client).Arrives parse declared system.core
      (RemovalStep.nextPhase parse declared system client answers) := by
  rw [RemovalStep.nextPhase]
  split
  · next phase hphase =>
    obtain ⟨error, -, hfailed⟩ := Option.bind_eq_some_iff.mp hphase
    exact RemovalPhase.arrives_failed hfailed system.core
  · exact RemovalPhase.arrives_next answers system.core _

/-- What a step does to the phase of a client. -/
theorem RemovalStep.phase_apply (system : RemovalSystem) (step : RemovalStep) (client : Nat) :
    (step.apply library workspace parse declared system).phase client = system.phase client ∨
      (system.phase client).Arrives parse declared system.core
        ((step.apply library workspace parse declared system).phase client) := by
  cases step with
  | call c => exact .inl rfl
  | request other id =>
    by_cases hclient : client = other
    · subst hclient
      refine .inr ?_
      dsimp only [RemovalStep.apply]
      rw [Function.update_self]
      trivial
    · exact .inl (Function.update_of_ne hclient _ _)
  | reconcile other =>
    by_cases hclient : client = other
    · subst hclient
      refine .inr ?_
      dsimp only [RemovalStep.apply]
      rw [Function.update_self]
      split <;> trivial
    · exact .inl (Function.update_of_ne hclient _ _)
  | advance other answers =>
    by_cases hclient : client = other
    · subst hclient
      refine .inr ?_
      dsimp only [RemovalStep.apply]
      rw [Function.update_self]
      exact RemovalStep.arrives_nextPhase system client answers
    · exact .inl (Function.update_of_ne hclient _ _)

theorem phase_at_succ (n client : Nat) :
    (systemAt library workspace parse declared steps (n + 1)).phase client =
        (systemAt library workspace parse declared steps n).phase client ∨
      ((systemAt library workspace parse declared steps n).phase client).Arrives parse declared
        (systemAt library workspace parse declared steps n).core
        ((systemAt library workspace parse declared steps (n + 1)).phase client) := by
  cases hstep : steps[n]? with
  | none =>
    rw [systemAt_of_none library workspace parse declared steps hstep]
    exact .inl rfl
  | some step =>
    rw [systemAt_succ library workspace parse declared steps hstep]
    exact step.phase_apply _ client

/-! ### Pinned content -/

theorem phase_systemAt_zero (client : Nat) :
    (systemAt library workspace parse declared steps 0).phase client = .idle := rfl

/-- A client that has seen no pin saw none at an earlier position. -/
theorem exists_check_of_counted {client : Nat} {rest : Continuation}
    (h : (systemAt library workspace parse declared steps n).phase client =
      .counted pluginId rest) :
    ∃ a < n,
      (systemAt library workspace parse declared steps a).phase client = .entered pluginId rest ∧
        (viewAt library workspace parse declared steps a).isPinned pluginId = false := by
  induction n with
  | zero => cases h
  | succ n ih =>
    obtain hsame | harrives := phase_at_succ n client
    · obtain ⟨a, ha, hphase⟩ := ih (hsame.symm.trans h)
      exact ⟨a, ha.trans n.lt_succ_self, hphase⟩
    · rw [h] at harrives
      exact ⟨n, n.lt_succ_self, harrives⟩

/-- A client that is about to delete files has seen no pin and has read the installation since. -/
theorem exists_read_of_listed {client : Nat} {plugin : PluginRow} {rest : Continuation}
    (h : (systemAt library workspace parse declared steps n).phase client = .listed plugin rest) :
    ∃ a b, a < b ∧ b < n ∧
      (systemAt library workspace parse declared steps a).phase client = .entered plugin.id rest ∧
      (viewAt library workspace parse declared steps a).isPinned plugin.id = false ∧
      (viewAt library workspace parse declared steps b).plugin plugin.id = some plugin := by
  induction n with
  | zero => cases h
  | succ n ih =>
    obtain hsame | harrives := phase_at_succ n client
    · obtain ⟨a, b, hab, hb, hread⟩ := ih (hsame.symm.trans h)
      exact ⟨a, b, hab, hb.trans n.lt_succ_self, hread⟩
    · rw [h] at harrives
      obtain ⟨hcounted, hread⟩ := harrives
      obtain ⟨a, ha, hentered, hpins⟩ := exists_check_of_counted hcounted
      exact ⟨a, n, ha, n.lt_succ_self, hentered, hpins, hread⟩

end System

section Content

variable (library : TimeLibrary) (workspace : Workspace) (parse : String → Option YamlValue)
  (declared : String → List String) (steps : List RemovalStep)

/-- Over every run, with any number of clients that run `request_removal` or
`reconcile_pending_removals`. A pin names the content of an installed plugin. A plugin that is not
active is disabled and gets no new pin. A row is deleted without pins only, by the finalization of a
pending removal or by `remove_plugin_install` of an active plugin. A client that is about to delete
files has seen no pin, and if the plugin is pending removal since then, the files are still those of
the plugin and it has no pin. -/
theorem pinned_plugins_keep_their_content (n : Nat) :
    (∀ pin ∈ (viewAt library workspace parse declared steps n).pins, ∃ plugin,
      (viewAt library workspace parse declared steps n).plugin pin.pluginId = some plugin ∧
        plugin.version = pin.version ∧ plugin.digest = pin.digest ∧
        plugin.manifestPath = pin.manifestPath) ∧
    (∀ plugin ∈ (viewAt library workspace parse declared steps n).plugins,
      plugin.status ≠ .active → plugin.enabled = false ∧
        ∀ pin ∈ (viewAt library workspace parse declared steps (n + 1)).pins,
          pin.pluginId = plugin.id →
            pin ∈ (viewAt library workspace parse declared steps n).pins) ∧
    (∀ plugin ∈ (viewAt library workspace parse declared steps n).plugins,
      (viewAt library workspace parse declared steps (n + 1)).plugin plugin.id = none →
        (viewAt library workspace parse declared steps n).isPinned plugin.id = false ∧
        ∃ step call, steps[n]? = some step ∧
          step.coreCall (systemAt library workspace parse declared steps n) = some call ∧
          call.Deletes plugin) ∧
    (∀ client plugin rest,
      (systemAt library workspace parse declared steps n).phase client = .listed plugin rest →
        ∃ a < n,
          (systemAt library workspace parse declared steps a).phase client =
              .entered plugin.id rest ∧
            (viewAt library workspace parse declared steps a).isPinned plugin.id = false ∧
            (PendingBetween library workspace parse declared steps plugin.id a n →
              ∃ current,
                (viewAt library workspace parse declared steps n).plugin plugin.id = some current ∧
                  current.status = .pendingRemoval ∧
                  current.manifestPath = plugin.manifestPath ∧
                  (viewAt library workspace parse declared steps n).isPinned plugin.id =
                    false)) := by
  have hsound := (sound_systemAt library workspace parse declared steps n).plugins
  obtain ⟨pluginCall, hstep, hdeletes⟩ := pluginStep_at library workspace parse declared steps n
  refine ⟨fun pin hpin => ?_, fun plugin hplugin hinactive => ?_, fun plugin hplugin hgone => ?_,
    fun client plugin rest hphase => ?_⟩
  · obtain ⟨plugin, hplugin, hcontent⟩ := hsound.pinned pin hpin
    refine ⟨plugin, ?_, ?_⟩
    · rw [hcontent]
      exact Table.lookup_of_mem hsound.ids hplugin
    · rw [hcontent]
      exact ⟨rfl, rfl, rfl⟩
  · exact ⟨hsound.disabled plugin hplugin hinactive,
      fun pin hpin hid => hstep.no_new_pin hsound hplugin hinactive hpin hid⟩
  · obtain ⟨plugin', hplugin', hid⟩ | ⟨hcall, hpins⟩ := hstep.kept plugin hplugin
    · exact absurd hid (Table.lookup_eq_none.mp hgone plugin' hplugin')
    · exact ⟨hpins.1, hdeletes plugin hcall⟩
  · obtain ⟨a, b, hab, hbn, hentered, hpins, hread⟩ := exists_read_of_listed hphase
    refine ⟨a, hab.trans hbn, hentered, hpins, fun hpending => ?_⟩
    have hsince : PendingBetween library workspace parse declared steps plugin.id b n :=
      fun l hl hn => hpending l (hab.le.trans hl) hn
    obtain ⟨current, hcurrent, hstatus⟩ := hpending n (hab.trans hbn).le le_rfl
    obtain ⟨current', hcurrent', hcontent⟩ := hsince.content hbn.le hread
    obtain rfl : current = current' := Option.some.inj (hcurrent.symm.trans hcurrent')
    exact ⟨current, hcurrent, hstatus, congrArg PinRow.manifestPath (hcontent ""),
      hpending.isPinned_eq_false (hab.trans hbn).le hpins⟩

end Content

/-- A plugin is installed and removed by `remove_plugin_install`. -/
def uninstallSteps : List RemovalStep :=
  [.call (.plugin (.upsert samplePlugin) trivial), .call (.plugin (.removeInstall "p") trivial)]

/-- The row of the active plugin is removed. -/
theorem active_plugin_is_removed :
    (viewAt emptyLibrary emptyWorkspace (fun _ => none) (fun _ => []) uninstallSteps 1).plugin "p" =
        some samplePlugin.row ∧
      samplePlugin.row.status = .active ∧
      (viewAt emptyLibrary emptyWorkspace (fun _ => none) (fun _ => []) uninstallSteps 2).plugin
        "p" = none := by
  decide +kernel

end KakuneCore
