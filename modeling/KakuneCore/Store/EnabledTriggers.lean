import KakuneCore.Planner.Compile
import KakuneCore.Store.Workflows

/-!
# Triggers of enabled workflows

Creating, replacing and updating an enabled workflow check its triggers first. The two calls that
only set the status do not look at the source, so a workflow that was stored disabled is enabled
with whatever triggers it has. In runs in which **enabling finds triggers that pass**, the triggers
of every enabled workflow pass.
-/

namespace KakuneCore

section EnabledTriggers

variable (library : TimeLibrary) (workspace : Workspace) (decode : String → Option WorkflowDocument)

/-- The calls publish the document that their source decodes to. -/
def CoreCall.Decodes : CoreCall → Prop
  | createWorkflow workflow source _ _ | upsertWorkflow workflow source _ _
  | updateWorkflowIfRevision workflow source _ _ => decode source = some workflow
  | _ => True

/-- The triggers of a source pass at a moment. -/
def TriggersPass (source : String) (moment : Instant) : Prop :=
  ∃ workflow, decode source = some workflow ∧
    validateEnabledTriggers library workspace moment workflow = .ok ()

/-- A call that enables a stored workflow finds triggers that pass. -/
def CoreCall.EnablesValid (core : CoreTables) : CoreCall → Prop
  | setWorkflowStatus id status draw =>
    ∀ workflow, core.workflow id = some workflow → status = "enabled" →
      workflow.status ≠ "enabled" →
        TriggersPass library workspace decode workflow.source draw.moment
  | setWorkflowStatusIfRevision id status expectedRevision draw =>
    ∀ workflow, core.workflow id = some workflow → status = "enabled" →
      workflow.status ≠ "enabled" → workflow.revision = expectedRevision →
      TriggersPass library workspace decode workflow.source draw.moment
  | _ => True

/-- Every enabled workflow has triggers that passed at some moment. -/
structure CoreTables.TriggersChecked (core : CoreTables) : Prop where
  sourced : core.Sourced
  checked : ∀ workflow ∈ core.workflows, workflow.status = "enabled" →
    ∃ moment, TriggersPass library workspace decode workflow.source moment

variable {library workspace decode} {core core' : CoreTables}

/-- A call that sets the status to `enabled` in a run that meets the condition. -/
theorem CoreCall.SetsStatus.passes {call : CoreCall} {id : String} {workflow : StoredWorkflow}
    (h : call.SetsStatus core id "enabled")
    (hcondition : call.EnablesValid library workspace decode core)
    (hworkflow : core.workflow id = some workflow) (hstatus : workflow.status ≠ "enabled") :
    ∃ moment, TriggersPass library workspace decode workflow.source moment := by
  cases h with
  | always => exact ⟨_, hcondition workflow hworkflow rfl hstatus⟩
  | ifRevision hcurrent =>
    rw [hworkflow] at hcurrent
    obtain rfl := Option.some_injective _ hcurrent
    exact ⟨_, hcondition workflow hworkflow rfl hstatus rfl⟩

/-- The document a call publishes is the one its source decodes to. -/
theorem CoreCall.Publishes.decode_eq {call : CoreCall} {workflow : WorkflowDocument}
    {source status : String} {draw : WorkflowDraw}
    (h : call.Publishes core workflow source status draw) (hdecodes : call.Decodes decode) :
    decode source = some workflow := by
  cases h <;> exact hdecodes

theorem CoreCall.triggersChecked_apply
    (hcore : core.TriggersChecked library workspace decode) (call : CoreCall)
    (hdecodes : call.Decodes decode)
    (hcondition : call.EnablesValid library workspace decode core) :
    (call.apply library workspace core).TriggersChecked library workspace decode := by
  refine ⟨CoreCall.sourced_apply hcore.sourced call, fun workflow hworkflow henabled => ?_⟩
  have hchange : CoreChange library workspace call core (call.apply library workspace core) :=
    call.apply_cases hcore.sourced.ids
  cases hchange with
  | same heq =>
    rw [heq] at hworkflow
    exact hcore.checked workflow hworkflow henabled
  | @published document source status draw hpublishes hvalid hpublished =>
    obtain rfl | ⟨hold, -⟩ := hpublished.rows workflow hworkflow
    · have hstatus : status = "enabled" := henabled
      rw [CoreTables.validateIfEnabled, if_pos hstatus] at hvalid
      exact ⟨draw.moment, document, hpublishes.decode_eq hdecodes, hvalid⟩
    · exact hcore.checked workflow hold henabled
  | status hsets _ hp hwritten _ =>
    rw [hwritten.workflows, Table.mem_updateWhere] at hworkflow
    obtain ⟨hold, -⟩ | ⟨old, hold, hselected, rfl⟩ := hworkflow
    · exact hcore.checked workflow hold henabled
    · by_cases hbefore : old.status = "enabled"
      · exact hcore.checked old hold hbefore
      · have hlookup := Table.lookup_of_mem hcore.sourced.ids hold
        rw [hp old hselected] at hlookup
        simp only at henabled
        subst henabled
        obtain ⟨moment, hpass⟩ := hsets.passes hcondition hlookup hbefore
        exact ⟨moment, hpass⟩
  | removal _ _ hwritten =>
    rw [hwritten.workflows, Table.mem_updateWhere] at hworkflow
    obtain ⟨hold, -⟩ | ⟨old, -, -, rfl⟩ := hworkflow
    · exact hcore.checked workflow hold henabled
    · exact absurd henabled (by simp)
  | plugin _ heq =>
    rw [heq] at hworkflow
    exact hcore.checked workflow hworkflow henabled

end EnabledTriggers

/-- **Enabled workflows have valid triggers** in every state of a run in which the calls that enable
a stored workflow find triggers that pass. They go on to pass as long as every cron trigger has an
occurrence left, which is all the checks ask of the clock. -/
theorem enabled_workflows_have_valid_triggers (library : TimeLibrary) (workspace : Workspace)
    (decode : String → Option WorkflowDocument) (calls : List CoreCall)
    (hdecodes : ∀ call ∈ calls, call.Decodes decode)
    (hcondition : Runs.Meets (CoreCall.apply library workspace)
      (fun core call => call.EnablesValid library workspace decode core) {} calls) :
    ∀ workflow ∈ (coreTables library workspace calls).workflows, workflow.status = "enabled" →
      ∃ document, decode workflow.source = some document ∧
        (∃ moment, validateEnabledTriggers library workspace moment document = .ok ()) ∧
        ∀ now, HasCronOccurrences library now document →
          validateEnabledTriggers library workspace now document = .ok () := by
  have hchecked : (coreTables library workspace calls).TriggersChecked library workspace decode :=
    (hcondition.and_forall hdecodes).invariant ⟨CoreTables.sourced_empty, nofun⟩
      fun core call h hc => call.triggersChecked_apply h hc.1 hc.2
  intro workflow hworkflow henabled
  obtain ⟨moment, document, hdecode, hpass⟩ := hchecked.checked workflow hworkflow henabled
  exact ⟨document, hdecode, ⟨moment, hpass⟩, fun now hcron =>
    validateEnabledTriggers_of_hasCronOccurrences hpass hcron⟩

/-- A workflow with one interval trigger. -/
def intervalDocument (everySeconds : Int) : WorkflowDocument :=
  { sampleDocument "a" [{ id := "a", nodeType := "kakune.flow.pass@1" }] with
    triggers := [{ id := "t", nodeType := "kakune.trigger.interval@1",
                   config := [("everySeconds", .number (.int everySeconds))] }] }

/-- The sources of the concrete runs. -/
def intervalSource : String → Option WorkflowDocument
  | "every minute" => some (intervalDocument 60)
  | "every 0 seconds" => some (intervalDocument 0)
  | _ => none

/-- A workflow is stored disabled and enabled later. -/
def enabledCalls (document : WorkflowDocument) (source : String) : List CoreCall :=
  [.createWorkflow document source "disabled" (sampleDraw "r1"),
    .setWorkflowStatus "sample" "enabled" (sampleDraw "r2")]

theorem enabledCalls_have_valid_triggers :
    validateEnabledTriggers emptyLibrary emptyWorkspace 0 (intervalDocument 60) = .ok () := by
  obtain ⟨document, hdecode, -, hpass⟩ := enabled_workflows_have_valid_triggers emptyLibrary
    emptyWorkspace intervalSource (enabledCalls (intervalDocument 60) "every minute")
    (by simp [enabledCalls, CoreCall.Decodes, intervalSource])
    ⟨trivial, fun workflow hworkflow _ _ => by
      obtain ⟨hmem, -⟩ := Table.mem_of_lookup hworkflow
      obtain rfl := List.mem_singleton.mp hmem
      exact ⟨intervalDocument 60, rfl, rfl⟩, trivial⟩
    { id := "sample", name := "Sample", status := "enabled", revision := "r1",
      updatedAt := "2026-01-01T00:00:00Z", source := "every minute" }
    (by decide) rfl
  obtain rfl := Option.some_injective _ hdecode
  exact hpass 0 (by
    intro trigger htrigger hkind
    obtain rfl := List.mem_singleton.mp htrigger
    exact absurd hkind (by decide))

/-- The interval of zero seconds passes the analysis, and the call that enables does not look at
it. -/
theorem enabled_workflow_has_invalid_trigger :
    (compile (intervalDocument 0) []).toBool = true ∧
      (coreTables emptyLibrary emptyWorkspace
        (enabledCalls (intervalDocument 0) "every 0 seconds")).workflows.map
          (fun workflow => (workflow.status, workflow.source)) = [("enabled", "every 0 seconds")] ∧
      (validateEnabledTriggers emptyLibrary emptyWorkspace 0 (intervalDocument 0)).toBool =
        false := by
  decide

end KakuneCore
