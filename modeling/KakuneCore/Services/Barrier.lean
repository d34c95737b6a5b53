import KakuneCore.Services.Removal

/-!
# The removal barrier

`request_removal` looks for the workflows that use the node types of the plugin, one store call for
each of them, and then publishes the barrier: the plugin is pending removal, the workflows found are
disabled and listed. What other clients do to workflows in between is not seen, and most writers of
workflows do not look at the barrier afterwards. The steps that **respect** a removal are those that
bring no such workflow past it; in a run of them, no enabled workflow depends on a plugin that is
being removed.
-/

namespace KakuneCore

/-! ### What the scan finds -/

namespace YamlValue

/-- A node with one of the types occurs in the document. The scan does not look below tags. -/
inductive Mentions (belowTags : Prop) (nodeTypes : List String) : YamlValue → Prop
  | here {entries : List (Option String × YamlValue)} {value : YamlValue} {kind : String} :
      (some "type", value) ∈ entries → value.asStr = some kind → kind ∈ nodeTypes →
      Mentions belowTags nodeTypes (mapping entries)
  | entry {entries : List (Option String × YamlValue)} {key : Option String} {value : YamlValue} :
      (key, value) ∈ entries → Mentions belowTags nodeTypes value →
      Mentions belowTags nodeTypes (mapping entries)
  | item {values : List YamlValue} {value : YamlValue} :
      value ∈ values → Mentions belowTags nodeTypes value →
      Mentions belowTags nodeTypes (sequence values)
  | tag {value : YamlValue} :
      belowTags → Mentions belowTags nodeTypes value → Mentions belowTags nodeTypes (tagged value)

/-- What a document mentions is not below tags only. -/
def Exposes (nodeTypes : List String) (value : YamlValue) : Prop :=
  value.Mentions True nodeTypes → value.Mentions False nodeTypes

variable {nodeTypes : List String}

@[simp]
theorem exposes_string (text : String) : (string text).Exposes nodeTypes := by
  intro h
  cases h

@[simp]
theorem exposes_sequence {values : List YamlValue} (h : ∀ value ∈ values, value.Exposes nodeTypes) :
    (sequence values).Exposes nodeTypes := by
  intro hmentions
  cases hmentions with
  | item hvalue hmentions => exact .item hvalue (h _ hvalue hmentions)

theorem exposes_mapping {entries : List (Option String × YamlValue)}
    (h : ∀ entry ∈ entries, entry.2.Exposes nodeTypes) : (mapping entries).Exposes nodeTypes := by
  intro hmentions
  cases hmentions with
  | here hentry hkind hmem => exact .here hentry hkind hmem
  | entry hentry hmentions => exact .entry hentry (h _ hentry hmentions)

theorem visitEntries_eq_ok_false {depth : Nat} {entries : List (Option String × YamlValue)}
    (h : visitEntries nodeTypes depth entries = .ok false) {key : Option String} {value : YamlValue}
    (hentry : (key, value) ∈ entries) :
    visit nodeTypes (depth + 1) value = .ok false ∧
      ∀ kind, key = some "type" → value.asStr = some kind → kind ∉ nodeTypes := by
  induction entries with
  | nil => cases hentry
  | cons first entries ih =>
    obtain ⟨firstKey, firstValue⟩ := first
    rw [visitEntries] at h
    split at h
    · cases h
    · next hother =>
      split at h
      · next hfirst =>
        rcases List.mem_cons.mp hentry with heq | hentry
        · obtain ⟨rfl, rfl⟩ := Prod.mk.inj heq
          refine ⟨hfirst, fun kind hkey hkind hmem => hother ?_⟩
          simp [hkey, hkind, hmem]
        · exact ih h hentry
      · next hfound => exact absurd h hfound

theorem visitItems_eq_ok_false {depth : Nat} {values : List YamlValue}
    (h : visitItems nodeTypes depth values = .ok false) {value : YamlValue}
    (hvalue : value ∈ values) : visit nodeTypes (depth + 1) value = .ok false := by
  induction values with
  | nil => cases hvalue
  | cons first values ih =>
    rw [visitItems] at h
    split at h
    · next hfirst =>
      rcases List.mem_cons.mp hvalue with rfl | hvalue
      · exact hfirst
      · exact ih h hvalue
    · next hfound => exact absurd h hfound

/-- A scan that finds nothing is right, tags apart. -/
theorem not_mentions_of_visit {depth : Nat} {value : YamlValue}
    (h : visit nodeTypes depth value = .ok false) : ¬value.Mentions False nodeTypes := by
  intro hmentions
  induction hmentions generalizing depth with
  | here hentry hkind hmem =>
    rw [visit] at h
    split at h
    · cases h
    · exact (visitEntries_eq_ok_false h hentry).2 _ rfl hkind hmem
  | entry hentry _ ih =>
    rw [visit] at h
    split at h
    · cases h
    · exact ih (visitEntries_eq_ok_false h hentry).1
  | item hvalue _ ih =>
    rw [visit] at h
    split at h
    · cases h
    · exact ih (visitItems_eq_ok_false h hvalue)
  | tag hfalse _ _ => exact hfalse

end YamlValue

/-- The source of a workflow uses one of the node types. -/
def UsesType (parse : String → Option YamlValue) (source : String) (nodeTypes : List String) :
    Prop :=
  ∃ value, parse source = some value ∧ value.Mentions True nodeTypes

/-- What a source uses is not below tags only. -/
def ShowsUses (parse : String → Option YamlValue) (source : String) (nodeTypes : List String) :
    Prop :=
  ∀ value, parse source = some value → value.Exposes nodeTypes

theorem not_usesType_of_workflowReferences {parse : String → Option YamlValue} {source : String}
    {nodeTypes : List String} (h : workflowReferences parse source nodeTypes = .ok false)
    (hshows : ShowsUses parse source nodeTypes) : ¬UsesType parse source nodeTypes := by
  rintro ⟨value, hvalue, hmentions⟩
  rw [workflowReferences] at h
  split at h
  · cases h
  · rw [hvalue] at h
    exact YamlValue.not_mentions_of_visit h (hshows value hvalue hmentions)

/-! ### Steps that respect a removal -/

/-- The removal of the plugin is pending or has failed. -/
def PluginRow.InRemoval (plugin : PluginRow) : Prop :=
  plugin.status = .pendingRemoval ∨ plugin.status = .removalFailed

theorem PluginRow.inRemoval_iff {plugin : PluginRow} :
    plugin.InRemoval ↔ plugin.status ≠ .active := by
  rw [InRemoval]
  cases plugin.status <;> simp

/-- The call leaves the workflow `id` enabled, with the source. -/
inductive CoreCall.Enables (core : CoreTables) (call : CoreCall) : String → String → Prop
  | publish {workflow : WorkflowDocument} {source : String} {draw : WorkflowDraw} :
      call.Publishes core workflow source "enabled" draw →
      Enables core call workflow.metadata.id source
  | status {id : String} {workflow : StoredWorkflow} :
      call.SetsStatus core id "enabled" → core.workflow id = some workflow →
      Enables core call id workflow.source

namespace RemovalPhase

/-- The plugin whose removal a client prepares. -/
def target : RemovalPhase → Option String
  | found plugin | declaring plugin => some plugin.id
  | listing pluginId _ | scanning pluginId _ _ _ | publishing pluginId _ => some pluginId
  | _ => none

/-- The workflows that a client has found, or has still to look at. -/
def reviewed : RemovalPhase → Option (String × List String)
  | scanning pluginId _ todo affected => some (pluginId, todo ++ affected)
  | publishing pluginId affected => some (pluginId, affected)
  | _ => none

end RemovalPhase

section Barrier

variable (parse : String → Option YamlValue) (declared : String → List String)

/-- What a call must not do to a removal. -/
structure CoreCall.Respects (system : RemovalSystem) (call : CoreCall) : Prop where
  /-- `request_plugin_removal` is called with what a review has found. -/
  review : ∀ pluginId workflowIds timestamp,
    call = .requestPluginRemoval pluginId workflowIds timestamp →
      ∃ client, system.phase client = .publishing pluginId workflowIds
  /-- A plugin is not installed while its removal is prepared. -/
  installs : ∀ install h, call = .plugin (.upsert install) h →
    ∀ client, (system.phase client).target ≠ some install.id
  /-- No source is published as enabled for a workflow that is listed. Only `upsert_workflow` could
  do so. -/
  listed : ∀ workflow source draw, call.Publishes system.core workflow source "enabled" draw →
    ∀ plugin ∈ system.core.view.plugins, plugin.InRemoval →
      (plugin.id, workflow.metadata.id) ∉ system.core.view.removalWorkflows
  /-- An enabled source uses no plugin that is being removed. -/
  unused : ∀ id source, call.Enables system.core id source →
    ∀ plugin ∈ system.core.view.plugins, plugin.InRemoval →
      ¬UsesType parse source (declared plugin.manifestPath)
  /-- An enabled source that uses a plugin under review belongs to a workflow the review found, or
  has still to look at. -/
  reviewed : ∀ id source, call.Enables system.core id source →
    ∀ client ids, ∀ plugin ∈ system.core.view.plugins,
      (system.phase client).reviewed = some (plugin.id, ids) →
        UsesType parse source (declared plugin.manifestPath) → id ∈ ids

/-- The condition on the steps of a run. -/
def RemovalStep.Respects (system : RemovalSystem) : RemovalStep → Prop
  | .call c => c.Respects parse declared system
  | request _ _ | reconcile _ => True
  | advance client _ => ∀ pluginId nodeTypes id todo affected workflow,
      system.phase client = .scanning pluginId nodeTypes (id :: todo) affected →
        system.core.workflow id = some workflow → ShowsUses parse workflow.source nodeTypes

/-! ### The invariant -/

/-- Every enabled workflow that uses the plugin is one of `ids`. -/
def Covers (workflows : List StoredWorkflow) (plugin : PluginRow) (ids : List String) : Prop :=
  ∀ workflow ∈ workflows, workflow.status = "enabled" →
    UsesType parse workflow.source (declared plugin.manifestPath) → workflow.id ∈ ids

/-- What a client that prepares the removal of a plugin knows about it. -/
def RemovalPhase.Reviews (workflows : List StoredWorkflow) (plugin : PluginRow) :
    RemovalPhase → Prop
  | found read | declaring read => read.id = plugin.id → read.manifestPath = plugin.manifestPath
  | listing id nodeTypes => id = plugin.id → nodeTypes = declared plugin.manifestPath
  | scanning id nodeTypes todo affected => id = plugin.id →
    nodeTypes = declared plugin.manifestPath ∧
      Covers parse declared workflows plugin (todo ++ affected)
  | publishing id affected => id = plugin.id → Covers parse declared workflows plugin affected
  | _ => True

/-- No enabled workflow depends on a plugin that is being removed, and the reviews are right. -/
structure RemovalSystem.Guarded (system : RemovalSystem) : Prop where
  sound : system.Sound
  /-- Workflows are listed for plugins that are being removed. -/
  listed : ∀ removal ∈ system.core.view.removalWorkflows,
    ∃ plugin ∈ system.core.view.plugins, plugin.id = removal.1 ∧ plugin.status ≠ .active
  unlisted : ∀ workflow ∈ system.core.workflows, workflow.status = "enabled" →
    ∀ removal ∈ system.core.view.removalWorkflows, removal.2 ≠ workflow.id
  unused : ∀ workflow ∈ system.core.workflows, workflow.status = "enabled" →
    ∀ plugin ∈ system.core.view.plugins, plugin.status ≠ .active →
      ¬UsesType parse workflow.source (declared plugin.manifestPath)
  reviews : ∀ client, ∀ plugin ∈ system.core.view.plugins,
    (system.phase client).Reviews parse declared system.core.workflows plugin

variable {parse declared} {workflows workflows' : List StoredWorkflow} {plugin plugin' : PluginRow}
  {phase : RemovalPhase}

namespace RemovalPhase

theorem reviews_of_target (h : phase.target ≠ some plugin.id) :
    phase.Reviews parse declared workflows plugin := by
  cases phase with
  | found read => exact fun hid => absurd (congrArg some hid) h
  | declaring read => exact fun hid => absurd (congrArg some hid) h
  | listing id nodeTypes => exact fun hid => absurd (congrArg some hid) h
  | scanning id nodeTypes todo affected => exact fun hid => absurd (congrArg some hid) h
  | publishing id affected => exact fun hid => absurd (congrArg some hid) h
  | _ => trivial

/-- A review stays right while the plugin keeps its content and every workflow that comes to be
enabled is covered. -/
theorem Reviews.mono (h : phase.Reviews parse declared workflows plugin)
    (hid : plugin'.id = plugin.id) (hpath : plugin'.manifestPath = plugin.manifestPath)
    (hcovers : ∀ ids, phase.reviewed = some (plugin.id, ids) →
      Covers parse declared workflows plugin ids → Covers parse declared workflows' plugin ids) :
    phase.Reviews parse declared workflows' plugin' := by
  have hcovers' : ∀ ids, phase.reviewed = some (plugin.id, ids) →
      Covers parse declared workflows plugin ids →
        Covers parse declared workflows' plugin' ids := by
    intro ids hids hold
    rw [Covers, hpath]
    exact hcovers ids hids hold
  cases phase with
  | found read =>
    intro hread
    rw [hpath]
    exact h (hread.trans hid)
  | declaring read =>
    intro hread
    rw [hpath]
    exact h (hread.trans hid)
  | listing id nodeTypes =>
    intro hread
    rw [hpath]
    exact h (hread.trans hid)
  | scanning id nodeTypes todo affected =>
    intro hread
    obtain ⟨htypes, hold⟩ := h (hread.trans hid)
    refine ⟨?_, hcovers' _ ?_ hold⟩
    · rw [hpath]
      exact htypes
    · rw [reviewed, hread.trans hid]
  | publishing id affected =>
    intro hread
    refine hcovers' _ ?_ (h (hread.trans hid))
    rw [reviewed, hread.trans hid]
  | _ => trivial

end RemovalPhase

/-! ### Calls -/

/-- How a workflow comes to be enabled. A workflow whose status was set passed the check for
removals. -/
theorem CoreChange.enabled {library : TimeLibrary} {workspace : Workspace} {core core' : CoreTables}
    {call : CoreCall} (h : CoreChange library workspace call core core')
    (hids : core.UniqueWorkflows) {workflow : StoredWorkflow}
    (hworkflow : workflow ∈ core'.workflows)
    (henabled : workflow.status = "enabled") :
    (∃ old ∈ core.workflows, old.status = "enabled" ∧ old.id = workflow.id ∧
        old.source = workflow.source) ∨
      (call.Enables core workflow.id workflow.source ∧ core'.base = core.base ∧
        ((∃ document draw, call.Publishes core document workflow.source "enabled" draw ∧
            document.metadata.id = workflow.id) ∨
          core.view.ensureWorkflowNotBlocked workflow.id = .ok ())) := by
  cases h with
  | same heq =>
    rw [heq] at hworkflow
    exact .inl ⟨workflow, hworkflow, henabled, rfl, rfl⟩
  | @published document source status draw hcall _ hpublished =>
    obtain rfl | ⟨hold, -⟩ := hpublished.rows workflow hworkflow
    · obtain rfl : status = "enabled" := henabled
      exact .inr ⟨.publish hcall, hpublished.base, .inl ⟨document, draw, hcall, rfl⟩⟩
    · exact .inl ⟨workflow, hold, henabled, rfl, rfl⟩
  | @status id status now p hcall hensure hp hwritten hbase =>
    rw [hwritten.workflows, Table.mem_updateWhere] at hworkflow
    obtain ⟨hold, -⟩ | ⟨old, hold, hselected, rfl⟩ := hworkflow
    · exact .inl ⟨workflow, hold, henabled, rfl, rfl⟩
    · obtain rfl : status = "enabled" := henabled
      obtain rfl : old.id = id := hp old hselected
      have henables : call.Enables core old.id old.source :=
        .status hcall (Table.lookup_of_mem hids hold)
      rw [CoreTables.ensureEnabling, if_pos rfl] at hensure
      exact .inr ⟨henables, hbase, .inr hensure⟩
  | removal _ _ hwritten =>
    rw [hwritten.workflows, Table.mem_updateWhere] at hworkflow
    obtain ⟨hold, -⟩ | ⟨old, -, -, rfl⟩ := hworkflow
    · exact .inl ⟨workflow, hold, henabled, rfl, rfl⟩
    · exact absurd henabled (by simp)
  | plugin _ hcore' =>
    rw [hcore'] at hworkflow
    exact .inl ⟨workflow, hworkflow, henabled, rfl, rfl⟩

/-- A workflow that passes the check is not listed for a plugin that is being removed. -/
theorem Tables.not_listed_of_ensureWorkflowNotBlocked {tables : Tables} {id : String}
    (h : tables.ensureWorkflowNotBlocked id = .ok ()) {removal : String × String}
    (hremoval : removal ∈ tables.removalWorkflows) {plugin : PluginRow}
    (hplugin : plugin ∈ tables.plugins) (hid : plugin.id = removal.1)
    (hinactive : plugin.status ≠ .active) : removal.2 ≠ id := by
  intro hworkflow
  rw [ensureWorkflowNotBlocked, if_pos] at h
  · cases h
  · refine List.any_eq_true.mpr ⟨removal, hremoval, ?_⟩
    rw [Bool.and_eq_true]
    refine ⟨decide_eq_true hworkflow, List.any_eq_true.mpr ⟨plugin, hplugin, ?_⟩⟩
    rw [Bool.and_eq_true]
    exact ⟨decide_eq_true hid, decide_eq_true hinactive⟩

theorem CoreCall.ActsAs.bars {call : CoreCall} {pluginCall : PluginCall}
    (h : call.ActsAs pluginCall) {id : String} (hbars : pluginCall.Bars id) :
    ∃ workflowIds timestamp, call = .requestPluginRemoval id workflowIds timestamp ∧
      pluginCall = .requestRemoval id workflowIds := by
  obtain ⟨workflowIds, rfl⟩ := hbars
  cases h with
  | @plugin _ hkeeps => cases hkeeps
  | @removal _ timestamp _ => exact ⟨workflowIds, timestamp, rfl, rfl⟩

theorem CoreCall.ActsAs.installs {call : CoreCall} {pluginCall : PluginCall}
    (h : call.ActsAs pluginCall) {id : String} (hinstalls : pluginCall.Installs id) :
    ∃ install hkeeps, call = .plugin (.upsert install) hkeeps ∧ install.id = id := by
  obtain ⟨install, rfl, hid⟩ := hinstalls
  cases h with
  | @plugin _ hkeeps => exact ⟨install, hkeeps, rfl, hid⟩

variable {library : TimeLibrary} {workspace : Workspace}

/-- A call that respects the removals keeps the invariant. -/
theorem RemovalSystem.Guarded.call {system : RemovalSystem} (h : system.Guarded parse declared)
    {call : CoreCall} (hcall : call.Respects parse declared system) :
    RemovalSystem.Guarded parse declared
      { system with core := call.apply library workspace system.core } := by
  have hchange : CoreChange library workspace call system.core
      (call.apply library workspace system.core) := call.apply_cases h.sound.sourced.ids
  have hsound : (RemovalStep.apply library workspace parse declared system (.call call)).Sound :=
    RemovalStep.sound_apply library workspace parse declared h.sound (.call call)
  obtain ⟨pluginCall, hacts, hstep, hdisabled⟩ :=
    CoreChange.pluginStep library workspace hchange h.sound.plugins.ids
  -- a workflow that is enabled now is not listed before the call
  have hunlisted : ∀ workflow ∈ (call.apply library workspace system.core).workflows,
      workflow.status = "enabled" →
        ∀ removal ∈ system.core.view.removalWorkflows, removal.2 ≠ workflow.id := by
    intro workflow hworkflow henabled removal hremoval
    obtain ⟨old, hold, holdEnabled, hid, -⟩ | ⟨-, -, hchecked⟩ :=
      hchange.enabled h.sound.sourced.ids hworkflow henabled
    · rw [← hid]
      exact h.unlisted old hold holdEnabled removal hremoval
    · obtain ⟨plugin, hplugin, hid, hinactive⟩ := h.listed removal hremoval
      obtain ⟨document, draw, hpublishes, hdocument⟩ | hensure := hchecked
      · intro heq
        refine hcall.listed _ _ _ hpublishes plugin hplugin
          (PluginRow.inRemoval_iff.mpr hinactive) ?_
        rw [hid, hdocument, ← heq]
        exact hremoval
      · exact Tables.not_listed_of_ensureWorkflowNotBlocked hensure hremoval hplugin hid hinactive
  -- the workflows a client has found, or has still to look at, are enough after the call
  have hcovered : ∀ client, ∀ plugin ∈ system.core.view.plugins, ∀ ids,
      (system.phase client).reviewed = some (plugin.id, ids) →
        Covers parse declared system.core.workflows plugin ids →
          Covers parse declared
            (call.apply library workspace system.core).workflows plugin ids := by
    intro client plugin hplugin ids hids hcovers workflow hworkflow henabled huses
    obtain ⟨old, hold, holdEnabled, hid, hsource⟩ | ⟨henables, -, -⟩ :=
      hchange.enabled h.sound.sourced.ids hworkflow henabled
    · rw [← hid]
      exact hcovers old hold holdEnabled (hsource ▸ huses)
    · exact hcall.reviewed _ _ henables client ids plugin hplugin hids huses
  refine ⟨hsound, fun removal hremoval => ?_,
    fun workflow hworkflow henabled removal hremoval => ?_,
    fun workflow hworkflow henabled plugin hplugin hinactive => ?_, fun client plugin hplugin => ?_⟩
  · obtain hold | ⟨-, hlisted⟩ := hstep.removals removal hremoval
    · obtain ⟨plugin, hplugin, hid, hinactive⟩ := h.listed removal hold
      obtain ⟨plugin', hplugin', hid'⟩ | ⟨-, -, hgone⟩ := hstep.kept plugin hplugin
      · exact ⟨plugin', hplugin', hid'.trans hid,
          hstep.inactive h.sound.plugins hplugin hplugin' hid' hinactive⟩
      · exact absurd hid.symm (hgone removal hremoval)
    · exact hlisted
  · obtain hold | ⟨⟨workflowIds, hlists, hmem⟩, -⟩ := hstep.removals removal hremoval
    · exact hunlisted workflow hworkflow henabled removal hold
    · intro heq
      exact hdisabled _ _ hlists workflow hworkflow henabled (heq ▸ hmem)
  · cases hstep.rows plugin hplugin with
    | new _ hactive _ => exact absurd hactive hinactive
    | replaced _ _ _ _ _ _ hactive => exact absurd hactive hinactive
    | kept old hold hkeeps hbars =>
      have hpath : plugin.manifestPath = old.manifestPath :=
        congrArg PinRow.manifestPath (hkeeps.content "")
      rw [hpath]
      by_cases hactive : old.status = .active
      · -- the removal was just published, with every enabled workflow that uses the plugin
        obtain ⟨workflowIds, timestamp, hremoval, hacted⟩ := hacts.bars (hbars hactive hinactive)
        obtain ⟨client, hphase⟩ := hcall.review _ _ _ hremoval
        have hreviews := h.reviews client old hold
        have hreviewed : (system.phase client).reviewed = some (old.id, workflowIds) := by
          rw [hphase]
          rfl
        rw [hphase] at hreviews
        intro huses
        exact hdisabled _ _ hacted workflow hworkflow henabled
          (hcovered client old hold workflowIds hreviewed (hreviews rfl) workflow hworkflow henabled
            huses)
      · obtain ⟨before, hbefore, hbeforeEnabled, -, hsource⟩ | ⟨henables, -, -⟩ :=
          hchange.enabled h.sound.sourced.ids hworkflow henabled
        · rw [← hsource]
          exact h.unused before hbefore hbeforeEnabled old hold hactive
        · exact hcall.unused _ _ henables old hold (PluginRow.inRemoval_iff.mpr hactive)
  · cases hstep.rows plugin hplugin with
    | new hinstalls _ _ =>
      obtain ⟨install, hkeeps, hinstall, hid⟩ := hacts.installs hinstalls
      refine RemovalPhase.reviews_of_target ?_
      rw [← hid]
      exact hcall.installs install hkeeps hinstall client
    | replaced _ hinstalls _ _ _ _ _ =>
      obtain ⟨install, hkeeps, hinstall, hid⟩ := hacts.installs hinstalls
      refine RemovalPhase.reviews_of_target ?_
      rw [← hid]
      exact hcall.installs install hkeeps hinstall client
    | kept old hold hkeeps _ =>
      refine (h.reviews client old hold).mono hkeeps.id_eq
        (congrArg PinRow.manifestPath (hkeeps.content "")) fun ids hids hcovers => ?_
      exact hcovered client old hold ids hids hcovers

/-! ### Clients -/

/-- A client that goes on keeps its review right. -/
theorem RemovalPhase.Arrives.reviews {core : CoreTables} {phase' : RemovalPhase}
    (h : phase.Arrives parse declared core phase') (hids : core.UniqueWorkflows)
    (hsound : core.view.PluginsSound) (hplugin : plugin ∈ core.view.plugins)
    (hreviews : phase.Reviews parse declared core.workflows plugin)
    (hshows : ∀ pluginId nodeTypes id todo affected workflow,
      phase = .scanning pluginId nodeTypes (id :: todo) affected →
        core.workflow id = some workflow → ShowsUses parse workflow.source nodeTypes) :
    phase'.Reviews parse declared core.workflows plugin := by
  cases phase' with
  | found read =>
    obtain ⟨-, hread⟩ := h
    intro hid
    rw [hsound.eq_of_id (Table.mem_of_lookup hread).1 hplugin hid.symm]
  | declaring read =>
    obtain rfl : phase = .found read := h
    exact hreviews
  | listing id nodeTypes =>
    obtain ⟨read, rfl, rfl, rfl⟩ := h
    intro hid
    rw [hreviews hid]
  | scanning id nodeTypes todo affected =>
    intro hid
    obtain ⟨rfl, rfl, rfl⟩ | ⟨workflowId, found, hfound, hturn⟩ := h
    · refine ⟨hreviews hid, fun workflow hworkflow _ _ => ?_⟩
      rw [List.append_nil]
      exact List.mem_map_of_mem ((List.mem_insertionSort _).mpr hworkflow)
    · obtain ⟨rfl, hreferences⟩ | ⟨before, rfl, rfl⟩ := hturn
      · obtain ⟨htypes, hcovers⟩ := hreviews hid
        refine ⟨htypes, fun workflow hworkflow henabled huses => ?_⟩
        rcases List.mem_cons.mp (hcovers workflow hworkflow henabled huses) with heq | hmem
        · -- the scan has just found no use in this workflow
          have hlookup : core.workflow workflow.id = some workflow :=
            Table.lookup_of_mem hids hworkflow
          rw [heq, hfound] at hlookup
          obtain rfl := Option.some.inj hlookup
          rw [← htypes] at huses
          exact absurd huses (not_usesType_of_workflowReferences hreferences
            (hshows _ _ _ _ _ _ rfl hfound))
        · exact hmem
      · obtain ⟨htypes, hcovers⟩ := hreviews hid
        refine ⟨htypes, fun workflow hworkflow henabled huses => ?_⟩
        have hmem := hcovers workflow hworkflow henabled huses
        simp only [List.cons_append, List.mem_cons, List.mem_append] at hmem ⊢
        tauto
  | publishing id affected =>
    obtain ⟨nodeTypes, rfl⟩ := h
    intro hid
    exact (hreviews hid).2
  | _ => trivial

/-- A client that calls the store prepares no removal afterwards. -/
theorem RemovalPhase.target_next {answers : RemovalAnswers} {core : CoreTables} {call : CoreCall}
    (h : phase.call answers = some call) :
    (phase.next parse declared answers core).target = none := by
  cases phase with
  | resuming id => rfl
  | publishing id affected =>
    rw [next]
    split
    · rfl
    · split <;> rfl
  | deleted id outcome rest =>
    cases outcome with
    | ok =>
      rw [next]
      split <;> rfl
    | error category =>
      rw [next]
      cases core.view.markPluginRemovalFailed id category <;> rfl
  | unfinalized id rest =>
    rw [next]
    cases core.view.markPluginRemovalFailed id "storage finalization failed" <;> rfl
  | _ => cases h

/-- The calls that write no workflow leave none enabled that was not. -/
theorem CoreCall.not_enables {core : CoreTables} {call : CoreCall} {id source : String}
    (hcall : (∃ pluginCall h, call = .plugin pluginCall h) ∨
      ∃ pluginId workflowIds timestamp, call =
        .requestPluginRemoval pluginId workflowIds timestamp) :
    ¬call.Enables core id source := by
  obtain ⟨pluginCall, hkeeps, rfl⟩ | ⟨pluginId, workflowIds, timestamp, rfl⟩ := hcall
  · rintro (hpublishes | ⟨hsets, -⟩)
    · cases hpublishes
    · cases hsets
  · rintro (hpublishes | ⟨hsets, -⟩)
    · cases hpublishes
    · cases hsets

/-- A plugin operation other than an installation respects the removals. -/
theorem CoreCall.respects_plugin {system : RemovalSystem} {pluginCall : PluginCall}
    {h : pluginCall.KeepsWorkflows} (hother : ∀ install, pluginCall ≠ .upsert install) :
    (CoreCall.plugin pluginCall h).Respects parse declared system where
  review _ _ _ heq := by cases heq
  installs install _ heq := by
    cases heq
    exact absurd rfl (hother install)
  listed _ _ _ hpublishes := by cases hpublishes
  unused _ _ henables := absurd henables (not_enables (.inl ⟨pluginCall, h, rfl⟩))
  reviewed _ _ henables := absurd henables (not_enables (.inl ⟨pluginCall, h, rfl⟩))

/-- The calls of a client respect the removals. -/
theorem RemovalPhase.respects_call {system : RemovalSystem} {client : Nat}
    {answers : RemovalAnswers} {call : CoreCall}
    (h : (system.phase client).call answers = some call) :
    call.Respects parse declared system := by
  cases hphase : system.phase client with
  | resuming id =>
    rw [hphase] at h
    cases h
    exact CoreCall.respects_plugin fun _ heq => by cases heq
  | publishing id affected =>
    rw [hphase] at h
    cases h
    refine ⟨fun _ _ _ heq => ?_, fun _ _ heq => ?_, fun _ _ _ hpublishes => ?_,
      fun _ _ henables => ?_, fun _ _ henables => ?_⟩
    · cases heq
      exact ⟨client, hphase⟩
    · cases heq
    · cases hpublishes
    · exact absurd henables (CoreCall.not_enables (.inr ⟨_, _, _, rfl⟩))
    · exact absurd henables (CoreCall.not_enables (.inr ⟨_, _, _, rfl⟩))
  | deleted id outcome rest =>
    rw [hphase] at h
    cases outcome with
    | ok =>
      cases h
      exact CoreCall.respects_plugin fun _ heq => by cases heq
    | error category =>
      cases h
      exact CoreCall.respects_plugin fun _ heq => by cases heq
  | unfinalized id rest =>
    rw [hphase] at h
    cases h
    exact CoreCall.respects_plugin fun _ heq => by cases heq
  | _ =>
    rw [hphase] at h
    cases h

/-! ### Runs -/

theorem RemovalSystem.Guarded.update {system : RemovalSystem} (h : system.Guarded parse declared)
    {client : Nat} {phase' : RemovalPhase}
    (hphase : ∀ plugin ∈ system.core.view.plugins,
      phase'.Reviews parse declared system.core.workflows plugin) :
    RemovalSystem.Guarded parse declared
      { system with phase := Function.update system.phase client phase' } := by
  refine ⟨⟨h.sound.sourced, h.sound.plugins⟩, h.listed, h.unlisted, h.unused,
    fun other plugin hplugin => ?_⟩
  dsimp only
  by_cases heq : other = client
  · rw [heq, Function.update_self]
    exact hphase plugin hplugin
  · rw [Function.update_of_ne heq]
    exact h.reviews other plugin hplugin

/-- Every step that respects the removals keeps the invariant. -/
theorem RemovalSystem.Guarded.apply {system : RemovalSystem} (h : system.Guarded parse declared)
    {step : RemovalStep} (hstep : step.Respects parse declared system) :
    (step.apply library workspace parse declared system).Guarded parse declared := by
  cases step with
  | call c => exact h.call hstep
  | request client id => exact h.update fun _ _ => trivial
  | reconcile client =>
    refine h.update fun plugin _ => ?_
    split <;> trivial
  | advance client answers =>
    cases hcall : (RemovalStep.advance client answers).coreCall system with
    | none =>
      have happly : RemovalStep.apply library workspace parse declared system
          (.advance client answers) = ⟨system.core, Function.update system.phase client
            (RemovalStep.nextPhase parse declared system client answers)⟩ := by
        rw [RemovalStep.apply, hcall]
      rw [happly]
      refine h.update fun plugin hplugin => ?_
      have harrives : (system.phase client).Arrives parse declared system.core
          (RemovalStep.nextPhase parse declared system client answers) :=
        RemovalStep.arrives_nextPhase system client answers
      exact harrives.reviews h.sound.sourced.ids h.sound.plugins hplugin
        (h.reviews client plugin hplugin) hstep
    | some c =>
      have happly : RemovalStep.apply library workspace parse declared system
          (.advance client answers) = ⟨c.apply library workspace system.core,
            Function.update system.phase client
              (RemovalStep.nextPhase parse declared system client answers)⟩ := by
        rw [RemovalStep.apply, hcall]
      rw [RemovalStep.coreCall] at hcall
      split at hcall
      · cases hcall
      · next hfault =>
        have hguarded : RemovalSystem.Guarded parse declared
            { system with core := c.apply library workspace system.core } :=
          h.call (RemovalPhase.respects_call hcall)
        have hnone : answers.fault = none := by
          rwa [Bool.not_eq_true, Option.isSome_eq_false_iff, Option.isNone_iff_eq_none] at hfault
        rw [happly]
        refine hguarded.update fun plugin _ => RemovalPhase.reviews_of_target ?_
        rw [RemovalStep.nextPhase, hnone, Option.bind_none]
        dsimp only
        rw [RemovalPhase.target_next hcall]
        simp

theorem RemovalSystem.guarded_empty : RemovalSystem.Guarded parse declared {} where
  sound := ⟨CoreTables.sourced_empty, Tables.pluginsSound_empty⟩
  listed _ h := absurd h List.not_mem_nil
  unlisted _ h := absurd h List.not_mem_nil
  unused _ h := absurd h List.not_mem_nil
  reviews _ _ h := absurd h List.not_mem_nil

end Barrier

/-- The source of the concrete runs. -/
def sampleSource : String :=
  "apiVersion: kakune/v1\nkind: Workflow\nmetadata:\n  id: sample\n  name: Sample\ntriggers:\n" ++
    "- id: manual\n  type: kakune.trigger.manual@1\nentry: a\nnodes:\n- id: a\n  type: p.node@1\n"

/-- The decoder, at that source. -/
def sampleParse (_ : String) : Option YamlValue :=
  some (.mapping [(some "apiVersion", .string "kakune/v1"), (some "kind", .string "Workflow"),
    (some "metadata", .mapping [(some "id", .string "sample"), (some "name", .string "Sample")]),
    (some "triggers", .sequence [.mapping [(some "id", .string "manual"),
      (some "type", .string "kakune.trigger.manual@1")]]),
    (some "entry", .string "a"),
    (some "nodes", .sequence [.mapping [(some "id", .string "a"),
      (some "type", .string "p.node@1")]])])

/-- The manifest of the plugin declares one node type. -/
def sampleDeclared (_ : String) : List String := ["p.node@1"]

def pluginDocument : WorkflowDocument := sampleDocument "a" [{ id := "a", nodeType := "p.node@1" }]

/-- A plugin and a workflow that uses it; a client reviews and publishes the removal. -/
def removalSteps : List RemovalStep :=
  [.call (.plugin (.upsert samplePlugin) trivial),
    .call (.createWorkflow pluginDocument sampleSource "enabled" (sampleDraw "r1")),
    .request 0 "p"] ++ List.replicate 7 (.advance 0 {})

theorem showsUses_sampleParse (source : String) (nodeTypes : List String) :
    ShowsUses sampleParse source nodeTypes := by
  intro value hvalue
  cases hvalue
  have hpair : ∀ key key' text text', (YamlValue.mapping [(key, .string text),
      (key', .string text')]).Exposes nodeTypes := by
    intro key key' text text'
    exact YamlValue.exposes_mapping (by simp)
  refine YamlValue.exposes_mapping ?_
  simp [hpair]

end KakuneCore
