import KakuneCore.Plugins.CommitRecovery
import KakuneCore.Plugins.Registration

/-!
# The catalog of enabled plugins

Commits, the calls of the store and the removals of plugins run side by side over one disk and one
store. The manifests of the enabled plugins register together as long as a plugin is only enabled
where **the check that a commit makes holds at that moment**, and the package of an enabled plugin
is not taken away.
-/

namespace KakuneCore

/-! ### The system -/

/-- The store with the clients that remove plugins, the disk, the other tables of the installation,
and the clients that commit. -/
structure CatalogSystem where
  removals : RemovalSystem := {}
  disk : PluginDisk := fun _ => none
  details : String → Option PluginDetails := fun _ => none
  prepared : List PreparedPlugin := []
  commits : Nat → CommitPhase := fun _ => .stopped

namespace CatalogSystem

def tables (system : CatalogSystem) : Tables := system.removals.core.view

def state (system : CatalogSystem) : PluginState where
  disk := system.disk
  tables := system.tables
  details := system.details
  prepared := system.prepared

/-- The system in which a commit has left that state. -/
def withState (system : CatalogSystem) (state : PluginState) : CatalogSystem :=
  { system with
    removals := { system.removals with
      core := { system.removals.core with base := state.tables } }
    disk := state.disk
    details := state.details
    prepared := state.prepared }

end CatalogSystem

/-- The step installs a plugin past the commits. -/
def RemovalStep.Installs : RemovalStep → Prop
  | .call (.plugin (.upsert _) _) => True
  | _ => False

inductive CatalogStep
  /-- `prepare` has staged a package. -/
  | prepare (prepared : PreparedPlugin) (package : PackageEntry)
  /-- A client starts a commit. -/
  | commit (client : Nat) (id expected : String)
  /-- A commit goes on. -/
  | advance (client : Nat) (answer : CommitAnswer)
  /-- A call of the store or a step of a removal. `declared` reads manifests, and `left` is what a
  deletion that fails leaves of a package. -/
  | removal (declared : String → List String) (left : Option PackageEntry) (step : RemovalStep)
      (h : ¬ step.Installs)

section Steps

variable (env : InstallEnv) (library : TimeLibrary) (workspace : Workspace)
  (parse : String → Option YamlValue)

/-- The package that a step of a removal deletes, and what is left of it. -/
def CatalogSystem.deletion (system : CatalogSystem) (left : Option PackageEntry) :
    RemovalStep → Option (String × Option PackageEntry)
  | .advance client answers =>
    match system.removals.phase client with
    | .listed plugin _ => some (parentPath plugin.manifestPath,
        match answers.files with
        | .ok () => none
        | .error _ => left)
    | _ => none
  | _ => none

def CatalogStep.apply (system : CatalogSystem) : CatalogStep → CatalogSystem
  | prepare prepared package =>
    { system with
      disk := Function.update system.disk (prepared.stagedPath env) (some package)
      prepared := system.prepared ++ [prepared] }
  | commit client id expected =>
    { system with commits := Function.update system.commits client (.opening id expected) }
  | advance client answer =>
    let next := advanceCommit env answer system.state (system.commits client)
    { system.withState next.1 with commits := Function.update system.commits client next.2 }
  | removal declared left step _ =>
    { system with
      removals := step.apply library workspace parse declared system.removals
      disk := match system.deletion left step with
        | some (path, left) => Function.update system.disk path left
        | none => system.disk }

end Steps

/-! ### The condition -/

section Condition

variable (env : InstallEnv)

/-- **The check of a commit at this moment**, for the manifest at that path. -/
def CatalogSystem.admits (system : CatalogSystem) (id manifestPath : String) : Bool :=
  Except.isOk do
    let registered ← registerRows env system.disk
      (fun _ => "installed plugin catalog is not valid: ") []
      (system.tables.listInstalledPlugins.filter fun row => row.enabled && row.id ≠ id)
    registerManifestPath env system.disk registered manifestPath

/-- The package at the path is that of an enabled plugin. -/
def CatalogSystem.isInUse (system : CatalogSystem) (path : String) : Bool :=
  system.tables.plugins.any fun row => row.enabled && parentPath row.manifestPath = path

instance (tables : Tables) (id : String) : Decidable (tables.AcceptsInstall id) :=
  inferInstanceAs (Decidable (∀ row ∈ tables.plugin id, row.status = .active ∧
    tables.isPinned id = false))

/-- A plugin is enabled only where the check admits it, and the package of an enabled plugin
stays. -/
def CatalogStep.isSafe (system : CatalogSystem) : CatalogStep → Bool
  | prepare .. | commit .. => true
  | advance client answer =>
    answer.outcome ≠ .done ||
    match system.commits client with
    | .publishing plan record =>
      !(validatePluginSource env.parseUrl plan.source).isOk ||
        !decide (system.tables.AcceptsInstall record.install.id) ||
        system.admits env record.install.id record.install.manifestPath
    | .undoing plan _ => !system.isInUse (plan.destination env)
    | _ => true
  | removal _ left step _ =>
    match step with
    | .call (.plugin (.setEnabled id true) _) => system.tables.plugins.all fun row =>
        row.id ≠ id || row.status ≠ .active || row.enabled || system.admits env id row.manifestPath
    | step =>
      match system.deletion left step with
      | some (path, _) => !system.isInUse path
      | none => true

end Condition

/-! ### Enabled plugins that register together -/

/-- **The catalog loads**: the manifests of the enabled plugins register together, which leaves no
node type declared twice and none that is built in. -/
def CatalogLoads (env : InstallEnv) (disk : PluginDisk) (tables : Tables) : Prop :=
  (tables.plugins.map PluginRow.id).Nodup ∧
    ∃ registered,
      loadInstalledPluginRegistry env disk tables.listInstalledPlugins = .ok registered ∧
      registered.Nodup ∧ ∀ nodeType ∈ registered, isBuiltinNodeType nodeType = false

/-- Every enabled plugin registers on its own, and no two declare one node type. -/
structure EnabledSound (env : InstallEnv) (disk : PluginDisk) (plugins : List PluginRow) :
    Prop where
  each : ∀ row ∈ plugins, row.enabled = true → Registers env disk row.manifestPath
  apart : ∀ row ∈ plugins, ∀ row' ∈ plugins, row.enabled = true → row'.enabled = true →
    row.id ≠ row'.id → Apart env disk row row'

section Enabled

variable {env : InstallEnv} {disk disk' : PluginDisk} {plugins plugins' : List PluginRow}

theorem mem_listInstalledPlugins {tables : Tables} {row : PluginRow} :
    row ∈ tables.listInstalledPlugins ↔ row ∈ tables.plugins :=
  (List.perm_insertionSort _ _).mem_iff

/-- **The catalog loads** when every enabled plugin registers and no two are in conflict. -/
theorem EnabledSound.catalogLoads {tables : Tables} (h : EnabledSound env disk tables.plugins)
    (hids : (tables.plugins.map PluginRow.id).Nodup) : CatalogLoads env disk tables := by
  have hsorted : (tables.listInstalledPlugins.map PluginRow.id).Nodup :=
    ((List.perm_insertionSort _ _).map _).nodup_iff.mpr hids
  have henabled : ∀ row ∈ tables.listInstalledPlugins.filter fun row => row.enabled,
      row ∈ tables.plugins ∧ row.enabled = true := fun row hrow =>
    ⟨mem_listInstalledPlugins.mp (List.mem_filter.mp hrow).1, (List.mem_filter.mp hrow).2⟩
  have hpairwise : (tables.listInstalledPlugins.filter fun row => row.enabled).Pairwise
      (Apart env disk) := by
    have hne : (tables.listInstalledPlugins.filter fun row => row.enabled).Pairwise
        fun row row' => row.id ≠ row'.id :=
      (List.pairwise_map.mp hsorted).filter _
    refine hne.imp_of_mem fun hrow hrow' hid => ?_
    exact h.apart _ (henabled _ hrow).1 _ (henabled _ hrow').1 (henabled _ hrow).2
      (henabled _ hrow').2 hid
  refine ⟨hids, _, registerRows_eq_ok_iff.mpr ⟨fun row hrow => ⟨?_, List.disjoint_nil_right _⟩,
    hpairwise, rfl⟩, ?_, fun nodeType hmem => ?_⟩
  · exact h.each row (henabled row hrow).1 (henabled row hrow).2
  · rw [List.nil_append, List.nodup_flatMap]
    exact ⟨fun row _ => (declaredTypes_spec env disk row.manifestPath).1, hpairwise⟩
  · rw [List.nil_append, List.mem_flatMap] at hmem
    obtain ⟨row, -, hrow⟩ := hmem
    exact (declaredTypes_spec env disk row.manifestPath).2 nodeType hrow

/-- A plugin with that manifest may join the enabled ones. -/
structure MayJoin (env : InstallEnv) (disk : PluginDisk) (plugins : List PluginRow)
    (id manifestPath : String) : Prop where
  registers : Registers env disk manifestPath
  apart : ∀ row ∈ plugins, row.enabled = true → row.id ≠ id →
    (declaredTypes env disk row.manifestPath).Disjoint (declaredTypes env disk manifestPath)

/-- What the check says. -/
theorem CatalogSystem.mayJoin {system : CatalogSystem} {id manifestPath : String}
    (h : system.admits env id manifestPath = true) :
    MayJoin env system.disk system.tables.plugins id manifestPath := by
  rw [admits] at h
  cases hothers : registerRows env system.disk (fun _ => "installed plugin catalog is not valid: ")
      [] (system.tables.listInstalledPlugins.filter fun row => row.enabled && row.id ≠ id) with
  | error error =>
    rw [hothers] at h
    cases h
  | ok registered =>
    cases hall : registerManifestPath env system.disk registered manifestPath with
    | error error =>
      rw [hothers] at h
      have hok : (registerManifestPath env system.disk registered manifestPath).isOk = true := h
      rw [hall] at hok
      cases hok
    | ok all =>
      obtain ⟨-, -, rfl⟩ := registerRows_eq_ok_iff.mp hothers
      obtain ⟨hregisters, hdisjoint, -⟩ := registerManifestPath_eq_ok_iff.mp hall
      refine ⟨hregisters, fun row hrow henabled hid t ht ht' => hdisjoint ht' ?_⟩
      refine List.mem_append_right _ (List.mem_flatMap.mpr ⟨row, List.mem_filter.mpr ⟨?_, ?_⟩, ht⟩)
      · exact mem_listInstalledPlugins.mpr hrow
      · simp [henabled, hid]

/-- The row of a plugin that was there before, and enabled if it is enabled now. -/
def KeptRow (plugins : List PluginRow) (row' : PluginRow) : Prop :=
  ∃ row ∈ plugins, row.id = row'.id ∧ row.manifestPath = row'.manifestPath ∧
    (row'.enabled = true → row.enabled = true)

/-- **One plugin may join**: the enabled rows were enabled before, or they are those of the plugin
that is admitted. -/
theorem EnabledSound.of_rows (h : EnabledSound env disk plugins) {id : String}
    (hrows : ∀ row' ∈ plugins', row'.enabled = true → KeptRow plugins row' ∨
      (row'.id = id ∧ MayJoin env disk plugins id row'.manifestPath)) :
    EnabledSound env disk plugins' where
  each row' hrow' henabled := by
    rcases hrows row' hrow' henabled with ⟨row, hrow, -, hpath, hold⟩ | ⟨-, hjoin⟩
    · rw [← hpath]
      exact h.each row hrow (hold henabled)
    · exact hjoin.registers
  apart row₁ hrow₁ row₂ hrow₂ henabled₁ henabled₂ hne := by
    rw [Apart]
    rcases hrows row₁ hrow₁ henabled₁ with ⟨old₁, hold₁, hid₁, hpath₁, hon₁⟩ | ⟨hid₁, hnew₁⟩
    · rcases hrows row₂ hrow₂ henabled₂ with ⟨old₂, hold₂, hid₂, hpath₂, hon₂⟩ | ⟨hid₂, hnew₂⟩
      · rw [← hpath₁, ← hpath₂]
        exact h.apart old₁ hold₁ old₂ hold₂ (hon₁ henabled₁) (hon₂ henabled₂) fun heq =>
          hne (hid₁.symm.trans (heq.trans hid₂))
      · rw [← hpath₁]
        exact hnew₂.apart old₁ hold₁ (hon₁ henabled₁) fun heq =>
          hne (hid₁.symm.trans (heq.trans hid₂.symm))
    · rcases hrows row₂ hrow₂ henabled₂ with ⟨old₂, hold₂, hid₂, hpath₂, hon₂⟩ | ⟨hid₂, -⟩
      · rw [← hpath₂]
        exact (hnew₁.apart old₂ hold₂ (hon₂ henabled₂) fun heq =>
          hne (hid₁.trans (heq.symm.trans hid₂))).symm
      · exact absurd (hid₁.trans hid₂.symm) hne

/-- Only the packages of the enabled plugins matter. -/
theorem EnabledSound.of_disk (h : EnabledSound env disk plugins)
    (hdisk : ∀ row ∈ plugins, row.enabled = true →
      disk' (parentPath row.manifestPath) = disk (parentPath row.manifestPath)) :
    EnabledSound env disk' plugins where
  each row hrow henabled :=
    (registers_congr (hdisk row hrow henabled)).1.mpr (h.each row hrow henabled)
  apart row hrow row' hrow' henabled henabled' hid := by
    rw [Apart, (registers_congr (hdisk row hrow henabled)).2,
      (registers_congr (hdisk row' hrow' henabled')).2]
    exact h.apart row hrow row' hrow' henabled henabled' hid

end Enabled

/-! ### What the calls of the store enable -/

section Calls

variable {tables : Tables}

theorem keptRow_self {plugins : List PluginRow} {row : PluginRow} (hrow : row ∈ plugins) :
    KeptRow plugins row := ⟨row, hrow, rfl, rfl, fun h => h⟩

/-- An update that enables nothing. -/
theorem keptRow_of_update {plugins : List PluginRow} {p : PluginRow → Bool}
    {f : PluginRow → PluginRow} {row' : PluginRow} (hrow' : row' ∈ Table.updateWhere plugins p f)
    (hf : ∀ row, (f row).id = row.id ∧ (f row).manifestPath = row.manifestPath ∧
      ((f row).enabled = true → row.enabled = true)) : KeptRow plugins row' := by
  rcases Table.mem_updateWhere.mp hrow' with ⟨hold, -⟩ | ⟨row, hrow, -, rfl⟩
  · exact keptRow_self hold
  · obtain ⟨hid, hpath, hon⟩ := hf row
    exact ⟨row, hrow, hid.symm, hpath.symm, hon⟩

/-- The barrier disables the plugin. -/
theorem keptRow_of_removal {tables' : Tables} {pluginId : String} {workflowIds : List String}
    {count : Nat} (h : tables.requestPluginRemoval pluginId workflowIds = .ok (count, tables'))
    {row' : PluginRow} (hrow' : row' ∈ tables'.plugins) : KeptRow tables.plugins row' := by
  rw [Tables.requestPluginRemoval] at h
  split at h
  · cases h
  · split at h
    · cases h
    · obtain ⟨next, hnext, hrest⟩ := except_bind_eq_ok h
      cases hrest
      rw [(Tables.foldlM_disableDependent hnext).2] at hrow'
      exact keptRow_of_update hrow' fun row =>
        ⟨rfl, rfl, fun henabled => absurd henabled Bool.false_ne_true⟩

/-- The call enables a plugin. -/
def PluginCall.Enables : PluginCall → Prop
  | .upsert _ | .setEnabled _ true => True
  | _ => False

theorem PluginCall.keptRow (call : PluginCall) (hcall : ¬ call.Enables) {row' : PluginRow}
    (hrow' : row' ∈ (call.apply tables).plugins) : KeptRow tables.plugins row' := by
  cases call with
  | execution call h =>
    rw [PluginCall.apply, (call.pinsTaken_apply tables h).plugins] at hrow'
    exact keptRow_self hrow'
  | workflows rows => exact keptRow_self hrow'
  | acquire executionId pluginIds =>
    obtain heq | ⟨hadded, -⟩ := acquire_cases tables executionId pluginIds
    · rw [heq] at hrow'
      exact keptRow_self hrow'
    · rw [hadded.pinsTaken.plugins] at hrow'
      exact keptRow_self hrow'
  | upsert install => exact absurd trivial hcall
  | setEnabled id enabled =>
    cases enabled with
    | true => exact absurd trivial hcall
    | false =>
      rw [apply, Tables.setPluginEnabled, Bool.false_and, Bool.false_and, if_neg Bool.false_ne_true]
        at hrow'
      exact keptRow_of_update hrow' fun row =>
        ⟨rfl, rfl, fun henabled => absurd henabled Bool.false_ne_true⟩
  | requestRemoval pluginId workflowIds =>
    rw [apply] at hrow'
    cases hremoval : tables.requestPluginRemoval pluginId workflowIds with
    | error error =>
      rw [hremoval] at hrow'
      exact keptRow_self hrow'
    | ok result =>
      rw [hremoval] at hrow'
      exact keptRow_of_removal hremoval hrow'
  | markFailed pluginId details =>
    rw [apply, Tables.markPluginRemovalFailed] at hrow'
    split at hrow'
    · exact keptRow_self hrow'
    · dsimp only at hrow'
      split at hrow'
      · exact keptRow_of_update hrow' fun row => ⟨rfl, rfl, fun h => h⟩
      · exact keptRow_self hrow'
  | resume pluginId => exact keptRow_of_update hrow' fun row => ⟨rfl, rfl, fun h => h⟩
  | finalize pluginId =>
    rw [apply, Tables.finalizePluginRemoval] at hrow'
    split at hrow'
    · exact keptRow_self hrow'
    · split at hrow'
      · exact keptRow_self hrow'
      · split at hrow'
        · exact keptRow_self hrow'
        · exact keptRow_self (List.mem_of_mem_filter hrow')
  | removeInstall id =>
    rw [apply, Tables.removePluginInstall] at hrow'
    split at hrow'
    · exact keptRow_self hrow'
    · split at hrow'
      · exact keptRow_self hrow'
      · exact keptRow_self (List.mem_of_mem_filter hrow')

/-- **`set_plugin_enabled`** may enable a plugin that is active. -/
theorem PluginCall.row_of_setEnabled {id : String} {row' : PluginRow}
    (hrow' : row' ∈ ((PluginCall.setEnabled id true).apply tables).plugins) :
    KeptRow tables.plugins row' ∨ (row'.id = id ∧ ∃ row ∈ tables.plugins, row.id = id ∧
      row.status = .active ∧ row.enabled = false ∧ row.manifestPath = row'.manifestPath) := by
  rw [apply, Tables.setPluginEnabled] at hrow'
  split at hrow'
  · exact .inl (keptRow_self hrow')
  · rcases Table.mem_updateWhere.mp hrow' with ⟨hold, -⟩ | ⟨row, hrow, hselected, rfl⟩
    · exact .inl (keptRow_self hold)
    · simp only [Bool.not_true, Bool.false_or, Bool.and_eq_true, decide_eq_true_eq] at hselected
      cases henabled : row.enabled with
      | true => exact .inl ⟨row, hrow, rfl, rfl, fun _ => henabled⟩
      | false => exact .inr ⟨hselected.1, row, hrow, hselected.1, hselected.2, henabled, rfl⟩

/-- **A publication** changes the row of its plugin only. -/
theorem Tables.row_of_upsert {tables' : Tables} {install : PluginInstall}
    (h : tables.upsertPluginInstall install = .ok tables') {row' : PluginRow}
    (hrow' : row' ∈ tables'.plugins) : KeptRow tables.plugins row' ∨
      (row'.id = install.id ∧ row'.manifestPath = install.manifestPath) := by
  rw [upsertPluginInstall] at h
  split at h
  · cases h
    rcases List.mem_append.mp hrow' with hold | hnew
    · exact .inl (keptRow_self hold)
    · rw [List.mem_singleton.mp hnew]
      exact .inr ⟨rfl, rfl⟩
  · split at h
    · cases h
      rcases Table.mem_updateWhere.mp hrow' with ⟨hold, -⟩ | ⟨row, -, -, rfl⟩
      · exact .inl (keptRow_self hold)
      · exact .inr ⟨rfl, rfl⟩
    · cases h

/-- What a call of the store, other than these, does to the rows. -/
theorem CoreCall.keptRow {library : TimeLibrary} {workspace : Workspace} {core : CoreTables}
    (hcore : core.UniqueWorkflows) (call : CoreCall)
    (hcall : ∀ pluginCall h, call = .plugin pluginCall h → ¬ pluginCall.Enables) {row' : PluginRow}
    (hrow' : row' ∈ (call.apply library workspace core).view.plugins) :
    KeptRow core.view.plugins row' := by
  have hbase : (call.apply library workspace core).base = core.base →
      KeptRow core.view.plugins row' := by
    intro heq
    rw [CoreTables.view, heq] at hrow'
    exact keptRow_self hrow'
  cases call.apply_cases hcore with
  | same heq => exact hbase (congrArg CoreTables.base heq)
  | published _ _ hpublished => exact hbase hpublished.base
  | status _ _ _ _ heq => exact hbase heq
  | removal _ hremoval _ => exact keptRow_of_removal hremoval hrow'
  | @plugin pluginCall h heq hafter =>
    rw [hafter] at hrow'
    exact pluginCall.keptRow (hcall pluginCall h heq) hrow'

end Calls

/-! ### What the steps of a commit do -/

section Commits

variable {env : InstallEnv} {answer : CommitAnswer} {state : PluginState} {phase : CommitPhase}

/-- The row that is published was made from the plan and the name of a manifest. -/
def CommitPhase.Named (env : InstallEnv) : CommitPhase → Prop
  | stamping _ name => '/' ∉ name.toList
  | publishing plan record =>
    ∃ name clock, '/' ∉ name.toList ∧ record = plan.record env name clock
  | _ => True

theorem CommitPhase.named_after {α : Type} {next : α → CommitPhase} {result : Except String α}
    (h : ∀ a, result = .ok a → (next a).Named env) : (CommitPhase.after next result).Named env := by
  cases result with
  | ok a => exact h a rfl
  | error error => trivial

theorem CommitPhase.Named.advance (h : phase.Named env) :
    (advanceCommit env answer state phase).2.Named env := by
  rw [advanceCommit]
  split
  · exact h
  · split
    · trivial
    · cases phase with
      | finding plan =>
        refine named_after fun name hname => ?_
        obtain ⟨_, -, hname⟩ := except_bind_eq_ok hname
        exact (findManifest_eq_ok hname).2
      | stamping plan name => exact named_after fun _ _ => ⟨name, answer.clock, h, rfl⟩
      | opening | digesting | loading | locating | listing | checking | creating =>
        exact named_after fun _ _ => trivial
      | moving | publishing | undoing | clearing =>
        rw [commitStep]
        split <;> try split
        all_goals trivial
      | cleaning | finished | stopped => trivial

theorem renameDirectory_eq_ok {disk disk' : PluginDisk} {source destination : String}
    (h : renameDirectory disk source destination = .ok disk') :
    ∃ package, disk destination = none ∧ disk' =
      Function.update (Function.update disk source none) destination (some package) := by
  rw [renameDirectory] at h
  split at h
  · next package _ hnone =>
    cases h
    exact ⟨package, hnone, rfl⟩
  · cases h
  · cases h

/-- An operation of a step that goes through was done. -/
theorem fails_eq_ok {description : String} (hstop : answer.outcome ≠ .stopped)
    (h : answer.fails description = .ok ()) : answer.outcome = .done := by
  rw [CommitAnswer.fails] at h
  cases houtcome : answer.outcome with
  | done => rfl
  | failed error =>
    rw [houtcome] at h
    cases h
  | stopped => exact absurd houtcome hstop

/-- A package that is moved leaves its place and comes where nothing was. -/
theorem renamed_disk {disk disk' : PluginDisk} {source destination : String}
    (h : (do
      answer.fails ""
      renameDirectory disk source destination) = .ok disk')
    (hstop : answer.outcome ≠ .stopped) (path : String) :
    disk' path = disk path ∨ disk path = none ∨ (path = source ∧ answer.outcome = .done) := by
  obtain ⟨_, hdone, hrename⟩ := except_bind_eq_ok h
  obtain ⟨package, hnone, rfl⟩ := renameDirectory_eq_ok hrename
  by_cases hdestination : path = destination
  · rw [hdestination]
    exact .inr (.inl hnone)
  · by_cases hsource : path = source
    · exact .inr (.inr ⟨hsource, fails_eq_ok hstop hdone⟩)
    · rw [Function.update_of_ne hdestination, Function.update_of_ne hsource]
      exact .inl rfl

/-- **Where a commit changes the disk**: in the staging directory, where nothing was, and — when it
undoes its move — at its destination. -/
theorem advanceCommit_disk (path : String) :
    (advanceCommit env answer state phase).1.disk path = state.disk path ∨
      (∃ prepared : PreparedPlugin, path = prepared.stagedPath env) ∨ state.disk path = none ∨
      ∃ plan error, phase = .undoing plan error ∧ answer.outcome = .done ∧
        path = plan.destination env := by
  rw [advanceCommit]
  split
  · exact .inl rfl
  · split
    · exact .inl rfl
    · next hstop =>
      cases phase with
      | moving plan =>
        rw [commitStep]
        split
        · exact .inl rfl
        · split
          · next disk hdisk =>
            rcases renamed_disk hdisk hstop path with hsame | hnone | ⟨hpath, -⟩
            · exact .inl hsame
            · exact .inr (.inr (.inl hnone))
            · exact .inr (.inl ⟨plan.prepared, hpath⟩)
          · exact .inl rfl
      | undoing plan error =>
        rw [commitStep]
        split
        · next disk hdisk =>
          rcases renamed_disk hdisk hstop path with hsame | hnone | ⟨hpath, hdone⟩
          · exact .inl hsame
          · exact .inr (.inr (.inl hnone))
          · exact .inr (.inr (.inr ⟨plan, error, rfl, hdone, hpath⟩))
        · exact .inl rfl
      | cleaning plan record =>
        rw [commitStep]
        dsimp only
        split
        · by_cases hpath : path = plan.prepared.stagedPath env
          · exact .inr (.inl ⟨plan.prepared, hpath⟩)
          · exact .inl (Function.update_of_ne hpath _ _)
        · exact .inl rfl
      | publishing plan record =>
        rw [commitStep]
        split
        · next next hnext =>
          obtain ⟨-, tables, -, rfl⟩ := PluginState.publish_eq_ok hnext
          exact .inl rfl
        · exact .inl rfl
      | clearing plan record =>
        rw [commitStep]
        split <;> exact .inl rfl
      | opening | digesting | loading | locating | listing | checking | creating | finding
      | stamping | finished | stopped => exact .inl rfl

/-- **What a commit does to the tables**: it publishes its row, or nothing. -/
theorem advanceCommit_tables :
    (advanceCommit env answer state phase).1.tables = state.tables ∨
      ∃ plan record, phase = .publishing plan record ∧ answer.outcome = .done ∧
        validatePluginSource env.parseUrl plan.source = .ok () ∧
        state.tables.upsertPluginInstall record.install =
          .ok (advanceCommit env answer state phase).1.tables ∧
        (advanceCommit env answer state phase).1.disk = state.disk := by
  rw [advanceCommit]
  split
  · exact .inl rfl
  · split
    · exact .inl rfl
    · next hstop =>
      cases phase with
      | publishing plan record =>
        rw [commitStep]
        split
        · next next hnext =>
          have hdone : answer.outcome = .done := by
            obtain ⟨_, -, hrest⟩ := except_bind_eq_ok hnext
            obtain ⟨_, hanswer, -⟩ := except_bind_eq_ok hrest
            exact fails_eq_ok hstop hanswer
          obtain ⟨hsource, tables, hupsert, rfl⟩ := PluginState.publish_eq_ok hnext
          exact .inr ⟨plan, record, rfl, hdone, hsource, hupsert, rfl⟩
        · exact .inl rfl
      | moving | undoing | clearing =>
        rw [commitStep]
        split <;> try split
        all_goals exact .inl rfl
      | cleaning =>
        rw [commitStep]
        dsimp only
        split <;> exact .inl rfl
      | opening | digesting | loading | locating | listing | checking | creating | finding
      | stamping | finished | stopped => exact .inl rfl

end Commits

/-! ### The invariant -/

/-- What holds in every state of a run whose steps are safe. -/
structure CatalogSystem.Sound (env : InstallEnv) (system : CatalogSystem) : Prop where
  removals : system.removals.Sound
  managed : ∀ row ∈ system.tables.plugins,
    ∃ rest, parentPath row.manifestPath = env.dataDir ++ "/plugins/" ++ rest
  named : ∀ client, (system.commits client).Named env
  enabled : EnabledSound env system.disk system.tables.plugins

section Invariant

variable {env : InstallEnv} {library : TimeLibrary} {workspace : Workspace}
  {parse : String → Option YamlValue} {system : CatalogSystem}

/-- Installed packages are not in the staging directory. -/
theorem stagedPath_ne_managed (prepared : PreparedPlugin) (rest : String) :
    prepared.stagedPath env ≠ env.dataDir ++ "/plugins/" ++ rest := by
  intro h
  have hchars := congrArg String.toList h
  simp only [PreparedPlugin.stagedPath, String.toList_append, List.append_assoc,
    List.append_cancel_left_eq] at hchars
  have hpre := congrArg (List.take 8) hchars
  simp at hpre

theorem ReviewedPlugin.destination_managed (env : InstallEnv) (reviewed : ReviewedPlugin) :
    ∃ rest, reviewed.destination env = env.dataDir ++ "/plugins/" ++ rest :=
  ⟨reviewed.manifest.id ++ ("/" ++ (reviewed.manifest.version ++ ("-" ++
    .ofList ((reviewed.prepared.digest.toList.drop 7).take 12)))), by
    simp only [destination, String.append_assoc]⟩

theorem CatalogSystem.Sound.not_staged (h : system.Sound env) {row : PluginRow}
    (hrow : row ∈ system.tables.plugins) (prepared : PreparedPlugin) :
    parentPath row.manifestPath ≠ prepared.stagedPath env := by
  obtain ⟨rest, hrest⟩ := h.managed row hrow
  rw [hrest]
  exact (stagedPath_ne_managed prepared rest).symm

theorem CatalogSystem.ne_of_not_inUse {path : String} (h : system.isInUse path = false)
    {row : PluginRow} (hrow : row ∈ system.tables.plugins) (henabled : row.enabled = true) :
    parentPath row.manifestPath ≠ path := by
  intro hpath
  rw [isInUse, List.any_eq_false] at h
  exact h row hrow (by simp [henabled, hpath])

/-- Pins and rows are all that soundness is about. -/
theorem Tables.PluginsSound.congr {tables tables' : Tables} (h : tables.PluginsSound)
    (hplugins : tables'.plugins = tables.plugins) (hpins : tables'.pins = tables.pins) :
    tables'.PluginsSound where
  ids := by
    rw [hplugins]
    exact h.ids
  pinned pin hpin := by
    rw [hplugins]
    exact h.pinned pin (hpins ▸ hpin)
  disabled row hrow := h.disabled row (hplugins ▸ hrow)

/-- The clients that remove plugins find what a commit has left. -/
theorem CatalogSystem.Sound.withState (h : system.Sound env) {state : PluginState}
    (hsound : state.tables.PluginsSound) : (system.withState state).removals.Sound where
  sourced := ⟨h.removals.sourced.ids, h.removals.sourced.revisionIds, h.removals.sourced.named⟩
  plugins := hsound.congr rfl rfl

/-- **A step of a commit** keeps the invariant if it is safe. -/
theorem CatalogSystem.Sound.advance (h : system.Sound env) {client : Nat} {answer : CommitAnswer}
    (hsafe : (CatalogStep.advance client answer).isSafe env system = true) :
    ((CatalogStep.advance client answer).apply env library workspace parse system).Sound env := by
  have hids := h.removals.plugins.ids
  have hnamed : ∀ other, (Function.update system.commits client
      (advanceCommit env answer system.state (system.commits client)).2 other).Named env := by
    intro other
    by_cases hother : other = client
    · rw [hother, Function.update_self]
      exact (h.named client).advance
    · rw [Function.update_of_ne hother]
      exact h.named other
  have hdisk : ∀ row ∈ system.tables.plugins, row.enabled = true →
      (advanceCommit env answer system.state (system.commits client)).1.disk
        (parentPath row.manifestPath) = system.disk (parentPath row.manifestPath) := by
    intro row hrow henabled
    rcases @advanceCommit_disk env answer system.state (system.commits client)
      (parentPath row.manifestPath) with hsame | ⟨prepared, hstaged⟩ | hnone | ⟨plan, error, hphase,
        hdone, hpath⟩
    · exact hsame
    · exact absurd hstaged (h.not_staged hrow prepared)
    · -- the package of an enabled plugin is on the disk
      have hsome := (h.enabled.each row hrow henabled).isSome
      rw [show system.disk (parentPath row.manifestPath) = none from hnone] at hsome
      cases hsome
    · rw [CatalogStep.isSafe, hphase] at hsafe
      have hfree : system.isInUse (plan.destination env) = false := by simpa [hdone] using hsafe
      exact absurd hpath (CatalogSystem.ne_of_not_inUse hfree hrow henabled)
  rcases @advanceCommit_tables env answer system.state (system.commits client) with
    htables | ⟨plan, record, hphase, hdone, hsource, hupsert, hsame⟩
  · have hplugins : ((CatalogStep.advance client answer).apply env library workspace parse
        system).tables.plugins = system.tables.plugins := (congrArg Tables.plugins htables :)
    refine ⟨h.withState (htables ▸ h.removals.plugins), ?_, hnamed, ?_⟩
    · rw [hplugins]
      exact h.managed
    · rw [hplugins]
      exact h.enabled.of_disk hdisk
  · have hrows := @Tables.row_of_upsert system.tables _ record.install hupsert
    obtain ⟨name, clock, hname, hrecord⟩ : ∃ name clock, '/' ∉ name.toList ∧
        record = plan.record env name clock := by
      have hclient := h.named client
      rw [hphase] at hclient
      exact hclient
    have hadmits : system.admits env record.install.id record.install.manifestPath = true := by
      have haccepts : system.tables.AcceptsInstall record.install.id :=
        (Tables.upsertPluginInstall_eq_ok hupsert).1
      rw [CatalogStep.isSafe, hphase] at hsafe
      simpa [hdone, hsource, Except.isOk, Except.toBool, haccepts] using hsafe
    have hstep : PluginStep (.upsert record.install) system.tables
        (advanceCommit env answer system.state (system.commits client)).1.tables := by
      have happly := (PluginCall.upsert record.install).pluginStep system.tables hids
      rw [PluginCall.apply, show system.tables.upsertPluginInstall record.install = _ from hupsert]
        at happly
      exact happly
    refine ⟨h.withState (hstep.sound h.removals.plugins), fun row' hrow' => ?_, hnamed, ?_⟩
    · rcases hrows hrow' with ⟨row, hrow, -, hpath, -⟩ | ⟨-, hpath⟩
      · rw [← hpath]
        exact h.managed row hrow
      · rw [hpath, hrecord]
        obtain ⟨rest, hrest⟩ := plan.toReviewedPlugin.destination_managed env
        exact ⟨rest, (parentPath_joinPath hname).trans hrest⟩
    · have hjoin := CatalogSystem.mayJoin hadmits
      have henabled := h.enabled.of_rows fun row' hrow' _ =>
        (hrows hrow').imp_right fun hnew => ⟨hnew.1, hnew.2 ▸ hjoin⟩
      rw [← show (advanceCommit env answer system.state (system.commits client)).1.disk =
        system.disk from hsame] at henabled
      exact henabled

/-- The calls that a removal makes enable nothing. -/
theorem RemovalPhase.not_enables_call {answers : RemovalAnswers} {phase : RemovalPhase}
    {pluginCall : PluginCall} {h : pluginCall.KeepsWorkflows}
    (hcall : phase.call answers = some (.plugin pluginCall h)) : ¬ pluginCall.Enables := by
  rw [RemovalPhase.call.eq_def] at hcall
  split at hcall <;> cases hcall
  all_goals exact id

/-- What a step of a removal does to the rows. -/
theorem RemovalStep.keptRow {declared : String → List String} {removals : RemovalSystem}
    (h : removals.Sound) {step : RemovalStep} (hinstalls : ¬ step.Installs)
    (hstep : ∀ id h, step ≠ .call (.plugin (.setEnabled id true) h)) {row' : PluginRow}
    (hrow' : row' ∈ (step.apply library workspace parse declared removals).core.view.plugins) :
    KeptRow removals.core.view.plugins row' := by
  rw [RemovalStep.core_apply] at hrow'
  cases hcall : step.coreCall removals with
  | none =>
    rw [hcall] at hrow'
    exact keptRow_self hrow'
  | some call =>
    rw [hcall] at hrow'
    refine CoreCall.keptRow h.sourced.ids call (fun pluginCall hkeeps heq henables => ?_) hrow'
    cases step with
    | call c =>
      cases hcall
      cases pluginCall with
      | upsert install =>
        rw [heq] at hinstalls
        exact hinstalls trivial
      | setEnabled id enabled =>
        cases enabled with
        | true => exact hstep id hkeeps (congrArg RemovalStep.call heq)
        | false => exact henables
      | _ => exact henables
    | request client pluginId => cases hcall
    | reconcile client => cases hcall
    | advance client answers =>
      rw [RemovalStep.coreCall] at hcall
      split at hcall
      · cases hcall
      · rw [heq] at hcall
        exact RemovalPhase.not_enables_call hcall henables

/-- **A call of the store or a step of a removal** keeps the invariant if it is safe. -/
theorem CatalogSystem.Sound.removal (h : system.Sound env) {declared : String → List String}
    {left : Option PackageEntry} {step : RemovalStep} {hinstalls : ¬ step.Installs}
    (hsafe : (CatalogStep.removal declared left step hinstalls).isSafe env system = true) :
    ((CatalogStep.removal declared left step hinstalls).apply env library workspace parse
      system).Sound env := by
  have hremovals := RemovalStep.sound_apply library workspace parse declared h.removals step
  by_cases hset : ∃ id h', step = .call (.plugin (.setEnabled id true) h')
  · -- the plugin that is enabled may join
    obtain ⟨pluginId, h', rfl⟩ := hset
    refine ⟨hremovals, fun row' hrow' => ?_, h.named,
      @EnabledSound.of_rows _ _ _ _ h.enabled pluginId fun row' hrow' _ => ?_⟩
    · rcases PluginCall.row_of_setEnabled hrow' with
        ⟨row, hrow, -, hpath, -⟩ | ⟨-, row, hrow, -, -, -, hpath⟩
      · exact hpath ▸ h.managed row hrow
      · exact hpath ▸ h.managed row hrow
    · refine (PluginCall.row_of_setEnabled hrow').imp_right ?_
      rintro ⟨hid, row, hrow, hrowId, hactive, hdisabled, hpath⟩
      have hall := List.all_eq_true.mp hsafe row hrow
      have hadmits : system.admits env pluginId row.manifestPath = true := by
        simpa [hrowId, hactive, hdisabled] using hall
      exact ⟨hid, hpath ▸ CatalogSystem.mayJoin hadmits⟩
  · -- nothing is enabled, and the packages of the enabled plugins stay
    have hkept : ∀ row' ∈ (step.apply library workspace parse declared
        system.removals).core.view.plugins, KeptRow system.tables.plugins row' :=
      fun row' hrow' => RemovalStep.keptRow h.removals hinstalls
        (fun id h' heq => hset ⟨id, h', heq⟩) hrow'
    have hdeletion : ∀ path l, system.deletion left step = some (path, l) →
        system.isInUse path = false := by
      intro path l hdeletion
      cases step with
      | advance client answers =>
        have hfree : (match system.deletion left (.advance client answers) with
          | some (path, _) => !system.isInUse path
          | none => true) = true := hsafe
        simpa [hdeletion] using hfree
      | call | request | reconcile => cases hdeletion
    have hdisk : EnabledSound env ((CatalogStep.removal declared left step hinstalls).apply env
        library workspace parse system).disk system.tables.plugins := by
      refine h.enabled.of_disk fun row hrow henabled => ?_
      cases hpath : system.deletion left step with
      | none => simp only [CatalogStep.apply, hpath]
      | some deleted =>
        simp only [CatalogStep.apply, hpath]
        exact Function.update_of_ne
          (CatalogSystem.ne_of_not_inUse (hdeletion _ _ hpath) hrow henabled) _ _
    refine ⟨hremovals, fun row' hrow' => ?_, h.named,
      @EnabledSound.of_rows _ _ _ _ hdisk "" fun row' hrow' _ => .inl (hkept row' hrow')⟩
    obtain ⟨row, hrow, -, hpath, -⟩ := hkept row' hrow'
    rw [← hpath]
    exact h.managed row hrow

/-- **Every safe step** keeps the invariant. -/
theorem CatalogStep.sound_apply (h : system.Sound env) (step : CatalogStep)
    (hsafe : step.isSafe env system = true) :
    (step.apply env library workspace parse system).Sound env := by
  cases step with
  | prepare prepared package =>
    have hdisk : ∀ row ∈ system.tables.plugins, row.enabled = true →
        Function.update system.disk (prepared.stagedPath env) (some package)
          (parentPath row.manifestPath) = system.disk (parentPath row.manifestPath) :=
      fun row hrow _ => Function.update_of_ne (h.not_staged hrow prepared) _ _
    exact ⟨h.removals, h.managed, h.named, h.enabled.of_disk hdisk⟩
  | commit client id expected =>
    refine ⟨h.removals, h.managed, fun other => ?_, h.enabled⟩
    by_cases hother : other = client
    · rw [hother, CatalogStep.apply]
      dsimp only
      rw [Function.update_self]
      trivial
    · rw [CatalogStep.apply]
      dsimp only
      rw [Function.update_of_ne hother]
      exact h.named other
  | advance client answer => exact h.advance hsafe
  | removal declared left step hinstalls => exact h.removal hsafe

theorem CatalogSystem.sound_empty : CatalogSystem.Sound env {} where
  removals := ⟨CoreTables.sourced_empty, Tables.pluginsSound_empty⟩
  managed := fun _ hrow => absurd hrow List.not_mem_nil
  named := fun _ => trivial
  enabled := ⟨fun _ hrow => absurd hrow List.not_mem_nil,
    fun _ hrow => absurd hrow List.not_mem_nil⟩

/-- **The catalog of enabled plugins always loads**, in every run of commits, calls of the store and
removals whose steps are safe. -/
theorem enabled_catalog_loads {steps : List CatalogStep}
    (h : Runs.Meets (CatalogStep.apply env library workspace parse)
      (fun system step => step.isSafe env system = true) {} steps) :
    CatalogLoads env (Runs.run (CatalogStep.apply env library workspace parse) {} steps).disk
      (Runs.run (CatalogStep.apply env library workspace parse) {} steps).tables := by
  have hsound := h.invariant CatalogSystem.sound_empty fun system step hsystem hsafe =>
    CatalogStep.sound_apply hsystem step hsafe
  exact hsound.enabled.catalogLoads hsound.removals.plugins.ids

end Invariant

/-! ### Runs -/

/-- The system after the steps, with the empty library of times. -/
abbrev catalogRun (env : InstallEnv) (steps : List CatalogStep) : CatalogSystem :=
  Runs.run (CatalogStep.apply env emptyLibrary emptyWorkspace fun _ => none) {} steps

/-- A package is staged and committed. -/
def installSteps (client : Nat) (prepared : PreparedPlugin) (package : PackageEntry) :
    List CatalogStep :=
  .prepare prepared package :: .commit client prepared.id prepared.digest ::
    List.replicate 13 (.advance client {})

/-- A call of `set_plugin_enabled`. -/
def setEnabledStep (id : String) (enabled : Bool) : CatalogStep :=
  .removal (fun _ => []) none (.call (.plugin (.setEnabled id enabled) trivial)) fun h => h

/-- A plugin that is installed, disabled and enabled again. -/
def greeterSteps : List CatalogStep :=
  installSteps 0 greeterPrepared greeterPackage ++
    [setEnabledStep "demo.greeter" false, setEnabledStep "demo.greeter" true]

theorem greeter_catalog_loads :
    CatalogLoads greeterEnv (catalogRun greeterEnv greeterSteps).disk
      (catalogRun greeterEnv greeterSteps).tables := by
  have hsafe : Runs.Meets (CatalogStep.apply greeterEnv emptyLibrary emptyWorkspace fun _ => none)
      (fun system step => step.isSafe greeterEnv system = true) {} greeterSteps := by
    decide +kernel
  exact enabled_catalog_loads hsafe

/-- A second plugin with the same node type. -/
def echoPackage : PackageEntry := .directory [
  (Utf8.encode "kakune.plugin.json".toList, .file <| Utf8.encode <|
    "\x7b\"manifestVersion\":\"1.0\",\"id\":\"demo.echo\",\"name\":\"Echo\",".toList ++
      "\"version\":\"1.0.0\",\"pluginProtocol\":\">=1.0.0 <2.0.0\",".toList ++
      "\"runtime\":\x7b\"kind\":\"process\",\"command\":\"./echo\"\x7d,".toList ++
      "\"contributes\":\x7b\"nodes\":[\"echo.json\"]\x7d\x7d".toList),
  (Utf8.encode "echo.json".toList, .file <| Utf8.encode <|
    "\x7b\"apiVersion\":\"kakune.dev/v1\",\"kind\":\"NodeDefinition\",".toList ++
      "\"type\":\"demo.greet@1\",\"name\":\"Echo\"\x7d".toList)]

def echoPrepared : PreparedPlugin where
  id := "0a4be1a4-98a2-4dd0-9ad6-5c1f6a1f9b7d"
  pluginId := "demo.echo"
  version := "1.0.0"
  digest := "sha256:1a100bdaa70e909e348a45880ea1f5321e9911603fa1807361631c23827f8360"
  policy := .object []
  resolvedLock := .object [("requestedSource", .string "/packages/echo")]
  provenance := .object []

/-- The hash and the readers, for the two packages. -/
def twoPluginsEnv : InstallEnv where
  dataDir := "/data"
  sha256 := fun input =>
    if input.length = 341 then "dfef75541a642015fce04e02e74cc35536ec44b2cb30e61ca6753f67ec3fa2c8"
    else "1a100bdaa70e909e348a45880ea1f5321e9911603fa1807361631c23827f8360"
  parseUrl := fun _ => none
  loadManifest := fun package _ => .ok <|
    if hasFile package "greet.json" then greeterManifest
    else ⟨"demo.echo", "Echo", "1.0.0", some ["echo.json"]⟩
  loadNodeType := fun _ _ => .ok "demo.greet@1"

/-- The first plugin is disabled while the second one is installed, and enabled again. -/
def twoPluginsSteps : List CatalogStep :=
  installSteps 0 greeterPrepared greeterPackage ++ setEnabledStep "demo.greeter" false ::
    installSteps 0 echoPrepared echoPackage ++ [setEnabledStep "demo.greeter" true]

theorem enabled_again_is_registered_twice :
    ¬ CatalogLoads twoPluginsEnv (catalogRun twoPluginsEnv twoPluginsSteps).disk
      (catalogRun twoPluginsEnv twoPluginsSteps).tables := by
  rintro ⟨-, registered, hload, -⟩
  have herror : loadInstalledPluginRegistry twoPluginsEnv
      (catalogRun twoPluginsEnv twoPluginsSteps).disk
      (catalogRun twoPluginsEnv twoPluginsSteps).tables.listInstalledPlugins =
        .error ("cannot load installed plugin demo.greeter: " ++
          "plugin node type demo.greet@1 is already registered") := by
    decide +kernel
  rw [herror] at hload
  cases hload

end KakuneCore
