import KakuneCore.Store.Plugins

/-!
# The content of pinned plugins

A pin copies version, digest and path of the plugin it is taken on. Every operation that would
change the content of a plugin, or delete it, first looks whether the plugin is pinned; every
operation that takes a pin first looks whether the plugin is active and enabled. Together: **a pin
names the content of an installed plugin**, and a plugin that is being removed gets no new pin.
-/

namespace KakuneCore

/-! ### Store calls on executions -/

/-- Pins were only released; plugins and removals are as they were. -/
structure Tables.OnlyReleases (tables tables' : Tables) : Prop where
  plugins : tables'.plugins = tables.plugins
  removals : tables'.removalWorkflows = tables.removalWorkflows
  pins : tables'.pins ⊆ tables.pins

namespace Tables.OnlyReleases

variable {tables tables' tables'' : Tables}

theorem refl : OnlyReleases tables tables := ⟨rfl, rfl, List.Subset.refl _⟩

theorem trans (h : OnlyReleases tables tables') (h' : OnlyReleases tables' tables'') :
    OnlyReleases tables tables'' :=
  ⟨h'.plugins.trans h.plugins, h'.removals.trans h.removals, List.Subset.trans h'.pins h.pins⟩

theorem updateExecutions (p : ExecutionRow → Bool) (f : ExecutionRow → ExecutionRow) :
    OnlyReleases tables (tables.updateExecutions p f) :=
  ⟨rfl, rfl, List.filter_sublist.subset⟩

theorem appendEvent (h : OnlyReleases tables tables') (eventType resourceId : String)
    (executionId : Option String) (payload : Value) (timestamp : String) :
    OnlyReleases tables (tables'.appendEvent eventType resourceId executionId payload timestamp) :=
  ⟨h.plugins, h.removals, h.pins⟩

theorem recoverAll (now : String) (todo : List ExecutionRow) (tables : Tables) :
    OnlyReleases tables (todo.foldl (recoverExecution now) tables) := by
  induction todo generalizing tables with
  | nil => exact .refl
  | cons first todo ih =>
    have hfirst : OnlyReleases tables (recoverExecution now tables first) :=
      (updateExecutions _ _).appendEvent _ _ _ _ _
    exact hfirst.trans (ih _)

end Tables.OnlyReleases

/-- Plugins and removals are as they were; every pin is an old one or on a plugin that may be
used. -/
structure Tables.PinsTaken (tables tables' : Tables) : Prop where
  plugins : tables'.plugins = tables.plugins
  removals : tables'.removalWorkflows = tables.removalWorkflows
  pins : ∀ pin ∈ tables'.pins, pin ∈ tables.pins ∨ tables.MayPin pin

theorem Tables.OnlyReleases.pinsTaken {tables tables' : Tables} (h : OnlyReleases tables tables') :
    PinsTaken tables tables' :=
  ⟨h.plugins, h.removals, fun _ hpin => .inl (h.pins hpin)⟩

theorem Tables.PinsAdded.pinsTaken {executionId : String} {tables tables' : Tables}
    (h : PinsAdded executionId tables tables') : PinsTaken tables tables' := by
  obtain ⟨pins, rfl, hpins⟩ := h
  refine ⟨rfl, rfl, fun pin hpin => ?_⟩
  rcases List.mem_append.mp hpin with hpin | hpin
  · exact .inl hpin
  · exact .inr (hpins pin hpin).2

theorem Tables.pinsTaken_create (tables : Tables) (admission : Admission) :
    PinsTaken tables (StoreCall.apply tables (.create admission)) := by
  obtain heq | ⟨record, tables', hadmit, -, heq⟩ := tables.createExecution_cases admission
  · rw [heq]
    exact OnlyReleases.refl.pinsTaken
  · rw [heq]
    obtain ⟨status, pinned, -, hpin, -, hpins, hplugins, -, -, hremovals, -⟩ :=
      admitExecution_eq_ok hadmit
    obtain ⟨hadded, -⟩ := pinPlugins_eq_ok hpin
    refine ⟨hplugins, hremovals, fun pin hmem => ?_⟩
    rw [hpins] at hmem
    exact hadded.pinsTaken.pins pin hmem

theorem StoreCall.pinsTaken_apply (tables : Tables) (call : StoreCall) (h : ¬call.IsCatalog) :
    tables.PinsTaken (call.apply tables) := by
  cases call with
  | create admission => exact tables.pinsTaken_create admission
  | claim id maxRuns now =>
    refine Tables.OnlyReleases.pinsTaken ?_
    rw [apply, Tables.claimExecutionSlot]
    split
    · exact .refl
    · split
      · exact .refl
      · split
        · exact (Tables.OnlyReleases.updateExecutions _ _).appendEvent _ _ _ _ _
        · exact .refl
  | requestCancel id => exact (Tables.OnlyReleases.updateExecutions _ _).pinsTaken
  | requestCancelOutcome id now =>
    refine Tables.OnlyReleases.pinsTaken ?_
    rw [apply, Tables.requestExecutionCancelOutcome]
    split
    · exact .refl
    · split
      · exact (Tables.OnlyReleases.updateExecutions _ _).appendEvent _ _ _ _ _
      · exact (Tables.OnlyReleases.updateExecutions _ _).appendEvent _ _ _ _ _
      · exact .refl
      · exact .refl
  | cancelQueued id now => exact (Tables.OnlyReleases.updateExecutions _ _).pinsTaken
  | finish id status error now =>
    refine Tables.OnlyReleases.pinsTaken ?_
    rw [apply, Tables.finishExecution]
    split
    · exact .refl
    · split
      · exact .refl
      · exact (Tables.OnlyReleases.updateExecutions _ _).appendEvent _ _ _ _ _
  | recover now => exact (Tables.OnlyReleases.recoverAll now _ tables).pinsTaken
  | checkpoint execution write =>
    refine Tables.OnlyReleases.pinsTaken ?_
    rw [apply]
    split
    · exact ⟨rfl, rfl, List.Subset.refl _⟩
    · exact .refl
  | catalog workflows plugins removalWorkflows => exact absurd trivial h
  | setPinned id pinned => exact (Tables.OnlyReleases.updateExecutions _ _).pinsTaken
  | applyRetention executionBefore eventBefore =>
    exact Tables.PinsTaken.mk rfl rfl fun pin hpin => .inl (List.mem_of_mem_filter hpin)

/-! ### Plugin operations -/

/-- A plugin keeps its content; it is not revived, and it is enabled only while it is active. -/
structure PluginRow.Keeps (plugin plugin' : PluginRow) : Prop where
  content : ∀ executionId, plugin'.pin executionId = plugin.pin executionId
  active : plugin'.status = .active → plugin.status = .active
  disabled : (plugin.status ≠ .active → plugin.enabled = false) → plugin'.status ≠ .active →
    plugin'.enabled = false

theorem PluginRow.Keeps.refl (plugin : PluginRow) : plugin.Keeps plugin :=
  ⟨fun _ => rfl, fun h => h, fun h => h⟩

theorem PluginRow.Keeps.id_eq {plugin plugin' : PluginRow} (h : plugin.Keeps plugin') :
    plugin'.id = plugin.id := congrArg PinRow.pluginId (h.content "")

/-- The call installs a plugin. -/
def PluginCall.Installs (id : String) (call : PluginCall) : Prop :=
  ∃ install : PluginInstall, call = .upsert install ∧ install.id = id

/-- The call publishes the removal of a plugin. -/
def PluginCall.Bars (id : String) (call : PluginCall) : Prop :=
  ∃ workflowIds, call = .requestRemoval id workflowIds

/-- The call lists a workflow for the removal of a plugin. -/
def PluginCall.Lists (removal : String × String) (call : PluginCall) : Prop :=
  ∃ workflowIds, call = .requestRemoval removal.1 workflowIds ∧ removal.2 ∈ workflowIds

/-- Where the row of a plugin comes from: it is new, or the row before with its content kept, or the
row of an active plugin without pins with another content. -/
inductive PluginRow.ComesFrom (call : PluginCall) (tables : Tables) (plugin' : PluginRow) : Prop
  | new (hcall : call.Installs plugin'.id) (hactive : plugin'.status = .active)
      (hnew : ∀ plugin ∈ tables.plugins, plugin.id ≠ plugin'.id)
  | kept (plugin : PluginRow) (hplugin : plugin ∈ tables.plugins) (h : plugin.Keeps plugin')
      (hbars : plugin.status = .active → plugin'.status ≠ .active → call.Bars plugin.id)
  | replaced (plugin : PluginRow) (hcall : call.Installs plugin'.id)
      (hplugin : plugin ∈ tables.plugins) (hid : plugin'.id = plugin.id)
      (hactive : plugin.status = .active) (hpins : tables.isPinned plugin.id = false)
      (hactive' : plugin'.status = .active)

/-- The call deletes the row of a plugin. -/
inductive PluginCall.Deletes (plugin : PluginRow) : PluginCall → Prop
  | finalize (h : plugin.status = .pendingRemoval) : Deletes plugin (.finalize plugin.id)
  | remove (h : plugin.status = .active) : Deletes plugin (.removeInstall plugin.id)

/-- What a call does to plugins and pins. -/
structure PluginStep (call : PluginCall) (tables tables' : Tables) : Prop where
  ids : (tables.plugins.map PluginRow.id).Nodup → (tables'.plugins.map PluginRow.id).Nodup
  rows : ∀ plugin ∈ tables'.plugins, plugin.ComesFrom call tables
  kept : ∀ plugin ∈ tables.plugins, (∃ plugin' ∈ tables'.plugins, plugin'.id = plugin.id) ∨
    (call.Deletes plugin ∧ tables.isPinned plugin.id = false ∧
      ∀ removal ∈ tables'.removalWorkflows, removal.1 ≠ plugin.id)
  pins : ∀ pin ∈ tables'.pins, pin ∈ tables.pins ∨
    (tables.MayPin pin ∧ tables'.plugins = tables.plugins)
  removals : ∀ removal ∈ tables'.removalWorkflows, removal ∈ tables.removalWorkflows ∨
    (call.Lists removal ∧
      ∃ plugin ∈ tables'.plugins, plugin.id = removal.1 ∧ plugin.status ≠ .active)

theorem PluginRow.ComesFrom.refl {call : PluginCall} {tables : Tables} {plugin : PluginRow}
    (h : plugin ∈ tables.plugins) : plugin.ComesFrom call tables :=
  .kept plugin h (.refl plugin) fun hactive hinactive => absurd hactive hinactive

namespace PluginStep

variable {call : PluginCall} {tables tables' : Tables}

theorem of_pinsTaken (h : tables.PinsTaken tables') : PluginStep call tables tables' where
  ids hids := by
    rw [h.plugins]
    exact hids
  rows plugin hplugin := by
    rw [h.plugins] at hplugin
    exact .refl hplugin
  kept plugin hplugin := by
    rw [← h.plugins] at hplugin
    exact .inl ⟨plugin, hplugin, rfl⟩
  pins pin hpin := (h.pins pin hpin).imp_right fun hmay => ⟨hmay, h.plugins⟩
  removals removal hremoval := .inl (h.removals ▸ hremoval)

theorem refl : PluginStep call tables tables := of_pinsTaken Tables.OnlyReleases.refl.pinsTaken

/-- An update of plugin rows, in tables with the same pins. -/
theorem of_update {p : PluginRow → Bool} {f : PluginRow → PluginRow}
    (hplugins : tables'.plugins = Table.updateWhere tables.plugins p f)
    (hpins : tables'.pins = tables.pins)
    (hremovals : ∀ removal ∈ tables'.removalWorkflows, removal ∈ tables.removalWorkflows ∨
      (call.Lists removal ∧
        ∃ plugin ∈ tables'.plugins, plugin.id = removal.1 ∧ plugin.status ≠ .active))
    (hid : ∀ plugin, p plugin = true → (f plugin).id = plugin.id)
    (hrow : ∀ plugin ∈ tables.plugins, p plugin = true → (f plugin).ComesFrom call tables) :
    PluginStep call tables tables' where
  ids hids := by
    have hmap : (Table.updateWhere tables.plugins p f).map PluginRow.id =
        tables.plugins.map PluginRow.id := by
      refine Table.map_eq_of_forall₂ (R := fun plugin plugin' => plugin'.id = plugin.id) _
        (fun _ _ h => h)
          (Table.forall₂_updateWhere (fun plugin _ hp => hid plugin hp) fun _ _ _ => rfl)
    rw [hplugins, hmap]
    exact hids
  rows plugin hplugin := by
    rw [hplugins, Table.mem_updateWhere] at hplugin
    obtain ⟨hold, -⟩ | ⟨old, hold, hp, rfl⟩ := hplugin
    · exact .refl hold
    · exact hrow old hold hp
  kept plugin hplugin := by
    refine .inl ?_
    rw [hplugins]
    by_cases hp : p plugin = true
    · exact ⟨f plugin, Table.mem_updateWhere.mpr (.inr ⟨plugin, hplugin, hp, rfl⟩), hid plugin hp⟩
    · exact ⟨plugin, Table.mem_updateWhere.mpr (.inl ⟨hplugin, by simpa using hp⟩), rfl⟩
  pins pin hpin := .inl (hpins ▸ hpin)
  removals := hremovals

/-- A deletion of the row of a plugin without pins. -/
theorem of_delete {plugin : PluginRow} (hplugin : tables.plugin plugin.id = some plugin)
    (hids : (tables.plugins.map PluginRow.id).Nodup) (hdeletes : call.Deletes plugin)
    (hpins : tables.isPinned plugin.id = false) :
    PluginStep call tables (tables.deletePlugin plugin.id) where
  ids hids := hids.sublist (List.filter_sublist.map _)
  rows other hother := .refl (List.mem_of_mem_filter hother)
  kept other hother := by
    by_cases hid : other.id = plugin.id
    · obtain rfl : other = plugin := by
        have hlookup : tables.plugin other.id = some other := Table.lookup_of_mem hids hother
        rw [hid, hplugin] at hlookup
        exact (Option.some.inj hlookup).symm
      exact .inr ⟨hdeletes, hpins, fun removal hremoval => by
        simpa using (List.mem_filter.mp hremoval).2⟩
    · exact .inl ⟨other, List.mem_filter.mpr ⟨hother, by simpa using hid⟩, rfl⟩
  pins pin hpin := .inl hpin
  removals removal hremoval := .inl (List.mem_of_mem_filter hremoval)

end PluginStep

/-- What disabling the dependent workflows lists. -/
theorem Tables.removals_of_disableDependent {pluginId : String} {workflowIds : List String}
    {tables tables' : Tables}
    (h : workflowIds.foldlM (disableDependent pluginId) tables = .ok tables')
    {removal : String × String} (hremoval : removal ∈ tables'.removalWorkflows) :
    removal ∈ tables.removalWorkflows ∨ (removal.1 = pluginId ∧ removal.2 ∈ workflowIds) := by
  induction workflowIds generalizing tables with
  | nil =>
    cases h
    exact .inl hremoval
  | cons id workflowIds ih =>
    obtain ⟨next, hnext, hrest⟩ := except_bind_eq_ok h
    obtain hold | ⟨hplugin, hmem⟩ := ih hrest
    · rw [disableDependent] at hnext
      split at hnext
      · cases hnext
        dsimp only at hold
        split at hold
        · exact .inl hold
        · rcases List.mem_append.mp hold with hold | hnew
          · exact .inl hold
          · rw [List.mem_singleton.mp hnew]
            exact .inr ⟨rfl, List.mem_cons_self⟩
      · cases hnext
    · exact .inr ⟨hplugin, List.mem_cons_of_mem _ hmem⟩

/-- The barrier: the plugin is pending removal and disabled, pins are as they were. -/
theorem Tables.pluginStep_requestPluginRemoval {tables tables' : Tables} {pluginId : String}
    {workflowIds : List String} {count : Nat}
    (h : tables.requestPluginRemoval pluginId workflowIds = .ok (count, tables')) :
    PluginStep (.requestRemoval pluginId workflowIds) tables tables' := by
  rw [requestPluginRemoval] at h
  split at h
  · cases h
  · split at h
    · cases h
    · next hinstalled =>
      obtain ⟨next, hnext, hrest⟩ := except_bind_eq_ok h
      cases hrest
      obtain ⟨⟨-, hpins⟩, hplugins⟩ := foldlM_disableDependent hnext
      refine .of_update hplugins hpins (fun removal hremoval => ?_) (fun _ _ => rfl)
        fun plugin hplugin hselected => ?_
      · obtain hold | ⟨hid, hmem⟩ := removals_of_disableDependent hnext hremoval
        · exact .inl hold
        · refine .inr ⟨⟨workflowIds, by rw [hid], hmem⟩, ?_⟩
          obtain ⟨plugin, hplugin⟩ := Option.ne_none_iff_exists'.mp
            fun hnone => hinstalled (Option.isNone_iff_eq_none.mpr hnone)
          obtain ⟨hold, hpluginId⟩ := Table.mem_of_lookup hplugin
          rw [hplugins, hid]
          exact ⟨_, Table.mem_updateWhere.mpr (.inr ⟨plugin, hold, decide_eq_true hpluginId, rfl⟩),
            hpluginId, by simp⟩
      · refine .kept plugin hplugin
          ⟨fun _ => rfl, fun h => absurd h (by simp), fun _ _ => rfl⟩ fun _ _ => ?_
        rw [of_decide_eq_true hselected]
        exact ⟨workflowIds, rfl⟩

/-- An installation adds a row, or replaces that of a plugin that no execution holds. -/
theorem PluginCall.pluginStep_upsert {tables : Tables}
    (hids : (tables.plugins.map PluginRow.id).Nodup) (install : PluginInstall) :
    PluginStep (.upsert install) tables ((PluginCall.upsert install).apply tables) := by
  rw [apply, Tables.upsertPluginInstall]
  split
  · next hnone =>
    have hnew := Table.lookup_eq_none.mp hnone
    refine ⟨fun hids => ?_, fun plugin hplugin => ?_, fun plugin hplugin => ?_, fun _ => .inl,
      fun _ => .inl⟩
    · exact Table.nodup_map_concat hids (List.Sublist.refl _) hnew
    · rcases List.mem_append.mp hplugin with hold | hplugin
      · exact .refl hold
      · obtain rfl := List.mem_singleton.mp hplugin
        exact .new ⟨install, rfl, rfl⟩ rfl hnew
    · exact .inl ⟨plugin, List.mem_append_left _ hplugin, rfl⟩
  · next plugin hplugin =>
    obtain ⟨hmem, hid⟩ := Table.mem_of_lookup hplugin
    split
    · next hfree =>
      rw [Bool.and_eq_true, decide_eq_true_eq, Bool.not_eq_true'] at hfree
      refine .of_update rfl rfl (fun _ => .inl) (fun other hother => ?_)
        fun other hother hselected => ?_
      · exact (of_decide_eq_true hother).symm
      · have hother' : other.id = install.id := of_decide_eq_true hselected
        obtain rfl : other = plugin := by
          have hlookup : tables.plugin other.id = some other := Table.lookup_of_mem hids hother
          rw [hother', hplugin] at hlookup
          exact (Option.some.inj hlookup).symm
        exact .replaced other ⟨install, rfl, rfl⟩ hother hid.symm hfree.1 (hid ▸ hfree.2) hfree.1
    · exact .refl

theorem PluginCall.pluginStep (tables : Tables) (hids : (tables.plugins.map PluginRow.id).Nodup)
    (call : PluginCall) : PluginStep call tables (call.apply tables) := by
  cases call with
  | execution call h => exact .of_pinsTaken (call.pinsTaken_apply tables h)
  | workflows rows => exact .of_pinsTaken ⟨rfl, rfl, fun _ hpin => .inl hpin⟩
  | acquire executionId pluginIds =>
    obtain heq | ⟨hadded, -⟩ := acquire_cases tables executionId pluginIds
    · rw [heq]
      exact .refl
    · exact .of_pinsTaken hadded.pinsTaken
  | upsert install => exact pluginStep_upsert hids install
  | setEnabled id enabled =>
    rw [apply, Tables.setPluginEnabled]
    split
    · exact .refl
    · refine .of_update rfl rfl (fun _ => .inl) (fun _ _ => rfl) fun plugin hplugin hselected => ?_
      rw [Bool.and_eq_true] at hselected
      refine .kept plugin hplugin ⟨fun _ => rfl, fun h => h, fun _ hinactive => ?_⟩
        fun hactive hinactive => absurd hactive hinactive
      cases enabled with
      | false => rfl
      | true => exact absurd (of_decide_eq_true (by simpa using hselected.2)) hinactive
  | requestRemoval pluginId workflowIds =>
    rw [apply]
    cases h : tables.requestPluginRemoval pluginId workflowIds with
    | error e => exact .refl
    | ok result => exact Tables.pluginStep_requestPluginRemoval h
  | markFailed pluginId details =>
    rw [apply, Tables.markPluginRemovalFailed]
    split
    · exact .refl
    · dsimp only
      split
      · refine .of_update rfl rfl (fun _ => .inl)
          (fun _ _ => rfl) fun plugin hplugin hselected => ?_
        rw [Bool.and_eq_true] at hselected
        have hpending : plugin.status = .pendingRemoval := of_decide_eq_true hselected.2
        have hinactive : plugin.status ≠ .active := by
          rw [hpending]
          decide
        exact .kept plugin hplugin ⟨fun _ => rfl, fun h => absurd h (by simp),
          fun hdisabled _ => hdisabled hinactive⟩ fun hactive _ => absurd hactive hinactive
      · exact .refl
  | resume pluginId =>
    refine .of_update rfl rfl (fun _ => .inl) (fun _ _ => rfl) fun plugin hplugin hselected => ?_
    rw [Bool.and_eq_true] at hselected
    have hfailed : plugin.status = .removalFailed := of_decide_eq_true hselected.2
    have hinactive : plugin.status ≠ .active := by
      rw [hfailed]
      decide
    exact .kept plugin hplugin ⟨fun _ => rfl, fun h => absurd h (by simp),
      fun hdisabled _ => hdisabled hinactive⟩ fun hactive _ => absurd hactive hinactive
  | finalize pluginId =>
    rw [apply, Tables.finalizePluginRemoval]
    split
    · exact .refl
    · next plugin hplugin =>
      split
      · exact .refl
      · next hstatus =>
        split
        · exact .refl
        · next hcount =>
          obtain ⟨-, rfl⟩ := Table.mem_of_lookup hplugin
          refine .of_delete hplugin hids (.finalize (not_not.mp hstatus)) ?_
          rw [not_not, Tables.pluginExecutionPinCount, List.countP_eq_zero] at hcount
          simpa [Tables.isPinned] using hcount
  | removeInstall id =>
    rw [apply, Tables.removePluginInstall]
    split
    · exact .refl
    · next plugin hplugin =>
      split
      · exact .refl
      · next hblocked =>
        obtain ⟨-, rfl⟩ := Table.mem_of_lookup hplugin
        simp only [Bool.or_eq_true, decide_eq_true_eq, not_or, not_not,
          Bool.not_eq_true] at hblocked
        exact .of_delete hplugin hids (.remove hblocked.1) hblocked.2

/-! ### The invariant -/

/-- A pin names the content of an installed plugin, and a plugin that is not active is disabled. -/
structure Tables.PluginsSound (tables : Tables) : Prop where
  ids : (tables.plugins.map PluginRow.id).Nodup
  pinned : ∀ pin ∈ tables.pins, ∃ plugin ∈ tables.plugins, pin = plugin.pin pin.executionId
  disabled : ∀ plugin ∈ tables.plugins, plugin.status ≠ .active → plugin.enabled = false

theorem Tables.PluginsSound.eq_of_id {tables : Tables} (h : tables.PluginsSound)
    {plugin plugin' : PluginRow} (hplugin : plugin ∈ tables.plugins)
    (hplugin' : plugin' ∈ tables.plugins) (hid : plugin'.id = plugin.id) : plugin' = plugin := by
  have hlookup : tables.plugin plugin.id = some plugin := Table.lookup_of_mem h.ids hplugin
  have hlookup' : tables.plugin plugin'.id = some plugin' := Table.lookup_of_mem h.ids hplugin'
  rw [hid, hlookup] at hlookup'
  exact (Option.some.inj hlookup').symm

/-- A plugin that is named by a pin is pinned. -/
theorem Tables.isPinned_of_pin {tables : Tables} {pin : PinRow} {plugin : PluginRow}
    (hpin : pin ∈ tables.pins) (hplugin : pin = plugin.pin pin.executionId) :
    tables.isPinned plugin.id = true := by
  refine List.any_eq_true.mpr ⟨pin, hpin, decide_eq_true ?_⟩
  rw [hplugin]
  rfl

namespace PluginStep

variable {call : PluginCall} {tables tables' : Tables}

/-- The content of a pinned plugin stays. -/
theorem pinned (h : PluginStep call tables tables') (hsound : tables.PluginsSound) {pin : PinRow}
    {plugin : PluginRow} (hpin : pin ∈ tables.pins) (hplugin : plugin ∈ tables.plugins)
    (hcontent : pin = plugin.pin pin.executionId) :
    ∃ plugin' ∈ tables'.plugins, plugin.Keeps plugin' := by
  have hisPinned := Tables.isPinned_of_pin hpin hcontent
  obtain ⟨plugin', hplugin', hid⟩ | ⟨-, hfree⟩ := h.kept plugin hplugin
  · cases h.rows plugin' hplugin' with
    | new _ _ hnew => exact absurd hid.symm (hnew plugin hplugin)
    | kept old hold hkeeps _ =>
      obtain rfl := hsound.eq_of_id hplugin hold (hkeeps.id_eq.symm.trans hid)
      exact ⟨plugin', hplugin', hkeeps⟩
    | replaced old _ hold hid' _ hfree _ =>
      obtain rfl := hsound.eq_of_id hplugin hold (hid'.symm.trans hid)
      rw [hisPinned] at hfree
      cases hfree
  · rw [hisPinned] at hfree
    cases hfree.1

theorem sound (h : PluginStep call tables tables') (hsound : tables.PluginsSound) :
    tables'.PluginsSound where
  ids := h.ids hsound.ids
  pinned pin hpin := by
    obtain hold | ⟨⟨plugin, hplugin, -, -, hcontent⟩, heq⟩ := h.pins pin hpin
    · obtain ⟨plugin, hplugin, hcontent⟩ := hsound.pinned pin hold
      obtain ⟨plugin', hplugin', hkeeps⟩ := h.pinned hsound hold hplugin hcontent
      exact ⟨plugin', hplugin', hcontent.trans (hkeeps.content pin.executionId).symm⟩
    · exact ⟨plugin, heq ▸ hplugin, hcontent⟩
  disabled plugin hplugin hinactive := by
    cases h.rows plugin hplugin with
    | new _ hactive _ => exact absurd hactive hinactive
    | kept old hold hkeeps _ => exact hkeeps.disabled (hsound.disabled old hold) hinactive
    | replaced _ _ _ _ _ _ hactive => exact absurd hactive hinactive

/-- A plugin that is not active gets no new pin. -/
theorem no_new_pin (h : PluginStep call tables tables') (hsound : tables.PluginsSound)
    {plugin : PluginRow} (hplugin : plugin ∈ tables.plugins) (hinactive : plugin.status ≠ .active)
    {pin : PinRow} (hpin : pin ∈ tables'.pins) (hid : pin.pluginId = plugin.id) :
    pin ∈ tables.pins := by
  obtain hold | ⟨⟨other, hother, hactive, -, hcontent⟩, -⟩ := h.pins pin hpin
  · exact hold
  · have hotherId : other.id = plugin.id := by
      rw [← hid, hcontent]
      rfl
    obtain rfl := hsound.eq_of_id hplugin hother hotherId
    exact absurd hactive hinactive

/-- A plugin that is not active does not become active again. -/
theorem inactive (h : PluginStep call tables tables') (hsound : tables.PluginsSound)
    {plugin plugin' : PluginRow} (hplugin : plugin ∈ tables.plugins)
    (hplugin' : plugin' ∈ tables'.plugins) (hid : plugin'.id = plugin.id)
    (hinactive : plugin.status ≠ .active) : plugin'.status ≠ .active := by
  cases h.rows plugin' hplugin' with
  | new _ _ hnew => exact absurd hid.symm (hnew plugin hplugin)
  | kept old hold hkeeps _ =>
    obtain rfl := hsound.eq_of_id hplugin hold (hkeeps.id_eq.symm.trans hid)
    exact fun hactive => hinactive (hkeeps.active hactive)
  | replaced old _ hold hid' hactive _ _ =>
    obtain rfl := hsound.eq_of_id hplugin hold (hid'.symm.trans hid)
    exact absurd hactive hinactive

/-- A plugin that stays away from `active` keeps its content. -/
theorem content_of_inactive (h : PluginStep call tables tables') (hsound : tables.PluginsSound)
    {plugin plugin' : PluginRow} (hplugin : plugin ∈ tables.plugins)
    (hplugin' : plugin' ∈ tables'.plugins) (hid : plugin'.id = plugin.id)
    (hinactive : plugin'.status ≠ .active) : plugin.Keeps plugin' := by
  cases h.rows plugin' hplugin' with
  | new _ hactive _ => exact absurd hactive hinactive
  | kept old hold hkeeps _ =>
    obtain rfl := hsound.eq_of_id hplugin hold (hkeeps.id_eq.symm.trans hid)
    exact hkeeps
  | replaced _ _ _ _ _ _ hactive => exact absurd hactive hinactive

end PluginStep

theorem Tables.pluginsSound_empty : ({} : Tables).PluginsSound where
  ids := List.nodup_nil
  pinned _ hpin := absurd hpin List.not_mem_nil
  disabled _ hplugin := absurd hplugin List.not_mem_nil

/-! ### How long a pin stays -/

/-- A pin that was lost belongs to an execution that has ended, or is gone. -/
def Tables.LosesEnded (tables tables' : Tables) : Prop :=
  ∀ pin ∈ tables.pins, pin ∉ tables'.pins →
    ∀ row ∈ tables'.executions, row.id = pin.executionId → row.status.IsTerminal

theorem ExecutionStatus.isTerminal_of_releasesPins {status : ExecutionStatus}
    (h : status.releasesPins = true) : status.IsTerminal := by
  cases status <;> trivial

namespace Tables.LosesEnded

variable {tables tables' : Tables}

theorem of_subset (h : tables.pins ⊆ tables'.pins) : LosesEnded tables tables' :=
  fun _ hpin hlost => absurd (h hpin) hlost

theorem refl : LosesEnded tables tables := of_subset (List.Subset.refl _)

theorem appendEvent (h : LosesEnded tables tables') (eventType resourceId : String)
    (executionId : Option String) (payload : Value) (timestamp : String) :
    LosesEnded tables (tables'.appendEvent eventType resourceId executionId payload timestamp) :=
  h

/-- The trigger releases the pins of executions that it finds ended. -/
theorem updateExecutions (hids : tables.UniqueIds) {p : ExecutionRow → Bool}
    {f : ExecutionRow → ExecutionRow} (hid : ∀ row, (f row).id = row.id) :
    LosesEnded tables (tables.updateExecutions p f) := by
  intro pin hpin hlost row hrow hrowId
  have hreleased : ∃ released ∈ tables.executions, p released = true ∧
      (f released).status.releasesPins = true ∧ released.id = pin.executionId := by
    by_contra hnone
    refine hlost (List.mem_filter.mpr ⟨hpin, ?_⟩)
    rw [Bool.not_eq_true', List.any_eq_false]
    intro released hreleased hspec
    simp only [Bool.and_eq_true, decide_eq_true_eq] at hspec
    exact hnone ⟨released, hreleased, hspec.1.1, hspec.1.2, hspec.2⟩
  obtain ⟨released, hreleased, hp, hstatus, hreleasedId⟩ := hreleased
  have hsame : ∀ old ∈ tables.executions, old.id = pin.executionId → old = released := by
    intro old hold holdId
    have h₁ := Table.lookup_of_mem hids hold
    have h₂ := Table.lookup_of_mem hids hreleased
    rw [holdId] at h₁
    rw [hreleasedId] at h₂
    exact Option.some_injective _ (h₁.symm.trans h₂)
  obtain ⟨hold, hother⟩ | ⟨old, hold, -, rfl⟩ := Table.mem_updateWhere.mp hrow
  · rw [hsame row hold hrowId, hp] at hother
    cases hother
  · rw [hsame old hold ((hid old).symm.trans hrowId)]
    exact ExecutionStatus.isTerminal_of_releasesPins hstatus

theorem applyRetention (hids : tables.UniqueIds) (executionBefore eventBefore : String) :
    LosesEnded tables (tables.applyRetention executionBefore eventBefore) := by
  intro pin hpin hlost row hrow hrowId
  obtain ⟨hold, hkept⟩ := List.mem_filter.mp hrow
  refine absurd (List.mem_filter.mpr ⟨hpin, ?_⟩) hlost
  rw [Bool.not_eq_true', List.any_eq_false]
  intro other hother hspec
  rw [Bool.and_eq_true, decide_eq_true_eq] at hspec
  have h₁ := Table.lookup_of_mem hids hold
  have h₂ := Table.lookup_of_mem hids hother
  rw [hrowId] at h₁
  rw [hspec.1] at h₂
  obtain rfl : row = other := Option.some_injective _ (h₁.symm.trans h₂)
  rw [hspec.2] at hkept
  cases hkept

/-- The recovery loop releases the pins of the executions it ends. -/
theorem recoverAll (now : String) (todo : List ExecutionRow) {pin : PinRow} :
    ∀ tables : Tables, pin ∈ tables.pins →
      pin ∉ (todo.foldl (recoverExecution now) tables).pins →
        ∃ row ∈ todo, row.id = pin.executionId ∧ (tables.recoveryOf row).1.IsTerminal := by
  induction todo with
  | nil => exact fun _ hpin hlost => absurd hpin hlost
  | cons first todo ih =>
    intro tables hpin hlost
    by_cases hnext : pin ∈ (recoverExecution now tables first).pins
    · obtain ⟨row, hrow, hspec⟩ := ih _ hnext hlost
      exact ⟨row, List.mem_cons_of_mem _ hrow, hspec⟩
    · by_contra hnone
      refine hnext (List.mem_filter.mpr ⟨hpin, ?_⟩)
      rw [Bool.not_eq_true', List.any_eq_false]
      intro row _ hspec
      simp only [Bool.and_eq_true, decide_eq_true_eq] at hspec
      refine hnone ⟨first, List.mem_cons_self, hspec.1.1.symm.trans hspec.2, ?_⟩
      exact ExecutionStatus.isTerminal_of_releasesPins hspec.1.2

theorem recover (hids : tables.UniqueIds) (now : String) :
    LosesEnded tables (tables.recoverIncompleteExecutions now).2 := by
  intro pin hpin hlost row hrow hrowId
  obtain ⟨ended, hended, hendedId, hterminal⟩ := recoverAll now _ tables hpin hlost
  obtain ⟨hmem, hactive⟩ := List.mem_filter.mp hended
  have hrecovered := execution_recover hids hmem hactive now
  have hids' : (tables.recoverIncompleteExecutions now).2.UniqueIds := by
    rw [UniqueIds, (steps_recover hids now).1.map_id]
    exact hids
  have hlookup := Table.lookup_of_mem hids' hrow
  rw [hrowId, ← hendedId] at hlookup
  obtain rfl : recoveredRow now tables ended = row :=
    Option.some_injective _ (hrecovered.symm.trans hlookup)
  exact hterminal

end Tables.LosesEnded

theorem StoreCall.losesEnded_apply {tables : Tables} (hids : tables.UniqueIds) (call : StoreCall) :
    tables.LosesEnded (call.apply tables) := by
  cases call with
  | create admission =>
    obtain heq | ⟨record, tables', hadmit, -, heq⟩ := tables.createExecution_cases admission
    · rw [heq]
      exact .refl
    · rw [heq]
      obtain ⟨status, pinned, -, hpin, -, hpins, -⟩ := Tables.admitExecution_eq_ok hadmit
      obtain ⟨⟨pins, rfl, -⟩, -⟩ := Tables.pinPlugins_eq_ok hpin
      refine .of_subset ?_
      rw [hpins]
      exact List.subset_append_left _ _
  | claim id maxRuns now =>
    rw [apply, Tables.claimExecutionSlot]
    split
    · exact .refl
    · split
      · exact .refl
      · split
        · refine .appendEvent (.updateExecutions hids ?_) _ _ _ _ _
          exact fun _ => rfl
        · exact .refl
  | requestCancel id => exact .updateExecutions hids fun _ => rfl
  | requestCancelOutcome id now =>
    rw [apply, Tables.requestExecutionCancelOutcome]
    split
    · exact .refl
    · split
      · refine .appendEvent (.updateExecutions hids ?_) _ _ _ _ _
        exact fun _ => rfl
      · refine .appendEvent (.updateExecutions hids ?_) _ _ _ _ _
        exact fun _ => rfl
      · exact .refl
      · exact .refl
  | cancelQueued id now => exact .updateExecutions hids fun _ => rfl
  | finish id status error now =>
    rw [apply, Tables.finishExecution]
    split
    · exact .refl
    · split
      · exact .refl
      · refine .appendEvent (.updateExecutions hids ?_) _ _ _ _ _
        exact fun _ => rfl
  | recover now => exact .recover hids now
  | checkpoint execution write =>
    rw [apply]
    split
    · exact .of_subset (List.Subset.refl _)
    · exact .refl
  | catalog workflows plugins removalWorkflows => exact .of_subset (List.Subset.refl _)
  | setPinned id pinned => exact .updateExecutions hids fun _ => rfl
  | applyRetention executionBefore eventBefore => exact .applyRetention hids _ _

theorem PluginCall.losesEnded_apply {tables : Tables} (hids : tables.UniqueIds)
    (call : PluginCall) :
    tables.LosesEnded (call.apply tables) ∧ (call.apply tables).UniqueIds := by
  by_cases hexecution : ∃ c h, call = .execution c h
  · obtain ⟨c, h, rfl⟩ := hexecution
    exact ⟨c.losesEnded_apply hids, (c.apply_cases hids).uniqueIds hids⟩
  · by_cases hacquire : ∃ id ids, call = .acquire id ids
    · obtain ⟨id, ids, rfl⟩ := hacquire
      obtain heq | ⟨⟨pins, heq, -⟩, -⟩ := acquire_cases tables id ids
      · rw [heq]
        exact ⟨.refl, hids⟩
      · rw [heq]
        exact ⟨.of_subset (List.subset_append_left _ _), hids⟩
    · obtain ⟨hrows, hpins⟩ := call.sameExecutions tables
        (fun c h heq => hexecution ⟨c, h, heq⟩) fun id ids heq => hacquire ⟨id, ids, heq⟩
      refine ⟨.of_subset ?_, ?_⟩
      · rw [hpins]
        exact List.Subset.refl _
      · rw [Tables.UniqueIds, hrows]
        exact hids

end KakuneCore
