import KakuneCore.Plugins.Installation

/-!
# What an interrupted commit leaves

A commit that runs alone, with an answer for each of its steps: any of them may fail, and the
process may stop before any of them. Up to the move of the package nothing has changed. Between the
move and the publication of the row the staged package is gone, and only the undoing of the move
after a refused publication brings it back; once the row is published, it names the package.
-/

namespace KakuneCore

variable (env : InstallEnv)

/-! ### Runs of one commit -/

section Runs

variable (answers : CommitStep → CommitAnswer)

/-- So many steps of a commit. -/
def commitRun : Nat → PluginState × CommitPhase → PluginState × CommitPhase
  | 0, config => config
  | n + 1, config =>
    match config.2.step? with
    | none => config
    | some step => commitRun n (advanceCommit env (answers step) config.1 config.2)

/-- How a commit ends: no commit has more than 14 steps. -/
def commitEnd (state : PluginState) (id expected : String) : PluginState × CommitPhase :=
  commitRun env answers 14 (state, .opening id expected)

end Runs

/-- The commit can succeed, if nothing goes wrong on the way. -/
def CanCommit (state : PluginState) (id expected : String) : Prop :=
  ∃ answers record, (commitEnd env answers state id expected).2 = .finished (.ok record)

/-- The columns of a row of `installed_plugins`. -/
def PluginState.row (state : PluginState) (id : String) :
    Option PluginRow × Option PluginDetails :=
  (state.tables.plugin id, state.details id)

/-- The row of the prepared plugin is as before, and the commit can still succeed if it could. -/
def Retryable (before after : PluginState) (id expected : String) : Prop :=
  (∀ prepared, before.preparedInstall id = some prepared →
      after.row prepared.pluginId = before.row prepared.pluginId) ∧
    (CanCommit env before id expected → CanCommit env after id expected)

/-- The row of the prepared plugin names a directory with the approved digest. -/
def NamesApproved (before after : PluginState) (id expected : String) : Prop :=
  ∃ prepared row package, before.preparedInstall id = some prepared ∧
    after.tables.plugin prepared.pluginId = some row ∧ row.digest = expected ∧
    after.disk (parentPath row.manifestPath) = some package ∧
    packageDigest env.sha256 package = .ok expected

/-- What is expected of the end of a commit. -/
def AcceptableEnd (before : PluginState) (id expected : String)
    (config : PluginState × CommitPhase) : Prop :=
  (Retryable env before config.1 id expected ∨ NamesApproved env before config.1 id expected) ∧
    ∀ error, config.2 = .finished (.error error) → Retryable env before config.1 id expected

/-- What is expected of a commit, however it ends. -/
def AtomicAndRetryable (state : PluginState) (id expected : String)
    (answers : CommitStep → CommitAnswer) : Prop :=
  AcceptableEnd env state id expected (commitEnd env answers state id expected)

/-! ### The condition -/

/-- Everything the commit checks before it moves the package. -/
def reviewCommit (state : PluginState) (id expected : String) : Except String CommitPlan := do
  let prepared ← openPrepared state id expected
  checkStaged env state.disk prepared
  let reviewed ← reviewManifest env state.disk prepared
  let plan ← locateDestination env state.disk reviewed
  validateProspectiveCatalog env state.disk state.tables.listInstalledPlugins plan.manifest
    (plan.prepared.stagedPath env)
  .ok plan

/-- The package is at its destination. -/
def PluginState.moved (state : PluginState) (plan : CommitPlan) : PluginState :=
  if plan.alreadyStaged then state
  else { state with
    disk := Function.update (Function.update state.disk (plan.prepared.stagedPath env) none)
      (plan.destination env) (state.disk (plan.prepared.stagedPath env)) }

/-- The upsert takes the row. -/
def Tables.AcceptsInstall (tables : Tables) (id : String) : Prop :=
  ∀ row, tables.plugin id = some row → row.status = .active ∧ tables.isPinned id = false

/-- The row can be published. -/
structure Committable (state : PluginState) (plan : CommitPlan) : Prop where
  found : ∃ name, findManifest (state.moved env plan).disk (plan.destination env) = .ok name
  source : validatePluginSource env.parseUrl plan.source = .ok ()
  accepted : state.tables.AcceptsInstall plan.manifest.id

section Condition

variable (answers : CommitStep → CommitAnswer)

def Done (step : CommitStep) : Prop := (answers step).outcome = .done

/-- The steps before the move. -/
def reviewSteps : List CommitStep :=
  [.opening, .digesting, .loading, .locating, .listing, .checking, .creating]

/-- The commit comes past the move. -/
def PassesMove (plan : CommitPlan) : Prop :=
  (∀ step ∈ reviewSteps, Done answers step) ∧
    if plan.alreadyStaged then (answers .moving).outcome ≠ .stopped else Done answers .moving

/-- The row is published as it was. -/
def RepublishesSame (state : PluginState) (plan : CommitPlan) : Prop :=
  ∀ name, findManifest state.disk (plan.destination env) = .ok name →
    state.row plan.manifest.id =
      (some (plan.record env name (answers .stamping).clock).install.row,
        some (plan.record env name (answers .stamping).clock).details)

/-- A step between the move and the publication is done, or the process stops before it while the
row names the package anyway. -/
def PassesOr (step : CommitStep) (named next : Prop) : Prop :=
  match (answers step).outcome with
  | .done => next
  | .failed _ => False
  | .stopped => named

/-- **What keeps a commit from leaving a plugin half installed.** -/
def SafeAnswers (state : PluginState) (id expected : String) (plan : CommitPlan) : Prop :=
  PassesMove answers plan →
    if plan.alreadyStaged then
      Done answers .finding → Done answers .stamping → Done answers .publishing →
        ∀ error, (answers .clearing).outcome = .failed error →
          RepublishesSame env answers state plan
    else
      let named := NamesApproved env state (state.moved env plan) id expected
      PassesOr answers .finding named <| PassesOr answers .stamping named <|
        match (answers .publishing).outcome with
        | .done => ∀ error, (answers .clearing).outcome ≠ .failed error
        | .failed _ => PassesOr answers .undoing named True
        | .stopped => named

end Condition

/-! ### Stages of a commit -/

/-- The commit has ended without success. -/
def CommitPhase.Fails : CommitPhase → Prop
  | .finished (.error _) | .stopped => True
  | _ => False

section Stages

variable {env} {answers : CommitStep → CommitAnswer} {α β : Type} {n m k : Nat}
  {state : PluginState} {phase : CommitPhase} {step : CommitStep}

theorem commitRun_of_ended (config : PluginState × CommitPhase) (h : config.2.step? = none) :
    commitRun env answers n config = config := by
  cases n with
  | zero => rfl
  | succ n => rw [commitRun, h]

theorem commitRun_succ (h : phase.step? = some step) :
    commitRun env answers (n + 1) (state, phase) =
      commitRun env answers n (advanceCommit env (answers step) state phase) := by
  rw [commitRun, h]

theorem advanceCommit_stopped {answer : CommitAnswer} (h : phase.step? = some step)
    (hstop : answer.outcome = .stopped) :
    advanceCommit env answer state phase = (state, .stopped) := by
  rw [advanceCommit, h, if_neg (by simp), if_pos hstop]

theorem advanceCommit_eq {answer : CommitAnswer} (h : phase.step? = some step)
    (hstop : answer.outcome ≠ .stopped) :
    advanceCommit env answer state phase = commitStep env answer state phase := by
  rw [advanceCommit, h, if_neg (by simp), if_neg hstop]

/-- A stage that only reads: when its steps are done and find what they look for, the commit goes on
with it; otherwise it fails and leaves the state as it was. -/
def Stage (env : InstallEnv) (answers : CommitStep → CommitAnswer) (steps : List CommitStep)
    (result : Except String α) (n m : Nat) (state : PluginState) (phase : CommitPhase)
    (next : α → CommitPhase) : Prop :=
  (∃ a, result = .ok a ∧ (∀ step ∈ steps, Done answers step) ∧
      commitRun env answers n (state, phase) = commitRun env answers m (state, next a)) ∨
    (¬ ((∃ a, result = .ok a) ∧ ∀ step ∈ steps, Done answers step) ∧
      ∃ phase', phase'.Fails ∧ commitRun env answers n (state, phase) = (state, phase'))

theorem fails_bind (answer : CommitAnswer) (description : String) (next : α → CommitPhase) (a : α) :
    CommitPhase.after next (answer.fails description >>= fun _ => .ok a) =
      .after (fun _ => next a) (answer.fails description) := by
  cases answer.fails description <;> rfl

/-- How a commit goes on after a step that only reads. -/
def readThen (state : PluginState) (description : String) (go : α → PluginState × CommitPhase) :
    StepOutcome → Except String α → PluginState × CommitPhase
  | .done, .ok a => go a
  | .done, .error error => (state, .finished (.error error))
  | .failed error, _ => (state, .finished (.error (description ++ error)))
  | .stopped, _ => (state, .stopped)

/-- **A step that only reads.** -/
theorem commitRun_read {result : Except String α} {next : α → CommitPhase} (description : String)
    (h : phase.step? = some step)
    (hstep : commitStep env (answers step) state phase =
      (state, .after next ((answers step).fails description >>= fun _ => result))) :
    commitRun env answers (n + 1) (state, phase) =
      readThen state description (fun a => commitRun env answers n (state, next a))
        (answers step).outcome result := by
  rw [commitRun_succ h]
  cases houtcome : (answers step).outcome with
  | stopped =>
    rw [advanceCommit_stopped h houtcome, commitRun_of_ended _ rfl]
    cases result <;> rfl
  | failed error =>
    rw [advanceCommit_eq h (by rw [houtcome]; simp), hstep, CommitAnswer.fails, houtcome]
    exact commitRun_of_ended _ rfl
  | done =>
    rw [advanceCommit_eq h (by rw [houtcome]; simp), hstep, CommitAnswer.fails, houtcome]
    cases result with
    | ok a => rfl
    | error error => exact commitRun_of_ended _ rfl

/-- One reading step. -/
theorem Stage.of_step {result : Except String α} {next : α → CommitPhase} (description : String)
    (h : phase.step? = some step)
    (hstep : commitStep env (answers step) state phase =
      (state, .after next ((answers step).fails description >>= fun _ => result))) :
    Stage env answers [step] result (n + 1) n state phase next := by
  rw [Stage, commitRun_read description h hstep]
  simp only [List.mem_singleton, forall_eq, Done]
  cases houtcome : (answers step).outcome with
  | stopped =>
    exact .inr ⟨fun hdone => StepOutcome.noConfusion hdone.2, .stopped, trivial, rfl⟩
  | failed error =>
    exact .inr ⟨fun hdone => StepOutcome.noConfusion hdone.2,
      .finished (.error (description ++ error)), trivial, rfl⟩
  | done =>
    cases result with
    | ok a => exact .inl ⟨a, rfl, rfl, rfl⟩
    | error error =>
      refine .inr ⟨fun hdone => ?_, .finished (.error error), trivial, rfl⟩
      obtain ⟨⟨a, ha⟩, -⟩ := hdone
      cases ha

/-- One stage after another. -/
theorem Stage.bind {steps steps' : List CommitStep} {result : Except String α}
    {f : α → Except String β} {next : α → CommitPhase} {next' : β → CommitPhase}
    (h : Stage env answers steps result n m state phase next)
    (hf : ∀ a, result = .ok a → Stage env answers steps' (f a) m k state (next a) next') :
    Stage env answers (steps ++ steps') (result >>= f) n k state phase next' := by
  rcases h with ⟨a, rfl, hsteps, hrun⟩ | ⟨hnot, phase', hfails, hrun⟩
  · rcases hf a rfl with ⟨b, hb, hsteps', hrun'⟩ | ⟨hnot, phase', hfails, hrun'⟩
    · exact .inl ⟨b, hb, List.forall_mem_append.mpr ⟨hsteps, hsteps'⟩, hrun.trans hrun'⟩
    · refine .inr ⟨fun hall => hnot ⟨hall.1, fun step hstep => hall.2 step ?_⟩, phase', hfails,
        hrun.trans hrun'⟩
      exact List.mem_append_right _ hstep
  · refine .inr ⟨fun hall => hnot ⟨?_, fun step hstep => hall.2 step ?_⟩, phase', hfails, hrun⟩
    · obtain ⟨⟨b, hb⟩, -⟩ := hall
      obtain ⟨a, ha, -⟩ := except_bind_eq_ok hb
      exact ⟨a, ha⟩
    · exact List.mem_append_left _ hstep

end Stages

/-! ### The commit before the move -/

section Review

variable {env} {answers : CommitStep → CommitAnswer} {state : PluginState} {id expected : String}

/-- **Up to the move nothing has changed.** -/
theorem stage_review (n : Nat) : Stage env answers reviewSteps (reviewCommit env state id expected)
    (n + 7) n state (.opening id expected) .moving := by
  have hopening : Stage env answers [.opening] (openPrepared state id expected) (n + 7) (n + 6)
      state (.opening id expected) .digesting := .of_step "Kakune database error: " rfl rfl
  refine hopening.bind fun prepared _ => ?_
  have hdigesting : Stage env answers [.digesting] (checkStaged env state.disk prepared) (n + 6)
      (n + 5) state (.digesting prepared) fun _ => .loading prepared := .of_step "" rfl rfl
  refine hdigesting.bind fun _ _ => ?_
  have hloading : Stage env answers [.loading] (reviewManifest env state.disk prepared) (n + 5)
      (n + 4) state (.loading prepared) .locating := .of_step "" rfl rfl
  refine hloading.bind fun reviewed _ => ?_
  have hlocating : Stage env answers [.locating] (locateDestination env state.disk reviewed) (n + 4)
      (n + 3) state (.locating reviewed) .listing := .of_step "" rfl rfl
  refine hlocating.bind fun plan _ => ?_
  have hlisting : Stage env answers [.listing] (.ok state.tables.listInstalledPlugins) (n + 3)
      (n + 2) state (.listing plan) (.checking plan) :=
    .of_step "Kakune database error: " rfl (by rw [fails_bind]; rfl)
  refine hlisting.bind (f := fun rows => validateProspectiveCatalog env state.disk rows
    plan.manifest (plan.prepared.stagedPath env) >>= fun _ => .ok plan) fun rows _ => ?_
  have hchecking : Stage env answers [.checking] (validateProspectiveCatalog env state.disk rows
      plan.manifest (plan.prepared.stagedPath env)) (n + 2) (n + 1) state (.checking plan rows)
      fun _ => .creating plan := .of_step "" rfl rfl
  refine hchecking.bind fun _ _ => ?_
  exact .of_step "cannot create plugin installation directory: " rfl (by rw [fails_bind]; rfl)

/-- What a review has found. -/
structure Reviewed (env : InstallEnv) (state : PluginState) (id expected : String)
    (plan : CommitPlan) : Prop where
  prepared : state.preparedInstall id = some plan.prepared
  digest : plan.prepared.digest = expected
  staged : ∃ package, state.disk (plan.prepared.stagedPath env) = some package ∧
    packageDigest env.sha256 package = .ok expected
  manifest : plan.manifest.id = plan.prepared.pluginId
  located : if plan.alreadyStaged then ∃ package, state.disk (plan.destination env) = some package ∧
      packageDigest env.sha256 package = .ok expected
    else state.disk (plan.destination env) = none

theorem directoryDigest_eq_ok {disk : PluginDisk} {path digest : String}
    (h : directoryDigest env disk path = .ok digest) :
    ∃ package, disk path = some package ∧ packageDigest env.sha256 package = .ok digest := by
  rw [directoryDigest] at h
  split at h
  · next package hpackage => exact ⟨package, hpackage, h⟩
  · cases h

theorem reviewCommit_eq_ok {plan : CommitPlan} (h : reviewCommit env state id expected = .ok plan) :
    Reviewed env state id expected plan := by
  obtain ⟨prepared, hopen, h⟩ := except_bind_eq_ok h
  obtain ⟨_, hstaged, h⟩ := except_bind_eq_ok h
  obtain ⟨reviewed, hreviewed, h⟩ := except_bind_eq_ok h
  obtain ⟨plan', hlocated, h⟩ := except_bind_eq_ok h
  obtain ⟨_, -, h⟩ := except_bind_eq_ok h
  cases h
  -- the prepared row and its digest
  have hprepared : state.preparedInstall id = some prepared ∧ prepared.digest = expected := by
    rw [openPrepared] at hopen
    split at hopen
    · cases hopen
    · next hfound =>
      split at hopen
      · next hdigest =>
        cases hopen
        exact ⟨hfound, hdigest⟩
      · cases hopen
  -- the staged package
  obtain ⟨actual, hactual, hstaged⟩ := except_bind_eq_ok hstaged
  have hsame : prepared.digest = actual := by
    split at hstaged
    · next hsame => exact hsame
    · cases hstaged
  obtain ⟨package, hpackage, hdigest⟩ := directoryDigest_eq_ok hactual
  -- the manifest
  obtain ⟨name, -, hreviewed⟩ := except_bind_eq_ok hreviewed
  obtain ⟨manifest, -, hreviewed⟩ := except_bind_eq_ok hreviewed
  have hmanifest : reviewed.prepared = prepared ∧ reviewed.manifest.id = prepared.pluginId := by
    split at hreviewed
    · cases hreviewed
    · next hids =>
      split at hreviewed
      · cases hreviewed
        simp only [Bool.or_eq_true, decide_eq_true_eq, not_or, not_not] at hids
        exact ⟨rfl, hids.1⟩
      · cases hreviewed
  obtain ⟨rfl, hid⟩ := hmanifest
  have hpackage : ∃ package, state.disk (reviewed.prepared.stagedPath env) = some package ∧
      packageDigest env.sha256 package = .ok expected :=
    ⟨package, hpackage, by rw [hdigest, ← hsame, hprepared.2]⟩
  -- the destination
  rw [locateDestination] at hlocated
  split at hlocated
  · obtain ⟨existing, hexisting, hlocated⟩ := except_bind_eq_ok hlocated
    split at hlocated
    · next heq =>
      cases hlocated
      refine ⟨hprepared.1, hprepared.2, hpackage, hid, ?_⟩
      obtain ⟨found, hfound, hfoundDigest⟩ := directoryDigest_eq_ok hexisting
      exact ⟨found, hfound, by rw [hfoundDigest, heq, hprepared.2]⟩
    · cases hlocated
  · next hnone =>
    cases hlocated
    refine ⟨hprepared.1, hprepared.2, hpackage, hid, ?_⟩
    exact Option.not_isSome_iff_eq_none.mp hnone

/-- The staging directories are not those of installed plugins. -/
theorem stagedPath_ne_destination (prepared : PreparedPlugin) (reviewed : ReviewedPlugin) :
    prepared.stagedPath env ≠ reviewed.destination env := by
  intro h
  have hchars := congrArg String.toList h
  simp only [PreparedPlugin.stagedPath, ReviewedPlugin.destination, String.toList_append,
    List.append_assoc, List.append_cancel_left_eq] at hchars
  have hpre := congrArg (List.take 8) hchars
  simp at hpre

/-- **The move.** -/
theorem commitRun_moving {plan : CommitPlan} (h : Reviewed env state id expected plan) (n : Nat) :
    ((if plan.alreadyStaged then (answers .moving).outcome ≠ .stopped else Done answers .moving) ∧
      commitRun env answers (n + 1) (state, .moving plan) =
        commitRun env answers n (state.moved env plan, .finding plan)) ∨
    (¬ (if plan.alreadyStaged then (answers .moving).outcome ≠ .stopped
        else Done answers .moving) ∧
      ∃ phase, phase.Fails ∧
        commitRun env answers (n + 1) (state, .moving plan) = (state, phase)) := by
  have hlocated := h.located
  rw [commitRun_succ rfl]
  by_cases hstop : (answers .moving).outcome = .stopped
  · right
    rw [advanceCommit_stopped rfl hstop, Done, hstop]
    refine ⟨by split <;> simp, .stopped, trivial, commitRun_of_ended _ rfl⟩
  · rw [advanceCommit_eq rfl hstop, commitStep, PluginState.moved]
    split at hlocated
    · next halready =>
      rw [if_pos halready, if_pos halready]
      exact .inl ⟨hstop, by rw [halready]; rfl⟩
    · next halready =>
      obtain ⟨package, hpackage, -⟩ := h.staged
      simp only [if_neg halready]
      cases houtcome : (answers .moving).outcome with
      | stopped => exact absurd houtcome hstop
      | failed error =>
        right
        rw [Done, houtcome, CommitAnswer.fails, houtcome]
        exact ⟨by simp, .finished (.error ("cannot commit plugin package: " ++ ("" ++ error))),
          trivial, commitRun_of_ended _ rfl⟩
      | done =>
        left
        rw [Done, houtcome, CommitAnswer.fails, houtcome, hpackage]
        refine ⟨rfl, ?_⟩
        have hrename : renameDirectory state.disk (plan.prepared.stagedPath env)
            (plan.destination env) = .ok (Function.update
              (Function.update state.disk (plan.prepared.stagedPath env) none)
              (plan.destination env) (some package)) := by
          rw [renameDirectory, hpackage, hlocated]
        simp only [hrename]
        rfl

end Review

/-! ### The publication -/

section Publication

variable {env} {state next : PluginState} {id expected : String} {plan : CommitPlan}

/-- **The upsert** takes the row of a plugin that is active and not in use, or new. -/
theorem Tables.upsertPluginInstall_eq_ok {tables tables' : Tables} {install : PluginInstall}
    (h : tables.upsertPluginInstall install = .ok tables') :
    tables.AcceptsInstall install.id ∧ tables'.plugin install.id = some install.row := by
  rw [Tables.upsertPluginInstall] at h
  split at h
  · next hnone =>
    cases h
    refine ⟨fun row hrow => ?_, ?_⟩
    · rw [hnone] at hrow
      cases hrow
    · have hnew : install.id ∉ tables.plugins.map PluginRow.id := fun hmem => by
        obtain ⟨row, hrow, hid⟩ := List.mem_map.mp hmem
        exact Table.lookup_eq_none.mp hnone row hrow hid
      have hlookup : Table.lookup PluginRow.id (tables.plugins ++ [install.row]) install.id = _ :=
        Table.lookup_append hnew
      exact hlookup.trans (if_pos rfl)
  · next plugin hplugin =>
    split at h
    · next hfree =>
      cases h
      simp only [Bool.and_eq_true, decide_eq_true_eq, Bool.not_eq_true'] at hfree
      refine ⟨fun row hrow => ?_, ?_⟩
      · rw [hplugin] at hrow
        cases hrow
        exact hfree
      · -- the rows that are replaced have the id already
        have hkeys : Table.updateWhere tables.plugins (fun row => row.id = install.id)
            (fun row => { install.row with status := row.status }) =
              Table.updateWhere tables.plugins (fun row => row.id = install.id)
                fun row => { install.row with id := row.id, status := row.status } := by
          refine List.map_congr_left fun row _ => ?_
          by_cases hid : row.id = install.id
          · simp [hid, PluginInstall.row]
          · simp [hid]
        have hlookup : Table.lookup PluginRow.id (Table.updateWhere tables.plugins
            (fun row => row.id = install.id) fun row =>
              { install.row with id := row.id, status := row.status }) install.id = _ :=
          Table.lookup_updateWhere_key fun _ => rfl
        rw [Tables.plugin] at hplugin ⊢
        rw [Tables.updatePlugins, hkeys]
        refine hlookup.trans ?_
        rw [if_pos rfl, hplugin, Option.map_some, (Table.mem_of_lookup hplugin).2, hfree.1]
        rfl
    · cases h

theorem Tables.AcceptsInstall.upsert {tables : Tables} {install : PluginInstall}
    (h : tables.AcceptsInstall install.id) :
    ∃ tables', tables.upsertPluginInstall install = .ok tables' := by
  rw [Tables.upsertPluginInstall]
  split
  · exact ⟨_, rfl⟩
  · next plugin hplugin =>
    obtain ⟨hactive, hpinned⟩ := h plugin hplugin
    rw [if_pos (by simp [hactive, hpinned])]
    exact ⟨_, rfl⟩

theorem PluginState.publish_eq_ok {source : String} {record : InstalledPlugin}
    {answer : Except String Unit} (h : state.publish env source record answer = .ok next) :
    validatePluginSource env.parseUrl source = .ok () ∧
      ∃ tables, state.tables.upsertPluginInstall record.install = .ok tables ∧
        next = { state with
          tables := tables
          details := Function.update state.details record.install.id (some record.details) } := by
  obtain ⟨_, hsource, h⟩ := except_bind_eq_ok h
  obtain ⟨_, -, h⟩ := except_bind_eq_ok h
  obtain ⟨tables, hupsert, h⟩ := except_bind_eq_ok h
  cases h
  exact ⟨hsource, tables, hupsert, rfl⟩

/-- A manifest that is found is named as manifests are. -/
theorem findManifest_eq_ok {disk : PluginDisk} {path name : String}
    (h : findManifest disk path = .ok name) :
    (∃ package, disk path = some package) ∧ '/' ∉ name.toList := by
  rw [findManifest] at h
  split at h
  · next found hfound =>
    cases h
    obtain ⟨package, hpackage, hname⟩ := Option.bind_eq_some_iff.mp hfound
    have hnames : ∀ known ∈ pluginManifestNames, '/' ∉ known.toList := by decide
    exact ⟨⟨package, hpackage⟩, hnames _ (List.mem_of_find?_eq_some hname)⟩
  · cases h

/-- The package that is moved or was there has the approved digest. -/
theorem Reviewed.destination (h : Reviewed env state id expected plan) :
    ∃ package, (state.moved env plan).disk (plan.destination env) = some package ∧
      packageDigest env.sha256 package = .ok expected := by
  have hlocated := h.located
  rw [PluginState.moved]
  split at hlocated
  · next halready =>
    rw [if_pos halready]
    exact hlocated
  · next halready =>
    obtain ⟨package, hpackage, hdigest⟩ := h.staged
    rw [if_neg halready]
    exact ⟨package, (Function.update_self _ _ _).trans hpackage, hdigest⟩

/-- **What is published names the approved package**, also once the staged one is deleted. -/
theorem Reviewed.names (h : Reviewed env state id expected plan) {name clock : String}
    {answer : Except String Unit}
    (hname : findManifest (state.moved env plan).disk (plan.destination env) = .ok name)
    (hpublish : (state.moved env plan).publish env plan.source (plan.record env name clock) answer =
      .ok next) {after : PluginState} (htables : after.tables = next.tables)
    (hdisk : after.disk (plan.destination env) = next.disk (plan.destination env)) :
    NamesApproved env state after id expected := by
  obtain ⟨-, tables, hupsert, rfl⟩ := PluginState.publish_eq_ok hpublish
  obtain ⟨package, hpackage, hdigest⟩ := h.destination
  have hrow := (Tables.upsertPluginInstall_eq_ok hupsert).2
  have hid : (plan.record env name clock).install.id = plan.prepared.pluginId := h.manifest
  rw [hid] at hrow
  refine ⟨plan.prepared, _, package, h.prepared, by rw [htables]; exact hrow, h.digest, ?_, hdigest⟩
  have hparent : parentPath (plan.record env name clock).install.row.manifestPath =
      plan.destination env := parentPath_joinPath (findManifest_eq_ok hname).2
  rw [hparent, hdisk]
  exact hpackage

end Publication

/-! ### The commit after the move -/

section Finish

variable {env} {answers : CommitStep → CommitAnswer} {state next : PluginState} {n : Nat}
  {plan : CommitPlan} {record : InstalledPlugin}

theorem commitRun_finding : commitRun env answers (n + 1) (state, .finding plan) =
    readThen state "" (fun name => commitRun env answers n (state, .stamping plan name))
      (answers .finding).outcome (findManifest state.disk (plan.destination env)) :=
  commitRun_read "" rfl rfl

theorem commitRun_stamping {name : String} :
    commitRun env answers (n + 1) (state, .stamping plan name) =
      readThen state "" (fun _ => commitRun env answers n
        (state, .publishing plan (plan.record env name (answers .stamping).clock)))
        (answers .stamping).outcome (.ok ()) :=
  commitRun_read "" rfl (by rw [fails_bind]; rfl)

/-- The steps between the move and the publication. -/
theorem stage_find (answers : CommitStep → CommitAnswer) (state : PluginState) (plan : CommitPlan)
    (n : Nat) : Stage env answers [.finding, .stamping]
      (findManifest state.disk (plan.destination env)) (n + 2) n state (.finding plan)
      fun name => .publishing plan (plan.record env name (answers .stamping).clock) := by
  have hfinding : Stage env answers [.finding] (findManifest state.disk (plan.destination env))
      (n + 2) (n + 1) state (.finding plan) (.stamping plan) := .of_step "" rfl rfl
  have hstamping (name : String) : Stage env answers [.stamping] (.ok name) (n + 1) n state
      (.stamping plan name)
      fun name => .publishing plan (plan.record env name (answers .stamping).clock) :=
    .of_step "" rfl (by rw [fails_bind]; rfl)
  have hstage := hfinding.bind fun name _ => hstamping name
  have hok : (findManifest state.disk (plan.destination env) >>= .ok) =
      findManifest state.disk (plan.destination env) := by
    cases findManifest state.disk (plan.destination env) <;> rfl
  rw [hok] at hstage
  exact hstage

theorem commitRun_publishing_stopped (h : (answers .publishing).outcome = .stopped) :
    commitRun env answers (n + 1) (state, .publishing plan record) = (state, .stopped) := by
  rw [commitRun_succ rfl, advanceCommit_stopped rfl h, commitRun_of_ended _ rfl]

theorem commitRun_publishing_ok
    (h : state.publish env plan.source record
      ((answers .publishing).fails "Kakune database error: ") = .ok next)
    (hstop : (answers .publishing).outcome ≠ .stopped) :
    commitRun env answers (n + 1) (state, .publishing plan record) =
      commitRun env answers n (next, .clearing plan record) := by
  rw [commitRun_succ rfl, advanceCommit_eq rfl hstop, commitStep, h]

theorem commitRun_publishing_error {error : String}
    (h : state.publish env plan.source record
      ((answers .publishing).fails "Kakune database error: ") = .error error)
    (hstop : (answers .publishing).outcome ≠ .stopped) :
    commitRun env answers (n + 1) (state, .publishing plan record) =
      if plan.alreadyStaged then (state, .finished (.error error))
      else commitRun env answers n (state, .undoing plan error) := by
  rw [commitRun_succ rfl, advanceCommit_eq rfl hstop, commitStep, h]
  dsimp only
  split
  · exact commitRun_of_ended _ rfl
  · rfl

/-- **The end of a commit whose row is published**: only a failing deletion of the prepared row ends
it with an error. -/
theorem commitRun_clearing : ∃ after phase,
    commitRun env answers (n + 2) (state, .clearing plan record) = (after, phase) ∧
      after.tables = state.tables ∧
      after.disk (plan.destination env) = state.disk (plan.destination env) ∧
      match (answers .clearing).outcome with
      | .failed _ => after = state ∧ ∃ error, phase = .finished (.error error)
      | .stopped => phase = .stopped
      | .done => phase =
          if (answers .cleaning).outcome = .stopped then .stopped else .finished (.ok record) := by
  cases houtcome : (answers .clearing).outcome with
  | stopped =>
    refine ⟨state, .stopped, ?_, rfl, rfl, rfl⟩
    rw [commitRun_succ rfl, advanceCommit_stopped rfl houtcome, commitRun_of_ended _ rfl]
  | failed error =>
    refine ⟨state, .finished (.error ("Kakune database error: " ++ error)), ?_, rfl, rfl, rfl, _,
      rfl⟩
    rw [commitRun_succ rfl, advanceCommit_eq rfl (by rw [houtcome]; simp), commitStep,
      CommitAnswer.fails, houtcome]
    exact commitRun_of_ended _ rfl
  | done =>
    have hclear : commitRun env answers (n + 2) (state, .clearing plan record) =
        commitRun env answers (n + 1) ({ state with
          prepared := state.prepared.filter fun prepared => prepared.id ≠ plan.prepared.id },
          .cleaning plan record) := by
      rw [commitRun_succ rfl, advanceCommit_eq rfl (by rw [houtcome]; simp), commitStep,
        CommitAnswer.fails, houtcome]
    rw [hclear, commitRun_succ rfl]
    by_cases hstop : (answers .cleaning).outcome = .stopped
    · rw [advanceCommit_stopped rfl hstop, commitRun_of_ended _ rfl]
      exact ⟨_, _, rfl, rfl, rfl, (if_pos hstop).symm⟩
    · rw [advanceCommit_eq rfl hstop, commitStep, commitRun_of_ended _ rfl]
      refine ⟨_, _, rfl, ?_, ?_, (if_neg hstop).symm⟩
      · split <;> rfl
      · split
        · exact Function.update_of_ne (stagedPath_ne_destination _ _).symm _ _
        · rfl

/-- A move and the move back. -/
theorem renameDirectory_back {disk : PluginDisk} {source destination : String}
    {package : PackageEntry} (hsource : disk source = some package)
    (hdestination : disk destination = none) (hne : source ≠ destination) :
    renameDirectory (Function.update (Function.update disk source none) destination (some package))
      destination source = .ok disk := by
  rw [renameDirectory, Function.update_self, Function.update_of_ne hne, Function.update_self]
  refine congrArg Except.ok (funext fun path => ?_)
  by_cases hpath : path = source
  · rw [hpath, Function.update_self, hsource]
  · rw [Function.update_of_ne hpath]
    by_cases hpath' : path = destination
    · rw [hpath', Function.update_self, hdestination]
    · rw [Function.update_of_ne hpath', Function.update_of_ne hpath', Function.update_of_ne hpath]

/-- The disk after the move. -/
theorem Reviewed.moved_disk {id expected : String} (h : Reviewed env state id expected plan)
    (hmoved : plan.alreadyStaged = false) : ∃ package,
      state.disk (plan.prepared.stagedPath env) = some package ∧
        state.disk (plan.destination env) = none ∧
        state.moved env plan = { state with
          disk := Function.update (Function.update state.disk (plan.prepared.stagedPath env) none)
            (plan.destination env) (some package) } := by
  obtain ⟨package, hpackage, -⟩ := h.staged
  have hlocated := h.located
  rw [hmoved] at hlocated
  exact ⟨package, hpackage, hlocated, by rw [PluginState.moved, hmoved, hpackage]; rfl⟩

/-- **The undoing of the move** brings the staged package back. -/
theorem commitRun_undoing {id expected error : String} (h : Reviewed env state id expected plan)
    (hmoved : plan.alreadyStaged = false) :
    commitRun env answers (n + 1) (state.moved env plan, .undoing plan error) =
      match (answers .undoing).outcome with
      | .done => (state, .finished (.error error))
      | .failed _ => (state.moved env plan, .finished (.error error))
      | .stopped => (state.moved env plan, .stopped) := by
  rw [commitRun_succ rfl]
  cases houtcome : (answers .undoing).outcome with
  | stopped => rw [advanceCommit_stopped rfl houtcome, commitRun_of_ended _ rfl]
  | failed error =>
    rw [advanceCommit_eq rfl (by rw [houtcome]; simp), commitStep, CommitAnswer.fails, houtcome]
    exact commitRun_of_ended _ rfl
  | done =>
    rw [advanceCommit_eq rfl (by rw [houtcome]; simp), commitStep, CommitAnswer.fails, houtcome]
    obtain ⟨package, hpackage, hnone, hstate⟩ := h.moved_disk hmoved
    have hrename := renameDirectory_back hpackage hnone (stagedPath_ne_destination _ _)
    rw [hstate]
    simp only [hrename]
    exact commitRun_of_ended _ rfl

end Finish

/-! ### When a commit can succeed -/

section Success

variable {env} {answers : CommitStep → CommitAnswer} {state next : PluginState}
  {id expected : String} {plan : CommitPlan}

@[simp]
theorem moved_tables : (state.moved env plan).tables = state.tables := by
  rw [PluginState.moved]
  split <;> rfl

@[simp]
theorem moved_details : (state.moved env plan).details = state.details := by
  rw [PluginState.moved]
  split <;> rfl

/-- A commit comes past the move, or ends before it. -/
theorem commitEnd_cases (env : InstallEnv) (answers : CommitStep → CommitAnswer)
    (state : PluginState) (id expected : String) :
    (∃ plan, reviewCommit env state id expected = .ok plan ∧ PassesMove answers plan ∧
      commitEnd env answers state id expected =
        commitRun env answers 6 (state.moved env plan, .finding plan)) ∨
    (¬ (∃ plan, reviewCommit env state id expected = .ok plan ∧ PassesMove answers plan) ∧
      ∃ phase, phase.Fails ∧ commitEnd env answers state id expected = (state, phase)) := by
  have hreview : Stage env answers reviewSteps (reviewCommit env state id expected) 14 7 state
      (.opening id expected) .moving := stage_review 7
  rcases hreview with ⟨plan, hplan, hsteps, hrun⟩ | ⟨hnot, phase, hfails, hrun⟩
  · rcases commitRun_moving (reviewCommit_eq_ok hplan) 6 with
      ⟨hmove, hrun'⟩ | ⟨hnot, phase, hfails, hrun'⟩
    · exact .inl ⟨plan, hplan, ⟨hsteps, hmove⟩, hrun.trans hrun'⟩
    · refine .inr ⟨fun ⟨plan', hplan', hpasses⟩ => hnot ?_, phase, hfails, hrun.trans hrun'⟩
      rw [hplan] at hplan'
      cases hplan'
      exact hpasses.2
  · exact .inr ⟨fun ⟨plan, hplan, hpasses⟩ => hnot ⟨⟨plan, hplan⟩, hpasses.1⟩, phase, hfails, hrun⟩

/-- A publication that goes through is that of a row that can be published. -/
theorem committable_of_publish {name clock : String} {answer : Except String Unit}
    (hname : findManifest (state.moved env plan).disk (plan.destination env) = .ok name)
    (hpublish : (state.moved env plan).publish env plan.source (plan.record env name clock) answer =
      .ok next) : Committable env state plan := by
  obtain ⟨hsource, tables, hupsert, -⟩ := PluginState.publish_eq_ok hpublish
  rw [moved_tables] at hupsert
  exact ⟨⟨name, hname⟩, hsource, (Tables.upsertPluginInstall_eq_ok hupsert).1⟩

/-- **A commit that cannot succeed changes no row.** -/
theorem commitEnd_of_not_committable
    (h : ¬ ∃ plan, reviewCommit env state id expected = .ok plan ∧ Committable env state plan) :
    ∃ after phase, commitEnd env answers state id expected = (after, phase) ∧ phase.Fails ∧
      after.tables = state.tables ∧ after.details = state.details := by
  rcases commitEnd_cases env answers state id expected with
    ⟨plan, hplan, -, hrun⟩ | ⟨-, phase, hfails, hrun⟩
  · have hreviewed := reviewCommit_eq_ok hplan
    rw [hrun]
    rcases stage_find answers (state.moved env plan) plan 4 with
      ⟨name, hname, -, hrun'⟩ | ⟨-, phase, hfails, hrun'⟩
    · rw [hrun']
      by_cases hstop : (answers .publishing).outcome = .stopped
      · exact ⟨_, _, commitRun_publishing_stopped hstop, trivial, moved_tables, moved_details⟩
      · cases hpublish : (state.moved env plan).publish env plan.source
            (plan.record env name (answers .stamping).clock)
            ((answers .publishing).fails "Kakune database error: ") with
        | ok next => exact absurd ⟨plan, hplan, committable_of_publish hname hpublish⟩ h
        | error error =>
          rw [commitRun_publishing_error hpublish hstop]
          split
          · exact ⟨_, _, rfl, trivial, moved_tables, moved_details⟩
          · next hmoved =>
            rw [commitRun_undoing hreviewed (Bool.eq_false_iff.mpr hmoved)]
            split
            · exact ⟨_, _, rfl, trivial, rfl, rfl⟩
            · exact ⟨_, _, rfl, trivial, moved_tables, moved_details⟩
            · exact ⟨_, _, rfl, trivial, moved_tables, moved_details⟩
    · exact ⟨_, phase, hrun', hfails, moved_tables, moved_details⟩
  · exact ⟨state, phase, hrun, hfails, rfl, rfl⟩

/-- The row of a plan that can be published is published. -/
theorem Committable.publish (h : Committable env state plan) (name clock : String) :
    ∃ next, (state.moved env plan).publish env plan.source (plan.record env name clock) (.ok ()) =
      .ok next := by
  have haccepts : (state.moved env plan).tables.AcceptsInstall
      (plan.record env name clock).install.id := by
    rw [moved_tables]
    exact h.accepted
  obtain ⟨tables, hupsert⟩ := haccepts.upsert
  rw [PluginState.publish, h.source, hupsert]
  exact ⟨_, rfl⟩

/-- **When a commit can succeed.** -/
theorem canCommit_iff : CanCommit env state id expected ↔
    ∃ plan, reviewCommit env state id expected = .ok plan ∧ Committable env state plan := by
  constructor
  · rintro ⟨answers, record, hend⟩
    by_contra hnot
    obtain ⟨after, phase, hrun, hfails, -⟩ :=
      @commitEnd_of_not_committable env answers state id expected hnot
    rw [hrun] at hend
    rw [show phase = .finished (.ok record) from hend] at hfails
    exact hfails
  · rintro ⟨plan, hplan, hcommittable⟩
    obtain ⟨name, hname⟩ := hcommittable.found
    obtain ⟨next, hpublish⟩ := hcommittable.publish name ""
    refine ⟨fun _ => {}, plan.record env name "", ?_⟩
    rcases commitEnd_cases env (fun _ => {}) state id expected with
      ⟨plan', hplan', -, hrun⟩ | ⟨hnot, -⟩
    · rw [hplan] at hplan'
      cases hplan'
      have hfinish : commitEnd env (fun _ => {}) state id expected =
          commitRun env (fun _ => {}) 3 (next, .clearing plan (plan.record env name "")) := by
        rw [hrun, commitRun_finding, hname]
        rw [readThen, commitRun_stamping, readThen]
        exact commitRun_publishing_ok hpublish StepOutcome.noConfusion
      obtain ⟨after, phase, hclear, -, -, hphase⟩ :=
        @commitRun_clearing env (fun _ => {}) next 1 plan (plan.record env name "")
      rw [hfinish, hclear]
      exact hphase
    · refine absurd ⟨plan, hplan, fun _ _ => rfl, ?_⟩ hnot
      split
      · exact StepOutcome.noConfusion
      · rfl

end Success

/-! ### The ends of a commit -/

section Ends

variable {env} {answers : CommitStep → CommitAnswer} {state next : PluginState}
  {id expected : String} {plan : CommitPlan}

theorem acceptableEnd_self (phase : CommitPhase) :
    AcceptableEnd env state id expected (state, phase) :=
  have hself : Retryable env state state id expected := ⟨fun _ _ => rfl, fun hcan => hcan⟩
  ⟨.inl hself, fun _ _ => hself⟩

/-- A commit that cannot be called again is acceptable if it stopped with the row published. -/
theorem acceptableEnd_stopped (h : ¬ Retryable env state next id expected) :
    AcceptableEnd env state id expected (next, .stopped) ↔
      NamesApproved env state next id expected :=
  ⟨fun hend => hend.1.resolve_left h, fun hnamed => ⟨.inr hnamed, fun _ => nofun⟩⟩

theorem not_acceptableEnd_error {error : String} (h : ¬ Retryable env state next id expected) :
    ¬ AcceptableEnd env state id expected (next, .finished (.error error)) :=
  fun hend => h (hend.2 error rfl)

/-- **Without the staged package a commit cannot be called again.** -/
theorem not_retryable_of_gone (hcan : CanCommit env state id expected)
    (hplan : reviewCommit env state id expected = .ok plan)
    (hprepared : next.prepared = state.prepared)
    (hgone : next.disk (plan.prepared.stagedPath env) = none) :
    ¬ Retryable env state next id expected := by
  rintro ⟨-, hretry⟩
  obtain ⟨plan', hplan', -⟩ := canCommit_iff.mp (hretry hcan)
  have hfound := (reviewCommit_eq_ok hplan').prepared
  obtain ⟨package, hpackage, -⟩ := (reviewCommit_eq_ok hplan').staged
  have hsame : state.preparedInstall id = some plan'.prepared := by
    rw [← hfound, PluginState.preparedInstall, PluginState.preparedInstall, hprepared]
  rw [(reviewCommit_eq_ok hplan).prepared, Option.some_inj] at hsame
  rw [← hsame, hgone] at hpackage
  cases hpackage

/-- The move leaves nothing at the staging directory. -/
theorem Reviewed.moved_gone (h : Reviewed env state id expected plan)
    (hmoved : plan.alreadyStaged = false) :
    (state.moved env plan).disk (plan.prepared.stagedPath env) = none := by
  obtain ⟨package, -, -, hstate⟩ := h.moved_disk hmoved
  rw [hstate]
  exact (Function.update_of_ne (stagedPath_ne_destination _ _) _ _).trans
    (Function.update_self _ _ _)

/-- A row that is published as it was changes nothing. -/
theorem Tables.upsertPluginInstall_same {tables tables' : Tables} {install : PluginInstall}
    (hids : (tables.plugins.map PluginRow.id).Nodup)
    (hrow : tables.plugin install.id = some install.row)
    (h : tables.upsertPluginInstall install = .ok tables') : tables' = tables := by
  rw [Tables.upsertPluginInstall, hrow] at h
  dsimp only at h
  split at h
  · cases h
    have hrows : Table.updateWhere tables.plugins (fun row => row.id = install.id)
        (fun row => { install.row with status := row.status }) = tables.plugins := by
      refine (List.map_congr_left fun row hmem => ?_).trans (List.map_id _)
      by_cases hid : row.id = install.id
      · have hfound := Table.lookup_of_mem hids hmem
        rw [hid, ← Tables.plugin, hrow, Option.some_inj] at hfound
        rw [if_pos (decide_eq_true hid), ← hfound]
        rfl
      · exact if_neg (by simpa using hid)
    rw [Tables.updatePlugins, hrows]
  · cases h

/-- A row that is published over the package that is there was published as it is, or the commit
cannot be called again as if nothing had happened. -/
theorem retryable_republished {name : String} {answer : Except String Unit}
    (hids : (state.tables.plugins.map PluginRow.id).Nodup)
    (h : Reviewed env state id expected plan)
    (hname : findManifest state.disk (plan.destination env) = .ok name)
    (hpublish : state.publish env plan.source (plan.record env name (answers .stamping).clock)
      answer = .ok next) :
    Retryable env state next id expected ↔ RepublishesSame env answers state plan := by
  obtain ⟨-, tables, hupsert, hnext⟩ := PluginState.publish_eq_ok hpublish
  have hid : plan.manifest.id = plan.prepared.pluginId := h.manifest
  constructor
  · rintro ⟨hrows, -⟩ name' hname'
    rw [hname] at hname'
    cases hname'
    have hrow := hrows plan.prepared h.prepared
    rw [← hid] at hrow
    rw [← hrow, hnext, PluginState.row]
    exact congrArg₂ Prod.mk (Tables.upsertPluginInstall_eq_ok hupsert).2
      (Function.update_self _ _ _)
  · intro hsame
    have hrow : state.tables.plugin plan.manifest.id = _ := congrArg Prod.fst (hsame name hname)
    have hdetails : state.details plan.manifest.id =
        some (plan.record env name (answers .stamping).clock).details :=
      congrArg Prod.snd (hsame name hname)
    have htables := Tables.upsertPluginInstall_same hids hrow hupsert
    have hcolumns : Function.update state.details plan.manifest.id
        (some (plan.record env name (answers .stamping).clock).details) = state.details := by
      rw [← hdetails, Function.update_eq_self]
    have hstate : next = state := by
      rw [hnext, htables]
      exact congrArg (fun details => { state with details := details }) hcolumns
    rw [hstate]
    exact ⟨fun _ _ => rfl, fun hcan => hcan⟩

/-- **The end of a commit that published the row.** -/
theorem acceptableEnd_clearing {name clock : String} {answer : Except String Unit} (n : Nat)
    (h : Reviewed env state id expected plan)
    (hname : findManifest (state.moved env plan).disk (plan.destination env) = .ok name)
    (hpublish : (state.moved env plan).publish env plan.source (plan.record env name clock) answer =
      .ok next) :
    AcceptableEnd env state id expected
        (commitRun env answers (n + 2) (next, .clearing plan (plan.record env name clock))) ↔
      ∀ error, (answers .clearing).outcome = .failed error →
        Retryable env state next id expected := by
  obtain ⟨after, phase, hrun, htables, hdisk, hphase⟩ :=
    @commitRun_clearing env answers next n plan (plan.record env name clock)
  have hnamed := h.names hname hpublish htables hdisk
  rw [hrun]
  cases houtcome : (answers .clearing).outcome with
  | done =>
    rw [houtcome] at hphase
    refine ⟨fun _ _ => nofun, fun _ => ⟨.inr hnamed, fun error herror => ?_⟩⟩
    have hphase : phase = _ := hphase
    rw [hphase] at herror
    split at herror <;> cases herror
  | failed error =>
    rw [houtcome] at hphase
    obtain ⟨rfl, error', rfl⟩ := hphase
    exact ⟨fun hend _ _ => hend.2 error' rfl,
      fun hretry => ⟨.inr hnamed, fun _ _ => hretry error rfl⟩⟩
  | stopped =>
    rw [houtcome] at hphase
    have hphase : phase = .stopped := hphase
    exact ⟨fun _ _ => nofun, fun _ => ⟨.inr hnamed, by rw [hphase]; exact fun _ => nofun⟩⟩

/-- A database error refuses the row. -/
theorem Committable.refused (h : Committable env state plan) (record : InstalledPlugin)
    (error : String) :
    (state.moved env plan).publish env plan.source record (.error error) = .error error := by
  rw [PluginState.publish, h.source]
  rfl

/-- **A commit that finds the package at its destination.** -/
theorem acceptableEnd_already (hids : (state.tables.plugins.map PluginRow.id).Nodup)
    (h : Reviewed env state id expected plan) (hcommittable : Committable env state plan)
    (halready : plan.alreadyStaged = true) :
    AcceptableEnd env state id expected (commitRun env answers 6 (state, .finding plan)) ↔
      (Done answers .finding → Done answers .stamping → Done answers .publishing →
        ∀ error, (answers .clearing).outcome = .failed error →
          RepublishesSame env answers state plan) := by
  have hmoved : state.moved env plan = state := if_pos halready
  rcases stage_find answers state plan 4 with ⟨name, hname, hsteps, hrun⟩ | ⟨hnot, phase, -, hrun⟩
  · have hfinding : Done answers .finding := hsteps _ (by simp)
    have hstamping : Done answers .stamping := hsteps _ (by simp)
    rw [hrun]
    cases houtcome : (answers .publishing).outcome with
    | done =>
      obtain ⟨next, hpublish⟩ := hcommittable.publish name (answers .stamping).clock
      have hpublish' := hpublish
      rw [hmoved] at hpublish'
      rw [commitRun_publishing_ok (by rw [CommitAnswer.fails, houtcome]; exact hpublish')
        (by rw [houtcome]; exact StepOutcome.noConfusion),
        acceptableEnd_clearing 1 h (by rw [hmoved]; exact hname) hpublish,
        retryable_republished hids h hname hpublish']
      exact ⟨fun hend _ _ _ => hend, fun hend => hend hfinding hstamping houtcome⟩
    | failed error =>
      have hrefused := hcommittable.refused
        (plan.record env name (answers .stamping).clock) ("Kakune database error: " ++ error)
      rw [hmoved] at hrefused
      rw [commitRun_publishing_error (by rw [CommitAnswer.fails, houtcome]; exact hrefused)
        (by rw [houtcome]; exact StepOutcome.noConfusion), if_pos halready]
      exact ⟨fun _ _ _ hdone => absurd (houtcome.symm.trans hdone) StepOutcome.noConfusion,
        fun _ => acceptableEnd_self _⟩
    | stopped =>
      rw [commitRun_publishing_stopped houtcome]
      exact ⟨fun _ _ _ hdone => absurd (houtcome.symm.trans hdone) StepOutcome.noConfusion,
        fun _ => acceptableEnd_self _⟩
  · obtain ⟨name, hname⟩ := hcommittable.found
    rw [hmoved] at hname
    rw [hrun]
    refine ⟨fun _ hfinding hstamping => absurd ⟨⟨name, hname⟩, ?_⟩ hnot,
      fun _ => acceptableEnd_self _⟩
    simp [hfinding, hstamping]

/-- A step between the move and the publication. -/
theorem acceptableEnd_readThen {α : Type} {step : CommitStep} {description : String}
    {go : α → PluginState × CommitPhase} {a : α} (h : ¬ Retryable env state next id expected) :
    AcceptableEnd env state id expected
        (readThen next description go (answers step).outcome (.ok a)) ↔
      PassesOr answers step (NamesApproved env state next id expected)
        (AcceptableEnd env state id expected (go a)) := by
  rw [PassesOr]
  cases (answers step).outcome with
  | done => exact Iff.rfl
  | failed error => exact iff_false_intro (not_acceptableEnd_error h)
  | stopped => exact acceptableEnd_stopped h

/-- **A commit that has moved the package.** -/
theorem acceptableEnd_moved (hplan : reviewCommit env state id expected = .ok plan)
    (hcommittable : Committable env state plan) (hmoved : plan.alreadyStaged = false) :
    AcceptableEnd env state id expected
        (commitRun env answers 6 (state.moved env plan, .finding plan)) ↔
      PassesOr answers .finding (NamesApproved env state (state.moved env plan) id expected)
        (PassesOr answers .stamping (NamesApproved env state (state.moved env plan) id expected)
          (match (answers .publishing).outcome with
            | .done => ∀ error, (answers .clearing).outcome ≠ .failed error
            | .failed _ => PassesOr answers .undoing
                (NamesApproved env state (state.moved env plan) id expected) True
            | .stopped => NamesApproved env state (state.moved env plan) id expected)) := by
  have h := reviewCommit_eq_ok hplan
  have hcan : CanCommit env state id expected := canCommit_iff.mpr ⟨plan, hplan, hcommittable⟩
  have hprepared : (state.moved env plan).prepared = state.prepared := by
    rw [PluginState.moved, hmoved]
    rfl
  have hnot : ¬ Retryable env state (state.moved env plan) id expected :=
    not_retryable_of_gone hcan hplan hprepared (h.moved_gone hmoved)
  obtain ⟨name, hname⟩ := hcommittable.found
  rw [commitRun_finding, hname, acceptableEnd_readThen hnot, commitRun_stamping,
    acceptableEnd_readThen hnot]
  -- the publication and what follows it
  refine iff_of_eq (congrArg (PassesOr answers .finding _) (congrArg (PassesOr answers .stamping _)
    (propext ?_)))
  cases houtcome : (answers .publishing).outcome with
  | done =>
    obtain ⟨next, hpublish⟩ := hcommittable.publish name (answers .stamping).clock
    have hnext : ¬ Retryable env state next id expected := by
      obtain ⟨-, tables, -, rfl⟩ := PluginState.publish_eq_ok hpublish
      exact not_retryable_of_gone hcan hplan hprepared (h.moved_gone hmoved)
    rw [commitRun_publishing_ok (by rw [CommitAnswer.fails, houtcome]; exact hpublish)
      (by rw [houtcome]; exact StepOutcome.noConfusion), acceptableEnd_clearing 1 h hname hpublish]
    exact ⟨fun hend error herror => hnext (hend error herror),
      fun hend error herror => absurd herror (hend error)⟩
  | failed error =>
    rw [commitRun_publishing_error (by
        rw [CommitAnswer.fails, houtcome]
        exact hcommittable.refused _ ("Kakune database error: " ++ error))
      (by rw [houtcome]; exact StepOutcome.noConfusion), if_neg (by rw [hmoved]; simp),
      commitRun_undoing h hmoved, PassesOr]
    cases (answers .undoing).outcome with
    | done => exact iff_of_true (acceptableEnd_self _) trivial
    | failed error => exact iff_false_intro (not_acceptableEnd_error hnot)
    | stopped => exact acceptableEnd_stopped hnot
  | stopped =>
    rw [commitRun_publishing_stopped houtcome]
    exact acceptableEnd_stopped hnot

end Ends

/-! ### A commit that stops after the move -/

/-- A package with one node. -/
def greeterPackage : PackageEntry := .directory [
  (Utf8.encode "kakune.plugin.json".toList, .file <| Utf8.encode <|
    "\x7b\"manifestVersion\":\"1.0\",\"id\":\"demo.greeter\",\"name\":\"Greeter\",".toList ++
      "\"version\":\"1.0.0\",\"pluginProtocol\":\">=1.0.0 <2.0.0\",".toList ++
      "\"runtime\":\x7b\"kind\":\"process\",\"command\":\"./greeter\"\x7d,".toList ++
      "\"contributes\":\x7b\"nodes\":[\"greet.json\"]\x7d\x7d".toList),
  (Utf8.encode "greet.json".toList, .file <| Utf8.encode <|
    "\x7b\"apiVersion\":\"kakune.dev/v1\",\"kind\":\"NodeDefinition\",".toList ++
      "\"type\":\"demo.greet@1\",\"name\":\"Greet\"\x7d".toList)]

def greeterManifest : PluginManifest where
  id := "demo.greeter"
  name := "Greeter"
  version := "1.0.0"
  nodes := some ["greet.json"]

/-- The hash and the readers, for that package. -/
def greeterEnv : InstallEnv where
  dataDir := "/data"
  sha256 := fun _ => "dfef75541a642015fce04e02e74cc35536ec44b2cb30e61ca6753f67ec3fa2c8"
  parseUrl := fun _ => none
  loadManifest := fun _ _ => .ok greeterManifest
  loadNodeType := fun _ _ => .ok "demo.greet@1"

def greeterDigest : String :=
  "sha256:dfef75541a642015fce04e02e74cc35536ec44b2cb30e61ca6753f67ec3fa2c8"

def greeterPrepared : PreparedPlugin where
  id := "6f1c5b1e-7a55-4c55-8a3e-0d6f3f1f2a11"
  pluginId := "demo.greeter"
  version := "1.0.0"
  digest := greeterDigest
  policy := .object []
  resolvedLock := .object [("requestedSource", .string "/packages/greeter")]
  provenance := .object []

/-- The package is staged, and no plugin is installed. -/
def greeterState : PluginState where
  disk := fun path =>
    if path = greeterPrepared.stagedPath greeterEnv then some greeterPackage else none
  tables := {}
  details := fun _ => none
  prepared := [greeterPrepared]

def greeterPlan : CommitPlan where
  prepared := greeterPrepared
  manifest := greeterManifest
  source := "/packages/greeter"
  alreadyStaged := false

/-- The process stops after the package is moved, before its row is published. -/
def stopAfterMove (step : CommitStep) : CommitAnswer where
  outcome := if step = .finding then .stopped else .done

theorem review_greeter : reviewCommit greeterEnv greeterState greeterPrepared.id greeterDigest =
    .ok greeterPlan := by
  decide +kernel

theorem committable_greeter : Committable greeterEnv greeterState greeterPlan where
  found := ⟨"kakune.plugin.json", by decide +kernel⟩
  source := by decide +kernel
  accepted := fun _ => nofun

end KakuneCore
