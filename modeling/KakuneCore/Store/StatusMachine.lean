import KakuneCore.Relational.Runs
import KakuneCore.Store.Executions

/-!
# The life of an execution row

`StoreCall.apply_cases` says once what a call can do to the rows of `executions`: append an admitted
row, delete expired rows, or move each row by a `RowStep`. The status machine follows by induction
over the calls.
-/

namespace KakuneCore

/-! ### What a call does to a row -/

/-- An event of the list names an execution and its new status. -/
def Records (events : List EventRow) (id : String) (status : ExecutionStatus) : Prop :=
  ∃ event ∈ events, event.executionId = some id ∧
    event.payload.get? "status" = some (.string status.text)

/-- One row before and after a call; `events` are the events the call appended. -/
inductive RowStep (call : StoreCall) (events : List EventRow) :
    ExecutionRow → ExecutionRow → Prop
  | same (row : ExecutionRow) : RowStep call events row row
  | pin (row : ExecutionRow) (pinned : Bool) : RowStep call events row { row with pinned }
  | claim {row : ExecutionRow} {maxRuns : Option Nat} {now : String} :
      call = .claim row.id maxRuns now → row.status = .queued →
      RowStep call events row { row with status := .running }
  | cancelRunning {row : ExecutionRow} : row.status = .running →
      RowStep call events row { row with status := .cancelling }
  /-- A queued execution is cancelled by the bare update of `request_execution_cancel`. -/
  | cancelBare {row : ExecutionRow} : call = .requestCancel row.id → row.status = .queued →
      RowStep call events row { row with status := .cancelled }
  /-- A queued execution is cancelled with its completion time, but without an event. -/
  | cancelQueued {row : ExecutionRow} {now : String} : call = .cancelQueued row.id now →
      row.status = .queued →
      RowStep call events row { row with status := .cancelled, completedAt := some now }
  | ended {row : ExecutionRow} {status : ExecutionStatus} {now : String}
      {error : Option String} : ¬row.status.IsTerminal → status.IsTerminal →
      Records events row.id status →
      RowStep call events row { row with status, completedAt := some now, error }
  | requeued {row : ExecutionRow} {now : String} : call = .recover now → row.status = .running →
      RowStep call events row { row with status := .queued, completedAt := none, error := none }

theorem RowStep.id_eq {call : StoreCall} {events : List EventRow} {row row' : ExecutionRow}
    (h : RowStep call events row row') : row'.id = row.id := by
  cases h <;> rfl

theorem RowStep.workflowName_eq {call : StoreCall} {events : List EventRow}
    {row row' : ExecutionRow} (h : RowStep call events row row') :
    row'.workflowName = row.workflowName := by
  cases h <;> rfl

/-- The ids of the executions have no repeats. -/
def Tables.UniqueIds (tables : Tables) : Prop :=
  (tables.executions.map fun row => row.id).Nodup

/-- Every row takes a `RowStep`, and the events of the call are appended to the log. -/
def Steps (call : StoreCall) (tables tables' : Tables) : Prop :=
  ∃ events, tables'.events = tables.events ++ events ∧
    List.Forall₂ (RowStep call events) tables.executions tables'.executions

/-- A call that leaves executions and events alone. -/
theorem Steps.of_eq {call : StoreCall} {tables tables' : Tables}
    (hrows : tables'.executions = tables.executions) (hevents : tables'.events = tables.events) :
    Steps call tables tables' := by
  refine ⟨[], by simp [hevents], ?_⟩
  rw [hrows, List.forall₂_same]
  exact fun row _ => .same row

/-- An update of the rows that satisfy `p`, with the events appended after it. -/
theorem Steps.of_update {call : StoreCall} {tables tables' : Tables} {p : ExecutionRow → Bool}
    {f : ExecutionRow → ExecutionRow} (events : List EventRow)
    (hrows : tables'.executions = Table.updateWhere tables.executions p f)
    (hevents : tables'.events = tables.events ++ events)
    (hp : ∀ row, p row = true → RowStep call events row (f row)) : Steps call tables tables' := by
  refine ⟨events, hevents, ?_⟩
  rw [hrows]
  exact Table.forall₂_updateWhere (fun row _ h => hp row h) fun row _ _ => .same row

/-! ### Recovery -/

/-- The status recovery gives is the queue for a running row, and terminal otherwise. -/
theorem recoveredStatus_cases {status : ExecutionStatus} (h : status.isActive = true)
    (hasPlan uncertain : Bool) :
    (status = .running ∧ hasPlan = true ∧ uncertain = false ∧
      Tables.recoveredStatus status hasPlan uncertain = (.queued, none)) ∨
    (Tables.recoveredStatus status hasPlan uncertain).1.IsTerminal := by
  unfold Tables.recoveredStatus
  split
  · exact .inr trivial
  · next hne =>
    have hrunning : status = .running := by
      simpa [ExecutionStatus.isActive, hne] using h
    split
    · next hresume =>
      rw [Bool.and_eq_true, Bool.not_eq_true'] at hresume
      exact .inl ⟨hrunning, hresume.1, hresume.2, rfl⟩
    · exact .inr trivial

theorem ExecutionStatus.not_isActive_of_isTerminal {status : ExecutionStatus}
    (h : status.IsTerminal) : status.isActive = false := by
  cases status <;> first | rfl | exact h.elim

/-- The row recovery writes. -/
def recoveredRow (completedAt : String) (tables : Tables) (row : ExecutionRow) : ExecutionRow :=
  let next := tables.recoveryOf row
  { row with
    status := next.1
    completedAt := if next.1 = .queued then none else some completedAt
    error := next.2 }

theorem rowStep_recoveredRow {completedAt : String} {tables : Tables} {row : ExecutionRow}
    {events : List EventRow} (hactive : row.status.isActive = true)
    (hrecord : Records events row.id (tables.recoveryOf row).1) :
    RowStep (.recover completedAt) events row (recoveredRow completedAt tables row) := by
  obtain ⟨hrunning, -, -, hnext⟩ | hterminal :=
    recoveredStatus_cases hactive (tables.plans.any fun plan => plan.executionId = row.id)
      (tables.checkpointsOf row.id).isUncertain
  · have hrow : recoveredRow completedAt tables row =
        { row with status := .queued, completedAt := none, error := none } := by
      simp [recoveredRow, Tables.recoveryOf, hnext]
    rw [hrow]
    exact .requeued rfl hrunning
  · have hne : (tables.recoveryOf row).1 ≠ .queued := by
      intro heq
      rw [Tables.recoveryOf] at heq
      rw [heq] at hterminal
      exact hterminal
    have hrow : recoveredRow completedAt tables row =
        { row with
          status := (tables.recoveryOf row).1
          completedAt := some completedAt
          error := (tables.recoveryOf row).2 } := by
      simp [recoveredRow, hne]
    rw [hrow]
    refine .ended (fun h => ?_) hterminal hrecord
    rw [ExecutionStatus.not_isActive_of_isTerminal h] at hactive
    cases hactive

/-- The recovery loop recovers the rows it is given and leaves the others. -/
theorem foldl_recoverExecution (completedAt : String) (todo : List ExecutionRow) :
    ∀ tables : Tables, tables.UniqueIds → (∀ row ∈ todo, row ∈ tables.executions) →
      (todo.map fun row => row.id).Nodup →
      ∃ events,
        (todo.foldl (Tables.recoverExecution completedAt) tables).events = tables.events ++ events ∧
        (∀ row ∈ todo, Records events row.id (tables.recoveryOf row).1) ∧
        (todo.foldl (Tables.recoverExecution completedAt) tables).executions =
          Table.updateWhere tables.executions (fun row => decide (row ∈ todo))
            (recoveredRow completedAt tables) := by
  induction todo with
  | nil =>
    intro tables _ _ _
    exact ⟨[], by simp, by simp, by simp [Table.updateWhere]⟩
  | cons first todo ih =>
    intro tables hids hmem htodo
    rw [List.map_cons, List.nodup_cons] at htodo
    obtain ⟨hfirst, htodo⟩ := htodo
    -- after the first turn the remaining rows are still in the table as they were
    let next := Tables.recoverExecution completedAt tables first
    have hrow : ∀ row ∈ tables.executions, row.id = first.id → row = first := by
      intro row hr heq
      have h₁ := Table.lookup_of_mem hids hr
      have h₂ := Table.lookup_of_mem hids (hmem first List.mem_cons_self)
      rw [heq] at h₁
      exact Option.some_injective _ (h₁.symm.trans h₂)
    have hnextRows : next.executions = Table.updateWhere tables.executions
        (fun row => decide (row.id = first.id)) (recoveredRow completedAt tables) := by
      change Table.updateWhere tables.executions _ _ = _
      refine List.map_congr_left fun row hr => ?_
      by_cases heq : row.id = first.id
      · obtain rfl := hrow row hr heq
        simp [recoveredRow]
      · simp [heq]
    have hids' : next.UniqueIds := by
      have hkeep : ∀ row, (recoveredRow completedAt tables row).id = row.id := fun _ => rfl
      rw [Tables.UniqueIds, hnextRows,
        Table.map_updateWhere (fun row : ExecutionRow => row.id) hkeep]
      exact hids
    have hmem' : ∀ row ∈ todo, row ∈ next.executions := by
      intro row hr
      rw [hnextRows, Table.mem_updateWhere]
      refine .inl ⟨hmem row (List.mem_cons_of_mem _ hr), ?_⟩
      have hne : row.id ≠ first.id := by
        intro heq
        refine hfirst ?_
        rw [← heq]
        exact List.mem_map_of_mem hr
      simpa using hne
    obtain ⟨events, hevents, hrecords, hrows⟩ := ih next hids' hmem' htodo
    have hsame : ∀ row, next.recoveryOf row = tables.recoveryOf row := fun _ => rfl
    have hlog :
        ∃ event, next.events = tables.events ++ [event] ∧ event.executionId = some first.id ∧
        event.payload.get? "status" = some (.string (tables.recoveryOf first).1.text) :=
      ⟨_, rfl, rfl, rfl⟩
    obtain ⟨event, hnextEvents, hname, hstatus⟩ := hlog
    refine ⟨event :: events, ?_, ?_, ?_⟩
    · rw [List.foldl_cons, hevents, hnextEvents, List.append_assoc, List.singleton_append]
    · intro row hr
      rcases List.mem_cons.mp hr with rfl | hr
      · exact ⟨event, List.mem_cons_self, hname, hstatus⟩
      · obtain ⟨e, he, hspec⟩ := hrecords row hr
        exact ⟨e, List.mem_cons_of_mem _ he, hspec⟩
    · rw [List.foldl_cons, hrows, hnextRows, Table.updateWhere, Table.updateWhere,
        Table.updateWhere, List.map_map]
      refine List.map_congr_left fun row hr => ?_
      by_cases heq : row.id = first.id
      · obtain rfl := hrow row hr heq
        have hdone : recoveredRow completedAt tables row ∉ todo := by
          intro h
          refine hfirst ?_
          have := List.mem_map_of_mem (f := fun row : ExecutionRow => row.id) h
          exact this
        simp [hdone]
      · have hne : row ≠ first := fun h => heq (h ▸ rfl)
        have hrec : recoveredRow completedAt next row = recoveredRow completedAt tables row := rfl
        simp [heq, hne, hrec]

/-- Recovery moves every running or cancelling row, and no other. -/
theorem steps_recover {tables : Tables} (hids : tables.UniqueIds) (now : String) :
    Steps (.recover now) tables (tables.recoverIncompleteExecutions now).2 ∧
      (tables.recoverIncompleteExecutions now).2.executions =
        Table.updateWhere tables.executions (fun row => row.status.isActive)
          (recoveredRow now tables) := by
  let todo := tables.executions.filter fun row => row.status.isActive
  have hmem : ∀ row ∈ todo, row ∈ tables.executions := fun row hr => List.mem_of_mem_filter hr
  have htodo : (todo.map fun row => row.id).Nodup :=
    hids.sublist (List.filter_sublist.map _)
  obtain ⟨events, hevents, hrecords, hrows⟩ := foldl_recoverExecution now todo tables hids
    hmem htodo
  have hselect : Table.updateWhere tables.executions (fun row => decide (row ∈ todo))
      (recoveredRow now tables) = Table.updateWhere tables.executions
        (fun row => row.status.isActive) (recoveredRow now tables) := by
    refine List.map_congr_left fun row hr => ?_
    simp [todo, hr]
  rw [hselect] at hrows
  refine ⟨⟨events, hevents, ?_⟩, hrows⟩
  have hsteps : List.Forall₂ (RowStep (.recover now) events) tables.executions
      (Table.updateWhere tables.executions (fun row => row.status.isActive)
        (recoveredRow now tables)) := by
    refine Table.forall₂_updateWhere (fun row hr hactive => ?_) fun row _ _ => .same row
    exact rowStep_recoveredRow hactive (hrecords row (List.mem_filter.mpr ⟨hr, hactive⟩))
  rw [← hrows] at hsteps
  exact hsteps

/-- What recovery makes of a running or cancelling execution. -/
theorem execution_recover {tables : Tables} (hids : tables.UniqueIds) {row : ExecutionRow}
    (hrow : row ∈ tables.executions) (hactive : row.status.isActive = true) (now : String) :
    (tables.recoverIncompleteExecutions now).2.execution row.id =
      some (recoveredRow now tables row) := by
  have hrows := (steps_recover hids now).2
  have hkeep : ∀ row, (recoveredRow now tables row).id = row.id := fun _ => rfl
  have hkeys : ((tables.recoverIncompleteExecutions now).2.executions.map
      fun row => row.id).Nodup := by
    rw [hrows, Table.map_updateWhere (fun row : ExecutionRow => row.id) hkeep]
    exact hids
  have hmem : recoveredRow now tables row ∈
      (tables.recoverIncompleteExecutions now).2.executions := by
    rw [hrows, Table.mem_updateWhere]
    exact .inr ⟨row, hrow, hactive, rfl⟩
  exact Table.lookup_of_mem hkeys hmem

/-! ### Calls -/

/-- An admission that commits appends a row for a fresh id. -/
structure Admitted (tables tables' : Tables) (admission : Tables.Admission)
    (status : ExecutionStatus) : Prop where
  allowed : tables.executionAdmission admission.workflowName admission.plan.policy.concurrency =
    .ok status
  fresh : admission.executionId ∉ tables.executions.map fun row => row.id
  rows : tables'.executions =
    tables.executions ++ [admission.row status]
  freshKey : ∀ row ∈ admission.identityRows, row.requestKey ∉
    tables.idempotency.map IdempotencyRow.requestKey
  keys : tables'.idempotency = tables.idempotency ++ admission.identityRows

/-- An execution starts out running or queued. -/
theorem status_of_executionAdmission {tables : Tables} {workflowName : String}
    {concurrency : Option ConcurrencyPolicy} {status : ExecutionStatus}
    (h : tables.executionAdmission workflowName concurrency = .ok status) :
    status = .running ∨ status = .queued := by
  unfold Tables.executionAdmission at h
  split at h
  · cases h; exact .inl rfl
  · split at h
    · cases h; exact .inl rfl
    · split at h
      · cases h
      · split at h
        · cases h
        · cases h; exact .inr rfl

theorem executions_pinPlugins {executionId : String} {requirements : List Tables.PluginRequirement}
    {tables tables' : Tables}
    (h : Tables.pinPlugins executionId requirements tables = .ok tables') :
    tables'.executions = tables.executions ∧ tables'.idempotency = tables.idempotency := by
  induction requirements generalizing tables with
  | nil => cases h; exact ⟨rfl, rfl⟩
  | cons requirement requirements ih =>
    simp only [Tables.pinPlugins] at h
    split at h
    · obtain ⟨h₁, h₂⟩ := ih h
      rw [h₁, h₂]
      split <;> exact ⟨rfl, rfl⟩
    · split at h
      · exact ih h
      · cases h

theorem insertIdentity_eq_ok {tables tables' : Tables} {admission : Tables.Admission}
    (h : tables.insertIdentity admission.executionId admission.identity = .ok tables') :
    tables'.executions = tables.executions ∧
      (∀ row ∈ admission.identityRows,
        row.requestKey ∉ tables.idempotency.map IdempotencyRow.requestKey) ∧
      tables'.idempotency = tables.idempotency ++ admission.identityRows := by
  unfold Tables.Admission.identityRows
  cases hidentity : admission.identity with
  | none =>
    rw [hidentity] at h
    cases h
    exact ⟨rfl, by simp, by simp⟩
  | some identity =>
    obtain ⟨key, hash⟩ := identity
    rw [hidentity, Tables.insertIdentity] at h
    split at h
    · cases h
    · next hfresh =>
      cases h
      refine ⟨rfl, ?_, by simp⟩
      simp only [Option.toList_some, List.map_cons, List.map_nil, List.mem_singleton,
        forall_eq, List.mem_map, not_exists, not_and]
      intro row hmem heq
      refine hfresh (List.any_eq_true.mpr ⟨row, hmem, ?_⟩)
      rw [decide_eq_true_eq]
      exact heq

theorem admitted_of_admitExecution {tables tables' : Tables} {admission : Tables.Admission}
    {record : ExecutionRecord} (h : tables.admitExecution admission = .ok (record, tables')) :
    ∃ status, record = admission.record status ∧ Admitted tables tables' admission status := by
  obtain ⟨status, hstatus, h⟩ := except_bind_eq_ok h
  obtain ⟨inserted, hinsert, h⟩ := except_bind_eq_ok h
  obtain ⟨pinned, hpin, h⟩ := except_bind_eq_ok h
  obtain ⟨identified, hidentity, h⟩ := except_bind_eq_ok h
  cases h
  unfold Tables.insertExecution at hinsert
  split at hinsert
  · cases hinsert
  · next hfresh =>
    cases hinsert
    obtain ⟨hrows, hfreshKey, hkeys⟩ := insertIdentity_eq_ok hidentity
    obtain ⟨hpinRows, hpinKeys⟩ := executions_pinPlugins hpin
    refine ⟨status, rfl, hstatus, ?_, ?_, ?_, ?_⟩
    · intro hmem
      obtain ⟨row, hr, heq⟩ := List.mem_map.mp hmem
      refine hfresh (List.any_eq_true.mpr ⟨row, hr, ?_⟩)
      rw [decide_eq_true_eq]
      exact heq
    · simpa [Tables.insertPlan, hpinRows] using hrows
    · simpa [Tables.insertPlan, hpinKeys] using hfreshKey
    · simpa [Tables.insertPlan, hpinKeys] using hkeys

/-- What a call did to the executions. -/
inductive Change (call : StoreCall) (tables tables' : Tables) : Prop
  | admitted {admission : Tables.Admission} {status : ExecutionStatus} :
      call = .create admission → Admitted tables tables' admission status →
      Change call tables tables'
  | deleted {executionBefore eventBefore : String} :
      call = .applyRetention executionBefore eventBefore →
      tables'.executions =
        tables.executions.filter (fun row => !Tables.isExpired executionBefore row) →
      Change call tables tables'
  | steps : Steps call tables tables' → Change call tables tables'

theorem change_create (tables : Tables) (admission : Tables.Admission) :
    Change (.create admission) tables (StoreCall.apply tables (.create admission)) := by
  change Change _ _ (tables.commit (tables.createExecutionWithPlanGuarded admission))
  cases h : tables.createExecutionWithPlanGuarded admission with
  | error e => exact .steps (.of_eq rfl rfl)
  | ok result =>
    obtain ⟨⟨record, created⟩, tables'⟩ := result
    obtain ⟨found, -, h⟩ := except_bind_eq_ok h
    cases found with
    | some found =>
      cases h
      exact .steps (.of_eq rfl rfl)
    | none =>
      obtain ⟨-, -, h⟩ := except_bind_eq_ok h
      obtain ⟨⟨record', tables''⟩, hcreate, h⟩ := except_bind_eq_ok h
      cases h
      obtain ⟨status, -, hadmitted⟩ := admitted_of_admitExecution hcreate
      exact .admitted rfl hadmitted

theorem steps_claim (tables : Tables) (id : String) (maxRuns : Option Nat) (now : String) :
    Steps (.claim id maxRuns now) tables (tables.claimExecutionSlot id maxRuns now).2 := by
  unfold Tables.claimExecutionSlot
  split
  · exact .of_eq rfl rfl
  · split
    · exact .of_eq rfl rfl
    · split
      · refine .of_update _ rfl rfl fun row hp => ?_
        simp only [Bool.and_eq_true, decide_eq_true_eq] at hp
        exact .claim (by rw [hp.1]) hp.2
      · exact .of_eq rfl rfl

theorem steps_requestCancel (tables : Tables) (id : String) :
    Steps (.requestCancel id) tables (tables.requestExecutionCancel id).2 := by
  refine .of_update [] rfl (by simp [Tables.requestExecutionCancel]) fun row hp => ?_
  simp only [Bool.and_eq_true, Bool.or_eq_true, decide_eq_true_eq] at hp
  obtain ⟨hid, hqueued | hrunning⟩ := hp
  · simpa [hqueued] using RowStep.cancelBare (by rw [hid]) hqueued
  · simpa [hrunning] using RowStep.cancelRunning hrunning

theorem steps_requestCancelOutcome (tables : Tables) (id now : String) :
    Steps (.requestCancelOutcome id now) tables
      (tables.requestExecutionCancelOutcome id now).2 := by
  unfold Tables.requestExecutionCancelOutcome
  split
  · exact .of_eq rfl rfl
  · split
    · refine .of_update _ rfl rfl fun row hp => ?_
      simp only [Bool.and_eq_true, decide_eq_true_eq] at hp
      refine .ended (by simp [hp.2, ExecutionStatus.IsTerminal]) trivial ?_
      exact ⟨_, List.mem_singleton_self _, by rw [hp.1], rfl⟩
    · refine .of_update _ rfl rfl fun row hp => ?_
      simp only [Bool.and_eq_true, decide_eq_true_eq] at hp
      exact .cancelRunning hp.2
    · exact .of_eq rfl rfl
    · exact .of_eq rfl rfl

theorem steps_finish (tables : Tables) (id : String) (status : FinalStatus)
    (error : Option String) (now : String) :
    Steps (.finish id status error now) tables
      (StoreCall.apply tables (.finish id status error now)) := by
  simp only [StoreCall.apply, Tables.finishExecution]
  split
  · exact .of_eq rfl rfl
  · split
    · exact .of_eq rfl rfl
    · refine .of_update _ rfl rfl fun row hp => ?_
      simp only [Bool.and_eq_true, decide_eq_true_eq, Bool.not_eq_true', decide_eq_false_iff_not]
        at hp
      refine .ended hp.2 (by cases status <;> trivial) ?_
      refine ⟨_, List.mem_singleton_self _, by rw [hp.1], ?_⟩
      cases error <;> rfl

/-- **What a call can do to the executions.** -/
theorem StoreCall.apply_cases {tables : Tables} (hids : tables.UniqueIds) (call : StoreCall) :
    Change call tables (call.apply tables) := by
  cases call with
  | create admission => exact change_create tables admission
  | claim id maxRuns now => exact .steps (steps_claim tables id maxRuns now)
  | requestCancel id => exact .steps (steps_requestCancel tables id)
  | requestCancelOutcome id now => exact .steps (steps_requestCancelOutcome tables id now)
  | cancelQueued id now =>
    refine .steps (.of_update [] rfl (by simp [apply, Tables.cancelQueuedExecution])
      fun row hp => ?_)
    simp only [Bool.and_eq_true, decide_eq_true_eq] at hp
    exact .cancelQueued (by rw [hp.1]) hp.2
  | finish id status error now => exact .steps (steps_finish tables id status error now)
  | recover now => exact .steps (steps_recover hids now).1
  | checkpoint execution write =>
    simp only [apply]
    split
    · exact .steps (.of_eq rfl rfl)
    · exact .steps (.of_eq rfl rfl)
  | catalog workflows plugins removalWorkflows => exact .steps (.of_eq rfl rfl)
  | setPinned id pinned =>
    exact .steps (.of_update [] rfl (by simp [apply, Tables.setExecutionPinned])
      fun row _ => .pin row pinned)
  | applyRetention executionBefore eventBefore => exact .deleted rfl rfl

theorem Steps.map_id {call : StoreCall} {tables tables' : Tables} (h : Steps call tables tables') :
    (tables'.executions.map fun row => row.id) = tables.executions.map fun row => row.id := by
  obtain ⟨events, -, hrows⟩ := h
  exact Table.map_eq_of_forall₂ _ (fun _ _ hrow => hrow.id_eq) hrows

/-- The ids stay without repeats. -/
theorem Change.uniqueIds {call : StoreCall} {tables tables' : Tables}
    (h : Change call tables tables') (hids : tables.UniqueIds) : tables'.UniqueIds := by
  unfold Tables.UniqueIds
  cases h with
  | admitted _ hadmitted =>
    rw [hadmitted.rows, List.map_append, List.nodup_append]
    refine ⟨hids, by simp, ?_⟩
    intro x hx y hy heq
    simp only [List.map_cons, List.map_nil, List.mem_singleton] at hy
    rw [Tables.Admission.row_id] at hy
    exact hadmitted.fresh (heq.trans hy ▸ hx)
  | deleted _ hrows =>
    rw [hrows]
    exact hids.sublist (List.filter_sublist.map _)
  | steps hsteps =>
    rw [hsteps.map_id]
    exact hids

theorem uniqueIds_runCalls (calls : List StoreCall) : (runCalls calls).UniqueIds := by
  induction calls using List.reverseRecOn with
  | nil => exact List.nodup_nil
  | append_singleton calls call ih =>
    rw [runCalls_append]
    exact (call.apply_cases ih).uniqueIds ih

/-! ### The status machine -/

/-- The status of an execution, if it is stored. -/
def Tables.statusOf (tables : Tables) (id : String) : Option ExecutionStatus :=
  (tables.execution id).map fun row => row.status

/-- An execution is stored and has come to an end. -/
def Tables.HasEnded (tables : Tables) (id : String) : Prop :=
  ∃ status, tables.statusOf id = some status ∧ status.IsTerminal

/-- The moves of a status: none out of a terminal one, only terminal ones out of `cancelling`. -/
structure StatusMove (status status' : ExecutionStatus) : Prop where
  absorbing : status.IsTerminal → status' = status
  cancelling : status = .cancelling → status' = .cancelling ∨ status'.IsTerminal

theorem StatusMove.refl (status : ExecutionStatus) : StatusMove status status :=
  ⟨fun _ => rfl, fun h => .inl h⟩

theorem RowStep.statusMove {call : StoreCall} {events : List EventRow} {row row' : ExecutionRow}
    (h : RowStep call events row row') : StatusMove row.status row'.status := by
  cases h with
  | same => exact .refl _
  | pin => exact .refl _
  | claim _ hs => constructor <;> simp [hs, ExecutionStatus.IsTerminal]
  | cancelRunning hs => constructor <;> simp [hs, ExecutionStatus.IsTerminal]
  | cancelBare _ hs => constructor <;> simp [hs, ExecutionStatus.IsTerminal]
  | cancelQueued _ hs => constructor <;> simp [hs, ExecutionStatus.IsTerminal]
  | ended hn ht _ => exact ⟨fun h => absurd h hn, fun _ => .inr ht⟩
  | requeued _ hs => constructor <;> simp [hs, ExecutionStatus.IsTerminal]

/-- Calls other than retention, which deletes rows. -/
def StoreCall.Keeps : StoreCall → Prop
  | applyRetention _ _ => False
  | _ => True

instance : DecidablePred StoreCall.Keeps := fun call => by
  cases call <;> unfold StoreCall.Keeps <;> infer_instance

/-- A stored status moves as the machine says. -/
theorem statusOf_apply {tables : Tables} (hids : tables.UniqueIds) {call : StoreCall}
    (hkeeps : call.Keeps) {id : String} {status : ExecutionStatus}
    (h : tables.statusOf id = some status) :
    ∃ status', (call.apply tables).statusOf id = some status' ∧ StatusMove status status' := by
  obtain ⟨row, hrow, rfl⟩ := Option.map_eq_some_iff.mp h
  cases call.apply_cases hids with
  | @admitted admission status hcall hadmitted =>
    refine ⟨row.status, ?_, .refl _⟩
    have hne : admission.executionId ≠ id := by
      intro heq
      obtain ⟨hmem, hid⟩ := Table.mem_of_lookup hrow
      refine hadmitted.fresh ?_
      rw [heq, ← hid]
      exact List.mem_map_of_mem hmem
    have hfresh : (admission.row status).id ∉ tables.executions.map fun row => row.id :=
      hadmitted.fresh
    rw [Tables.statusOf, Tables.execution, hadmitted.rows, Table.lookup_append hfresh,
      Tables.Admission.row_id, if_neg hne]
    exact h
  | deleted hcall => rw [hcall] at hkeeps; exact hkeeps.elim
  | steps hsteps =>
    obtain ⟨events, -, hrows⟩ := hsteps
    have hrel := Table.lookup_of_forall₂ (fun _ _ h => RowStep.id_eq h) hrows id
    rw [Tables.execution] at hrow
    rw [hrow] at hrel
    cases hrel' :
        Table.lookup (fun row : ExecutionRow => row.id) (call.apply tables).executions id with
    | none => rw [hrel'] at hrel; cases hrel
    | some row' =>
      rw [hrel'] at hrel
      cases hrel with
      | some hstep =>
        exact ⟨row'.status, by rw [Tables.statusOf, Tables.execution, hrel']; rfl, hstep.statusMove⟩

/-- The tables after the first `n` of the calls. -/
def tablesAfter (calls : List StoreCall) (n : Nat) : Tables := runCalls (calls.take n)

/-- The call at position `n` moves the execution into a terminal status. -/
def EndsAt (calls : List StoreCall) (id : String) (n : Nat) : Prop :=
  (tablesAfter calls (n + 1)).HasEnded id ∧ ¬(tablesAfter calls n).HasEnded id

/-- One more call, or none when the calls are used up. -/
theorem tablesAfter_succ (calls : List StoreCall) (n : Nat) :
    tablesAfter calls (n + 1) = tablesAfter calls n ∨
      ∃ call, calls[n]? = some call ∧
        tablesAfter calls (n + 1) = call.apply (tablesAfter calls n) := by
  by_cases hn : n < calls.length
  · refine .inr ⟨calls[n], List.getElem?_eq_getElem hn, ?_⟩
    rw [tablesAfter, List.take_succ_eq_append_getElem hn, runCalls_append]
    rfl
  · refine .inl ?_
    rw [tablesAfter, tablesAfter, List.take_of_length_le (by omega),
      List.take_of_length_le (by omega)]

section Machine

variable {calls : List StoreCall} (hkeeps : ∀ call ∈ calls, call.Keeps) {id : String}
include hkeeps

theorem statusOf_tablesAfter_succ {n : Nat} {status : ExecutionStatus}
    (h : (tablesAfter calls n).statusOf id = some status) :
    ∃ status', (tablesAfter calls (n + 1)).statusOf id = some status' ∧
      StatusMove status status' := by
  obtain heq | ⟨call, hcall, heq⟩ := tablesAfter_succ calls n
  · exact ⟨status, by rw [heq]; exact h, .refl _⟩
  · rw [heq]
    exact statusOf_apply (uniqueIds_runCalls _) (hkeeps call (List.mem_of_getElem? hcall)) h

/-- A terminal status stays, however many calls follow. -/
theorem statusOf_tablesAfter_of_isTerminal {m n : Nat} (hmn : m ≤ n) {status : ExecutionStatus}
    (h : (tablesAfter calls m).statusOf id = some status) (hterminal : status.IsTerminal) :
    (tablesAfter calls n).statusOf id = some status := by
  induction n, hmn using Nat.le_induction with
  | base => exact h
  | succ n _ ih =>
    obtain ⟨status', hstatus, hmove⟩ := statusOf_tablesAfter_succ hkeeps ih
    rw [hstatus, hmove.absorbing hterminal]

theorem EndsAt.not_lt {m n : Nat} (hm : EndsAt calls id m) (hn : EndsAt calls id n) : ¬m < n := by
  intro hlt
  obtain ⟨status, hstatus, hterminal⟩ := hm.1
  exact hn.2 ⟨status, statusOf_tablesAfter_of_isTerminal hkeeps hlt hstatus hterminal, hterminal⟩

end Machine

/-- **The execution status machine**: whatever calls reach the store, in whatever order, a terminal
status is kept, `cancelling` moves only to a terminal status, and an execution ends at most once. -/
theorem execution_status_machine (calls : List StoreCall) (hkeeps : ∀ call ∈ calls, call.Keeps)
    (id : String) :
    (∀ m n status, m ≤ n → (tablesAfter calls m).statusOf id = some status →
      status.IsTerminal → (tablesAfter calls n).statusOf id = some status) ∧
    (∀ n status, (tablesAfter calls n).statusOf id = some .cancelling →
      (tablesAfter calls (n + 1)).statusOf id = some status →
      status = .cancelling ∨ status.IsTerminal) ∧
    ∀ m n, EndsAt calls id m → EndsAt calls id n → m = n := by
  refine ⟨fun m n status hmn h hterminal => ?_, fun n status h hnext => ?_, fun m n hm hn => ?_⟩
  · exact statusOf_tablesAfter_of_isTerminal hkeeps hmn h hterminal
  · obtain ⟨status', hstatus, hmove⟩ := statusOf_tablesAfter_succ hkeeps h
    rw [hnext] at hstatus
    cases hstatus
    exact hmove.cancelling rfl
  · have hlt := hm.not_lt hkeeps hn
    have hgt := hn.not_lt hkeeps hm
    omega

/-- One run at a time, one waiting. -/
def oneAtATime : ConcurrencyPolicy :=
  { maxRuns := some 1, overflow := some .queue, maxQueued := some 1 }

/-- An admission of the execution `id` of a workflow under a policy. -/
def sampleAdmission (id workflowName : String) (concurrency : Option ConcurrencyPolicy) :
    Tables.Admission where
  executionId := id
  workflowName
  workflowRevision := "r1"
  plan := { workflowId := workflowName, nodes := [], entry := "a", outputs := [],
            policy := { concurrency } }
  createdAt := "2026-01-01T00:00:00Z"

/-- A cancelled execution meets a restart, and its worker still reports a failure. -/
def cancelledCalls : List StoreCall :=
  [.create (sampleAdmission "e1" "w" none), .requestCancel "e1", .recover "2026-01-01T00:00:01Z",
    .finish "e1" .failed (some "late") "2026-01-01T00:00:02Z"]

theorem cancelledCalls_status_machine :
    (tablesAfter cancelledCalls 3).statusOf "e1" = some .cancelled ∧
      (tablesAfter cancelledCalls 4).statusOf "e1" = some .cancelled ∧
      ∀ m n, EndsAt cancelledCalls "e1" m → EndsAt cancelledCalls "e1" n → m = n := by
  have hmachine := execution_status_machine cancelledCalls
    (by simp [cancelledCalls, StoreCall.Keeps]) "e1"
  have hended : (tablesAfter cancelledCalls 3).statusOf "e1" = some .cancelled := by
    decide +kernel
  exact ⟨hended, hmachine.1 3 4 _ (by omega) hended trivial, hmachine.2.2⟩

end KakuneCore
