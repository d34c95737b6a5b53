import KakuneCore.Api.Submission

/-!
# Idempotent admission

A request key names at most one stored execution, a request that finds its key bound changes
nothing, and workers are started for the created executions and for no others. One path can fail
between the admission and the start of the worker: `managementSubmitWorkflow` reads the admitted
revision back, and gives up when that read fails.
-/

namespace KakuneCore

open Proc

/-! ### Request keys -/

/-- Every request key is bound once, to a stored execution. -/
structure KeysBound (tables : Tables) : Prop where
  unique : (tables.idempotency.map IdempotencyRow.requestKey).Nodup
  stored : ∀ row ∈ tables.idempotency,
    row.executionId ∈ tables.executions.map fun execution => execution.id

theorem idempotency_foldl_recoverExecution (completedAt : String) (todo : List ExecutionRow)
    (tables : Tables) :
    (todo.foldl (Tables.recoverExecution completedAt) tables).idempotency =
      tables.idempotency := by
  induction todo generalizing tables with
  | nil => rfl
  | cons row todo ih =>
    rw [List.foldl_cons, ih]
    rfl

/-- Only admission and retention touch the request keys. -/
theorem idempotency_apply {call : StoreCall} (hkeeps : call.Keeps)
    (hcreate : ∀ admission, call ≠ .create admission) (tables : Tables) :
    (call.apply tables).idempotency = tables.idempotency := by
  cases call with
  | create admission => exact absurd rfl (hcreate admission)
  | claim id maxRuns now =>
    simp only [StoreCall.apply, Tables.claimExecutionSlot]
    split
    · rfl
    · split
      · rfl
      · split <;> rfl
  | requestCancel id => rfl
  | requestCancelOutcome id now =>
    simp only [StoreCall.apply, Tables.requestExecutionCancelOutcome]
    split
    · rfl
    · split <;> rfl
  | cancelQueued id now => rfl
  | finish id status error now =>
    simp only [StoreCall.apply, Tables.finishExecution]
    split
    · rfl
    · split <;> rfl
  | recover now => exact idempotency_foldl_recoverExecution _ _ _
  | checkpoint execution write =>
    simp only [StoreCall.apply]
    split <;> rfl
  | catalog workflows plugins removalWorkflows => rfl
  | setPinned id pinned => rfl
  | applyRetention executionBefore eventBefore => exact hkeeps.elim

theorem keysBound_admitted {tables tables' : Tables} {admission : Tables.Admission}
    {status : ExecutionStatus} (h : Admitted tables tables' admission status)
    (hkeys : KeysBound tables) : KeysBound tables' where
  unique := by
    have hrows : (admission.identityRows.map IdempotencyRow.requestKey).Nodup := by
      unfold Tables.Admission.identityRows
      cases admission.identity <;> simp
    rw [h.keys, List.map_append, List.nodup_append]
    refine ⟨hkeys.unique, hrows, ?_⟩
    intro key hold key' hnew heq
    obtain ⟨row, hmem, rfl⟩ := List.mem_map.mp hnew
    exact h.freshKey row hmem (heq ▸ hold)
  stored := by
    intro row hmem
    rw [h.keys, List.mem_append] at hmem
    rw [h.rows, List.map_append, List.mem_append]
    rcases hmem with hmem | hmem
    · exact .inl (hkeys.stored row hmem)
    · -- the new key is bound to the new execution
      obtain ⟨identity, -, rfl⟩ := List.mem_map.mp hmem
      exact .inr (by simp)

/-- Retention deletes a key together with the execution it is bound to. -/
theorem keysBound_applyRetention {tables : Tables} (hkeys : KeysBound tables)
    (executionBefore eventBefore : String) :
    KeysBound (tables.applyRetention executionBefore eventBefore) where
  unique := hkeys.unique.sublist (List.filter_sublist.map _)
  stored := by
    intro row hmem
    obtain ⟨hmem, hkept⟩ := List.mem_filter.mp hmem
    obtain ⟨execution, hexecution, heq⟩ := List.mem_map.mp (hkeys.stored row hmem)
    refine List.mem_map.mpr ⟨execution, List.mem_filter.mpr ⟨hexecution, ?_⟩, heq⟩
    rw [Bool.not_eq_true'] at hkept ⊢
    have hall := List.any_eq_false.mp hkept execution hexecution
    simpa [heq] using hall

theorem keysBound_apply {tables : Tables} (hids : tables.UniqueIds) (hkeys : KeysBound tables)
    (call : StoreCall) : KeysBound (call.apply tables) := by
  by_cases hkeeps : call.Keeps
  · by_cases hcreate : ∃ admission, call = .create admission
    · obtain ⟨admission, rfl⟩ := hcreate
      cases h : tables.createExecutionWithPlanGuarded admission with
      | error e =>
        simpa only [StoreCall.apply, Tables.commit, h] using hkeys
      | ok result =>
        obtain ⟨⟨record, created⟩, tables'⟩ := result
        simp only [StoreCall.apply, Tables.commit, h]
        obtain ⟨found, -, h⟩ := except_bind_eq_ok h
        cases found with
        | some found =>
          cases h
          exact hkeys
        | none =>
          obtain ⟨-, -, h⟩ := except_bind_eq_ok h
          obtain ⟨⟨record', tables''⟩, hadmitted, h⟩ := except_bind_eq_ok h
          cases h
          obtain ⟨status, -, hadmitted⟩ := admitted_of_admitExecution hadmitted
          exact keysBound_admitted hadmitted hkeys
    · push Not at hcreate
      have hsame := idempotency_apply hkeeps hcreate tables
      have hrows : ((call.apply tables).executions.map fun row => row.id) =
          tables.executions.map fun row => row.id := by
        cases call.apply_cases hids with
        | admitted heq => exact absurd heq (hcreate _)
        | deleted heq => rw [heq] at hkeeps; exact hkeeps.elim
        | steps hsteps => exact hsteps.map_id
      exact ⟨by rw [hsame]; exact hkeys.unique, by rw [hsame, hrows]; exact hkeys.stored⟩
  · cases call with
    | applyRetention executionBefore eventBefore =>
      exact keysBound_applyRetention hkeys executionBefore eventBefore
    | _ => exact absurd trivial hkeeps

theorem keysBound_runCalls (calls : List StoreCall) : KeysBound (runCalls calls) := by
  induction calls using List.reverseRecOn with
  | nil => exact ⟨List.nodup_nil, by simp⟩
  | append_singleton calls call ih =>
    rw [runCalls_append]
    exact keysBound_apply (uniqueIds_runCalls calls) ih call

/-- Whatever the store serves, its tables are those of some sequence of calls. -/
theorem Serves.exists_runCalls {tables tables' : Tables} {t : ApiTrace}
    (h : Serves tables t tables') (hstart : ∃ calls, tables = runCalls calls) :
    ∃ calls, tables' = runCalls calls := by
  induction h with
  | nil => exact hstart
  | other call _ ih =>
    obtain ⟨calls, rfl⟩ := hstart
    exact ih ⟨calls ++ [call], (runCalls_append calls call).symm⟩
  | event hperforms _ ih =>
    refine ih ?_
    cases hperforms with
    | @create admission =>
      obtain ⟨calls, rfl⟩ := hstart
      exact ⟨calls ++ [.create admission], by rw [runCalls_append]; rfl⟩
    | _ => exact hstart

/-! ### A bound key -/

section BoundKey

variable {tables : Tables} (hkeys : KeysBound tables) {admission : Tables.Admission}
  {key hash : String} (hidentity : admission.identity = some (key, hash)) {row : IdempotencyRow}
  (hmem : row ∈ tables.idempotency) (hkey : row.requestKey = key)
include hkeys hidentity hmem hkey

/-- The same request again: its execution is returned and no row changes. -/
theorem createExecutionWithPlanGuarded_of_same_hash (hhash : row.requestHash = hash) :
    ∃ execution ∈ tables.executions, execution.id = row.executionId ∧
      tables.createExecutionWithPlanGuarded admission =
        .ok ((execution.toExecutionRecord, false), tables) := by
  obtain ⟨stored, hstored, heq⟩ := List.mem_map.mp (hkeys.stored row hmem)
  have hlookup : (tables.execution row.executionId).isSome = true := by
    rw [Tables.execution, Option.isSome_iff_ne_none]
    intro hnone
    exact Table.lookup_eq_none.mp hnone stored hstored heq
  obtain ⟨execution, hexecution⟩ := Option.isSome_iff_exists.mp hlookup
  obtain ⟨hstored', hid⟩ := Table.mem_of_lookup hexecution
  refine ⟨execution, hstored', hid, ?_⟩
  have hfind : Table.lookup IdempotencyRow.requestKey tables.idempotency key = some row := by
    rw [← hkey]
    exact Table.lookup_of_mem hkeys.unique hmem
  have hrequested : tables.requestedExecution admission.identity =
      .ok (some execution.toExecutionRecord) := by
    rw [hidentity, Tables.requestedExecution, Tables.idempotentExecution, hfind]
    simp [hhash, hexecution]
  rw [Tables.createExecutionWithPlanGuarded, hrequested]
  rfl

/-- Another request under the same key fails. -/
theorem createExecutionWithPlanGuarded_of_other_hash (hhash : row.requestHash ≠ hash) :
    tables.createExecutionWithPlanGuarded admission =
      .error "idempotency key already used for a different request" := by
  have hfind : Table.lookup IdempotencyRow.requestKey tables.idempotency key = some row := by
    rw [← hkey]
    exact Table.lookup_of_mem hkeys.unique hmem
  have hrequested : tables.requestedExecution admission.identity =
      .error "idempotency key already used for a different request" := by
    rw [hidentity, Tables.requestedExecution, Tables.idempotentExecution, hfind]
    simp [hhash]
  rw [Tables.createExecutionWithPlanGuarded, hrequested]
  rfl

end BoundKey

/-! ### Workers -/

/-- The event starts the worker of the execution `id`. -/
def startsWorker (id : String) : ApiEvent → Bool
  | ⟨.spawnWorker record, _⟩ => record.id = id
  | _ => false

/-- The event creates the execution `id`. -/
def createsExecution (id : String) : ApiEvent → Bool
  | ⟨.createExecution _, .ok (record, true)⟩ => record.id = id
  | _ => false

/-- The answer carries a revision. -/
def hasRevision : Except String (Option String) → Bool
  | .ok (some _) => true
  | _ => false

/-- The event reads the revision of the execution `id` and does not get it. -/
def losesRevision (id : String) : ApiEvent → Bool
  | ⟨.executionWorkflowRevision id', answer⟩ => id' = id && !hasRevision answer
  | _ => false

/-- A weight under which every handler pays for what it creates: by starting the worker, or by
losing the revision it reads back. -/
structure PaysForCreation (w : ApiEvent → ℤ) : Prop where
  permit : ∀ x, 0 ≤ w ⟨.admitPermit, x⟩
  find : ∀ key hash x, 0 ≤ w ⟨.findIdempotentExecution key hash, x⟩
  prepare : ∀ workflowId inputs x, 0 ≤ w ⟨.prepare workflowId inputs, x⟩
  revision : ∀ id x, 0 ≤ w ⟨.executionWorkflowRevision id, x⟩
  failed : ∀ admission text, 0 ≤ w ⟨.createExecution admission, .error text⟩
  found : ∀ admission record, 0 ≤ w ⟨.createExecution admission, .ok (record, false)⟩
  started : ∀ admission record, 0 ≤ w ⟨.createExecution admission, .ok (record, true)⟩ +
    w ⟨.spawnWorker record, ()⟩
  lost : ∀ admission (record : ExecutionRecord) x, hasRevision x = false →
    0 ≤ w ⟨.createExecution admission, .ok (record, true)⟩ +
      w ⟨.executionWorkflowRevision record.id, x⟩

theorem credit_apiCall_bind {α β : Type} {w : ApiEvent → ℤ} {k : ℤ} {o : ApiOp}
    {failure : String → String} {h : ApiResp o = Except String α} {f : α → ApiM β}
    (hok : ∀ x a, cast h x = .ok a → Credit w (k + w ⟨o, x⟩) (f a).run)
    (herror : ∀ x text, cast h x = .error text → 0 ≤ k + w ⟨o, x⟩) :
    Credit w k (apiCall o failure h >>= f).run := by
  refine Credit.op fun x => ?_
  change Credit w (k + w ⟨o, x⟩) (ExceptT.bindCont f ((cast h x).mapError failure))
  cases hx : cast h x with
  | ok a => exact hok x a hx
  | error text => exact .ret (herror x text hx)

section Credits

variable {w : ApiEvent → ℤ} {k : ℤ} (hw : PaysForCreation w)
include hw

omit hw in
theorem credit_apiEnsure_bind {β : Type} {condition : Bool} {failure : String} {f : Unit → ApiM β}
    (hk : 0 ≤ k) (hf : Credit w k (f ()).run) :
    Credit w k (apiEnsure condition failure >>= f).run := by
  unfold apiEnsure
  split
  · exact hf
  · exact .run_throw hk

theorem credit_admitPermit_bind {β : Type} {failure : String}
    {f : TrackedExecutionState → ApiM β} (hk : 0 ≤ k) (hf : Credit w k (f .preparation).run) :
    Credit w k (admitPermit failure >>= f).run := by
  refine Credit.op fun x => ?_
  have hx := hw.permit x
  change Credit w _ ((apiEnsure x failure >>= fun _ => pure .preparation) >>= f).run
  unfold apiEnsure
  split
  · exact hf.mono (by omega)
  · exact .run_throw (by omega)

omit hw in
/-- A created execution that is handed to its worker. -/
theorem credit_spawnCreated {record : ExecutionRecord} {failure : String}
    (hk : 0 ≤ k + w ⟨.spawnWorker record, ()⟩) :
    Credit w k (spawnCreated .preparation record failure).run :=
  Credit.op fun _ => .ret hk

theorem credit_findIdempotent_bind {β : Type} {key : Option String} {hash : String}
    {failure : String → String} {f : Option ExecutionRecord → ApiM β} (hk : 0 ≤ k)
    (hf : ∀ found, Credit w k (f found).run) :
    Credit w k (findIdempotent key hash failure >>= f).run := by
  cases key with
  | none => exact hf none
  | some key =>
    refine credit_apiCall_bind (fun x found _ => ?_) fun x text _ => ?_
    · have hx := hw.find key hash x
      exact (hf found).mono (by omega)
    · have hx := hw.find key hash x
      omega

theorem credit_prepare_bind {β : Type} {workflowId : String} {inputs : Value}
    {f : PreparedExecution → ApiM β} (hk : 0 ≤ k) (hf : ∀ prepared, Credit w k (f prepared).run) :
    Credit w k (apiCall (α := PreparedExecution) (.prepare workflowId inputs) id >>= f).run := by
  refine credit_apiCall_bind (fun x prepared _ => ?_) fun x text _ => ?_
  · have hx := hw.prepare workflowId inputs x
    exact (hf prepared).mono (by omega)
  · have hx := hw.prepare workflowId inputs x
    omega

/-- The admission transaction with what follows it, by whether it created the execution. -/
theorem credit_createExecution_bind {β : Type} {admission : Tables.Admission}
    {failure : String → String} {f : ExecutionRecord × Bool → ApiM β}
    (hfound : ∀ record, Credit w 0 (f (record, false)).run)
    (hcreated : ∀ record, Credit w (w ⟨.createExecution admission, .ok (record, true)⟩)
      (f (record, true)).run) :
    Credit w 0 (apiCall (α := ExecutionRecord × Bool) (.createExecution admission) failure
      >>= f).run := by
  refine credit_apiCall_bind (fun x result hx => ?_) fun x text hx => ?_
  · obtain rfl : x = .ok result := hx
    obtain ⟨record, created⟩ := result
    cases created with
    | false =>
      have hpaid := hw.found admission record
      exact (hfound record).mono (by omega)
    | true => exact (hcreated record).mono (by omega)
  · obtain rfl : x = .error text := hx
    have hpaid := hw.failed admission text
    omega

theorem credit_createExecution_handler (artifactId : Value → String)
    (request : SubmissionRequest) : Credit w 0 (createExecution artifactId request).run := by
  refine credit_admitPermit_bind hw le_rfl (credit_apiEnsure_bind le_rfl ?_)
  refine credit_findIdempotent_bind hw le_rfl fun found => ?_
  cases found with
  | some record => exact .run_pure le_rfl
  | none =>
    refine credit_prepare_bind hw le_rfl fun prepared => ?_
    refine credit_createExecution_bind hw (fun record => .run_pure le_rfl) fun record => ?_
    exact credit_spawnCreated (hw.started _ record)

theorem credit_scheduledExecution (request : SubmissionRequest) :
    Credit w 0 (scheduledExecution request).run := by
  refine credit_admitPermit_bind hw le_rfl (credit_prepare_bind hw le_rfl fun prepared => ?_)
  refine credit_createExecution_bind hw (fun record => .run_pure le_rfl) fun record => ?_
  exact credit_spawnCreated (hw.started _ record)

theorem credit_managementSubmitWorkflow (artifactId : Value → String)
    (request : SubmissionRequest) :
    Credit w 0 (managementSubmitWorkflow artifactId request).run := by
  refine credit_apiEnsure_bind le_rfl (credit_apiEnsure_bind le_rfl ?_)
  refine credit_findIdempotent_bind hw le_rfl fun found => ?_
  -- reading the revision of an execution that is there already costs nothing
  have hread : ∀ (record : ExecutionRecord) (failure : String → String),
      Credit w 0 (do
        let _ ← admittedRevision record failure
        pure (record, false) : ApiM (ExecutionRecord × Bool)).run := by
    intro record failure
    refine .run_then le_rfl ?_ fun _ => .run_pure le_rfl
    refine credit_apiCall_bind (fun x revision _ => ?_) fun x text _ => ?_
    · have hx := hw.revision record.id x
      cases revision with
      | some revision => exact .run_pure (by omega)
      | none => exact .run_throw (by omega)
    · have hx := hw.revision record.id x
      omega
  cases found with
  | some record => exact hread record _
  | none =>
    refine credit_admitPermit_bind hw le_rfl (credit_prepare_bind hw le_rfl fun prepared => ?_)
    refine credit_createExecution_bind hw (fun record => hread record _) fun record => ?_
    -- a created execution is paid for by its worker, or by the read that fails
    refine Credit.op fun x => ?_
    have hrevision := hw.revision record.id x
    have hlost := hw.lost (prepared.admission (request.identity (artifactId (.object
      [("input", request.inputs),
        ("workflowId", .string request.workflowId)]))) true false) record x
    match x, hrevision, hlost with
    | .error text, _, hlost => exact .ret (hlost rfl)
    | .ok none, _, hlost => exact .ret (hlost rfl)
    | .ok (some revision), hrevision, _ =>
      refine credit_spawnCreated ?_
      have hstarted := hw.started (prepared.admission (request.identity (artifactId (.object
        [("input", request.inputs), ("workflowId", .string request.workflowId)]))) true false)
        record
      omega

/-- **Every handler pays for what it creates.** -/
theorem credit_handleSubmission (artifactId : Value → String)
    (request : Submitter × SubmissionRequest) :
    Credit w 0 (handleSubmission artifactId request).run := by
  obtain ⟨submitter, request⟩ := request
  cases submitter with
  | api => exact credit_createExecution_handler hw artifactId request
  | management => exact credit_managementSubmitWorkflow hw artifactId request
  | scheduler => exact credit_scheduledExecution hw request

end Credits

/-- The requests of a Core, side by side. -/
def handleSubmissions (artifactId : Value → String)
    (requests : List (Submitter × SubmissionRequest)) :
    Proc ApiOp ApiResp (List (Except String (ExecutionRecord × Bool))) :=
  Proc.parallel (requests.map fun request => (handleSubmission artifactId request).run)

theorem credit_handleSubmissions {w : ApiEvent → ℤ} (hw : PaysForCreation w)
    (artifactId : Value → String) (requests : List (Submitter × SubmissionRequest)) :
    Credit w 0 (handleSubmissions artifactId requests) := by
  have hall : ∀ request ∈ requests, Credit w ((fun _ => 0) request)
      (handleSubmission artifactId request).run :=
    fun request _ => credit_handleSubmission hw artifactId request
  exact (Credit.parallel hall).mono (by simp)

/-- Workers are started for created executions only. -/
def workerWeight (id : String) (e : ApiEvent) : ℤ :=
  indicator (createsExecution id) e - indicator (startsWorker id) e

/-- A created execution has its worker started, or its revision was lost. -/
def creationWeight (id : String) (e : ApiEvent) : ℤ :=
  indicator (startsWorker id) e + indicator (losesRevision id) e -
    indicator (createsExecution id) e

theorem paysForCreation_workerWeight (id : String) : PaysForCreation (workerWeight id) where
  permit _ := by simp [workerWeight, indicator, createsExecution, startsWorker]
  find _ _ _ := by simp [workerWeight, indicator, createsExecution, startsWorker]
  prepare _ _ _ := by simp [workerWeight, indicator, createsExecution, startsWorker]
  revision _ _ := by simp [workerWeight, indicator, createsExecution, startsWorker]
  failed _ _ := by simp [workerWeight, indicator, createsExecution, startsWorker]
  found _ _ := by simp [workerWeight, indicator, createsExecution, startsWorker]
  started _ record := by
    by_cases hid : record.id = id <;>
      simp [workerWeight, indicator, createsExecution, startsWorker, hid]
  lost _ record x _ := by
    by_cases hid : record.id = id <;>
      simp [workerWeight, indicator, createsExecution, startsWorker, hid]

theorem paysForCreation_creationWeight (id : String) : PaysForCreation (creationWeight id) where
  permit _ := by simp [creationWeight, indicator, createsExecution, startsWorker, losesRevision]
  find _ _ _ := by simp [creationWeight, indicator, createsExecution, startsWorker, losesRevision]
  prepare _ _ _ := by
    simp [creationWeight, indicator, createsExecution, startsWorker, losesRevision]
  revision id' x := by
    have hlost := indicator_nonneg (losesRevision id) ⟨.executionWorkflowRevision id', x⟩
    simpa [creationWeight, indicator, createsExecution, startsWorker] using hlost
  failed _ _ := by simp [creationWeight, indicator, createsExecution, startsWorker, losesRevision]
  found _ _ := by simp [creationWeight, indicator, createsExecution, startsWorker, losesRevision]
  started _ record := by
    by_cases hid : record.id = id <;>
      simp [creationWeight, indicator, createsExecution, startsWorker, losesRevision, hid]
  lost _ record x hx := by
    by_cases hid : record.id = id <;>
      simp [creationWeight, indicator, createsExecution, startsWorker, losesRevision, hid, hx]

/-- Answers that create nothing. -/
def refusal : (o : ApiOp) → ApiResp o
  | .admitPermit => false
  | .findIdempotentExecution _ _ => .error ""
  | .prepare _ _ => .error ""
  | .createExecution _ => .error ""
  | .executionWorkflowRevision _ => .error ""
  | .spawnWorker _ => ()

/-- Never more workers than created executions, also while requests are under way. -/
theorem countP_startsWorker_le {artifactId : Value → String}
    {requests : List (Submitter × SubmissionRequest)} {t : ApiTrace}
    {r : Option (List (Except String (ExecutionRecord × Bool)))}
    (hrun : Runs (handleSubmissions artifactId requests) t r) (id : String) :
    t.countP (startsWorker id) ≤ t.countP (createsExecution id) := by
  -- the requests under way may all still be refused
  have hpaid := (credit_handleSubmissions (paysForCreation_workerWeight id) artifactId
    requests).cut hrun refusal fun o => by
      cases o <;> simp [workerWeight, indicator, createsExecution, startsWorker, refusal]
      split <;> omega
  have hbalance : balance (workerWeight id) t =
      t.countP (createsExecution id) - t.countP (startsWorker id) := by
    rw [← balance_indicator, ← balance_indicator, ← balance_sub]
    rfl
  rw [hbalance] at hpaid
  omega

/-- When all requests are done, a created execution without a worker lost its revision. -/
theorem countP_createsExecution_le {artifactId : Value → String}
    {requests : List (Submitter × SubmissionRequest)} {t : ApiTrace}
    {responses : List (Except String (ExecutionRecord × Bool))}
    (hrun : Runs (handleSubmissions artifactId requests) t (some responses)) (id : String) :
    t.countP (createsExecution id) ≤
      t.countP (startsWorker id) + t.countP (losesRevision id) := by
  have hpaid := credit_handleSubmissions (paysForCreation_creationWeight id) artifactId requests
    t responses hrun
  have hbalance : balance (creationWeight id) t =
      t.countP (startsWorker id) + t.countP (losesRevision id) -
        t.countP (createsExecution id) := by
    rw [← balance_indicator, ← balance_indicator, ← balance_indicator, ← balance_add,
      ← balance_sub]
    rfl
  rw [hbalance] at hpaid
  omega

/-! ### Idempotent admission -/

/-- No read of an execution that the run created loses its revision. -/
def KeepsRevisions (t : ApiTrace) : Prop :=
  ∀ id, 0 < t.countP (createsExecution id) → t.countP (losesRevision id) = 0

theorem Serves.append {tables tables₁ tables' : Tables} {t t' : ApiTrace}
    (h : Serves tables t tables₁) (h' : Serves tables₁ t' tables') :
    Serves tables (t ++ t') tables' := by
  induction h with
  | nil => exact h'
  | other call _ ih => exact .other call (ih h')
  | event hperforms _ ih => exact .event hperforms (ih h')

/-- A store that prepares one plan for every request; `readFails` makes the reads of revisions
fail. -/
def serveApi (prepared : PreparedExecution) (readFails : Bool) (tables : Tables) :
    (o : ApiOp) → ApiResp o × Tables
  | .admitPermit => (true, tables)
  | .findIdempotentExecution key hash => (tables.idempotentExecution key hash, tables)
  | .prepare _ _ => (.ok prepared, tables)
  | .createExecution admission =>
    ((tables.createExecutionWithPlanGuarded admission).map Prod.fst,
      tables.commit (tables.createExecutionWithPlanGuarded admission))
  | .executionWorkflowRevision id =>
    (if readFails then .error "database is locked"
      else .ok ((tables.plans.find? fun plan => plan.executionId = id).map
        PlanRow.workflowRevision), tables)
  | .spawnWorker _ => ((), tables)

theorem performs_serveApi (prepared : PreparedExecution) (readFails : Bool) (tables : Tables)
    (o : ApiOp) :
    Performs tables ⟨o, (serveApi prepared readFails tables o).1⟩
      (serveApi prepared readFails tables o).2 := by
  cases o with
  | admitPermit => exact .permit _
  | findIdempotentExecution key hash => exact .find
  | prepare workflowId inputs => exact .prepare _
  | createExecution admission => exact .create
  | executionWorkflowRevision id =>
    cases readFails with
    | true => exact .revisionFault _
    | false => exact .revision
  | spawnWorker record => exact .spawn

theorem serves_simulate {α : Type} (prepared : PreparedExecution) (readFails : Bool)
    (p : Proc ApiOp ApiResp α) (tables : Tables) :
    Serves tables (p.simulate (serveApi prepared readFails) tables).1
      (p.simulate (serveApi prepared readFails) tables).2.2 := by
  induction p generalizing tables with
  | ret a => exact .nil tables
  | op o k ih => exact .event (performs_serveApi prepared readFails tables o) (ih _ _)
  | fork p q k ihp ihq ih => exact ((ihp tables).append (ihq _)).append (ih _ _ _)

/-- A plan for the workflow `w`, drawn up for the execution `e1`. -/
def samplePrepared : PreparedExecution where
  executionId := "e1"
  workflowName := "w"
  workflowRevision := "r1"
  plan := (sampleAdmission "e1" "w" none).plan
  plugins := []
  createdAt := "2026-01-01T00:00:00Z"

/-- The store has the workflow at the revision the plan was compiled from. -/
def sampleCatalog : List StoreCall :=
  [.catalog [{ id := "w", revision := "r1", status := "enabled" }] [] []]

/-- The same request, twice. -/
def repeatedRequests : List (Submitter × SubmissionRequest) :=
  [(.management, { workflowId := "w", requestKey := some "k" }),
    (.management, { workflowId := "w", requestKey := some "k" })]

/-- One request, whose revision cannot be read back. -/
def interruptedRequests : List (Submitter × SubmissionRequest) :=
  [(.management, { workflowId := "w", requestKey := some "k" })]

/-- What requests do on the sample store, and the tables they leave. -/
def sampleRun (requests : List (Submitter × SubmissionRequest)) (readFails : Bool) :
    ApiTrace × List (Except String (ExecutionRecord × Bool)) × Tables :=
  (handleSubmissions (fun _ => "hash") requests).simulate (serveApi samplePrepared readFails)
    (runCalls sampleCatalog)

end KakuneCore
