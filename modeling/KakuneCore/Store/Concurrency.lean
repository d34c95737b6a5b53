import KakuneCore.Store.StatusMachine

/-!
# Slots and the queue of a workflow

Admission, the claim of a queued execution and recovery count rows in separate transactions. The
executions that occupy a slot never outnumber `maxRuns`; the queue is bounded at admission only,
and recovery adds the runs it puts back.
-/

namespace KakuneCore

/-- The admissions and claims of a workflow keep to one concurrency policy. -/
structure KeepsPolicy (workflowName : String) (policy : ConcurrencyPolicy)
    (calls : List StoreCall) : Prop where
  create : ∀ admission, StoreCall.create admission ∈ calls →
    admission.workflowName = workflowName → admission.plan.policy.concurrency = some policy
  claim : ∀ (n : Nat) (id : String) (maxRuns : Option Nat) (now : String) (row : ExecutionRow),
    calls[n]? = some (.claim id maxRuns now) → (tablesAfter calls n).execution id = some row →
    row.workflowName = workflowName → maxRuns = policy.maxRuns

/-! ### Slots -/

theorem activeRuns_lt_of_executionAdmission {tables : Tables} {workflowName : String}
    {policy : ConcurrencyPolicy} {m : Nat} (hm : policy.maxRuns = some m)
    (h : tables.executionAdmission workflowName (some policy) = .ok .running) :
    tables.activeRuns workflowName < m := by
  unfold Tables.executionAdmission at h
  dsimp only at h
  split at h
  · next hlt => simpa [hm] using hlt
  · split at h
    · cases h
    · split at h <;> cases h

/-- A step other than a claim gives no execution a slot. -/
theorem RowStep.isActive {call : StoreCall} {events : List EventRow} {row row' : ExecutionRow}
    (h : RowStep call events row row') (hclaim : ∀ id maxRuns now, call ≠ .claim id maxRuns now)
    (hactive : row'.status.isActive = true) : row.status.isActive = true := by
  cases h with
  | same => exact hactive
  | pin => exact hactive
  | claim heq => exact absurd heq (hclaim _ _ _)
  | cancelRunning hs => rw [hs]; rfl
  | cancelBare => cases hactive
  | cancelQueued => cases hactive
  | ended _ ht _ =>
    rw [ExecutionStatus.not_isActive_of_isTerminal ht] at hactive
    cases hactive
  | requeued => cases hactive

theorem activeRuns_claim_le {tables : Tables} (hids : tables.UniqueIds) {workflowName : String}
    {m : Nat} (hm : tables.activeRuns workflowName ≤ m) {id : String} {maxRuns : Option Nat}
    {now : String} (hclaim : ∀ row, tables.execution id = some row →
      row.workflowName = workflowName → maxRuns = some m) :
    (tables.claimExecutionSlot id maxRuns now).2.activeRuns workflowName ≤ m := by
  unfold Tables.claimExecutionSlot
  split
  · exact hm
  · next row hrow =>
    split
    · exact hm
    · split
      · next hfree =>
        change (Table.updateWhere tables.executions _ _).countP _ ≤ m
        by_cases hw : row.workflowName = workflowName
        · -- the claimed run takes one of the free slots
          rw [hclaim row hrow hw, hw] at hfree
          have hlt : tables.activeRuns workflowName < m := by simpa using hfree
          have hone : (Table.updateWhere tables.executions
              (fun row => row.id = id && row.status = .queued)
              (fun row => { row with status := .running })).countP
              (fun row => row.workflowName = workflowName && row.status.isActive) ≤
              tables.activeRuns workflowName + 1 := by
            refine Table.countP_updateWhere_key_le hids (k := id) fun row hp => ?_
            rw [Bool.and_eq_true] at hp
            exact of_decide_eq_true hp.1
          omega
        · -- the claimed run belongs to another workflow
          refine le_trans (Table.countP_le_of_forall₂ ?_) hm
          refine Table.forall₂_updateWhere (fun other hmem hp hq => ?_) fun _ _ _ hq => hq
          rw [Bool.and_eq_true] at hp hq
          have hsame : tables.execution other.id = some other := Table.lookup_of_mem hids hmem
          rw [of_decide_eq_true hp.1, hrow] at hsame
          cases hsame
          exact absurd (of_decide_eq_true hq.1) hw
      · exact hm

/-- **The concurrency limit**: under a fixed `maxRuns`, whatever calls reach the store, the running
and cancelling executions of a workflow never outnumber it. -/
theorem active_runs_never_exceed_max_runs (workflowName : String) (policy : ConcurrencyPolicy)
    (m : Nat) (hm : policy.maxRuns = some m) (calls : List StoreCall)
    (hcalls : KeepsPolicy workflowName policy calls) (n : Nat) :
    (tablesAfter calls n).activeRuns workflowName ≤ m := by
  induction n with
  | zero => simp [tablesAfter, Tables.activeRuns]
  | succ n ih =>
    obtain heq | ⟨call, hcall, heq⟩ := tablesAfter_succ calls n
    · rw [heq]
      exact ih
    · rw [heq]
      have hids : (tablesAfter calls n).UniqueIds := uniqueIds_runCalls _
      by_cases hclaim : ∃ id maxRuns now, call = .claim id maxRuns now
      · obtain ⟨id, maxRuns, now, rfl⟩ := hclaim
        refine activeRuns_claim_le hids ih fun row hrow hw => ?_
        rw [hcalls.claim n id maxRuns now row hcall hrow hw, hm]
      · push Not at hclaim
        cases call.apply_cases hids with
        | @admitted admission status hcreate hadmitted =>
          subst hcreate
          rw [Tables.activeRuns, hadmitted.rows, List.countP_append, List.countP_singleton]
          split
          · next hrow =>
            rw [Bool.and_eq_true, decide_eq_true_eq] at hrow
            have hallowed := hadmitted.allowed
            have hpolicy := hcalls.create admission (List.mem_of_getElem? hcall) hrow.1
            obtain rfl | rfl := status_of_executionAdmission hallowed
            swap
            · exact absurd hrow.2 (by simp [ExecutionStatus.isActive])
            rw [hpolicy] at hallowed
            have hlt := activeRuns_lt_of_executionAdmission hm hallowed
            have hname : admission.workflowName = workflowName := hrow.1
            rw [hname] at hlt
            exact hlt
          · exact ih
        | deleted _ hrows =>
          rw [Tables.activeRuns, hrows]
          exact le_trans (List.filter_sublist.countP_le) ih
        | steps hsteps =>
          obtain ⟨events, -, hforall⟩ := hsteps
          refine le_trans (Table.countP_le_of_forall₂ (hforall.imp fun row row' hstep hq => ?_)) ih
          rw [Bool.and_eq_true, hstep.workflowName_eq] at hq
          rw [Bool.and_eq_true]
          exact ⟨hq.1, hstep.isActive hclaim hq.2⟩

/-- A run finishes and the waiting one takes its slot. -/
def slotHandedOver : List StoreCall :=
  [.create (sampleAdmission "e1" "w" (some oneAtATime)),
    .create (sampleAdmission "e2" "w" (some oneAtATime)),
    .finish "e1" .succeeded none "2026-01-01T00:00:01Z",
    .claim "e2" (some 1) "2026-01-01T00:00:02Z"]

theorem keepsPolicy_slotHandedOver : KeepsPolicy "w" oneAtATime slotHandedOver where
  create := by
    intro admission hmem _
    simp only [slotHandedOver, List.mem_cons, StoreCall.create.injEq, reduceCtorEq,
      List.not_mem_nil, or_false] at hmem
    rcases hmem with rfl | rfl <;> rfl
  claim := by
    intro n id maxRuns now row hcall _ _
    have hmem := List.mem_of_getElem? hcall
    simp only [slotHandedOver, List.mem_cons, reduceCtorEq, StoreCall.claim.injEq,
      List.not_mem_nil, or_false, false_or] at hmem
    rw [hmem.2.1]
    rfl

theorem slotHandedOver_keeps_limit :
    (tablesAfter slotHandedOver 4).statusOf "e2" = some .running ∧
      ∀ n, (tablesAfter slotHandedOver n).activeRuns "w" ≤ 1 :=
  ⟨by decide, active_runs_never_exceed_max_runs "w" oneAtATime 1 rfl slotHandedOver
    keepsPolicy_slotHandedOver⟩

/-! ### The queue -/

/-- The executions a call puts back into the queue. -/
def putBackBy (tables : Tables) : StoreCall → List String
  | .recover _ => (tables.executions.filter fun row =>
      row.status.isActive && (tables.recoveryOf row).1 = .queued).map fun row => row.id
  | _ => []

/-- The executions that the first `n` calls put back. -/
def putBack (calls : List StoreCall) : Nat → List String
  | 0 => []
  | n + 1 => putBack calls n ++ (calls[n]?.map (putBackBy (tablesAfter calls n))).getD []

/-- The executions of a workflow that wait, and of these the ones that some ids name. -/
def Tables.queuedAmong (tables : Tables) (workflowName : String) (ids : List String) : Nat :=
  tables.executions.countP fun row =>
    (row.workflowName = workflowName && row.status = .queued) && row.id ∈ ids

/-- The executions of a workflow that wait and are not named. -/
def Tables.queuedExcept (tables : Tables) (workflowName : String) (ids : List String) : Nat :=
  tables.executions.countP fun row =>
    (row.workflowName = workflowName && row.status = .queued) && row.id ∉ ids

theorem Tables.queuedRuns_eq (tables : Tables) (workflowName : String) (ids : List String) :
    tables.queuedRuns workflowName =
      tables.queuedExcept workflowName ids + tables.queuedAmong workflowName ids := by
  rw [queuedRuns, queuedExcept, queuedAmong]
  induction tables.executions with
  | nil => rfl
  | cons row rows ih =>
    simp only [List.countP_cons, ih]
    by_cases hmem : row.id ∈ ids
    · simp only [hmem, not_true_eq_false, decide_true, decide_false, Bool.and_true, Bool.and_false,
        Bool.false_eq_true, if_false]
      omega
    · simp only [hmem, not_false_eq_true, decide_true, decide_false, Bool.and_true, Bool.and_false,
        Bool.false_eq_true, if_false]
      omega

theorem queuedRuns_lt_of_executionAdmission {tables : Tables} {workflowName : String}
    {policy : ConcurrencyPolicy} {q : Nat} (hq : policy.maxQueued = some q)
    (h : tables.executionAdmission workflowName (some policy) = .ok .queued) :
    tables.queuedRuns workflowName < q := by
  unfold Tables.executionAdmission at h
  dsimp only at h
  split at h
  · cases h
  · split at h
    · cases h
    · split at h
      · cases h
      · next hfree => simpa [hq] using hfree

/-- A step other than recovery puts no stored execution into the queue. -/
theorem RowStep.isQueued {call : StoreCall} {events : List EventRow} {row row' : ExecutionRow}
    (h : RowStep call events row row') (hrecover : ∀ now, call ≠ .recover now)
    (hqueued : row'.status = .queued) : row.status = .queued := by
  cases h with
  | same => exact hqueued
  | pin => exact hqueued
  | claim _ hs => exact hs
  | cancelRunning => cases hqueued
  | cancelBare _ hs => exact hs
  | cancelQueued _ hs => exact hs
  | ended _ ht _ =>
    dsimp only at hqueued
    rw [hqueued] at ht
    exact ht.elim
  | requeued heq => exact absurd heq (hrecover _)

/-- What recovery puts back is named, so the other waiting executions do not grow in number. -/
theorem queuedExcept_recover_le {tables : Tables} (hids : tables.UniqueIds) (workflowName : String)
    (now : String) (ids : List String) :
    (StoreCall.apply tables (.recover now)).queuedExcept workflowName
      (ids ++ putBackBy tables (.recover now)) ≤ tables.queuedExcept workflowName ids := by
  change (tables.recoverIncompleteExecutions now).2.executions.countP _ ≤ _
  rw [(steps_recover hids now).2, Tables.queuedExcept]
  refine Table.countP_le_of_forall₂ ?_
  refine Table.forall₂_updateWhere (fun row hmem hactive hrow => ?_) fun row _ _ hrow => ?_
  · -- a recovered row that waits is one of those put back
    simp only [Bool.and_eq_true, decide_eq_true_eq, List.mem_append, not_or] at hrow
    have hput : row.id ∈ putBackBy tables (.recover now) := by
      refine List.mem_map.mpr ⟨row, List.mem_filter.mpr ⟨hmem, ?_⟩, rfl⟩
      rw [hactive, Bool.true_and, decide_eq_true_eq]
      exact hrow.1.2
    exact absurd hput hrow.2.2
  · simp only [Bool.and_eq_true, decide_eq_true_eq, List.mem_append, not_or] at hrow ⊢
    exact ⟨hrow.1, hrow.2.1⟩

/-- One call: an admission leaves at most `q` executions waiting, and nothing else lets the part
of the queue grow that recovery did not put back. -/
theorem queuedExcept_apply_le {tables : Tables} (hids : tables.UniqueIds) {workflowName : String}
    {policy : ConcurrencyPolicy} {q : Nat} (hq : policy.maxQueued = some q) {call : StoreCall}
    (hcreate : ∀ admission, call = .create admission → admission.workflowName = workflowName →
      admission.plan.policy.concurrency = some policy) {ids : List String}
    (hbound : tables.queuedExcept workflowName ids ≤ q) :
    (call.apply tables).queuedExcept workflowName (ids ++ putBackBy tables call) ≤ q := by
  by_cases hrecover : ∃ now, call = .recover now
  · obtain ⟨now, rfl⟩ := hrecover
    exact le_trans (queuedExcept_recover_le hids workflowName now ids) hbound
  · push Not at hrecover
    have hnone : putBackBy tables call = [] := by
      cases call <;> first | rfl | exact absurd rfl (hrecover _)
    rw [hnone, List.append_nil]
    cases call.apply_cases hids with
    | @admitted admission status hcall hadmitted =>
      rw [Tables.queuedExcept, hadmitted.rows, List.countP_append, List.countP_singleton]
      split
      · next hrow =>
        simp only [Bool.and_eq_true] at hrow
        have hname : admission.workflowName = workflowName := of_decide_eq_true hrow.1.1
        have hstatus : status = .queued := of_decide_eq_true hrow.1.2
        have hallowed := hadmitted.allowed
        rw [hcreate admission hcall hname, hname, hstatus] at hallowed
        have hlt := queuedRuns_lt_of_executionAdmission hq hallowed
        have hsplit := tables.queuedRuns_eq workflowName ids
        rw [Tables.queuedExcept] at hsplit
        omega
      · exact hbound
    | deleted _ hrows =>
      rw [Tables.queuedExcept, hrows]
      exact le_trans List.filter_sublist.countP_le hbound
    | steps hsteps =>
      obtain ⟨events, -, hforall⟩ := hsteps
      refine le_trans
        (Table.countP_le_of_forall₂ (hforall.imp fun row row' hstep hrow => ?_)) hbound
      simp only [Bool.and_eq_true, decide_eq_true_eq, hstep.workflowName_eq, hstep.id_eq] at hrow ⊢
      exact ⟨⟨hrow.1.1, hstep.isQueued hrecover hrow.1.2⟩, hrow.2⟩

theorem queuedExcept_tablesAfter_le {workflowName : String} {policy : ConcurrencyPolicy} {q : Nat}
    (hq : policy.maxQueued = some q) {calls : List StoreCall}
    (hcalls : KeepsPolicy workflowName policy calls) (n : Nat) :
    (tablesAfter calls n).queuedExcept workflowName (putBack calls n) ≤ q := by
  induction n with
  | zero => simp [tablesAfter, Tables.queuedExcept]
  | succ n ih =>
    rw [putBack]
    by_cases hn : n < calls.length
    · have hcall := List.getElem?_eq_getElem hn
      rw [hcall, Option.map_some, Option.getD_some, tablesAfter,
        List.take_succ_eq_append_getElem hn, runCalls_append]
      refine queuedExcept_apply_le (uniqueIds_runCalls _) hq (fun admission heq hw => ?_) ih
      exact hcalls.create admission (heq ▸ List.getElem_mem hn) hw
    · rw [List.getElem?_eq_none (by omega), tablesAfter, List.take_of_length_le (by omega)]
      rw [tablesAfter, List.take_of_length_le (by omega)] at ih
      simpa using ih

/-- **The queue bound**: under a fixed policy, the executions of a workflow that wait never
outnumber `maxQueued` by more than those among them that recovery has put back. -/
theorem queued_runs_exceed_max_queued_only_by_recovery (workflowName : String)
    (policy : ConcurrencyPolicy) (q : Nat) (hq : policy.maxQueued = some q)
    (calls : List StoreCall) (hcalls : KeepsPolicy workflowName policy calls) (n : Nat) :
    (tablesAfter calls n).queuedRuns workflowName ≤
      q + (tablesAfter calls n).queuedAmong workflowName (putBack calls n) := by
  rw [Tables.queuedRuns_eq _ _ (putBack calls n)]
  have hbound := queuedExcept_tablesAfter_le hq hcalls n
  omega

/-- A restart while one run is active and one waits. -/
def restartedQueue : List StoreCall :=
  [.create (sampleAdmission "e1" "w" (some oneAtATime)),
    .create (sampleAdmission "e2" "w" (some oneAtATime)), .recover "2026-01-01T00:00:01Z"]

theorem keepsPolicy_restartedQueue : KeepsPolicy "w" oneAtATime restartedQueue where
  create := by
    intro admission hmem _
    simp only [restartedQueue, List.mem_cons, StoreCall.create.injEq, reduceCtorEq,
      List.not_mem_nil, or_false] at hmem
    rcases hmem with rfl | rfl <;> rfl
  claim := by
    intro n id maxRuns now row hcall _ _
    have hmem := List.mem_of_getElem? hcall
    simp [restartedQueue] at hmem

theorem restartedQueue_exceeds_by_one :
    (tablesAfter restartedQueue 3).queuedAmong "w" (putBack restartedQueue 3) = 1 ∧
      (tablesAfter restartedQueue 3).queuedRuns "w" ≤
        1 + (tablesAfter restartedQueue 3).queuedAmong "w" (putBack restartedQueue 3) :=
  ⟨by decide, queued_runs_exceed_max_queued_only_by_recovery "w" oneAtATime 1 rfl
    restartedQueue keepsPolicy_restartedQueue 3⟩

/-- Recovery fills the queue beyond `maxQueued`: two executions wait where one may. -/
theorem recovery_overfills_the_queue :
    ¬∀ calls, KeepsPolicy "w" oneAtATime calls → ∀ n,
      (tablesAfter calls n).queuedRuns "w" ≤ oneAtATime.maxQueued.getD 0 := by
  intro h
  have hqueued : (tablesAfter restartedQueue 3).queuedRuns "w" = 2 := by decide
  have hbound := h restartedQueue keepsPolicy_restartedQueue 3
  rw [hqueued] at hbound
  exact absurd hbound (by decide)

end KakuneCore
