import KakuneCore.Store.StatusMachine

/-!
# Completion times and events

Every path into a terminal status should set the completion time and append an event in the same
transaction. Two cancellation calls do less to a queued execution: `request_execution_cancel` writes
neither, `cancel_queued_execution` writes no event. As long as neither call finds its execution
queued, the records of the executions that have ended are complete, and retention can delete them.
-/

namespace KakuneCore

/-- The call cancels a queued execution by a bare update. -/
def StoreCall.CancelsBare (tables : Tables) : StoreCall → Prop
  | requestCancel id => tables.statusOf id = some .queued
  | cancelQueued id _ => tables.statusOf id = some .queued
  | _ => False

/-- A completion time is set exactly on the executions that have ended. -/
def ExecutionRow.IsComplete (row : ExecutionRow) : Prop :=
  row.completedAt.isSome = true ↔ row.status.IsTerminal

/-- The status looked up under the id of a row is the status of that row. -/
theorem statusOf_of_mem {tables : Tables} (hids : tables.UniqueIds) {row : ExecutionRow}
    (hmem : row ∈ tables.executions) : tables.statusOf row.id = some row.status := by
  rw [Tables.statusOf, Tables.execution, Table.lookup_of_mem hids hmem]
  rfl

theorem statusOf_eq_some_iff {tables : Tables} {id : String} {status : ExecutionStatus}
    (h : tables.statusOf id = some status) :
    ∃ row ∈ tables.executions, row.id = id ∧ row.status = status := by
  obtain ⟨row, hrow, rfl⟩ := Option.map_eq_some_iff.mp h
  obtain ⟨hmem, hid⟩ := Table.mem_of_lookup hrow
  exact ⟨row, hmem, hid, rfl⟩

section Step

variable {tables : Tables} (hids : tables.UniqueIds) {call : StoreCall}
  (hcall : ¬call.CancelsBare tables)
include hids hcall

/-- A call that does not cancel by a bare update sets the completion time of what it ends. -/
theorem RowStep.isComplete {events : List EventRow} {row row' : ExecutionRow}
    (hmem : row ∈ tables.executions) (h : RowStep call events row row') (hrow : row.IsComplete) :
    row'.IsComplete := by
  unfold ExecutionRow.IsComplete at hrow ⊢
  cases h with
  | same => exact hrow
  | pin => exact hrow
  | claim _ hs => simpa [hs, ExecutionStatus.IsTerminal] using hrow
  | cancelRunning hs => simpa [hs, ExecutionStatus.IsTerminal] using hrow
  | cancelBare heq hs =>
    rw [heq] at hcall
    refine absurd ?_ hcall
    rw [StoreCall.CancelsBare, statusOf_of_mem hids hmem, hs]
  | cancelQueued => simp [ExecutionStatus.IsTerminal]
  | ended _ ht _ => simpa using ht
  | requeued => simp [ExecutionStatus.IsTerminal]

theorem isComplete_apply (hrows : ∀ row ∈ tables.executions, row.IsComplete) :
    ∀ row ∈ (call.apply tables).executions, row.IsComplete := by
  intro row hmem
  cases call.apply_cases hids with
  | admitted _ hadmitted =>
    rw [hadmitted.rows, List.mem_append, List.mem_singleton] at hmem
    rcases hmem with hmem | rfl
    · exact hrows row hmem
    · obtain hs | hs := status_of_executionAdmission hadmitted.allowed <;>
        simp [ExecutionRow.IsComplete, Tables.Admission.row, Tables.Admission.record, hs,
          ExecutionStatus.IsTerminal]
  | deleted _ heq =>
    rw [heq] at hmem
    exact hrows row (List.mem_of_mem_filter hmem)
  | steps hsteps =>
    obtain ⟨events, -, hforall⟩ := hsteps
    obtain ⟨row₀, hmem₀, hstep⟩ := Table.exists_of_mem_forall₂ hforall hmem
    exact RowStep.isComplete hids hcall hmem₀ hstep (hrows row₀ hmem₀)

/-- A call that does not cancel by a bare update records what it ends. -/
theorem records_of_ends {id : String} {status : ExecutionStatus}
    (hafter : (call.apply tables).statusOf id = some status) (hterminal : status.IsTerminal)
    (hbefore : ¬tables.HasEnded id) :
    ∃ events, (call.apply tables).events = tables.events ++ events ∧
      Records events id status := by
  obtain ⟨row', hmem', rfl, rfl⟩ := statusOf_eq_some_iff hafter
  cases call.apply_cases hids with
  | admitted _ hadmitted =>
    rw [hadmitted.rows, List.mem_append, List.mem_singleton] at hmem'
    rcases hmem' with hmem' | rfl
    · exact absurd ⟨_, statusOf_of_mem hids hmem', hterminal⟩ hbefore
    · obtain hs | hs := status_of_executionAdmission hadmitted.allowed
      · rw [Tables.Admission.row_status, hs] at hterminal
        exact hterminal.elim
      · rw [Tables.Admission.row_status, hs] at hterminal
        exact hterminal.elim
  | deleted _ heq =>
    rw [heq] at hmem'
    exact absurd ⟨_, statusOf_of_mem hids (List.mem_of_mem_filter hmem'), hterminal⟩ hbefore
  | steps hsteps =>
    obtain ⟨events, hevents, hforall⟩ := hsteps
    obtain ⟨row, hmem, hstep⟩ := Table.exists_of_mem_forall₂ hforall hmem'
    have hrow : ¬row.status.IsTerminal := by
      intro ht
      rw [hstep.id_eq] at hbefore
      exact hbefore ⟨_, statusOf_of_mem hids hmem, ht⟩
    refine ⟨events, hevents, ?_⟩
    cases hstep with
    | same => exact absurd hterminal hrow
    | pin => exact absurd hterminal hrow
    | claim => exact hterminal.elim
    | cancelRunning => exact hterminal.elim
    | cancelBare heq hs =>
      rw [heq] at hcall
      refine absurd ?_ hcall
      rw [StoreCall.CancelsBare, statusOf_of_mem hids hmem, hs]
    | cancelQueued heq hs =>
      rw [heq] at hcall
      refine absurd ?_ hcall
      rw [StoreCall.CancelsBare, statusOf_of_mem hids hmem, hs]
    | ended _ _ hrecord => exact hrecord
    | requeued => exact hterminal.elim

end Step

/-- No call of the sequence cancels by a bare update. -/
def NoBareCancel (calls : List StoreCall) : Prop :=
  ∀ (n : Nat) (call : StoreCall), calls[n]? = some call →
    ¬call.CancelsBare (tablesAfter calls n)

theorem isComplete_tablesAfter {calls : List StoreCall} (hcalls : NoBareCancel calls) (n : Nat) :
    ∀ row ∈ (tablesAfter calls n).executions, row.IsComplete := by
  induction n with
  | zero => simp [tablesAfter]
  | succ n ih =>
    obtain heq | ⟨call, hcall, heq⟩ := tablesAfter_succ calls n
    · rw [heq]
      exact ih
    · rw [heq]
      exact isComplete_apply (uniqueIds_runCalls _) (hcalls n call hcall) ih

/-- **Terminal records are complete** when no call cancels by a bare update: the completion time is
set exactly on the executions that have ended, each end comes with an event of the same transaction,
and retention deletes every unpinned one once its time has passed. -/
theorem terminal_records_are_complete (calls : List StoreCall) (hcalls : NoBareCancel calls)
    (n : Nat) :
    (∀ row ∈ (tablesAfter calls n).executions,
      row.completedAt.isSome = true ↔ row.status.IsTerminal) ∧
    (∀ id status, EndsAt calls id n → (tablesAfter calls (n + 1)).statusOf id = some status →
      ∃ events, (tablesAfter calls (n + 1)).events = (tablesAfter calls n).events ++ events ∧
        Records events id status) ∧
    ∀ row ∈ (tablesAfter calls n).executions, row.status.IsTerminal → row.pinned = false →
      ∃ completedAt, row.completedAt = some completedAt ∧
        ∀ executionBefore eventBefore, completedAt < executionBefore →
          row ∉ ((tablesAfter calls n).applyRetention executionBefore eventBefore).executions := by
  have hcomplete := isComplete_tablesAfter hcalls n
  refine ⟨hcomplete, fun id status hends hstatus => ?_, fun row hmem hterminal hpinned => ?_⟩
  · have hterminal : status.IsTerminal := by
      obtain ⟨status', hstatus', hterminal⟩ := hends.1
      rw [hstatus] at hstatus'
      cases hstatus'
      exact hterminal
    obtain heq | ⟨call, hcall, heq⟩ := tablesAfter_succ calls n
    · rw [heq] at hstatus
      exact absurd ⟨status, hstatus, hterminal⟩ hends.2
    · rw [heq] at hstatus ⊢
      exact records_of_ends (uniqueIds_runCalls _) (hcalls n call hcall) hstatus hterminal hends.2
  · obtain ⟨completedAt, hcompleted⟩ := Option.isSome_iff_exists.mp
      ((hcomplete row hmem).mpr hterminal)
    refine ⟨completedAt, hcompleted, fun executionBefore eventBefore hlt hkept => ?_⟩
    have hexpired : Tables.isExpired executionBefore row = true := by
      rw [Tables.isExpired, hcompleted, hpinned]
      simpa only [Option.any_some, Bool.not_false, Bool.and_true] using decide_eq_true hlt
    have hrow := (List.mem_filter.mp hkept).2
    rw [hexpired] at hrow
    cases hrow

/-- A queued execution is cancelled through the management API. -/
def cancelledInQueue : List StoreCall :=
  [.create (sampleAdmission "e1" "w" (some oneAtATime)),
    .create (sampleAdmission "e2" "w" (some oneAtATime)),
    .requestCancelOutcome "e2" "2026-01-01T00:00:01Z"]

theorem cancelledInQueue_is_complete :
    EndsAt cancelledInQueue "e2" 2 ∧
      (∀ row ∈ (tablesAfter cancelledInQueue 3).executions,
        row.completedAt.isSome = true ↔ row.status.IsTerminal) ∧
      ∃ events, (tablesAfter cancelledInQueue 3).events =
        (tablesAfter cancelledInQueue 2).events ++ events ∧ Records events "e2" .cancelled := by
  have hcalls : NoBareCancel cancelledInQueue := by
    intro n call hcall
    have hmem : call ∈ cancelledInQueue := List.mem_of_getElem? hcall
    simp only [cancelledInQueue, List.mem_cons, List.not_mem_nil, or_false] at hmem
    rcases hmem with rfl | rfl | rfl <;> exact id
  have hqueued : (tablesAfter cancelledInQueue 2).statusOf "e2" = some .queued := by decide
  have hcancelled : (tablesAfter cancelledInQueue 3).statusOf "e2" = some .cancelled := by
    decide
  have hends : EndsAt cancelledInQueue "e2" 2 := by
    refine ⟨⟨.cancelled, hcancelled, trivial⟩, ?_⟩
    rintro ⟨status, hstatus, hterminal⟩
    rw [hqueued] at hstatus
    cases hstatus
    exact hterminal
  exact ⟨hends, (terminal_records_are_complete _ hcalls 3).1,
    (terminal_records_are_complete _ hcalls 2).2.1 "e2" .cancelled hends hcancelled⟩

/-- The same through `POST /api/v1/executions/{id}/cancel`, which calls
`request_execution_cancel`. -/
def cancelledByBareUpdate : List StoreCall :=
  [.create (sampleAdmission "e1" "w" (some oneAtATime)),
    .create (sampleAdmission "e2" "w" (some oneAtATime)), .requestCancel "e2"]

/-- The cancelled execution has no completion time and no event, and retention never deletes it. -/
theorem bare_cancel_leaves_no_record :
    EndsAt cancelledByBareUpdate "e2" 2 ∧
      (tablesAfter cancelledByBareUpdate 3).events = (tablesAfter cancelledByBareUpdate 2).events ∧
      ∃ row ∈ (tablesAfter cancelledByBareUpdate 3).executions, row.id = "e2" ∧
        row.status = .cancelled ∧ row.pinned = false ∧ row.completedAt = none ∧
        ∀ executionBefore eventBefore, row ∈ ((tablesAfter cancelledByBareUpdate 3).applyRetention
          executionBefore eventBefore).executions := by
  have hrow : (tablesAfter cancelledByBareUpdate 3).execution "e2" =
      some { (sampleAdmission "e2" "w" (some oneAtATime)).row .cancelled with } := by
    decide
  have hcancelled : (tablesAfter cancelledByBareUpdate 3).statusOf "e2" = some .cancelled := by
    rw [Tables.statusOf, hrow]
    rfl
  have hqueued : (tablesAfter cancelledByBareUpdate 2).statusOf "e2" = some .queued := by
    decide
  refine ⟨⟨⟨.cancelled, hcancelled, trivial⟩, ?_⟩, by decide, ?_⟩
  · rintro ⟨status, hstatus, hterminal⟩
    rw [hqueued] at hstatus
    cases hstatus
    exact hterminal
  · obtain ⟨hmem, -⟩ := Table.mem_of_lookup hrow
    refine ⟨_, hmem, rfl, rfl, rfl, rfl, fun executionBefore eventBefore => ?_⟩
    exact List.mem_filter.mpr ⟨hmem, rfl⟩

end KakuneCore
